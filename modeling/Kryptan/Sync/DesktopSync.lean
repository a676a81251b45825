import Kryptan.Net.Delivery
import Kryptan.Net.Exchange
import Kryptan.Sync.BreakOff
import Kryptan.Sync.History

/-!
# Sync/DesktopSync — a whole sync, from the desktop's text to the desktop's list

    desktop d ──text '#'──▸ client ──▸ file ──▸ items, clicks ──accept──▸ merged list
        ▴                                                                     │
        ╰──────── opens ◂── text '#' ◂── SaveToString ◂── client ◂────────────╯

`Net/Exchange` says what a client has read and sent, `Sync/Merge` what the choices make of two
lists.  Here the activity is put together: its clients, the list of the phone, and the items it
shows.  **A sync that is reported is the sync of `Sync/History`**, the snapshot of one desktop's
list, the clicks of the run applied to the phone's, and the adoption of the result (`refines_sync`) —
as long as messages find the state they were published for, so that the items are shown once.
-/

namespace Kryptan

open ConflictChoice SyncAdapter SyncronizeDesktopActivity Runs CoreSecureStringHandler

variable {n : ℕ} {L ι : Type*}

/-- The clients of `SyncronizeDesktopActivity`, the list of its password file, the items of its
adapter, and whether these are in view, with no progress dialog over them.  Recorded are the items
that were applied to the list. -/
structure DesktopSync (n : ℕ) (L : Type*) where
  connections : Connections n L
  mLocalPwdFile : L
  mSyncAdapter : List ConflictChoice
  listShown : Bool
  applied : List ConflictChoice

/-- What happens, once the QR code is read.  A message that shows a file may throw, and so may
accepting the items, which then leaves its loop somewhere. -/
inductive DesktopSyncEvent (n : ℕ) where
  | work (c : Fin n) (o : Outcome)
  | deliver (throws : Option String)
  | click (i : ℕ) (b : Button)
  | accept (throwsAt : Option (BreakOff × String))
  | cancel

/-- The button that an event clicks. -/
def DesktopSyncEvent.clicked : DesktopSyncEvent n → Option (ℕ × Button)
  | .click i b => some (i, b)
  | _ => none

namespace DesktopSync

/-- The clicks of a run. -/
def clicks (es : List (DesktopSyncEvent n)) : List (ℕ × Button) :=
  es.filterMap DesktopSyncEvent.clicked

/-! ## The activity -/

section Activity

variable (N : PwdFileNatives L) (C : CorePwdList L) (lastSyncTime : ℤ)

/-- The clients are started, and the progress dialog is shown. -/
def start (n : ℕ) (mEncryptionKey : List Char) (mLocalPwdFile : L) : DesktopSync n L where
  connections := .start n mEncryptionKey
  mLocalPwdFile := mLocalPwdFile
  mSyncAdapter := []
  listShown := false
  applied := []

/-- `listDifferences`, in `tcpClientPwdFileReceived`. -/
def listDifferences (s : DesktopSync n L) : Option L → Except String (List ConflictChoice)
  | some newFile => createSyncItemList lastSyncTime (C.all s.mLocalPwdFile) (C.all newFile)
  | none => .error "null"

/-- The file that the next message shows. -/
def nextShown (s : DesktopSync n L) : Option (Fin n × Option L) :=
  match s.connections.queue with
  | (c, .progress _) :: _ =>
    if (s.connections.clients c).mMessageListener ∧ (s.connections.clients c).mState = .waiting then
      some (c, (s.connections.clients c).mNewFile)
    else none
  | _ => none

/-- The UI thread handles a message. -/
def deliver (s : DesktopSync n L) (throws : Option String) : Option (DesktopSync n L) :=
  match s.nextShown with
  | none => (s.connections.step N (.deliver none)).map fun t => { s with connections := t }
  | some (_, newFile) =>
    match throws.elim (s.listDifferences C lastSyncTime newFile) .error with
    | .ok items =>
      (s.connections.step N (.deliver none)).map fun t =>
        { s with connections := t, mSyncAdapter := items, listShown := true }
    | .error message =>
      (s.connections.step N (.deliver (some message))).map fun t => { s with connections := t }

/-- Neither an error nor the success has been reported, in a dialog that is closed with the
activity. -/
def unreported (s : DesktopSync n L) : Bool :=
  s.connections.errors.isEmpty && s.connections.finished.isEmpty

/-- The items can be clicked and accepted: nothing is over them. -/
def choosing (s : DesktopSync n L) : Bool := s.listShown && s.unreported

/-- The progress dialog can be cancelled: it is in front. -/
def waiting (s : DesktopSync n L) : Bool := !s.listShown && s.unreported

/-- `sendResponseButtonClicked`, which an exception may leave. -/
def accept (s : DesktopSync n L) : Option (BreakOff × String) → Option (DesktopSync n L)
  | none =>
    let merged := (applyChoices C s.mLocalPwdFile s.mSyncAdapter).list
    (s.connections.step N (.accept (.ok merged))).map fun t =>
      { s with
        connections := t
        mLocalPwdFile := merged
        listShown := false
        applied := s.applied ++ s.mSyncAdapter }
  | some (b, message) =>
    (s.connections.step N (.accept (.error message))).map fun t =>
      { s with
        connections := t
        mLocalPwdFile := applyChoicesUpTo C s.mLocalPwdFile s.mSyncAdapter b
        listShown := false
        applied := s.applied ++ b.items s.mSyncAdapter }

/-- One event. -/
def step (s : DesktopSync n L) : DesktopSyncEvent n → Option (DesktopSync n L)
  | .work c o => (s.connections.step N (.work c o)).map fun t => { s with connections := t }
  | .deliver throws => s.deliver N C lastSyncTime throws
  | .click i b =>
    if s.choosing then some { s with mSyncAdapter := clickItem s.mSyncAdapter (i, b) } else none
  | .accept throwsAt => if s.choosing then s.accept N C throwsAt else none
  | .cancel =>
    if s.waiting then (s.connections.step N .cancel).map fun t => { s with connections := t }
    else none

end Activity

/-- The message that is delivered finds the state it was published for. -/
def FindsItsState (s : DesktopSync n L) : DesktopSyncEvent n → Prop
  | .deliver _ => s.connections.FindsItsState (.deliver none)
  | _ => True

instance (s : DesktopSync n L) : ∀ e, Decidable (FindsItsState s e)
  | .deliver _ => inferInstanceAs (Decidable (s.connections.FindsItsState (.deliver none)))
  | .work _ _ | .click _ _ | .accept _ | .cancel => isTrue trivial

/-! ## What an event does to the clients -/

section Clients

variable {N : PwdFileNatives L} {C : CorePwdList L} {lastSyncTime : ℤ} {s t : DesktopSync n L}

/-- **Every event is one of the clients and the UI thread**, or a click that they do not notice. -/
theorem exists_connections_step {e : DesktopSyncEvent n} (h : s.step N C lastSyncTime e = some t) :
    t.connections = s.connections ∨
      ∃ e', s.connections.step N e' = some t.connections ∧
        (FindsItsState s e → s.connections.FindsItsState e') := by
  cases e with
  | click i b =>
    obtain ⟨-, heq⟩ := Option.ite_none_right_eq_some.mp h
    exact .inl (congrArg connections (Option.some.inj heq)).symm
  | work c o =>
    obtain ⟨u, hu, rfl⟩ := Option.map_eq_some_iff.mp h
    exact .inr ⟨_, hu, fun _ => trivial⟩
  | deliver throws =>
    rw [step, deliver] at h
    split at h
    · obtain ⟨u, hu, rfl⟩ := Option.map_eq_some_iff.mp h
      exact .inr ⟨_, hu, id⟩
    · split at h <;> obtain ⟨u, hu, rfl⟩ := Option.map_eq_some_iff.mp h
      · exact .inr ⟨_, hu, id⟩
      · exact .inr ⟨_, hu, id⟩
  | accept throwsAt =>
    obtain ⟨-, h⟩ := Option.ite_none_right_eq_some.mp h
    cases throwsAt <;> obtain ⟨u, hu, rfl⟩ := Option.map_eq_some_iff.mp h <;>
      exact .inr ⟨_, hu, fun _ => trivial⟩
  | cancel =>
    obtain ⟨-, h⟩ := Option.ite_none_right_eq_some.mp h
    obtain ⟨u, hu, rfl⟩ := Option.map_eq_some_iff.mp h
    exact .inr ⟨_, hu, fun _ => trivial⟩

/-- A message adds the file it shows to the files received, and hands nothing over. -/
theorem received_deliver {throws : Option String} {u : Connections n L}
    (h : s.connections.step N (.deliver throws) = some u) :
    u.received = s.nextShown.toList ++ s.connections.received ∧
      u.handed = s.connections.handed := by
  obtain ⟨c, message, queue, hqueue, rfl⟩ := Connections.deliver_eq_some h
  cases message with
  | result =>
    have hnone : s.nextShown = none := by
      rw [nextShown, hqueue]
    rw [hnone]
    unfold Connections.handleMessage Connections.onPostExecute Connections.tcpClientFailed
    dsimp only
    split_ifs <;> exact ⟨rfl, rfl⟩
  | progress publishedFor =>
    unfold Connections.handleMessage Connections.onProgressUpdate
    dsimp only
    split_ifs with hlistener
    · split
      case h_1 hwaiting =>
        have hsome : s.nextShown = some (c, (s.connections.clients c).mNewFile) := by
          rw [nextShown, hqueue]
          exact if_pos ⟨hlistener, hwaiting⟩
        rw [hsome]
        cases throws <;> exact ⟨rfl, rfl⟩
      all_goals
        next hstate =>
        have hnone : s.nextShown = none := by
          rw [nextShown, hqueue]
          exact if_neg fun h => absurd (hstate.symm.trans h.2) (by decide)
        rw [hnone]
        exact ⟨rfl, rfl⟩
    · have hnone : s.nextShown = none := by
        rw [nextShown, hqueue]
        exact if_neg fun h => hlistener h.1
      rw [hnone]
      exact ⟨rfl, rfl⟩

/-- An accepted file is handed over, if there is still a client to hand it to. -/
theorem handed_accept {merged : L} {u : Connections n L}
    (h : s.connections.step N (.accept (.ok merged)) = some u) :
    u.received = s.connections.received ∧
      (u.handed = s.connections.handed ∨ ∃ c, u.handed = (c, merged) :: s.connections.handed) := by
  obtain rfl := Connections.accept_eq_some h
  unfold Connections.sendResponseButtonClicked
  dsimp only
  split
  · exact ⟨rfl, .inl rfl⟩
  · exact ⟨rfl, .inr ⟨_, rfl⟩⟩

end Clients

/-! ## How far a sync is -/

/-- **How far a sync is**, from a phone with the list `phone`, with one file shown at most and after
some clicks: from the file that was shown to the list that was handed over. -/
inductive Progress (C : CorePwdList L) (lastSyncTime : ℤ) (phone : L) (clicks : List (ℕ × Button))
    (s : DesktopSync n L) : Prop where
  | connecting (hreceived : s.connections.received = []) (hhanded : s.connections.handed = [])
    (hhidden : s.listShown = false) (hclicks : clicks = []) (hphone : s.mLocalPwdFile = phone)
  | choosing {c f items} (hreceived : s.connections.received = [(c, some f)])
    (hhanded : s.connections.handed = [])
    (hitems : createSyncItemList lastSyncTime (C.all phone) (C.all f) = .ok items)
    (hadapter : s.mSyncAdapter = clickItems items clicks) (hphone : s.mLocalPwdFile = phone)
  | sent {c f c' items} (hreceived : s.connections.received = [(c, some f)])
    (hhanded : s.connections.handed = [(c', s.mLocalPwdFile)]) (hhidden : s.listShown = false)
    (hitems : createSyncItemList lastSyncTime (C.all phone) (C.all f) = .ok items)
    (hphone : s.mLocalPwdFile = (applyChoices C phone (clickItems items clicks)).list)
  | failed (hreceived : s.connections.received ≠ []) (hhanded : s.connections.handed = [])
    (hhidden : s.listShown = false)

section Progress

variable {N : PwdFileNatives L} {C : CorePwdList L} {lastSyncTime : ℤ} {phone : L}
  {made : List (ℕ × Button)} {s t : DesktopSync n L}

/-- Where nothing is shown, clicked, accepted or handed over, a sync is as far as it was. -/
theorem Progress.of_same (h : Progress C lastSyncTime phone made s)
    (hreceived : t.connections.received = s.connections.received)
    (hhanded : t.connections.handed = s.connections.handed)
    (hphone : t.mLocalPwdFile = s.mLocalPwdFile) (hadapter : t.mSyncAdapter = s.mSyncAdapter)
    (hshown : t.listShown = s.listShown) : Progress C lastSyncTime phone made t := by
  cases h with
  | connecting hnone hnobody hhidden hclicks hlist =>
    exact .connecting (hreceived.trans hnone) (hhanded.trans hnobody) (hshown.trans hhidden) hclicks
      (hphone.trans hlist)
  | choosing hone hnobody hitems hclicks hlist =>
    exact .choosing (hreceived.trans hone) (hhanded.trans hnobody) hitems (hadapter.trans hclicks)
      (hphone.trans hlist)
  | sent hone hsent hhidden hitems hlist =>
    exact .sent (hreceived.trans hone) (hphone ▸ hhanded.trans hsent) (hshown.trans hhidden) hitems
      (hphone.trans hlist)
  | failed hsome hnobody hhidden =>
    exact .failed (hreceived ▸ hsome) (hhanded.trans hnobody) (hshown.trans hhidden)

/-- What can be clicked and accepted is a choice. -/
theorem Progress.exists_items (h : Progress C lastSyncTime phone made s)
    (hchoosing : s.choosing = true) :
    ∃ c f items, s.connections.received = [(c, some f)] ∧ s.connections.handed = [] ∧
      createSyncItemList lastSyncTime (C.all phone) (C.all f) = .ok items ∧
      s.mSyncAdapter = clickItems items made ∧ s.mLocalPwdFile = phone := by
  have hshown : s.listShown = true := (Bool.and_eq_true_iff.mp hchoosing).1
  cases h with
  | choosing hone hnobody hitems hclicks hlist =>
    exact ⟨_, _, _, hone, hnobody, hitems, hclicks, hlist⟩
  | connecting _ _ hhidden | sent _ _ hhidden | failed _ _ hhidden =>
    exact absurd (hhidden.symm.trans hshown) Bool.false_ne_true

/-- Before a file is shown, the list is the phone's, and nothing is in view or was clicked. -/
theorem Progress.of_received_nil (h : Progress C lastSyncTime phone made s)
    (hnone : s.connections.received = []) :
    s.connections.handed = [] ∧ s.listShown = false ∧ made = [] ∧ s.mLocalPwdFile = phone := by
  cases h with
  | connecting _ hnobody hhidden hclicks hlist => exact ⟨hnobody, hhidden, hclicks, hlist⟩
  | choosing hone | sent hone => exact absurd (hone.symm.trans hnone) (List.cons_ne_nil _ _)
  | failed hsome => exact absurd hnone hsome

/-- Items are listed of a file, and where nothing throws. -/
theorem exists_listed {throws : Option String} {newFile : Option L} {items : List ConflictChoice}
    (h : throws.elim (s.listDifferences C lastSyncTime newFile) .error = .ok items) :
    ∃ f, newFile = some f ∧
      createSyncItemList lastSyncTime (C.all s.mLocalPwdFile) (C.all f) = .ok items := by
  cases throws with
  | some message => exact nomatch h
  | none =>
    cases newFile with
    | none => exact nomatch h
    | some f => exact ⟨f, rfl, h⟩

/-- A message shows the items of the first file, or nothing. -/
theorem Progress.deliver (h : Progress C lastSyncTime phone made s) {throws : Option String}
    (ht : s.deliver N C lastSyncTime throws = some t) (honce : t.connections.received.length ≤ 1) :
    Progress C lastSyncTime phone made t := by
  rw [DesktopSync.deliver] at ht
  split at ht
  case h_1 hnone =>
    obtain ⟨u, hu, rfl⟩ := Option.map_eq_some_iff.mp ht
    obtain ⟨hreceived, hhanded⟩ := received_deliver hu
    rw [hnone] at hreceived
    exact h.of_same hreceived hhanded rfl rfl rfl
  case h_2 c newFile hsome =>
  -- a second file would be one too many
  have hfirst : ∀ u : Connections n L, u.received = s.nextShown.toList ++ s.connections.received →
      u.received.length ≤ 1 →
      u.received = [(c, newFile)] ∧ s.connections.received = [] := fun u hu hlen => by
    rw [hu, hsome, List.length_append] at hlen
    have hnil : s.connections.received = [] :=
      List.eq_nil_of_length_eq_zero (Nat.le_zero.mp (Nat.le_of_add_le_add_left hlen))
    rw [hu, hsome, hnil]
    exact ⟨rfl, rfl⟩
  split at ht <;> obtain ⟨u, hu, rfl⟩ := Option.map_eq_some_iff.mp ht <;>
    obtain ⟨hreceived, hhanded⟩ := received_deliver hu <;>
    obtain ⟨hone, hnil⟩ := hfirst u hreceived honce <;>
    obtain ⟨hnobody, hhidden, rfl, hlist⟩ := h.of_received_nil hnil
  case h_1 items hlisted =>
    obtain ⟨f, rfl, hitems⟩ := exists_listed hlisted
    rw [hlist] at hitems
    exact .choosing hone (hhanded.trans hnobody) hitems rfl hlist
  case h_2 message herror =>
    exact .failed (hone ▸ List.cons_ne_nil _ _) (hhanded.trans hnobody) hhidden

/-- The choices are applied to the phone's list, which is handed over. -/
theorem Progress.accept (h : Progress C lastSyncTime phone made s) (hchoosing : s.choosing = true)
    {throwsAt : Option (BreakOff × String)} (ht : s.accept N C throwsAt = some t) :
    Progress C lastSyncTime phone made t := by
  obtain ⟨c, f, items, hone, hnobody, hitems, hclicks, hlist⟩ := h.exists_items hchoosing
  cases throwsAt with
  | some p =>
    obtain ⟨u, hu, rfl⟩ := Option.map_eq_some_iff.mp ht
    obtain rfl := Connections.accept_eq_some hu
    exact .failed (hone ▸ List.cons_ne_nil _ _) hnobody rfl
  | none =>
    obtain ⟨u, hu, rfl⟩ := Option.map_eq_some_iff.mp ht
    obtain ⟨hreceived, hhanded | ⟨c', hhanded⟩⟩ := handed_accept hu
    · exact .failed (hreceived.trans hone ▸ List.cons_ne_nil _ _) (hhanded.trans hnobody) rfl
    · rw [hnobody] at hhanded
      exact .sent (hreceived.trans hone) hhanded rfl hitems (by rw [hclicks, hlist])

/-- **Every event takes a sync on**, as long as one file is shown at most. -/
theorem Progress.step (h : Progress C lastSyncTime phone made s) {e : DesktopSyncEvent n}
    (ht : s.step N C lastSyncTime e = some t) (honce : t.connections.received.length ≤ 1) :
    Progress C lastSyncTime phone (made ++ clicks [e]) t := by
  cases e with
  | work c o =>
    obtain ⟨u, hu, rfl⟩ := Option.map_eq_some_iff.mp ht
    obtain ⟨r, -, rfl⟩ := Option.map_eq_some_iff.mp hu
    exact (List.append_nil made).symm ▸ h.of_same rfl rfl rfl rfl rfl
  | deliver throws => exact (List.append_nil made).symm ▸ h.deliver ht honce
  | click i b =>
    obtain ⟨hchoosing, heq⟩ := Option.ite_none_right_eq_some.mp ht
    obtain rfl := Option.some.inj heq
    obtain ⟨c, f, items, hone, hnobody, hitems, hclicks, hlist⟩ := h.exists_items hchoosing
    have happend : clickItems items (made ++ [(i, b)])
        = clickItem (clickItems items made) (i, b) := List.foldl_append ..
    exact .choosing hone hnobody hitems
      ((congrArg (clickItem · (i, b)) hclicks).trans happend.symm) hlist
  | accept throwsAt =>
    obtain ⟨hchoosing, ht⟩ := Option.ite_none_right_eq_some.mp ht
    exact (List.append_nil made).symm ▸ h.accept hchoosing ht
  | cancel =>
    obtain ⟨-, ht⟩ := Option.ite_none_right_eq_some.mp ht
    obtain ⟨u, hu, rfl⟩ := Option.map_eq_some_iff.mp ht
    obtain rfl := Option.some.inj hu
    exact (List.append_nil made).symm ▸ h.of_same rfl rfl rfl rfl rfl

end Progress

/-! ## The transmission key -/

/-- All clients have the key of the QR code. -/
def Keyed (key : List Char) (s : Connections n L) : Prop :=
  ∀ c, (s.clients c).mEncryptionKey = key

section Keyed

variable {N : PwdFileNatives L} {key : List Char} {s t : Connections n L}

theorem Keyed.stopClients (h : Keyed key s) (cs : Finset (Fin n)) : Keyed key (s.stopClients cs) :=
  fun c => (s.sameWorker_stopClients cs c).mEncryptionKey.trans (h c)

theorem Keyed.update (h : Keyed key s) {c : Fin n} {c' : TcpClient L}
    (hc' : c'.mEncryptionKey = (s.clients c).mEncryptionKey)
    (ht : t.clients = Function.update s.clients c c') : Keyed key t := fun d => by
  rw [ht]
  rcases eq_or_ne d c with rfl | hne
  · rw [Function.update_self]
    exact hc'.trans (h d)
  · rw [Function.update_of_ne hne]
    exact h d

/-- A message changes no key. -/
theorem Keyed.handleMessage (h : Keyed key s) (c : Fin n) (throws : Option String)
    (message : Message) : Keyed key (s.handleMessage c throws message) := by
  cases message with
  | progress publishedFor =>
    unfold Connections.handleMessage Connections.onProgressUpdate
    dsimp only
    split_ifs
    · split
      · cases throws with
        | none => exact h.stopClients _
        | some m => exact (h.stopClients _).stopClients _
      all_goals exact h
    · exact h
  | result =>
    unfold Connections.handleMessage Connections.onPostExecute Connections.tcpClientFailed
    dsimp only
    split_ifs
    · exact h
    · exact (h.stopClients _).stopClients _
    · exact h.stopClients _
    · exact h
    · exact h

/-- **No event changes a key.** -/
theorem Keyed.step (h : Keyed key s) {e : ConnectionsEvent n L} (ht : s.step N e = some t) :
    Keyed key t := by
  cases e with
  | work c o =>
    obtain ⟨⟨c', msgs⟩, hwork, rfl⟩ := Option.map_eq_some_iff.mp ht
    exact h.update (TcpClient.sameUi_of_work hwork).mEncryptionKey rfl
  | deliver throws =>
    obtain ⟨c, message, queue, -, rfl⟩ := Connections.deliver_eq_some ht
    exact Keyed.handleMessage (s := { s with queue := queue }) h c throws message
  | accept merged =>
    obtain rfl := Connections.accept_eq_some ht
    unfold Connections.sendResponseButtonClicked
    split
    · exact h.stopClients _
    · split
      · exact h.stopClients _
      · exact h.update (TcpClient.sameWorker_sendMergedPwdFile _ _).mEncryptionKey rfl
  | cancel =>
    obtain rfl := Option.some.inj ht
    exact h.stopClients _

end Keyed

/-! ## A whole sync -/

end DesktopSync

/-- A text that a file is saved to has no stop sign in it, and opens under the key it was saved with
to a file of the same passwords. -/
structure PwdFileNatives.Lawful (N : PwdFileNatives L) (C : CorePwdList L) : Prop where
  noStopSign : ∀ file key mashCount seed, '#' ∉ N.saveToString file key mashCount seed
  opens : ∀ file key mashCount seed, ∃ file',
    N.tryOpenAndParse key (N.saveToString file key mashCount seed) = some file' ∧
      C.contents file' = C.contents file

namespace DesktopSync

/-- What the other side opens: the text up to the stop sign, under the key of the QR code. -/
def opened (N : PwdFileNatives L) (key sent : List Char) : Option L :=
  N.tryOpenAndParse (appendString newSecureString key) (sent.takeWhile (· ≠ '#'))

section Run

variable {N : PwdFileNatives L} {C : CorePwdList L} {lastSyncTime : ℤ} {phone : L} {key : List Char}
  {made : List (ℕ × Button)} {s t : DesktopSync n L}

/-- What holds of a sync after some clicks, as long as messages find their state. -/
structure Inv (N : PwdFileNatives L) (C : CorePwdList L) (lastSyncTime : ℤ) (phone : L)
    (key : List Char) (made : List (ℕ × Button)) (s : DesktopSync n L) : Prop where
  clients : Connections.Inv N s.connections
  roster : s.connections.Roster
  tickets : ∀ c, s.connections.tickets c ≤ 1
  keyed : Keyed key s.connections
  progress : Progress C lastSyncTime phone made s

theorem inv_start (N : PwdFileNatives L) (C : CorePwdList L) (lastSyncTime : ℤ) (phone : L)
    (key : List Char) : Inv N C lastSyncTime phone key [] (start n key phone) where
  clients := Connections.inv_start N key
  roster := Connections.roster_start key
  tickets _ := le_rfl
  keyed _ := rfl
  progress := .connecting rfl rfl rfl rfl rfl

theorem Inv.step (h : Inv N C lastSyncTime phone key made s) {e : DesktopSyncEvent n}
    (hfinds : FindsItsState s e) (ht : s.step N C lastSyncTime e = some t) :
    Inv N C lastSyncTime phone key (made ++ clicks [e]) t := by
  have hclients : Connections.Inv N t.connections ∧ t.connections.Roster ∧
      (∀ c, t.connections.tickets c ≤ 1) ∧ Keyed key t.connections := by
    rcases exists_connections_step ht with heq | ⟨e', hstep, hfinds'⟩
    · rw [heq]
      exact ⟨h.clients, h.roster, h.tickets, h.keyed⟩
    · exact ⟨h.clients.step hstep, h.roster.step hstep, fun c =>
        (Connections.tickets_step (hfinds' hfinds) hstep c).trans (h.tickets c), h.keyed.step hstep⟩
  obtain ⟨hinv, hroster, htickets, hkeyed⟩ := hclients
  exact ⟨hinv, hroster, htickets, hkeyed, h.progress.step ht (hroster.receivedOnce htickets)⟩

/-- **The invariant after a run**, with the clicks of the run. -/
theorem run_inv {es : List (DesktopSyncEvent n)}
    (hes : AllSteps (DesktopSync.step N C lastSyncTime) FindsItsState (start n key phone) es)
    (hs : run (DesktopSync.step N C lastSyncTime) (start n key phone) es = some s) :
    Inv N C lastSyncTime phone key (clicks es) s := by
  have hstart : Inv N C lastSyncTime phone key (clicks ([] : List (DesktopSyncEvent n)))
      (start n key phone) := inv_start ..
  have hend := hes.run_record (I := fun es s => Inv N C lastSyncTime phone key (clicks es) s)
    (fun es s e t h hfinds ht => by
      rw [clicks, List.filterMap_append]
      exact h.step hfinds ht) hstart hs
  rwa [List.nil_append] at hend

/-- A text with its stop sign is read up to it. -/
theorem takeWhile_append_stopSign {text : List Char} (h : '#' ∉ text) :
    (text ++ ['#']).takeWhile (· ≠ '#') = text := by
  have hall : ∀ a ∈ text, decide (a ≠ '#') = true := fun a ha =>
    decide_eq_true (ne_of_mem_of_not_mem ha h)
  rw [List.takeWhile_append_of_pos hall]
  exact List.append_nil text

/-- **A sync that is reported is the sync of the history**, with the clicks of the run.  If the desktop
sent its list, then what it opens of the answer is what it adopts there, and the phone is left with
the list it has there. -/
theorem refines_sync [DecidableEq ι] (hN : N.Lawful C) {h : History L ι} {d : ι}
    (hidle : h.adopted = none) {remote : L} (hremote : C.contents remote = h.desktops d)
    {es : List (DesktopSyncEvent n)}
    (hes : AllSteps (step N C h.lastSyncTime) FindsItsState (start n key h.phone) es)
    (hs : run (step N C h.lastSyncTime) (start n key h.phone) es = some s) {c : Fin n}
    (hc : c ∈ s.connections.finished) (hfine : s.connections.SocketFine c) {mashCount seed : ℕ}
    (hsent : (s.connections.clients c).socket.read
      = N.saveToString remote (appendString newSecureString key) mashCount seed ++ ['#']) :
    ∃ remoteArray h', h.step C (.sync d remoteArray (clicks es)) = some h' ∧
      s.mLocalPwdFile = h'.phone ∧
      ∃ file, opened N key (s.connections.clients c).socket.accepted = some file ∧
        C.contents file = h'.desktops d := by
  have hinv := run_inv hes hs
  obtain ⟨message, hread, -, -, ⟨f, hf, hopen⟩, ⟨g, hg, seed', haccepted⟩, -⟩ :=
    ((hinv.clients c).finished hc).2 hfine
  have hkey : (s.connections.clients c).transmissionKey = appendString newSecureString key :=
    congrArg (appendString newSecureString) (hinv.keyed c)
  rw [hkey] at hopen haccepted
  obtain rfl := List.append_cancel_right (hread.symm.trans hsent)
  obtain ⟨f', hopen', hcontents⟩ := hN.opens remote (appendString newSecureString key) mashCount seed
  obtain rfl := Option.some.inj (hopen'.symm.trans hopen)
  -- something was handed over, so one file was shown and its choices were accepted
  cases hinv.progress with
  | connecting _ hnobody | choosing _ hnobody | failed _ hnobody =>
    exact absurd hg (by simp [Connections.handedTo, hnobody])
  | @sent c₀ f₀ c' items hreceived hhanded hhidden hitems hphone =>
    obtain ⟨-, rfl⟩ : c = c₀ ∧ f' = f₀ := by
      simpa [Connections.receivedFrom, hreceived] using hf
    obtain ⟨-, rfl⟩ : c = c' ∧ g = s.mLocalPwdFile := by
      simpa [Connections.handedTo, hhanded] using hg
    have hdata : (C.all f').map CorePwd.data = h.desktops d := hcontents.trans hremote
    have hstep : h.step C (.sync d (C.all f') (clicks es))
        = h.syncWith C d (C.all f') (clicks es) := if_pos ⟨hidle, hdata⟩
    rw [History.syncWith, hitems] at hstep
    refine ⟨_, _, hstep, hphone, ?_⟩
    obtain ⟨file, hfile, hadopted⟩ :=
      hN.opens s.mLocalPwdFile (appendString newSecureString key) 100 seed'
    refine ⟨file, ?_, ?_⟩
    · rw [opened, haccepted, takeWhile_append_stopSign (hN.noStopSign _ _ _ _)]
      exact hfile
    · rw [hadopted, hphone]
      exact (Function.update_self d _ h.desktops).symm

end Run

/-! ## A desktop that behaves -/

/-- A list of passwords that are nothing but the second they were created in. -/
def secondsList : CorePwdList (List ℕ) where
  all l := l.zipIdx.map fun x => ⟨x.2, ⟨[], [], [], [], x.1, x.1⟩⟩
  filter _ _ := []
  filterByLabels _ _ := []
  filterLabels _ _ := []
  createPwd l now _ _ _ := (l ++ [now.toNat], ⟨l.length, ⟨[], [], [], [], now, now⟩⟩)
  deletePwd l p := l.eraseIdx p.nativeHandle
  importPwd l p := l ++ [p.getTimeCreated.toNat]
  edit l _ _ _ := l

/-- The seconds of a text, and the seconds counted before the first of them. -/
def parseSeconds (text : List Char) : ℕ × List ℕ :=
  text.foldr (fun ch r => if ch = 't' then (0, r.1 :: r.2) else (r.1 + 1, r.2)) (0, [])

/-- The text of a key, and of a list. -/
def keyText (key : SecureString) : List Char :=
  key.flatMap fun b => '.' :: List.replicate b.toNat 'k'

def secondsText (l : List ℕ) : List Char := l.flatMap fun t => 't' :: List.replicate t '1'

/-- Files that are written as the key and their seconds. -/
def secondsFiles : PwdFileNatives (List ℕ) where
  tryOpenAndParse key data :=
    if (keyText key).isPrefixOf data then some (parseSeconds (data.drop (keyText key).length)).2
    else none
  saveToString file key _ _ := keyText key ++ secondsText file

theorem parseSeconds_secondsText (l : List ℕ) : parseSeconds (secondsText l) = (0, l) := by
  induction l with
  | nil => rfl
  | cons t l ih =>
    have hcount : ∀ k : ℕ, parseSeconds (List.replicate k '1' ++ secondsText l) = (k, l) := by
      intro k
      induction k with
      | zero => exact ih
      | succ k ihk =>
        rw [List.replicate_succ, List.cons_append, parseSeconds, List.foldr_cons, ← parseSeconds,
          ihk]
        rfl
    rw [secondsText, List.flatMap_cons, List.cons_append, parseSeconds, List.foldr_cons,
      ← parseSeconds, ← secondsText, hcount]
    rfl

theorem secondsFiles_lawful : secondsFiles.Lawful secondsList where
  noStopSign file key _ _ := by
    rw [secondsFiles, List.mem_append, keyText, secondsText, List.mem_flatMap, List.mem_flatMap]
    simp [List.mem_replicate]
  opens file key _ _ := by
    have hprefix : (keyText key).isPrefixOf (keyText key ++ secondsText file) = true :=
      List.isPrefixOf_iff_prefix.mpr (List.prefix_append _ _)
    have hparse : (parseSeconds ((keyText key ++ secondsText file).drop (keyText key).length)).2
        = file := by
      rw [List.drop_left, parseSeconds_secondsText]
    exact ⟨file, (if_pos hprefix).trans (congrArg some hparse), rfl⟩

/-- Steps of the only worker that come back. -/
def oks (k : ℕ) : List (DesktopSyncEvent 1) := List.replicate k (.work (Fin.last 0) .ok)

/-- A desktop sends a list, the phone shows it, and the user clicks and accepts. -/
def upToAccept (seconds : List Char) (cs : List (ℕ × Button)) : List (DesktopSyncEvent 1) :=
  let char (ch : Char) : DesktopSyncEvent 1 := .work (Fin.last 0) (.char ch)
  List.flatten [oks 8, ('.' :: 'k' :: seconds).flatMap fun ch => char ch :: oks 1,
    [char '#', .deliver none], oks 3, [.deliver none], oks 4, [.deliver none],
    cs.map fun b => .click b.1 b.2, [.accept none]]

/-- …and the merged list is sent. -/
def plainSync (seconds : List Char) (cs : List (ℕ × Button)) : List (DesktopSyncEvent 1) :=
  List.flatten [upToAccept seconds cs, oks 5, [.work (Fin.last 0) (.saved 0)], oks 5,
    List.replicate 3 (.deliver none)]

/-- A desktop with one password sends it to a phone with another.  The user does not want it, and
both are left with the phone's. -/
theorem refines_sync_plainSync :
    let h : History (List ℕ) Unit :=
      { History.start [1] 5 with desktops := fun _ => secondsList.contents [2] }
    let key := ['\x01']
    let es := plainSync ['t', '1', '1'] [(0, .chooseLocal)]
    ∃ s, run (step secondsFiles secondsList 0) (start 1 key [1]) es = some s ∧
      s.mLocalPwdFile = [1] ∧
      ∃ remoteArray h', h.step secondsList (.sync () remoteArray (clicks es)) = some h' ∧
        s.mLocalPwdFile = h'.phone ∧
        ∃ file, opened secondsFiles key (s.connections.clients 0).socket.accepted = some file ∧
          secondsList.contents file = h'.desktops () := by
  intro h key es
  have hend : (run (step secondsFiles secondsList 0) (start 1 key [1]) es).any
      (fun s => s.mLocalPwdFile = [1] ∧ 0 ∈ s.connections.finished ∧ s.connections.SocketFine 0 ∧
        (s.connections.clients 0).socket.read
          = secondsFiles.saveToString [2] (appendString newSecureString key) 100 0 ++ ['#'])
      = true := by decide +kernel
  obtain ⟨s, hrun, hs⟩ := (Option.any_eq_true _ _).mp hend
  obtain ⟨hlist, hmem, hfine, hsent⟩ := of_decide_eq_true hs
  have hfinds : AllSteps (step secondsFiles secondsList h.lastSyncTime) FindsItsState
      (start 1 key h.phone) es := by decide +kernel
  exact ⟨s, hrun, hlist, refines_sync secondsFiles_lawful rfl rfl hfinds hrun hmem hfine hsent⟩

end DesktopSync

end Kryptan
