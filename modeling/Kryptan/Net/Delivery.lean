import Kryptan.Net.Connections

/-!
# Net/Delivery — how often the activity is shown a file

    worker:    mState = READING · publish · … · mState = WAITING · publish · wait
    queue:                 READING             DECRYPTING        WAITING
    UI thread:             ╰── each delivery looks at mState, not at the message

A message of a client that waits shows its file, whichever message it is.  The other clients are
stopped at the first file, so all files shown come from one client (`Roster`); and a client has one
ticket for a message that is *about* waiting (`tickets`).  **So the file is shown once as long as
only that message finds the client waiting** (`allStates_receivedOnce`) — messages left over from
READING and DECRYPTING show it again.
-/

namespace Kryptan

open Runs

/-- The worker has not yet told that it waits. -/
def WorkerPc.mayTellWaiting : WorkerPc → Bool
  | .notStarted | .setRun | .connect | .openOut | .openIn | .loop | .read | .afterLoop
  | .handleRead => true
  | .setState s | .publish s => s = .reading ∨ s = .decrypting ∨ s = .waiting
  | _ => false

namespace TcpClient

variable {F : Type*}

/-- The messages about waiting that a worker still has to put into the queue. -/
def ticket (c : TcpClient F) : ℕ := c.pc.mayTellWaiting.toNat

/-- The message about waiting takes the ticket with it. -/
theorem ticket_publish (s : STATES) (isCancelled : Bool) :
    (if isCancelled then [] else [Message.progress s]).count (.progress .waiting) +
      (afterPublish s).mayTellWaiting.toNat ≤ (WorkerPc.publish s).mayTellWaiting.toNat := by
  cases s <;> cases isCancelled <;> decide

/-- A statement that comes back keeps the ticket at most, or turns it into the message. -/
theorem ticket_advance {N : PwdFileNatives F} {c c' : TcpClient F} {msgs : List Message}
    (h : c.advance N = some (c', msgs)) :
    msgs.count (.progress .waiting) + c'.ticket ≤ c.ticket := by
  revert h
  fun_cases advance N c <;> intro h <;>
    simp only [Option.some.injEq, Prod.mk.injEq, reduceCtorEq] at h <;> obtain ⟨rfl, rfl⟩ := h <;>
    have hpc := ‹c.pc = _› <;> simp only [ticket, hpc, List.count_nil, Nat.zero_add]
  all_goals first
    | exact Bool.toNat_le _
    | exact le_rfl
    | exact ticket_publish _ _
    | dsimp only [goto]
      split <;> exact le_rfl

/-- **A worker tells once that it waits**: the message uses up its ticket. -/
theorem ticket_work {N : PwdFileNatives F} {c c' : TcpClient F} {o : Outcome} {msgs : List Message}
    (h : c.work N o = some (c', msgs)) :
    msgs.count (.progress .waiting) + c'.ticket ≤ c.ticket := by
  cases workStep_of_work h with
  | advance h => exact ticket_advance h
  | readChar hpc ch =>
    have hone : c.ticket = 1 := by rw [ticket, hpc]; rfl
    rw [List.count_nil, Nat.zero_add, hone]
    exact Bool.toNat_le _
  | _ => exact Nat.zero_le _

end TcpClient

namespace Connections

variable {n : ℕ} {F : Type*} {N : PwdFileNatives F} {s t : Connections n F}

/-- **What is to hold**: `tcpClientPwdFileReceived` runs at most once. -/
def ReceivedOnce (s : Connections n F) : Prop := s.received.length ≤ 1

/-- Of the messages delivered from a client that listens, only the one about waiting finds it
waiting. -/
def FindsItsState (s : Connections n F) : ConnectionsEvent n F → Prop
  | .deliver _ =>
    match s.queue with
    | (c, .progress publishedFor) :: _ =>
      (s.clients c).mMessageListener = true → (s.clients c).mState = .waiting →
        publishedFor = .waiting
    | _ => True
  | _ => True

instance (s : Connections n F) (e : ConnectionsEvent n F) : Decidable (FindsItsState s e) := by
  unfold FindsItsState
  split
  · split <;> infer_instance
  · infer_instance

/-! ## One client -/

/-- The clients that can still call the activity: those that are trying, or the one that had a file
to show.  All files shown are from one client. -/
structure Roster (s : Connections n F) : Prop where
  live : ∀ c, (s.clients c).isCancelled = false →
    c ∈ s.mTcpClients ∨ s.mTcpClientResponsive = some c
  alone : ∀ c, s.mTcpClientResponsive = some c → s.mTcpClients = ∅
  listening : ∀ c, (s.clients c).mMessageListener = true → (s.clients c).isCancelled = false
  shown : ∀ x ∈ s.received, ∀ c, (s.clients c).isCancelled = false → c = x.1
  same : ∀ x ∈ s.received, ∀ y ∈ s.received, x.1 = y.1

theorem roster_start (key : List Char) : Roster (start n key : Connections n F) where
  live c _ := .inl (Finset.mem_univ c)
  alone _ h := nomatch h
  listening _ _ := rfl
  shown _ h := absurd h List.not_mem_nil
  same _ h := absurd h List.not_mem_nil

theorem listening_stopClients {cs : Finset (Fin n)}
    (h : ∀ c, (s.clients c).mMessageListener = true → (s.clients c).isCancelled = false) (c : Fin n)
    (hc : ((s.stopClients cs).clients c).mMessageListener = true) :
    ((s.stopClients cs).clients c).isCancelled = false := by
  by_cases hmem : c ∈ cs
  · rw [Connections.stopClients] at hc
    dsimp only at hc
    rw [if_pos hmem] at hc
    exact absurd hc Bool.false_ne_true
  · rw [clients_stopClients hmem] at hc ⊢
    exact h c hc

/-- After a failure nobody is left to call the activity. -/
theorem Roster.syncFailed (h : Roster s) (message : String) : Roster (s.syncFailed message) := by
  have hnone : ∀ c, ((s.syncFailed message).clients c).isCancelled ≠ false := fun c hlive => by
    obtain ⟨hc, hlive⟩ := isCancelled_stopClients.mp hlive
    rw [Finset.mem_union, Option.mem_toFinset, Option.mem_def] at hc
    exact hc (h.live c hlive)
  exact ⟨fun c hc => absurd hc (hnone c), fun _ hc => (nomatch hc),
    listening_stopClients h.listening, fun _ _ c hc => absurd hc (hnone c), h.same⟩

theorem Roster.tcpClientFailed (h : Roster s) (c : Fin n) (message : String) :
    Roster (s.tcpClientFailed c message) := by
  have hremoved : Roster { s.stopClients {c} with mTcpClients := s.mTcpClients.erase c } := by
    refine ⟨fun d hd => ?_, fun d hd => ?_, listening_stopClients h.listening, fun x hx d hd => ?_,
      h.same⟩
    · obtain ⟨hne, hlive⟩ := isCancelled_stopClients.mp hd
      exact (h.live d hlive).imp_left
        (Finset.mem_erase_of_ne_of_mem (Finset.notMem_singleton.mp hne))
    · exact (congrArg (Finset.erase · c) (h.alone d hd)).trans (Finset.erase_empty c)
    · exact h.shown x hx d (isCancelled_stopClients.mp hd).2
  unfold Connections.tcpClientFailed
  dsimp only
  split
  · exact hremoved.syncFailed message
  · exact hremoved

/-- **Once a client has shown its file, the others are stopped.** -/
theorem Roster.tcpClientPwdFileReceived (h : Roster s) {c : Fin n}
    (hlive : (s.clients c).isCancelled = false) (newFile : Option F) (throws : Option String) :
    Roster (s.tcpClientPwdFileReceived c newFile throws) := by
  have honly : ∀ d, ((s.stopClients (s.mTcpClients.erase c)).clients d).isCancelled = false →
      d = c := fun d hd => by
    obtain ⟨hmem, hd⟩ := isCancelled_stopClients.mp hd
    by_contra hne
    rcases h.live d hd with htrying | hresponsive
    · exact hmem (Finset.mem_erase_of_ne_of_mem hne htrying)
    · have hempty := h.alone d hresponsive
      rcases h.live c hlive with hc | hc
      · exact Finset.notMem_empty c (hempty ▸ hc)
      · exact hne (Option.some.inj (hresponsive.symm.trans hc))
  have hshown : Roster { s.stopClients (s.mTcpClients.erase c) with
      mTcpClients := ∅
      mTcpClientResponsive := some c
      received := (c, newFile) :: s.received } := by
    have hold : ∀ x ∈ (c, newFile) :: s.received, x.1 = c := fun x hx => by
      rcases List.mem_cons.mp hx with rfl | hx
      · rfl
      · exact (h.shown x hx c hlive).symm
    exact ⟨fun d hd => .inr (congrArg some (honly d hd).symm), fun _ _ => rfl,
      listening_stopClients h.listening, fun x hx d hd => (honly d hd).trans (hold x hx).symm,
      fun x hx y hy => (hold x hx).trans (hold y hy).symm⟩
  unfold Connections.tcpClientPwdFileReceived
  cases throws with
  | none => exact hshown
  | some message => exact hshown.syncFailed message

/-- The activity does not notice a client that changes in what only the worker reads and writes. -/
theorem Roster.update (h : Roster s) {c : Fin n} {c' : TcpClient F}
    (hclients : t.clients = Function.update s.clients c c')
    (hcancelled : c'.isCancelled = (s.clients c).isCancelled)
    (hlistener : c'.mMessageListener = (s.clients c).mMessageListener)
    (hmTcpClients : t.mTcpClients = s.mTcpClients)
    (hresponsive : t.mTcpClientResponsive = s.mTcpClientResponsive)
    (hreceived : t.received = s.received) : Roster t := by
  have hsame : ∀ d, (t.clients d).isCancelled = (s.clients d).isCancelled ∧
      (t.clients d).mMessageListener = (s.clients d).mMessageListener := fun d => by
    rw [hclients]
    rcases eq_or_ne d c with rfl | hne
    · rw [Function.update_self]
      exact ⟨hcancelled, hlistener⟩
    · rw [Function.update_of_ne hne]
      exact ⟨rfl, rfl⟩
  refine ⟨fun d hd => ?_, fun d hd => ?_, fun d hd => ?_, fun x hx d hd => ?_, fun x hx y hy => ?_⟩
  · rw [hmTcpClients, hresponsive]
    exact h.live d ((hsame d).1.symm.trans hd)
  · exact hmTcpClients.trans (h.alone d (hresponsive.symm.trans hd))
  · exact (hsame d).1.trans (h.listening d ((hsame d).2.symm.trans hd))
  · exact h.shown x (hreceived ▸ hx) d ((hsame d).1.symm.trans hd)
  · exact h.same x (hreceived ▸ hx) y (hreceived ▸ hy)

theorem Roster.onProgressUpdate (h : Roster s) (c : Fin n) (throws : Option String) :
    Roster (s.onProgressUpdate c throws) := by
  unfold Connections.onProgressUpdate
  split_ifs with hlistener
  · split
    case h_1 => exact h.tcpClientPwdFileReceived (h.listening c hlistener) _ throws
    all_goals exact h
  · exact h

theorem Roster.onPostExecute (h : Roster s) (c : Fin n) : Roster (s.onPostExecute c) := by
  unfold Connections.onPostExecute
  split_ifs
  · exact h.tcpClientFailed c _
  · exact ⟨h.live, h.alone, h.listening, h.shown, h.same⟩
  · exact h

theorem Roster.sendResponseButtonClicked (h : Roster s) (merged : Except String F) :
    Roster (s.sendResponseButtonClicked merged) := by
  unfold Connections.sendResponseButtonClicked
  split
  · exact h.syncFailed _
  · split
    · exact h.syncFailed _
    · exact h.update rfl rfl rfl rfl rfl rfl

/-- **Every event keeps the roster.** -/
theorem Roster.step (h : Roster s) {e : ConnectionsEvent n F} (hstep : s.step N e = some t) :
    Roster t := by
  cases e with
  | work c o =>
    obtain ⟨⟨c', msgs⟩, hwork, rfl⟩ := Option.map_eq_some_iff.mp hstep
    have hsame := TcpClient.sameUi_of_work hwork
    exact h.update rfl hsame.isCancelled hsame.mMessageListener rfl rfl rfl
  | deliver throws =>
    obtain ⟨c, message, queue, hqueue, rfl⟩ := deliver_eq_some hstep
    have hpopped : Roster { s with queue := queue } :=
      ⟨h.live, h.alone, h.listening, h.shown, h.same⟩
    cases message with
    | progress _ => exact hpopped.onProgressUpdate c throws
    | result =>
      unfold handleMessage
      dsimp only
      split_ifs
      · exact hpopped
      · exact hpopped.onPostExecute c
  | accept merged =>
    obtain rfl := accept_eq_some hstep
    exact h.sendResponseButtonClicked merged
  | cancel =>
    obtain rfl := Option.some.inj hstep
    exact h.syncFailed _

/-! ## One message -/

/-- The messages about waiting that a client still has to send, those in the queue, and the files
shown from it. -/
def tickets (s : Connections n F) (c : Fin n) : ℕ :=
  (s.clients c).ticket + s.queue.count (c, .progress .waiting) + (s.received.map Prod.fst).count c

/-- Nothing is shown between `s` and `t`, and no worker moves. -/
structure Unshown (s t : Connections n F) : Prop where
  pc : ∀ c, (t.clients c).pc = (s.clients c).pc
  queue : t.queue = s.queue
  received : t.received = s.received

theorem Unshown.tickets_eq (h : Unshown s t) (c : Fin n) : t.tickets c = s.tickets c := by
  rw [tickets, tickets, TcpClient.ticket, TcpClient.ticket, h.pc, h.queue, h.received]

theorem Unshown.refl (s : Connections n F) : Unshown s s := ⟨fun _ => rfl, rfl, rfl⟩

theorem Unshown.trans {u : Connections n F} (h : Unshown s t) (h' : Unshown t u) : Unshown s u :=
  ⟨fun c => (h'.pc c).trans (h.pc c), h'.queue.trans h.queue, h'.received.trans h.received⟩

theorem unshown_stopClients (s : Connections n F) (cs : Finset (Fin n)) :
    Unshown s (s.stopClients cs) :=
  ⟨fun c => (sameWorker_stopClients s cs c).pc, rfl, rfl⟩

theorem unshown_syncFailed (s : Connections n F) (message : String) :
    Unshown s (s.syncFailed message) :=
  have h := unshown_stopClients s (s.mTcpClients ∪ s.mTcpClientResponsive.toFinset)
  ⟨h.pc, h.queue, h.received⟩

theorem unshown_onPostExecute (s : Connections n F) (c : Fin n) :
    Unshown s (s.onPostExecute c) := by
  have hstop := unshown_stopClients s {c}
  have hremoved : Unshown s { s.stopClients {c} with mTcpClients := s.mTcpClients.erase c } :=
    ⟨hstop.pc, hstop.queue, hstop.received⟩
  unfold onPostExecute tcpClientFailed tcpClientFinished
  dsimp only
  split_ifs
  · exact hremoved.trans (unshown_syncFailed _ _)
  · exact hremoved
  · exact ⟨fun _ => rfl, rfl, rfl⟩
  · exact .refl s

theorem unshown_sendResponseButtonClicked (s : Connections n F) (merged : Except String F) :
    Unshown s (s.sendResponseButtonClicked merged) := by
  unfold sendResponseButtonClicked
  split
  · exact unshown_syncFailed s _
  · split
    · exact unshown_syncFailed s _
    next c _ =>
    refine ⟨fun d => ?_, rfl, rfl⟩
    dsimp only
    rcases eq_or_ne d c with rfl | hne
    · rw [Function.update_self]
      rfl
    · rw [Function.update_of_ne hne]

/-- A file shown is one file more from its client. -/
theorem tickets_tcpClientPwdFileReceived (s : Connections n F) (c : Fin n) (newFile : Option F)
    (throws : Option String) (d : Fin n) :
    (s.tcpClientPwdFileReceived c newFile throws).tickets d
      = s.tickets d + if c = d then 1 else 0 := by
  have hstop := unshown_stopClients s (s.mTcpClients.erase c)
  have hshown : tickets { s.stopClients (s.mTcpClients.erase c) with
      mTcpClients := ∅
      mTcpClientResponsive := some c
      received := (c, newFile) :: s.received } d = s.tickets d + if c = d then 1 else 0 := by
    rw [← hstop.tickets_eq d, tickets, tickets, List.map_cons, List.count_cons]
    simp only [beq_iff_eq]
    exact (Nat.add_assoc _ _ _).symm
  unfold tcpClientPwdFileReceived
  cases throws with
  | none => exact hshown
  | some message => exact ((unshown_syncFailed _ message).tickets_eq d).trans hshown

/-- Taking a message out of the queue gives up its ticket. -/
theorem tickets_pop {c : Fin n} {message : Message} {queue : List (Fin n × Message)}
    (hqueue : s.queue = (c, message) :: queue) (d : Fin n) :
    tickets { s with queue := queue } d
      + (if c = d ∧ message = .progress .waiting then 1 else 0) = s.tickets d := by
  have hcount : s.queue.count (d, .progress .waiting)
      = queue.count (d, .progress .waiting)
        + if c = d ∧ message = .progress .waiting then 1 else 0 := by
    rw [hqueue, List.count_cons]
    simp only [beq_iff_eq, Prod.mk.injEq]
  rw [tickets, tickets, hcount]
  dsimp only
  omega

/-- A worker's step turns its ticket into a message. -/
theorem tickets_work {c : Fin n} {o : Outcome} {c' : TcpClient F} {msgs : List Message}
    (hwork : (s.clients c).work N o = some (c', msgs)) (d : Fin n) :
    tickets { s with
      clients := Function.update s.clients c c'
      queue := s.queue ++ msgs.map (Prod.mk c) } d ≤ s.tickets d := by
  unfold tickets
  dsimp only
  rw [List.count_append]
  rcases eq_or_ne d c with rfl | hne
  · have hticket := TcpClient.ticket_work hwork
    rw [Function.update_self, List.count_map_of_injective _ _ (Prod.mk_right_injective d)]
    omega
  · have hnone : (msgs.map (Prod.mk c)).count (d, .progress .waiting) = 0 := by
      refine List.count_eq_zero_of_not_mem fun hmem => ?_
      obtain ⟨m, -, heq⟩ := List.mem_map.mp hmem
      exact hne (Prod.mk.inj heq).1.symm
    rw [Function.update_of_ne hne, hnone]
    omega

/-- A message is delivered: if it shows a file, its own ticket pays for it. -/
theorem tickets_handleMessage {c : Fin n} {message : Message} {queue : List (Fin n × Message)}
    (hqueue : s.queue = (c, message) :: queue) {throws : Option String}
    (hfinds : FindsItsState s (.deliver throws)) (d : Fin n) :
    ({ s with queue := queue }.handleMessage c throws message).tickets d ≤ s.tickets d := by
  have hpop := tickets_pop hqueue d
  cases message with
  | progress publishedFor =>
    simp only [FindsItsState, hqueue] at hfinds
    unfold handleMessage onProgressUpdate
    dsimp only
    split_ifs with hlistener
    · split
      case h_1 hwaiting =>
        obtain rfl := hfinds hlistener hwaiting
        rw [tickets_tcpClientPwdFileReceived, ← hpop]
        simp
      all_goals omega
    · omega
  | result =>
    unfold handleMessage
    dsimp only
    split_ifs
    · omega
    · rw [(unshown_onPostExecute _ c).tickets_eq d]
      omega

/-- **No event adds a ticket**, as long as messages find their state. -/
theorem tickets_step {e : ConnectionsEvent n F} (hfinds : FindsItsState s e)
    (hstep : s.step N e = some t) (d : Fin n) : t.tickets d ≤ s.tickets d := by
  cases e with
  | work c o =>
    obtain ⟨⟨c', msgs⟩, hwork, rfl⟩ := Option.map_eq_some_iff.mp hstep
    exact tickets_work hwork d
  | deliver throws =>
    obtain ⟨c, message, queue, hqueue, rfl⟩ := deliver_eq_some hstep
    exact tickets_handleMessage hqueue hfinds d
  | accept merged =>
    obtain rfl := accept_eq_some hstep
    exact ((unshown_sendResponseButtonClicked s merged).tickets_eq d).le
  | cancel =>
    obtain rfl := Option.some.inj hstep
    exact ((unshown_syncFailed s _).tickets_eq d).le

/-- Files shown from one client, and no more than one of them. -/
theorem Roster.receivedOnce (h : Roster s) (htickets : ∀ c, s.tickets c ≤ 1) : ReceivedOnce s := by
  unfold ReceivedOnce
  rcases hreceived : s.received with _ | ⟨x, xs⟩
  · exact Nat.zero_le 1
  have hall : ∀ c ∈ s.received.map Prod.fst, x.1 = c := fun c hc => by
    obtain ⟨y, hy, rfl⟩ := List.mem_map.mp hc
    exact h.same x (hreceived ▸ List.mem_cons_self) y hy
  have hcount : (s.received.map Prod.fst).count x.1 = s.received.length :=
    (List.count_eq_length.mpr hall).trans (List.length_map _)
  have hone := htickets x.1
  rw [tickets, hcount, hreceived] at hone
  exact (Nat.le_add_left _ _).trans hone

/-- **The file is shown once, as long as messages find their state.** -/
theorem allStates_receivedOnce (N : PwdFileNatives F) (key : List Char)
    {es : List (ConnectionsEvent n F)}
    (hes : AllSteps (step N) FindsItsState (start n key) es) :
    AllStates (step N) ReceivedOnce (start n key) es := by
  have hinv : AllStates (step N) (fun s => Roster s ∧ ∀ c, s.tickets c ≤ 1) (start n key) es := by
    refine AllSteps.allStates (fun s e t hs hfinds hstep => ?_) ⟨roster_start key, fun _ => ?_⟩ hes
    · exact ⟨hs.1.step hstep, fun c => (tickets_step hfinds hstep c).trans (hs.2 c)⟩
    · exact le_rfl
  exact hinv.mono fun s hs => hs.1.receivedOnce hs.2

/-- The UI thread keeps up with the worker. -/
theorem allStates_receivedOnce_plainExchange :
    AllStates (step plainFiles) ReceivedOnce (start 1 ['k']) plainExchange :=
  allStates_receivedOnce plainFiles ['k'] (by decide +kernel)

/-- The worker waits before the UI thread comes to the first message. -/
def workerAhead : List (ConnectionsEvent 1 (List Char)) := List.flatten
  [workerSteps (List.replicate 8 .ok), workerSteps [.char 'k', .ok, .char '#'],
    workerSteps (List.replicate 7 .ok), [.deliver none, .deliver none]]

/-- The messages about READING and DECRYPTING both show the file. -/
theorem not_receivedOnce_workerAhead :
    ¬ ∀ (n : ℕ) (key : List Char) (es : List (ConnectionsEvent n (List Char)))
      (s : Connections n (List Char)), run (step plainFiles) (start n key) es = some s →
        ReceivedOnce s := by
  intro h
  have hend : (run (step plainFiles) (start 1 ['k']) workerAhead).any
      (fun s => s.received.length = 2) = true := by decide +kernel
  obtain ⟨s, hrun, hs⟩ := (Option.any_eq_true _ _).mp hend
  have honce := h 1 ['k'] workerAhead s hrun
  rw [ReceivedOnce, of_decide_eq_true hs] at honce
  exact absurd honce (by decide)

end Connections

end Kryptan
