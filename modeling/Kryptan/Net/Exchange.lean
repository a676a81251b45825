import Kryptan.Net.Connections
import Kryptan.Net.Stages

/-!
# Net/Exchange — a sync that is reported as successful

    message '#' ──▸ open file ──▸ tcpClientPwdFileReceived
                                            │
    text '#'  ◂── SaveToString ◂── sendMergedPwdFile          … tcpClientFinished

`tcpClientFinished` is what moves LAST_SYNC_TIME, and `onPostExecute` calls it for every worker that
ended without an error.  **The exchange behind it is complete exactly when the desktop sent more
than a stop sign and no write to it failed** (`complete_iff`): the worker takes an empty message for
an answer, and skips or swallows a failed write.
-/

namespace Kryptan

open Runs CoreSecureStringHandler

namespace Connections

variable {n : ℕ} {F : Type*} {N : PwdFileNatives F}

/-- The files received from a client, as the activity saw them. -/
def receivedFrom (s : Connections n F) (c : Fin n) : Set F := {f | (c, some f) ∈ s.received}

/-- The files handed to a client. -/
def handedTo (s : Connections n F) (c : Fin n) : Set F := {g | (c, g) ∈ s.handed}

/-- **A complete exchange**: a message read up to the first stop sign, opened and shown, and a file
handed over, whose text the stream took with its stop sign. -/
def Complete (N : PwdFileNatives F) (s : Connections n F) (c : Fin n) : Prop :=
  ∃ message, (s.clients c).socket.read = message ++ ['#'] ∧ '#' ∉ message ∧ message ≠ [] ∧
    (∃ f ∈ s.receivedFrom c,
      N.tryOpenAndParse (s.clients c).transmissionKey message = some f) ∧
    (∃ g ∈ s.handedTo c, ∃ seed, (s.clients c).socket.accepted
      = N.saveToString g (s.clients c).transmissionKey 100 seed ++ ['#']) ∧
    (s.clients c).socket.trouble = false

/-- What the socket has seen of a client that deserves to be reported: more than a stop sign, and
no failed write. -/
def SocketFine (s : Connections n F) (c : Fin n) : Prop :=
  (s.clients c).socket.read ≠ ['#'] ∧ (s.clients c).socket.trouble = false

instance (s : Connections n F) (c : Fin n) : Decidable (SocketFine s c) :=
  inferInstanceAs (Decidable (_ ∧ _))

theorem Complete.socketFine {s : Connections n F} {c : Fin n} (h : Complete N s c) :
    SocketFine s c := by
  obtain ⟨message, hread, -, hne, -, -, hok⟩ := h
  refine ⟨fun hstop => hne ?_, hok⟩
  exact List.append_left_eq_self.mp (hread.symm.trans hstop)

/-- What is known about a client reported as finished. -/
def Finished (N : PwdFileNatives F) (s : Connections n F) (c : Fin n) : Prop :=
  (s.clients c).pc = .done ∧ (SocketFine s c → Complete N s c)

/-- What is known about one client: about its worker, about it as the responsive one, about its
result in the queue and about it as finished. -/
structure InvAt (N : PwdFileNatives F) (s : Connections n F) (c : Fin n) : Prop where
  tracked : (s.clients c).isCancelled = false →
    (s.clients c).Tracked N (s.receivedFrom c) (s.handedTo c)
  responsive : s.mTcpClientResponsive = some c → (s.clients c).isCancelled = false →
    ∃ f ∈ s.receivedFrom c, (s.clients c).mNewFile = some f
  result : (c, .result) ∈ s.queue → (s.clients c).pc = .done
  finished : c ∈ s.finished → Finished N s c

/-- The invariant. -/
def Inv (N : PwdFileNatives F) (s : Connections n F) : Prop := ∀ c, InvAt N s c

theorem inv_start (N : PwdFileNatives F) (key : List Char) : Inv N (start n key) := fun c => by
  have hnone : (start n key : Connections n F).handedTo c = ∅ :=
    Set.eq_empty_of_forall_notMem fun _ => List.not_mem_nil
  refine ⟨fun _ => ?_, fun h => (nomatch h), fun h => absurd h List.not_mem_nil,
    fun h => absurd h List.not_mem_nil⟩
  rw [hnone]
  exact TcpClient.tracked_new N _ key

variable {s t : Connections n F}

/-- A report stays right when the worker stands where it stood and files are added. -/
theorem Finished.of_sameWorker {c : Fin n} (h : Finished N s c)
    (hsame : (s.clients c).SameWorker (t.clients c))
    (hreceived : s.receivedFrom c ⊆ t.receivedFrom c) (hhanded : s.handedTo c ⊆ t.handedTo c) :
    Finished N t c := by
  have hkey : (t.clients c).transmissionKey = (s.clients c).transmissionKey :=
    congrArg (appendString newSecureString) hsame.mEncryptionKey
  obtain ⟨hdone, hcomplete⟩ := h
  refine ⟨hsame.pc.trans hdone, fun hfine => ?_⟩
  rw [SocketFine, hsame.socket] at hfine
  obtain ⟨message, hread, hstop, hne, ⟨f, hf, hopen⟩, ⟨g, hg, seed, haccepted⟩, hok⟩ :=
    hcomplete hfine
  refine ⟨message, ?_, hstop, hne, ⟨f, hreceived hf, ?_⟩, ⟨g, hhanded hg, seed, ?_⟩, ?_⟩
  · rw [hsame.socket, hread]
  · rw [hkey, hopen]
  · rw [hsame.socket, hkey, haccepted]
  · rw [hsame.socket, hok]

/-- A client that is as it was, of which only more files were shown. -/
theorem InvAt.of_same {c : Fin n} (h : InvAt N s c) (hclient : t.clients c = s.clients c)
    (hreceived : s.receivedFrom c ⊆ t.receivedFrom c) (hhanded : t.handedTo c = s.handedTo c)
    (hresponsive : t.mTcpClientResponsive = some c → s.mTcpClientResponsive = some c)
    (hresult : (c, .result) ∈ t.queue → (c, .result) ∈ s.queue)
    (hfinished : c ∈ t.finished → c ∈ s.finished) : InvAt N t c := by
  have hsame : (s.clients c).SameWorker (t.clients c) := hclient ▸ .refl _
  refine ⟨fun hlive => ?_, fun hc hlive => ?_, fun hmem => ?_, fun hmem => ?_⟩
  · rw [hclient] at hlive ⊢
    rw [hhanded]
    exact (h.tracked hlive).mono hreceived
  · rw [hclient] at hlive ⊢
    obtain ⟨f, hf, hfile⟩ := h.responsive (hresponsive hc) hlive
    exact ⟨f, hreceived hf, hfile⟩
  · exact hsame.pc.trans (h.result (hresult hmem))
  · exact (h.finished (hfinished hmem)).of_sameWorker hsame hreceived hhanded.superset

/-! ### On the UI thread -/

theorem Inv.stopClients (h : Inv N s) (cs : Finset (Fin n)) :
    Inv N (s.stopClients cs) := fun c => by
  have hsame := sameWorker_stopClients s cs c
  refine ⟨fun hlive => ?_, fun hc hlive => ?_, fun hmem => hsame.pc.trans ((h c).result hmem),
    fun hmem => ((h c).finished hmem).of_sameWorker hsame subset_rfl subset_rfl⟩
  all_goals
    obtain ⟨hstays, hlive⟩ := isCancelled_stopClients.mp hlive
    rw [clients_stopClients hstays]
  · exact (h c).tracked hlive
  · exact (h c).responsive hc hlive

theorem Inv.syncFailed (h : Inv N s) (message : String) : Inv N (s.syncFailed message) := fun c =>
  ((h.stopClients (s.mTcpClients ∪ s.mTcpClientResponsive.toFinset)) c).of_same rfl subset_rfl rfl
    (fun hc => (nomatch hc)) id id

theorem Inv.tcpClientFailed (h : Inv N s) (c : Fin n) (message : String) :
    Inv N (s.tcpClientFailed c message) := by
  have hremoved : Inv N { s.stopClients {c} with mTcpClients := s.mTcpClients.erase c } := fun d =>
    ((h.stopClients {c}) d).of_same rfl subset_rfl rfl id id id
  unfold Connections.tcpClientFailed
  dsimp only
  split
  · exact hremoved.syncFailed message
  · exact hremoved

/-- The activity is shown a file of a client that waits with it. -/
theorem Inv.tcpClientPwdFileReceived (h : Inv N s) {c : Fin n}
    (hwaiting : (s.clients c).mState = .waiting) (throws : Option String) :
    Inv N (s.tcpClientPwdFileReceived c (s.clients c).mNewFile throws) := by
  have hshown : Inv N { s.stopClients (s.mTcpClients.erase c) with
      mTcpClients := ∅
      mTcpClientResponsive := some c
      received := (c, (s.clients c).mNewFile) :: s.received } := fun d => by
    have hstop := h.stopClients (s.mTcpClients.erase c) d
    have hmore : ∀ f, (d, some f) ∈ s.received →
        (d, some f) ∈ (c, (s.clients c).mNewFile) :: s.received := fun f hf =>
      List.mem_cons_of_mem _ hf
    refine ⟨fun hd => (hstop.tracked hd).mono hmore, fun hd hlive => ?_, hstop.result, fun hd =>
      (hstop.finished hd).of_sameWorker (.refl _) hmore subset_rfl⟩
    obtain rfl := Option.some.inj hd
    obtain ⟨hstays, hlive⟩ := isCancelled_stopClients.mp hlive
    obtain ⟨f, hf⟩ := ((h c).tracked hlive).waiting hwaiting
    refine ⟨f, ?_, (congrArg TcpClient.mNewFile (clients_stopClients hstays)).trans hf⟩
    rw [hf]
    exact List.mem_cons_self
  unfold Connections.tcpClientPwdFileReceived
  cases throws with
  | none => exact hshown
  | some message => exact hshown.syncFailed message

/-- A worker that has ended without an error has exchanged what there was. -/
theorem InvAt.finished_of_done {c : Fin n} (h : InvAt N s c) (hdone : (s.clients c).pc = .done)
    (hlive : (s.clients c).isCancelled = false) (hok : (s.clients c).hasError = false) :
    Finished N s c := by
  have htracked := h.tracked hlive
  have hnone : (s.clients c).mError = none := by
    rw [Option.eq_none_iff_forall_ne_some]
    intro m hm
    have hpos := htracked.error m hm
    rw [TcpClient.hasError, hm, Option.any_some, decide_eq_false_iff_not] at hok
    exact hok hpos
  have hstage := htracked.stage
  rw [hdone] at hstage
  obtain ⟨⟨hread, hstop⟩, hrest⟩ := hstage hnone
  refine ⟨hdone, fun ⟨hmore, htrouble⟩ => ?_⟩
  have hne : (s.clients c).serverMessage ≠ [] := fun hempty => hmore (by rw [hread, hempty]; rfl)
  obtain ⟨⟨f, hf, hopen⟩, text, ⟨g, hg, seed, rfl⟩, haccepted⟩ := hrest hne htrouble
  obtain ⟨f', hf', heq⟩ := htracked.shown ⟨g, hg⟩
  obtain rfl := Option.some.inj (hf.symm.trans heq)
  exact ⟨_, hread, hstop, hne, ⟨f, hf', hopen⟩, ⟨g, hg, seed, haccepted⟩, htrouble⟩

theorem Inv.tcpClientFinished (h : Inv N s) {c : Fin n} (hc : Finished N s c) :
    Inv N (s.tcpClientFinished c) := fun d => by
  refine ⟨(h d).tracked, (h d).responsive, (h d).result, fun hd => ?_⟩
  rcases List.mem_cons.mp hd with rfl | hd
  · exact hc
  · exact (h d).finished hd

/-- The activity hands over a file to the client whose file it was shown. -/
theorem Inv.handOver (h : Inv N s) {c : Fin n} (hc : s.mTcpClientResponsive = some c) (g : F) :
    Inv N { s with
      clients := Function.update s.clients c ((s.clients c).sendMergedPwdFile g)
      handed := (c, g) :: s.handed } := fun d => by
  rcases eq_or_ne d c with rfl | hne
  · have hself := Function.update_self d ((s.clients d).sendMergedPwdFile g) s.clients
    have hhanded : handedTo { s with
        clients := Function.update s.clients d ((s.clients d).sendMergedPwdFile g)
        handed := (d, g) :: s.handed } d = insert g (s.handedTo d) := by
      ext g'
      simp [handedTo]
    have hsame : (s.clients d).SameWorker
        (Function.update s.clients d ((s.clients d).sendMergedPwdFile g) d) := by
      rw [hself]
      exact TcpClient.sameWorker_sendMergedPwdFile _ g
    refine ⟨fun hlive => ?_, fun _ hlive => ?_, fun hmem => hsame.pc.trans ((h d).result hmem),
      fun hmem => ((h d).finished hmem).of_sameWorker hsame subset_rfl
        fun f hf => List.mem_cons_of_mem _ hf⟩ <;>
      dsimp only at hlive ⊢ <;> rw [hself] at hlive ⊢ <;>
      obtain ⟨f, hf, hfile⟩ := (h d).responsive hc hlive
    · rw [hhanded]
      exact ((h d).tracked hlive).sendMergedPwdFile hf hfile g
    · exact ⟨f, hf, hfile⟩
  · have hhanded : handedTo { s with
        clients := Function.update s.clients c ((s.clients c).sendMergedPwdFile g)
        handed := (c, g) :: s.handed } d = s.handedTo d := by
      ext g'
      simp [handedTo, hne]
    exact (h d).of_same (Function.update_of_ne hne ..) subset_rfl hhanded id id id

theorem Inv.sendResponseButtonClicked (h : Inv N s) (merged : Except String F) :
    Inv N (s.sendResponseButtonClicked merged) := by
  unfold Connections.sendResponseButtonClicked
  split
  · exact h.syncFailed _
  · split
    · exact h.syncFailed _
    · next hc => exact h.handOver hc _

/-- `onProgressUpdate` shows a file of a client that waits with it, or nothing happens. -/
theorem Inv.onProgressUpdate (h : Inv N s) (c : Fin n) (throws : Option String) :
    Inv N (s.onProgressUpdate c throws) := by
  unfold Connections.onProgressUpdate
  split_ifs
  · split
    case h_1 hwaiting => exact h.tcpClientPwdFileReceived hwaiting throws
    all_goals exact h
  · exact h

/-- `onPostExecute` of a worker that is done and was not stopped. -/
theorem Inv.onPostExecute (h : Inv N s) {c : Fin n} (hdone : (s.clients c).pc = .done)
    (hlive : (s.clients c).isCancelled = false) : Inv N (s.onPostExecute c) := by
  unfold Connections.onPostExecute
  split_ifs with hlistener herror
  · exact h.tcpClientFailed c _
  · exact h.tcpClientFinished
      ((h c).finished_of_done hdone hlive (Bool.eq_false_of_not_eq_true herror))
  · exact h

/-- **Every message keeps the invariant.** -/
theorem Inv.handleMessage (h : Inv N s) {c : Fin n} {message : Message}
    (hdone : message = .result → (s.clients c).pc = .done) (throws : Option String) :
    Inv N (s.handleMessage c throws message) := by
  cases message with
  | progress _ => exact h.onProgressUpdate c throws
  | result =>
    unfold Connections.handleMessage
    dsimp only
    split_ifs with hcancelled
    · exact h
    · exact h.onPostExecute (hdone rfl) (Bool.eq_false_of_not_eq_true hcancelled)

/-! ### Every step -/

/-- What a worker's step puts into the queue is its own. -/
theorem mem_queue_of_ne {c d : Fin n} {m : Message} {queue : List (Fin n × Message)}
    {msgs : List Message} (hne : d ≠ c) (h : (d, m) ∈ queue ++ msgs.map (Prod.mk c)) :
    (d, m) ∈ queue := by
  refine (List.mem_append.mp h).resolve_right fun hnew => ?_
  obtain ⟨m', -, heq⟩ := List.mem_map.mp hnew
  exact hne (Prod.mk.inj heq).1.symm

/-- A worker's step. -/
theorem Inv.work (h : Inv N s) {c : Fin n} {o : Outcome} {c' : TcpClient F} {msgs : List Message}
    (hwork : (s.clients c).work N o = some (c', msgs)) :
    Inv N { s with
      clients := Function.update s.clients c c'
      queue := s.queue ++ msgs.map (Prod.mk c) } := fun d => by
  rcases eq_or_ne d c with rfl | hne
  · have hself := Function.update_self d c' s.clients
    have hcancelled := (TcpClient.sameUi_of_work hwork).isCancelled
    have hrunning := TcpClient.pc_ne_done_of_work hwork
    refine ⟨fun hlive => ?_, fun hc hlive => ?_, fun hmem => ?_,
      fun hmem => absurd ((h d).finished hmem).1 hrunning⟩ <;> dsimp only at *
    · rw [hself] at hlive ⊢
      rw [hcancelled] at hlive
      exact ((h d).tracked hlive).work hlive hwork
    · rw [hself] at hlive ⊢
      rw [hcancelled] at hlive
      obtain ⟨f, hf, hfile⟩ := (h d).responsive hc hlive
      exact ⟨f, hf, ((h d).tracked hlive).mNewFile_of_work hwork hfile⟩
    · rw [hself]
      have hnew := (List.mem_append.mp hmem).resolve_left fun hold =>
        hrunning ((h d).result hold)
      obtain ⟨m, hm, heq⟩ := List.mem_map.mp hnew
      obtain rfl := (Prod.mk.inj heq).2
      exact TcpClient.pc_eq_done_of_result hwork hm
  · exact (h d).of_same (Function.update_of_ne hne ..) subset_rfl rfl id (mem_queue_of_ne hne) id

/-- **Every event keeps the invariant.** -/
theorem Inv.step (h : Inv N s) {e : ConnectionsEvent n F} (hstep : s.step N e = some t) :
    Inv N t := by
  cases e with
  | work c o =>
    obtain ⟨⟨c', msgs⟩, hwork, rfl⟩ := Option.map_eq_some_iff.mp hstep
    exact h.work hwork
  | deliver throws =>
    obtain ⟨c, message, queue, hqueue, rfl⟩ := deliver_eq_some hstep
    have hpopped : Inv N { s with queue := queue } := fun d =>
      (h d).of_same rfl subset_rfl rfl id (fun hmem => hqueue ▸ List.mem_cons_of_mem _ hmem) id
    refine hpopped.handleMessage (fun hresult => (h c).result ?_) throws
    rw [hqueue, ← hresult]
    exact List.mem_cons_self
  | accept merged =>
    obtain rfl := accept_eq_some hstep
    exact h.sendResponseButtonClicked merged
  | cancel =>
    obtain rfl := Option.some.inj hstep
    exact h.syncFailed _

/-- **A client reported as finished has completed its exchange exactly when the desktop sent more
than a stop sign and no write to it failed.** -/
theorem complete_iff (N : PwdFileNatives F) (key : List Char) {es : List (ConnectionsEvent n F)}
    {s : Connections n F} (hrun : run (step N) (start n key) es = some s) {c : Fin n}
    (hc : c ∈ s.finished) : Complete N s c ↔ SocketFine s c :=
  have hinv : Inv N s := run_induction (fun _ _ _ h hstep => h.step hstep) (inv_start N key) hrun
  ⟨Complete.socketFine, ((hinv c).finished hc).2⟩

/-- A desktop that gets its file back: the sync is reported, and it is complete. -/
theorem complete_plainExchange : ∃ s,
    run (step plainFiles) (start 1 ['k']) plainExchange = some s ∧ Complete plainFiles s 0 := by
  have hend : (run (step plainFiles) (start 1 ['k']) plainExchange).any
      (fun s => 0 ∈ s.finished ∧ SocketFine s 0) = true := by decide +kernel
  obtain ⟨s, hrun, hs⟩ := (Option.any_eq_true _ _).mp hend
  obtain ⟨hmem, hfine⟩ := of_decide_eq_true hs
  exact ⟨s, hrun, (complete_iff plainFiles ['k'] hrun hmem).mpr hfine⟩

/-- A desktop sends a stop sign and nothing else. -/
def stopSignOnly : List (ConnectionsEvent 1 (List Char)) := List.flatten
  [workerSteps (List.replicate 8 .ok), workerSteps [.char '#'],
    workerSteps (List.replicate 5 .ok), List.replicate 3 (.deliver none)]

/-- After a stop sign and nothing else the sync is reported as successful, with nothing received
and nothing sent. -/
theorem not_complete_after_stop_sign :
    ¬ ∀ (n : ℕ) (key : List Char) (es : List (ConnectionsEvent n (List Char)))
      (s : Connections n (List Char)), run (step plainFiles) (start n key) es = some s →
        ∀ c ∈ s.finished, Complete plainFiles s c := by
  intro h
  have hend : (run (step plainFiles) (start 1 ['k']) stopSignOnly).any
      (fun s => 0 ∈ s.finished ∧ ¬ SocketFine s 0) = true := by decide +kernel
  obtain ⟨s, hrun, hs⟩ := (Option.any_eq_true _ _).mp hend
  obtain ⟨hmem, hfine⟩ := of_decide_eq_true hs
  exact hfine (h 1 ['k'] stopSignOnly s hrun 0 hmem).socketFine

end Connections

end Kryptan
