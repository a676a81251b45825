import Kryptan.Net.Connections
import Kryptan.Net.Monitor

/-!
# Net/Handover — the monitor between the worker and the UI thread

    worker:     ‥ lock ──mFileToSend = null──▸ wait ──╮
                   ╰────────── a file ────────────────┴─▸ if(mRun) ─▸ _sendMessage
    UI thread:  sendMergedPwdFile    mFileToSend = …; notifyAll
                stopClient           mRun = false; notifyAll; cancel(true); … = null

The worker waits for a file, once: `if(mFileToSend == null) mLock.wait()`.  A wait ends because it
is notified, because it is interrupted, or for no reason.  Here the statements of `stopClient` are
steps of their own, so that the worker goes on between any two of them, and the wake-ups are events
that say why.

**As long as no wait ends for no reason while there is neither a file nor a `stopClient`, nobody
else interrupts the worker, `mRun = true` comes before `stopClient`, and `SaveToString` does not
throw, the hand-over is exact** (`allStates_exact`).
-/

namespace Kryptan

open Runs

/-- Where the UI thread is in `stopClient`: before the statement `notifyAll`, before `cancel(true)`,
before the three members are set to null. -/
inductive StopPc where
  | idle
  | notifyAll
  | cancel
  | release
  deriving DecidableEq, Repr

/-- Why `mLock.wait()` comes back. -/
inductive WakeUp where
  | notification
  | interruption
  | spurious
  deriving DecidableEq, Repr

/-- A call of `_sendMessage`: the file it finds, and whether a `stopClient` was begun before the
worker woke up, or did not have to wait. -/
structure SendCall (F : Type*) where
  mFileToSend : Option F
  stoppedBefore : Bool

/-- A client with its monitor: whether the waiting worker is notified, and whether it has been
interrupted.  Recorded are whether a `stopClient` was begun, whether it was when the worker woke up,
the calls of `_sendMessage`, the latest first, and whether the hand-over ended in an exception. -/
structure Handover (F : Type*) where
  client : TcpClient F
  stopping : StopPc
  notified : Bool
  interrupted : Bool
  stopped : Bool
  stoppedBefore : Bool
  calls : List (SendCall F)
  failed : Bool

/-- What happens: the worker takes a step or wakes up; the UI thread calls `sendMergedPwdFile` or
runs the next statement of `stopClient`; somebody else interrupts the worker. -/
inductive HandoverEvent (F : Type*) where
  | work (o : Outcome)
  | wake (w : WakeUp)
  | sendMergedPwdFile (toSend : F)
  | stopClient
  | interrupt

/-- From the check of the file up to its encryption. -/
def WorkerPc.handsOver : WorkerPc → Bool
  | .lock | .waiting | .afterWait | .checkBuffer | .encrypt => true
  | .setState s | .publish s => s = .sending
  | _ => false

/-- The statements left up to the writing of the text. -/
def WorkerPc.statementsLeft : WorkerPc → ℕ
  | .lock => 7
  | .waiting => 6
  | .afterWait => 5
  | .setState _ => 4
  | .publish _ => 3
  | .checkBuffer => 2
  | .encrypt => 1
  | _ => 0

/-- The worker's own events. -/
def HandoverEvent.ofWorker {F : Type*} : HandoverEvent F → Prop
  | .work _ | .wake _ => True
  | _ => False

/-- The events that are due: the worker goes on if it can, and a notified or interrupted wait comes
back; nothing has to happen for no reason. -/
def HandoverEvent.due {F : Type*} : HandoverEvent F → Prop
  | .work _ => True
  | .wake w => w ≠ .spurious
  | _ => False

namespace Handover

variable {F : Type*}

/-- A client, before it is executed. -/
def start (mEncryptionKey : List Char) : Handover F where
  client := .new mEncryptionKey
  stopping := .idle
  notified := false
  interrupted := false
  stopped := false
  stoppedBefore := false
  calls := []
  failed := false

/-- A `PrintWriter` throws nothing: where the stream is tested and written to, what throws is a null,
`mBufferOut`, which `stopClient` sets to null behind the test. -/
def mayCome (c : TcpClient F) : Outcome → Bool
  | .throws _ =>
    match c.pc with
    | .checkBuffer | .print _ => !c.mBufferOut
    | _ => true
  | _ => true

/-- The worker after a statement outside the wait.  Entering the wait, it is not notified yet. -/
def took (s : Handover F) (c : TcpClient F) : Handover F :=
  { s with
    client := c
    notified := false
    stoppedBefore := if s.client.pc = .lock then s.stopped else s.stoppedBefore
    calls :=
      if s.client.pc = .publish .sending then ⟨c.mFileToSend, s.stoppedBefore⟩ :: s.calls
      else s.calls
    failed := s.failed || (s.client.pc.inSendMessage && c.pc.thrown) }

/-- The wait comes back. -/
def woken (s : Handover F) : Handover F :=
  { s with
    client := s.client.goto .afterWait
    notified := false
    stoppedBefore := s.stopped }

/-- The wait throws an `InterruptedException`, which has no message. -/
def interruptedException (s : Handover F) : Handover F :=
  { s with
    client := s.client.goto (.closing (.throws "null"))
    notified := false
    interrupted := false
    stoppedBefore := s.stopped
    failed := true }

/-- The next statement of `stopClient`.  What it does to the stream shows in what comes of writing
to it. -/
def stopClient (s : Handover F) : Handover F :=
  match s.stopping with
  | .idle =>
    { s with client := { s.client with mRun := false }, stopped := true, stopping := .notifyAll }
  | .notifyAll =>
    { s with notified := s.notified || s.client.pc = .waiting, stopping := .cancel }
  | .cancel =>
    { s with client := { s.client with isCancelled := true }, interrupted := true,
             stopping := .release }
  | .release =>
    { s with client := { s.client with mMessageListener := false, mBufferIn := false,
                                       mBufferOut := false }, stopping := .idle }

/-- One event.  A wait that is entered by an interrupted worker throws at once. -/
def step (N : PwdFileNatives F) (s : Handover F) : HandoverEvent F → Option (Handover F)
  | .work o =>
    if s.client.pc = .waiting ∨ mayCome s.client o = false then none
    else
      (s.client.work N o).map fun (c, _) =>
        if c.pc = .waiting ∧ s.interrupted then s.interruptedException else s.took c
  | .wake w =>
    if s.client.pc = .waiting then
      match w with
      | .notification => if s.notified then some s.woken else none
      | .interruption => if s.interrupted then some s.interruptedException else none
      | .spurious => some s.woken
    else none
  | .sendMergedPwdFile toSend =>
    if s.stopping = .idle then
      some { s with client := s.client.sendMergedPwdFile toSend,
                    notified := s.notified || s.client.pc = .waiting }
    else none
  | .stopClient => some s.stopClient
  | .interrupt => some { s with interrupted := true }

/-! ## The same client -/

/-- The statements of `stopClient`, with none of another thread between them, are the call. -/
theorem client_stopClient {s : Handover F} (h : s.stopping = .idle) :
    s.stopClient.stopClient.stopClient.stopClient.client = s.client.stopClient := by
  simp only [stopClient, h]
  rfl

variable {N : PwdFileNatives F}

/-- What a step of the worker is. -/
theorem step_work {s t : Handover F} {o : Outcome} (h : step N s (.work o) = some t) :
    s.client.pc ≠ .waiting ∧ mayCome s.client o = true ∧
      ∃ c msgs, s.client.work N o = some (c, msgs) ∧
        (c.pc = .waiting ∧ s.interrupted = true ∧ t = s.interruptedException ∨
          ¬ (c.pc = .waiting ∧ s.interrupted = true) ∧ t = s.took c) := by
  obtain ⟨hguard, h⟩ := Option.ite_none_left_eq_some.mp h
  obtain ⟨⟨c, msgs⟩, hc, h⟩ := Option.map_eq_some_iff.mp h
  obtain ⟨hpc, hmay⟩ := not_or.mp hguard
  refine ⟨hpc, Bool.eq_true_of_not_eq_false hmay, c, msgs, hc, ?_⟩
  dsimp only at h
  split at h
  · next hw => exact .inl ⟨hw.1, hw.2, h.symm⟩
  · next hw => exact .inr ⟨hw, h.symm⟩

/-- What a wake-up is. -/
theorem step_wake {s t : Handover F} {w : WakeUp} (h : step N s (.wake w) = some t) :
    s.client.pc = .waiting ∧
      (t = s.woken ∧ (w = .notification ∧ s.notified = true ∨ w = .spurious) ∨
        t = s.interruptedException ∧ w = .interruption ∧ s.interrupted = true) := by
  obtain ⟨hpc, h⟩ := Option.ite_none_right_eq_some.mp h
  refine ⟨hpc, ?_⟩
  cases w with
  | notification =>
    obtain ⟨hn, h⟩ := Option.ite_none_right_eq_some.mp h
    exact .inl ⟨(Option.some.inj h).symm, .inl ⟨rfl, hn⟩⟩
  | interruption =>
    obtain ⟨hn, h⟩ := Option.ite_none_right_eq_some.mp h
    exact .inr ⟨(Option.some.inj h).symm, rfl, hn⟩
  | spurious => exact .inl ⟨(Option.some.inj h).symm, .inr rfl⟩

/-- **The worker is the worker of `TcpClient`**: what it does here it does there, in one step or,
when a wait throws at once, in two. -/
theorem client_of_work {s t : Handover F} {o : Outcome} (h : step N s (.work o) = some t) :
    ∃ os, run (fun c o => (TcpClient.work N c o).map Prod.fst) s.client os = some t.client := by
  obtain ⟨-, -, c, msgs, hc, ⟨hpc, -, rfl⟩ | ⟨-, rfl⟩⟩ := step_work h
  · obtain ⟨-, -, rfl⟩ := (TcpClient.moves_of_work hc).waiting hpc
    exact ⟨[o, .throws "null"], run_cons_eq_some.mpr ⟨_, congrArg (Option.map Prod.fst) hc, rfl⟩⟩
  · exact ⟨[o], run_cons_eq_some.mpr ⟨c, congrArg (Option.map Prod.fst) hc, rfl⟩⟩

/-- **…and what the worker of `TcpClient` does outside the wait it does here.** -/
theorem exists_step_work {s : Handover F} {o : Outcome} {c : TcpClient F} {msgs : List Message}
    (hpc : s.client.pc ≠ .waiting) (ho : mayCome s.client o = true)
    (hc : s.client.work N o = some (c, msgs)) : ∃ t, step N s (.work o) = some t ∧
      (t = s.took c ∨ c.pc = .waiting ∧ t = s.interruptedException) := by
  have hguard : ¬ (s.client.pc = .waiting ∨ mayCome s.client o = false) := by
    rw [ho]
    exact not_or.mpr ⟨hpc, Bool.noConfusion⟩
  rw [step, if_neg hguard, hc]
  refine ⟨_, rfl, ?_⟩
  dsimp only
  split
  · next hw => exact .inr ⟨hw.1, rfl⟩
  · exact .inl rfl

/-- What may not come is an exception of a stream that is there. -/
theorem mayCome_eq_false_iff {c : TcpClient F} {o : Outcome} : mayCome c o = false ↔
    (∃ m, o = .throws m) ∧ c.mBufferOut = true ∧
      (c.pc = .checkBuffer ∨ ∃ text, c.pc = .print text) := by
  cases o with
  | throws m =>
    cases hpc : c.pc <;> simp [mayCome, hpc]
  | _ => simp [mayCome]

theorem client_of_wake {s t : Handover F} {w : WakeUp} (h : step N s (.wake w) = some t) :
    ∃ o, (s.client.work N o).map Prod.fst = some t.client := by
  obtain ⟨hpc, ⟨rfl, -⟩ | ⟨rfl, -⟩⟩ := step_wake h
  · exact ⟨.ok, by simp [TcpClient.work, TcpClient.advance, hpc, woken]⟩
  · exact ⟨.throws "null", by simp [TcpClient.work, TcpClient.throwing, hpc, interruptedException]⟩

/-! ## What the hand-over keeps -/

/-- The event is not an exception of `SaveToString` on a file that is there. -/
def Saves (s : Handover F) : HandoverEvent F → Prop
  | .work (.throws _) => s.client.pc = .encrypt → s.client.mFileToSend = none
  | _ => True

instance [DecidableEq F] (s : Handover F) (e : HandoverEvent F) : Decidable (Saves s e) := by
  unfold Saves
  split <;> infer_instance

/-- No wait ends for no reason while there is neither a file nor a `stopClient`, the worker is not
interrupted by others on its way to the wait, `mRun = true` comes before `stopClient`, and
`SaveToString` does not throw before it. -/
def Undisturbed (s : Handover F) : HandoverEvent F → Prop
  | .work o => (s.client.pc = .setRun → s.stopped = false) ∧ (s.stopped = false → Saves s (.work o))
  | .wake w => w = .spurious → s.client.mFileToSend ≠ none ∨ s.client.mRun = false
  | .interrupt => s.stopped = true ∨ s.client.pc.pastWait = true
  | .sendMergedPwdFile _ | .stopClient => True

instance [DecidableEq F] (s : Handover F) (e : HandoverEvent F) : Decidable (Undisturbed s e) := by
  unfold Undisturbed
  split <;> infer_instance

/-- A notified worker has a file or is stopped; one that goes on to send has a file and was not
stopped before it woke up. -/
structure InStep (s : Handover F) : Prop where
  stopping : s.stopping ≠ .idle → s.stopped = true
  cancelled : s.client.isCancelled = true → s.stopped = true
  halted : s.stopped = true → s.client.mRun = false
  running : s.stopped = false → s.client.pc.started = true → s.client.mRun = true
  opened : s.stopped = false → s.client.pc.opened = true → s.client.mBufferOut = true
  interrupted : s.interrupted = true → s.stopped = true ∨ s.client.pc.pastWait = true
  notified : s.notified = true → s.client.mFileToSend ≠ none ∨ s.stopped = true
  waiting : s.client.pc = .waiting → s.client.mFileToSend ≠ none → s.notified = true
  awake : s.client.pc = .afterWait → s.client.mFileToSend ≠ none ∨ s.client.mRun = false
  awakeBefore : s.client.pc = .afterWait → s.stoppedBefore = true → s.client.mRun = false
  sending : s.client.pc.sends = true → s.client.mFileToSend ≠ none ∧ s.stoppedBefore = false
  calls : ∀ call ∈ s.calls, call.mFileToSend ≠ none ∧ call.stoppedBefore = false
  failed : s.failed = true → s.stopped = true

theorem inStep_start (key : List Char) : InStep (start key : Handover F) where
  stopping h := absurd rfl h
  cancelled h := absurd h Bool.false_ne_true
  halted h := absurd h Bool.false_ne_true
  running _ h := absurd h Bool.false_ne_true
  opened _ h := absurd h Bool.false_ne_true
  interrupted h := absurd h Bool.false_ne_true
  notified h := absurd h Bool.false_ne_true
  waiting h := absurd h WorkerPc.noConfusion
  awake h := absurd h WorkerPc.noConfusion
  awakeBefore h := absurd h WorkerPc.noConfusion
  sending h := absurd h Bool.false_ne_true
  calls _ h := absurd h List.not_mem_nil
  failed h := absurd h Bool.false_ne_true

variable {s t : Handover F}

theorem sends_of_inSendMessage {pc : WorkerPc} (h : pc.inSendMessage = true) :
    pc.sends = true ∧ pc.opened = true := by
  cases pc <;> simp_all [WorkerPc.inSendMessage, WorkerPc.sends, WorkerPc.opened]

/-- Nothing throws in a `_sendMessage` that is not stopped, but for `SaveToString`. -/
theorem InStep.not_throws (h : InStep s) (hst : s.stopped = false)
    (hpc : s.client.pc.inSendMessage = true) {m : String} (hsaves : Saves s (.work (.throws m))) :
    mayCome s.client (.throws m) = false := by
  obtain ⟨hsends, hopened⟩ := sends_of_inSendMessage hpc
  refine mayCome_eq_false_iff.mpr ⟨⟨m, rfl⟩, h.opened hst hopened, ?_⟩
  cases hs : s.client.pc with
  | checkBuffer => exact .inl rfl
  | print text => exact .inr ⟨text, rfl⟩
  | encrypt => exact absurd (hsaves hs) (h.sending hsends).1
  | _ => simp [hs, WorkerPc.inSendMessage] at hpc

section Took

variable {c : TcpClient F} {o : Outcome} {msgs : List Message}

/-- `stopClient` is not overwritten. -/
theorem InStep.halted_of_work (h : InStep s) (hc : s.client.work N o = some (c, msgs))
    (hrun : s.client.pc = .setRun → s.stopped = false) (hst : s.stopped = true) :
    c.mRun = false := by
  rcases (TcpClient.moves_of_work hc).mRun with heq | ⟨hset, -⟩
  · exact heq.trans (h.halted hst)
  · exact absurd ((hrun hset).symm.trans hst) Bool.false_ne_true

theorem InStep.running_of_work (h : InStep s) (hc : s.client.work N o = some (c, msgs))
    (hst : s.stopped = false) (hs : c.pc.started = true) : c.mRun = true := by
  have hm := TcpClient.moves_of_work hc
  rcases hm.mRun with heq | ⟨-, htrue⟩
  · rcases hm.started hs with hs' | ⟨-, htrue⟩ | hcan
    · exact heq.trans (h.running hst hs')
    · exact htrue
    · exact absurd (hst.symm.trans (h.cancelled hcan)) Bool.false_ne_true
  · exact htrue

/-- The worker goes on to send with a file, if it was not stopped before it woke up. -/
theorem InStep.sending_of_work (h : InStep s) (hc : s.client.work N o = some (c, msgs))
    (hs : c.pc.sends = true) :
    s.client.pc ≠ .lock ∧ s.client.mFileToSend ≠ none ∧ s.stoppedBefore = false := by
  rcases (TcpClient.moves_of_work hc).sends hs with hs' | ⟨ha, htrue⟩
  · refine ⟨fun hlock => ?_, h.sending hs'⟩
    exact absurd (hlock ▸ hs' : WorkerPc.lock.sends = true) Bool.false_ne_true
  · have hrun : s.client.mRun ≠ false := fun hfalse =>
      Bool.false_ne_true (hfalse.symm.trans htrue)
    refine ⟨fun hlock => absurd (ha.symm.trans hlock) WorkerPc.noConfusion,
      (h.awake ha).resolve_right hrun, Bool.eq_false_of_not_eq_true fun hb => ?_⟩
    exact hrun (h.awakeBefore ha hb)

/-- A call of `_sendMessage` is made on the way to send. -/
theorem InStep.calls_took (h : InStep s) (hc : s.client.work N o = some (c, msgs)) :
    ∀ call ∈ (s.took c).calls, call.mFileToSend ≠ none ∧ call.stoppedBefore = false := by
  intro call hcall
  by_cases hpub : s.client.pc = .publish .sending
  · rw [Handover.took, if_pos hpub] at hcall
    rcases List.mem_cons.mp hcall with rfl | hcall
    · obtain ⟨hfile, hbefore⟩ := h.sending (hpub ▸ rfl)
      exact ⟨(TcpClient.sameUi_of_work hc).mFileToSend ▸ hfile, hbefore⟩
    · exact h.calls call hcall
  · rw [Handover.took, if_neg hpub] at hcall
    exact h.calls call hcall

/-- `_sendMessage` fails only where it is stopped. -/
theorem InStep.failed_took (h : InStep s) (hc : s.client.work N o = some (c, msgs))
    (hmay : mayCome s.client o = true) (hsaves : s.stopped = false → Saves s (.work o))
    (hf : (s.took c).failed = true) : s.stopped = true := by
  rcases Bool.or_eq_true_iff.mp hf with hf | hf
  · exact h.failed hf
  · obtain ⟨hin, hthrown⟩ := Bool.and_eq_true_iff.mp hf
    obtain ⟨m, rfl⟩ := TcpClient.throws_of_inSendMessage hc hin hthrown
    by_contra hst
    have hgoing := Bool.eq_false_of_not_eq_true hst
    have hno := h.not_throws hgoing hin (hsaves hgoing)
    exact absurd (hno.symm.trans hmay) Bool.false_ne_true

/-- A statement outside the wait. -/
theorem InStep.took (h : InStep s) (hc : s.client.work N o = some (c, msgs))
    (hpc : s.client.pc ≠ .waiting) (hmay : mayCome s.client o = true)
    (hun : Undisturbed s (.work o)) : InStep (s.took c) := by
  obtain ⟨hrun, hsaves⟩ := hun
  have hm := TcpClient.moves_of_work hc
  have hui := TcpClient.sameUi_of_work hc
  refine ⟨h.stopping, fun hcan => h.cancelled (hui.isCancelled ▸ hcan), h.halted_of_work hc hrun,
    h.running_of_work hc, fun hst ho => ?_, fun hi => (h.interrupted hi).imp_right hm.pastWait,
    fun hn => absurd hn Bool.false_ne_true, fun hw hf => ?_, fun ha => ?_, fun ha hb => ?_,
    fun hs => ?_, h.calls_took hc, h.failed_took hc hmay hsaves⟩
  · rcases hm.opened ho with ⟨ho', heq⟩ | htrue
    · exact heq.trans (h.opened hst ho')
    · exact htrue
  · obtain ⟨-, hnone, -⟩ := hm.waiting hw
    exact absurd (hui.mFileToSend.trans hnone) hf
  · obtain ⟨-, hfile⟩ := (hm.afterWait ha).resolve_right hpc
    exact .inl (hui.mFileToSend ▸ hfile)
  · obtain ⟨hlock, -⟩ := (hm.afterWait ha).resolve_right hpc
    exact h.halted_of_work hc hrun ((if_pos hlock).symm.trans hb)
  · obtain ⟨hlock, hfile, hbefore⟩ := h.sending_of_work hc hs
    exact ⟨hui.mFileToSend ▸ hfile, (if_neg hlock).trans hbefore⟩

end Took

/-- The wait comes back: it was notified, or there is a file, or it is stopped. -/
theorem InStep.woken (h : InStep s) (hpc : s.client.pc = .waiting)
    (hwhy : s.client.mFileToSend ≠ none ∨ s.client.mRun = false) : InStep s.woken where
  stopping := h.stopping
  cancelled := h.cancelled
  halted := h.halted
  running hst _ := h.running hst (hpc ▸ rfl)
  opened hst _ := h.opened hst (hpc ▸ rfl)
  interrupted _ := .inr rfl
  notified hn := absurd hn Bool.false_ne_true
  waiting hw := absurd hw WorkerPc.noConfusion
  awake _ := hwhy
  awakeBefore _ hb := h.halted hb
  sending hs := absurd hs Bool.false_ne_true
  calls := h.calls
  failed := h.failed

/-- The wait throws, as it does only where `stopClient` was begun. -/
theorem InStep.interruptedException (h : InStep s) (hst : s.stopped = true) :
    InStep s.interruptedException where
  stopping := h.stopping
  cancelled := h.cancelled
  halted := h.halted
  running hrun := absurd (hrun.symm.trans hst) Bool.false_ne_true
  opened _ ho := absurd ho Bool.false_ne_true
  interrupted hi := absurd hi Bool.false_ne_true
  notified hn := absurd hn Bool.false_ne_true
  waiting hw := absurd hw WorkerPc.noConfusion
  awake ha := absurd ha WorkerPc.noConfusion
  awakeBefore ha := absurd ha WorkerPc.noConfusion
  sending hs := absurd hs Bool.false_ne_true
  calls := h.calls
  failed _ := hst

theorem InStep.sendMergedPwdFile (h : InStep s) (toSend : F) :
    InStep { s with client := s.client.sendMergedPwdFile toSend,
                    notified := s.notified || s.client.pc = .waiting } where
  stopping := h.stopping
  cancelled := h.cancelled
  halted := h.halted
  running := h.running
  opened := h.opened
  interrupted := h.interrupted
  notified _ := .inl (Option.some_ne_none toSend)
  waiting hw _ := Bool.or_eq_true_iff.mpr (.inr (decide_eq_true hw))
  awake _ := .inl (Option.some_ne_none toSend)
  awakeBefore := h.awakeBefore
  sending hs := ⟨Option.some_ne_none toSend, (h.sending hs).2⟩
  calls := h.calls
  failed := h.failed

/-- Of a stopped client little is asked. -/
theorem InStep.of_stopped (hst : s.stopped = true) (hrun : s.client.mRun = false)
    (hwaiting : s.client.pc = .waiting → s.client.mFileToSend ≠ none → s.notified = true)
    (hsending : s.client.pc.sends = true → s.client.mFileToSend ≠ none ∧ s.stoppedBefore = false)
    (hcalls : ∀ call ∈ s.calls, call.mFileToSend ≠ none ∧ call.stoppedBefore = false) :
    InStep s where
  stopping _ := hst
  cancelled _ := hst
  halted _ := hrun
  running hnot := absurd (hnot.symm.trans hst) Bool.false_ne_true
  opened hnot := absurd (hnot.symm.trans hst) Bool.false_ne_true
  interrupted _ := .inl hst
  notified _ := .inr hst
  waiting := hwaiting
  awake _ := .inr hrun
  awakeBefore _ _ := hrun
  sending := hsending
  calls := hcalls
  failed _ := hst

/-- A statement of `stopClient`. -/
theorem InStep.stopClient (h : InStep s) : InStep s.stopClient := by
  cases hpc : s.stopping with
  | idle =>
    rw [Handover.stopClient, hpc]
    exact .of_stopped rfl rfl h.waiting h.sending h.calls
  | notifyAll =>
    have hst := h.stopping (hpc ▸ StopPc.noConfusion)
    rw [Handover.stopClient, hpc]
    exact .of_stopped hst (h.halted hst)
      (fun hw _ => Bool.or_eq_true_iff.mpr (.inr (decide_eq_true hw))) h.sending h.calls
  | cancel =>
    have hst := h.stopping (hpc ▸ StopPc.noConfusion)
    rw [Handover.stopClient, hpc]
    exact .of_stopped hst (h.halted hst) h.waiting h.sending h.calls
  | release =>
    have hst := h.stopping (hpc ▸ StopPc.noConfusion)
    rw [Handover.stopClient, hpc]
    exact .of_stopped hst (h.halted hst) h.waiting h.sending h.calls

/-- **Every undisturbed event keeps the hand-over in step.** -/
theorem InStep.step {e : HandoverEvent F} (h : InStep s) (hun : Undisturbed s e)
    (ht : step N s e = some t) : InStep t := by
  cases e with
  | work o =>
    obtain ⟨hpc, hmay, c, msgs, hc, ⟨hw, hi, rfl⟩ | ⟨-, rfl⟩⟩ := step_work ht
    · obtain ⟨hlock, -, -⟩ := (TcpClient.moves_of_work hc).waiting hw
      refine h.interruptedException ((h.interrupted hi).resolve_right fun hpast => ?_)
      exact absurd (hlock ▸ hpast : WorkerPc.lock.pastWait = true) Bool.false_ne_true
    · exact h.took hc hpc hmay hun
  | wake w =>
    obtain ⟨hpc, ⟨rfl, ⟨-, hn⟩ | rfl⟩ | ⟨rfl, -, hi⟩⟩ := step_wake ht
    · exact h.woken hpc ((h.notified hn).imp_right h.halted)
    · exact h.woken hpc (hun rfl)
    · refine h.interruptedException ((h.interrupted hi).resolve_right fun hpast => ?_)
      exact absurd (hpc ▸ hpast : WorkerPc.waiting.pastWait = true) Bool.false_ne_true
  | sendMergedPwdFile toSend =>
    obtain ⟨-, ht⟩ := Option.ite_none_right_eq_some.mp ht
    exact Option.some.inj ht ▸ h.sendMergedPwdFile toSend
  | stopClient => exact Option.some.inj ht ▸ h.stopClient
  | interrupt =>
    obtain rfl := Option.some.inj ht
    exact { h with interrupted := fun _ => hun }

/-! ## What is to hold -/

/-- The file is written, with a `#` after it, or the stream is in trouble. -/
def Sent (N : PwdFileNatives F) (file : F) (s : Handover F) : Prop :=
  s.client.pc = .closing .fallsThrough ∧ (s.client.socket.trouble = true ∨
    ∃ seed, N.saveToString file s.client.transmissionKey 100 seed ++ ['#']
      <:+ s.client.socket.accepted)

/-- **What is to hold**: `_sendMessage` is called with a file, and not if a `stopClient` was begun
before the worker woke up; a file that is there before the worker reaches the wait keeps it from
waiting, one that comes later wakes it up; and a client that is not stopped and has its file has not
failed, and is bound to send it if `SaveToString` does not throw now. -/
structure Exact (N : PwdFileNatives F) (s : Handover F) : Prop where
  calls : ∀ call ∈ s.calls, call.mFileToSend ≠ none ∧ call.stoppedBefore = false
  notMissed : s.client.mFileToSend ≠ none → s.client.pc = .lock →
    ∀ o t, step N s (.work o) = some t → t.client.pc = .afterWait
  notified : s.client.mFileToSend ≠ none → s.client.pc = .waiting → s.notified = true
  notFailed : s.stopped = false → s.client.mFileToSend ≠ none → s.failed = false
  sends : s.stopped = false → ∀ file, s.client.mFileToSend = some file →
    s.client.pc.handsOver = true →
    Inevitable (step N) HandoverEvent.due (fun s e => e.ofWorker ∧ Saves s e) (Sent N file) s

/-! ## A file that is handed over -/

/-- On the way from the monitor to the server, with a file. -/
structure Handing (N : PwdFileNatives F) (file : F) (s : Handover F) : Prop where
  inStep : InStep s
  going : s.stopped = false
  mFileToSend : s.client.mFileToSend = some file
  place : s.client.pc.handsOver = true ∨
    ∃ seed, s.client.pc = .print (N.saveToString file s.client.transmissionKey 100 seed)

variable {file : F}

theorem Handing.ne_none (h : Handing N file s) : s.client.mFileToSend ≠ none :=
  h.mFileToSend ▸ Option.some_ne_none file

/-- Its statements are undisturbed, whatever ends the wait. -/
theorem Handing.undisturbed (h : Handing N file s) {e : HandoverEvent F} (he : e.ofWorker)
    (hsaves : Saves s e) : Undisturbed s e := by
  cases e with
  | work o => exact ⟨fun _ => h.going, fun _ => hsaves⟩
  | wake w => exact fun _ => .inl h.ne_none
  | _ => exact False.elim he

/-- A client that is not stopped runs, and its stream is there. -/
theorem Handing.running (h : Handing N file s) :
    s.client.mRun = true ∧ s.client.mBufferOut = true := by
  have hpc : s.client.pc.started = true ∧ s.client.pc.opened = true := by
    rcases h.place with hplace | ⟨seed, hplace⟩
    · cases hpc : s.client.pc <;>
        simp_all [WorkerPc.handsOver, WorkerPc.started, WorkerPc.opened, WorkerPc.inSendMessage]
    · rw [hplace]
      exact ⟨rfl, rfl⟩
  exact ⟨h.inStep.running h.going hpc.1, h.inStep.opened h.going hpc.2⟩

/-- The worker can go on, and is not waiting for nothing. -/
theorem Handing.enabled (h : Handing N file s) :
    ∃ e t, HandoverEvent.due e ∧ (e.ofWorker ∧ Saves s e) ∧ step N s e = some t := by
  by_cases hw : s.client.pc = .waiting
  · refine ⟨.wake .notification, s.woken, WakeUp.noConfusion, ⟨trivial, trivial⟩, ?_⟩
    rw [step, if_pos hw, if_pos (h.inStep.waiting hw h.ne_none)]
  by_cases hencrypt : s.client.pc = .encrypt
  · obtain ⟨p, hp⟩ : ∃ p, s.client.work N (.saved 0) = some p :=
      ⟨_, by simp only [TcpClient.work, hencrypt, h.mFileToSend]; rfl⟩
    obtain ⟨t, ht, -⟩ := exists_step_work hw rfl hp
    exact ⟨.work (.saved 0), t, trivial, ⟨trivial, trivial⟩, ht⟩
  · obtain ⟨p, hp⟩ : ∃ p, s.client.advance N = some p := by
      rcases h.place with hplace | ⟨seed, hplace⟩
      · cases hpc : s.client.pc <;> simp_all [TcpClient.advance, WorkerPc.handsOver]
      · simp [TcpClient.advance, hplace, h.running.2]
    obtain ⟨t, ht, -⟩ := exists_step_work (o := .ok) hw rfl hp
    exact ⟨.work .ok, t, trivial, ⟨trivial, trivial⟩, ht⟩

section Work

variable {c : TcpClient F} {o : Outcome} {msgs : List Message}

/-- What is left after a statement of the worker: nothing, or less than before. -/
def LeadsOn (N : PwdFileNatives F) (file : F) (s : Handover F) (c : TcpClient F) : Prop :=
  Sent N file (s.took c) ∨ c.pc.statementsLeft < s.client.pc.statementsLeft ∧
    (c.pc.handsOver = true ∨
      ∃ seed, c.pc = .print (N.saveToString file c.transmissionKey 100 seed))

/-- Around the monitor it goes on with the file. -/
theorem Handing.leadsOn_of_monitor (h : Handing N file s) (hs : s.client.pc.handsOver = true)
    (hpc : s.client.pc = .lock ∨ s.client.pc = .afterWait ∨
      (∃ state, s.client.pc = .setState state) ∨ ∃ state, s.client.pc = .publish state)
    (hc : s.client.work N o = some (c, msgs)) : LeadsOn N file s c := by
  have hadv := TcpClient.advance_of_work hpc hc
  rcases hpc with hpc | hpc | ⟨state, hpc⟩ | ⟨state, hpc⟩ <;> rw [hpc] at hs
  · simp only [TcpClient.advance, hpc, h.mFileToSend, Option.isNone_some] at hadv
    obtain ⟨rfl, -⟩ := Prod.mk.inj (Option.some.inj hadv)
    exact .inr ⟨hpc ▸ (by decide : 5 < 7), .inl rfl⟩
  · simp only [TcpClient.advance, hpc, h.running.1] at hadv
    obtain ⟨rfl, -⟩ := Prod.mk.inj (Option.some.inj hadv)
    exact .inr ⟨hpc ▸ Nat.lt_succ_self 4, .inl rfl⟩
  · simp only [TcpClient.advance, hpc] at hadv
    obtain ⟨rfl, -⟩ := Prod.mk.inj (Option.some.inj hadv)
    exact .inr ⟨hpc ▸ Nat.lt_succ_self 3, .inl hs⟩
  · simp only [TcpClient.advance, hpc] at hadv
    obtain ⟨rfl, -⟩ := Prod.mk.inj (Option.some.inj hadv)
    obtain rfl : state = .sending := of_decide_eq_true hs
    exact .inr ⟨hpc ▸ Nat.lt_succ_self 2, .inl rfl⟩

/-- In `_sendMessage` it goes on with the file, up to the writing of its text. -/
theorem Handing.leadsOn_of_inSendMessage (h : Handing N file s)
    (hpc : s.client.pc.inSendMessage = true) (hmay : mayCome s.client o = true)
    (hsaves : Saves s (.work o)) (hc : s.client.work N o = some (c, msgs)) :
    LeadsOn N file s c := by
  have hnot : ¬ ∃ m, o = .throws m := by
    rintro ⟨m, rfl⟩
    exact absurd ((h.inStep.not_throws h.going hpc hsaves).symm.trans hmay) Bool.false_ne_true
  cases hs : s.client.pc with
  | checkBuffer =>
    rcases (TcpClient.work_checkBuffer hs hc).resolve_left hnot with rfl | ⟨hfalls, htrouble⟩
    · exact .inr ⟨hs ▸ Nat.lt_succ_self 1, .inl rfl⟩
    · refine .inl ⟨hfalls, .inl (htrouble.resolve_right ?_)⟩
      rw [h.running.2]
      exact Bool.noConfusion
  | encrypt =>
    obtain ⟨file', seed, hfile, rfl⟩ := (TcpClient.work_encrypt hs hc).resolve_left hnot
    obtain rfl := Option.some.inj (h.mFileToSend.symm.trans hfile)
    exact .inr ⟨hs ▸ Nat.lt_succ_self 0, .inr ⟨seed, rfl⟩⟩
  | print text =>
    have hkey : c.transmissionKey = s.client.transmissionKey := by
      rw [TcpClient.transmissionKey, TcpClient.transmissionKey,
        (TcpClient.sameUi_of_work hc).mEncryptionKey]
    obtain ⟨seed, htext⟩ : ∃ seed,
        text = N.saveToString file s.client.transmissionKey 100 seed := by
      rcases h.place with hplace | ⟨seed, hplace⟩
      · exact absurd (hs ▸ hplace : (WorkerPc.print text).handsOver = true) Bool.false_ne_true
      · exact ⟨seed, WorkerPc.print.inj (hs.symm.trans hplace)⟩
    obtain ⟨hfalls, htrouble | hsuffix⟩ := (TcpClient.work_print hs hc).resolve_left hnot
    · exact .inl ⟨hfalls, .inl htrouble⟩
    · exact .inl ⟨hfalls, .inr ⟨seed, by rwa [Handover.took, hkey, ← htext]⟩⟩
  | _ => simp [hs, WorkerPc.inSendMessage] at hpc

/-- Where it goes on from a statement outside the wait. -/
theorem Handing.leadsOn (h : Handing N file s) (hpc : s.client.pc ≠ .waiting)
    (hmay : mayCome s.client o = true) (hsaves : Saves s (.work o))
    (hc : s.client.work N o = some (c, msgs)) : LeadsOn N file s c := by
  by_cases hin : s.client.pc.inSendMessage = true
  · exact h.leadsOn_of_inSendMessage hin hmay hsaves hc
  · rcases h.place with hplace | ⟨seed, hplace⟩
    · refine h.leadsOn_of_monitor hplace ?_ hc
      cases hs : s.client.pc <;> simp_all [WorkerPc.handsOver, WorkerPc.inSendMessage]
    · exact absurd (hplace ▸ rfl) hin

end Work

/-- **Each event of the worker leads on**, up to the writing of the text. -/
theorem Handing.step (h : Handing N file s) {e : HandoverEvent F} (he : e.ofWorker)
    (hsaves : Saves s e) (ht : step N s e = some t) :
    Sent N file t ∨ Handing N file t ∧ t.client.pc.statementsLeft < s.client.pc.statementsLeft := by
  have hin := h.inStep.step (h.undisturbed he hsaves) ht
  have hnot : s.interrupted = true → s.client.pc.pastWait = true := fun hi =>
    (h.inStep.interrupted hi).resolve_left fun hst =>
      Bool.false_ne_true (h.going.symm.trans hst)
  cases e with
  | work o =>
    obtain ⟨hpc, hmay, c, msgs, hc, ⟨hw, hi, rfl⟩ | ⟨-, rfl⟩⟩ := step_work ht
    · obtain ⟨-, hnone, -⟩ := (TcpClient.moves_of_work hc).waiting hw
      exact absurd hnone h.ne_none
    · refine (h.leadsOn hpc hmay hsaves hc).imp_right fun ⟨hlt, hplace⟩ => ⟨⟨hin, h.going, ?_, hplace⟩, hlt⟩
      exact (TcpClient.sameUi_of_work hc).mFileToSend.trans h.mFileToSend
  | wake w =>
    obtain ⟨hpc, ⟨rfl, -⟩ | ⟨rfl, -, hi⟩⟩ := step_wake ht
    · exact .inr ⟨⟨hin, h.going, h.mFileToSend, .inl rfl⟩, hpc ▸ Nat.lt_succ_self 5⟩
    · exact absurd (hpc ▸ hnot hi : WorkerPc.waiting.pastWait = true) Bool.false_ne_true
  | _ => exact False.elim he

/-! ## The hand-over -/

theorem InStep.exact (h : InStep s) : Exact N s where
  calls := h.calls
  notMissed hfile hlock o t ht := by
    obtain ⟨-, -, c, msgs, hc, hcases⟩ := step_work ht
    have hadv := TcpClient.advance_of_work (.inl hlock) hc
    obtain ⟨file, hfile⟩ := Option.ne_none_iff_exists'.mp hfile
    simp only [TcpClient.advance, hlock, hfile, Option.isNone_some] at hadv
    obtain ⟨rfl, -⟩ := Prod.mk.inj (Option.some.inj hadv)
    rcases hcases with ⟨hw, -, -⟩ | ⟨-, rfl⟩
    · exact absurd hw WorkerPc.noConfusion
    · rfl
  notified hfile hw := h.waiting hw hfile
  notFailed hst _ := Bool.eq_false_of_not_eq_true fun hf =>
    Bool.false_ne_true (hst.symm.trans (h.failed hf))
  sends hst file hfile hplace :=
    inevitable_of_rank (fun s => s.client.pc.statementsLeft) (fun _ hs => hs.enabled)
      (fun _ _ _ hs he ht => hs.step he.1 he.2 ht)
      (⟨h, hst, hfile, .inl hplace⟩ : Handing N file s)

/-- **An undisturbed hand-over is exact.** -/
theorem allStates_exact (N : PwdFileNatives F) (key : List Char) (es : List (HandoverEvent F))
    (h : AllSteps (step N) Undisturbed (start key) es) :
    AllStates (step N) (Exact N) (start key) es :=
  (h.allStates (fun _ _ _ hs hun ht => hs.step hun ht) (inStep_start key)).mono
    fun _ hs => hs.exact

/-- Steps of the worker. -/
def works (os : List Outcome) : List (HandoverEvent (List Char)) := os.map .work

/-- A desktop has sent a file of no passwords, and the worker waits for the merged one. -/
def upToWait : List (HandoverEvent (List Char)) :=
  works (List.replicate 8 .ok ++ [.char 'k', .ok, .char '#'] ++ List.replicate 7 .ok)

/-- The file comes, and the worker is notified and sends it. -/
theorem allStates_exact_notified :
    AllStates (step Connections.plainFiles) (Exact Connections.plainFiles) (start ['k'])
      (upToWait ++ [.sendMergedPwdFile ['x'], .wake .notification] ++
        works [.ok, .ok, .ok, .ok, .saved 0, .ok]) :=
  allStates_exact Connections.plainFiles ['k'] _ (by decide +kernel)

/-- A wait that ends for no reason sends the file that is not there. -/
theorem not_exact_after_spurious :
    ¬ ∀ (key : List Char) (es : List (HandoverEvent (List Char))) (s : Handover (List Char)),
      run (step Connections.plainFiles) (start key) es = some s →
        Exact Connections.plainFiles s := by
  intro h
  have hend : (run (step Connections.plainFiles) (start ['k'])
      (upToWait ++ [.wake .spurious] ++ works [.ok, .ok, .ok])).any
        (fun s => s.calls.any fun call => call.mFileToSend.isNone) = true := by decide +kernel
  obtain ⟨s, hrun, hs⟩ := (Option.any_eq_true _ _).mp hend
  obtain ⟨call, hcall, hnone⟩ := List.any_eq_true.mp hs
  exact ((h ['k'] _ s hrun).calls call hcall).1 (Option.isNone_iff_eq_none.mp hnone)

end Handover

end Kryptan
