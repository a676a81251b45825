import Kryptan.Net.TcpClient

/-!
# Net/Stages — what a worker has achieved when it comes to a statement

    idle ─▸ connecting ─▸ reading ─▸ received ─▸ opened ─▸ encrypted ─▸ ended
                │            │           │          │          │          ▴
                ╰────────────┴── thrown, failed ────┴──────────┴──────────╯

`WorkerPc.stage` sorts the statements of `doInBackground` into stages, and `AtStage` says what a
client that nobody has stopped has achieved at each of them.  **Every step of the worker keeps
track of it** (`AtStage.work`), with one lemma for each statement that does something.

All exits lead to `ended`, where a client without an error has completed its exchange — unless the
message was empty or the stream failed, which leave no error behind (`Exchanged`).
-/

namespace Kryptan

open CoreSecureStringHandler

/-- What a point of `doInBackground` comes after. -/
inductive Stage where
  | idle
  | connecting
  | reading
  | received
  | opened
  | encrypted (messageToSend : List Char)
  | failed
  | thrown
  | ended

/-- The stage a state is published in. -/
def STATES.stage : STATES → Stage
  | .reading => .reading
  | .decrypting => .received
  | .waiting | .sending => .opened
  | .init | .finished => .ended

/-- The stages of `doInBackground`. -/
def WorkerPc.stage : WorkerPc → Stage
  | .notStarted | .setRun => .idle
  | .connect | .openOut => .connecting
  | .openIn | .loop | .read => .reading
  | .afterLoop | .handleRead => .received
  | .lock | .waiting | .afterWait | .checkBuffer | .encrypt => .opened
  | .setState s | .publish s => s.stage
  | .print messageToSend => .encrypted messageToSend
  | .closing .returns => .failed
  | .closing (.throws _) => .thrown
  | .closing .fallsThrough | .returning | .done => .ended

theorem TcpClient.stage_afterPublish (s : STATES) : (TcpClient.afterPublish s).stage = s.stage := by
  cases s <;> rfl

namespace TcpClient

variable {F : Type*}

/-- Nothing was sent, and there is no error. -/
def Quiet (c : TcpClient F) : Prop := c.socket.accepted = [] ∧ c.mError = none

/-- All that was read is a message without its stop sign. -/
def ReadsMessage (c : TcpClient F) : Prop :=
  c.socket.read = c.serverMessage ∧ '#' ∉ c.serverMessage ∧ c.mNewFile = none

/-- The message was read up to the first stop sign. -/
def GotMessage (c : TcpClient F) : Prop :=
  c.socket.read = c.serverMessage ++ ['#'] ∧ '#' ∉ c.serverMessage

/-- The message was decrypted to an open file. -/
def Opened (N : PwdFileNatives F) (c : TcpClient F) : Prop :=
  ∃ f, c.mNewFile = some f ∧ N.tryOpenAndParse c.transmissionKey c.serverMessage = some f

/-- `text` is what one of the given files is encrypted to. -/
def Encrypts (N : PwdFileNatives F) (handed : Set F) (c : TcpClient F) (text : List Char) : Prop :=
  ∃ g ∈ handed, ∃ seed, text = N.saveToString g c.transmissionKey 100 seed

/-- **The exchange of a client**, as long as the desktop sent something and no write failed. -/
def Exchanged (N : PwdFileNatives F) (handed : Set F) (c : TcpClient F) : Prop :=
  c.GotMessage ∧ (c.serverMessage ≠ [] → c.socket.trouble = false →
    c.Opened N ∧ ∃ text, c.Encrypts N handed text ∧ c.socket.accepted = text ++ ['#'])

/-- What a client that nobody has stopped has achieved when it comes to a stage. -/
def AtStage (N : PwdFileNatives F) (handed : Set F) (c : TcpClient F) : Stage → Prop
  | .idle => c.Quiet ∧ c.ReadsMessage
  | .connecting => c.Quiet ∧ c.ReadsMessage ∧ c.mRun = true
  | .reading => c.Quiet ∧ c.ReadsMessage ∧ c.mRun = true ∧ c.mBufferOut = true
  | .received =>
    c.Quiet ∧ c.GotMessage ∧ c.mNewFile = none ∧ c.mRun = true ∧ c.mBufferOut = true
  | .opened => c.Quiet ∧ c.GotMessage ∧ c.Opened N ∧ c.mRun = true ∧ c.mBufferOut = true
  | .encrypted text => c.Quiet ∧ c.GotMessage ∧ c.Opened N ∧ c.Encrypts N handed text
  | .failed => c.mError ≠ none
  | .thrown => True
  | .ended => c.mError = none → c.Exchanged N handed

section

variable {N : PwdFileNatives F} {handed : Set F} {c : TcpClient F}

theorem atStage_goto {pc : WorkerPc} {st : Stage} :
    (c.goto pc).AtStage N handed st ↔ c.AtStage N handed st := by
  cases st <;> rfl

theorem atStage_sendMergedPwdFile {g : F} {st : Stage} :
    (c.sendMergedPwdFile g).AtStage N handed st ↔ c.AtStage N handed st := by
  cases st <;> rfl

theorem atStage_caught (m : String) : (c.caught m).AtStage N handed (c.caught m).pc.stage :=
  fun h => absurd h (Option.some_ne_none _)

theorem atStage_returnsError (m : String) :
    (c.returnsError m).AtStage N handed (c.returnsError m).pc.stage :=
  Option.some_ne_none m

/-! ### Statement by statement -/

/-- A client that nobody has stopped is started. -/
theorem AtStage.start (h : c.AtStage N handed .idle) (hlive : c.isCancelled = false) :
    c.AtStage N handed (if c.isCancelled then WorkerPc.returning else .setRun).stage := by
  rw [hlive]
  exact h

theorem AtStage.publish {s : STATES} (h : c.AtStage N handed s.stage) :
    c.AtStage N handed (afterPublish s).stage := by
  rw [stage_afterPublish]
  exact h

/-- A client that nobody has stopped stays in the loop. -/
theorem AtStage.loop (h : c.AtStage N handed .reading) :
    c.AtStage N handed (if c.mRun then WorkerPc.read else .afterLoop).stage := by
  rw [if_pos h.2.2.1]
  exact h

/-- One more character: the stop sign, or one of the message. -/
theorem AtStage.readChar (h : c.AtStage N handed .reading) (ch : Char) :
    (c.readChar ch).AtStage N handed (c.readChar ch).pc.stage := by
  obtain ⟨hquiet, ⟨hread, hstop, hfile⟩, hrun⟩ := h
  unfold TcpClient.readChar
  split
  · next heq =>
    subst heq
    exact ⟨hquiet, ⟨congrArg (· ++ ['#']) hread, hstop⟩, hfile, hrun⟩
  · next hne =>
    refine ⟨hquiet, ⟨congrArg (· ++ [ch]) hread, ?_, hfile⟩, hrun⟩
    rw [List.mem_append, List.mem_singleton, not_or]
    exact ⟨hstop, Ne.symm hne⟩

/-- An empty message ends the exchange. -/
theorem AtStage.afterLoop (h : c.AtStage N handed .received) :
    c.AtStage N handed (if 0 < c.serverMessage.length then WorkerPc.setState .decrypting
      else .closing .fallsThrough).stage := by
  split
  · exact h
  · next hempty =>
    have hnil := List.eq_nil_of_length_eq_zero (Nat.eq_zero_of_not_pos hempty)
    exact fun _ => ⟨h.2.1, fun hne => absurd hnil hne⟩

/-- The message is opened, or there is an error. -/
theorem AtStage.handleRead (h : c.AtStage N handed .received) :
    (c.handleRead N).AtStage N handed (c.handleRead N).pc.stage := by
  obtain ⟨hquiet, hgot, -, hrun⟩ := h
  unfold TcpClient.handleRead
  split
  · next f hf => exact ⟨hquiet, hgot, ⟨f, rfl, hf⟩, hrun⟩
  · exact atStage_returnsError _

theorem AtStage.lock (h : c.AtStage N handed .opened) :
    c.AtStage N handed
      (if c.mFileToSend.isNone then WorkerPc.waiting else .afterWait).stage := by
  split <;> exact h

theorem AtStage.afterWait (h : c.AtStage N handed .opened) :
    c.AtStage N handed
      (if c.mRun then WorkerPc.setState .sending else .closing .fallsThrough).stage := by
  rw [if_pos h.2.2.2.1]
  exact h

/-- A stream that has failed ends the exchange. -/
theorem atStage_ended_of_trouble (h : c.GotMessage) (htrouble : c.socket.trouble = true) :
    c.AtStage N handed .ended :=
  fun _ => ⟨h, fun _ hok => absurd (htrouble.symm.trans hok) (by decide)⟩

theorem AtStage.checkBuffer (h : c.AtStage N handed .opened) :
    c.AtStage N handed (if c.mBufferOut && !c.socket.trouble then WorkerPc.encrypt
      else .closing .fallsThrough).stage := by
  split
  · exact h
  · next hskip =>
    rw [h.2.2.2.2, Bool.true_and, Bool.not_eq_true, Bool.not_eq_false'] at hskip
    exact atStage_ended_of_trouble h.2.1 hskip

theorem AtStage.encrypt (h : c.AtStage N handed .opened) {g : F} (hg : g ∈ handed) (seed : ℕ) :
    c.AtStage N handed (.encrypted (N.saveToString g c.transmissionKey 100 seed)) :=
  ⟨h.1, h.2.1, h.2.2.1, g, hg, seed, rfl⟩

/-- The whole text and the stop sign go out. -/
theorem AtStage.print {text : List Char} (h : c.AtStage N handed (.encrypted text)) :
    (c.writes (text ++ ['#']) false).AtStage N handed .ended := by
  obtain ⟨⟨haccepted, -⟩, hgot, hopened, hencrypts⟩ := h
  refine fun _ => ⟨hgot, fun _ _ => ⟨hopened, text, hencrypts, ?_⟩⟩
  rw [writes, haccepted, List.nil_append]

/-- A write fails. -/
theorem atStage_writes_true (h : c.GotMessage) (chars : List Char) :
    (c.writes chars true).AtStage N handed .ended :=
  atStage_ended_of_trouble h (Bool.or_true _)

/-- A statement that comes back. -/
theorem AtStage.advance {c' : TcpClient F} {msgs : List Message}
    (hc : c.AtStage N handed c.pc.stage) (hlive : c.isCancelled = false)
    (h : c.advance N = some (c', msgs)) : c'.AtStage N handed c'.pc.stage := by
  revert h
  fun_cases TcpClient.advance N c <;> intro h <;>
    simp only [Option.some.injEq, Prod.mk.injEq, reduceCtorEq] at h <;> obtain ⟨rfl, rfl⟩ := h <;>
    (have hpc := ‹c.pc = _›; rw [hpc] at hc) <;> try rw [atStage_goto]
  all_goals first
    | exact hc
    | exact hc.start hlive
    | exact ⟨hc.1, hc.2, rfl⟩
    | exact ⟨hc.1, hc.2.1, hc.2.2, rfl⟩
    | exact hc.publish
    | exact hc.loop
    | exact hc.afterLoop
    | exact hc.handleRead
    | exact hc.lock
    | exact hc.afterWait
    | exact hc.checkBuffer
    | exact hc.print
    | exact fun hnone => absurd hnone hc
    | exact atStage_caught _

/-- **Every step of a worker that nobody has stopped keeps track of the exchange.** -/
theorem AtStage.work {c' : TcpClient F} {o : Outcome} {msgs : List Message}
    (hc : c.AtStage N handed c.pc.stage) (hlive : c.isCancelled = false)
    (hsend : ∀ g, c.mFileToSend = some g → g ∈ handed) (h : c.work N o = some (c', msgs)) :
    c'.AtStage N handed c'.pc.stage := by
  cases workStep_of_work h with
  | advance h => exact hc.advance hlive h
  | readChar hpc ch =>
    rw [hpc] at hc
    exact hc.readChar ch
  | failedRead => exact atStage_returnsError _
  | encrypt hpc hfile seed =>
    rw [hpc] at hc
    exact atStage_goto.mpr (hc.encrypt (hsend _ hfile) seed)
  | failedWrite hpc chars =>
    have hgot : c.GotMessage := by
      rcases hpc with hpc | ⟨text, hpc⟩ <;> rw [hpc] at hc <;> exact hc.2.1
    exact atStage_goto.mpr (atStage_writes_true hgot chars)
  | throws m => trivial
  | caught m => exact atStage_caught m

/-- `c'` has the state, the file and the error of `c`, up to the one that the statement at hand
sets; an error has a text. -/
def SameUpTo (c c' : TcpClient F) : Prop :=
  (c'.mState = c.mState ∨ c.pc = .setState c'.mState) ∧
    (c'.mNewFile = c.mNewFile ∨ c.pc = .handleRead) ∧
    (c'.mError = c.mError ∨ ∃ m, c'.mError = some m ∧ 0 < m.length)

theorem sameUpTo_caught (m : String) : SameUpTo c (c.caught m) := by
  refine ⟨.inl rfl, .inl rfl, .inr ⟨_, rfl, ?_⟩⟩
  rw [String.length_append]
  exact Nat.add_pos_left (by decide) _

theorem sameUpTo_returnsError {m : String} (h : 0 < m.length) : SameUpTo c (c.returnsError m) :=
  ⟨.inl rfl, .inl rfl, .inr ⟨m, rfl, h⟩⟩

theorem sameUpTo_readChar (ch : Char) : SameUpTo c (c.readChar ch) := by
  unfold TcpClient.readChar
  split <;> exact ⟨.inl rfl, .inl rfl, .inl rfl⟩

theorem sameUpTo_handleRead (h : c.pc = .handleRead) : SameUpTo c (c.handleRead N) := by
  unfold TcpClient.handleRead
  split
  · exact ⟨.inl rfl, .inr h, .inl rfl⟩
  · exact sameUpTo_returnsError (by decide)

/-- A statement that comes back sets nothing but what it says. -/
theorem sameUpTo_of_advance {c' : TcpClient F} {msgs : List Message}
    (h : c.advance N = some (c', msgs)) : SameUpTo c c' := by
  revert h
  fun_cases TcpClient.advance N c <;> intro h <;>
    simp only [Option.some.injEq, Prod.mk.injEq, reduceCtorEq] at h <;> obtain ⟨rfl, rfl⟩ := h
  all_goals first
    | exact sameUpTo_caught _
    | exact sameUpTo_handleRead ‹_›
    | exact ⟨.inr ‹_›, .inl rfl, .inl rfl⟩
    | exact ⟨.inl rfl, .inl rfl, .inl rfl⟩

/-- Nor does any step of the worker. -/
theorem sameUpTo_of_work {c' : TcpClient F} {o : Outcome} {msgs : List Message}
    (h : c.work N o = some (c', msgs)) : SameUpTo c c' := by
  cases workStep_of_work h with
  | advance h => exact sameUpTo_of_advance h
  | readChar _ ch => exact sameUpTo_readChar ch
  | failedRead => exact sameUpTo_returnsError (by decide)
  | caught m => exact sameUpTo_caught m
  | _ => exact ⟨.inl rfl, .inl rfl, .inl rfl⟩

end

theorem AtStage.mono {N : PwdFileNatives F} {handed handed' : Set F} {c : TcpClient F} {st : Stage}
    (h : c.AtStage N handed st) (hsub : handed ⊆ handed') : c.AtStage N handed' st := by
  have hmono : ∀ text, c.Encrypts N handed text → c.Encrypts N handed' text :=
    fun text ⟨g, hg, hseed⟩ => ⟨g, hsub hg, hseed⟩
  cases st with
  | encrypted text => exact ⟨h.1, h.2.1, h.2.2.1, hmono text h.2.2.2⟩
  | ended =>
    intro hnone
    obtain ⟨hgot, hrest⟩ := h hnone
    refine ⟨hgot, fun hne hok => ?_⟩
    obtain ⟨hopened, text, htext, haccepted⟩ := hrest hne hok
    exact ⟨hopened, text, hmono text htext, haccepted⟩
  | _ => exact h

/-- **What there is to know about a client that nobody has stopped**: where its exchange stands,
that its errors have a text, and where the files came from and went to. -/
structure Tracked (N : PwdFileNatives F) (received handed : Set F) (c : TcpClient F) : Prop where
  stage : c.AtStage N handed c.pc.stage
  error : ∀ m, c.mError = some m → 0 < m.length
  waiting : c.mState = .waiting → ∃ f, c.mNewFile = some f
  toSend : ∀ g, c.mFileToSend = some g → g ∈ handed
  shown : handed.Nonempty → ∃ f ∈ received, c.mNewFile = some f

theorem tracked_new (N : PwdFileNatives F) (received : Set F) (key : List Char) :
    Tracked N received ∅ (.new key) where
  stage := ⟨⟨rfl, rfl⟩, rfl, List.not_mem_nil, rfl⟩
  error _ h := nomatch h
  waiting h := nomatch h
  toSend _ h := nomatch h
  shown h := absurd rfl h.ne_empty

namespace Tracked

variable {N : PwdFileNatives F} {received handed : Set F} {c c' : TcpClient F}

theorem mono (h : Tracked N received handed c) {received' : Set F} (hsub : received ⊆ received') :
    Tracked N received' handed c :=
  ⟨h.stage, h.error, h.waiting, h.toSend, fun hne =>
    let ⟨f, hf, heq⟩ := h.shown hne
    ⟨f, hsub hf, heq⟩⟩

/-- An open file stays: `HandleRead` runs before there is one. -/
theorem mNewFile_of_work (h : Tracked N received handed c) {o : Outcome} {msgs : List Message}
    (hwork : c.work N o = some (c', msgs)) {f : F} (hf : c.mNewFile = some f) :
    c'.mNewFile = some f := by
  rcases (sameUpTo_of_work hwork).2.1 with heq | hpc
  · exact heq.trans hf
  · have hread := h.stage
    rw [hpc] at hread
    exact absurd (hread.2.2.1.symm.trans hf) (Option.some_ne_none f).symm

/-- A step of the worker, not stopped so far. -/
theorem work (h : Tracked N received handed c) (hlive : c.isCancelled = false) {o : Outcome}
    {msgs : List Message} (hwork : c.work N o = some (c', msgs)) :
    Tracked N received handed c' := by
  obtain ⟨hstate, -, herror⟩ := sameUpTo_of_work hwork
  refine ⟨h.stage.work hlive h.toSend hwork, fun m hm => ?_, fun hwaiting => ?_, fun g hg => ?_,
    fun hne => ?_⟩
  · rcases herror with heq | ⟨m', heq, hpos⟩
    · exact h.error m (heq.symm.trans hm)
    · exact Option.some.inj (heq.symm.trans hm) ▸ hpos
  · rcases hstate with heq | hpc
    · obtain ⟨f, hf⟩ := h.waiting (heq.symm.trans hwaiting)
      exact ⟨f, h.mNewFile_of_work hwork hf⟩
    · have hopened := h.stage
      rw [hpc, hwaiting] at hopened
      obtain ⟨-, -, ⟨f, hf, -⟩, -⟩ := hopened
      exact ⟨f, h.mNewFile_of_work hwork hf⟩
  · exact h.toSend g ((sameUi_of_work hwork).mFileToSend.symm.trans hg)
  · obtain ⟨f, hf, heq⟩ := h.shown hne
    exact ⟨f, hf, h.mNewFile_of_work hwork heq⟩

/-- The activity hands over a file, having been shown the one received. -/
theorem sendMergedPwdFile (h : Tracked N received handed c) {f : F} (hf : f ∈ received)
    (hfile : c.mNewFile = some f) (g : F) :
    Tracked N received (insert g handed) (c.sendMergedPwdFile g) where
  stage := atStage_sendMergedPwdFile.mpr (h.stage.mono (Set.subset_insert g handed))
  error := h.error
  waiting := h.waiting
  toSend g' hg' := by
    obtain rfl := Option.some.inj hg'
    exact Set.mem_insert _ _
  shown _ := ⟨f, hf, hfile⟩

end Tracked

end TcpClient

end Kryptan
