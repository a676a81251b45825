import Kryptan.Net.TcpClient

/-!
# Net/Monitor — the statements of the worker around `mLock`

    setRun ─▸ ‥ ─▸ lock ─▸ waiting ─▸ afterWait ─▸ setState SENDING ─▸ publish ─▸ checkBuffer ─▸ ‥
                     ╰───── a file ──────╯

What one statement of `doInBackground` does to what the hand-over of the merged file depends on:
the flag `mRun`, the stream `mBufferOut`, and where the worker stands before, in or behind the wait
(`moves_of_work`).  Most statements are `Steady`: they lead from one place to another of the same
kind.  The statements of `_sendMessage` are given one by one.
-/

namespace Kryptan

/-- The statements of `_sendMessage`. -/
def WorkerPc.inSendMessage : WorkerPc → Bool
  | .checkBuffer | .encrypt | .print _ => true
  | _ => false

/-- On the way out with an exception. -/
def WorkerPc.thrown : WorkerPc → Bool
  | .closing (.throws _) => true
  | _ => false

/-- On the way to a call of `_sendMessage`, or in it. -/
def WorkerPc.sends : WorkerPc → Bool
  | .setState s | .publish s => s = .sending
  | pc => pc.inSendMessage

/-- `doInBackground` has begun. -/
def WorkerPc.started : WorkerPc → Bool
  | .notStarted | .setRun => false
  | _ => true

/-- The streams are open. -/
def WorkerPc.opened : WorkerPc → Bool
  | .openIn | .loop | .read | .afterLoop | .handleRead | .lock | .waiting | .afterWait => true
  | .setState s | .publish s => s ≠ .init ∧ s ≠ .finished
  | pc => pc.inSendMessage

/-- The wait is over, or it will not come to that. -/
def WorkerPc.pastWait : WorkerPc → Bool
  | .afterWait | .closing _ | .returning | .done => true
  | .setState s | .publish s => s = .sending ∨ s = .finished ∨ s = .init
  | pc => pc.inSendMessage

namespace TcpClient

variable {F : Type*} {N : PwdFileNatives F}

/-! ## What a statement does to the monitor -/

/-- What a statement does to what the hand-over depends on. -/
structure Moves (c c' : TcpClient F) : Prop where
  mRun : c'.mRun = c.mRun ∨ c.pc = .setRun ∧ c'.mRun = true
  started : c'.pc.started = true →
    c.pc.started = true ∨ c.pc = .setRun ∧ c'.mRun = true ∨ c.isCancelled = true
  opened : c'.pc.opened = true →
    c.pc.opened = true ∧ c'.mBufferOut = c.mBufferOut ∨ c'.mBufferOut = true
  pastWait : c.pc.pastWait = true → c'.pc.pastWait = true
  waiting : c'.pc = .waiting → c.pc = .lock ∧ c.mFileToSend = none ∧ c' = c.goto .waiting
  afterWait : c'.pc = .afterWait → c.pc = .lock ∧ c.mFileToSend ≠ none ∨ c.pc = .waiting
  sends : c'.pc.sends = true → c.pc.sends = true ∨ c.pc = .afterWait ∧ c.mRun = true

/-- A statement that is none of the hand-over and none of its beginnings leads on to another. -/
structure Steady (pc pc' : WorkerPc) : Prop where
  started : pc'.started = true → pc.started = true
  opened : pc'.opened = true → pc.opened = true
  pastWait : pc.pastWait = true → pc'.pastWait = true
  waiting : pc' ≠ .waiting
  afterWait : pc' ≠ .afterWait
  sends : pc'.sends = true → pc.sends = true

instance (pc pc' : WorkerPc) : Decidable (Steady pc pc') :=
  decidable_of_iff ((pc'.started = true → pc.started = true) ∧
      (pc'.opened = true → pc.opened = true) ∧ (pc.pastWait = true → pc'.pastWait = true) ∧
      pc' ≠ .waiting ∧ pc' ≠ .afterWait ∧ (pc'.sends = true → pc.sends = true))
    ⟨fun ⟨h₁, h₂, h₃, h₄, h₅, h₆⟩ => ⟨h₁, h₂, h₃, h₄, h₅, h₆⟩,
      fun h => ⟨h.started, h.opened, h.pastWait, h.waiting, h.afterWait, h.sends⟩⟩

theorem Moves.of_steady {c c' : TcpClient F} {pc : WorkerPc} (hpc : c.pc = pc)
    (hRun : c'.mRun = c.mRun) (hOut : c'.mBufferOut = c.mBufferOut) (h : Steady pc c'.pc) :
    Moves c c' := by
  subst hpc
  exact ⟨.inl hRun, fun hs => .inl (h.started hs), fun ho => .inl ⟨h.opened ho, hOut⟩, h.pastWait,
    fun hw => absurd hw h.waiting, fun ha => absurd ha h.afterWait, fun hs => .inl (h.sends hs)⟩

theorem steady_setState (s : STATES) : Steady (.setState s) (.publish s) := by
  cases s <;> decide

/-- After a message it goes on like before it. -/
theorem steady_publish (s : STATES) : Steady (.publish s) (afterPublish s) := by
  cases s <;> decide

/-- An exit is past the wait. -/
theorem steady_closing {pc : WorkerPc} (h : pc.started = true) (exit : Exit) :
    Steady pc (.closing exit) :=
  ⟨fun _ => h, fun h => absurd h Bool.false_ne_true, fun _ => rfl, WorkerPc.noConfusion,
    WorkerPc.noConfusion, fun h => absurd h Bool.false_ne_true⟩

theorem steady_finished {pc : WorkerPc} (h : pc.started = true) : Steady pc (.setState .finished) :=
  ⟨fun _ => h, fun h => absurd h Bool.false_ne_true, fun _ => rfl, WorkerPc.noConfusion,
    WorkerPc.noConfusion, fun h => absurd h Bool.false_ne_true⟩

theorem moves_handleRead {c : TcpClient F} (hpc : c.pc = .handleRead) :
    Moves c (c.handleRead N) := by
  rw [handleRead]
  split
  · exact .of_steady hpc rfl rfl (by dsimp only; decide)
  · exact .of_steady hpc rfl rfl (steady_closing rfl _)

/-- A statement that comes back. -/
theorem moves_of_advance {c c' : TcpClient F} {msgs : List Message}
    (h : c.advance N = some (c', msgs)) : Moves c c' := by
  revert h
  fun_cases advance N c <;> intro h <;>
    simp only [Option.some.injEq, Prod.mk.injEq, reduceCtorEq] at h <;> obtain ⟨rfl, rfl⟩ := h
  case case6 hpc => exact .of_steady hpc rfl rfl (steady_setState _)
  case case7 hpc => exact .of_steady hpc rfl rfl (steady_publish _)
  case case10 hpc => exact moves_handleRead hpc
  case case15 hpc _ => exact .of_steady hpc rfl rfl (steady_closing rfl _)
  case case19 hpc => exact .of_steady hpc rfl rfl (steady_finished rfl)
  all_goals try split
  all_goals first
    | exact .of_steady ‹c.pc = _› rfl rfl (by dsimp only [goto]; decide)
    | constructor <;> simp_all [goto, WorkerPc.started, WorkerPc.opened, WorkerPc.pastWait,
        WorkerPc.sends, WorkerPc.inSendMessage]

/-- A statement that throws. -/
theorem moves_of_throwing {c c' : TcpClient F} {m : String} (h : c.throwing m = some c') :
    Moves c c' := by
  revert h
  fun_cases throwing c m <;> intro h <;> simp only [Option.some.injEq, reduceCtorEq] at h <;>
    subst h
  case case1 hpc => exact .of_steady hpc rfl rfl (steady_finished rfl)
  case case2 hpc => exact .of_steady hpc rfl rfl (steady_finished rfl)
  all_goals exact .of_steady ‹c.pc = _› rfl rfl (steady_closing rfl _)

/-- A write that fails. -/
theorem moves_of_failing {c c' : TcpClient F} {k : ℕ} (h : c.failing k = some c') :
    Moves c c' := by
  obtain ⟨-, h⟩ := Option.ite_none_right_eq_some.mp h
  split at h
  · next hpc => exact Option.some.inj h ▸ .of_steady hpc rfl rfl (steady_closing rfl _)
  · next hpc => exact Option.some.inj h ▸ .of_steady hpc rfl rfl (steady_closing rfl _)
  · exact absurd h.symm (Option.some_ne_none _)

theorem moves_readChar {c : TcpClient F} (hpc : c.pc = .read) (ch : Char) :
    Moves c (c.readChar ch) := by
  rw [readChar]
  dsimp only
  split <;> exact .of_steady hpc rfl rfl (by dsimp only; decide)

theorem moves_of_work {c c' : TcpClient F} {o : Outcome} {msgs : List Message}
    (h : c.work N o = some (c', msgs)) : Moves c c' := by
  cases o with
  | ok => exact moves_of_advance h
  | char ch =>
    obtain ⟨hpc, heq⟩ := Option.ite_none_right_eq_some.mp h
    exact (Prod.mk.inj (Option.some.inj heq)).1 ▸ moves_readChar hpc.1 ch
  | eof =>
    obtain ⟨hpc, heq⟩ := Option.ite_none_right_eq_some.mp h
    exact (Prod.mk.inj (Option.some.inj heq)).1 ▸ .of_steady hpc.1 rfl rfl (steady_closing rfl _)
  | saved seed =>
    unfold work at h
    dsimp only at h
    split at h
    · next file hpc hfile =>
      refine (Prod.mk.inj (Option.some.inj h)).1 ▸ .of_steady hpc rfl rfl ?_
      exact ⟨fun _ => rfl, fun _ => rfl, fun _ => rfl, WorkerPc.noConfusion, WorkerPc.noConfusion,
        fun _ => rfl⟩
    · exact absurd h.symm (Option.some_ne_none _)
  | writeError k =>
    obtain ⟨d, hd, heq⟩ := Option.map_eq_some_iff.mp h
    exact (Prod.mk.inj heq).1 ▸ moves_of_failing hd
  | throws m =>
    obtain ⟨d, hd, heq⟩ := Option.map_eq_some_iff.mp h
    exact (Prod.mk.inj heq).1 ▸ moves_of_throwing hd

/-! ## The statements of `_sendMessage` -/

section

variable {c c' : TcpClient F} {o : Outcome} {msgs : List Message}

/-- The test of the buffer: on to the file, or out if there is no stream or it is in trouble. -/
theorem work_checkBuffer (hpc : c.pc = .checkBuffer) (h : c.work N o = some (c', msgs)) :
    (∃ m, o = .throws m) ∨ c' = c.goto .encrypt ∨
      c'.pc = .closing .fallsThrough ∧ (c'.socket.trouble = true ∨ c.mBufferOut = false) := by
  cases o with
  | throws m => exact .inl ⟨m, rfl⟩
  | ok =>
    simp only [work, advance, hpc, Option.some.injEq, Prod.mk.injEq] at h
    obtain ⟨rfl, -⟩ := h
    split
    · exact .inr (.inl rfl)
    · next hbuf =>
      refine .inr (.inr ⟨rfl, ?_⟩)
      dsimp only [goto]
      simpa [or_comm, Classical.or_iff_not_imp_left] using hbuf
  | writeError k =>
    obtain ⟨d, hd, heq⟩ := Option.map_eq_some_iff.mp h
    obtain ⟨-, hd⟩ := Option.ite_none_right_eq_some.mp hd
    obtain rfl := (Prod.mk.inj heq).1
    simp only [hpc, Option.some.injEq] at hd
    subst hd
    exact .inr (.inr ⟨rfl, .inl (Bool.or_true _)⟩)
  | _ => simp [work, hpc] at h

/-- The file is encrypted with the transmission key. -/
theorem work_encrypt (hpc : c.pc = .encrypt) (h : c.work N o = some (c', msgs)) :
    (∃ m, o = .throws m) ∨ ∃ file seed, c.mFileToSend = some file ∧
      c' = c.goto (.print (N.saveToString file c.transmissionKey 100 seed)) := by
  cases o with
  | throws m => exact .inl ⟨m, rfl⟩
  | saved seed =>
    unfold work at h
    dsimp only at h
    split at h
    · next file _ hfile => exact .inr ⟨file, seed, hfile, (Prod.mk.inj (Option.some.inj h)).1.symm⟩
    · exact absurd h.symm (Option.some_ne_none _)
  | _ => simp [work, advance, failing, hpc] at h

/-- The text is written, with a `#` after it, or the stream is in trouble. -/
theorem work_print {text : List Char} (hpc : c.pc = .print text)
    (h : c.work N o = some (c', msgs)) :
    (∃ m, o = .throws m) ∨ c'.pc = .closing .fallsThrough ∧
      (c'.socket.trouble = true ∨ (text ++ ['#']) <:+ c'.socket.accepted) := by
  cases o with
  | throws m => exact .inl ⟨m, rfl⟩
  | ok =>
    simp only [work, advance, hpc] at h
    obtain ⟨-, heq⟩ := Option.ite_none_right_eq_some.mp h
    obtain rfl := (Prod.mk.inj (Option.some.inj heq)).1
    exact .inr ⟨rfl, .inr (List.suffix_append _ _)⟩
  | writeError k =>
    obtain ⟨d, hd, heq⟩ := Option.map_eq_some_iff.mp h
    obtain ⟨-, hd⟩ := Option.ite_none_right_eq_some.mp hd
    obtain rfl := (Prod.mk.inj heq).1
    simp only [hpc, Option.some.injEq] at hd
    subst hd
    exact .inr ⟨rfl, .inl (Bool.or_true _)⟩
  | _ => simp [work, hpc] at h

/-- The statements around the monitor come back, and with nothing. -/
theorem advance_of_work (hpc : c.pc = .lock ∨ c.pc = .afterWait ∨
      (∃ s, c.pc = .setState s) ∨ ∃ s, c.pc = .publish s) (h : c.work N o = some (c', msgs)) :
    c.advance N = some (c', msgs) := by
  rcases hpc with hpc | hpc | ⟨s, hpc⟩ | ⟨s, hpc⟩ <;> cases o <;>
    simp_all [work, failing, throwing]

/-- `_sendMessage` is left by an exception only if a statement of it throws. -/
theorem throws_of_inSendMessage (h : c.work N o = some (c', msgs))
    (hpc : c.pc.inSendMessage = true) (hpc' : c'.pc.thrown = true) : ∃ m, o = .throws m := by
  cases hc : c.pc with
  | checkBuffer =>
    rcases work_checkBuffer hc h with ho | rfl | ⟨hfalls, -⟩
    · exact ho
    · exact absurd hpc' Bool.false_ne_true
    · exact absurd (hfalls ▸ hpc' : (WorkerPc.closing .fallsThrough).thrown = true)
        Bool.false_ne_true
  | encrypt =>
    rcases work_encrypt hc h with ho | ⟨file, seed, -, rfl⟩
    · exact ho
    · exact absurd hpc' Bool.false_ne_true
  | print text =>
    rcases work_print hc h with ho | ⟨hfalls, -⟩
    · exact ho
    · exact absurd (hfalls ▸ hpc' : (WorkerPc.closing .fallsThrough).thrown = true)
        Bool.false_ne_true
  | _ => simp [hc, WorkerPc.inSendMessage] at hpc

end

end TcpClient

end Kryptan
