import Kryptan.Core.SecureString
import Kryptan.Machinery.Runs
import Kryptan.Net.Monitor
import Mathlib.Data.Fintype.Basic
import Mathlib.Logic.Function.Basic

/-!
# Net/MasterKey — the master key while a sync sends its reply

`_sendMessage` encrypts the reply by writing the transmission key into the *shared* master key

    copy ──▸ Clear ──▸ Append(mEncryptionKey) ──▸ SaveToString ──▸ Clear ──▸ Append(original)

one native call after the other on a worker thread, while `Save` encrypts the password file with
whatever the master key holds at that moment.  The file and the master key stay the user's as long
as nobody looks in between and `SaveToString` comes back (`fileKey_safe`); a throw skips the two
calls that restore the key.

The user's key is one key throughout: `ChangeMasterKeyAlert` is none of the events.  The calls are
those of the worker of `TcpClient`, which makes all of them in three steps (`exists_run_of_work`).
-/

namespace Kryptan.MasterKey

open CoreSecureStringHandler Runs

/-- The next call of a `_sendMessage`, or how it ended. -/
inductive SendPc where
  | notStarted
  | checkBuffer
  | saveKey
  | clearKey
  | setTransmissionKey
  | encrypt
  | clearAgain
  | restoreKey
  | sendOut
  | returned
  | threw
  deriving DecidableEq, Repr

/-- A call of `_sendMessage`: where it stands and its locals.  `messageToSend` is the key the
message is encrypted under, once there is one. -/
structure SendCall where
  pc : SendPc
  mEncryptionKey : List Char
  original : SecureString
  messageToSend : Option SecureString
  deriving DecidableEq, Repr

/-- Whether a native call of the worker comes back as hoped.  `checkBuffer` fails on a missing or
broken stream, `SaveToString` with a Java exception, `sendOut` on a stream closed in between. -/
inductive Outcome where
  | ok
  | fails
  deriving DecidableEq, Repr

/-- One step of `_sendMessage` on the shared master key. -/
def SendCall.advance (masterkey : SecureString) (c : SendCall) :
    Outcome → Option (SecureString × SendCall)
  | .ok =>
    match c.pc with
    | .checkBuffer => some (masterkey, { c with pc := .saveKey })
    | .saveKey =>
      let original := copyBytes masterkey newSecureString (getLength masterkey)
      some (masterkey, { c with original := original, pc := .clearKey })
    | .clearKey => some (clear masterkey, { c with pc := .setTransmissionKey })
    | .setTransmissionKey =>
      some (appendString masterkey c.mEncryptionKey, { c with pc := .encrypt })
    | .encrypt => some (masterkey, { c with messageToSend := some masterkey, pc := .clearAgain })
    | .clearAgain => some (clear masterkey, { c with pc := .restoreKey })
    | .restoreKey => some (append masterkey c.original, { c with pc := .sendOut })
    | .sendOut => some (masterkey, { c with pc := .returned })
    | .notStarted | .returned | .threw => none
  | .fails =>
    match c.pc with
    | .checkBuffer => some (masterkey, { c with pc := .returned })
    | .encrypt => some (masterkey, { c with pc := .threw })
    | .sendOut => some (masterkey, { c with pc := .threw })
    | _ => none

/-- `_sendMessage` has been entered and not left. -/
def SendPc.inProgress : SendPc → Bool
  | .notStarted | .returned | .threw => false
  | _ => true

/-- `_sendMessage` has copied the key and not yet put it back. -/
def SendPc.holding : SendPc → Bool
  | .clearKey | .setTransmissionKey | .encrypt | .clearAgain | .restoreKey => true
  | _ => false

theorem SendPc.inProgress_of_holding {pc : SendPc} (h : pc.holding = true) :
    pc.inProgress = true := by
  cases pc <;> first | rfl | exact absurd h (by decide)

variable {n : ℕ}

/-- The shared master key, the `_sendMessage` of each of `n` syncs, the sync whose activity is in
front of the user, and the key the password file on disk is encrypted under. -/
structure KeyState (n : ℕ) where
  masterkey : SecureString
  calls : Fin n → SendCall
  front : Option (Fin n)
  disk : SecureString

/-- What happens: a sync reaches `_sendMessage`, its worker makes the next call, the user cancels
the sync in front, `SaveAsync` writes the file. -/
inductive Event (n : ℕ) where
  | start (i : Fin n) (mEncryptionKey : List Char)
  | work (i : Fin n) (o : Outcome)
  | cancel
  | save

/-- The progress dialog of a sync keeps the user from everything but cancelling it. -/
def KeyState.busy (s : KeyState n) : Bool := s.front.any fun i => (s.calls i).pc.inProgress

/-- One event.  `cancel` ends the activity and leaves the worker alone: `stopClient` closes the
stream under it, which `_sendMessage` notices in `sendOut` at the earliest. -/
def step (s : KeyState n) : Event n → Option (KeyState n)
  | .start i key =>
    if (s.calls i).pc = .notStarted ∧ s.busy = false then
      some { s with
        calls := Function.update s.calls i ⟨.checkBuffer, key, newSecureString, none⟩
        front := some i }
    else none
  | .work i o =>
    (SendCall.advance s.masterkey (s.calls i) o).map fun kc =>
      { s with masterkey := kc.1, calls := Function.update s.calls i kc.2 }
  | .cancel => if s.front.isSome then some { s with front := none } else none
  | .save => if s.busy then none else some { s with disk := s.masterkey }

/-- Logged in: the master key is the user's and so is the file's. -/
def init (n : ℕ) (userKey : SecureString) : KeyState n where
  masterkey := userKey
  calls := fun _ => ⟨.notStarted, [], newSecureString, none⟩
  front := none
  disk := userKey

/-! ## What an event does -/

theorem start_eq_some {s t : KeyState n} {i : Fin n} {key : List Char}
    (h : step s (.start i key) = some t) :
    (s.calls i).pc = .notStarted ∧ t = { s with
      calls := Function.update s.calls i ⟨.checkBuffer, key, newSecureString, none⟩
      front := some i } := by
  obtain ⟨hguard, ht⟩ := Option.ite_none_right_eq_some.mp h
  exact ⟨hguard.1, (Option.some.inj ht).symm⟩

theorem work_eq_some {s t : KeyState n} {i : Fin n} {o : Outcome}
    (h : step s (.work i o) = some t) :
    ∃ k' c', (s.calls i).advance s.masterkey o = some (k', c') ∧
      t = { s with masterkey := k', calls := Function.update s.calls i c' } := by
  obtain ⟨⟨k', c'⟩, hadv, rfl⟩ := Option.map_eq_some_iff.mp h
  exact ⟨k', c', hadv, rfl⟩

theorem cancel_eq_some {s t : KeyState n} (h : step s .cancel = some t) :
    t = { s with front := none } :=
  (Option.some.inj (Option.ite_none_right_eq_some.mp h).2).symm

theorem save_eq_some {s t : KeyState n} (h : step s .save = some t) :
    t = { s with disk := s.masterkey } :=
  (Option.some.inj (Option.ite_none_left_eq_some.mp h).2).symm

/-! ## What is to hold, and when it does -/

/-- **The file is under the user's key, and so is the master key whenever no `_sendMessage` is in
progress.** -/
def Safe (userKey : SecureString) (s : KeyState n) : Prop :=
  s.disk = userKey ∧ ((∀ i, (s.calls i).pc.inProgress = false) → s.masterkey = userKey)

/-- The master key is not the user's at this point of a `_sendMessage`: it is emptied, or holds a
transmission key. -/
def SendCall.Swapped (userKey : SecureString) (c : SendCall) : Prop :=
  match c.pc with
  | .setTransmissionKey | .restoreKey => userKey ≠ []
  | .encrypt | .clearAgain => Utf8.encode c.mEncryptionKey ≠ userKey
  | _ => False

/-- A step that respects the swap: the file is saved at no point of it, and `SaveToString` throws
under no key but the user's. -/
def KeySafe (userKey : SecureString) (s : KeyState n) : Event n → Prop
  | .save => ∀ i, ¬ (s.calls i).Swapped userKey
  | .work i .fails => (s.calls i).pc = .encrypt → ¬ (s.calls i).Swapped userKey
  | _ => True

/-- A step that respects the copy: no `_sendMessage` copies the master key while another one has
yet to put it back. -/
def Alone (s : KeyState n) : Event n → Prop
  | .work i _ => (s.calls i).pc = .saveKey → ∀ j, (s.calls j).pc.holding = false
  | _ => True

/-- The scenario of one sync after the other: none is started while another is in progress. -/
def OneAtATime (s : KeyState n) : Event n → Prop
  | .start _ _ => ∀ j, (s.calls j).pc.inProgress = false
  | _ => True

/-! ## The key at each point of a `_sendMessage` -/

/-- What the master key holds at a point of the swap. -/
def SendCall.keyNow (userKey : SecureString) (c : SendCall) : SecureString :=
  match c.pc with
  | .setTransmissionKey | .restoreKey => []
  | .encrypt | .clearAgain => Utf8.encode c.mEncryptionKey
  | _ => userKey

/-- A call is swapped exactly when the key it shows is not the user's. -/
theorem SendCall.swapped_iff (userKey : SecureString) (c : SendCall) :
    c.Swapped userKey ↔ c.keyNow userKey ≠ userKey := by
  unfold Swapped keyNow
  split <;> simp_all [eq_comm]

theorem SendCall.Swapped.holding {userKey : SecureString} {c : SendCall}
    (h : c.Swapped userKey) : c.pc.holding = true := by
  unfold Swapped at h
  split at h <;> simp_all [SendPc.holding]

/-- **One call's view of the swap**: it holds a copy of the user's key, and the master key is what
this point of the call leaves in it. -/
def Held (userKey : SecureString) (s : KeyState n) (i : Fin n) : Prop :=
  (s.calls i).original = userKey ∧ s.masterkey = (s.calls i).keyNow userKey

/-- The invariant: the file is under the user's key, at most one call holds the master key, and
that call knows what is in it; if none does, the user's key is. -/
structure Inv (userKey : SecureString) (s : KeyState n) : Prop where
  disk : s.disk = userKey
  held : ∀ i, (s.calls i).pc.holding = true → Held userKey s i
  unique : ∀ i j, (s.calls i).pc.holding = true → (s.calls j).pc.holding = true → i = j
  free : (∀ i, (s.calls i).pc.holding = false) → s.masterkey = userKey

theorem init_inv (userKey : SecureString) : Inv userKey (init n userKey) where
  disk := rfl
  held _ h := Bool.noConfusion h
  unique _ _ h := Bool.noConfusion h
  free _ := rfl

theorem Inv.safe {userKey : SecureString} {s : KeyState n} (h : Inv userKey s) :
    Safe userKey s := by
  refine ⟨h.disk, fun hidle => h.free fun i => ?_⟩
  by_contra hi
  have hp := SendPc.inProgress_of_holding (Bool.eq_true_of_not_eq_false hi)
  exact absurd (hidle i) (by rw [hp]; decide)

instance (userKey : SecureString) (c : SendCall) : Decidable (c.Swapped userKey) :=
  decidable_of_iff _ (c.swapped_iff userKey).symm

instance (userKey : SecureString) (s : KeyState n) : ∀ e, Decidable (KeySafe userKey s e)
  | .save => inferInstanceAs (Decidable (∀ i, ¬ (s.calls i).Swapped userKey))
  | .work i .fails =>
    inferInstanceAs (Decidable ((s.calls i).pc = .encrypt → ¬ (s.calls i).Swapped userKey))
  | .work _ .ok | .start _ _ | .cancel => isTrue trivial

instance (s : KeyState n) : ∀ e, Decidable (Alone s e)
  | .work i _ =>
    inferInstanceAs (Decidable ((s.calls i).pc = .saveKey → ∀ j, (s.calls j).pc.holding = false))
  | .start _ _ | .cancel | .save => isTrue trivial

/-! ## The worker of `TcpClient` -/

section Worker

variable {F : Type*} {N : PwdFileNatives F}

/-- A call stands where the worker of its client stands. -/
def SendCall.StandsAt (call : SendCall) (c : TcpClient F) : Prop :=
  call.mEncryptionKey = c.mEncryptionKey ∧
    match call.pc with
    | .checkBuffer => c.pc = .checkBuffer
    | .saveKey => c.pc = .encrypt
    | .sendOut => ∃ messageToSend, c.pc = .print messageToSend
    | .returned | .threw => ∃ exit, c.pc = .closing exit
    | _ => False

/-- The native calls of a call that nobody disturbs. -/
def SendCall.runCalls (masterkey : SecureString) (call : SendCall) (os : List Outcome) :
    Option (SecureString × SendCall) :=
  run (fun kc o => kc.2.advance kc.1 o) (masterkey, call) os

/-- **The six calls around `SaveToString`**: the message is under the transmission key, and the
master key is what it was. -/
theorem SendCall.runCalls_saveKey (masterkey : SecureString) {call : SendCall} {c : TcpClient F}
    (hpc : call.pc = .saveKey) (hkey : call.mEncryptionKey = c.mEncryptionKey) :
    call.runCalls masterkey (List.replicate 6 .ok) = some (masterkey, { call with
      pc := .sendOut, original := masterkey, messageToSend := some c.transmissionKey }) := by
  have hcopy : copyBytes masterkey newSecureString (getLength masterkey) = masterkey :=
    (copyBytes_getLength _ _).trans (List.nil_append _)
  have hback : append (clear c.transmissionKey) masterkey = masterkey :=
    (append_eq _ _).trans (List.nil_append _)
  obtain ⟨pc, key, original, message⟩ := call
  obtain rfl : pc = .saveKey := hpc
  obtain rfl : key = c.mEncryptionKey := hkey
  simp only [runCalls, List.replicate, run, advance, Option.bind_some, hcopy]
  exact congrArg (fun k => some (k, _)) hback

/-- A call makes some native calls, up to where the worker stands.  A message that comes of them is
under the transmission key, and the master key holds what it held. -/
def SendCall.Follows (N : PwdFileNatives F) (masterkey : SecureString) (file : F) (call : SendCall)
    (c : TcpClient F) : Prop :=
  ∃ os k' call', call.runCalls masterkey os = some (k', call') ∧ call'.StandsAt c ∧
    ∀ text, c.pc = .print text → k' = masterkey ∧
      call'.messageToSend = some c.transmissionKey ∧
        ∃ seed, text = N.saveToString file c.transmissionKey 100 seed

variable {masterkey : SecureString} {file : F} {call : SendCall} {c c' : TcpClient F}

/-- On the way out there is no message. -/
theorem SendCall.follows_closing {os : List Outcome} {k' : SecureString} {call' : SendCall}
    (hrun : call.runCalls masterkey os = some (k', call')) (hstands : call'.StandsAt c)
    (hexit : ∃ exit, c.pc = .closing exit) : call.Follows N masterkey file c := by
  obtain ⟨exit, hexit⟩ := hexit
  exact ⟨os, k', call', hrun, hstands, fun text h =>
    absurd (hexit.symm.trans h) WorkerPc.noConfusion⟩

/-- A worker in `_sendMessage` that throws is on its way out. -/
theorem exists_closing_of_throws {m : String} {msgs : List Message}
    (hin : c.pc.inSendMessage = true) (hwork : c.work N (.throws m) = some (c', msgs)) :
    ∃ exit, c'.pc = .closing exit := by
  obtain ⟨d, hd, heq⟩ := Option.map_eq_some_iff.mp hwork
  obtain rfl := (Prod.mk.inj heq).1
  refine ⟨.throws m, ?_⟩
  cases hpc : c.pc <;> simp only [hpc, WorkerPc.inSendMessage, Bool.false_eq_true] at hin <;>
    simp only [TcpClient.throwing, hpc, Option.some.injEq] at hd <;> exact hd ▸ rfl

/-- Where a worker is in `_sendMessage`, and where its call is. -/
theorem SendCall.StandsAt.pc_cases (h : call.StandsAt c) (hin : c.pc.inSendMessage = true) :
    (c.pc = .checkBuffer ∧ call.pc = .checkBuffer) ∨ (c.pc = .encrypt ∧ call.pc = .saveKey) ∨
      ∃ text, c.pc = .print text ∧ call.pc = .sendOut := by
  obtain ⟨-, hplace⟩ := h
  cases hp : call.pc <;> simp only [hp] at hplace
  case checkBuffer => exact .inl ⟨hplace, rfl⟩
  case saveKey => exact .inr (.inl ⟨hplace, rfl⟩)
  case sendOut => exact .inr (.inr (hplace.imp fun _ hpc => ⟨hpc, rfl⟩))
  case returned | threw =>
    obtain ⟨exit, hpc⟩ := hplace
    rw [hpc] at hin
    exact absurd hin Bool.false_ne_true

/-- **One step of the worker in `_sendMessage` is one or more of the native calls.** -/
theorem SendCall.exists_run_of_work (masterkey : SecureString) (h : call.StandsAt c)
    (hin : c.pc.inSendMessage = true) (hfile : c.mFileToSend = some file) {o : Kryptan.Outcome}
    {msgs : List Message} (hwork : c.work N o = some (c', msgs)) :
    call.Follows N masterkey file c' := by
  have hkey' : call.mEncryptionKey = c'.mEncryptionKey :=
    h.1.trans (TcpClient.sameUi_of_work hwork).mEncryptionKey.symm
  rcases h.pc_cases hin with ⟨hpc, hcall⟩ | ⟨hpc, hcall⟩ | ⟨text, hpc, hcall⟩
  · have hreturn : call.runCalls masterkey [.fails]
        = some (masterkey, { call with pc := .returned }) := by
      simp [runCalls, run, advance, hcall]
    rcases TcpClient.work_checkBuffer hpc hwork with ⟨m, rfl⟩ | rfl | ⟨hexit, -⟩
    · have hexit := exists_closing_of_throws hin hwork
      exact follows_closing hreturn ⟨hkey', hexit⟩ hexit
    · refine ⟨[.ok], masterkey, { call with pc := .saveKey }, ?_, ⟨hkey', rfl⟩, fun text h => ?_⟩
      · simp [runCalls, run, advance, hcall]
      · exact absurd h WorkerPc.noConfusion
    · exact follows_closing hreturn ⟨hkey', _, hexit⟩ ⟨_, hexit⟩
  · rcases TcpClient.work_encrypt hpc hwork with ⟨m, rfl⟩ | ⟨file', seed, hfile', rfl⟩
    · have hexit := exists_closing_of_throws hin hwork
      -- `SaveToString` is the fourth call
      have hthrow : call.runCalls masterkey [.ok, .ok, .ok, .fails]
          = some (appendString (clear masterkey) call.mEncryptionKey, { call with
            pc := .threw
            original := copyBytes masterkey newSecureString (getLength masterkey) }) := by
        simp [runCalls, run, advance, hcall]
      exact follows_closing hthrow ⟨hkey', hexit⟩ hexit
    · obtain rfl := Option.some.inj (hfile.symm.trans hfile')
      refine ⟨_, _, _, runCalls_saveKey masterkey hcall h.1, ⟨hkey', _, rfl⟩, fun text h => ?_⟩
      exact ⟨rfl, rfl, seed, (WorkerPc.print.inj h).symm⟩
  · have hthrow : call.runCalls masterkey [.fails]
        = some (masterkey, { call with pc := .threw }) := by
      simp [runCalls, run, advance, hcall]
    have hreturn : call.runCalls masterkey [.ok]
        = some (masterkey, { call with pc := .returned }) := by
      simp [runCalls, run, advance, hcall]
    rcases TcpClient.work_print hpc hwork with ⟨m, rfl⟩ | ⟨hexit, -⟩
    · have hexit := exists_closing_of_throws hin hwork
      exact follows_closing hthrow ⟨hkey', hexit⟩ hexit
    · exact follows_closing hreturn ⟨hkey', _, hexit⟩ ⟨_, hexit⟩

end Worker

/-! ## What one native call does to it -/

/-- A call that does not hold the master key leaves it alone, and takes hold of it only by copying
it. -/
theorem SendCall.advance_of_free {k k' : SecureString} {c c' : SendCall} {o : Outcome}
    (h : c.advance k o = some (k', c')) (hc : c.pc.holding = false) :
    k' = k ∧ (c'.pc.holding = true → c.pc = .saveKey ∧ c'.original = k ∧ c'.pc = .clearKey) := by
  obtain ⟨pc, key, original, message⟩ := c
  cases o <;> cases pc <;> simp only [SendPc.holding, Bool.true_eq_false] at hc <;>
    simp only [advance, reduceCtorEq, Option.some.injEq, Prod.mk.injEq] at h <;>
    obtain ⟨rfl, rfl⟩ := h
  case ok.saveKey =>
    refine ⟨rfl, fun _ => ⟨rfl, ?_, rfl⟩⟩
    rw [copyBytes_getLength, newSecureString, List.nil_append]
  all_goals exact ⟨rfl, fun h => Bool.noConfusion h⟩

/-- A call that holds the master key keeps track of what is in it and leaves the user's key there
in the end, unless `SaveToString` throws under another one. -/
theorem SendCall.advance_of_holding {userKey k k' : SecureString} {c c' : SendCall} {o : Outcome}
    (h : c.advance k o = some (k', c')) (hc : c.pc.holding = true) (ho : c.original = userKey)
    (hk : k = c.keyNow userKey) (hsafe : o = .fails → c.pc = .encrypt → ¬ c.Swapped userKey) :
    (c'.pc.holding = true → c'.original = userKey ∧ k' = c'.keyNow userKey)
      ∧ (c'.pc.holding = false → k' = userKey) := by
  have hthrow : o = .fails → c.pc = .encrypt → c.keyNow userKey = userKey := fun h1 h2 => by
    by_contra hne
    exact hsafe h1 h2 ((c.swapped_iff userKey).mpr hne)
  obtain ⟨pc, key, original, message⟩ := c
  dsimp only at ho
  subst ho
  cases o <;> cases pc <;> simp only [SendPc.holding, Bool.false_eq_true] at hc <;>
    simp only [advance, reduceCtorEq, Option.some.injEq, Prod.mk.injEq] at h <;>
    obtain ⟨rfl, rfl⟩ := h
  case ok.restoreKey =>
    refine ⟨fun h => Bool.noConfusion h, fun _ => ?_⟩
    rw [append_eq, hk]
    rfl
  case fails.encrypt => exact ⟨fun h => Bool.noConfusion h, fun _ => hk.trans (hthrow rfl rfl)⟩
  case ok.setTransmissionKey =>
    refine ⟨fun _ => ⟨rfl, ?_⟩, fun h => Bool.noConfusion h⟩
    rw [appendString_eq, hk]
    rfl
  case ok.encrypt => exact ⟨fun _ => ⟨rfl, hk⟩, fun h => Bool.noConfusion h⟩
  all_goals exact ⟨fun _ => ⟨rfl, rfl⟩, fun h => Bool.noConfusion h⟩

/-! ## Every event keeps the invariant -/

/-- A call that holds the key neither before nor after a step changes nothing about it. -/
theorem Inv.update_free {userKey : SecureString} {s t : KeyState n} (h : Inv userKey s)
    {i : Fin n} {c' : SendCall} (hdisk : t.disk = s.disk) (hkey : t.masterkey = s.masterkey)
    (hcalls : t.calls = Function.update s.calls i c') (hi : (s.calls i).pc.holding = false)
    (hc' : c'.pc.holding = false) : Inv userKey t := by
  have hcall : ∀ j, (t.calls j).pc.holding = true → t.calls j = s.calls j := fun j hj => by
    rw [hcalls] at hj ⊢
    by_cases hji : j = i
    · rw [hji, Function.update_self, hc'] at hj
      exact Bool.noConfusion hj
    · rw [Function.update_of_ne hji]
  have hnone : (∀ j, (t.calls j).pc.holding = false) → ∀ j, (s.calls j).pc.holding = false :=
    fun hall j => by
      by_cases hji : j = i
      · rw [hji, hi]
      · have := hall j
        rwa [hcalls, Function.update_of_ne hji] at this
  refine ⟨hdisk.trans h.disk, fun j hj => ?_, fun j l hj hl => ?_, fun hall => ?_⟩
  · have heq := hcall j hj
    rw [Held, heq, hkey]
    exact h.held j (heq ▸ hj)
  · exact h.unique j l (hcall j hj ▸ hj) (hcall l hl ▸ hl)
  · exact hkey.trans (h.free (hnone hall))

/-- After a step of the only call that holds the key, no other one does. -/
theorem eq_of_holding {s : KeyState n} {i : Fin n} {c' : SendCall}
    (hfree : ∀ j, j ≠ i → (s.calls j).pc.holding = false) {j : Fin n}
    (hj : (Function.update s.calls i c' j).pc.holding = true) : j = i := by
  by_contra hne
  rw [Function.update_of_ne hne, hfree j hne] at hj
  exact Bool.noConfusion hj

/-- A step of the call that holds the key. -/
theorem Inv.work_holding {userKey : SecureString} {s : KeyState n} (h : Inv userKey s) {i : Fin n}
    {o : Outcome} {k' : SecureString} {c' : SendCall}
    (hadv : (s.calls i).advance s.masterkey o = some (k', c'))
    (hi : (s.calls i).pc.holding = true)
    (hsafe : o = .fails → (s.calls i).pc = .encrypt → ¬ (s.calls i).Swapped userKey) :
    Inv userKey { s with masterkey := k', calls := Function.update s.calls i c' } := by
  obtain ⟨ho, hk⟩ := h.held i hi
  have hfree : ∀ j, j ≠ i → (s.calls j).pc.holding = false := fun j hj => by
    by_contra hholds
    exact hj (h.unique j i (Bool.eq_true_of_not_eq_false hholds) hi)
  obtain ⟨hkeep, hleave⟩ := SendCall.advance_of_holding hadv hi ho hk hsafe
  refine ⟨h.disk, fun j hj => ?_, fun j l hj hl => ?_, fun hnone => ?_⟩
  · obtain rfl := eq_of_holding hfree hj
    simp only [Held, Function.update_self] at hj ⊢
    exact hkeep hj
  · rw [eq_of_holding hfree hj, eq_of_holding hfree hl]
  · have hself := hnone i
    simp only [Function.update_self] at hself
    exact hleave hself

/-- A call copies the key while no call holds it. -/
theorem Inv.work_saveKey {userKey : SecureString} {s : KeyState n} (h : Inv userKey s) {i : Fin n}
    {c' : SendCall} (hfree : ∀ j, (s.calls j).pc.holding = false)
    (ho : c'.original = s.masterkey) (hpc : c'.pc = .clearKey) :
    Inv userKey { s with calls := Function.update s.calls i c' } := by
  have hk := h.free hfree
  refine ⟨h.disk, fun j hj => ?_, fun j l hj hl => ?_, fun _ => hk⟩
  · obtain rfl := eq_of_holding (fun j _ => hfree j) hj
    simp only [Held, Function.update_self, SendCall.keyNow, hpc]
    exact ⟨ho.trans hk, hk⟩
  · rw [eq_of_holding (fun j _ => hfree j) hj, eq_of_holding (fun j _ => hfree j) hl]

/-- **A worker's step keeps the invariant** when it copies the key alone and does not throw under
a transmission key. -/
theorem Inv.work {userKey : SecureString} {s : KeyState n} (h : Inv userKey s) {i : Fin n}
    {o : Outcome} {k' : SecureString} {c' : SendCall}
    (hadv : (s.calls i).advance s.masterkey o = some (k', c'))
    (halone : (s.calls i).pc = .saveKey → ∀ j, (s.calls j).pc.holding = false)
    (hsafe : o = .fails → (s.calls i).pc = .encrypt → ¬ (s.calls i).Swapped userKey) :
    Inv userKey { s with masterkey := k', calls := Function.update s.calls i c' } := by
  by_cases hi : (s.calls i).pc.holding = true
  · exact h.work_holding hadv hi hsafe
  · have hi' := Bool.eq_false_of_not_eq_true hi
    obtain ⟨rfl, htake⟩ := SendCall.advance_of_free hadv hi'
    by_cases hc' : c'.pc.holding = true
    · obtain ⟨hsave, ho, hpc⟩ := htake hc'
      exact h.work_saveKey (halone hsave) ho hpc
    · exact h.update_free rfl rfl rfl hi' (Bool.eq_false_of_not_eq_true hc')

/-- Where no call is swapped, the master key is the user's. -/
theorem Inv.masterkey_eq {userKey : SecureString} {s : KeyState n} (h : Inv userKey s)
    (hsafe : ∀ i, ¬ (s.calls i).Swapped userKey) : s.masterkey = userKey := by
  by_cases hfree : ∀ i, (s.calls i).pc.holding = false
  · exact h.free hfree
  · obtain ⟨i, hi⟩ := not_forall.mp hfree
    have hk := (h.held i (Bool.eq_true_of_not_eq_false hi)).2
    by_contra hne
    exact hsafe i (((s.calls i).swapped_iff userKey).mpr (hk ▸ hne))

/-- **Every event that respects the copy and the swap keeps the invariant.** -/
theorem Inv.step {userKey : SecureString} {s t : KeyState n} {e : Event n} (h : Inv userKey s)
    (halone : Alone s e) (hsafe : KeySafe userKey s e) (hst : step s e = some t) :
    Inv userKey t := by
  cases e with
  | start i key =>
    obtain ⟨hpc, rfl⟩ := start_eq_some hst
    exact h.update_free rfl rfl rfl (by rw [hpc]; rfl) rfl
  | work i o =>
    obtain ⟨k', c', hadv, rfl⟩ := work_eq_some hst
    refine h.work hadv halone fun ho hpc => ?_
    subst ho
    exact hsafe hpc
  | cancel =>
    obtain rfl := cancel_eq_some hst
    exact ⟨h.disk, h.held, h.unique, h.free⟩
  | save =>
    obtain rfl := save_eq_some hst
    exact ⟨h.masterkey_eq hsafe, h.held, h.unique, h.free⟩

/-! ## One sync after the other -/

/-- At most one `_sendMessage` is in progress. -/
def Solo (s : KeyState n) : Prop :=
  ∀ i j, (s.calls i).pc.inProgress = true → (s.calls j).pc.inProgress = true → i = j

/-- Only a call in progress makes a step. -/
theorem SendCall.advance_inProgress {k : SecureString} {c : SendCall} {o : Outcome}
    {kc : SecureString × SendCall} (h : c.advance k o = some kc) : c.pc.inProgress = true := by
  obtain ⟨pc, key, original, message⟩ := c
  cases o <;> cases pc <;> first | rfl | exact absurd h (by simp [advance])

theorem Solo.step {s t : KeyState n} {e : Event n} (h : Solo s) (hone : OneAtATime s e)
    (hst : step s e = some t) : Solo t := by
  cases e with
  | start i key =>
    obtain ⟨-, rfl⟩ := start_eq_some hst
    have honly : ∀ j, (Function.update s.calls i ⟨.checkBuffer, key, newSecureString, none⟩
        j).pc.inProgress = true → j = i := fun j hj => by
      by_contra hne
      rw [Function.update_of_ne hne, hone j] at hj
      exact Bool.noConfusion hj
    exact fun j l hj hl => (honly j hj).trans (honly l hl).symm
  | work i o =>
    obtain ⟨k', c', hadv, rfl⟩ := work_eq_some hst
    have hback : ∀ j, (Function.update s.calls i c' j).pc.inProgress = true →
        (s.calls j).pc.inProgress = true := fun j hj => by
      by_cases hji : j = i
      · exact hji ▸ SendCall.advance_inProgress hadv
      · rwa [Function.update_of_ne hji] at hj
    exact fun j l hj hl => h j l (hback j hj) (hback l hl)
  | cancel =>
    obtain rfl := cancel_eq_some hst
    exact h
  | save =>
    obtain rfl := save_eq_some hst
    exact h

/-- A single `_sendMessage` copies the key alone. -/
theorem Solo.alone {s : KeyState n} (h : Solo s) (e : Event n) : Alone s e := by
  cases e with
  | work i o =>
    intro hpc j
    by_contra hj
    have hj' := Bool.eq_true_of_not_eq_false hj
    have hji := h j i (SendPc.inProgress_of_holding hj') (by rw [hpc]; rfl)
    rw [hji, hpc] at hj'
    exact Bool.noConfusion hj'
  | start i key => trivial
  | cancel => trivial
  | save => trivial

/-- A call that holds a swapped key shows it in the master key. -/
theorem Inv.masterkey_ne {userKey : SecureString} {s : KeyState n} (h : Inv userKey s) {i : Fin n}
    (hi : (s.calls i).Swapped userKey) : s.masterkey ≠ userKey := by
  rw [(h.held i hi.holding).2]
  exact ((s.calls i).swapped_iff userKey).mp hi

/-- A throw under another key than the user's leaves that key behind, with nobody left to put the
user's back. -/
theorem Inv.not_safe_of_throw {userKey : SecureString} {s t : KeyState n} {i : Fin n}
    (h : Inv userKey s) (hsolo : Solo s) (hpc : (s.calls i).pc = .encrypt)
    (hswap : (s.calls i).Swapped userKey) (hst : MasterKey.step s (.work i .fails) = some t) :
    ¬ Safe userKey t := by
  obtain ⟨k', c', hadv, rfl⟩ := work_eq_some hst
  rw [SendCall.advance, hpc] at hadv
  obtain ⟨rfl, rfl⟩ := Prod.mk.inj (Option.some.inj hadv)
  refine fun ht => h.masterkey_ne hswap (ht.2 fun j => ?_)
  rcases eq_or_ne j i with rfl | hne
  · simp [SendPc.inProgress]
  · have hnot : (s.calls j).pc.inProgress = false := by
      by_contra hj
      exact hne (hsolo j i (Bool.eq_true_of_not_eq_false hj) (by rw [hpc]; rfl))
    simpa [Function.update_of_ne hne] using hnot

/-- **A save in the middle of the swap, or a throw there, is felt at once**: the file is under the
wrong key, or the worker leaves with the wrong key in memory. -/
theorem Inv.not_safe {userKey : SecureString} {s t : KeyState n} {e : Event n}
    (h : Inv userKey s) (hsolo : Solo s) (hsafe : ¬ KeySafe userKey s e)
    (hst : MasterKey.step s e = some t) : ¬ Safe userKey t := by
  cases e with
  | start i key => exact absurd trivial hsafe
  | cancel => exact absurd trivial hsafe
  | save =>
    obtain ⟨i, hi⟩ := not_forall.mp hsafe
    obtain rfl := save_eq_some hst
    exact fun ht => h.masterkey_ne (not_not.mp hi) ht.1
  | work i o =>
    cases o with
    | ok => exact absurd trivial hsafe
    | fails =>
      simp only [KeySafe, not_forall, not_not] at hsafe
      obtain ⟨hpc, hswap⟩ := hsafe
      exact h.not_safe_of_throw hsolo hpc hswap hst

/-! ## Every run -/

/-- **The file and the master key stay the user's as long as the swap is respected.**  Through every
run of any number of syncs, with cancels and saves at any point: they do if no save runs and no
`SaveToString` throws while a `_sendMessage` has the master key swapped, and no other
`_sendMessage` copies it meanwhile; and when the syncs come one after the other, only if so. -/
theorem fileKey_safe (userKey : SecureString) (es : List (Event n)) :
    (AllSteps step (fun s e => Alone s e ∧ KeySafe userKey s e) (init n userKey) es →
        AllStates step (Safe userKey) (init n userKey) es)
      ∧ (AllSteps step OneAtATime (init n userKey) es →
        (AllStates step (Safe userKey) (init n userKey) es
          ↔ AllSteps step (KeySafe userKey) (init n userKey) es)) := by
  refine ⟨fun h => ?_, fun hone => ?_⟩
  · refine AllStates.mono (fun s hs => Inv.safe hs) ?_
    exact h.allStates (fun s e t hs hP hst => hs.step hP.1 hP.2 hst) (init_inv userKey)
  · refine allStates_iff_allSteps (I := fun s => Inv userKey s ∧ Solo s) (N := OneAtATime)
      (fun s e t hs hN hP hst => ⟨hs.1.step (hs.2.alone e) hP hst, hs.2.step hN hst⟩)
      (fun s hs => hs.1.safe) (fun s e t hs _ hP hst => hs.1.not_safe hs.2 hP hst)
      ⟨init_inv userKey, fun i j hi _ => Bool.noConfusion hi⟩ hone

/-- The calls of one `_sendMessage` after the other, until its message is out. -/
def wholeSend (i : Fin n) : List (Event n) := List.replicate 8 (.work i .ok)

/-- A sync that sends its reply and the save that follows. -/
theorem fileKey_safe_send :
    AllStates step (Safe [1, 2]) (init 1 [1, 2]) (.start 0 ['k'] :: wholeSend 0 ++ [.save]) :=
  (fileKey_safe [1, 2] _).1 (by decide)

/-- `SaveToString` throws: the next save encrypts the file with the transmission key. -/
theorem not_safe_after_throw :
    ¬ ∀ (userKey : SecureString) (es : List (Event 1)) (t : KeyState 1),
      run step (init 1 userKey) es = some t → Safe userKey t := by
  intro h
  have hsafe := h [1, 2] [.start 0 ['k'], .work 0 .ok, .work 0 .ok, .work 0 .ok, .work 0 .ok,
    .work 0 .fails, .cancel, .save] _ rfl
  exact absurd hsafe.1 (by decide)

end Kryptan.MasterKey
