import Kryptan.Core.SecureString

/-!
# Core/SPointer — a secure string and its count

    ⟨string, 0⟩ ──Increment──▸ ⟨string, 1⟩ ⇄ ⟨string, 2⟩ ⇄ ‥
                                    │
                                    ╰──Decrement──▸ ⟨null, -1⟩

A native secure string is reached through an `SPointer` only, by every handler that holds its
address.  `IncrementReference` and `DecrementReference` dereference `sString` before they look at
the count, so that their guards against a pointer that was released report only while the string is
there (`call_reports_iff`): **on a released pointer no guard works** (`guardsHold_released_iff`),
and calls crash exactly when one of them follows the release (`crashes_mem_calls_iff`).
-/

namespace Kryptan

open CoreSecureStringHandler

/-- An `int` of 32 bits. -/
def toInt32 (n : ℤ) : ℤ := n.bmod (2 ^ 32)

/-- An `SPointer`. -/
structure SPointer where
  sString : Option SecureString
  nReferences : ℤ
  deriving DecidableEq, Repr

/-- How a native call on an `SPointer` ends: it returns, it reports a `runtime_error`, or it
dereferences a null `sString`. -/
inductive NativeCall where
  | returns (ptr : SPointer)
  | reports (error : String) (ptr : SPointer)
  | crashes
  deriving DecidableEq, Repr

namespace SPointer

/-- What `createJavaSecureStringHandler` allocates. -/
def new : SPointer := ⟨some newSecureString, 0⟩

/-- What a new handler is on. -/
def first : SPointer := ⟨some newSecureString, 1⟩

/-- `IncrementReference`. -/
def incrementReference (ptr : SPointer) : NativeCall :=
  match ptr.sString with
  | none => .crashes
  | some _ =>
    if ptr.nReferences = -1 then
      .reports "Incrementing a CoreSecureStringHandler which has already been deleted!" ptr
    else .returns { ptr with nReferences := toInt32 (ptr.nReferences + 1) }

/-- `DecrementReference`. -/
def decrementReference (ptr : SPointer) : NativeCall :=
  match ptr.sString with
  | none => .crashes
  | some _ =>
    let nReferences := toInt32 (ptr.nReferences - 1)
    if nReferences = 0 then .returns ⟨none, -1⟩
    else if nReferences = -1 then
      .reports "Decrementing a CoreSecureStringHandler which has already been deleted!"
        { ptr with nReferences := nReferences }
    else .returns { ptr with nReferences := nReferences }

/-! ## A count that fits -/

/-- With `n` handlers on it and `r` releases behind it a pointer is held, or released once. -/
inductive Fits (ptr : SPointer) (n r : ℕ) : Prop where
  | held (hstring : ptr.sString ≠ none) (hcount : ptr.nReferences = n) (hpos : 0 < n)
    (hlt : n < 2 ^ 31) (hr : r = 0) : Fits ptr n r
  | released (hstring : ptr.sString = none) (hcount : ptr.nReferences = -1) (hn : n = 0)
    (hr : r = 1) : Fits ptr n r

/-- An address may be taken hold of: its string is there, and its count has room for one more. -/
def Usable (ptr : SPointer) : Prop := ptr.sString ≠ none ∧ ptr.nReferences < 2 ^ 31 - 1

instance (ptr : SPointer) : Decidable ptr.Usable := by
  unfold Usable
  infer_instance

variable {ptr : SPointer} {n r : ℕ}

theorem toInt32_natCast {n : ℕ} (h : n < 2 ^ 31) : toInt32 n = n :=
  Int.bmod_eq_of_le (by omega) (by omega)

theorem toInt32_lt (n : ℤ) : toInt32 n < 2 ^ 31 := by
  have h := Int.bmod_lt (x := n) (m := 2 ^ 32) (by decide)
  exact lt_of_lt_of_eq h (by decide)

/-- **One handler more.** -/
theorem Fits.incrementReference (h : Fits ptr n r) (hu : ptr.Usable) :
    ∃ ptr', ptr.incrementReference = .returns ptr' ∧ ptr'.sString = ptr.sString ∧
      Fits ptr' (n + 1) r := by
  obtain ⟨hstring, hcount, -, hlt, hr⟩ | ⟨hnull, -, -, -⟩ := h
  · obtain ⟨str, hstr⟩ := Option.ne_none_iff_exists'.mp hstring
    have hne : ptr.nReferences ≠ -1 := by omega
    have hroom : n + 1 < 2 ^ 31 := by
      have := hu.2
      omega
    have hnext : toInt32 (ptr.nReferences + 1) = (n + 1 : ℕ) := by
      rw [← toInt32_natCast hroom]
      exact congrArg toInt32 (by omega)
    refine ⟨{ ptr with nReferences := toInt32 (ptr.nReferences + 1) }, ?_, rfl,
      .held hstring hnext n.succ_pos hroom hr⟩
    rw [SPointer.incrementReference, hstr]
    exact if_neg hne
  · exact absurd hnull hu.1

/-- **One handler less**: it returns, and the last one releases the string. -/
theorem Fits.decrementReference (h : Fits ptr (n + 1) r) :
    ∃ ptr', ptr.decrementReference = .returns ptr' ∧
      (n = 0 ∧ ptr'.sString = none ∧ Fits ptr' n (r + 1) ∨
        ptr'.sString = ptr.sString ∧ Fits ptr' n r) := by
  obtain ⟨hstring, hcount, -, hlt, hr⟩ | ⟨-, -, hzero, -⟩ := h
  · obtain ⟨str, hstr⟩ := Option.ne_none_iff_exists'.mp hstring
    have hnext : toInt32 (ptr.nReferences - 1) = n := by
      rw [← toInt32_natCast (n := n) (by omega)]
      exact congrArg toInt32 (by omega)
    rw [SPointer.decrementReference, hstr]
    dsimp only
    rw [hnext]
    rcases Nat.eq_zero_or_pos n with rfl | hpos
    · exact ⟨⟨none, -1⟩, rfl, .inl ⟨rfl, rfl, .released rfl rfl rfl (by rw [hr])⟩⟩
    · refine ⟨{ ptr with nReferences := n }, ?_, .inr ⟨hstr, .held hstring rfl hpos (by omega) hr⟩⟩
      rw [if_neg (by omega), if_neg (by omega)]
      simp [hstr]
  · exact absurd hzero n.succ_ne_zero

/-- Taken hold of when it may not be, a pointer that fits crashes or ends with another count. -/
theorem Fits.not_usable (h : Fits ptr n r) (hu : ¬ ptr.Usable) :
    ptr.incrementReference = .crashes ∨
      ∃ ptr', ptr.incrementReference = .returns ptr' ∧ ptr'.sString ≠ none ∧
        ptr'.nReferences ≠ (n + 1 : ℕ) := by
  obtain ⟨hstring, hcount, -, -, -⟩ | ⟨hnull, -, -, -⟩ := h
  · obtain ⟨str, hstr⟩ := Option.ne_none_iff_exists'.mp hstring
    have hfull : 2 ^ 31 - 1 ≤ ptr.nReferences := not_lt.mp fun hlt => hu ⟨hstring, hlt⟩
    have hlt := toInt32_lt (ptr.nReferences + 1)
    refine .inr ⟨{ ptr with nReferences := toInt32 (ptr.nReferences + 1) }, ?_, hstring, ?_⟩
    · rw [SPointer.incrementReference, hstr]
      exact if_neg (by omega)
    · dsimp only
      omega
  · left
    rw [SPointer.incrementReference, hnull]

/-- The first handler of a new string. -/
theorem incrementReference_new : new.incrementReference = .returns first := by
  decide

theorem fits_first : first.Fits 1 0 :=
  .held (Option.some_ne_none _) rfl Nat.one_pos (by decide) rfl

/-- A pointer but for the contents of its string: whether it is there, and its count. -/
def outline (ptr : SPointer) : Bool × ℤ := (ptr.sString.isSome, ptr.nReferences)

theorem sString_iff_of_outline {ptr' : SPointer} (h : ptr'.outline = ptr.outline) :
    ptr'.sString = none ↔ ptr.sString = none := by
  have hsome : ptr'.sString.isSome = ptr.sString.isSome := (Prod.mk.inj h).1
  rw [← Option.isNone_iff_eq_none, ← Option.isNone_iff_eq_none, ← Option.not_isSome, hsome,
    Option.not_isSome]

/-- The contents of a string do not matter to its count. -/
theorem Fits.congr {ptr' : SPointer} (h : Fits ptr n r) (heq : ptr'.outline = ptr.outline) :
    Fits ptr' n r := by
  have hstring := sString_iff_of_outline heq
  have hcount : ptr'.nReferences = ptr.nReferences := (Prod.mk.inj heq).2
  obtain ⟨hs, hc, hpos, hlt, hr⟩ | ⟨hs, hc, hn, hr⟩ := h
  · exact .held (mt hstring.mp hs) (hcount.trans hc) hpos hlt hr
  · exact .released (hstring.mpr hs) (hcount.trans hc) hn hr

/-! ## After the release -/

/-- What a handler calls on its pointer. -/
inductive ReferenceCall where
  | incrementReference
  | decrementReference
  deriving DecidableEq, Repr

/-- The error a call is to report on a pointer that was released. -/
def ReferenceCall.guard : ReferenceCall → String
  | .incrementReference =>
    "Incrementing a CoreSecureStringHandler which has already been deleted!"
  | .decrementReference =>
    "Decrementing a CoreSecureStringHandler which has already been deleted!"

/-- What `DecrementReference` leaves of a pointer whose string it deletes. -/
def released : SPointer := ⟨none, -1⟩

/-- One call. -/
def call (ptr : SPointer) : ReferenceCall → NativeCall
  | .incrementReference => ptr.incrementReference
  | .decrementReference => ptr.decrementReference

/-- How the calls of a sequence end, one after the other.  There is none after a crash. -/
def calls : SPointer → List ReferenceCall → List NativeCall
  | _, [] => []
  | ptr, c :: cs =>
    match ptr.call c with
    | .returns ptr' => .returns ptr' :: ptr'.calls cs
    | .reports error ptr' => .reports error ptr' :: ptr'.calls cs
    | .crashes => [.crashes]

/-- **What is to hold**: every call of the sequence reports the error of its guard and leaves the
count at the mark of a released pointer. -/
def GuardsHold (ptr : SPointer) (cs : List ReferenceCall) : Prop :=
  List.Forall₂ (fun c r => ∃ ptr', r = .reports c.guard ptr' ∧ ptr'.nReferences = -1) cs
    (ptr.calls cs)

/-- The count for which the guard of a call reports.  `DecrementReference` looks at the count it has
already changed. -/
def Trips (ptr : SPointer) : ReferenceCall → Prop
  | .incrementReference => ptr.nReferences = -1
  | .decrementReference => toInt32 (ptr.nReferences - 1) = -1

/-- **A string is deleted with the last reference only, and leaves `released`.** -/
theorem decrementReference_eq_released_iff :
    ptr.decrementReference = .returns released ↔
      ptr.sString ≠ none ∧ toInt32 (ptr.nReferences - 1) = 0 := by
  rw [SPointer.decrementReference]
  cases hstr : ptr.sString with
  | none => simp
  | some str =>
    dsimp only
    split_ifs with hlast hguard
    · simp [hlast, released]
    · simp [hlast]
    · simp [hlast, released]

/-- **A guard reports only while the string is there**: the string is dereferenced before it. -/
theorem call_reports_iff (c : ReferenceCall) :
    (∃ error ptr', ptr.call c = .reports error ptr') ↔ ptr.sString ≠ none ∧ ptr.Trips c := by
  cases hstr : ptr.sString with
  | none => cases c <;> simp [call, SPointer.incrementReference, SPointer.decrementReference, hstr]
  | some str =>
    cases c with
    | incrementReference =>
      rw [call, SPointer.incrementReference, hstr, Trips]
      dsimp only
      split_ifs with hguard <;> simp [hguard]
    | decrementReference =>
      rw [call, SPointer.decrementReference, hstr, Trips]
      dsimp only
      split_ifs with hlast hguard
      · simp [hlast]
      · simp [hguard]
      · simp [hguard]

/-- On a released pointer the first call crashes, and there is no second. -/
theorem calls_released (c : ReferenceCall) (cs : List ReferenceCall) :
    released.calls (c :: cs) = [.crashes] := by
  cases c <;> rfl

/-- **One call on a string that is there**: it stays there, or the call releases it. -/
theorem call_cases (hstring : ptr.sString ≠ none) (c : ReferenceCall) :
    (∃ ptr', ptr'.sString ≠ none ∧
      (ptr.call c = .returns ptr' ∨ ∃ error, ptr.call c = .reports error ptr')) ∨
      ptr.call c = .returns released := by
  obtain ⟨str, hstr⟩ := Option.ne_none_iff_exists'.mp hstring
  cases c with
  | incrementReference =>
    rw [call, SPointer.incrementReference, hstr]
    dsimp only
    split_ifs
    · exact .inl ⟨ptr, hstring, .inr ⟨_, rfl⟩⟩
    · exact .inl ⟨_, by simp, .inl rfl⟩
  | decrementReference =>
    rw [call, SPointer.decrementReference, hstr]
    dsimp only
    split_ifs
    · exact .inr rfl
    · exact .inl ⟨_, by simp, .inr ⟨_, rfl⟩⟩
    · exact .inl ⟨_, by simp, .inl rfl⟩

/-- A call that leaves the string is followed by the others. -/
theorem exists_calls_cons {ptr' : SPointer} {c : ReferenceCall} (hstring : ptr'.sString ≠ none)
    (hcall : ptr.call c = .returns ptr' ∨ ∃ error, ptr.call c = .reports error ptr') :
    ∃ r : NativeCall, r ≠ .crashes ∧ r ≠ .returns released ∧
      ∀ cs, ptr.calls (c :: cs) = r :: ptr'.calls cs := by
  rcases hcall with hcall | ⟨error, hcall⟩
  · refine ⟨.returns ptr', NativeCall.noConfusion, fun heq => ?_, fun cs => by rw [calls, hcall]⟩
    obtain rfl := NativeCall.returns.inj heq
    exact hstring rfl
  · exact ⟨.reports error ptr', NativeCall.noConfusion, NativeCall.noConfusion,
      fun cs => by rw [calls, hcall]⟩

/-- A call of the sequence comes after one that has released the string. -/
def FollowsRelease (ptr : SPointer) (cs : List ReferenceCall) : Prop :=
  ∃ ds c es, cs = ds ++ c :: es ∧ (ptr.calls ds).getLast? = some (.returns released)

/-- What follows the release does so behind a call that has not released the string, too. -/
theorem followsRelease_cons_iff {ptr' : SPointer} {c : ReferenceCall} {r : NativeCall}
    (hreleased : r ≠ .returns released) (hcalls : ∀ cs, ptr.calls (c :: cs) = r :: ptr'.calls cs)
    (cs : List ReferenceCall) : ptr.FollowsRelease (c :: cs) ↔ ptr'.FollowsRelease cs := by
  constructor
  · rintro ⟨ds, d, es, heq, hlast⟩
    cases ds with
    | nil => exact absurd hlast (by simp [calls])
    | cons c' ds =>
      obtain ⟨rfl, rfl⟩ := List.cons.inj heq
      rw [hcalls, List.getLast?_cons] at hlast
      refine ⟨ds, d, es, rfl, ?_⟩
      cases hlast' : (ptr'.calls ds).getLast? with
      | none =>
        rw [hlast', Option.getD_none] at hlast
        exact absurd (Option.some.inj hlast) hreleased
      | some r' =>
        rw [hlast', Option.getD_some] at hlast
        exact hlast
  · rintro ⟨ds, d, es, rfl, hlast⟩
    exact ⟨c :: ds, d, es, rfl, by rw [hcalls, List.getLast?_cons, hlast, Option.getD_some]⟩

/-- After a call that releases the string every call follows the release, and crashes. -/
theorem crashes_iff_of_release {c : ReferenceCall} (hcall : ptr.call c = .returns released)
    (cs : List ReferenceCall) :
    .crashes ∈ ptr.calls (c :: cs) ↔ ptr.FollowsRelease (c :: cs) := by
  have hcalls : ∀ ds, ptr.calls (c :: ds) = .returns released :: released.calls ds :=
    fun ds => by rw [calls, hcall]
  have hend : ptr.calls [c] = [.returns released] := hcalls []
  cases cs with
  | nil =>
    refine iff_of_false (by simp [hend]) ?_
    rintro ⟨ds, d, es, heq, hlast⟩
    obtain ⟨rfl, -⟩ | ⟨-, hnil⟩ := List.append_eq_singleton_iff.mp heq.symm
    · exact absurd hlast (by simp [calls])
    · exact nomatch hnil
  | cons d cs =>
    refine iff_of_true ?_ ⟨[c], d, cs, rfl, by rw [hend]; rfl⟩
    rw [hcalls, calls_released]
    exact List.mem_cons_of_mem _ (List.mem_singleton.mpr rfl)

/-- **Calls on a string that is there crash exactly when one of them follows its release.** -/
theorem crashes_mem_calls_iff (hstring : ptr.sString ≠ none) (cs : List ReferenceCall) :
    .crashes ∈ ptr.calls cs ↔ ptr.FollowsRelease cs := by
  induction cs generalizing ptr with
  | nil => simp [calls, FollowsRelease]
  | cons c cs ih =>
    rcases call_cases hstring c with ⟨ptr', hstring', hcall⟩ | hcall
    · obtain ⟨r, hcrash, hreleased, hcalls⟩ := exists_calls_cons hstring' hcall
      rw [hcalls, List.mem_cons, or_iff_right hcrash.symm, ih hstring',
        followsRelease_cons_iff hreleased hcalls]
    · exact crashes_iff_of_release hcall cs

/-- **The guards work on no call after the release.** -/
theorem guardsHold_released_iff (cs : List ReferenceCall) :
    released.GuardsHold cs ↔ cs = [] := by
  cases cs with
  | nil => exact iff_of_true .nil rfl
  | cons c cs =>
    refine iff_of_false (fun h => ?_) (List.cons_ne_nil c cs)
    rw [GuardsHold, calls_released] at h
    obtain ⟨⟨ptr', hreports, -⟩, -⟩ := List.forall₂_cons.mp h
    exact nomatch hreports

/-- The handler of a released pointer is finalized. -/
theorem not_guardsHold_after_release :
    ¬ ∀ (ptr : SPointer) (cs : List ReferenceCall), ptr.sString = none → ptr.nReferences = -1 →
      ptr.GuardsHold cs := by
  intro h
  have hguards := h ⟨none, -1⟩ [.decrementReference] rfl rfl
  obtain ⟨⟨ptr', hreports, -⟩, -⟩ := List.forall₂_cons.mp hguards
  exact nomatch hreports

end SPointer

end Kryptan
