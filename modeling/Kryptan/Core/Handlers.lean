import Kryptan.Core.SPointer
import Kryptan.Machinery.Ranges
import Kryptan.Machinery.Runs

/-!
# Core/Handlers — the handlers of secure strings, the parcels and the garbage collector

    handler ──nativeHandle──▸ SPointer ──▸ string          counted by nReferences
                                 ▴
    parcel ───── a number ───────╯                         not counted

A `CoreSecureStringHandler` counts itself in when it is constructed and out when it is finalized.
A parcel, of a collection of handlers or of the master key of a `CorePwdFile`, holds the bare
addresses, as does whoever calls the constructor from a native handle; and so does the copy
constructor, whose temporary handler may be finalized before the new one is counted in.

**The counts are right for as long as each address taken hold of is that of a string that is still
there** (`allStates_counted_iff`).
-/

namespace Kryptan

open CoreSecureStringHandler Runs

/-- The native pointers by their address, which is never given out again; the `nativeHandle` of each
handler, `none` once it is finalized; the copy constructors that have not counted their handler in,
with the handler they copy; the parcels.  `releases` records the strings that were deleted, the
latest first, and `errors` the exceptions reported. -/
structure Handlers where
  pointers : List SPointer
  handlers : List (Option ℕ)
  copying : List (ℕ × ℕ)
  parcels : List (List ℕ)
  releases : List ℕ
  errors : List String
  crashed : Bool
  deriving DecidableEq, Repr

/-- What is done with handlers.  A copy constructor takes two steps: `copy` up to the handle of its
temporary handler, `copyRest` from `IncrementReference` on.  `readParcel` reads one handle of a
parcel. -/
inductive HandlerEvent where
  | newSecureString
  | construct (nativeHandle : ℕ)
  | copy (aString : ℕ)
  | copyRest (i : ℕ)
  | addByte (handler : ℕ) (c : UInt8)
  | clear (handler : ℕ)
  | writeToParcel (mStrings : List ℕ)
  | readParcel (parcel i : ℕ)
  | finalize (handler : ℕ)
  deriving DecidableEq, Repr

namespace Handlers

/-- Before the first handler. -/
def empty : Handlers := ⟨[], [], [], [], [], [], false⟩

/-- The address a handler holds, if it is not finalized. -/
def nativeHandle (s : Handlers) (handler : ℕ) : Option ℕ := s.handlers[handler]?.join

/-- The handlers on an address. -/
def handlersOn (s : Handlers) (p : ℕ) : ℕ := s.handlers.count (some p)

/-- The end of a native call on the pointer at `p`, which was `ptr`. -/
def ended (s : Handlers) (p : ℕ) (ptr : SPointer) : NativeCall → Handlers
  | .returns ptr' =>
    { s with
      pointers := s.pointers.set p ptr'
      releases := if ptr.sString ≠ none ∧ ptr'.sString = none then p :: s.releases else s.releases }
  | .reports error ptr' =>
    { s with pointers := s.pointers.set p ptr', errors := error :: s.errors }
  | .crashes => { s with crashed := true }

/-- `new CoreSecureStringHandler(nativeHandle)`.  The object is there, and will be finalized, even
if `IncrementReference` throws. -/
def construct (s : Handlers) (p : ℕ) : Option Handlers :=
  s.pointers[p]?.map fun ptr =>
    { s with handlers := s.handlers ++ [some p] }.ended p ptr ptr.incrementReference

/-- `NewSecureString`. -/
def newSecureString (s : Handlers) : Option Handlers :=
  { s with pointers := s.pointers ++ [SPointer.new] }.construct s.pointers.length

/-- A native method on the string at `p`. -/
def edit (s : Handlers) (p : ℕ) (f : SecureString → SecureString) : Option Handlers :=
  s.pointers[p]?.map fun ptr =>
    match ptr.sString with
    | none => { s with crashed := true }
    | some str => { s with pointers := s.pointers.set p { ptr with sString := some (f str) } }

/-- The loop of the copy constructor: the bytes of the string at `a` to the one at `p`. -/
def copyString (s : Handlers) (a p : ℕ) : Option Handlers :=
  s.pointers[a]?.bind fun ptr =>
    match ptr.sString with
    | none => some { s with crashed := true }
    | some src => s.edit p fun dst => copyBytes src dst (getLength src)

/-- The copy constructor, up to the handle of its temporary handler. -/
def copy (s : Handlers) (aString : ℕ) : Option Handlers :=
  (s.nativeHandle aString).bind fun _ =>
    s.newSecureString.map fun t =>
      { t with copying := t.copying ++ [(s.pointers.length, aString)] }

/-- The copy constructor, from `IncrementReference` on. -/
def copyRest (s : Handlers) (i : ℕ) : Option Handlers :=
  s.copying[i]?.bind fun (p, aString) =>
    (s.nativeHandle aString).bind fun a =>
      ({ s with copying := s.copying.eraseIdx i }.construct p).bind fun t =>
        if t.crashed ∨ t.errors ≠ s.errors then some t else t.copyString a p

/-- `finalize`.  A handler that a constructor copies is not garbage. -/
def finalize (s : Handlers) (handler : ℕ) : Option Handlers :=
  if handler ∈ s.copying.map Prod.snd then none
  else
    (s.nativeHandle handler).bind fun p =>
      s.pointers[p]?.map fun ptr =>
        { s with handlers := s.handlers.set handler none }.ended p ptr ptr.decrementReference

/-- `writeToParcel`, of a collection or of the master key of a file. -/
def writeToParcel (s : Handlers) (mStrings : List ℕ) : Option Handlers :=
  (mStrings.mapM s.nativeHandle).map fun ps => { s with parcels := s.parcels ++ [ps] }

/-- One event; nothing happens after a crash. -/
def step (s : Handlers) (e : HandlerEvent) : Option Handlers :=
  if s.crashed then none
  else
    match e with
    | .newSecureString => s.newSecureString
    | .construct p => s.construct p
    | .copy aString => s.copy aString
    | .copyRest i => s.copyRest i
    | .addByte handler c => (s.nativeHandle handler).bind fun p => s.edit p fun str => addByte str c
    | .clear handler => (s.nativeHandle handler).bind fun p => s.edit p clear
    | .writeToParcel mStrings => s.writeToParcel mStrings
    | .readParcel parcel i =>
      (s.parcels[parcel]?.bind fun ps => ps[i]?).bind fun p => s.construct p
    | .finalize handler => s.finalize handler

/-! ## What is to hold -/

/-- **What is to hold**: the count of a string that is there is the number of its handlers; it is
there as long as it has one, and released once; and no handler is on a released one. -/
structure Counted (s : Handlers) : Prop where
  crashed : s.crashed = false
  count : ∀ (p : ℕ) (ptr : SPointer), s.pointers[p]? = some ptr → ptr.sString ≠ none →
    ptr.nReferences = s.handlersOn p
  released : ∀ (p : ℕ) (ptr : SPointer), s.pointers[p]? = some ptr →
    (ptr.sString = none ↔ s.handlersOn p = 0)
  once : ∀ (p : ℕ) (ptr : SPointer), s.pointers[p]? = some ptr →
    s.releases.count p = if ptr.sString = none then 1 else 0
  handlers : ∀ p, some p ∈ s.handlers → ∃ ptr, s.pointers[p]? = some ptr ∧ ptr.sString ≠ none

/-- The address an event takes hold of. -/
def taken (s : Handlers) : HandlerEvent → Option ℕ
  | .construct p => some p
  | .copyRest i => s.copying[i]?.map Prod.fst
  | .readParcel parcel i => s.parcels[parcel]?.bind fun ps => ps[i]?
  | _ => none

/-- The string whose address is taken hold of is there. -/
def TakesUsable (s : Handlers) (e : HandlerEvent) : Prop :=
  ∀ p ∈ s.taken e, ∃ ptr ∈ s.pointers[p]?, ptr.Usable

instance (s : Handlers) (e : HandlerEvent) : Decidable (TakesUsable s e) := by
  unfold TakesUsable
  infer_instance

/-! ## What the handlers keep -/

/-- Every pointer fits its handlers, and every address is one. -/
structure Tallied (s : Handlers) : Prop where
  crashed : s.crashed = false
  errors : s.errors = []
  fits : ∀ (p : ℕ) (ptr : SPointer), s.pointers[p]? = some ptr →
    ptr.Fits (s.handlersOn p) (s.releases.count p)
  handlers : ∀ p, some p ∈ s.handlers → p < s.pointers.length
  copying : ∀ c ∈ s.copying, c.1 < s.pointers.length ∧ ∃ a, s.handlers[c.2]? = some (some a)
  parcels : ∀ ps ∈ s.parcels, ∀ p ∈ ps, p < s.pointers.length
  releases : ∀ p ∈ s.releases, p < s.pointers.length

theorem tallied_empty : Tallied empty where
  crashed := rfl
  errors := rfl
  fits _ _ h := absurd h (by simp [empty])
  handlers _ h := absurd h List.not_mem_nil
  copying _ h := absurd h List.not_mem_nil
  parcels _ h := absurd h List.not_mem_nil
  releases _ h := absurd h List.not_mem_nil

variable {s t : Handlers}

/-- What fits is counted. -/
theorem Tallied.counted (h : Tallied s) : Counted s := by
  have hfits : ∀ (p : ℕ) (ptr : SPointer), s.pointers[p]? = some ptr →
      (ptr.sString ≠ none → ptr.nReferences = s.handlersOn p) ∧
        (ptr.sString = none ↔ s.handlersOn p = 0) ∧
        s.releases.count p = if ptr.sString = none then 1 else 0 := by
    intro p ptr hp
    obtain ⟨hstring, hcount, hpos, -, hr⟩ | ⟨hnull, -, hn, hr⟩ := h.fits p ptr hp
    · refine ⟨fun _ => hcount, ⟨fun hnull => absurd hnull hstring, fun hn => ?_⟩, ?_⟩
      · exact absurd hn hpos.ne'
      · rw [if_neg hstring, hr]
    · exact ⟨fun hne => absurd hnull hne, ⟨fun _ => hn, fun _ => hnull⟩, by rw [if_pos hnull, hr]⟩
  refine ⟨h.crashed, fun p ptr hp => (hfits p ptr hp).1, fun p ptr hp => (hfits p ptr hp).2.1,
    fun p ptr hp => (hfits p ptr hp).2.2, fun p hp => ?_⟩
  have hlt := h.handlers p hp
  refine ⟨s.pointers[p], List.getElem?_eq_getElem hlt, fun hnull => ?_⟩
  have hzero := (hfits p _ (List.getElem?_eq_getElem hlt)).2.1.mp hnull
  exact absurd hp (List.count_eq_zero.mp hzero)

/-! ## One handler more -/

theorem nativeHandle_eq_some {handler p : ℕ} :
    s.nativeHandle handler = some p ↔ s.handlers[handler]? = some (some p) :=
  Option.join_eq_some_iff

/-- A handler stays where it is. -/
theorem getElem?_append_of_eq_some {hs : List (Option ℕ)} {i : ℕ} {x : Option ℕ}
    (h : hs[i]? = some x) (ys : List (Option ℕ)) : (hs ++ ys)[i]? = some x := by
  rw [List.getElem?_append_left (List.getElem?_eq_some_iff.mp h).1, h]

theorem handlersOn_append (hs : List (Option ℕ)) (p q : ℕ) :
    (hs ++ [some p]).count (some q) = hs.count (some q) + if p = q then 1 else 0 := by
  rw [List.count_append, List.count_singleton]
  simp

/-- **One pointer is changed**: what is to be shown of it, and of the handlers and the releases that
change with it. -/
theorem Tallied.set (h : Tallied s) {p : ℕ} (hp : p < s.pointers.length) {ptr : SPointer}
    {handlers : List (Option ℕ)} {releases : List ℕ}
    (hfits : ∀ (q : ℕ) (ptr' : SPointer), (s.pointers.set p ptr)[q]? = some ptr' →
      ptr'.Fits (handlers.count (some q)) (releases.count q))
    (hhandlers : ∀ q, some q ∈ handlers → q = p ∨ some q ∈ s.handlers)
    (hcopying : ∀ c ∈ s.copying, ∃ a, handlers[c.2]? = some (some a))
    (hreleases : ∀ q ∈ releases, q = p ∨ q ∈ s.releases) :
    Tallied { s with
      pointers := s.pointers.set p ptr, handlers := handlers, releases := releases } := by
  have hlength : (s.pointers.set p ptr).length = s.pointers.length := List.length_set
  refine ⟨h.crashed, h.errors, hfits, fun q hq => ?_, fun c hc => ?_, fun ps hps q hq => ?_,
    fun q hq => ?_⟩
  · rcases hhandlers q hq with rfl | hq
    · exact hp.trans_eq hlength.symm
    · exact (h.handlers q hq).trans_eq hlength.symm
  · exact ⟨(h.copying c hc).1.trans_eq hlength.symm, hcopying c hc⟩
  · exact (h.parcels ps hps q hq).trans_eq hlength.symm
  · rcases hreleases q hq with rfl | hq
    · exact hp.trans_eq hlength.symm
    · exact (h.releases q hq).trans_eq hlength.symm

/-- **A handler on a string that is there is counted in.** -/
theorem Tallied.construct (h : Tallied s) {p : ℕ} {ptr : SPointer} (hp : s.pointers[p]? = some ptr)
    (hu : ptr.Usable) (ht : s.construct p = some t) : Tallied t := by
  obtain ⟨ptr', hcall, hstring, hfits⟩ := (h.fits p ptr hp).incrementReference hu
  have hkept : ¬ (ptr.sString ≠ none ∧ ptr'.sString = none) := fun hgone =>
    hgone.1 (hstring ▸ hgone.2)
  rw [Handlers.construct, hp, Option.map_some, hcall, ended, if_neg hkept] at ht
  obtain rfl := Option.some.inj ht
  have hlt : p < s.pointers.length := (List.getElem?_eq_some_iff.mp hp).1
  refine h.set hlt (fun q ptr₁ hq => ?_) (fun q hq => ?_) (fun c hc => ?_) fun q hq => .inr hq
  · rw [handlersOn_append]
    obtain ⟨rfl, rfl⟩ | ⟨hne, hq'⟩ := Ranges.getElem?_set_cases hq
    · rw [if_pos rfl]
      exact hfits
    · rw [if_neg hne]
      exact h.fits q ptr₁ hq'
  · rcases List.mem_append.mp hq with hq | hq
    · exact .inr hq
    · exact .inl (Option.some.inj (List.mem_singleton.mp hq))
  · obtain ⟨-, a, ha⟩ := h.copying c hc
    exact ⟨a, getElem?_append_of_eq_some ha _⟩

/-- `NewSecureString` leaves a new string with one handler on it. -/
theorem newSecureString_eq (s : Handlers) :
    s.newSecureString = some { s with
      pointers := s.pointers ++ [SPointer.first]
      handlers := s.handlers ++ [some s.pointers.length] } := by
  rw [newSecureString, Handlers.construct, List.getElem?_concat_length, Option.map_some,
    SPointer.incrementReference_new, ended, if_neg fun h => Option.some_ne_none _ h.2]
  simp [List.set_append_right]

theorem Tallied.newSecureString (h : Tallied s) (ht : s.newSecureString = some t) : Tallied t := by
  rw [newSecureString_eq] at ht
  obtain rfl := Option.some.inj ht
  have hfresh : s.handlersOn s.pointers.length = 0 := List.count_eq_zero.mpr fun hmem =>
    lt_irrefl _ (h.handlers _ hmem)
  have hfresh' : s.releases.count s.pointers.length = 0 := List.count_eq_zero.mpr fun hmem =>
    lt_irrefl _ (h.releases _ hmem)
  have hle : s.pointers.length ≤ (s.pointers ++ [SPointer.first]).length := by simp
  refine ⟨h.crashed, h.errors, fun q ptr hq => ?_, fun q hq => ?_, fun c hc => ?_,
    fun ps hps q hq => (h.parcels ps hps q hq).trans_le hle,
    fun q hq => (h.releases q hq).trans_le hle⟩
  · rw [handlersOn, handlersOn_append]
    rcases Nat.lt_or_ge q s.pointers.length with hlt | hge
    · rw [if_neg hlt.ne']
      exact h.fits q ptr ((List.getElem?_append_left hlt).symm.trans hq)
    · have hlt := (List.getElem?_eq_some_iff.mp hq).1
      rw [List.length_append, List.length_singleton] at hlt
      obtain rfl : s.pointers.length = q := by omega
      rw [List.getElem?_concat_length] at hq
      rw [if_pos rfl, hfresh', ← handlersOn, hfresh, ← Option.some.inj hq]
      exact SPointer.fits_first
  · rcases List.mem_append.mp hq with hq | hq
    · exact (h.handlers q hq).trans_le hle
    · obtain rfl := Option.some.inj (List.mem_singleton.mp hq)
      simp
  · obtain ⟨hc, a, ha⟩ := h.copying c hc
    exact ⟨hc.trans_le hle, a, getElem?_append_of_eq_some ha _⟩

/-! ## One handler less -/

theorem handlersOn_set {hs : List (Option ℕ)} {i p : ℕ} (h : hs[i]? = some (some p)) (q : ℕ) :
    (hs.set i none).count (some q) = hs.count (some q) - if p = q then 1 else 0 := by
  obtain ⟨hlt, hp⟩ := List.getElem?_eq_some_iff.mp h
  rw [List.count_set hlt, hp]
  simp

/-- What `ended` records of a call that returns. -/
theorem count_releases (rs : List ℕ) (p q : ℕ) (gone : Prop) [Decidable gone] :
    (if gone then p :: rs else rs).count q = rs.count q + if gone ∧ p = q then 1 else 0 := by
  split
  · next h => simp [List.count_cons, h]
  · next h => simp [h]

theorem mem_releases {rs : List ℕ} {p q : ℕ} {gone : Prop} [Decidable gone]
    (h : q ∈ if gone then p :: rs else rs) : q = p ∨ q ∈ rs := by
  split at h
  · exact List.mem_cons.mp h
  · exact .inr h

/-- What `finalize` is. -/
theorem finalize_eq_some {handler : ℕ} (ht : s.finalize handler = some t) :
    handler ∉ s.copying.map Prod.snd ∧ ∃ (p : ℕ) (ptr : SPointer),
      s.handlers[handler]? = some (some p) ∧ s.pointers[p]? = some ptr ∧
        t = { s with handlers := s.handlers.set handler none }.ended p ptr
          ptr.decrementReference := by
  obtain ⟨hcopied, ht⟩ := Option.ite_none_left_eq_some.mp ht
  obtain ⟨p, hhandle, ht⟩ := Option.bind_eq_some_iff.mp ht
  obtain ⟨ptr, hp, ht⟩ := Option.map_eq_some_iff.mp ht
  exact ⟨hcopied, p, ptr, nativeHandle_eq_some.mp hhandle, hp, ht.symm⟩

/-- The native call of `finalize` returns, with one handler less on the pointer. -/
theorem Tallied.decrementReference (h : Tallied s) {handler p : ℕ} {ptr : SPointer}
    (hhandler : s.handlers[handler]? = some (some p)) (hp : s.pointers[p]? = some ptr) :
    ∃ ptr', ptr.decrementReference = .returns ptr' ∧
      ptr'.Fits (s.handlersOn p - 1) (s.releases.count p +
        if ptr.sString ≠ none ∧ ptr'.sString = none then 1 else 0) := by
  obtain ⟨n, hn⟩ : ∃ n, s.handlersOn p = n + 1 :=
    Nat.exists_eq_add_one.mpr (List.count_pos_iff.mpr (List.mem_of_getElem? hhandler))
  have hfits := h.fits p ptr hp
  rw [hn] at hfits
  have hstring : ptr.sString ≠ none := by
    obtain ⟨hstring, -, -, -, -⟩ | ⟨-, -, hzero, -⟩ := hfits
    · exact hstring
    · exact absurd hzero n.succ_ne_zero
  obtain ⟨ptr', hcall, ⟨-, hnull, hfits'⟩ | ⟨hkept, hfits'⟩⟩ := hfits.decrementReference
  · refine ⟨ptr', hcall, ?_⟩
    rwa [hn, Nat.add_sub_cancel, if_pos ⟨hstring, hnull⟩]
  · refine ⟨ptr', hcall, ?_⟩
    rwa [hn, Nat.add_sub_cancel, if_neg fun hgone => hstring (hkept ▸ hgone.2)]

/-- **A handler that is finalized is counted out**, and the last one takes the string with it. -/
theorem Tallied.finalize (h : Tallied s) {handler : ℕ} (ht : s.finalize handler = some t) :
    Tallied t := by
  obtain ⟨hcopied, p, ptr, hhandler, hp, ht⟩ := finalize_eq_some ht
  obtain ⟨ptr', hcall, hfits⟩ := h.decrementReference hhandler hp
  rw [hcall, ended] at ht
  subst ht
  have hlt : p < s.pointers.length := (List.getElem?_eq_some_iff.mp hp).1
  refine h.set hlt (fun q ptr₁ hq => ?_) (fun q hq => ?_) (fun c hc => ?_) fun q hq => ?_
  · rw [handlersOn_set hhandler, count_releases]
    obtain ⟨rfl, rfl⟩ | ⟨hne, hq'⟩ := Ranges.getElem?_set_cases hq
    · rw [if_pos rfl, ← handlersOn]
      simpa only [and_true] using hfits
    · rw [if_neg hne, if_neg fun hgone => hne hgone.2]
      exact h.fits q ptr₁ hq'
  · rcases List.mem_or_eq_of_mem_set hq with hq | hq
    · exact .inr hq
    · exact absurd hq (Option.some_ne_none q)
  · obtain ⟨-, a, ha⟩ := h.copying c hc
    have hne : handler ≠ c.2 := by
      rintro rfl
      exact hcopied (List.mem_map_of_mem hc)
    exact ⟨a, (List.getElem?_set_ne hne).trans ha⟩
  · exact mem_releases hq

/-! ## The contents of the strings -/

/-- `t` is `s` but for the contents of the strings. -/
structure SameCounts (s t : Handlers) : Prop where
  pointers : t.pointers.map SPointer.outline = s.pointers.map SPointer.outline
  handlers : t.handlers = s.handlers
  copying : t.copying = s.copying
  parcels : t.parcels = s.parcels
  releases : t.releases = s.releases
  errors : t.errors = s.errors
  crashed : t.crashed = s.crashed

theorem SameCounts.symm (h : SameCounts s t) : SameCounts t s :=
  ⟨h.pointers.symm, h.handlers.symm, h.copying.symm, h.parcels.symm, h.releases.symm,
    h.errors.symm, h.crashed.symm⟩

theorem SameCounts.length_eq (h : SameCounts s t) : t.pointers.length = s.pointers.length := by
  have hlen := congrArg List.length h.pointers
  rwa [List.length_map, List.length_map] at hlen

theorem SameCounts.exists_pointer (h : SameCounts s t) {p : ℕ} {ptr : SPointer}
    (hp : t.pointers[p]? = some ptr) :
    ∃ ptr', s.pointers[p]? = some ptr' ∧ ptr.outline = ptr'.outline := by
  have hmap := congrArg (·[p]?) h.pointers
  rw [List.getElem?_map, List.getElem?_map, hp, Option.map_some, eq_comm,
    Option.map_eq_some_iff] at hmap
  obtain ⟨ptr', hp', heq⟩ := hmap
  exact ⟨ptr', hp', heq.symm⟩

theorem SameCounts.tallied (h : SameCounts s t) (hs : Tallied s) : Tallied t := by
  refine ⟨h.crashed.trans hs.crashed, h.errors.trans hs.errors, fun p ptr hp => ?_, ?_, ?_, ?_, ?_⟩
  · obtain ⟨ptr', hp', heq⟩ := h.exists_pointer hp
    rw [handlersOn, h.handlers, h.releases]
    exact (hs.fits p ptr' hp').congr heq
  · rw [h.handlers, h.length_eq]
    exact hs.handlers
  · rw [h.copying, h.handlers, h.length_eq]
    exact hs.copying
  · rw [h.parcels, h.length_eq]
    exact hs.parcels
  · rw [h.releases, h.length_eq]
    exact hs.releases

/-- An edit changes contents only, or finds no string. -/
theorem edit_cases {p : ℕ} {f : SecureString → SecureString} (ht : s.edit p f = some t) :
    (∃ ptr, s.pointers[p]? = some ptr ∧ ptr.sString = none ∧ t.crashed = true) ∨
      SameCounts s t := by
  obtain ⟨ptr, hp, ht⟩ := Option.map_eq_some_iff.mp ht
  split at ht
  · next hnull => exact .inl ⟨ptr, hp, hnull, ht ▸ rfl⟩
  · next str hstr =>
    obtain ⟨hlt, hp⟩ := List.getElem?_eq_some_iff.mp hp
    have houtline : SPointer.outline { ptr with sString := some (f str) } = ptr.outline := by
      rw [SPointer.outline, SPointer.outline, hstr]
      rfl
    subst ht
    refine .inr ⟨?_, rfl, rfl, rfl, rfl, rfl, rfl⟩
    have hlt' : p < (s.pointers.map SPointer.outline).length := by rwa [List.length_map]
    rw [List.map_set, houtline, ← hp, ← List.getElem_map SPointer.outline (h := hlt'),
      List.set_getElem_self]

/-- So does the loop of the copy constructor. -/
theorem copyString_cases {a p : ℕ} (ht : s.copyString a p = some t) :
    (∃ (q : ℕ) (ptr : SPointer), (q = a ∨ q = p) ∧ s.pointers[q]? = some ptr ∧
      ptr.sString = none ∧ t.crashed = true) ∨ SameCounts s t := by
  obtain ⟨ptr, hp, ht⟩ := Option.bind_eq_some_iff.mp ht
  split at ht
  · next hnull => exact .inl ⟨a, ptr, .inl rfl, hp, hnull, Option.some.inj ht ▸ rfl⟩
  · rcases edit_cases ht with ⟨ptr', hp', hnull, hcrash⟩ | hsame
    · exact .inl ⟨p, ptr', .inr rfl, hp', hnull, hcrash⟩
    · exact .inr hsame

/-- A string that a handler is on can be edited. -/
theorem Tallied.sString_ne_none (h : Tallied s) {p : ℕ} (hp : some p ∈ s.handlers) {ptr : SPointer}
    (hptr : s.pointers[p]? = some ptr) : ptr.sString ≠ none := by
  obtain ⟨ptr', hptr', hne⟩ := h.counted.handlers p hp
  exact Option.some.inj (hptr.symm.trans hptr') ▸ hne

theorem Tallied.edit (h : Tallied s) {handler p : ℕ} (hhandle : s.nativeHandle handler = some p)
    {f : SecureString → SecureString} (ht : s.edit p f = some t) : Tallied t := by
  rcases edit_cases ht with ⟨ptr, hptr, hnull, -⟩ | hsame
  · have hmem := List.mem_of_getElem? (nativeHandle_eq_some.mp hhandle)
    exact absurd hnull (h.sString_ne_none hmem hptr)
  · exact hsame.tallied h

/-! ## The copy constructor -/

/-- What a constructor does not touch. -/
theorem construct_eq_some {p : ℕ} (ht : s.construct p = some t) :
    some p ∈ t.handlers ∧
      ∀ (i : ℕ) (x : Option ℕ), s.handlers[i]? = some x → t.handlers[i]? = some x := by
  obtain ⟨ptr, -, ht⟩ := Option.map_eq_some_iff.mp ht
  have hhandlers : t.handlers = s.handlers ++ [some p] := by
    rw [← ht]
    cases ptr.incrementReference <;> rfl
  rw [hhandlers]
  exact ⟨List.mem_append_right _ (List.mem_singleton_self _),
    fun i x hx => getElem?_append_of_eq_some hx _⟩

/-- A copy constructor that goes on is no more on its way. -/
theorem Tallied.eraseCopying (h : Tallied s) (i : ℕ) :
    Tallied { s with copying := s.copying.eraseIdx i } :=
  { h with copying := fun c hc => h.copying c (List.mem_of_mem_eraseIdx hc) }

/-- What `copyRest` is. -/
theorem copyRest_eq_some {i : ℕ} (ht : s.copyRest i = some t) :
    ∃ (p aString a : ℕ) (u : Handlers), s.copying[i]? = some (p, aString) ∧
      s.handlers[aString]? = some (some a) ∧
      { s with copying := s.copying.eraseIdx i }.construct p = some u ∧
      (t = u ∨ u.copyString a p = some t) := by
  obtain ⟨⟨p, aString⟩, hcopying, ht⟩ := Option.bind_eq_some_iff.mp ht
  obtain ⟨a, hhandle, ht⟩ := Option.bind_eq_some_iff.mp ht
  obtain ⟨u, hconstruct, ht⟩ := Option.bind_eq_some_iff.mp ht
  refine ⟨p, aString, a, u, hcopying, nativeHandle_eq_some.mp hhandle, hconstruct, ?_⟩
  split at ht
  · exact .inl (Option.some.inj ht).symm
  · exact .inr ht

theorem Tallied.copyRest (h : Tallied s) {i : ℕ} (hu : TakesUsable s (.copyRest i))
    (ht : s.copyRest i = some t) : Tallied t := by
  obtain ⟨p, aString, a, u, hcopying, hhandler, hconstruct, ht⟩ := copyRest_eq_some ht
  obtain ⟨ptr, hptr, husable⟩ := hu p (by rw [taken, hcopying]; rfl)
  have hu' := (h.eraseCopying i).construct hptr husable hconstruct
  obtain ⟨hmem, hkept⟩ := construct_eq_some hconstruct
  rcases ht with rfl | ht
  · exact hu'
  · rcases copyString_cases ht with ⟨q, ptr', hq, hptr', hnull, -⟩ | hsame
    · have hq' : some q ∈ u.handlers := by
        rcases hq with rfl | rfl
        · exact List.mem_of_getElem? (hkept _ _ hhandler)
        · exact hmem
      exact absurd hnull (hu'.sString_ne_none hq' hptr')
    · exact hsame.tallied hu'

theorem Tallied.copy (h : Tallied s) {aString : ℕ} (ht : s.copy aString = some t) : Tallied t := by
  obtain ⟨a, hhandle, ht⟩ := Option.bind_eq_some_iff.mp ht
  obtain ⟨u, hnew, rfl⟩ := Option.map_eq_some_iff.mp ht
  have hu := h.newSecureString hnew
  refine { hu with copying := fun c hc => ?_ }
  rcases List.mem_append.mp hc with hc | hc
  · exact hu.copying c hc
  · obtain rfl := List.mem_singleton.mp hc
    rw [newSecureString_eq] at hnew
    obtain rfl := Option.some.inj hnew
    refine ⟨?_, a, getElem?_append_of_eq_some (nativeHandle_eq_some.mp hhandle) _⟩
    rw [List.length_append, List.length_singleton]
    exact Nat.lt_succ_self _

/-! ## Parcels -/

/-- What is written to a parcel are the handles of handlers. -/
theorem mem_of_mapM {hs ps : List ℕ} (h : hs.mapM s.nativeHandle = some ps) {p : ℕ}
    (hp : p ∈ ps) : some p ∈ s.handlers := by
  induction hs generalizing ps with
  | nil =>
    obtain rfl := Option.some.inj h
    exact absurd hp List.not_mem_nil
  | cons handler hs ih =>
    rw [List.mapM_cons] at h
    obtain ⟨q, hq, h⟩ := Option.bind_eq_some_iff.mp h
    obtain ⟨qs, hqs, h⟩ := Option.bind_eq_some_iff.mp h
    obtain rfl := Option.some.inj h
    rcases List.mem_cons.mp hp with rfl | hp
    · exact List.mem_of_getElem? (nativeHandle_eq_some.mp hq)
    · exact ih hqs hp

theorem Tallied.writeToParcel (h : Tallied s) {mStrings : List ℕ}
    (ht : s.writeToParcel mStrings = some t) : Tallied t := by
  obtain ⟨ps, hps, rfl⟩ := Option.map_eq_some_iff.mp ht
  refine { h with parcels := fun qs hqs p hp => ?_ }
  rcases List.mem_append.mp hqs with hqs | hqs
  · exact h.parcels qs hqs p hp
  · obtain rfl := List.mem_singleton.mp hqs
    exact h.handlers p (mem_of_mapM hps hp)

/-! ## Every event -/

/-- **What takes hold of a string that is there keeps the tally.** -/
theorem Tallied.step {e : HandlerEvent} (h : Tallied s) (hu : TakesUsable s e)
    (ht : s.step e = some t) : Tallied t := by
  obtain ⟨-, ht⟩ := Option.ite_none_left_eq_some.mp ht
  cases e with
  | newSecureString => exact h.newSecureString ht
  | construct p =>
    obtain ⟨ptr, hptr, husable⟩ := hu p rfl
    exact h.construct hptr husable ht
  | copy aString => exact h.copy ht
  | copyRest i => exact h.copyRest hu ht
  | addByte handler c =>
    obtain ⟨p, hhandle, ht⟩ := Option.bind_eq_some_iff.mp ht
    exact h.edit hhandle ht
  | clear handler =>
    obtain ⟨p, hhandle, ht⟩ := Option.bind_eq_some_iff.mp ht
    exact h.edit hhandle ht
  | writeToParcel mStrings => exact h.writeToParcel ht
  | readParcel parcel i =>
    obtain ⟨p, hp, ht⟩ := Option.bind_eq_some_iff.mp ht
    obtain ⟨ptr, hptr, husable⟩ := hu p hp
    exact h.construct hptr husable ht
  | finalize handler => exact h.finalize ht

/-! ## What takes hold of a string that is gone -/

/-- A constructor on a string that may not be taken hold of crashes, or leaves a wrong count. -/
theorem Tallied.construct_of_not_usable (h : Tallied s) {p : ℕ}
    (hu : ¬ ∃ ptr ∈ s.pointers[p]?, ptr.Usable) (ht : s.construct p = some t) :
    ¬ Counted t := by
  obtain ⟨ptr, hptr, ht⟩ := Option.map_eq_some_iff.mp ht
  intro hcounted
  rcases (h.fits p ptr hptr).not_usable fun husable => hu ⟨ptr, hptr, husable⟩ with
    hcall | ⟨ptr', hcall, hne, hcount⟩
  · have hcrash := hcounted.crashed
    rw [← ht, hcall] at hcrash
    exact absurd hcrash.symm Bool.false_ne_true
  · rw [hcall] at ht
    subst ht
    have hptr' : (s.pointers.set p ptr')[p]? = some ptr' :=
      List.getElem?_set_self (List.getElem?_eq_some_iff.mp hptr).1
    refine hcount ((hcounted.count p ptr' hptr' hne).trans ?_)
    rw [handlersOn]
    dsimp only [ended]
    rw [handlersOn_append, if_pos rfl, handlersOn]

/-- The address taken is the only one. -/
theorem not_usable_of_taken {e : HandlerEvent} (hu : ¬ TakesUsable s e) {p : ℕ}
    (hp : s.taken e = some p) : ¬ ∃ ptr ∈ s.pointers[p]?, ptr.Usable :=
  fun husable => hu fun _ hq => Option.some.inj (hp.symm.trans hq) ▸ husable

theorem SameCounts.counted (h : SameCounts s t) (hs : Counted s) : Counted t := by
  refine ⟨h.crashed.trans hs.crashed, fun p ptr hp hne => ?_, fun p ptr hp => ?_,
    fun p ptr hp => ?_, fun p hp => ?_⟩
  · obtain ⟨ptr', hp', heq⟩ := h.exists_pointer hp
    rw [handlersOn, h.handlers, (Prod.mk.inj heq).2]
    exact hs.count p ptr' hp' (mt (SPointer.sString_iff_of_outline heq).mpr hne)
  · obtain ⟨ptr', hp', heq⟩ := h.exists_pointer hp
    rw [handlersOn, h.handlers, SPointer.sString_iff_of_outline heq]
    exact hs.released p ptr' hp'
  · obtain ⟨ptr', hp', heq⟩ := h.exists_pointer hp
    rw [h.releases, hs.once p ptr' hp']
    exact if_congr (SPointer.sString_iff_of_outline heq).symm rfl rfl
  · obtain ⟨ptr, hptr, hne⟩ := hs.handlers p (h.handlers ▸ hp)
    obtain ⟨ptr', hptr', heq⟩ := h.symm.exists_pointer hptr
    exact ⟨ptr', hptr', mt (SPointer.sString_iff_of_outline heq).mpr hne⟩

theorem Tallied.copyRest_of_not_usable (h : Tallied s) {i : ℕ}
    (hu : ¬ TakesUsable s (.copyRest i)) (ht : s.copyRest i = some t) : ¬ Counted t := by
  obtain ⟨p, aString, a, u, hcopying, -, hconstruct, ht⟩ := copyRest_eq_some ht
  have htaken : s.taken (.copyRest i) = some p := by rw [taken, hcopying, Option.map_some]
  have hbad : ¬ Counted u :=
    (h.eraseCopying i).construct_of_not_usable (not_usable_of_taken hu htaken) hconstruct
  rcases ht with rfl | ht
  · exact hbad
  · rcases copyString_cases ht with ⟨-, -, -, -, -, hcrash⟩ | hsame
    · exact fun hcounted => Bool.false_ne_true (hcounted.crashed.symm.trans hcrash)
    · exact fun hcounted => hbad (hsame.symm.counted hcounted)

/-- **What takes hold of a string that is gone, or has no room left in its count, ends it.** -/
theorem Tallied.not_counted {e : HandlerEvent} (h : Tallied s) (hu : ¬ TakesUsable s e)
    (ht : s.step e = some t) : ¬ Counted t := by
  obtain ⟨-, ht⟩ := Option.ite_none_left_eq_some.mp ht
  cases e with
  | construct p => exact h.construct_of_not_usable (not_usable_of_taken hu rfl) ht
  | copyRest i => exact h.copyRest_of_not_usable hu ht
  | readParcel parcel i =>
    obtain ⟨p, hp, ht⟩ := Option.bind_eq_some_iff.mp ht
    exact h.construct_of_not_usable (not_usable_of_taken hu hp) ht
  | _ => exact absurd (fun q hq => absurd hq (Option.some_ne_none q).symm) hu

/-- **The counts are right for as long as each address taken hold of is that of a string that is
still there.** -/
theorem allStates_counted_iff (es : List HandlerEvent) :
    AllStates step Counted empty es ↔ AllSteps step TakesUsable empty es :=
  allStates_iff_allSteps (fun _ _ _ h _ hu ht => h.step hu ht) (fun _ h => h.counted)
    (fun _ _ _ h _ hu ht => h.not_counted hu ht) tallied_empty (allSteps_true empty es)

/-- A parcel that is read before its handler is finalized, and a copy that outlives its original. -/
example : AllSteps step TakesUsable empty
    [.newSecureString, .addByte 0 7, .writeToParcel [0], .readParcel 0 0, .finalize 0, .copy 1,
      .copyRest 0, .finalize 1, .finalize 2] := by
  decide

/-- A string is written to a parcel, its only handler is finalized, and the parcel is read. -/
theorem not_counted_after_parcel :
    ¬ ∀ (es : List HandlerEvent) (s : Handlers), run step empty es = some s → Counted s := by
  intro h
  have hend : (run step empty [.newSecureString, .writeToParcel [0], .finalize 0,
      .readParcel 0 0]).any (fun s => s.crashed) = true := by decide
  obtain ⟨s, hrun, hcrash⟩ := (Option.any_eq_true _ _).mp hend
  exact Bool.false_ne_true ((h _ s hrun).crashed.symm.trans hcrash)

end Handlers

end Kryptan
