import Kryptan.Core.Handlers
import Kryptan.Core.PwdList

/-!
# Core/Filter — a pattern and labels, on their way to the native filter

    filter(labels)            lHandles[i] = label.getNativeHandle(); i++; ─╮
    filter(pattern, labels)   lHandles[i] = label.getNativeHandle();      ─┴─▸ long[] ──▸ Filter

The native code is handed addresses and dereferences every one of them.  The loop that collects them
is written twice, and once its index stays where it is: every label goes to the first cell, and the
others keep the null they were created with.  **The two agree on collections of at most one label**
(`filtersAgree_iff`); on every other one `filter(pattern, labels)` dereferences null
(`filterPatternLabels_crashes`).
-/

namespace Kryptan

open Ranges

variable {L : Type*}

/-- What the addresses are those of.  There is nothing at null. -/
structure NativeMemory where
  deref : ℕ → Option SPointer
  deref_null : deref 0 = none

namespace NativeMemory

/-- Pointers at the addresses from one on. -/
def ofPointers (pointers : List SPointer) : NativeMemory where
  deref
    | 0 => none
    | p + 1 => pointers[p]?
  deref_null := rfl

/-- `*ptr->sString`, `none` if a null is dereferenced on the way. -/
def sString (m : NativeMemory) (p : ℕ) : Option SecureString := (m.deref p).bind SPointer.sString

theorem sString_null (m : NativeMemory) : m.sString 0 = none := by
  rw [sString, m.deref_null, Option.bind_none]

/-- The loop that dereferences the handles of an array: those it comes to, and their strings, `none`
once one has no string. -/
def sStrings (m : NativeMemory) : List ℕ → List ℕ × Option (List SecureString)
  | [] => ([], some [])
  | p :: handles =>
    match m.sString p with
    | none => ([p], none)
    | some label => (sStrings m handles).map (p :: ·) (Option.map (label :: ·))

/-- The loop comes to no other address. -/
theorem mem_of_mem_sStrings {m : NativeMemory} {handles : List ℕ} {p : ℕ}
    (h : p ∈ (m.sStrings handles).1) : p ∈ handles := by
  induction handles with
  | nil => exact h
  | cons q handles ih =>
    rw [sStrings] at h
    cases hq : m.sString q with
    | none =>
      rw [hq] at h
      exact List.mem_singleton.mp h ▸ List.mem_cons_self
    | some label =>
      rw [hq] at h
      rcases List.mem_cons.mp h with rfl | h
      · exact List.mem_cons_self
      · exact List.mem_cons_of_mem q (ih h)

/-- **A null among the handles is dereferenced**, if nothing before it was. -/
theorem sStrings_of_null_mem {m : NativeMemory} {handles : List ℕ} (h : 0 ∈ handles) :
    (m.sStrings handles).2 = none := by
  induction handles with
  | nil => exact absurd h List.not_mem_nil
  | cons p handles ih =>
    rw [sStrings]
    cases hp : m.sString p with
    | none => rfl
    | some label =>
      have hne : 0 ≠ p := by
        rintro rfl
        exact Option.some_ne_none label (hp.symm.trans m.sString_null)
      rw [Prod.map_snd, ih ((List.mem_cons.mp h).resolve_left hne), Option.map_none]

end NativeMemory

/-- The `nativeHandle` of a handler: its constructor has dereferenced it. -/
abbrev NativeHandle := {p : ℕ // p ≠ 0}

/-- The two `Filter`s of the native list. -/
structure PwdList (L : Type*) where
  filter : L → (pattern : SecureString) → (labels : List SecureString) → List CorePwd
  filterByLabels : L → (labels : List SecureString) → List CorePwd

/-- How a native filter ends: the label handles that were dereferenced, and what it returns, `none`
once a null was. -/
structure Filtered where
  dereferenced : List ℕ
  result : Option (List CorePwd)
  deriving DecidableEq, Repr

/-- The handles `filter(labels)` hands over. -/
def labelHandles (labels : List NativeHandle) : Option (List ℕ) :=
  writeEach (· + 1) (List.replicate labels.length 0) 0 (labels.map Subtype.val)

/-- The handles `filter(pattern, labels)` hands over: here the loop lacks `i++`. -/
def patternLabelHandles (labels : List NativeHandle) : Option (List ℕ) :=
  writeEach id (List.replicate labels.length 0) 0 (labels.map Subtype.val)

namespace PwdList

variable (N : PwdList L) (m : NativeMemory) (list : L)

/-- `Filter` of a pattern, null for none, and an array of labels. -/
def filterJ3J (p : ℕ) (array : List ℕ) : Filtered where
  dereferenced := (m.sStrings array).1
  result := (m.sStrings array).2.bind fun labels =>
    if p ≠ 0 then (m.sString p).map fun pattern => N.filter list pattern labels
    else some (N.filterByLabels list labels)

/-- `Filter` of a pattern. -/
def filterJ (p : ℕ) : Filtered := N.filterJ3J m list p []

/-- `Filter` of an array of labels. -/
def filter3J (array : List ℕ) : Filtered := N.filterJ3J m list 0 array

/-- `filter(pattern)`. -/
def filterPattern (pattern : NativeHandle) : Filtered := N.filterJ m list pattern

/-- `filter(labels)`, `none` if its loop leaves the array. -/
def filterLabels (labels : List NativeHandle) : Option Filtered :=
  (labelHandles labels).map (N.filter3J m list)

/-- `filter(pattern, labels)`, `none` if its loop leaves the array. -/
def filterPatternLabels (pattern : NativeHandle) (labels : List NativeHandle) : Option Filtered :=
  (patternLabelHandles labels).map (N.filterJ3J m list pattern)

end PwdList

/-! ## What the loops hand over -/

/-- **`filter(labels)` hands over the handle of every label.** -/
theorem labelHandles_eq (labels : List NativeHandle) :
    labelHandles labels = some (labels.map Subtype.val) := by
  have h := writeEach_replicate (labels.map Subtype.val) 0
  rwa [List.length_map] at h

/-- **`filter(pattern, labels)` hands over the last label, and null for every other.** -/
theorem patternLabelHandles_concat (labels : List NativeHandle) (label : NativeHandle) :
    patternLabelHandles (labels ++ [label])
      = some (label.val :: List.replicate labels.length 0) := by
  have hlength : (labels ++ [label]).length = labels.length + 1 := by simp
  rw [patternLabelHandles, hlength, List.map_append, List.map_singleton, List.replicate_succ,
    writeEach_id (by simp), List.set_cons_zero]

/-- Two labels or more have a null handed over. -/
theorem exists_null_mem_patternLabelHandles {labels : List NativeHandle} (h : 2 ≤ labels.length) :
    ∃ handles, patternLabelHandles labels = some handles ∧ 0 ∈ handles := by
  obtain ⟨init, last, rfl⟩ : ∃ init last, labels = init ++ [last] :=
    (List.eq_nil_or_concat' labels).resolve_left (List.ne_nil_of_length_pos (by omega))
  refine ⟨_, patternLabelHandles_concat init last, List.mem_cons_of_mem _ ?_⟩
  rw [List.length_append, List.length_singleton] at h
  exact List.mem_replicate.mpr ⟨by omega, rfl⟩

/-- One label, or none, is handed over. -/
theorem patternLabelHandles_eq {labels : List NativeHandle} (h : labels.length ≤ 1) :
    patternLabelHandles labels = some (labels.map Subtype.val) := by
  match labels, h with
  | [], _ => rfl
  | [label], _ => rfl

/-! ## What the native filters do with it -/

namespace PwdList

variable {N : PwdList L} {m : NativeMemory} {list : L} {pattern : NativeHandle}
  {labels : List NativeHandle}

theorem filterLabels_eq :
    N.filterLabels m list labels = some (N.filter3J m list (labels.map Subtype.val)) := by
  rw [filterLabels, labelHandles_eq, Option.map_some]

/-- **With two labels or more `filter(pattern, labels)` dereferences null.** -/
theorem filterPatternLabels_crashes (h : 2 ≤ labels.length) :
    ∃ found, N.filterPatternLabels m list pattern labels = some found ∧ found.result = none := by
  obtain ⟨handles, hhandles, hnull⟩ := exists_null_mem_patternLabelHandles h
  refine ⟨N.filterJ3J m list pattern handles, ?_, ?_⟩
  · rw [filterPatternLabels, hhandles, Option.map_some]
  · rw [filterJ3J, NativeMemory.sStrings_of_null_mem hnull, Option.bind_none]

/-- `Filter(pattern, labels)` returns the entries of `Filter(labels)` that match the pattern. -/
structure Lawful (N : PwdList L) (isMatch : SecureString → CorePwd → Bool) : Prop where
  filter : ∀ list pattern labels, (N.filter list pattern labels).Perm
    ((N.filterByLabels list labels).filter (isMatch pattern))

/-- **What is to hold**: both methods hand over the handles of all the labels in order, nothing else
is dereferenced, and where `filter(labels)` returns the entries of the labels, `filter(pattern,
labels)` returns those of them that match the pattern. -/
structure FiltersAgree (N : PwdList L) (isMatch : SecureString → CorePwd → Bool)
    (m : NativeMemory) (list : L) (pattern : NativeHandle) (labels : List NativeHandle) : Prop where
  handles : patternLabelHandles labels = some (labels.map Subtype.val)
  same : patternLabelHandles labels = labelHandles labels
  dereferenced : ∀ found ∈ N.filterPatternLabels m list pattern labels,
    ∀ p ∈ found.dereferenced, p ∈ labels.map Subtype.val
  result : ∀ found ∈ N.filterLabels m list labels, ∀ entries ∈ found.result,
    ∀ text ∈ m.sString pattern, ∃ found' ∈ N.filterPatternLabels m list pattern labels,
      ∃ entries' ∈ found'.result, entries'.Perm (entries.filter (isMatch text))

/-- **Handed the same labels, the native filter finds those of the entries that match.** -/
theorem filterJ3J_perm {isMatch : SecureString → CorePwd → Bool} (hN : N.Lawful isMatch)
    {handles : List ℕ} {entries : List CorePwd} {text : SecureString}
    (hentries : (N.filter3J m list handles).result = some entries)
    (htext : m.sString pattern = some text) :
    ∃ entries', (N.filterJ3J m list pattern handles).result = some entries' ∧
      entries'.Perm (entries.filter (isMatch text)) := by
  obtain ⟨strings, hstrings, hfound⟩ := Option.bind_eq_some_iff.mp hentries
  rw [if_neg (not_not.mpr rfl)] at hfound
  obtain rfl := Option.some.inj hfound
  refine ⟨N.filter list text strings, ?_, hN.filter list text strings⟩
  rw [filterJ3J, hstrings, Option.bind_some, if_pos pattern.property, htext, Option.map_some]

/-- **The two entry points agree on collections of at most one label, and on no other.** -/
theorem filtersAgree_iff {isMatch : SecureString → CorePwd → Bool} (hN : N.Lawful isMatch) :
    N.FiltersAgree isMatch m list pattern labels ↔ labels.length ≤ 1 := by
  constructor
  · intro h
    by_contra hlength
    obtain ⟨handles, hhandles, hnull⟩ :=
      exists_null_mem_patternLabelHandles (Nat.lt_of_not_le hlength)
    obtain rfl := Option.some.inj (hhandles.symm.trans h.handles)
    obtain ⟨label, -, hlabel⟩ := List.mem_map.mp hnull
    exact label.property hlabel
  · intro hlength
    have hhandles := patternLabelHandles_eq hlength
    have hfound : N.filterPatternLabels m list pattern labels
        = some (N.filterJ3J m list pattern (labels.map Subtype.val)) := by
      rw [filterPatternLabels, hhandles, Option.map_some]
    refine ⟨hhandles, hhandles.trans (labelHandles_eq labels).symm, fun found h p hp => ?_,
      fun found h entries hentries text htext => ?_⟩
    · obtain rfl := Option.some.inj (hfound.symm.trans h)
      exact NativeMemory.mem_of_mem_sStrings hp
    · obtain rfl := Option.some.inj (filterLabels_eq.symm.trans h)
      obtain ⟨entries', hentries', hperm⟩ := filterJ3J_perm hN hentries htext
      exact ⟨_, hfound, entries', hentries', hperm⟩

end PwdList

/-! ## A list that behaves as documented -/

/-- The filters of tables. -/
def PwdTable.filters : PwdList PwdTable where
  filter t pattern labels :=
    (core.filterByLabels t labels).filter fun p => pattern <:+: p.getDescriptionCopy
  filterByLabels := core.filterByLabels

theorem PwdTable.filters_lawful :
    filters.Lawful fun pattern p => pattern <:+: p.getDescriptionCopy where
  filter _ _ _ := List.Perm.refl _

namespace PwdList

/-- One label. -/
theorem filtersAgree_one_label :
    PwdTable.filters.FiltersAgree (fun pattern p => pattern <:+: p.getDescriptionCopy)
      (.ofPointers [⟨some [7], 1⟩, ⟨some [1], 1⟩])
      (PwdTable.empty.add ⟨[1, 2], [], [], [[7]], 3, 4⟩) ⟨2, by decide⟩ [⟨1, by decide⟩] :=
  (filtersAgree_iff PwdTable.filters_lawful).mpr (by decide)

/-- Two labels: the last goes to the first cell, and the other is null. -/
theorem not_filtersAgree_two_labels :
    ¬ ∀ (pattern : NativeHandle) (labels : List NativeHandle),
      PwdTable.filters.FiltersAgree (fun pattern p => pattern <:+: p.getDescriptionCopy)
        (.ofPointers [⟨some [7], 1⟩, ⟨some [8], 1⟩, ⟨some [1], 1⟩])
        (PwdTable.empty.add ⟨[1, 2], [], [], [[7], [8]], 3, 4⟩) pattern labels := by
  intro h
  have hhandles := (h ⟨3, by decide⟩ [⟨1, by decide⟩, ⟨2, by decide⟩]).handles
  exact absurd hhandles (by decide)

/-! ## The methods on strings -/

variable {N : PwdList L} {m : NativeMemory} {list : L} {pattern : NativeHandle}
  {labels : List NativeHandle}

/-- The methods of a password list whose filters are these. -/
def toCorePwdList (N : PwdList L) (C : CorePwdList L) : CorePwdList L :=
  { C with
    filter := fun list pattern => N.filter list pattern []
    filterByLabels := N.filterByLabels }

variable {C : CorePwdList L} {text : SecureString} {texts : List SecureString}

/-- **`filter(pattern)` on the handle of a string is the filter on that string.** -/
theorem filterPattern_eq (htext : m.sString pattern = some text) :
    (N.filterPattern m list pattern).result = some ((N.toCorePwdList C).filter list text) := by
  rw [filterPattern, filterJ, filterJ3J, NativeMemory.sStrings, Option.bind_some,
    if_pos pattern.property, htext, Option.map_some, toCorePwdList]

end PwdList

namespace Handlers

end Handlers

end Kryptan
