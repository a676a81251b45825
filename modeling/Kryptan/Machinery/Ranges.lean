import Mathlib.Algebra.Order.Group.Nat
import Mathlib.Data.List.Basic
import Mathlib.Data.Option.Basic

/-!
# Machinery/Ranges — loops over a range of an array

    dst : · · · · · · ·        ranges : [0,2) [2,2) [2,5) …
              └─ src ─┘                 each starts where the one before it ended

A write to one cell is seen there and nowhere else (`getElem?_set_cases`).
`writeRange` is a loop that writes a range of an array, `none` once an index is outside of one of the
arrays it touches; within bounds it writes the range and nothing else (`writeRange_spec`).  Ranges
that follow each other cut a list into pieces which make it up again (`flatten_slices`).

`writeEach` is a loop over the entries of a collection that writes each at the present index.  An
index that moves on by one copies the collection (`writeEach_succ`), one that stays keeps the last
entry only (`writeEach_id`).
-/

namespace Kryptan.Ranges

variable {α : Type*}

/-- **What is found after a write to one cell**: what was written, or what was there. -/
theorem getElem?_set_cases {l : List α} {i j : ℕ} {a b : α} (h : (l.set i a)[j]? = some b) :
    i = j ∧ b = a ∨ i ≠ j ∧ l[j]? = some b := by
  rw [List.getElem?_set] at h
  split at h
  · next hij =>
    obtain ⟨-, h⟩ := Option.ite_none_right_eq_some.mp h
    exact .inl ⟨hij, (Option.some.inj h).symm⟩
  · next hij => exact .inr ⟨hij, h⟩

/-- `for (i = start; i < start + count; i++) dst[i] = src(i)`. -/
def writeRange (src : ℕ → Option α) : List α → (start count : ℕ) → Option (List α)
  | dst, _, 0 => some dst
  | dst, start, count + 1 =>
    if start < dst.length then
      (src start).bind fun c => writeRange src (dst.set start c) (start + 1) count
    else none

/-- **Within bounds the loop writes its range and nothing else.** -/
theorem writeRange_spec (src : ℕ → Option α) (dst : List α) (start count : ℕ)
    (hdst : start + count ≤ dst.length)
    (hsrc : ∀ i, start ≤ i → i < start + count → (src i).isSome = true) :
    ∃ dst', writeRange src dst start count = some dst' ∧ dst'.length = dst.length ∧
      ∀ i : ℕ, dst'[i]? = if start ≤ i ∧ i < start + count then src i else dst[i]? := by
  induction count generalizing dst start with
  | zero =>
    refine ⟨dst, rfl, rfl, fun i => ?_⟩
    rw [if_neg (by omega)]
  | succ count ih =>
    obtain ⟨c, hc⟩ := Option.isSome_iff_exists.mp (hsrc start (le_refl _) (by omega))
    obtain ⟨dst', hwrite, hlength, hget⟩ := ih (dst.set start c) (start + 1)
      (by rw [List.length_set]; omega) fun i hi hi' => hsrc i (by omega) (by omega)
    refine ⟨dst', ?_, hlength.trans List.length_set, fun i => ?_⟩
    · rw [writeRange, if_pos (by omega), hc]
      exact hwrite
    · rw [hget]
      rcases lt_trichotomy i start with hlt | rfl | hgt
      · rw [if_neg (by omega), if_neg (by omega), List.getElem?_set_ne (by omega)]
      · rw [if_neg (by omega), if_pos (by omega), List.getElem?_set_self (by omega), hc]
      · by_cases hi : i < start + 1 + count
        · rw [if_pos (by omega), if_pos (by omega)]
        · rw [if_neg (by omega), if_neg (by omega), List.getElem?_set_ne (by omega)]

/-! ## A loop over a collection -/

/-- `for (a : as) { dst[i] = a; i = next(i); }`. -/
def writeEach (next : ℕ → ℕ) : List α → ℕ → List α → Option (List α)
  | dst, _, [] => some dst
  | dst, i, a :: as =>
    if i < dst.length then writeEach next (dst.set i a) (next i) as else none

/-- **An index that moves on by one copies the collection.** -/
theorem writeEach_succ (done : List α) {todo as : List α} (h : as.length ≤ todo.length) :
    writeEach (· + 1) (done ++ todo) done.length as
      = some (done ++ as ++ todo.drop as.length) := by
  induction as generalizing done todo with
  | nil => simp [writeEach]
  | cons a as ih =>
    obtain ⟨b, todo, rfl⟩ : ∃ b todo', todo = b :: todo' :=
      List.exists_cons_of_length_pos (Nat.lt_of_lt_of_le (by simp) h)
    have hset : (done ++ b :: todo).set done.length a = (done ++ [a]) ++ todo := by simp
    have hrest := ih (done ++ [a]) (Nat.le_of_succ_le_succ h)
    rw [List.length_append, List.length_singleton] at hrest
    rw [writeEach, if_pos (by simp), hset, hrest]
    simp

/-- A new array of the size of the collection is filled with it. -/
theorem writeEach_replicate (as : List α) (b : α) :
    writeEach (· + 1) (List.replicate as.length b) 0 as = some as := by
  have hlength : as.length ≤ (List.replicate as.length b).length := by rw [List.length_replicate]
  have hcopied := writeEach_succ [] hlength
  simpa using hcopied

/-- **An index that stays keeps the last entry only.** -/
theorem writeEach_id {dst : List α} {i : ℕ} (h : i < dst.length) (as : List α) (a : α) :
    writeEach id dst i (as ++ [a]) = some (dst.set i a) := by
  induction as generalizing dst with
  | nil => rw [List.nil_append, writeEach, if_pos h, writeEach]
  | cons b as ih =>
    rw [List.cons_append, writeEach, if_pos h, id, ih (by rwa [List.length_set]), List.set_set]

/-! ## Consecutive ranges -/

/-- Each range starts where the one before it ended, from `first` to `last`. -/
def Consecutive : ℕ → ℕ → List (ℕ × ℕ) → Prop
  | first, last, [] => first = last
  | first, last, (start, stop) :: ranges =>
    start = first ∧ start ≤ stop ∧ Consecutive stop last ranges

instance Consecutive.decidable : ∀ first last ranges, Decidable (Consecutive first last ranges)
  | first, last, [] => inferInstanceAs (Decidable (first = last))
  | first, last, (start, stop) :: ranges =>
    have := Consecutive.decidable stop last ranges
    inferInstanceAs (Decidable (start = first ∧ start ≤ stop ∧ Consecutive stop last ranges))

theorem Consecutive.le {first last : ℕ} {ranges : List (ℕ × ℕ)}
    (h : Consecutive first last ranges) : first ≤ last := by
  induction ranges generalizing first with
  | nil => exact Nat.le_of_eq h
  | cons r ranges ih =>
    obtain ⟨rfl, hle, hrest⟩ := h
    exact hle.trans (ih hrest)

/-- **Every range lies within the whole.** -/
theorem Consecutive.mem {first last : ℕ} {ranges : List (ℕ × ℕ)}
    (h : Consecutive first last ranges) {r : ℕ × ℕ} (hr : r ∈ ranges) :
    r.1 ≤ r.2 ∧ r.2 ≤ last := by
  induction ranges generalizing first with
  | nil => exact absurd hr List.not_mem_nil
  | cons r' ranges ih =>
    rcases List.mem_cons.mp hr with rfl | hr
    · exact ⟨h.2.1, h.2.2.le⟩
    · exact ih h.2.2 hr

/-- The entries of a range. -/
def slice (l : List α) (r : ℕ × ℕ) : List α := (l.drop r.1).take (r.2 - r.1)

theorem length_slice {l : List α} {r : ℕ × ℕ} (h : r.2 ≤ l.length) :
    (slice l r).length = r.2 - r.1 := by
  rw [slice, List.length_take, List.length_drop]
  omega

theorem getElem?_slice (l : List α) (r : ℕ × ℕ) (i : ℕ) :
    (slice l r)[i]? = if i < r.2 - r.1 then l[r.1 + i]? else none := by
  rw [slice, List.getElem?_take]
  split_ifs
  · rw [List.getElem?_drop]
  · rfl

/-- Two pieces next to each other are one. -/
theorem slice_append_slice (l : List α) {first middle last : ℕ} (h : first ≤ middle)
    (h' : middle ≤ last) :
    slice l (first, middle) ++ slice l (middle, last) = slice l (first, last) := by
  have hlength : last - first = (middle - first) + (last - middle) := by omega
  have hdrop : l.drop middle = (l.drop first).drop (middle - first) := by
    rw [List.drop_drop, Nat.add_sub_cancel' h]
  simp only [slice]
  rw [hlength, List.take_add, hdrop]

/-- **The pieces make up the list.** -/
theorem flatten_slices {first last : ℕ} {ranges : List (ℕ × ℕ)}
    (h : Consecutive first last ranges) (l : List α) :
    (ranges.map (slice l)).flatten = slice l (first, last) := by
  induction ranges generalizing first with
  | nil =>
    obtain rfl : first = last := h
    simp [slice]
  | cons r ranges ih =>
    obtain ⟨rfl, hle, hrest⟩ := h
    rw [List.map_cons, List.flatten_cons, ih hrest]
    exact slice_append_slice l hle hrest.le

end Kryptan.Ranges
