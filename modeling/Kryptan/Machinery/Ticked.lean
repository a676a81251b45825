import Mathlib.Data.List.Perm.Basic
import Mathlib.Data.List.Nodup

/-!
# Machinery/Ticked — a list and its check marks

    as    : a₀ a₁ a₂ a₃
    flags : ✓  ·  ✓  ·      ticked as flags = [a₀, a₂]

The entries of a list whose flag in a second list is set.  Setting a flag adds its entry and nothing
else (`ticked_set_true`), clearing it takes it out (`ticked_set_false`).
-/

namespace Kryptan.Ticked

variable {α : Type*}

/-- The entries whose flag is set, in their order. -/
def ticked : List α → List Bool → List α
  | a :: as, flag :: flags => if flag then a :: ticked as flags else ticked as flags
  | _, _ => []

theorem ticked_cons (a : α) (as : List α) (flag : Bool) (flags : List Bool) :
    ticked (a :: as) (flag :: flags) = if flag then a :: ticked as flags else ticked as flags := by
  rw [ticked]

/-- No flag set, no entry ticked. -/
theorem ticked_replicate_false (as : List α) (n : ℕ) : ticked as (List.replicate n false) = [] := by
  induction as generalizing n with
  | nil => simp [ticked]
  | cons a as ih =>
    cases n with
    | zero => simp [ticked]
    | succ n =>
      rw [List.replicate_succ, ticked_cons]
      exact ih n

theorem ticked_sublist (as : List α) (flags : List Bool) : (ticked as flags).Sublist as := by
  induction as generalizing flags with
  | nil => simp [ticked]
  | cons a as ih =>
    cases flags with
    | nil => simp [ticked]
    | cons flag flags =>
      rw [ticked_cons]
      split_ifs
      · exact (ih flags).cons_cons a
      · exact (ih flags).cons a

/-- **An entry is ticked exactly when the flag of one of its places is set.** -/
theorem mem_ticked_iff {as : List α} {flags : List Bool} {a : α} :
    a ∈ ticked as flags ↔ ∃ i : ℕ, as[i]? = some a ∧ flags[i]? = some true := by
  induction as generalizing flags with
  | nil => simp [ticked]
  | cons b as ih =>
    cases flags with
    | nil => simp [ticked]
    | cons flag flags =>
      have hhead : a ∈ ticked (b :: as) (flag :: flags) ↔
          (flag = true ∧ a = b) ∨ a ∈ ticked as flags := by
        rw [ticked_cons]
        cases flag <;> simp
      rw [hhead, ih]
      constructor
      · rintro (⟨rfl, rfl⟩ | ⟨i, ha, hflag⟩)
        · exact ⟨0, rfl, rfl⟩
        · exact ⟨i + 1, ha, hflag⟩
      · rintro ⟨i, ha, hflag⟩
        cases i with
        | zero => exact .inl ⟨Option.some.inj hflag, (Option.some.inj ha).symm⟩
        | succ i => exact .inr ⟨i, ha, hflag⟩

/-- **Setting a flag adds its entry.** -/
theorem ticked_set_true {as : List α} {flags : List Bool} {i : ℕ} {a : α} (ha : as[i]? = some a)
    (hflag : flags[i]? = some false) :
    (ticked as (flags.set i true)).Perm (a :: ticked as flags) := by
  induction as generalizing flags i with
  | nil => simp at ha
  | cons b as ih =>
    cases flags with
    | nil => simp at hflag
    | cons flag flags =>
      cases i with
      | zero =>
        obtain rfl := Option.some.inj ha
        obtain rfl := Option.some.inj hflag
        exact List.Perm.refl _
      | succ i =>
        rw [List.set_cons_succ, ticked_cons, ticked_cons]
        split_ifs
        · exact ((ih ha hflag).cons b).trans (List.Perm.swap a b _)
        · exact ih ha hflag

/-- **Clearing a flag takes its entry out.** -/
theorem ticked_set_false {as : List α} {flags : List Bool} {i : ℕ} {a : α} (ha : as[i]? = some a)
    (hflag : flags[i]? = some true) :
    (ticked as flags).Perm (a :: ticked as (flags.set i false)) := by
  obtain ⟨hlt, htrue⟩ := List.getElem?_eq_some_iff.mp hflag
  have hcleared : (flags.set i false)[i]? = some false := List.getElem?_set_self hlt
  have hadd := ticked_set_true ha hcleared
  have hback : (flags.set i false).set i true = flags := by
    rw [List.set_set, ← htrue, List.set_getElem_self]
  rwa [hback] at hadd

end Kryptan.Ticked
