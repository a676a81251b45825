import Mathlib.Logic.Function.Basic
import Mathlib.Order.BoundedOrder.Lattice
import Mathlib.Order.WithBot

/-!
# Machinery/LastWriter — replicas merged by version, and a hub that merges with its leaves

    A k, B k ──▸ A k ⊔ B k          the later version of a key wins
    A k, ⊥   ──▸ ⊥  if k is old     an old key that one side lacks was deleted there

A replica is a version for each of its keys, `⊥` where it has no such key.  `merge` is the join of
two replicas but for the deletions it infers, and a `Star` is a hub that merges with one leaf at a
time, while more and more keys are old.

A leaf that was merged once has nothing that the hub has not seen (`Behind`), whatever else the hub
merges with; merged again, once that holds of all leaves, it has all the keys of the hub (`Within`).
-/

namespace Kryptan.LastWriter

variable {K V ι : Type*} [LinearOrder V]

/-- What is left of two replicas: the join, but for the old keys of one of them alone. -/
noncomputable def merge (old : Set K) (A B : K → WithBot V) : K → WithBot V := by
  classical exact fun k => if k ∈ old ∧ (A k = ⊥ ∨ B k = ⊥) then ⊥ else A k ⊔ B k

section Merge

variable {old old' : Set K} {A B : K → WithBot V} {k : K}

theorem merge_of_old (hk : k ∈ old) (h : A k = ⊥ ∨ B k = ⊥) : merge old A B k = ⊥ := if_pos ⟨hk, h⟩

theorem merge_of_not (h : ¬ (k ∈ old ∧ (A k = ⊥ ∨ B k = ⊥))) : merge old A B k = A k ⊔ B k :=
  if_neg h

/-- **No version is rolled back**: what is left of a key is as late as either side had it. -/
theorem le_merge (h : merge old A B k ≠ ⊥) : A k ≤ merge old A B k ∧ B k ≤ merge old A B k := by
  have hnot : ¬ (k ∈ old ∧ (A k = ⊥ ∨ B k = ⊥)) := fun hold => h (merge_of_old hold.1 hold.2)
  rw [merge_of_not hnot]
  exact ⟨le_sup_left, le_sup_right⟩

/-- **A key is dropped exactly when it is old and one side alone has it.** -/
theorem merge_eq_bot_iff : merge old A B k = ⊥ ↔
    (A k = ⊥ ∧ B k = ⊥) ∨ k ∈ old ∧ (A k = ⊥ ∨ B k = ⊥) := by
  by_cases h : k ∈ old ∧ (A k = ⊥ ∨ B k = ⊥)
  · exact iff_of_true (merge_of_old h.1 h.2) (.inr h)
  · rw [merge_of_not h, sup_eq_bot_iff]
    exact ⟨.inl, fun h' => h'.resolve_right h⟩

end Merge

/-! ## A hub and its leaves -/

/-- A hub, its leaves, and the keys that are old. -/
structure Star (ι K V : Type*) where
  hub : K → WithBot V
  leaf : ι → K → WithBot V
  old : Set K

/-- The hub merges with a leaf, which takes the result over, or more keys are old. -/
inductive Star.Step [DecidableEq ι] : Star ι K V → Option ι → Star ι K V → Prop where
  | merge (s : Star ι K V) (i : ι) :
      Step s (some i) { s with
        hub := LastWriter.merge s.old s.hub (s.leaf i)
        leaf := Function.update s.leaf i (LastWriter.merge s.old s.hub (s.leaf i)) }
  | grow (s : Star ι K V) (old : Set K) (h : s.old ⊆ old) : Step s none { s with old := old }

namespace Star

/-- The hub has seen what a leaf has: it has every key of it as late, or has dropped it. -/
def Behind (s : Star ι K V) (i : ι) : Prop :=
  ∀ k, s.leaf i k ≤ s.hub k ∨ (s.hub k = ⊥ ∧ k ∈ s.old)

/-- A leaf has every key of the hub. -/
def Within (s : Star ι K V) (i : ι) : Prop := ∀ k, s.leaf i k = ⊥ → s.hub k = ⊥

/-- Merging with a leaf that is behind it brings the hub no new key. -/
theorem Behind.merge_eq_bot {s : Star ι K V} {i : ι} (hb : s.Behind i) {k : K}
    (hk : s.hub k = ⊥) :
    merge s.old s.hub (s.leaf i) k = ⊥ := by
  rcases hb k with hle | ⟨-, hold⟩
  · exact merge_eq_bot_iff.mpr (.inl ⟨hk, le_bot_iff.mp (hle.trans hk.le)⟩)
  · exact merge_of_old hold (.inl hk)

section Step

variable [DecidableEq ι] {s t : Star ι K V} {o : Option ι} {i : ι}

/-- A merge with a leaf leaves the two alike. -/
theorem Step.leaf_eq_hub (h : Step s (some i) t) : t.leaf i = t.hub := by
  cases h
  exact Function.update_self ..

/-- A leaf that was just merged is behind the hub. -/
theorem Step.behind_self (h : Step s (some i) t) : t.Behind i := fun k =>
  .inl (congrFun h.leaf_eq_hub k).le

/-- A leaf that was just merged has every key of the hub. -/
theorem Step.within_self (h : Step s (some i) t) : t.Within i := fun k hk =>
  (congrFun h.leaf_eq_hub k).symm.trans hk

/-- **Once behind the hub, a leaf stays behind it**, whatever the hub merges with: a key of the leaf
that the hub drops is old. -/
theorem Behind.step (hb : s.Behind i) (h : Step s o t) : t.Behind i := by
  cases h with
  | grow old hgrow => exact fun k => (hb k).imp_right fun hk => ⟨hk.1, hgrow hk.2⟩
  | merge j =>
    rcases eq_or_ne i j with rfl | hne
    · exact (Step.merge s i).behind_self
    · intro k
      show Function.update s.leaf j _ i k ≤ _ ∨ _
      rw [Function.update_of_ne hne]
      by_cases hdrop : merge s.old s.hub (s.leaf j) k = ⊥
      · rcases merge_eq_bot_iff.mp hdrop with ⟨hhub, -⟩ | ⟨hold, -⟩
        · exact (hb k).imp (fun hle => (hle.trans hhub.le).trans bot_le) fun hk => ⟨hdrop, hk.2⟩
        · exact .inr ⟨hdrop, hold⟩
      · rcases hb k with hle | ⟨hhub, hold⟩
        · exact .inl (hle.trans (le_merge hdrop).1)
        · exact absurd (merge_of_old hold (.inl hhub)) hdrop

/-- **Where the hub merges with leaves behind it only, a leaf that has its keys keeps having
them.** -/
theorem Within.step (hw : s.Within i) (hb : ∀ j ∈ o, s.Behind j) (h : Step s o t) :
    t.Within i := by
  cases h with
  | grow => exact hw
  | merge j =>
    rcases eq_or_ne i j with rfl | hne
    · exact (Step.merge s i).within_self
    · intro k hk
      replace hk : Function.update s.leaf j _ i k = ⊥ := hk
      rw [Function.update_of_ne hne] at hk
      exact (hb j rfl).merge_eq_bot (hw k hk)

end Step

end Star

end Kryptan.LastWriter
