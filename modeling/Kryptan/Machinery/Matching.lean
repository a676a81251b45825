import Mathlib.Data.List.Perm.Basic
import Mathlib.Data.List.Perm.Lattice
import Mathlib.Data.List.Nodup
import Mathlib.Data.List.Pairwise
import Mathlib.Data.Option.Basic

/-!
# Machinery/Matching — pairing two lists by a key

    as : α ──f──▸ κ ◂──g── β : bs

Each `b` in turn takes the first `a` of its key out of `as`; what is left of `as` at the end stays
alone.  `pairUp` is the result, as a list of two optional sides.  It partitions both lists
(`pairUp_lefts`, `pairUp_rights`), pairs equal keys only (`pairUp_key`), and pairs as many entries
of a key as the two lists allow (`countP_pairUp`), whichever of the two lists is gone through
(`pairUp_swap`).  Where the keys of a list are distinct, who is
paired and who stays alone is read off the other list (`pair_mem_pairUp`, `left_mem_pairUp`,
`right_mem_pairUp`).
-/

namespace Kryptan.Matching

variable {α β κ : Type*} [DecidableEq κ] (f : α → κ) (g : β → κ)

/-- Pair the entries of two lists with equal keys, first come first served. -/
def pairUp : List α → List β → List (Option α × Option β)
  | as, [] => as.map fun a => (some a, none)
  | as, b :: bs =>
    (as.find? fun a => f a = g b, some b) :: pairUp (as.eraseP fun a => f a = g b) bs

variable {f g}

theorem pairUp_nil (as : List α) : pairUp f g as [] = as.map fun a => (some a, none) := by
  rw [pairUp]

theorem pairUp_cons (as : List α) (b : β) (bs : List β) :
    pairUp f g as (b :: bs) = (as.find? fun a => f a = g b, some b)
      :: pairUp f g (as.eraseP fun a => f a = g b) bs := by
  rw [pairUp]

/-! ## Taking the first entry of a key out of a list -/

/-- What is found and what is left make up the list. -/
theorem find?_toList_append_eraseP (p : α → Bool) (l : List α) :
    ((l.find? p).toList ++ l.eraseP p).Perm l := by
  induction l with
  | nil => exact List.Perm.refl _
  | cons a l ih =>
    by_cases h : p a = true
    · rw [List.find?_cons_of_pos h, List.eraseP_cons_of_pos h]
      exact List.Perm.refl _
    · rw [List.find?_cons_of_neg h, List.eraseP_cons_of_neg h]
      exact List.perm_middle.trans (ih.cons a)

/-- Removing the entry that was found is removing the first one that fits. -/
theorem erase_of_find?_eq_some [DecidableEq α] {p : α → Bool} {l : List α} {a : α}
    (h : l.find? p = some a) : l.erase a = l.eraseP p := by
  induction l with
  | nil => exact absurd h (by simp)
  | cons b l ih =>
    by_cases hb : p b = true
    · rw [List.find?_cons_of_pos hb] at h
      rw [List.eraseP_cons_of_pos hb, ← Option.some.inj h, List.erase_cons_head]
    · rw [List.find?_cons_of_neg hb] at h
      have hne : b ≠ a := fun heq => hb (heq ▸ List.find?_some h)
      rw [List.eraseP_cons_of_neg hb, List.erase_cons_tail (by simpa using hne), ih h]

/-- Taking an entry of another key out leaves the count of a key alone. -/
theorem countP_eraseP_of_ne {as : List α} {j k : κ} (h : j ≠ k) :
    (as.eraseP fun a => f a = j).countP (fun a => f a = k) = as.countP fun a => f a = k := by
  have hperm := (find?_toList_append_eraseP (fun a => decide (f a = j)) as).countP_eq
    fun a => decide (f a = k)
  rw [List.countP_append] at hperm
  have hfound : (as.find? fun a => f a = j).toList.countP (fun a => f a = k) = 0 := by
    refine List.countP_eq_zero.mpr fun a ha => ?_
    have hj : f a = j := by simpa using List.find?_some (Option.mem_toList.mp ha)
    simpa [hj] using h
  omega

/-- Taking an entry of a key out leaves one less, if there was one. -/
theorem countP_eraseP_self (as : List α) (k : κ) :
    (as.eraseP fun a => f a = k).countP (fun a => f a = k)
      = as.countP (fun a => f a = k) - 1 := by
  induction as with
  | nil => rfl
  | cons a as ih =>
    by_cases h : f a = k
    · rw [List.eraseP_cons_of_pos (by simpa using h), List.countP_cons_of_pos (by simpa using h)]
      rfl
    · rw [List.eraseP_cons_of_neg (by simpa using h), List.countP_cons_of_neg (by simpa using h),
        List.countP_cons_of_neg (by simpa using h), ih]

theorem isSome_find?_iff (as : List α) (k : κ) :
    (as.find? fun a => f a = k).isSome = true ↔ 0 < as.countP fun a => f a = k := by
  rw [List.find?_isSome, List.countP_pos_iff]

/-! ## The partition -/

/-- **Every entry of the left list is the left side of exactly one pair.** -/
theorem pairUp_lefts (as : List α) (bs : List β) :
    ((pairUp f g as bs).filterMap Prod.fst).Perm as := by
  induction bs generalizing as with
  | nil =>
    rw [pairUp_nil, List.filterMap_map]
    exact .of_eq List.filterMap_some
  | cons b bs ih =>
    refine List.Perm.trans ?_ (find?_toList_append_eraseP (fun a => decide (f a = g b)) as)
    rw [pairUp_cons]
    cases h : as.find? fun a => f a = g b with
    | none => simpa using ih _
    | some a => simpa using (ih _).cons a

/-- **Every entry of the right list is the right side of exactly one pair**, in its place. -/
theorem pairUp_rights (as : List α) (bs : List β) :
    (pairUp f g as bs).filterMap Prod.snd = bs := by
  induction bs generalizing as with
  | nil =>
    rw [pairUp_nil, List.filterMap_map]
    exact List.filterMap_eq_nil_iff.mpr fun a _ => rfl
  | cons b bs ih =>
    rw [pairUp_cons]
    exact congrArg (b :: ·) (ih _)

/-- **A pair has one key.** -/
theorem pairUp_key {as : List α} {bs : List β} {a : α} {b : β}
    (h : (some a, some b) ∈ pairUp f g as bs) : f a = g b := by
  induction bs generalizing as with
  | nil =>
    rw [pairUp_nil, List.mem_map] at h
    obtain ⟨a', -, ha'⟩ := h
    exact absurd (congrArg Prod.snd ha') (by simp)
  | cons c bs ih =>
    rw [pairUp_cons, List.mem_cons] at h
    rcases h with h | h
    · obtain ⟨hfind, hb⟩ := Prod.mk.injEq .. ▸ h
      obtain rfl := Option.some.inj hb
      simpa using List.find?_some hfind.symm
    · exact ih h

/-- No pair is empty on both sides. -/
theorem not_none_none_mem_pairUp (as : List α) (bs : List β) :
    (none, none) ∉ pairUp f g as bs := by
  induction bs generalizing as with
  | nil => simp [pairUp_nil]
  | cons b bs ih =>
    rw [pairUp_cons, List.mem_cons, not_or]
    exact ⟨fun h => absurd (congrArg Prod.snd h) (by simp), ih _⟩

theorem left_mem {as : List α} {bs : List β} {a : α} {b? : Option β}
    (h : (some a, b?) ∈ pairUp f g as bs) : a ∈ as :=
  (pairUp_lefts (f := f) (g := g) as bs).mem_iff.mp (List.mem_filterMap.mpr ⟨_, h, rfl⟩)

theorem right_mem {as : List α} {bs : List β} {a? : Option α} {b : β}
    (h : (a?, some b) ∈ pairUp f g as bs) : b ∈ bs :=
  (pairUp_rights (f := f) (g := g) as bs) ▸ List.mem_filterMap.mpr ⟨_, h, rfl⟩

theorem exists_mem_of_left {as : List α} (bs : List β) {a : α} (h : a ∈ as) :
    ∃ b?, (some a, b?) ∈ pairUp f g as bs := by
  obtain ⟨⟨a?, b?⟩, hp, ha⟩ :=
    List.mem_filterMap.mp ((pairUp_lefts (f := f) (g := g) as bs).mem_iff.mpr h)
  exact ⟨b?, (show a? = some a from ha) ▸ hp⟩

theorem exists_mem_of_right (as : List α) {bs : List β} {b : β} (h : b ∈ bs) :
    ∃ a?, (a?, some b) ∈ pairUp f g as bs := by
  rw [← pairUp_rights (f := f) (g := g) as bs] at h
  obtain ⟨⟨a?, b?⟩, hp, hb⟩ := List.mem_filterMap.mp h
  exact ⟨a?, (show b? = some b from hb) ▸ hp⟩

/-! ## The other way round -/

theorem pairUp_nil_left (bs : List β) : pairUp f g [] bs = bs.map fun b => (none, some b) := by
  induction bs with
  | nil => rfl
  | cons b bs ih =>
    rw [pairUp_cons, List.map_cons, ← ih]
    rfl

/-- Seen from the left list, its first entry takes the first entry of its key out of the right
list. -/
theorem pairUp_cons_left (a : α) (as : List α) (bs : List β) :
    (pairUp f g (a :: as) bs).Perm ((some a, bs.find? fun b => g b = f a)
      :: pairUp f g as (bs.eraseP fun b => g b = f a)) := by
  induction bs generalizing as with
  | nil => exact List.Perm.refl _
  | cons b bs ih =>
    by_cases h : f a = g b
    · rw [pairUp_cons, List.find?_cons_of_pos (by simpa using h),
        List.eraseP_cons_of_pos (by simpa using h), List.find?_cons_of_pos (by simpa using h.symm),
        List.eraseP_cons_of_pos (by simpa using h.symm)]
    · rw [pairUp_cons, List.find?_cons_of_neg (by simpa using h),
        List.eraseP_cons_of_neg (by simpa using h),
        List.find?_cons_of_neg (by simpa using Ne.symm h),
        List.eraseP_cons_of_neg (by simpa using Ne.symm h), pairUp_cons]
      exact ((ih _).cons _).trans (List.Perm.swap _ _ _)

/-- **Pairing does not depend on which list is gone through**: the pairs are the same, with their
sides exchanged. -/
theorem pairUp_swap (as : List α) (bs : List β) :
    (pairUp f g as bs).Perm ((pairUp g f bs as).map Prod.swap) := by
  induction as generalizing bs with
  | nil =>
    rw [pairUp_nil_left, pairUp_nil, List.map_map]
    exact List.Perm.refl _
  | cons a as ih =>
    rw [pairUp_cons, List.map_cons]
    exact (pairUp_cons_left a as bs).trans ((ih _).cons _)

/-! ## How many are paired -/

/-- A pair of the key `k`, both sides present. -/
def isPairOf (f : α → κ) (k : κ) : Option α × Option β → Bool
  | (some a, some _) => f a = k
  | _ => false

/-- A turn makes a pair of the key `k` when its entry has this key and the left list still has
one. -/
theorem isPairOf_find? (as : List α) (b : β) (k : κ) :
    isPairOf f k (as.find? fun a => f a = g b, some b)
      = decide (g b = k ∧ 0 < as.countP fun a => f a = k) := by
  have hiff := isSome_find?_iff (f := f) as (g b)
  cases hfind : as.find? fun a => f a = g b with
  | none =>
    rw [hfind] at hiff
    have hnone : ¬ (g b = k ∧ 0 < as.countP fun a => f a = k) := by
      rintro ⟨rfl, hpos⟩
      exact Bool.noConfusion (hiff.mpr hpos)
    rw [decide_eq_false hnone]
    rfl
  | some a =>
    have hk : f a = g b := by simpa using List.find?_some hfind
    have hpos := hiff.mp (by rw [hfind]; rfl)
    have hsame : (g b = k ∧ 0 < as.countP fun a => f a = k) ↔ f a = k := by
      rw [hk]
      exact ⟨And.left, fun h => ⟨h, h ▸ hpos⟩⟩
    exact (decide_eq_decide.mpr hsame).symm

/-- **As many entries of a key are paired as both lists have.** -/
theorem countP_pairUp (as : List α) (bs : List β) (k : κ) :
    (pairUp f g as bs).countP (isPairOf f k)
      = min (as.countP fun a => f a = k) (bs.countP fun b => g b = k) := by
  induction bs generalizing as with
  | nil =>
    rw [pairUp_nil, List.countP_map, List.countP_nil, Nat.min_zero]
    exact List.countP_eq_zero.mpr fun a _ => by simp [isPairOf]
  | cons b bs ih =>
    rw [pairUp_cons, List.countP_cons, ih, isPairOf_find?]
    by_cases hb : g b = k
    · rw [List.countP_cons_of_pos (by simpa using hb), hb, countP_eraseP_self]
      simp only [true_and, decide_eq_true_eq]
      split_ifs <;> omega
    · rw [List.countP_cons_of_neg (by simpa using hb), countP_eraseP_of_ne hb]
      simp [hb]

/-! ## Distinct keys -/

/-- **Both sides of a key are paired** when the left list has each key once and so has the right
list. -/
theorem pair_mem_pairUp {as : List α} {bs : List β} (has : (as.map f).Nodup)
    (hbs : (bs.map g).Nodup) {a : α} {b : β} (ha : a ∈ as) (hb : b ∈ bs) (hab : f a = g b) :
    (some a, some b) ∈ pairUp f g as bs := by
  induction bs generalizing as with
  | nil => exact absurd hb List.not_mem_nil
  | cons c bs ih =>
    rw [List.map_cons, List.nodup_cons] at hbs
    rw [pairUp_cons, List.mem_cons]
    rcases List.mem_cons.mp hb with rfl | hb
    · left
      obtain ⟨a', ha'⟩ := Option.isSome_iff_exists.mp
        (List.find?_isSome.mpr ⟨a, ha, by simpa using hab⟩ :
          (as.find? fun a => decide (f a = g b)).isSome = true)
      have hkey : f a' = g b := by simpa using List.find?_some ha'
      have hmem := List.mem_of_find?_eq_some ha'
      rw [ha', List.inj_on_of_nodup_map has hmem ha (hkey.trans hab.symm)]
    · right
      have hne : f a ≠ g c := fun h => hbs.1 (List.mem_map.mpr ⟨b, hb, hab.symm.trans h⟩)
      exact ih (has.sublist (List.eraseP_sublist.map f)) hbs.2
        ((List.mem_eraseP_of_neg (by simpa using hne)).mpr ha) hb

/-- What a list without duplicates has at one place only, the list it is taken from has at one
place only. -/
theorem eq_of_nodup_filterMap {γ δ : Type*} {h : γ → Option δ} {l : List γ}
    (hl : (l.filterMap h).Nodup) {x y : γ} (hx : x ∈ l) (hy : y ∈ l) {c : δ}
    (hxc : h x = some c) (hyc : h y = some c) : x = y := by
  have hdistinct := List.pairwise_filterMap.mp hl
  have hsymm : Std.Symm fun a a' => ∀ b ∈ h a, ∀ b' ∈ h a', b ≠ b' :=
    ⟨fun _ _ hxy b hb b' hb' => (hxy b' hb' b hb).symm⟩
  by_contra hne
  exact hdistinct.forall hx hy hne c hxc c hyc rfl

/-- An entry that the left list has once is the left side of one pair only. -/
theorem left_unique {as : List α} {bs : List β} (has : as.Nodup) {a : α} {b b' : Option β}
    (h : (some a, b) ∈ pairUp f g as bs) (h' : (some a, b') ∈ pairUp f g as bs) :
    (some a, b) = (some a, b') :=
  eq_of_nodup_filterMap ((pairUp_lefts (f := f) (g := g) as bs).nodup_iff.mpr has) h h' rfl rfl

/-- An entry that the right list has once is the right side of one pair only. -/
theorem right_unique {as : List α} {bs : List β} (hbs : bs.Nodup) {a a' : Option α} {b : β}
    (h : (a, some b) ∈ pairUp f g as bs) (h' : (a', some b) ∈ pairUp f g as bs) :
    (a, some b) = (a', some b) :=
  eq_of_nodup_filterMap ((pairUp_rights as bs).symm.subst hbs) h h' rfl rfl

/-- **Alone on the left** are the entries whose key the right list does not have. -/
theorem left_mem_pairUp {as : List α} {bs : List β} (has : (as.map f).Nodup)
    (hbs : (bs.map g).Nodup) {a : α} :
    (some a, none) ∈ pairUp f g as bs ↔ a ∈ as ∧ ∀ b ∈ bs, g b ≠ f a := by
  constructor
  · intro h
    refine ⟨left_mem h, fun b hb hab => ?_⟩
    have hpair := pair_mem_pairUp has hbs (left_mem h) hb hab.symm
    exact absurd (congrArg Prod.snd (left_unique has.of_map h hpair)) (by simp)
  · rintro ⟨ha, hnone⟩
    obtain ⟨b?, hp⟩ := exists_mem_of_left (f := f) (g := g) bs ha
    cases b? with
    | none => exact hp
    | some b => exact absurd (pairUp_key hp).symm (hnone b (right_mem hp))

/-- **Alone on the right** are the entries whose key the left list does not have. -/
theorem right_mem_pairUp {as : List α} {bs : List β} (has : (as.map f).Nodup)
    (hbs : (bs.map g).Nodup) {b : β} :
    (none, some b) ∈ pairUp f g as bs ↔ b ∈ bs ∧ ∀ a ∈ as, f a ≠ g b := by
  constructor
  · intro h
    refine ⟨right_mem h, fun a ha hab => ?_⟩
    have hpair := pair_mem_pairUp has hbs ha (right_mem h) hab
    exact absurd (congrArg Prod.fst (right_unique hbs.of_map h hpair)) (by simp)
  · rintro ⟨hb, hnone⟩
    obtain ⟨a?, hp⟩ := exists_mem_of_right (f := f) (g := g) as hb
    cases a? with
    | none => exact hp
    | some a => exact absurd (pairUp_key hp) (hnone a (left_mem hp))

/-- What is left after taking a key out does not have it any more. -/
theorem ne_of_mem_eraseP {as : List α} (has : (as.map f).Nodup) {a : α} {k : κ}
    (ha : a ∈ as.eraseP fun a => f a = k) : f a ≠ k := by
  intro hak
  have hone : as.countP (fun a => f a = k) ≤ 1 := by
    have hcount := List.nodup_iff_count_le_one.mp has k
    rwa [List.count, List.countP_map] at hcount
  have hpos : 0 < (as.eraseP fun a => f a = k).countP fun a => f a = k :=
    List.countP_pos_iff.mpr ⟨a, ha, by simpa using hak⟩
  rw [countP_eraseP_self] at hpos
  omega

/-- The key of a pair. -/
def keyOf (f : α → κ) (g : β → κ) (p : Option α × Option β) : Option κ :=
  (p.1.map f).or (p.2.map g)

/-- **No two pairs have a key in common** when each list has each key once. -/
theorem nodup_map_keyOf_pairUp {as : List α} {bs : List β} (has : (as.map f).Nodup)
    (hbs : (bs.map g).Nodup) : ((pairUp f g as bs).map (keyOf f g)).Nodup := by
  induction bs generalizing as with
  | nil =>
    rw [pairUp_nil, List.map_map]
    have hkeys : as.map (keyOf f g ∘ fun a => (some a, none)) = (as.map f).map some := by
      rw [List.map_map]
      rfl
    rw [hkeys]
    exact has.map (Option.some_injective κ)
  | cons b bs ih =>
    rw [List.map_cons, List.nodup_cons] at hbs
    have hrest : ((as.eraseP fun a => f a = g b).map f).Nodup :=
      has.sublist (List.eraseP_sublist.map f)
    have hkey : keyOf f g (as.find? fun a => f a = g b, some b) = some (g b) := by
      rcases hfind : as.find? fun a => f a = g b with _ | a
      · rfl
      · exact congrArg some (by simpa using List.find?_some hfind)
    rw [pairUp_cons, List.map_cons, List.nodup_cons, hkey]
    refine ⟨fun hmem => ?_, ih hrest hbs.2⟩
    obtain ⟨⟨a?, b?⟩, hp, hk⟩ := List.mem_map.mp hmem
    rcases a? with _ | a
    · -- alone on the right, further down the list
      rcases b? with _ | b'
      · exact not_none_none_mem_pairUp _ _ hp
      · exact hbs.1 (List.mem_map.mpr ⟨b', right_mem hp, Option.some.inj hk⟩)
    · -- a left entry of the key was taken out
      exact ne_of_mem_eraseP has (left_mem hp) (Option.some.inj hk)

end Kryptan.Matching
