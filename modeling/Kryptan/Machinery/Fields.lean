import Mathlib.Data.List.DropRight

/-!
# Machinery/Fields — the fields of a text, trailing empty ones dropped

    a,b,,c    ──split──▸ [a, b, –, c]
    a,b,,c,,  ──split──▸ [a, b, –, c]        the two empty fields at the end are gone

`split` cuts a list at a separator and drops the empty fields at its end.  What is lost is how many
there were: **the texts with given fields are those fields joined, with any number of separators
after them** (`split_join`, `exists_eq_join_of_split`).
-/

namespace Kryptan.Fields

variable {α : Type*} {sep : α}

/-- Fields with a separator between them. -/
def join (sep : α) (fields : List (List α)) : List α := [sep].intercalate fields

/-- The fields of a list, but for empty ones at the end; the empty list is one empty field. -/
def split [DecidableEq α] (sep : α) (s : List α) : List (List α) :=
  if s = [] then [[]] else (s.splitOn sep).rdropWhile List.isEmpty

/-! ## Empty fields at the end -/

/-- An empty field at the end is a separator at the end. -/
theorem join_concat_nil {fields : List (List α)} (h : fields ≠ []) :
    join sep (fields ++ [[]]) = join sep fields ++ [sep] := by
  induction fields with
  | nil => exact absurd rfl h
  | cons f fields ih =>
    cases fields with
    | nil => simp [join]
    | cons g fields =>
      have ih' := ih (List.cons_ne_nil g fields)
      rw [join, join, List.cons_append] at ih' ⊢
      rw [List.cons_append, List.intercalate_cons_cons, List.intercalate_cons_cons, ih',
        List.append_assoc (f ++ [sep])]

/-- Any number of empty fields at the end is as many separators. -/
theorem join_append_replicate_nil {fields : List (List α)} (h : fields ≠ []) (k : ℕ) :
    join sep (fields ++ List.replicate k []) = join sep fields ++ List.replicate k sep := by
  induction k with
  | zero => rw [List.replicate_zero, List.replicate_zero, List.append_nil, List.append_nil]
  | succ k ih =>
    have hne : fields ++ List.replicate k [] ≠ [] := List.append_ne_nil_of_left_ne_nil h _
    rw [List.replicate_succ', List.replicate_succ', ← List.append_assoc, join_concat_nil hne, ih,
      List.append_assoc]

/-- Dropping the empty fields takes off a number of empty fields. -/
theorem exists_rdropWhile_append (fields : List (List α)) :
    ∃ k, fields = fields.rdropWhile List.isEmpty ++ List.replicate k [] := by
  induction fields using List.reverseRecOn with
  | nil => exact ⟨0, rfl⟩
  | append_singleton fields f ih =>
    by_cases hf : f = []
    · obtain ⟨k, hk⟩ := ih
      refine ⟨k + 1, ?_⟩
      rw [List.rdropWhile_concat_pos _ _ _ (by simpa using hf), List.replicate_succ',
        ← List.append_assoc, ← hk, hf]
    · exact ⟨0, by rw [List.rdropWhile_concat_neg _ _ _ (by simpa using hf)]; simp⟩

/-- Dropping empty fields at the end leaves fields that end in one that is not empty. -/
theorem rdropWhile_append_replicate {fields : List (List α)}
    (h : ∀ f ∈ fields.getLast?, f ≠ []) (k : ℕ) :
    (fields ++ List.replicate k []).rdropWhile List.isEmpty = fields := by
  induction k with
  | zero =>
    rw [List.replicate_zero, List.append_nil, List.rdropWhile_eq_self_iff]
    exact fun hl => by simpa using h _ (List.getLast?_eq_some_getLast hl)
  | succ k ih =>
    rw [List.replicate_succ', ← List.append_assoc, List.rdropWhile_concat_pos _ _ _ (by simp), ih]

/-! ## Splitting and joining -/

variable [DecidableEq α]

/-- A field has no separator in it. -/
theorem notMem_of_mem_splitOn {s f : List α} (h : f ∈ s.splitOn sep) : sep ∉ f := by
  induction s generalizing f with
  | nil =>
    rw [List.splitOn_nil, List.mem_singleton] at h
    exact h ▸ List.not_mem_nil
  | cons c s ih =>
    rw [List.splitOn_cons_eq_if_modifyHead] at h
    split_ifs at h with hc
    · rcases List.mem_cons.mp h with rfl | h
      · exact List.not_mem_nil
      · exact ih h
    · obtain ⟨g, fields, hfields⟩ := List.exists_cons_of_ne_nil (List.splitOn_ne_nil sep s)
      rw [hfields, List.modifyHead_cons] at h
      rcases List.mem_cons.mp h with rfl | h
      · have hg := ih (hfields ▸ List.mem_cons_self : g ∈ s.splitOn sep)
        have hne : sep ≠ c := fun heq => hc (by simp [heq])
        exact fun hmem => (List.mem_cons.mp hmem).elim hne hg
      · exact ih (hfields ▸ List.mem_cons_of_mem g h)

/-- **Joined fields come back**, whatever separators follow them. -/
theorem split_join {fields : List (List α)} (hne : fields ≠ []) (hsep : ∀ f ∈ fields, sep ∉ f)
    (hlast : ∀ f ∈ fields.getLast?, f ≠ []) (k : ℕ) :
    split sep (join sep fields ++ List.replicate k sep) = fields := by
  have hall : ∀ f ∈ fields ++ List.replicate k [], sep ∉ f := by
    intro f hf
    rcases List.mem_append.mp hf with hf | hf
    · exact hsep f hf
    · exact List.eq_of_mem_replicate hf ▸ List.not_mem_nil
  have hne' : fields ++ List.replicate k [] ≠ [] := List.append_ne_nil_of_left_ne_nil hne _
  have hsplit : (join sep fields ++ List.replicate k sep).splitOn sep
      = fields ++ List.replicate k [] := by
    rw [← join_append_replicate_nil hne]
    exact List.splitOn_intercalate sep hall hne'
  have hjoin : join sep fields ++ List.replicate k sep ≠ [] := by
    intro hnil
    rw [hnil, List.splitOn_nil] at hsplit
    obtain ⟨f, fields, rfl⟩ := List.exists_cons_of_ne_nil hne
    obtain ⟨rfl, hrest⟩ := List.cons.inj hsplit
    obtain rfl := (List.append_eq_nil_iff.mp hrest.symm).1
    exact hlast [] rfl rfl
  rw [split, if_neg hjoin, hsplit, rdropWhile_append_replicate hlast]

/-- **A list is its fields joined**, with separators after them. -/
theorem exists_eq_join_of_split {s : List α} {fields : List (List α)} (h : split sep s = fields)
    (hne : fields ≠ []) (hs : s ≠ []) :
    (∀ f ∈ fields, sep ∉ f) ∧ (∀ f ∈ fields.getLast?, f ≠ []) ∧
      ∃ k, s = join sep fields ++ List.replicate k sep := by
  rw [split, if_neg hs] at h
  obtain ⟨k, hk⟩ := exists_rdropWhile_append (s.splitOn sep)
  rw [h] at hk
  refine ⟨fun f hf => ?_, fun f hf => ?_, k, ?_⟩
  · exact notMem_of_mem_splitOn (hk ▸ List.mem_append_left _ hf)
  · subst h
    obtain ⟨hl, rfl⟩ := List.mem_getLast?_eq_getLast hf
    have hlast := List.rdropWhile_last_not List.isEmpty (s.splitOn sep) hl
    simpa using hlast
  · rw [← join_append_replicate_nil hne, ← hk]
    exact (List.intercalate_splitOn sep).symm

end Kryptan.Fields
