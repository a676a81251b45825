import Kryptan.Sync.Merge

/-!
# Sync/BreakOff — the choices, left by an exception

    item 0 ─▸ item 1 ─▸ ‥ ─▸ item i ─╮ deletePwd ─╮ ImportPwd ─▸ item i+1 ─▸ ‥
                                     ╰────────────┴─▸ SyncFailed

`sendResponseButtonClicked` applies the items to the live list one by one, and any native call on the
way may throw.  **The contents are then what they were, but for the sides of the items applied that
take the remote side** (`contents_foldl_applyChoice`).  These items undo one another if they have the
same contents on both sides, counted together (`Undone`); where items are of different creation times
that is to say that each of them has (`undone_iff_of_nodup`).
-/

namespace Kryptan

open ConflictChoice

variable {L : Type*}

/-- The item without its remote side. -/
def ConflictChoice.withoutRemote (c : ConflictChoice) : ConflictChoice := { c with mRemote := none }

namespace SyncronizeDesktopActivity

/-! ## The loop, left -/

/-- Where an exception leaves the loop: behind some items, and in the next one it may have deleted
the local password. -/
structure BreakOff where
  applied : ℕ
  localDeleted : Bool
  deriving DecidableEq, Repr

/-- `applyChoice`, left between `deletePwd` and `ImportPwd`. -/
def deleteLocal (C : CorePwdList L) (list : L) (choice : ConflictChoice) : L :=
  if choice.shouldLocalPropagate then list
  else if choice.shouldRemotePropagate then choice.mLocal.elim list (C.deletePwd list)
  else list

/-- The loop of `sendResponseButtonClicked`, left by an exception. -/
def applyChoicesUpTo (C : CorePwdList L) (list : L) (items : List ConflictChoice) (b : BreakOff) :
    L :=
  let list := (applyChoices C list (items.take b.applied)).list
  match items[b.applied]? with
  | some choice => if b.localDeleted then deleteLocal C list choice else list
  | none => list

/-- The item that it was left in, if its local password may be gone. -/
def BreakOff.halfway (b : BreakOff) (items : List ConflictChoice) : List ConflictChoice :=
  if b.localDeleted then items[b.applied]?.toList else []

/-- The items it has applied.  The one it was left in counts with its local side only. -/
def BreakOff.items (b : BreakOff) (items : List ConflictChoice) : List ConflictChoice :=
  items.take b.applied ++ (b.halfway items).map withoutRemote

theorem applyChoices_append (C : CorePwdList L) (list : L) (items items' : List ConflictChoice) :
    (applyChoices C list (items ++ items')).list
      = (items'.foldl (applyChoice C) (applyChoices C list items)).list := by
  rw [applyChoices, List.foldl_append]
  rfl

/-- An item left halfway is the item without its remote side. -/
theorem deleteLocal_eq (C : CorePwdList L) (m : Merging L) (choice : ConflictChoice) :
    deleteLocal C m.list choice = (applyChoice C m choice.withoutRemote).list := by
  have hl : choice.withoutRemote.shouldLocalPropagate = choice.shouldLocalPropagate := rfl
  have hr : choice.withoutRemote.shouldRemotePropagate = choice.shouldRemotePropagate := rfl
  rw [deleteLocal, applyChoice, hl, hr]
  split_ifs <;> rfl

/-- **Left halfway, the loop has applied its items.** -/
theorem applyChoicesUpTo_eq (C : CorePwdList L) (list : L) (items : List ConflictChoice)
    (b : BreakOff) :
    applyChoicesUpTo C list items b = (applyChoices C list (b.items items)).list := by
  rw [applyChoicesUpTo, BreakOff.items, BreakOff.halfway, applyChoices_append]
  cases items[b.applied]? with
  | none => cases b.localDeleted <;> rfl
  | some choice =>
    cases b.localDeleted with
    | false => rfl
    | true =>
      simp only [if_true, Option.toList_some, List.map_cons, List.map_nil, List.foldl_cons,
        List.foldl_nil]
      exact deleteLocal_eq C _ choice

end SyncronizeDesktopActivity

open SyncronizeDesktopActivity

/-! ## What the items have in common -/

namespace ConflictChoice

/-- The item replaces its local side by its remote side. -/
def takesRemote (c : ConflictChoice) : Bool := !c.shouldLocalPropagate && c.shouldRemotePropagate

/-- The local sides that the items replace. -/
def replaced (items : List ConflictChoice) : List CorePwd :=
  (items.filter takesRemote).filterMap mLocal

/-- The remote sides that they replace them by. -/
def replacing (items : List ConflictChoice) : List CorePwd :=
  (items.filter takesRemote).filterMap mRemote

/-- Among the items that take the remote side, the local contents are the remote contents, in some
order. -/
def Undone (items : List ConflictChoice) : Prop :=
  ((replaced items).map CorePwd.data).Perm ((replacing items).map CorePwd.data)

instance (items : List ConflictChoice) : Decidable (Undone items) :=
  inferInstanceAs (Decidable (List.Perm _ _))

section Append

variable (items items' : List ConflictChoice)

@[simp] theorem replaced_append : replaced (items ++ items') = replaced items ++ replaced items' := by
  simp [replaced]

@[simp] theorem replacing_append :
    replacing (items ++ items') = replacing items ++ replacing items' := by
  simp [replacing]

end Append

variable {c : ConflictChoice} {items : List ConflictChoice}

theorem replaced_cons_of_taken (h : c.takesRemote = true) :
    replaced (c :: items) = c.mLocal.toList ++ replaced items := by
  rw [replaced, List.filter_cons_of_pos h]
  cases hl : c.mLocal <;> simp [hl, replaced]

theorem replacing_cons_of_taken (h : c.takesRemote = true) :
    replacing (c :: items) = c.mRemote.toList ++ replacing items := by
  rw [replacing, List.filter_cons_of_pos h]
  cases hr : c.mRemote <;> simp [hr, replacing]

theorem replaced_cons_of_not (h : ¬ c.takesRemote = true) :
    replaced (c :: items) = replaced items := by
  rw [replaced, List.filter_cons_of_neg h, ← replaced]

theorem replacing_cons_of_not (h : ¬ c.takesRemote = true) :
    replacing (c :: items) = replacing items := by
  rw [replacing, List.filter_cons_of_neg h, ← replacing]

theorem replaced_sublist (items : List ConflictChoice) :
    (replaced items).Sublist (items.filterMap mLocal) :=
  List.filter_sublist.filterMap mLocal

theorem halfway_sublist_drop (b : BreakOff) (items : List ConflictChoice) :
    (b.halfway items).Sublist (items.drop b.applied) := by
  rw [BreakOff.halfway]
  split
  · rw [← List.head?_drop]
    cases items.drop b.applied with
    | nil => exact List.Sublist.refl _
    | cons c rest => exact (List.nil_sublist rest).cons_cons c
  · exact List.nil_sublist _

/-- The items that were applied replace local sides of the items. -/
theorem replaced_items_sublist (b : BreakOff) (items : List ConflictChoice) :
    (replaced (b.items items)).Sublist (items.filterMap mLocal) := by
  have hhalfway : ((b.halfway items).map withoutRemote).filterMap mLocal
      = (b.halfway items).filterMap mLocal := by
    rw [List.filterMap_map]
    rfl
  have hitems : (b.items items).filterMap mLocal
      = (items.take b.applied ++ b.halfway items).filterMap mLocal := by
    rw [BreakOff.items, List.filterMap_append, hhalfway, ← List.filterMap_append]
  have hsub : (items.take b.applied ++ b.halfway items).Sublist items := by
    conv_rhs => rw [← List.take_append_drop b.applied items]
    exact (List.Sublist.refl _).append (halfway_sublist_drop b items)
  refine (replaced_sublist _).trans ?_
  rw [hitems]
  exact hsub.filterMap mLocal

end ConflictChoice

/-! ## What the loop makes of the contents -/

section Contents

variable {C : CorePwdList L} (hC : C.LawfulMerge)

include hC

/-- An item that takes the remote side replaces its local side. -/
theorem all_applyChoice {m : Merging L} {c : ConflictChoice} (hc : c.takesRemote = true)
    {others : List CorePwd} (hall : (C.all m.list).Perm (c.mLocal.toList ++ others)) :
    ∃ copies : List CorePwd, copies.map CorePwd.data = c.mRemote.toList.map CorePwd.data ∧
      (C.all (applyChoice C m c).list).Perm (copies ++ others) := by
  obtain ⟨hl, hr⟩ : c.shouldLocalPropagate = false ∧ c.shouldRemotePropagate = true := by
    simpa [takesRemote] using hc
  have hresolved : c.isResolved = true := Bool.or_eq_true_iff.mpr (.inr hr)
  obtain ⟨-, copies, hcopies, hperm⟩ := applyChoice_perm hC hall hresolved
  have hkept : c.kept = none := if_neg (by simp [hl])
  have himported : c.imported = c.mRemote := if_pos (by simp [hl, hr])
  rw [himported] at hcopies
  rw [hkept, Option.toList_none, List.nil_append] at hperm
  exact ⟨copies, hcopies, hperm⟩

omit hC in
/-- The other items leave the list alone. -/
theorem list_applyChoice_of_not {m : Merging L} {c : ConflictChoice} (hc : ¬ c.takesRemote = true) :
    (applyChoice C m c).list = m.list := by
  rw [applyChoice]
  split_ifs with hl hr
  · rfl
  · exact absurd (by simp [takesRemote, hl, hr]) hc
  · rfl

/-- **What the loop makes of the contents**: what was replaced is missing, what it was replaced by is
there in addition. -/
theorem contents_foldl_applyChoice {items : List ConflictChoice} {m : Merging L}
    {others : List CorePwd} (hall : (C.all m.list).Perm (replaced items ++ others)) :
    (C.contents (items.foldl (applyChoice C) m).list ++ (replaced items).map CorePwd.data).Perm
      (C.contents m.list ++ (replacing items).map CorePwd.data) := by
  induction items generalizing m others with
  | nil => exact List.Perm.refl _
  | cons c items ih =>
    by_cases hc : c.takesRemote = true
    · rw [replaced_cons_of_taken hc, List.append_assoc] at hall
      obtain ⟨copies, hcopies, hperm⟩ := all_applyChoice hC hc hall
      have hrest := ih (hperm.trans (List.perm_append_comm_assoc _ _ _))
      have hbefore := hall.map CorePwd.data
      have hafter := hperm.map CorePwd.data
      rw [List.map_append, hcopies] at hafter
      rw [replaced_cons_of_taken hc, replacing_cons_of_taken hc, List.foldl_cons]
      simp only [CorePwdList.contents, List.map_append, ← Multiset.coe_eq_coe,
        ← Multiset.coe_add] at hrest hbefore hafter ⊢
      rw [hbefore, add_left_comm, hrest, hafter]
      abel
    · rw [replaced_cons_of_not hc] at hall
      rw [replaced_cons_of_not hc, replacing_cons_of_not hc, List.foldl_cons]
      have hsame : (applyChoice C m c).list = m.list := list_applyChoice_of_not hc
      have hrest := ih (m := applyChoice C m c) (hsame ▸ hall)
      rwa [hsame] at hrest

end Contents

/-! ## Item by item -/

namespace ConflictChoice

/-- The sides of an item were created at one time. -/
def SameTime (c : ConflictChoice) : Prop :=
  ∀ p ∈ c.mLocal, ∀ q ∈ c.mRemote, p.getTimeCreated = q.getTimeCreated

/-- When the password of an item was created. -/
def timeCreated (c : ConflictChoice) : Option ℤ :=
  (c.mLocal.or c.mRemote).map CorePwd.getTimeCreated

variable {c c' : ConflictChoice} {items : List ConflictChoice}

/-- Two sides of the same contents are of one item, where the items differ in their times. -/
theorem eq_of_data_eq (hpair : ∀ c ∈ items, c.SameTime)
    (htimes : (items.map timeCreated).Nodup) (hc : c ∈ items) (hc' : c' ∈ items) {p q : CorePwd}
    (hp : c.mLocal = some p) (hq : c'.mRemote = some q) (hdata : p.data = q.data) : c = c' := by
  have hc'time : c'.timeCreated = some q.getTimeCreated := by
    cases hl : c'.mLocal with
    | none => simp [timeCreated, hl, hq]
    | some p' =>
      have hsame := hpair c' hc' p' hl q hq
      simp [timeCreated, hl, hsame]
  refine List.inj_on_of_nodup_map htimes hc hc' ?_
  rw [hc'time, timeCreated, hp]
  exact congrArg (fun d => some d.timeCreated) hdata

/-- **Where the items are of different times, each that takes the remote side has the same contents
on both sides.** -/
theorem undone_iff_of_nodup (hpair : ∀ c ∈ items, c.SameTime)
    (htimes : (items.map timeCreated).Nodup) : Undone items ↔
      ∀ c ∈ items, c.takesRemote = true →
        c.mLocal.map CorePwd.data = c.mRemote.map CorePwd.data := by
  constructor
  · intro h c hc htaken
    have hmem : c ∈ items.filter takesRemote := List.mem_filter.mpr ⟨hc, htaken⟩
    cases hl : c.mLocal with
    | some p =>
      have hp : p.data ∈ (replaced items).map CorePwd.data :=
        List.mem_map_of_mem (List.mem_filterMap.mpr ⟨c, hmem, hl⟩)
      obtain ⟨q, hq, hdata⟩ := List.mem_map.mp (h.mem_iff.mp hp)
      obtain ⟨c', hc', hr⟩ := List.mem_filterMap.mp hq
      obtain rfl := eq_of_data_eq hpair htimes hc (List.mem_filter.mp hc').1 hl hr hdata.symm
      rw [hr, Option.map_some, Option.map_some, hdata]
    | none =>
      cases hr : c.mRemote with
      | none => rfl
      | some q =>
        have hq : q.data ∈ (replacing items).map CorePwd.data :=
          List.mem_map_of_mem (List.mem_filterMap.mpr ⟨c, hmem, hr⟩)
        obtain ⟨p, hp, hdata⟩ := List.mem_map.mp (h.mem_iff.mpr hq)
        obtain ⟨c', hc', hl'⟩ := List.mem_filterMap.mp hp
        obtain rfl := eq_of_data_eq hpair htimes (List.mem_filter.mp hc').1 hc hl' hr hdata
        exact absurd (hl.symm.trans hl') (Option.some_ne_none p).symm
  · intro h
    have hsides : (items.filter takesRemote).map (fun c => c.mLocal.map CorePwd.data)
        = (items.filter takesRemote).map fun c => c.mRemote.map CorePwd.data :=
      List.map_congr_left fun c hc => h c (List.mem_filter.mp hc).1 (List.mem_filter.mp hc).2
    have hdata : ∀ f : ConflictChoice → Option CorePwd,
        ((items.filter takesRemote).filterMap f).map CorePwd.data
          = ((items.filter takesRemote).map fun c => (f c).map CorePwd.data).filterMap id := by
      intro f
      rw [List.map_filterMap, List.filterMap_map]
      rfl
    rw [Undone, replaced, replacing, hdata, hdata, hsides]

end ConflictChoice

end Kryptan
