import Kryptan.Sync.SyncAdapter
import Mathlib.Algebra.Order.Group.Multiset
import Mathlib.Tactic.Abel

/-!
# Sync/Merge — applying the choices to the local list

    items ──clicks──▸ items ──applyChoice, one by one──▸ deletePwd(local) · ImportPwd(remote) · …

The user may override any item; then `sendResponseButtonClicked` applies the items to the live list.
**The list ends up with the local sides that were kept and a copy of each remote side that was
chosen** (`foldl_applyChoice`), and no item is left unresolved.
-/

namespace Kryptan

open ConflictChoice Matching

variable {L : Type*}

namespace SyncronizeDesktopActivity

/-- The local list under the merge, and how often `SyncWarning` was shown. -/
structure Merging (L : Type*) where
  list : L
  warnings : ℕ

def applyChoice (C : CorePwdList L) (m : Merging L) (choice : ConflictChoice) : Merging L :=
  if choice.shouldLocalPropagate then m
  else if choice.shouldRemotePropagate then
    let list := choice.mLocal.elim m.list (C.deletePwd m.list)
    let list := choice.mRemote.elim list (C.importPwd list)
    { m with list := list }
  else { m with warnings := m.warnings + 1 }

/-- The loop of `sendResponseButtonClicked`. -/
def applyChoices (C : CorePwdList L) (list : L) (items : List ConflictChoice) : Merging L :=
  items.foldl (applyChoice C) ⟨list, 0⟩

/-- A click on a button of the `i`-th item. -/
def clickItem (items : List ConflictChoice) (b : ℕ × Button) : List ConflictChoice :=
  items.modify b.1 fun c => c.click b.2

/-- A history of clicks. -/
def clickItems (items : List ConflictChoice) (clicks : List (ℕ × Button)) : List ConflictChoice :=
  clicks.foldl clickItem items

end SyncronizeDesktopActivity

open SyncronizeDesktopActivity

/-! ## What becomes of the two sides of an item -/

namespace ConflictChoice

/-- The local side, where the item keeps it. -/
def kept (c : ConflictChoice) : Option CorePwd := if c.shouldLocalPropagate then c.mLocal else none

/-- The remote side, where it alone propagates. -/
def imported (c : ConflictChoice) : Option CorePwd :=
  if !c.shouldLocalPropagate && c.shouldRemotePropagate then c.mRemote else none

end ConflictChoice

/-! ## Clicks -/

/-- A property of items that clicks establish and keep, holds after any history of clicks. -/
theorem forall_mem_clickItems {P : ConflictChoice → Prop} (hP : ∀ c b, P c → P (c.click b))
    {items : List ConflictChoice} (h : ∀ c ∈ items, P c) (clicks : List (ℕ × Button)) :
    ∀ c ∈ clickItems items clicks, P c := by
  induction clicks generalizing items with
  | nil => exact h
  | cons b clicks ih =>
    refine ih fun c hc => ?_
    obtain ⟨i, hi, rfl⟩ := List.mem_iff_getElem.mp hc
    simp only [clickItem, List.length_modify] at hi
    simp only [clickItem, List.getElem_modify]
    split
    · exact hP _ _ (h _ (List.getElem_mem hi))
    · exact h _ (List.getElem_mem hi)

/-- **No history of clicks unsettles an item.** -/
theorem isResolved_clickItems {items : List ConflictChoice} (h : ∀ c ∈ items, c.isResolved = true)
    (clicks : List (ℕ × Button)) : ∀ c ∈ clickItems items clicks, c.isResolved = true :=
  forall_mem_clickItems (P := fun c => c.isResolved = true) (fun c b _ => click_isResolved c b) h
    clicks

/-- **No history of clicks changes the sides of the items.** -/
theorem map_sides_clickItems (items : List ConflictChoice) (clicks : List (ℕ × Button)) :
    (clickItems items clicks).map sides = items.map sides := by
  induction clicks generalizing items with
  | nil => rfl
  | cons b clicks ih =>
    refine (ih _).trans (List.ext_getElem (by simp [clickItem]) fun i hi hi' => ?_)
    rw [List.getElem_map, List.getElem_map]
    simp only [clickItem, List.getElem_modify]
    split <;> simp

/-- The local sides of items, read off their pairs of sides. -/
theorem filterMap_mLocal (items : List ConflictChoice) :
    items.filterMap mLocal = (items.map sides).filterMap Prod.fst := by
  rw [List.filterMap_map]
  rfl

/-- The remote sides of items, read off their pairs of sides. -/
theorem filterMap_mRemote (items : List ConflictChoice) :
    items.filterMap mRemote = (items.map sides).filterMap Prod.snd := by
  rw [List.filterMap_map]
  rfl

/-! ## The items of a list -/

namespace SyncronizeDesktopActivity

open SyncAdapter

/-- The items have the passwords of the list as their local sides. -/
def Covers (C : CorePwdList L) (list : L) (items : List ConflictChoice) : Prop :=
  (items.filterMap mLocal).Perm (C.all list)

theorem covers_of_createSyncItemList {C : CorePwdList L} {list : L} {mLastSync : ℤ}
    {remoteArray : List CorePwd} {items : List ConflictChoice}
    (h : createSyncItemList mLastSync (C.all list) remoteArray = .ok items) :
    Covers C list items := by
  obtain ⟨hsides, -⟩ := createSyncItemList_eq_ok h
  rw [Covers, filterMap_mLocal]
  exact (hsides.filterMap Prod.fst).trans (Matching.pairUp_lefts _ _)

theorem Covers.clickItem {C : CorePwdList L} {list : L} {items : List ConflictChoice}
    (h : Covers C list items) (b : ℕ × Button) : Covers C list (clickItem items b) := by
  have hsides := map_sides_clickItems items [b]
  rw [Covers, filterMap_mLocal] at h ⊢
  exact (List.Perm.of_eq (congrArg _ hsides)).trans h

end SyncronizeDesktopActivity

/-! ## The loop -/

section Loop

variable {C : CorePwdList L} (hC : C.LawfulMerge)

include hC

/-- The local side of an item, if there is one, is removed. -/
theorem elim_deletePwd_perm {list : L} {mLocal : Option CorePwd} {others : List CorePwd}
    (hall : (C.all list).Perm (mLocal.toList ++ others)) :
    (C.all (mLocal.elim list (C.deletePwd list))).Perm others := by
  cases mLocal with
  | none => exact hall
  | some p =>
    have hmem : p ∈ C.all list := hall.mem_iff.mpr List.mem_cons_self
    refine (hC.deletePwd list p hmem).trans ((hall.erase p).trans (.of_eq ?_))
    exact List.erase_cons_head p others

/-- **One choice**: of the passwords in the list, those of the item are kept, or replaced by a copy
of its remote side; the others stay. -/
theorem applyChoice_perm {m : Merging L} {c : ConflictChoice} {others : List CorePwd}
    (hall : (C.all m.list).Perm (c.mLocal.toList ++ others)) (hc : c.isResolved = true) :
    (applyChoice C m c).warnings = m.warnings ∧
      ∃ copies : List CorePwd,
        copies.map CorePwd.data = c.imported.toList.map CorePwd.data ∧
        (C.all (applyChoice C m c).list).Perm (c.kept.toList ++ copies ++ others) := by
  unfold applyChoice ConflictChoice.kept ConflictChoice.imported
  by_cases hl : c.shouldLocalPropagate = true
  · refine ⟨by rw [if_pos hl], [], by simp [hl], ?_⟩
    rw [if_pos hl, if_pos hl, List.append_nil]
    exact hall
  · have hr : c.shouldRemotePropagate = true := by
      simpa [isResolved, shouldLocalPropagate, shouldRemotePropagate] using
        (Bool.or_eq_true_iff.mp hc).resolve_left hl
    rw [if_neg hl, if_pos hr]
    simp only [hl, hr, Bool.not_false, Bool.and_self, if_true, Bool.false_eq_true, if_false]
    refine ⟨trivial, ?_⟩
    have hdel := elim_deletePwd_perm hC hall
    cases hrem : c.mRemote with
    | none => exact ⟨[], rfl, hdel⟩
    | some q =>
      obtain ⟨h, himp⟩ := hC.importPwd (c.mLocal.elim m.list (C.deletePwd m.list)) q
      exact ⟨[⟨h, q.data⟩], rfl, himp.trans (hdel.cons _)⟩

/-- **The loop**: the local sides that are kept stay, a copy of each chosen remote side is added,
and nothing else changes. -/
theorem foldl_applyChoice {items : List ConflictChoice} (hitems : ∀ c ∈ items, c.isResolved = true)
    {m : Merging L} {others : List CorePwd}
    (hall : (C.all m.list).Perm (items.filterMap mLocal ++ others)) :
    (items.foldl (applyChoice C) m).warnings = m.warnings ∧
      ∃ copies : List CorePwd,
        copies.map CorePwd.data = (items.filterMap imported).map CorePwd.data ∧
        (C.all (items.foldl (applyChoice C) m).list).Perm
          (items.filterMap kept ++ copies ++ others) := by
  induction items generalizing m others with
  | nil => exact ⟨rfl, [], rfl, hall⟩
  | cons c items ih =>
    obtain ⟨hc, hitems⟩ := List.forall_mem_cons.mp hitems
    have hhead : ∀ f : ConflictChoice → Option CorePwd,
        (c :: items).filterMap f = (f c).toList ++ items.filterMap f := fun f => by
      cases h : f c <;> simp [h]
    rw [hhead, List.append_assoc] at hall
    obtain ⟨hwarn, cs, hcs, hperm⟩ := applyChoice_perm hC hall hc
    obtain ⟨hwarn', copies, hcopies, hperm'⟩ := ih hitems
      (hperm.trans (List.perm_append_comm_assoc _ _ _))
    refine ⟨hwarn'.trans hwarn, cs ++ copies, ?_, ?_⟩
    · rw [hhead, List.map_append, List.map_append, hcs, hcopies]
    · refine hperm'.trans ?_
      rw [hhead]
      simp only [← Multiset.coe_eq_coe, ← Multiset.coe_add]
      abel

end Loop

/-! ## The sync, from the two lists to the merged one -/

namespace SyncronizeDesktopActivity

open SyncAdapter

/-- A pair of creation time `t`. -/
def isPairAt (t : ℤ) (c : ConflictChoice) : Bool := isPairOf CorePwd.getTimeCreated t c.sides

/-- **The merge loses and duplicates nothing it was not told to.**  The items are a partition of
both lists into pairs of one creation time and single sides, as many pairs as there can be, items
with one flag first; and after any history of clicks every item is settled and the list is what the
flags say. -/
theorem createSyncItemList_merge {C : CorePwdList L} (hC : C.LawfulMerge) (mLastSync : ℤ)
    (localList remoteList : L) :
    ∃ items, createSyncItemList mLastSync (C.all localList) (C.all remoteList) = .ok items ∧
      (items.filterMap mLocal).Perm (C.all localList) ∧
      (items.filterMap mRemote).Perm (C.all remoteList) ∧
      (∀ c ∈ items, ∀ p ∈ c.mLocal, ∀ q ∈ c.mRemote, p.getTimeCreated = q.getTimeCreated) ∧
      (∀ t, items.countP (isPairAt t)
        = min ((C.all localList).countP fun p => p.getTimeCreated = t)
            ((C.all remoteList).countP fun q => q.getTimeCreated = t)) ∧
      (∃ singles doubles, items = singles ++ doubles ∧ (∀ c ∈ singles, nWeights c = 1) ∧
        ∀ c ∈ doubles, nWeights c = 2) ∧
      ∀ clicks, (∀ c ∈ clickItems items clicks, c.isResolved = true) ∧
        (applyChoices C localList (clickItems items clicks)).warnings = 0 ∧
        ∃ copies : List CorePwd,
          copies.map CorePwd.data
            = ((clickItems items clicks).filterMap imported).map CorePwd.data ∧
          (C.all (applyChoices C localList (clickItems items clicks)).list).Perm
            ((clickItems items clicks).filterMap kept ++ copies) := by
  obtain ⟨items, hitems, hsides, hdefault, hsorted⟩ :=
    createSyncItemList_spec mLastSync (C.all localList) (C.all remoteList)
  have hresolved : ∀ c ∈ items, c.isResolved = true := fun c hc => (hdefault c hc).isResolved
  have hlocals : (items.filterMap mLocal).Perm (C.all localList) := by
    rw [filterMap_mLocal]
    exact (hsides.filterMap Prod.fst).trans (pairUp_lefts _ _)
  refine ⟨items, hitems, hlocals, ?_, fun c hc p hp q hq => ?_, fun t => ?_, ?_, fun clicks => ?_⟩
  · rw [filterMap_mRemote]
    exact (hsides.filterMap Prod.snd).trans (.of_eq (pairUp_rights _ _))
  · have hmem : c.sides ∈ pairs (C.all localList) (C.all remoteList) :=
      hsides.mem_iff.mp (List.mem_map_of_mem hc)
    exact (pairable_of_mem_pairs hmem).2 p hp q hq
  · rw [← countP_pairUp (f := CorePwd.getTimeCreated) (g := CorePwd.getTimeCreated),
      ← hsides.countP_eq, List.countP_map]
    rfl
  · exact exists_split_of_pairwise hsorted fun c hc => nWeights_of_isResolved (hresolved c hc)
  · have hclicked := isResolved_clickItems hresolved clicks
    have hall : (C.all localList).Perm ((clickItems items clicks).filterMap mLocal ++ []) := by
      rw [filterMap_mLocal, map_sides_clickItems, ← filterMap_mLocal, List.append_nil]
      exact hlocals.symm
    obtain ⟨hwarn, copies, hcopies, hperm⟩ := foldl_applyChoice hC hclicked hall (m := ⟨_, 0⟩)
    rw [List.append_nil] at hperm
    exact ⟨hclicked, hwarn, copies, hcopies, hperm⟩

/-- A local list of one password and a remote list of two, one of them created at the same time. -/
theorem createSyncItemList_merge_tables :
    ∃ items,
      createSyncItemList 5
          (PwdTable.core.all (PwdTable.empty.add ⟨[1], [], [2], [], 3, 4⟩))
          (PwdTable.core.all ((PwdTable.empty.add ⟨[1], [], [7], [], 3, 6⟩).add
            ⟨[8], [], [9], [], 6, 6⟩)) = .ok items ∧
        items.countP (isPairAt 3) = 1 ∧ items.countP (isPairAt 6) = 0 := by
  obtain ⟨items, hitems, -, -, -, hpairs, -⟩ := createSyncItemList_merge PwdTable.core_lawfulMerge 5
    (PwdTable.empty.add ⟨[1], [], [2], [], 3, 4⟩)
    ((PwdTable.empty.add ⟨[1], [], [7], [], 3, 6⟩).add ⟨[8], [], [9], [], 6, 6⟩)
  exact ⟨items, hitems, (hpairs 3).trans (by decide), (hpairs 6).trans (by decide)⟩

end SyncronizeDesktopActivity

end Kryptan
