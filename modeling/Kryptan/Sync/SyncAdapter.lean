import Kryptan.Machinery.Matching
import Kryptan.Sync.ConflictChoice
import Mathlib.Data.List.Sort

/-!
# Sync/SyncAdapter — the items of a sync

    remotes: r₁ r₂ … ──▸ first local of the same creation time, taken out of the local array
    locals that are left over ──▸ alone                                 ──▸ SortItems

`createSyncItemList` runs over the remote passwords and takes their partners out of the local array
as it goes; the items are then sorted by how many of their flags are set.  Up to that order **it
computes the pairing of `Matching.pairUp`** (`createSyncItemList_spec`) and never throws.
-/

namespace Kryptan

open Matching

namespace SyncAdapter

/-- The pairing of two lists by creation time. -/
abbrev pairs (localArray remoteArray : List CorePwd) : List (Option CorePwd × Option CorePwd) :=
  pairUp CorePwd.getTimeCreated CorePwd.getTimeCreated localArray remoteArray

/-- The two loops of `createSyncItemList`: over the remote passwords, and over the local ones that
are left. -/
def pairRemotes (mLastSync : ℤ) :
    List CorePwd → List CorePwd → Except String (List ConflictChoice)
  | localArray, [] =>
    localArray.mapM fun currLocal => ConflictChoice.new mLastSync (some currLocal) none
  | localArray, currRemote :: remoteArray => do
    let localMatch := localArray.find? fun currLocal =>
      currRemote.getTimeCreated = currLocal.getTimeCreated
    let localArray := localMatch.elim localArray localArray.erase
    let item ← ConflictChoice.new mLastSync localMatch (some currRemote)
    let mSyncItems ← pairRemotes mLastSync localArray remoteArray
    return item :: mSyncItems

/-- How many flags of an item are set. -/
def nWeights (c : ConflictChoice) : ℕ :=
  (if c.shouldLocalPropagate then 1 else 0) + (if c.shouldRemotePropagate then 1 else 0)

/-- `Collections.sort` with the comparator of the weights. -/
def sortItems (mSyncItems : List ConflictChoice) : List ConflictChoice :=
  mSyncItems.insertionSort fun lhs rhs => nWeights lhs ≤ nWeights rhs

def createSyncItemList (mLastSync : ℤ) (localArray remoteArray : List CorePwd) :
    Except String (List ConflictChoice) := do
  let mSyncItems ← pairRemotes mLastSync localArray remoteArray
  return sortItems mSyncItems

/-! ## The loops compute the pairing -/

/-- One turn of the loop takes the partner out as `pairUp` does. -/
theorem elim_erase_eq_eraseP (localArray : List CorePwd) (currRemote : CorePwd) :
    (localArray.find? fun currLocal =>
        currRemote.getTimeCreated = currLocal.getTimeCreated).elim localArray localArray.erase
      = localArray.eraseP fun currLocal =>
        currLocal.getTimeCreated = currRemote.getTimeCreated := by
  simp only [eq_comm (a := currRemote.getTimeCreated)]
  cases h : localArray.find? fun currLocal =>
      decide (currLocal.getTimeCreated = currRemote.getTimeCreated) with
  | none =>
    rw [List.eraseP_of_forall_not fun a ha => by simpa using List.find?_eq_none.mp h a ha]
    rfl
  | some p => exact erase_of_find?_eq_some h

/-- The loops build the item of each pair. -/
theorem pairRemotes_eq_mapM (mLastSync : ℤ) (localArray remoteArray : List CorePwd) :
    pairRemotes mLastSync localArray remoteArray
      = (pairs localArray remoteArray).mapM fun p => ConflictChoice.new mLastSync p.1 p.2 := by
  induction remoteArray generalizing localArray with
  | nil =>
    rw [pairRemotes, pairs, pairUp_nil, List.mapM_map]
    rfl
  | cons currRemote remoteArray ih =>
    rw [pairRemotes, pairs, pairUp_cons, List.mapM_cons]
    dsimp only
    rw [elim_erase_eq_eraseP, ih]
    simp only [eq_comm (a := currRemote.getTimeCreated)]

/-- Building the items of pairs that may be paired. -/
theorem exists_mapM_new (mLastSync : ℤ) {ps : List (Option CorePwd × Option CorePwd)}
    (h : ∀ p ∈ ps, ConflictChoice.Pairable p.1 p.2) :
    ∃ items, (ps.mapM fun p => ConflictChoice.new mLastSync p.1 p.2) = .ok items ∧
      items.map ConflictChoice.sides = ps ∧ ∀ c ∈ items, c.IsDefault mLastSync := by
  induction ps with
  | nil => exact ⟨[], rfl, rfl, fun c hc => absurd hc List.not_mem_nil⟩
  | cons p ps ih =>
    obtain ⟨c, hc⟩ := ConflictChoice.exists_new mLastSync (h p List.mem_cons_self)
    obtain ⟨items, hitems, hsides, hdefault⟩ := ih fun q hq => h q (List.mem_cons_of_mem p hq)
    refine ⟨c :: items, by rw [List.mapM_cons, hc, hitems]; rfl, ?_, fun d hd => ?_⟩
    · rw [List.map_cons, hsides, (ConflictChoice.new_eq_ok hc).1]
    · rcases List.mem_cons.mp hd with rfl | hd
      · exact ConflictChoice.isDefault_of_new hc
      · exact hdefault d hd

theorem pairable_of_mem_pairs {localArray remoteArray : List CorePwd}
    {p : Option CorePwd × Option CorePwd} (hp : p ∈ pairs localArray remoteArray) :
    ConflictChoice.Pairable p.1 p.2 := by
  refine ⟨?_, fun a ha b hb => ?_⟩
  · by_contra hnone
    rw [not_or, not_not, not_not] at hnone
    exact not_none_none_mem_pairUp localArray remoteArray
      ((Prod.ext hnone.1 hnone.2 : p = (none, none)) ▸ hp)
  · exact pairUp_key ((Prod.ext ha hb : p = (some a, some b)) ▸ hp)

/-! ## The order of the items -/

theorem nWeights_of_isResolved {c : ConflictChoice} (h : c.isResolved = true) :
    nWeights c = 1 ∨ nWeights c = 2 := by
  unfold nWeights ConflictChoice.shouldLocalPropagate ConflictChoice.shouldRemotePropagate
  unfold ConflictChoice.isResolved at h
  cases hl : c.mLocalPropogation <;> cases hr : c.mRemotePropogation <;> simp_all

theorem sortItems_perm (items : List ConflictChoice) : (sortItems items).Perm items :=
  List.perm_insertionSort _ _

/-- Light items first. -/
theorem sortItems_pairwise (items : List ConflictChoice) :
    (sortItems items).Pairwise fun c d => nWeights c ≤ nWeights d :=
  List.pairwise_insertionSort _ _

/-- A list sorted by the two weights 1 and 2 is the items of weight 1 followed by those of
weight 2. -/
theorem exists_split_of_pairwise {items : List ConflictChoice}
    (hsorted : items.Pairwise fun c d => nWeights c ≤ nWeights d)
    (hweights : ∀ c ∈ items, nWeights c = 1 ∨ nWeights c = 2) :
    ∃ singles doubles, items = singles ++ doubles ∧ (∀ c ∈ singles, nWeights c = 1) ∧
      ∀ c ∈ doubles, nWeights c = 2 := by
  induction items with
  | nil => exact ⟨[], [], rfl, by simp, by simp⟩
  | cons c items ih =>
    obtain ⟨hc, htail⟩ := List.pairwise_cons.mp hsorted
    rcases hweights c List.mem_cons_self with h1 | h2
    · obtain ⟨singles, doubles, rfl, hs, hd⟩ :=
        ih htail fun d hd => hweights d (List.mem_cons_of_mem c hd)
      exact ⟨c :: singles, doubles, rfl, List.forall_mem_cons.mpr ⟨h1, hs⟩, hd⟩
    · refine ⟨[], c :: items, rfl, by simp, List.forall_mem_cons.mpr ⟨h2, fun d hd => ?_⟩⟩
      have hle := hc d hd
      rcases hweights d (List.mem_cons_of_mem c hd) with h | h <;> omega

/-! ## The list of items -/

/-- **`createSyncItemList` never throws; its items are the default choices of the pairs, light ones
first.** -/
theorem createSyncItemList_spec (mLastSync : ℤ) (localArray remoteArray : List CorePwd) :
    ∃ items, createSyncItemList mLastSync localArray remoteArray = .ok items ∧
      (items.map ConflictChoice.sides).Perm (pairs localArray remoteArray) ∧
      (∀ c ∈ items, c.IsDefault mLastSync) ∧
      items.Pairwise fun c d => nWeights c ≤ nWeights d := by
  obtain ⟨items, hitems, hsides, hdefault⟩ := exists_mapM_new mLastSync
    fun p (hp : p ∈ pairs localArray remoteArray) => pairable_of_mem_pairs hp
  refine ⟨sortItems items, ?_, ?_, fun c hc => ?_, sortItems_pairwise items⟩
  · rw [createSyncItemList, pairRemotes_eq_mapM, hitems]
    rfl
  · exact hsides ▸ (sortItems_perm items).map ConflictChoice.sides
  · exact hdefault c ((sortItems_perm items).mem_iff.mp hc)

/-- What the items are, read off a list that `createSyncItemList` returned. -/
theorem createSyncItemList_eq_ok {mLastSync : ℤ} {localArray remoteArray : List CorePwd}
    {items : List ConflictChoice}
    (hitems : createSyncItemList mLastSync localArray remoteArray = .ok items) :
    (items.map ConflictChoice.sides).Perm (pairs localArray remoteArray) ∧
      (∀ c ∈ items, c.IsDefault mLastSync) ∧
      items.Pairwise fun c d => nWeights c ≤ nWeights d := by
  obtain ⟨items', hitems', hspec⟩ := createSyncItemList_spec mLastSync localArray remoteArray
  obtain rfl := Except.ok.inj (hitems.symm.trans hitems')
  exact hspec

end SyncAdapter

end Kryptan
