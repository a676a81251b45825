import Kryptan.Sync.SyncAdapter

/-!
# Sync/Symmetry — both sides compute the same proposal

    createSyncItemList s A B :  (a, b)   (a, –)   (–, b)
                                  ⇅        ⇅        ⇅      mirror
    createSyncItemList s B A :  (b, a)   (–, a)   (b, –)

The two loops are not symmetric: they go through the remote list and take the partners out of the
local one.  The pairing they compute is (`pairUp_swap`), and so is each branch of the default choice
(`new_swap`), so that **the items of the two sides are mirror images** of each other
(`createSyncItemList_mirror`).
-/

namespace Kryptan

open Matching

namespace ConflictChoice

/-- The item as the other side has it. -/
def mirror (c : ConflictChoice) : ConflictChoice where
  mLocal := c.mRemote
  mRemote := c.mLocal
  mLocalPropogation := c.mRemotePropogation
  mRemotePropogation := c.mLocalPropogation
  mLastSyncDate := c.mLastSyncDate
  mLocalTooltip := c.mRemoteTooltip
  mRemoteTooltip := c.mLocalTooltip

/-! ## The default choice -/

/-- A password on one side only gets the mirrored proposal when it is on the other side. -/
theorem new_swap_one (lastSyncDate : ℤ) (p : CorePwd) :
    new lastSyncDate (some p) none = (new lastSyncDate none (some p)).map mirror := by
  unfold new makeDefaultChoice
  dsimp only
  split_ifs <;> rfl

/-- So does a pair of passwords, whichever is the later one. -/
theorem new_swap_both (lastSyncDate : ℤ) (p q : CorePwd) :
    new lastSyncDate (some q) (some p) = (new lastSyncDate (some p) (some q)).map mirror := by
  unfold new makeDefaultChoice
  dsimp only
  rcases ne_or_eq p.getTimeCreated q.getTimeCreated with hcreated | hcreated
  · rw [if_pos hcreated, if_pos hcreated.symm]
    rfl
  · rw [if_neg (not_not.mpr hcreated), if_neg (not_not.mpr hcreated.symm)]
    rcases lt_trichotomy p.getTimeModified q.getTimeModified with hlt | heq | hgt
    · rw [if_neg hlt.ne', if_neg hlt.not_gt, if_neg hlt.ne, if_pos hlt]
      rfl
    · rw [if_pos heq.symm, if_pos heq]
      rfl
    · rw [if_neg hgt.ne, if_pos hgt, if_neg hgt.ne', if_neg hgt.not_gt]
      rfl

/-- **The constructor treats both sides alike.** -/
theorem new_swap (lastSyncDate : ℤ) (mLocal mRemote : Option CorePwd) :
    new lastSyncDate mRemote mLocal = (new lastSyncDate mLocal mRemote).map mirror := by
  cases mLocal with
  | none =>
    cases mRemote with
    | none => rfl
    | some q => exact new_swap_one lastSyncDate q
  | some p =>
    cases mRemote with
    | none =>
      rw [new_swap_one]
      cases new lastSyncDate none (some p) <;> rfl
    | some q => exact new_swap_both lastSyncDate p q

end ConflictChoice

namespace SyncAdapter

/-! ## The list of items -/

/-- Default items are given by their sides. -/
theorem map_ok_of_isDefault {mLastSync : ℤ} {items : List ConflictChoice}
    (h : ∀ c ∈ items, c.IsDefault mLastSync) :
    items.map Except.ok
      = (items.map ConflictChoice.sides).map fun p => ConflictChoice.new mLastSync p.1 p.2 := by
  rw [List.map_map]
  exact List.map_congr_left fun c hc => (h c hc).symm

/-- **The proposal does not depend on which side computes it**: exchanging the two lists exchanges
the sides, the flags and the tooltips of every item, and nothing else. -/
theorem createSyncItemList_mirror (mLastSync : ℤ) (localArray remoteArray : List CorePwd) :
    ∃ items items', createSyncItemList mLastSync localArray remoteArray = .ok items ∧
      createSyncItemList mLastSync remoteArray localArray = .ok items' ∧
      items.Perm (items'.map ConflictChoice.mirror) := by
  obtain ⟨items, hitems, hsides, hdefault, -⟩ :=
    createSyncItemList_spec mLastSync localArray remoteArray
  obtain ⟨items', hitems', hsides', hdefault', -⟩ :=
    createSyncItemList_spec mLastSync remoteArray localArray
  refine ⟨items, items', hitems, hitems', ?_⟩
  have hpairs : (items.map ConflictChoice.sides).Perm
      ((items'.map ConflictChoice.sides).map Prod.swap) :=
    hsides.trans ((pairUp_swap localArray remoteArray).trans (hsides'.symm.map Prod.swap))
  have hmirror : ((items'.map ConflictChoice.sides).map Prod.swap).map
      (fun p => ConflictChoice.new mLastSync p.1 p.2)
        = (items'.map ConflictChoice.mirror).map Except.ok := by
    rw [List.map_map, List.map_map, List.map_map]
    refine List.map_congr_left fun c hc => ?_
    calc ConflictChoice.new mLastSync c.mRemote c.mLocal
        = (ConflictChoice.new mLastSync c.mLocal c.mRemote).map ConflictChoice.mirror :=
          ConflictChoice.new_swap mLastSync c.mLocal c.mRemote
      _ = .ok c.mirror := by rw [hdefault' c hc]; rfl
  have hinj : Function.Injective (Except.ok : ConflictChoice → Except String ConflictChoice) :=
    fun _ _ => Except.ok.inj
  refine (List.map_perm_map_iff hinj).mp ?_
  rw [map_ok_of_isDefault hdefault, ← hmirror]
  exact hpairs.map _

end SyncAdapter

end Kryptan
