import Kryptan.Sync.OneSided

/-!
# Sync/DefaultMerge — what the default choices make of two lists

    local {p₁, p₂} ──defaults──▸ merged ──defaults, same remote──▸ merged
    remote {q₂, q₃} ── adopts ──▸ copy  ──defaults, any last sync──▸ merged

Where each list has every creation time once, the default merge leaves of each time the later one of
the two sides (`le_of_mem_default`), and drops a time exactly when one list alone has it and it lies
before the last sync (`mem_times_default_iff`).  So **a second merge finds nothing left to do**
(`default_merge_stable`), and an edit made since the last sync is lost only to a deletion
(`default_merge_keeps_edits`).
-/

namespace Kryptan

open ConflictChoice Matching SyncAdapter SyncronizeDesktopActivity

variable {L : Type*}

/-! ## The default choice -/

namespace ConflictChoice

/-- Of two sides the later one propagates, and both do where they are equally old. -/
theorem IsDefault.both {lastSyncDate : ℤ} {c : ConflictChoice} (h : c.IsDefault lastSyncDate)
    {p q : CorePwd} (hs : c.sides = (some p, some q)) :
    c.shouldLocalPropagate = decide (q.getTimeModified ≤ p.getTimeModified) ∧
      c.shouldRemotePropagate = decide (p.getTimeModified ≤ q.getTimeModified) := by
  obtain ⟨hl, hr⟩ := Prod.mk.inj hs
  rw [IsDefault, hl, hr, new, makeDefaultChoice] at h
  dsimp only at h
  split_ifs at h with hcreated heq hlt <;> rw [← Except.ok.inj h] <;>
    simp only [propose, shouldLocalPropagate, shouldRemotePropagate, setLocalPropagation,
      setRemotePropagation, eq_comm (a := true), eq_comm (a := false), decide_eq_true_eq,
      decide_eq_false_iff_not] <;> omega

/-- A password of one side only is kept from propagating exactly when it is old. -/
theorem IsDefault.shouldLocalPropagate_single {lastSyncDate : ℤ} {c : ConflictChoice}
    (h : c.IsDefault lastSyncDate) {p : CorePwd} (hp : c.single = some p) :
    c.shouldLocalPropagate = true ↔
      (c.mLocal = none ↔ lastSyncDate ≠ 0 ∧ p.getTimeCreated < lastSyncDate) := by
  rcases single_eq_some.mp hp with hs | hs <;> obtain ⟨hl, hr⟩ := Prod.mk.inj hs
  · obtain ⟨hremote, hlocal⟩ := h.local_only hl hr
    rw [hlocal, hremote, Bool.not_eq_true', decide_eq_false_iff_not, hl]
    simp
  · rw [(h.remote_only hl hr).1, decide_eq_true_iff, hl]
    simp

/-- A local side that is kept is at least as late as the remote one. -/
theorem IsDefault.le_of_kept {lastSyncDate : ℤ} {c : ConflictChoice} (h : c.IsDefault lastSyncDate)
    {l q : CorePwd} (hk : c.kept = some l) (hr : c.mRemote = some q) :
    q.getTimeModified ≤ l.getTimeModified := by
  have hsides : c.sides = (some l, some q) := by rw [sides, mLocal_of_kept hk, hr]
  obtain ⟨hlocal, -⟩ := h.both hsides
  by_contra hlt
  rw [decide_eq_false hlt] at hlocal
  simp [kept, hlocal] at hk

/-- A remote side that is imported is later than the local one. -/
theorem IsDefault.le_of_imported {lastSyncDate : ℤ} {c : ConflictChoice}
    (h : c.IsDefault lastSyncDate) {l q : CorePwd} (hi : c.imported = some q)
    (hl : c.mLocal = some l) : l.getTimeModified ≤ q.getTimeModified := by
  have hsides : c.sides = (some l, some q) := by rw [sides, mRemote_of_imported hi, hl]
  obtain ⟨hlocal, -⟩ := h.both hsides
  have hlt : ¬ q.getTimeModified ≤ l.getTimeModified := by
    intro hle
    rw [decide_eq_true hle] at hlocal
    simp [imported, hlocal] at hi
  exact (not_le.mp hlt).le

/-- **What a default item leaves is at least as late as each of its sides.** -/
theorem IsDefault.le_result {lastSyncDate : ℤ} {c : ConflictChoice} (h : c.IsDefault lastSyncDate)
    {r : CorePwd} (hr : c.result = some r) {p : CorePwd}
    (hp : c.mLocal = some p ∨ c.mRemote = some p) : p.getTimeModified ≤ r.getTimeModified := by
  rcases result_eq_some.mp hr with hk | hi
  · rcases hp with hl | hrem
    · obtain rfl := Option.some.inj ((mLocal_of_kept hk).symm.trans hl)
      exact le_refl _
    · exact h.le_of_kept hk hrem
  · rcases hp with hl | hrem
    · exact h.le_of_imported hi hl
    · obtain rfl := Option.some.inj ((mRemote_of_imported hi).symm.trans hrem)
      exact le_refl _

end ConflictChoice

/-! ## The merged list -/

section Merged

variable {C : CorePwdList L} {mLastSync : ℤ} {list : L} {remotes : List CorePwd}
  {items : List ConflictChoice}

/-- A password of the merged list is what an item left. -/
theorem exists_result_of_mem (hC : C.LawfulMerge)
    (hitems : createSyncItemList mLastSync (C.all list) remotes = .ok items) {p : CorePwd}
    (hp : p ∈ C.all (applyChoices C list items).list) :
    ∃ c ∈ items, ∃ r, c.result = some r ∧ r.data = p.data := by
  have hdata : p.data ∈ C.contents (applyChoices C list items).list := List.mem_map_of_mem hp
  obtain ⟨r, hr, heq⟩ := List.mem_map.mp ((contents_applyChoices hC hitems []).mem_iff.mp hdata)
  obtain ⟨c, hc, hres⟩ := List.mem_filterMap.mp hr
  exact ⟨c, hc, r, hres, heq⟩

section Nodup

variable (hC : C.LawfulMerge) (hlocals : (times (C.all list)).Nodup)
  (hremotes : (times remotes).Nodup)
  (hitems : createSyncItemList mLastSync (C.all list) remotes = .ok items)

include hC hlocals hremotes hitems

/-- An item whose creation time the merged list has, left the password of that time. -/
theorem exists_result_of_getTimeCreated {p : CorePwd}
    (hp : p ∈ C.all (applyChoices C list items).list) {d : ConflictChoice} (hd : d ∈ items)
    (htime : d.getTimeCreated = some p.getTimeCreated) :
    ∃ r, d.result = some r ∧ r.data = p.data := by
  obtain ⟨c, hc, r, hres, hdata⟩ := exists_result_of_mem hC hitems hp
  have hclicked : c ∈ clickItems items [] := hc
  have hpair := pairable_of_mem_pairs (sides_mem_pairs hitems hclicked)
  have hcreated : r.getTimeCreated = p.getTimeCreated := congrArg PwdData.timeCreated hdata
  have hsame : c.getTimeCreated = d.getTimeCreated := by
    rw [getTimeCreated_of_result hpair.2 hres, hcreated, htime]
  have hnodup : (items.map ConflictChoice.getTimeCreated).Nodup :=
    nodup_map_getTimeCreated hlocals hremotes hitems []
  obtain rfl := List.inj_on_of_nodup_map hnodup hc hd hsame
  exact ⟨r, hres, hdata⟩

/-- **What the default merge leaves of a creation time is at least as late as what either list
had.** -/
theorem le_of_mem_default {p x : CorePwd} (hp : p ∈ C.all (applyChoices C list items).list)
    (hx : x ∈ C.all list ∨ x ∈ remotes) (htime : x.getTimeCreated = p.getTimeCreated) :
    x.getTimeModified ≤ p.getTimeModified := by
  obtain ⟨-, hdefault, -⟩ := createSyncItemList_eq_ok hitems
  obtain ⟨d, hd, hside⟩ : ∃ d ∈ items, d.mLocal = some x ∨ d.mRemote = some x := by
    rcases hx with hx | hx
    · obtain ⟨d, hd, hl⟩ := exists_mLocal hitems hx
      exact ⟨d, hd, .inl hl⟩
    · obtain ⟨d, hd, hr⟩ := exists_mRemote hitems hx
      exact ⟨d, hd, .inr hr⟩
  obtain ⟨r, hres, hdata⟩ := exists_result_of_getTimeCreated hC hlocals hremotes hitems hp hd
    (htime ▸ getTimeCreated_of_side hitems hd hside)
  have hmodified : r.getTimeModified = p.getTimeModified := congrArg PwdData.timeModified hdata
  exact hmodified ▸ (hdefault d hd).le_result hres hside

/-- **The default merge drops exactly** the times of one list alone that lie before the last
sync. -/
theorem mem_times_default_iff {t : ℤ} :
    t ∈ times (C.all (applyChoices C list items).list) ↔
      (t ∈ times (C.all list) ∨ t ∈ times remotes) ∧
        ¬ (Alone (times (C.all list)) (times remotes) t ∧ mLastSync ≠ 0 ∧ t < mLastSync) := by
  constructor
  · intro ht
    have hclicked : t ∈ times (C.all (applyChoices C list (clickItems items [])).list) := ht
    refine ⟨mem_times_of_applyChoices hC hitems hclicked, fun ⟨halone, hold⟩ => ?_⟩
    obtain ⟨p, hp, rfl⟩ := mem_times.mp ht
    obtain ⟨-, hdefault, -⟩ := createSyncItemList_eq_ok hitems
    obtain ⟨d, hd, x, hx, htime⟩ := (exists_single_iff hlocals hremotes hitems).mpr halone
    have hdrops := ((hdefault d hd).drops_iff hx).mpr (htime ▸ hold)
    obtain ⟨r, hres, -⟩ := exists_result_of_getTimeCreated hC hlocals hremotes hitems hp hd
      (htime ▸ getTimeCreated_of_single hx)
    exact absurd ((Option.or_eq_none_iff.mpr hdrops).symm.trans hres) (by simp)
  · rintro ⟨ht, hkept⟩
    exact mem_times_default_of_kept hC hlocals hremotes hitems ht fun halone hold =>
      hkept ⟨halone, hold⟩

end Nodup

/-! ## The second merge -/

/-- Choices that all keep the local side leave the list alone: no native method is called. -/
theorem applyChoices_of_shouldLocalPropagate (C : CorePwdList L) (list : L)
    {items : List ConflictChoice} (h : ∀ c ∈ items, c.shouldLocalPropagate = true) :
    applyChoices C list items = ⟨list, 0⟩ := by
  unfold applyChoices
  induction items with
  | nil => rfl
  | cons c items ih =>
    obtain ⟨hc, hrest⟩ := List.forall_mem_cons.mp h
    rw [List.foldl_cons, applyChoice, if_pos hc]
    exact ih hrest

/-- **After a default merge every default choice keeps the local side.** -/
theorem shouldLocalPropagate_second (hC : C.LawfulMerge) (hlocals : (times (C.all list)).Nodup)
    (hremotes : (times remotes).Nodup)
    (hitems : createSyncItemList mLastSync (C.all list) remotes = .ok items)
    {items' : List ConflictChoice}
    (hitems' : createSyncItemList mLastSync (C.all (applyChoices C list items).list) remotes
      = .ok items') : ∀ c ∈ items', c.shouldLocalPropagate = true := by
  intro c hc
  obtain ⟨-, hdefault, -⟩ := createSyncItemList_eq_ok hitems'
  have hmerged : (times (C.all (applyChoices C list items).list)).Nodup :=
    nodup_applyChoices hC hlocals hremotes hitems []
  have hclicked : c ∈ clickItems items' [] := hc
  have hpair := sides_mem_pairs hitems' hclicked
  have hdropped := fun t => mem_times_default_iff hC hlocals hremotes hitems (t := t)
  rcases hsingle : c.single with _ | x
  · -- both sides: what the first merge left is at least as late
    obtain ⟨p, q, hs⟩ := exists_sides_of_single (pairable_of_mem_pairs hpair).1 hsingle
    rw [hs] at hpair
    have hle := le_of_mem_default hC hlocals hremotes hitems (left_mem hpair)
      (.inr (right_mem hpair)) (pairUp_key hpair).symm
    rw [((hdefault c hc).both hs).1, decide_eq_true hle]
  · rw [(hdefault c hc).shouldLocalPropagate_single hsingle]
    rcases single_eq_some.mp hsingle with hs | hs <;> rw [hs] at hpair
    · -- the merged list alone has it: then the local list had, and it is not old
      obtain ⟨hx, hnot⟩ := (left_mem_pairs hmerged hremotes).mp hpair
      obtain ⟨hmem, hkept⟩ := (hdropped _).mp (mem_times.mpr ⟨x, hx, rfl⟩)
      have hl : c.mLocal ≠ none := fun h => by simp [sides, h] at hs
      exact iff_of_false hl fun hold => hkept ⟨.inl ⟨hmem.resolve_right hnot, hnot⟩, hold⟩
    · -- the remote list alone has it: then the first merge dropped it
      obtain ⟨hx, hnot⟩ := (right_mem_pairs hmerged hremotes).mp hpair
      rw [hdropped, not_and, not_not] at hnot
      exact iff_of_true (Prod.mk.inj hs).1 (hnot (.inr (mem_times.mpr ⟨x, hx, rfl⟩))).2

/-- **Two lists of the same contents have nothing to merge**: every item has both flags set. -/
theorem propagate_both_of_contents_perm {locals copies : List CorePwd}
    (hlocals : (times locals).Nodup)
    (hcopies : (copies.map CorePwd.data).Perm (locals.map CorePwd.data))
    (hitems : createSyncItemList mLastSync locals copies = .ok items) :
    ∀ c ∈ items, c.shouldLocalPropagate = true ∧ c.shouldRemotePropagate = true := by
  intro c hc
  obtain ⟨-, hdefault, -⟩ := createSyncItemList_eq_ok hitems
  have htimes : (times copies).Perm (times locals) := by
    have hdata : ∀ l : List CorePwd, times l = (l.map CorePwd.data).map PwdData.timeCreated :=
      fun l => (List.map_map ..).symm
    rw [hdata, hdata]
    exact hcopies.map _
  have hcopyTimes : (times copies).Nodup := htimes.nodup_iff.mpr hlocals
  have hclicked : c ∈ clickItems items [] := hc
  have hpair := sides_mem_pairs hitems hclicked
  rcases hsingle : c.single with _ | x
  · obtain ⟨p, q, hs⟩ := exists_sides_of_single (pairable_of_mem_pairs hpair).1 hsingle
    rw [hs] at hpair
    obtain ⟨p', hp', hdata⟩ := List.mem_map.mp
      (hcopies.mem_iff.mp (List.mem_map_of_mem (f := CorePwd.data) (right_mem hpair)))
    have hcreated : p'.getTimeCreated = p.getTimeCreated :=
      (congrArg PwdData.timeCreated hdata).trans (pairUp_key hpair).symm
    obtain rfl := List.inj_on_of_nodup_map hlocals hp' (left_mem hpair) hcreated
    have hmodified : p'.getTimeModified = q.getTimeModified :=
      congrArg PwdData.timeModified hdata
    rw [((hdefault c hc).both hs).1, ((hdefault c hc).both hs).2, hmodified]
    simp
  · rcases (exists_single_iff hlocals hcopyTimes hitems).mp ⟨c, hc, x, hsingle, rfl⟩ with h | h
    · exact absurd (htimes.mem_iff.mpr h.1) h.2
    · exact absurd (htimes.mem_iff.mp h.2) h.1

/-- **Default merging is stable.**  Repeating the merge against the same remote list changes
nothing; and once the remote has a copy of the merged list, no merge of the two, after whatever last
sync, has anything left to decide or to change. -/
theorem default_merge_stable (hC : C.LawfulMerge) (mLastSync : ℤ)
    (hlocals : (times (C.all list)).Nodup) (hremotes : (times remotes).Nodup) :
    ∃ items, createSyncItemList mLastSync (C.all list) remotes = .ok items ∧
      (∃ items',
        createSyncItemList mLastSync (C.all (applyChoices C list items).list) remotes = .ok items' ∧
        (applyChoices C (applyChoices C list items).list items').list
          = (applyChoices C list items).list) ∧
      ∀ copies : List CorePwd,
        (copies.map CorePwd.data).Perm (C.contents (applyChoices C list items).list) →
        ∀ mLastSync', ∃ items',
          createSyncItemList mLastSync' (C.all (applyChoices C list items).list) copies
            = .ok items' ∧
          (∀ c ∈ items', c.shouldLocalPropagate = true ∧ c.shouldRemotePropagate = true) ∧
          (applyChoices C (applyChoices C list items).list items').list
            = (applyChoices C list items).list := by
  obtain ⟨items, hitems, -⟩ := createSyncItemList_spec mLastSync (C.all list) remotes
  have hmerged := nodup_applyChoices hC hlocals hremotes hitems []
  refine ⟨items, hitems, ?_, fun copies hcopies mLastSync' => ?_⟩
  · obtain ⟨items', hitems', -⟩ :=
      createSyncItemList_spec mLastSync (C.all (applyChoices C list items).list) remotes
    refine ⟨items', hitems', ?_⟩
    rw [applyChoices_of_shouldLocalPropagate C _
      (shouldLocalPropagate_second hC hlocals hremotes hitems hitems')]
  · obtain ⟨items', hitems', -⟩ :=
      createSyncItemList_spec mLastSync' (C.all (applyChoices C list items).list) copies
    have hboth := propagate_both_of_contents_perm hmerged hcopies hitems'
    refine ⟨items', hitems', hboth, ?_⟩
    rw [applyChoices_of_shouldLocalPropagate C _ fun c hc => (hboth c hc).1]

/-- The phone has edited one password since the last sync at 5 and the desktop has deleted another:
after the merge, a second one and one with an adopted copy change nothing. -/
theorem default_merge_stable_tables :
    let phone := (PwdTable.empty.add ⟨[1], [], [2], [], 3, 7⟩).add ⟨[8], [], [9], [], 2, 2⟩
    let desktop := PwdTable.empty.add ⟨[1], [], [4], [], 3, 4⟩
    ∃ items, createSyncItemList 5 (PwdTable.core.all phone) (PwdTable.core.all desktop) = .ok items ∧
      ∃ items', createSyncItemList 9
          (PwdTable.core.all (applyChoices PwdTable.core phone items).list)
          (PwdTable.core.all (applyChoices PwdTable.core phone items).list) = .ok items' ∧
        (applyChoices PwdTable.core (applyChoices PwdTable.core phone items).list items').list
          = (applyChoices PwdTable.core phone items).list := by
  intro phone desktop
  have hphone : (times (PwdTable.core.all phone)).Nodup := by decide
  have hdesktop : (times (PwdTable.core.all desktop)).Nodup := by decide
  obtain ⟨items, hitems, -, hadopted⟩ :=
    default_merge_stable PwdTable.core_lawfulMerge 5 hphone hdesktop
  obtain ⟨items', hitems', -, hfixed⟩ := hadopted _ (List.Perm.refl _) 9
  exact ⟨items, hitems, items', hitems', hfixed⟩

/-! ## Edits since the last sync -/

/-- **The default merge keeps every edit, but for deletions**: of a password of either list, whether
modified since the last sync or before, the merged list has a version at least as late, unless the
other list lacks it although it was created before the last sync. -/
theorem default_merge_keeps_edits (hC : C.LawfulMerge) (hlocals : (times (C.all list)).Nodup)
    (hremotes : (times remotes).Nodup) (hsync : 0 < mLastSync) {p : CorePwd}
    (hp : p ∈ C.all list ∨ p ∈ remotes) :
    ∃ items, createSyncItemList mLastSync (C.all list) remotes = .ok items ∧
      ((∃ r ∈ C.all (applyChoices C list items).list,
          r.getTimeCreated = p.getTimeCreated ∧ p.getTimeModified ≤ r.getTimeModified) ↔
        ¬ (Alone (times (C.all list)) (times remotes) p.getTimeCreated ∧
          p.getTimeCreated < mLastSync)) := by
  obtain ⟨items, hitems, -⟩ := createSyncItemList_spec mLastSync (C.all list) remotes
  have hmem : p.getTimeCreated ∈ times (C.all list) ∨ p.getTimeCreated ∈ times remotes :=
    hp.imp (fun h => mem_times.mpr ⟨p, h, rfl⟩) fun h => mem_times.mpr ⟨p, h, rfl⟩
  have hiff := mem_times_default_iff hC hlocals hremotes hitems (t := p.getTimeCreated)
  refine ⟨items, hitems, fun ⟨r, hr, hcreated, _⟩ hold => ?_, fun hkept => ?_⟩
  · have ht := hiff.mp (mem_times.mpr ⟨r, hr, hcreated⟩)
    exact ht.2 ⟨hold.1, hsync.ne', hold.2⟩
  · obtain ⟨r, hr, hcreated⟩ :=
      mem_times.mp (hiff.mpr ⟨hmem, fun hold => hkept ⟨hold.1, hold.2.2⟩⟩)
    exact ⟨r, hr, hcreated, le_of_mem_default hC hlocals hremotes hitems hr hp hcreated.symm⟩

/-- The password that both sides have is kept, in the version of the phone. -/
theorem default_merge_keeps_edits_tables :
    let phone := PwdTable.empty.add ⟨[1], [], [2], [], 3, 7⟩
    let desktop := PwdTable.empty.add ⟨[1], [], [4], [], 3, 6⟩
    ∃ items, createSyncItemList 5 (PwdTable.core.all phone) (PwdTable.core.all desktop) = .ok items ∧
      ∃ r ∈ PwdTable.core.all (applyChoices PwdTable.core phone items).list,
        r.getTimeCreated = 3 ∧ 7 ≤ r.getTimeModified := by
  intro phone desktop
  have hphone : (times (PwdTable.core.all phone)).Nodup := by decide
  have hdesktop : (times (PwdTable.core.all desktop)).Nodup := by decide
  have hedited : ⟨1, [1], [], [2], [], 3, 7⟩ ∈ PwdTable.core.all phone := by decide
  obtain ⟨items, hitems, hiff⟩ := default_merge_keeps_edits PwdTable.core_lawfulMerge hphone
    hdesktop (by decide : (0 : ℤ) < 5) (.inl hedited)
  exact ⟨items, hitems, hiff.mpr (by unfold Alone; decide)⟩

/-- **An edit is lost to a deletion**: the phone modified at 9 a password of time 3, after the last
sync at 5; the desktop does not have it any more, and the merge drops it. -/
theorem default_merge_discards_edit :
    ¬ ∀ (phone desktop : PwdTable) (mLastSync : ℤ), 0 < mLastSync →
      (times (PwdTable.core.all phone)).Nodup → (times (PwdTable.core.all desktop)).Nodup →
      ∃ items, createSyncItemList mLastSync (PwdTable.core.all phone) (PwdTable.core.all desktop)
          = .ok items ∧
        ∀ p, (p ∈ PwdTable.core.all phone ∨ p ∈ PwdTable.core.all desktop) →
          mLastSync < p.getTimeModified →
          ∃ r ∈ PwdTable.core.all (applyChoices PwdTable.core phone items).list,
            r.getTimeCreated = p.getTimeCreated ∧ p.getTimeModified ≤ r.getTimeModified := by
  intro hclaim
  have hphone : (times (PwdTable.core.all (PwdTable.empty.add ⟨[1], [], [2], [], 3, 9⟩))).Nodup := by
    decide
  have hdesktop : (times (PwdTable.core.all PwdTable.empty)).Nodup := by decide
  obtain ⟨items, hitems, hkept⟩ := hclaim _ _ 5 (by decide) hphone hdesktop
  obtain ⟨r, hr, hcreated, -⟩ := hkept ⟨1, [1], [], [2], [], 3, 9⟩ (by decide) (by decide)
  have hmem := (mem_times_default_iff PwdTable.core_lawfulMerge hphone hdesktop hitems).mp
    (mem_times.mpr ⟨r, hr, hcreated⟩)
  exact hmem.2 (by unfold Alone; decide)

end Merged

end Kryptan
