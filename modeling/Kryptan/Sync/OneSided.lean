import Kryptan.Sync.Merge

/-!
# Sync/OneSided — a sync, seen through the creation times

    phone  {t₁, t₂, t₃}        paired       t₂ ↦ kept
    desktop    {t₂, t₃, t₄}    alone        t₁, t₄ ↦ dropped iff created before the last sync

A creation time is what identifies a password across the two lists.  Where each list has every time
once, the items with one side only are the times that one list has and the other has not
(`exists_single_iff`), their default drops them exactly by the time of the last sync (`drops_iff`),
and the merged list has every time once again (`nodup_applyChoices`).
-/

namespace Kryptan

open ConflictChoice Matching SyncAdapter SyncronizeDesktopActivity

variable {L : Type*}

/-- The creation times of a list. -/
def times (l : List CorePwd) : List ℤ := l.map CorePwd.getTimeCreated

/-- A time that exactly one of two lists has. -/
def Alone (localTimes remoteTimes : List ℤ) (t : ℤ) : Prop :=
  (t ∈ localTimes ∧ t ∉ remoteTimes) ∨ (t ∉ localTimes ∧ t ∈ remoteTimes)

/-! ## The items with one side -/

namespace ConflictChoice

/-- The password of an item that has one side only. -/
def single (c : ConflictChoice) : Option CorePwd :=
  match c.mLocal, c.mRemote with
  | some p, none => some p
  | none, some q => some q
  | _, _ => none

/-- The item leaves nothing in the list: its local side is not kept, its remote side not
imported. -/
def Drops (c : ConflictChoice) : Prop := c.kept = none ∧ c.imported = none

instance (c : ConflictChoice) : Decidable c.Drops := inferInstanceAs (Decidable (_ ∧ _))

theorem single_eq_some {c : ConflictChoice} {p : CorePwd} :
    c.single = some p ↔ c.sides = (some p, none) ∨ c.sides = (none, some p) := by
  unfold single sides
  rcases c.mLocal with _ | l <;> rcases c.mRemote with _ | r <;> simp

/-- An item that has not one side only has both. -/
theorem exists_sides_of_single {c : ConflictChoice} (h : c.mLocal ≠ none ∨ c.mRemote ≠ none)
    (hs : c.single = none) : ∃ p q, c.sides = (some p, some q) := by
  unfold single at hs
  unfold sides
  rcases hl : c.mLocal with _ | l <;> rcases hr : c.mRemote with _ | r <;> simp_all

/-- **The default drops a password of one side exactly when it was created before the last
sync.** -/
theorem IsDefault.drops_iff {mLastSync : ℤ} {c : ConflictChoice} (h : c.IsDefault mLastSync)
    {p : CorePwd} (hp : c.single = some p) :
    c.Drops ↔ mLastSync ≠ 0 ∧ p.getTimeCreated < mLastSync := by
  rcases single_eq_some.mp hp with hsides | hsides
  · obtain ⟨hl, hr⟩ := Prod.mk.inj hsides
    obtain ⟨hremote, hlocal⟩ := h.local_only hl hr
    simp only [Drops, kept, imported, hl, hr, hlocal, hremote]
    by_cases hlt : mLastSync ≠ 0 ∧ p.getTimeCreated < mLastSync <;> simp [hlt]
  · obtain ⟨hl, hr⟩ := Prod.mk.inj hsides
    obtain ⟨hlocal, hremote⟩ := h.remote_only hl hr
    simp only [Drops, kept, imported, hl, hr, hlocal, hremote]
    by_cases hlt : mLastSync ≠ 0 ∧ p.getTimeCreated < mLastSync <;> simp [hlt]

/-- An item of two sides leaves one of them. -/
theorem not_drops_of_sides {c : ConflictChoice} (hc : c.isResolved = true) {p q : CorePwd}
    (h : c.sides = (some p, some q)) : ¬ c.Drops := by
  obtain ⟨hl, hr⟩ := Prod.mk.inj h
  rintro ⟨hkept, himported⟩
  by_cases hlocal : c.shouldLocalPropagate = true
  · rw [kept, if_pos hlocal, hl] at hkept
    exact Option.some_ne_none p hkept
  · have hremote : c.shouldRemotePropagate = true := (Bool.or_eq_true_iff.mp hc).resolve_left hlocal
    rw [imported, hremote, Bool.eq_false_of_not_eq_true hlocal, hr] at himported
    exact Option.some_ne_none q himported

end ConflictChoice

theorem mem_times {l : List CorePwd} {t : ℤ} : t ∈ times l ↔ ∃ p ∈ l, p.getTimeCreated = t :=
  List.mem_map

/-! ## What the native methods do to the creation times -/

/-- A creation adds the second it happens in. -/
theorem times_createPwd {C : CorePwdList L} (hE : C.LawfulEdit) (list : L) (now : ℤ)
    (description password) (username : Option SecureString) :
    (times (C.all (C.createPwd list now description username password).1)).Perm
      (now :: times (C.all list)) := by
  obtain ⟨p, hp, -, hperm⟩ := hE.createPwd list now description username password
  exact hp ▸ hperm.map CorePwd.getTimeCreated

/-- An edit leaves the creation times alone. -/
theorem times_edit {C : CorePwdList L} (hE : C.LawfulEdit) {list : L} (now : ℤ) {p : CorePwd}
    (hp : p ∈ C.all list) (e : PwdEdit) :
    (times (C.all (C.edit list now p e))).Perm (times (C.all list)) := by
  obtain ⟨p', hp', hperm⟩ := hE.edit list now p hp e
  refine (hperm.map CorePwd.getTimeCreated).trans ?_
  rw [List.map_cons, hp', ← List.map_cons]
  exact ((List.perm_cons_erase hp).symm.map CorePwd.getTimeCreated)

/-- A deletion takes one creation time out. -/
theorem times_deletePwd {C : CorePwdList L} (hC : C.LawfulMerge) {list : L} {p : CorePwd}
    (hp : p ∈ C.all list) :
    (p.getTimeCreated :: times (C.all (C.deletePwd list p))).Perm (times (C.all list)) :=
  (((hC.deletePwd list p hp).cons p).trans (List.perm_cons_erase hp).symm).map
    CorePwd.getTimeCreated

/-! ## The items with one side, in creation times -/

section Items

variable {mLastSync : ℤ} {locals remotes : List CorePwd} {items : List ConflictChoice}

/-- A local password is alone where the remote list has nothing of its time. -/
theorem left_mem_pairs (hlocals : (times locals).Nodup) (hremotes : (times remotes).Nodup)
    {p : CorePwd} : (some p, none) ∈ pairs locals remotes ↔
      p ∈ locals ∧ p.getTimeCreated ∉ times remotes := by
  rw [pairs, left_mem_pairUp hlocals hremotes, mem_times, not_exists]
  simp

/-- A remote password is alone where the local list has nothing of its time. -/
theorem right_mem_pairs (hlocals : (times locals).Nodup) (hremotes : (times remotes).Nodup)
    {q : CorePwd} : (none, some q) ∈ pairs locals remotes ↔
      q ∈ remotes ∧ q.getTimeCreated ∉ times locals := by
  rw [pairs, right_mem_pairUp hlocals hremotes, mem_times, not_exists]
  simp

/-- **The items with one side are the times that one list has and the other has not.** -/
theorem exists_single_iff (hlocals : (times locals).Nodup) (hremotes : (times remotes).Nodup)
    (hitems : createSyncItemList mLastSync locals remotes = .ok items) {t : ℤ} :
    (∃ c ∈ items, ∃ p, c.single = some p ∧ p.getTimeCreated = t) ↔
      Alone (times locals) (times remotes) t := by
  obtain ⟨hsides, -⟩ := createSyncItemList_eq_ok hitems
  have hmem : ∀ s, (∃ c ∈ items, c.sides = s) ↔ s ∈ pairs locals remotes := fun s => by
    rw [← hsides.mem_iff, List.mem_map]
  have hleft := fun p => left_mem_pairs (p := p) hlocals hremotes
  have hright := fun q => right_mem_pairs (q := q) hlocals hremotes
  constructor
  · rintro ⟨c, hc, p, hp, rfl⟩
    rcases single_eq_some.mp hp with hs | hs
    · have hp' := (hleft p).mp ((hmem _).mp ⟨c, hc, hs⟩)
      exact .inl ⟨mem_times.mpr ⟨p, hp'.1, rfl⟩, hp'.2⟩
    · have hp' := (hright p).mp ((hmem _).mp ⟨c, hc, hs⟩)
      exact .inr ⟨hp'.2, mem_times.mpr ⟨p, hp'.1, rfl⟩⟩
  · rintro (⟨ht, ht'⟩ | ⟨ht', ht⟩) <;> obtain ⟨p, hp, rfl⟩ := mem_times.mp ht
    · obtain ⟨c, hc, hs⟩ := (hmem _).mpr ((hleft p).mpr ⟨hp, ht'⟩)
      exact ⟨c, hc, p, single_eq_some.mpr (.inl hs), rfl⟩
    · obtain ⟨c, hc, hs⟩ := (hmem _).mpr ((hright p).mpr ⟨hp, ht'⟩)
      exact ⟨c, hc, p, single_eq_some.mpr (.inr hs), rfl⟩

/-- **What the defaults do to the passwords of one side, in creation times**: any statement `F`
about whether a password is dropped may be checked on the times. -/
theorem forall_single_iff (hlocals : (times locals).Nodup) (hremotes : (times remotes).Nodup)
    (hitems : createSyncItemList mLastSync locals remotes = .ok items) (F : Prop → ℤ → Prop) :
    (∀ c ∈ items, ∀ p, c.single = some p → F c.Drops p.getTimeCreated) ↔
      ∀ t, Alone (times locals) (times remotes) t → F (mLastSync ≠ 0 ∧ t < mLastSync) t := by
  obtain ⟨-, hdefault, -⟩ := createSyncItemList_eq_ok hitems
  have hdrops : ∀ c ∈ items, ∀ p, c.single = some p →
      c.Drops = (mLastSync ≠ 0 ∧ p.getTimeCreated < mLastSync) := fun c hc p hp =>
    propext ((hdefault c hc).drops_iff hp)
  constructor
  · intro h t ht
    obtain ⟨c, hc, p, hp, rfl⟩ := (exists_single_iff hlocals hremotes hitems).mpr ht
    exact hdrops c hc p hp ▸ h c hc p hp
  · intro h c hc p hp
    rw [hdrops c hc p hp]
    exact h _ ((exists_single_iff hlocals hremotes hitems).mp ⟨c, hc, p, hp, rfl⟩)

end Items

/-! ## The merged list -/

namespace ConflictChoice

/-- The creation time of an item. -/
def getTimeCreated (c : ConflictChoice) : Option ℤ :=
  (c.mLocal.map CorePwd.getTimeCreated).or (c.mRemote.map CorePwd.getTimeCreated)

theorem getTimeCreated_of_single {c : ConflictChoice} {p : CorePwd} (h : c.single = some p) :
    c.getTimeCreated = some p.getTimeCreated := by
  rcases single_eq_some.mp h with hs | hs <;> obtain ⟨hl, hr⟩ := Prod.mk.inj hs <;>
    rw [getTimeCreated, hl, hr] <;> rfl

/-- The password that an item leaves in the list. -/
def result (c : ConflictChoice) : Option CorePwd := c.kept.or c.imported

theorem imported_of_kept {c : ConflictChoice} {p : CorePwd} (h : c.kept = some p) :
    c.imported = none := by
  unfold kept at h
  unfold imported
  split_ifs at h with hl
  simp [hl]

theorem mLocal_of_kept {c : ConflictChoice} {p : CorePwd} (h : c.kept = some p) :
    c.mLocal = some p := by
  unfold kept at h
  split_ifs at h
  exact h

theorem mRemote_of_imported {c : ConflictChoice} {q : CorePwd} (h : c.imported = some q) :
    c.mRemote = some q := by
  unfold imported at h
  split_ifs at h
  exact h

theorem result_eq_some {c : ConflictChoice} {p : CorePwd} :
    c.result = some p ↔ c.kept = some p ∨ c.imported = some p := by
  unfold result
  rcases hk : c.kept with _ | k
  · simp
  · simp [imported_of_kept hk]

/-- An item that drops nothing leaves a password. -/
theorem exists_result {c : ConflictChoice} (h : ¬ c.Drops) : ∃ p, c.result = some p := by
  rw [← Option.ne_none_iff_exists']
  exact fun hnone => h (Option.or_eq_none_iff.mp hnone)

/-- What an item leaves has the item's creation time. -/
theorem getTimeCreated_of_result {c : ConflictChoice}
    (hc : ∀ p ∈ c.mLocal, ∀ q ∈ c.mRemote, p.getTimeCreated = q.getTimeCreated) {p : CorePwd}
    (h : c.result = some p) : c.getTimeCreated = some p.getTimeCreated := by
  rcases result_eq_some.mp h with hk | hi
  · rw [getTimeCreated, mLocal_of_kept hk]
    rfl
  · have hr := mRemote_of_imported hi
    rw [getTimeCreated, hr]
    rcases hl : c.mLocal with _ | l
    · rfl
    · exact congrArg some (hc l hl p hr)

end ConflictChoice

/-- What is kept and what is imported is what the items leave. -/
theorem kept_append_imported_perm (items : List ConflictChoice) :
    (items.filterMap kept ++ items.filterMap imported).Perm (items.filterMap result) := by
  induction items with
  | nil => exact List.Perm.refl _
  | cons c items ih =>
    rcases hk : c.kept with _ | p
    · rcases hi : c.imported with _ | q
      · simpa [hk, hi, result] using ih
      · simpa [hk, hi, result] using List.perm_middle.trans (ih.cons q)
    · have hi := imported_of_kept hk
      simpa [hk, hi, result] using ih

section Merged

variable {C : CorePwdList L} {mLastSync : ℤ} {list : L} {remotes : List CorePwd}
  {items : List ConflictChoice}

/-- **The contents after the merge** are those of the passwords that the items leave. -/
theorem contents_applyChoices (hC : C.LawfulMerge)
    (hitems : createSyncItemList mLastSync (C.all list) remotes = .ok items)
    (clicks : List (ℕ × Button)) :
    (C.contents (applyChoices C list (clickItems items clicks)).list).Perm
      (((clickItems items clicks).filterMap result).map CorePwd.data) := by
  obtain ⟨hsides, hdefault, -⟩ := createSyncItemList_eq_ok hitems
  have hresolved := isResolved_clickItems (fun c hc => (hdefault c hc).isResolved) clicks
  have hall : (C.all list).Perm ((clickItems items clicks).filterMap mLocal ++ []) := by
    rw [filterMap_mLocal, map_sides_clickItems, List.append_nil]
    exact ((hsides.filterMap Prod.fst).trans (pairUp_lefts _ _)).symm
  obtain ⟨-, copies, hcopies, hperm⟩ := foldl_applyChoice hC hresolved hall (m := ⟨list, 0⟩)
  refine (hperm.map CorePwd.data).trans ?_
  rw [List.append_nil, List.map_append, hcopies, ← List.map_append]
  exact (kept_append_imported_perm _).map CorePwd.data

/-- **The creation times after the merge** are those of the passwords that the items leave. -/
theorem times_applyChoices (hC : C.LawfulMerge)
    (hitems : createSyncItemList mLastSync (C.all list) remotes = .ok items)
    (clicks : List (ℕ × Button)) :
    (times (C.all (applyChoices C list (clickItems items clicks)).list)).Perm
      (times ((clickItems items clicks).filterMap result)) := by
  have hdata : ∀ l : List CorePwd, times l = (l.map CorePwd.data).map PwdData.timeCreated :=
    fun l => (List.map_map ..).symm
  rw [hdata, hdata]
  exact (contents_applyChoices hC hitems clicks).map PwdData.timeCreated

/-- Clicks leave the sides of an item a pair of the two lists. -/
theorem sides_mem_pairs {locals : List CorePwd}
    (hitems : createSyncItemList mLastSync locals remotes = .ok items)
    {clicks : List (ℕ × Button)} {c : ConflictChoice} (hc : c ∈ clickItems items clicks) :
    c.sides ∈ pairs locals remotes := by
  obtain ⟨hsides, -⟩ := createSyncItemList_eq_ok hitems
  rw [← hsides.mem_iff, ← map_sides_clickItems items clicks]
  exact List.mem_map_of_mem hc

/-- The items of distinct creation times have distinct creation times, whatever was clicked. -/
theorem nodup_map_getTimeCreated {locals : List CorePwd} (hlocals : (times locals).Nodup)
    (hremotes : (times remotes).Nodup)
    (hitems : createSyncItemList mLastSync locals remotes = .ok items)
    (clicks : List (ℕ × Button)) :
    ((clickItems items clicks).map ConflictChoice.getTimeCreated).Nodup := by
  obtain ⟨hsides, -⟩ := createSyncItemList_eq_ok hitems
  have hkey : (clickItems items clicks).map ConflictChoice.getTimeCreated
      = ((clickItems items clicks).map sides).map
        (keyOf CorePwd.getTimeCreated CorePwd.getTimeCreated) := by
    rw [List.map_map]
    rfl
  rw [hkey, map_sides_clickItems, (hsides.map _).nodup_iff]
  exact nodup_map_keyOf_pairUp hlocals hremotes

/-- **A merge of lists with distinct creation times has distinct creation times.** -/
theorem nodup_applyChoices (hC : C.LawfulMerge) (hlocals : (times (C.all list)).Nodup)
    (hremotes : (times remotes).Nodup)
    (hitems : createSyncItemList mLastSync (C.all list) remotes = .ok items)
    (clicks : List (ℕ × Button)) :
    (times (C.all (applyChoices C list (clickItems items clicks)).list)).Nodup := by
  rw [(times_applyChoices hC hitems clicks).nodup_iff]
  have hdistinct := List.pairwise_map.mp (nodup_map_getTimeCreated hlocals hremotes hitems clicks)
  rw [times, List.nodup_iff_pairwise_ne, List.pairwise_map, List.pairwise_filterMap]
  refine hdistinct.imp_of_mem fun {c d} hc hd hne p hp q hq heq => hne ?_
  rw [getTimeCreated_of_result (pairable_of_mem_pairs (sides_mem_pairs hitems hc)).2 hp,
    getTimeCreated_of_result (pairable_of_mem_pairs (sides_mem_pairs hitems hd)).2 hq, heq]

/-- **A time of the merged list** is one of the two lists. -/
theorem mem_times_of_applyChoices (hC : C.LawfulMerge)
    (hitems : createSyncItemList mLastSync (C.all list) remotes = .ok items)
    {clicks : List (ℕ × Button)} {t : ℤ}
    (ht : t ∈ times (C.all (applyChoices C list (clickItems items clicks)).list)) :
    t ∈ times (C.all list) ∨ t ∈ times remotes := by
  rw [(times_applyChoices hC hitems clicks).mem_iff] at ht
  obtain ⟨p, hp, rfl⟩ := mem_times.mp ht
  obtain ⟨c, hc, hres⟩ := List.mem_filterMap.mp hp
  have hpair := sides_mem_pairs hitems hc
  rcases result_eq_some.mp hres with hk | hi
  · have hside : c.sides = (some p, c.mRemote) := by rw [sides, mLocal_of_kept hk]
    exact .inl (mem_times.mpr ⟨p, left_mem (hside ▸ hpair), rfl⟩)
  · have hside : c.sides = (c.mLocal, some p) := by rw [sides, mRemote_of_imported hi]
    exact .inr (mem_times.mpr ⟨p, right_mem (hside ▸ hpair), rfl⟩)

/-- A password of the local list is the local side of an item. -/
theorem exists_mLocal {locals : List CorePwd}
    (hitems : createSyncItemList mLastSync locals remotes = .ok items) {p : CorePwd}
    (hp : p ∈ locals) : ∃ c ∈ items, c.mLocal = some p := by
  obtain ⟨hsides, -⟩ := createSyncItemList_eq_ok hitems
  obtain ⟨q?, hpair⟩ : ∃ q?, (some p, q?) ∈ pairs locals remotes := exists_mem_of_left remotes hp
  obtain ⟨c, hc, hs⟩ := List.mem_map.mp (hsides.mem_iff.mpr hpair)
  exact ⟨c, hc, (Prod.mk.inj hs).1⟩

/-- A password of the remote list is the remote side of an item. -/
theorem exists_mRemote {locals : List CorePwd}
    (hitems : createSyncItemList mLastSync locals remotes = .ok items) {q : CorePwd}
    (hq : q ∈ remotes) : ∃ c ∈ items, c.mRemote = some q := by
  obtain ⟨hsides, -⟩ := createSyncItemList_eq_ok hitems
  obtain ⟨p?, hpair⟩ : ∃ p?, (p?, some q) ∈ pairs locals remotes := exists_mem_of_right locals hq
  obtain ⟨c, hc, hs⟩ := List.mem_map.mp (hsides.mem_iff.mpr hpair)
  exact ⟨c, hc, (Prod.mk.inj hs).2⟩

/-- An item has the creation time of each of its sides. -/
theorem getTimeCreated_of_side {locals : List CorePwd}
    (hitems : createSyncItemList mLastSync locals remotes = .ok items) {c : ConflictChoice}
    (hc : c ∈ items) {p : CorePwd} (hp : c.mLocal = some p ∨ c.mRemote = some p) :
    c.getTimeCreated = some p.getTimeCreated := by
  have hclicked : c ∈ clickItems items [] := hc
  have hpair := pairable_of_mem_pairs (sides_mem_pairs hitems hclicked)
  rcases hp with hl | hr
  · rw [ConflictChoice.getTimeCreated, hl]
    rfl
  · rw [ConflictChoice.getTimeCreated, hr]
    rcases hl : c.mLocal with _ | l
    · rfl
    · exact congrArg some (hpair.2 l hl p hr)

/-- A time of one of the two lists is the creation time of an item. -/
theorem exists_getTimeCreated {locals : List CorePwd}
    (hitems : createSyncItemList mLastSync locals remotes = .ok items) {t : ℤ}
    (ht : t ∈ times locals ∨ t ∈ times remotes) :
    ∃ c ∈ items, c.getTimeCreated = some t := by
  rcases ht with ht | ht <;> obtain ⟨p, hp, rfl⟩ := mem_times.mp ht
  · obtain ⟨c, hc, hl⟩ := exists_mLocal hitems hp
    exact ⟨c, hc, getTimeCreated_of_side hitems hc (.inl hl)⟩
  · obtain ⟨c, hc, hr⟩ := exists_mRemote hitems hp
    exact ⟨c, hc, getTimeCreated_of_side hitems hc (.inr hr)⟩

/-- **The default merge drops nothing but** the times of one list that lie before the last sync. -/
theorem mem_times_default_of_kept (hC : C.LawfulMerge) (hlocals : (times (C.all list)).Nodup)
    (hremotes : (times remotes).Nodup)
    (hitems : createSyncItemList mLastSync (C.all list) remotes = .ok items) {t : ℤ}
    (ht : t ∈ times (C.all list) ∨ t ∈ times remotes)
    (hkept : Alone (times (C.all list)) (times remotes) t → ¬ (mLastSync ≠ 0 ∧ t < mLastSync)) :
    t ∈ times (C.all (applyChoices C list items).list) := by
  obtain ⟨c, hc, htime⟩ := exists_getTimeCreated hitems ht
  have hclicked : c ∈ clickItems items [] := hc
  have hpair := pairable_of_mem_pairs (sides_mem_pairs hitems hclicked)
  obtain ⟨-, hdefault, -⟩ := createSyncItemList_eq_ok hitems
  have hdrops : ¬ c.Drops := fun hdrops => by
    rcases hs : c.single with _ | p
    · obtain ⟨p, q, hsides⟩ := exists_sides_of_single hpair.1 hs
      exact not_drops_of_sides (hdefault c hc).isResolved hsides hdrops
    · have htp : p.getTimeCreated = t :=
        Option.some.inj ((getTimeCreated_of_single hs).symm.trans htime)
      have hold := ((hdefault c hc).drops_iff hs).mp hdrops
      rw [htp] at hold
      exact hkept ((exists_single_iff hlocals hremotes hitems).mp ⟨c, hc, p, hs, htp⟩) hold
  obtain ⟨p, hp⟩ := exists_result hdrops
  have htp : p.getTimeCreated = t :=
    Option.some.inj ((getTimeCreated_of_result hpair.2 hp).symm.trans htime)
  refine (times_applyChoices hC hitems []).mem_iff.mpr (mem_times.mpr ⟨p, ?_, htp⟩)
  exact List.mem_filterMap.mpr ⟨c, hc, hp⟩

/-- **The default merge** takes over a time that the local list has not only if it does not lie
before the last sync. -/
theorem mem_times_of_default (hC : C.LawfulMerge)
    (hitems : createSyncItemList mLastSync (C.all list) remotes = .ok items) {t : ℤ}
    (ht : t ∈ times (C.all (applyChoices C list items).list)) :
    t ∈ times (C.all list) ∨ (t ∈ times remotes ∧ ¬ (mLastSync ≠ 0 ∧ t < mLastSync)) := by
  replace ht := (times_applyChoices hC hitems []).mem_iff.mp ht
  obtain ⟨p, hp, rfl⟩ := mem_times.mp ht
  obtain ⟨c, hc, hres⟩ := List.mem_filterMap.mp hp
  have hclicked : c ∈ clickItems items [] := hc
  have hpair := sides_mem_pairs hitems hclicked
  rcases result_eq_some.mp hres with hk | hi
  · have hside : c.sides = (some p, c.mRemote) := by rw [sides, mLocal_of_kept hk]
    exact .inl (mem_times.mpr ⟨p, left_mem (hside ▸ hpair), rfl⟩)
  · have hr := mRemote_of_imported hi
    rcases hl : c.mLocal with _ | l
    · have hsingle : c.single = some p := single_eq_some.mpr (.inr (by rw [sides, hl, hr]))
      obtain ⟨-, hdefault, -⟩ := createSyncItemList_eq_ok hitems
      have hside : c.sides = (c.mLocal, some p) := by rw [sides, hr]
      refine .inr ⟨mem_times.mpr ⟨p, right_mem (hside ▸ hpair), rfl⟩, fun hlt => ?_⟩
      have hdrops := ((hdefault c hc).drops_iff hsingle).mpr hlt
      exact absurd (hdrops.2.symm.trans hi) (by simp)
    · have hside : c.sides = (some l, some p) := by rw [sides, hl, hr]
      exact .inl (mem_times.mpr ⟨l, left_mem (hside ▸ hpair), pairUp_key (hside ▸ hpair)⟩)

end Merged

end Kryptan
