import Kryptan.Sync.Merge
import Kryptan.Sync.OneSided
import Kryptan.Ui.Saving

/-!
# Sync/Descriptions — two passwords of one description

    create, rename ── Filter, lengths ──▸ refused if the description is taken
    sync ── deletePwd, ImportPwd ──▸ not asked

The dialogs refuse a description that the list already has: a search by substring and a comparison
of lengths decide equality (`exactMatch_filter_iff`).  The merge does not look at descriptions, so
that a password kept here and another taken over from the remote side may share theirs.
**The descriptions stay distinct exactly as long as no accepted choice takes over a description
that stays** (`allStates_distinct_iff`).
-/

namespace Kryptan

open ConflictChoice CoreSecureStringHandler Runs SyncAdapter SyncronizeDesktopActivity

variable {L : Type*}

/-- The descriptions of a list. -/
def descriptions (l : List CorePwd) : List SecureString := l.map CorePwd.getDescriptionCopy

theorem mem_descriptions {l : List CorePwd} {desc : SecureString} :
    desc ∈ descriptions l ↔ ∃ p ∈ l, p.getDescriptionCopy = desc :=
  List.mem_map

/-! ## The native core on descriptions -/

/-- The description that an edit leaves a password. -/
def PwdEdit.description (p : CorePwd) : PwdEdit → SecureString
  | .setNewDescription desc => desc
  | _ => p.getDescriptionCopy

/-- `Filter` searches for a substring of the description; a new password has the description it is
given, and `SetNewDescription` alone changes it. -/
structure CorePwdList.LawfulDescriptions (C : CorePwdList L) : Prop where
  filter : ∀ list pattern, (C.filter list pattern).Perm
    ((C.all list).filter fun p => pattern <:+: p.getDescriptionCopy)
  createPwd : ∀ list now description username password,
    ∃ p : CorePwd, p.getDescriptionCopy = description ∧
      (C.all (C.createPwd list now description username password).1).Perm (p :: C.all list)
  edit : ∀ list now, ∀ p ∈ C.all list, ∀ e : PwdEdit,
    ∃ p' : CorePwd, p'.getDescriptionCopy = e.description p ∧
      (C.all (C.edit list now p e)).Perm (p' :: (C.all list).erase p)

theorem PwdTable.core_lawfulDescriptions : PwdTable.core.LawfulDescriptions where
  filter _ _ := List.Perm.refl _
  createPwd _ _ _ _ _ := ⟨_, rfl, List.Perm.refl _⟩
  edit t now p hp e :=
    ⟨⟨p.nativeHandle, applyEdit now p.data e⟩, by cases e <;> rfl,
      rewrite_entries_perm t hp fun d => applyEdit now d e⟩

/-- A search of the descriptions decides whether one of them is the text searched for. -/
theorem exactMatch_search_iff {l found : List CorePwd} {desc : SecureString}
    (hfound : found.Perm (l.filter fun p => desc <:+: p.getDescriptionCopy)) :
    exactMatch (found.map CorePwd.getDescriptionCopy) desc = true ↔ desc ∈ descriptions l := by
  have hmem : ∀ p, p ∈ found ↔ p ∈ l ∧ desc <:+: p.getDescriptionCopy :=
    fun p => by simp [hfound.mem_iff]
  rw [exactMatch_iff fun filtered hfiltered => ?_, List.mem_map, mem_descriptions]
  · constructor
    · rintro ⟨p, hp, rfl⟩
      exact ⟨p, ((hmem p).mp hp).1, rfl⟩
    · rintro ⟨p, hp, rfl⟩
      exact ⟨p, (hmem p).mpr ⟨hp, List.infix_rfl⟩, rfl⟩
  · obtain ⟨p, hp, rfl⟩ := List.mem_map.mp hfiltered
    exact ((hmem p).mp hp).2

/-- **The search of the dialogs decides whether a description is taken.** -/
theorem exactMatch_filter_iff {C : CorePwdList L} (hD : C.LawfulDescriptions) (list : L)
    (desc : SecureString) :
    exactMatch ((C.filter list desc).map CorePwd.getDescriptionCopy) desc = true ↔
      desc ∈ descriptions (C.all list) :=
  exactMatch_search_iff (hD.filter list desc)

/-! ## A session -/

/-- The password file, and the items of the sync that is being decided. -/
structure Session (L : Type*) where
  mPwdFile : CorePwdFile L
  mSyncItems : Option (List ConflictChoice)

/-- What the user does: confirm an edit, or go through a sync. -/
inductive SessionEvent where
  | confirm (now : ℤ) (e : Confirmed)
  | listDifferences (mLastSync : ℤ) (remotes : List CorePwd)
  | click (b : ℕ × Button)
  | sendResponse
  | leave
  deriving DecidableEq, Repr

/-- The password an edit is about. -/
def Confirmed.mPwd : Confirmed → Option CorePwd
  | .createPassword .. => none
  | .editPassword mPwd _ | .editDescription mPwd _ | .editUsername mPwd _
  | .existingLabel mPwd _ | .newLabel mPwd _ | .removeLabel mPwd _
  | .deletePassword mPwd => some mPwd

namespace Session

def live (s : Session L) : L := s.mPwdFile.passwordList

/-- A file just opened. -/
def opened (list : L) : Session L := ⟨CorePwdFile.opened list, none⟩

/-- One event.  No edit can be reached while the items of a sync are shown. -/
def step (C : CorePwdList L) (s : Session L) : SessionEvent → Option (Session L)
  | .confirm now e =>
    if s.mSyncItems.isNone ∧ ∀ p ∈ e.mPwd, p ∈ C.all s.live then
      match handle C now s.mPwdFile e with
      | .ok f => some { s with mPwdFile := f }
      | .error _ => some s
    else none
  | .listDifferences mLastSync remotes =>
    if s.mSyncItems.isNone then
      some { s with
        mSyncItems := (createSyncItemList mLastSync (C.all s.live) remotes).toOption }
    else none
  | .click b => s.mSyncItems.map fun items => { s with mSyncItems := some (clickItem items b) }
  | .sendResponse => s.mSyncItems.map fun items =>
      { mPwdFile := { s.mPwdFile with passwordList := (applyChoices C s.live items).list }
        mSyncItems := none }
  | .leave => s.mSyncItems.map fun _ => { s with mSyncItems := none }

/-- **What is to hold**: no two passwords of the list have the same description. -/
def Distinct (C : CorePwdList L) (s : Session L) : Prop := (descriptions (C.all s.live)).Nodup

/-- The remote lists have distinct descriptions. -/
def RemotesDistinct (_ : Session L) : SessionEvent → Prop
  | .listDifferences _ remotes => (descriptions remotes).Nodup
  | _ => True

/-- No item takes over a description that another item leaves in the list. -/
def NoClash (s : Session L) : SessionEvent → Prop
  | .sendResponse => ∀ items ∈ s.mSyncItems, ∀ c ∈ items, ∀ d ∈ items, ∀ p ∈ c.kept,
      ∀ q ∈ d.imported, p.getDescriptionCopy ≠ q.getDescriptionCopy
  | _ => True

instance (s : Session L) (e : SessionEvent) : Decidable (RemotesDistinct s e) := by
  unfold RemotesDistinct
  split <;> infer_instance

instance (s : Session L) (e : SessionEvent) : Decidable (NoClash s e) := by
  unfold NoClash
  split <;> infer_instance

end Session

/-! ## The edits -/

section Edits

variable {C : CorePwdList L} (hD : C.LawfulDescriptions)

include hD

/-- Creating a password of a new description. -/
theorem nodup_createPwd {list : L} (h : (descriptions (C.all list)).Nodup) (now : ℤ)
    {description : SecureString} (hnew : description ∉ descriptions (C.all list))
    (username : Option SecureString) (password : SecureString) :
    (descriptions (C.all (C.createPwd list now description username password).1)).Nodup := by
  obtain ⟨p, rfl, hperm⟩ := hD.createPwd list now description username password
  rw [descriptions, (hperm.map _).nodup_iff]
  exact List.nodup_cons.mpr ⟨hnew, h⟩

/-- An edit that leaves the description of its password, or gives it a new one. -/
theorem nodup_edit {list : L} (h : (descriptions (C.all list)).Nodup) (now : ℤ) {p : CorePwd}
    (hp : p ∈ C.all list) {e : PwdEdit}
    (he : e.description p = p.getDescriptionCopy ∨
      e.description p ∉ descriptions (C.all list)) :
    (descriptions (C.all (C.edit list now p e))).Nodup := by
  obtain ⟨p', hp', hperm⟩ := hD.edit list now p hp e
  have hrest : ((C.all list).erase p |>.map CorePwd.getDescriptionCopy).Nodup :=
    h.sublist (List.erase_sublist.map _)
  rw [descriptions, (hperm.map _).nodup_iff, List.map_cons, hp', List.nodup_cons]
  refine ⟨fun hmem => ?_, hrest⟩
  rcases he with he | he
  · rw [he] at hmem
    rw [descriptions, ((List.perm_cons_erase hp).map _).nodup_iff, List.map_cons,
      List.nodup_cons] at h
    exact h.1 hmem
  · exact he ((List.erase_sublist.map _).subset hmem)

/-- The dialog accepts no description that the list has. -/
theorem notMem_of_validate {list : L} {password description : SecureString}
    (h : GeneratePasswordDialog.validateNewPasswordAndDescription C list password description
      = .ok ()) : description ∉ descriptions (C.all list) := by
  rw [GeneratePasswordDialog.validateNewPasswordAndDescription] at h
  split_ifs at h with hpassword hdescription hmatch
  rwa [exactMatch_filter_iff hD] at hmatch

/-- **No confirmed edit takes a description that the list already has.** -/
theorem nodup_handle (hC : C.LawfulMerge) {f f' : CorePwdFile L} {now : ℤ} {e : Confirmed}
    (h : (descriptions (C.all f.passwordList)).Nodup)
    (hp : ∀ p ∈ e.mPwd, p ∈ C.all f.passwordList) (hf : handle C now f e = .ok f') :
    (descriptions (C.all f'.passwordList)).Nodup := by
  cases e with
  | createPassword password description username =>
    rw [handle, GeneratePasswordDialog.createNewPasswordClicked] at hf
    split at hf
    · contradiction
    · next hvalid =>
      have hnew := notMem_of_validate hD hvalid
      obtain rfl := Except.ok.inj hf
      split_ifs <;> exact nodup_createPwd hD h now hnew _ password
  | editDescription p result =>
    rw [handle, SecretDetailFragment.closeDescription] at hf
    split_ifs at hf with hresult hmatch
    rw [exactMatch_filter_iff hD] at hmatch
    exact Except.ok.inj hf ▸ nodup_edit hD h now (hp p rfl) (.inr hmatch)
  | editPassword p password =>
    rw [handle, GeneratePasswordDialog.editExistingPasswordClicked] at hf
    split_ifs at hf
    exact Except.ok.inj hf ▸ nodup_edit hD h now (hp p rfl) (.inl rfl)
  | newLabel p result =>
    rw [handle, EditLabelsAlert.closeNewLabel] at hf
    split_ifs at hf
    exact Except.ok.inj hf ▸ nodup_edit hD h now (hp p rfl) (.inl rfl)
  | editUsername p _ | existingLabel p _ | removeLabel p _ =>
    exact Except.ok.inj hf ▸ nodup_edit hD h now (hp p rfl) (.inl rfl)
  | deletePassword p =>
    have hperm := (hC.deletePwd f.passwordList p (hp p rfl)).map CorePwd.getDescriptionCopy
    exact Except.ok.inj hf ▸ hperm.nodup_iff.mpr (h.sublist (List.erase_sublist.map _))

end Edits

/-! ## The merge -/

/-- What a sharper selection takes out of a list is a part of what the other takes out of it. -/
theorem filterMap_sublist_filterMap {γ δ : Type*} {f g : γ → Option δ}
    (h : ∀ c x, f c = some x → g c = some x) (l : List γ) :
    (l.filterMap f).Sublist (l.filterMap g) := by
  induction l with
  | nil => exact List.Sublist.refl _
  | cons c l ih =>
    rcases hf : f c with _ | x
    · rw [List.filterMap_cons_none hf]
      exact ih.trans ((List.sublist_cons_self c l).filterMap g)
    · rw [List.filterMap_cons_some hf, List.filterMap_cons_some (h c x hf)]
      exact ih.cons_cons x

section Merge

variable {C : CorePwdList L} (hC : C.LawfulMerge) {list : L} {items : List ConflictChoice}
  (hcovers : Covers C list items) (hresolved : ∀ c ∈ items, c.isResolved = true)

include hC hcovers hresolved

/-- **The descriptions after the merge** are those kept and those taken over. -/
theorem descriptions_applyChoices :
    (descriptions (C.all (applyChoices C list items).list)).Perm
      (descriptions (items.filterMap kept) ++ descriptions (items.filterMap imported)) := by
  have hall : (C.all list).Perm (items.filterMap mLocal ++ []) :=
    (List.append_nil _).symm ▸ hcovers.symm
  obtain ⟨-, copies, hcopies, hperm⟩ := foldl_applyChoice hC hresolved hall (m := ⟨list, 0⟩)
  have hdata : ∀ l : List CorePwd,
      descriptions l = (l.map CorePwd.data).map PwdData.description := fun l =>
    (List.map_map ..).symm
  refine (hperm.map CorePwd.getDescriptionCopy).trans (.of_eq ?_)
  rw [List.append_nil, List.map_append, ← descriptions, ← descriptions, hdata copies, hcopies,
    ← hdata]

/-- **The merge of two lists of distinct descriptions** has distinct descriptions exactly when no
description is both kept and taken over. -/
theorem nodup_descriptions_applyChoices_iff (hlocals : (descriptions (C.all list)).Nodup)
    (hremotes : (descriptions (items.filterMap mRemote)).Nodup) :
    (descriptions (C.all (applyChoices C list items).list)).Nodup ↔
      ∀ c ∈ items, ∀ d ∈ items, ∀ p ∈ c.kept, ∀ q ∈ d.imported,
        p.getDescriptionCopy ≠ q.getDescriptionCopy := by
  have hkept : (descriptions (items.filterMap kept)).Nodup :=
    ((hcovers.map _).nodup_iff.mpr hlocals).sublist
      ((filterMap_sublist_filterMap (fun _ _ => mLocal_of_kept) items).map _)
  have himported : (descriptions (items.filterMap imported)).Nodup :=
    hremotes.sublist
      ((filterMap_sublist_filterMap (fun _ _ => mRemote_of_imported) items).map _)
  rw [(descriptions_applyChoices hC hcovers hresolved).nodup_iff, List.nodup_append]
  constructor
  · rintro ⟨-, -, hdisjoint⟩ c hc d hd p hp q hq
    exact hdisjoint _ (mem_descriptions.mpr ⟨p, List.mem_filterMap.mpr ⟨c, hc, hp⟩, rfl⟩)
      _ (mem_descriptions.mpr ⟨q, List.mem_filterMap.mpr ⟨d, hd, hq⟩, rfl⟩)
  · refine fun h => ⟨hkept, himported, fun x hx y hy => ?_⟩
    obtain ⟨p, hp, rfl⟩ := mem_descriptions.mp hx
    obtain ⟨q, hq, rfl⟩ := mem_descriptions.mp hy
    obtain ⟨c, hc, hcp⟩ := List.mem_filterMap.mp hp
    obtain ⟨d, hd, hdq⟩ := List.mem_filterMap.mp hq
    exact h c hc d hd p hcp q hdq

end Merge

/-! ## When it holds -/

namespace Session

/-- What a session keeps as long as no description is taken over that stays. -/
structure Inv (C : CorePwdList L) (s : Session L) : Prop where
  distinct : Distinct C s
  covers : ∀ items ∈ s.mSyncItems, Covers C s.live items
  remotes : ∀ items ∈ s.mSyncItems, (descriptions (items.filterMap mRemote)).Nodup
  resolved : ∀ items ∈ s.mSyncItems, ∀ c ∈ items, c.isResolved = true

theorem Inv.of_none {C : CorePwdList L} {s : Session L} (h : Distinct C s)
    (hnone : s.mSyncItems = none) : Inv C s where
  distinct := h
  covers items hitems := absurd (hnone.symm.trans hitems) (by simp)
  remotes items hitems := absurd (hnone.symm.trans hitems) (by simp)
  resolved items hitems := absurd (hnone.symm.trans hitems) (by simp)

variable {C : CorePwdList L} {s t : Session L}

/-- An edit is handled in a session without a sync. -/
theorem inv_confirm (hC : C.LawfulMerge) (hD : C.LawfulDescriptions) (hs : Inv C s) {now : ℤ}
    {e : Confirmed} (h : s.step C (.confirm now e) = some t) : Inv C t := by
  rw [step] at h
  split_ifs at h with hguard
  have hnone := Option.isNone_iff_eq_none.mp hguard.1
  split at h
  · next f hf =>
    obtain rfl := Option.some.inj h
    exact Inv.of_none (nodup_handle hD hC hs.distinct hguard.2 hf) hnone
  · exact Option.some.inj h ▸ hs

/-- The items of a sync are listed. -/
theorem inv_listDifferences (hs : Inv C s) {mLastSync : ℤ} {remotes : List CorePwd}
    (hremotes : (descriptions remotes).Nodup)
    (h : s.step C (.listDifferences mLastSync remotes) = some t) : Inv C t := by
  rw [step] at h
  split_ifs at h
  obtain ⟨items, hitems, hsides, hdefault, -⟩ :=
    createSyncItemList_spec mLastSync (C.all s.live) remotes
  rw [hitems] at h
  obtain rfl := Option.some.inj h
  have hsame : ∀ items' ∈ (Except.ok items : Except String _).toOption, items' = items :=
    fun items' h' => (Option.some.inj h').symm
  refine ⟨hs.distinct, fun items' h' => ?_, fun items' h' => ?_, fun items' h' => ?_⟩ <;>
    obtain rfl := hsame items' h'
  · exact covers_of_createSyncItemList hitems
  · rw [filterMap_mRemote]
    have hperm := hsides.filterMap Prod.snd
    rw [pairs, Matching.pairUp_rights] at hperm
    exact (hperm.map _).nodup_iff.mpr hremotes
  · exact fun c hc => (hdefault c hc).isResolved

/-- A click on an item. -/
theorem inv_click (hs : Inv C s) {b : ℕ × Button} (h : s.step C (.click b) = some t) :
    Inv C t := by
  obtain ⟨items, hitems, rfl⟩ := Option.map_eq_some_iff.mp h
  have hsides := map_sides_clickItems items [b]
  refine ⟨hs.distinct, fun items' h' => ?_, fun items' h' => ?_, fun items' h' => ?_⟩ <;>
    obtain rfl := Option.some.inj h'
  · exact (hs.covers items hitems).clickItem b
  · have hremotes := hs.remotes items hitems
    rw [filterMap_mRemote] at hremotes ⊢
    exact hsides.symm ▸ hremotes
  · exact isResolved_clickItems (hs.resolved items hitems) [b]

/-- **The accepted choices leave distinct descriptions exactly when they do not clash.** -/
theorem distinct_sendResponse_iff (hC : C.LawfulMerge) (hs : Inv C s)
    (h : s.step C .sendResponse = some t) : Distinct C t ↔ NoClash s .sendResponse := by
  obtain ⟨items, hitems, rfl⟩ := Option.map_eq_some_iff.mp h
  have hiff := nodup_descriptions_applyChoices_iff hC (hs.covers items hitems)
    (hs.resolved items hitems) hs.distinct (hs.remotes items hitems)
  refine hiff.trans ⟨fun hclash items' h' => ?_, fun hclash => hclash items hitems⟩
  obtain rfl := Option.some.inj (hitems.symm.trans h')
  exact hclash

/-- **One step**: the descriptions stay distinct if no choice clashes. -/
theorem inv_step (hC : C.LawfulMerge) (hD : C.LawfulDescriptions) (hs : Inv C s)
    {e : SessionEvent} (hremotes : RemotesDistinct s e) (hclash : NoClash s e)
    (h : s.step C e = some t) : Inv C t := by
  cases e with
  | confirm now e => exact inv_confirm hC hD hs h
  | listDifferences mLastSync remotes => exact inv_listDifferences hs hremotes h
  | click b => exact inv_click hs h
  | sendResponse =>
    have hdistinct := (distinct_sendResponse_iff hC hs h).mpr hclash
    obtain ⟨items, -, rfl⟩ := Option.map_eq_some_iff.mp h
    exact Inv.of_none hdistinct rfl
  | leave =>
    obtain ⟨items, -, rfl⟩ := Option.map_eq_some_iff.mp h
    exact Inv.of_none hs.distinct rfl

/-- **No two passwords ever have the same description as long as no accepted choice takes over a
description that stays in the list** — and no longer. -/
theorem allStates_distinct_iff (hC : C.LawfulMerge) (hD : C.LawfulDescriptions) {list : L}
    (hlist : (descriptions (C.all list)).Nodup) {es : List SessionEvent}
    (hremotes : AllSteps (step C) RemotesDistinct (opened list) es) :
    AllStates (step C) (Distinct C) (opened list) es ↔
      AllSteps (step C) NoClash (opened list) es := by
  refine allStates_iff_allSteps (I := Inv C) (N := RemotesDistinct)
    (fun s e t hs hN hP h => inv_step hC hD hs hN hP h) (fun _ hs => hs.distinct)
    (fun s e t hs _ hclash h hdistinct => ?_) (Inv.of_none (s := opened list) hlist rfl) hremotes
  cases e with
  | sendResponse => exact hclash ((distinct_sendResponse_iff hC hs h).mp hdistinct)
  | confirm | listDifferences | click | leave => exact hclash trivial

/-- A password is created on the phone, and a sync takes over one of another description. -/
theorem allStates_distinct_tables :
    AllStates (step PwdTable.core) (Distinct PwdTable.core)
      (opened (PwdTable.empty.add ⟨[1], [], [2], [], 3, 3⟩))
      [.confirm 4 (.createPassword [5] [6] []), .listDifferences 0 [⟨1, [7], [], [2], [], 6, 6⟩],
        .sendResponse] :=
  (allStates_distinct_iff PwdTable.core_lawfulMerge PwdTable.core_lawfulDescriptions (by decide)
    (by decide)).mpr (by decide)

/-- **Two passwords of one description**: each side has created a password of the description `1`
before the first sync, and the sync keeps both. -/
theorem not_distinct_after_sync :
    ¬ ∀ (list : PwdTable) (es : List SessionEvent) (s : Session PwdTable),
      (descriptions (PwdTable.core.all list)).Nodup →
      AllSteps (step PwdTable.core) RemotesDistinct (opened list) es →
      run (step PwdTable.core) (opened list) es = some s → Distinct PwdTable.core s := by
  intro h
  have hdistinct := h (PwdTable.empty.add ⟨[1], [], [2], [], 3, 3⟩)
    [.listDifferences 0 [⟨1, [1], [], [4], [], 6, 6⟩], .sendResponse] _ (by decide) (by decide) rfl
  exact absurd hdistinct (by unfold Distinct; decide)

end Session

end Kryptan
