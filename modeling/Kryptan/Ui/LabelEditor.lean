import Kryptan.Ui.Saving
import Mathlib.Data.List.Dedup

/-!
# Ui/LabelEditor — the labels of one password, in its dialog and in the store

    store ──GetLabels, AllLabels──▸ EditLabelAdapter ──▸ rows, choices, button
      ▴                                                          │
      └─────────── addPwdToLabel, removePwdFromLabel ◂───────────┘

Every action changes the store, lets the adapter read it again, and then mends the rows and the
button by itself.  A label comes and goes in the store with the last password that has it.
**The dialog agrees with the store after any actions, and no action that is possible fails**
(`run_agrees`); that adding a label only ever disables the button is right because it makes no other
label available (`available_nil_of_add`).
-/

namespace Kryptan

open Runs

variable {L : Type*}

/-- The methods of `CorePwdList`, with `AllLabels`. -/
structure LabelStore (L : Type*) extends CorePwdList L where
  allLabels : L → List SecureString

namespace LabelStore

/-- What is behind the native handle of a password. -/
def pwd (S : LabelStore L) (list : L) (mPwd : ℕ) : Option CorePwd :=
  (S.all list).find? fun p => p.nativeHandle = mPwd

/-- `GetLabels` returns each label of a password once and `AllLabels` each label that some password
has, `FilterLabels` those of them that contain the pattern; `AddPwdToLabel` and `RemovePwdFromLabel`
change the labels of the given password only. -/
structure Lawful (S : LabelStore L) : Prop where
  nodup : ∀ list, ((S.all list).map CorePwd.nativeHandle).Nodup
  labels_nodup : ∀ list, ∀ p ∈ S.all list, p.data.labels.Nodup
  allLabels_nodup : ∀ list, (S.allLabels list).Nodup
  mem_allLabels : ∀ list label,
    label ∈ S.allLabels list ↔ ∃ p ∈ S.all list, label ∈ p.data.labels
  mem_filterLabels : ∀ list pattern label,
    label ∈ S.filterLabels list pattern ↔ label ∈ S.allLabels list ∧ pattern <:+: label
  addPwdToLabel : ∀ list now, ∀ p ∈ S.all list, ∀ label, label ∉ p.data.labels →
    ∃ p' : CorePwd, p'.nativeHandle = p.nativeHandle ∧
      p'.data.labels.Perm (label :: p.data.labels) ∧
      (S.all (S.edit list now p (.addPwdToLabel label))).Perm (p' :: (S.all list).erase p)
  removePwdFromLabel : ∀ list now, ∀ p ∈ S.all list, ∀ label,
    ∃ p' : CorePwd, p'.nativeHandle = p.nativeHandle ∧
      p'.data.labels.Perm (p.data.labels.erase label) ∧
      (S.all (S.edit list now p (.removePwdFromLabel label))).Perm (p' :: (S.all list).erase p)

/-- A handle is that of one password. -/
theorem Lawful.pwd_eq_some_iff {S : LabelStore L} (hS : S.Lawful) {list : L} {mPwd : ℕ}
    {p : CorePwd} : S.pwd list mPwd = some p ↔ p ∈ S.all list ∧ p.nativeHandle = mPwd := by
  constructor
  · exact fun h => ⟨List.mem_of_find?_eq_some h, by simpa using List.find?_some h⟩
  · rintro ⟨hp, rfl⟩
    exact CorePwd.find?_nativeHandle (hS.nodup list) hp

end LabelStore

/-! ## A store that behaves as documented -/

/-- A table in which every entry has its labels once. -/
structure LabelTable extends PwdTable where
  labels : ∀ p ∈ entries, p.data.labels.Nodup

namespace LabelTable

/-- The table after a change, if it is still one. -/
def become (t : LabelTable) (t' : PwdTable) : LabelTable :=
  if h : ∀ p ∈ t'.entries, p.data.labels.Nodup then ⟨t', h⟩ else t

theorem become_toPwdTable {t : LabelTable} {t' : PwdTable}
    (h : ∀ p ∈ t'.entries, p.data.labels.Nodup) : (t.become t').toPwdTable = t' := by
  rw [become, dif_pos h]

/-- Tables with the labels of their entries. -/
def store : LabelStore LabelTable where
  all t := PwdTable.core.all t.toPwdTable
  filter t := PwdTable.core.filter t.toPwdTable
  filterByLabels t := PwdTable.core.filterByLabels t.toPwdTable
  filterLabels t := PwdTable.core.filterLabels t.toPwdTable
  createPwd t now description username password :=
    let created := PwdTable.core.createPwd t.toPwdTable now description username password
    (t.become created.1, created.2)
  deletePwd t p := t.become (PwdTable.core.deletePwd t.toPwdTable p)
  importPwd t p := t.become (PwdTable.core.importPwd t.toPwdTable p)
  edit t now p e := t.become (PwdTable.core.edit t.toPwdTable now p e)
  allLabels t := (t.entries.flatMap fun p => p.data.labels).dedup

/-- An edit that leaves its entry each label once goes through. -/
theorem edit_perm (t : LabelTable) (now : ℤ) {p : CorePwd} (hp : p ∈ t.entries) {e : PwdEdit}
    (he : (PwdTable.applyEdit now p.data e).labels.Nodup) :
    (store.all (store.edit t now p e)).Perm
      (⟨p.nativeHandle, PwdTable.applyEdit now p.data e⟩ :: (store.all t).erase p) := by
  have hperm := PwdTable.rewrite_entries_perm t.toPwdTable hp fun d => PwdTable.applyEdit now d e
  have hlabels : ∀ q ∈ (PwdTable.core.edit t.toPwdTable now p e).entries, q.data.labels.Nodup := by
    intro q hq
    rcases List.mem_cons.mp (hperm.mem_iff.mp hq) with rfl | hq
    · exact he
    · exact t.labels q (List.mem_of_mem_erase hq)
  have hbecome := become_toPwdTable (t := t) hlabels
  exact (List.Perm.of_eq (congrArg PwdTable.entries hbecome)).trans hperm

theorem store_lawful : store.Lawful where
  nodup t := t.nodup
  labels_nodup t := t.labels
  allLabels_nodup t := List.nodup_dedup _
  mem_allLabels t label := by
    rw [store, List.mem_dedup, List.mem_flatMap]
    rfl
  mem_filterLabels t pattern label :=
    List.mem_filter.trans (and_congr_right fun _ => decide_eq_true_iff)
  addPwdToLabel t now p hp label hlabel := by
    have hperm : (p.data.labels ++ [label]).Perm (label :: p.data.labels) :=
      List.perm_append_singleton label _
    exact ⟨⟨p.nativeHandle, PwdTable.applyEdit now p.data (.addPwdToLabel label)⟩, rfl, hperm,
      edit_perm t now hp (hperm.nodup_iff.mpr (List.nodup_cons.mpr ⟨hlabel, t.labels p hp⟩))⟩
  removePwdFromLabel t now p hp label :=
    ⟨⟨p.nativeHandle, PwdTable.applyEdit now p.data (.removePwdFromLabel label)⟩, rfl,
      List.Perm.refl _, edit_perm t now hp ((t.labels p hp).erase label)⟩

end LabelTable

/-! ## The dialog -/

/-- The dialog: the file it edits, what the adapter read last, the rows shown, and whether the button
that offers the available labels is enabled. -/
structure LabelEditor (L : Type*) where
  mPwdFile : CorePwdFile L
  mSelectedLabels : List SecureString
  mAvailableLabels : List SecureString
  rows : List SecureString
  mExistingLabelButton : Bool

namespace LabelEditor

variable (S : LabelStore L) (mPwd : ℕ)

def live (s : LabelEditor L) : L := s.mPwdFile.passwordList

/-- Those of all labels that are not selected. -/
def available (mAllLabels mSelectedLabels : List SecureString) : List SecureString :=
  mAllLabels.filter fun label => !mSelectedLabels.any fun selected => label = selected

def updateAvailableLabels (s : LabelEditor L) : Option (LabelEditor L) :=
  (S.pwd s.live mPwd).map fun p => { s with
    mSelectedLabels := p.data.labels
    mAvailableLabels := available (S.allLabels s.live) p.data.labels }

/-- `addLabelLists`, on a dialog just inflated. -/
def addLabelLists (mPwdFile : CorePwdFile L) : Option (LabelEditor L) := do
  let s ← updateAvailableLabels S mPwd ⟨mPwdFile, [], [], [], true⟩
  return { s with
    rows := s.mSelectedLabels
    mExistingLabelButton := if s.mAvailableLabels.length = 0 then false else s.mExistingLabelButton }

/-- What `addLabelToPassword` does to the dialog once the label is added to the file. -/
def labelAdded (s : LabelEditor L) (mPwdFile : CorePwdFile L) (label : SecureString) :
    Option (LabelEditor L) := do
  let s ← updateAvailableLabels S mPwd { s with mPwdFile := mPwdFile }
  return { s with
    mExistingLabelButton := if s.mAvailableLabels.length = 0 then false else s.mExistingLabelButton
    rows := s.rows ++ [label] }

/-- What `removeLabel` does to the dialog once the label is removed from the file. -/
def labelRemoved (s : LabelEditor L) (mPwdFile : CorePwdFile L) (row : ℕ) :
    Option (LabelEditor L) := do
  let s ← updateAvailableLabels S mPwd { s with mPwdFile := mPwdFile }
  return { s with
    mExistingLabelButton := if s.mAvailableLabels.length = 0 then false else true
    rows := s.rows.eraseIdx row }

/-- What the user does in the dialog. -/
inductive Action where
  | existingLabel (now : ℤ) (which : ℕ)
  | newLabel (now : ℤ) (result : SecureString)
  | removeLabel (now : ℤ) (row : ℕ)
  deriving DecidableEq, Repr

/-- A refused action leaves the dialog alone. -/
def handled (s : LabelEditor L) (shown : CorePwdFile L → Option (LabelEditor L)) :
    Except (InputField × InputError) (CorePwdFile L) → Option (LabelEditor L)
  | .error _ => some s
  | .ok f => shown f

/-- There is a label to choose or a row to remove. -/
def Action.Possible (s : LabelEditor L) : Action → Prop
  | .existingLabel _ which => s.mExistingLabelButton = true ∧ which < s.mAvailableLabels.length
  | .newLabel _ _ => True
  | .removeLabel _ row => row < s.rows.length

/-- One action.  It has no next state where it is not possible, or comes to a password that is no
longer there. -/
def step (s : LabelEditor L) : Action → Option (LabelEditor L)
  | .existingLabel now which =>
    if s.mExistingLabelButton then
      s.mAvailableLabels[which]?.bind fun label => (S.pwd s.live mPwd).bind fun p =>
        s.handled (fun f => labelAdded S mPwd s f label)
          (EditLabelsAlert.addLabelToPassword S.toCorePwdList now s.mPwdFile p label)
    else none
  | .newLabel now result => (S.pwd s.live mPwd).bind fun p =>
      s.handled (fun f => labelAdded S mPwd s f result)
        (EditLabelsAlert.closeNewLabel S.toCorePwdList now s.mPwdFile p result)
  | .removeLabel now row =>
    s.rows[row]?.bind fun label => (S.pwd s.live mPwd).bind fun p =>
      s.handled (fun f => labelRemoved S mPwd s f row)
        (EditLabelsAlert.removeLabel S.toCorePwdList now s.mPwdFile p label)

/-- **What is to hold**: the rows are the labels of the password, each once, the labels offered are
the others of the store, and the button is enabled when there are any. -/
structure Agrees (s : LabelEditor L) (p : CorePwd) : Prop where
  pwd : S.pwd s.live mPwd = some p
  once : s.rows.Nodup
  rows : ∀ label, label ∈ s.rows ↔ label ∈ p.data.labels
  offered : s.mAvailableLabels.Nodup
  available : ∀ label, label ∈ s.mAvailableLabels ↔
    label ∈ S.allLabels s.live ∧ label ∉ p.data.labels
  button : s.mExistingLabelButton = true ↔
    ∃ label, label ∈ S.allLabels s.live ∧ label ∉ p.data.labels

/-! ## The invariant -/

/-- What every action keeps: the rows and the adapter are those of the password in the store. -/
structure Inv (s : LabelEditor L) (p : CorePwd) : Prop where
  pwd : S.pwd s.live mPwd = some p
  rows : s.rows.Perm p.data.labels
  available : s.mAvailableLabels = available (S.allLabels s.live) p.data.labels
  button : s.mExistingLabelButton = true ↔ s.mAvailableLabels ≠ []

theorem mem_available_iff {mAllLabels mSelectedLabels : List SecureString} {label : SecureString} :
    label ∈ available mAllLabels mSelectedLabels ↔
      label ∈ mAllLabels ∧ label ∉ mSelectedLabels := by
  rw [available, List.mem_filter, Bool.not_eq_true', List.any_eq_false]
  refine and_congr_right fun _ => ?_
  simp only [decide_eq_true_eq]
  exact ⟨fun h hmem => h label hmem rfl, fun h selected hs heq => h (heq ▸ hs)⟩

variable {S mPwd}

/-- The password of the dialog has its labels once. -/
theorem Inv.labels (hS : S.Lawful) {s : LabelEditor L} {p : CorePwd} (h : Inv S mPwd s p) :
    p.data.labels.Nodup :=
  hS.labels_nodup s.live p (hS.pwd_eq_some_iff.mp h.pwd).1

/-- **The invariant is what is to hold.** -/
theorem Inv.agrees (hS : S.Lawful) {s : LabelEditor L} {p : CorePwd} (h : Inv S mPwd s p) :
    Agrees S mPwd s p where
  pwd := h.pwd
  once := h.rows.nodup_iff.mpr (h.labels hS)
  rows _ := h.rows.mem_iff
  offered := h.available ▸ (hS.allLabels_nodup s.live).filter _
  available _ := h.available ▸ mem_available_iff
  button := by
    rw [h.button, h.available, ← List.length_pos_iff, List.length_pos_iff_exists_mem]
    exact exists_congr fun _ => mem_available_iff

/-- The password that an edit leaves in the place of `p`. -/
theorem pwd_of_perm (hS : S.Lawful) {list : L} {p p' : CorePwd} {others : List CorePwd}
    (hmPwd : p.nativeHandle = mPwd) (hsame : p'.nativeHandle = p.nativeHandle)
    (hperm : (S.all list).Perm (p' :: others)) : S.pwd list mPwd = some p' :=
  hS.pwd_eq_some_iff.mpr ⟨hperm.mem_iff.mpr List.mem_cons_self, hsame.trans hmPwd⟩

/-- The adapter reads the labels of the password. -/
theorem updateAvailableLabels_eq {s : LabelEditor L} {p : CorePwd}
    (h : S.pwd s.live mPwd = some p) :
    updateAvailableLabels S mPwd s = some { s with
      mSelectedLabels := p.data.labels
      mAvailableLabels := available (S.allLabels s.live) p.data.labels } := by
  rw [updateAvailableLabels, h]
  rfl

/-- A button disabled when there is nothing to offer. -/
theorem button_iff {offered : List SecureString} {enabled : Bool}
    (h : offered ≠ [] → enabled = true) :
    (if offered.length = 0 then false else enabled) = true ↔ offered ≠ [] := by
  cases offered with
  | nil => simp
  | cons label offered => simpa using h (List.cons_ne_nil label offered)

/-- **The dialog opens in agreement with the store.** -/
theorem inv_addLabelLists {f : CorePwdFile L} {p : CorePwd}
    (hp : S.pwd f.passwordList mPwd = some p) :
    ∃ s, addLabelLists S mPwd f = some s ∧ Inv S mPwd s p := by
  have hread := updateAvailableLabels_eq (s := ⟨f, [], [], [], true⟩) hp
  refine ⟨_, by rw [addLabelLists, hread]; rfl, ?_⟩
  exact ⟨hp, List.Perm.refl _, rfl, button_iff fun _ => rfl⟩

/-! ## Adding a label -/

/-- **Adding a label makes no label available**: what is offered afterwards was offered before. -/
theorem available_nil_of_add (hS : S.Lawful) {list list' : L} {p p' : CorePwd}
    {label : SecureString}
    (hlabels : p'.data.labels.Perm (label :: p.data.labels))
    (hperm : (S.all list').Perm (p' :: (S.all list).erase p))
    (hnone : available (S.allLabels list) p.data.labels = []) :
    available (S.allLabels list') p'.data.labels = [] := by
  refine List.eq_nil_iff_forall_not_mem.mpr fun other hother => ?_
  obtain ⟨hall, hnot⟩ := mem_available_iff.mp hother
  have hnotp : other ∉ p.data.labels := fun h =>
    hnot (hlabels.mem_iff.mpr (List.mem_cons_of_mem label h))
  obtain ⟨q, hq, hqother⟩ := (hS.mem_allLabels list' other).mp hall
  rcases List.mem_cons.mp (hperm.mem_iff.mp hq) with rfl | hq
  · exact hnot hqother
  · -- another password has it: it was offered before
    have hold : other ∈ S.allLabels list :=
      (hS.mem_allLabels list other).mpr ⟨q, List.mem_of_mem_erase hq, hqother⟩
    exact List.not_mem_nil (hnone ▸ mem_available_iff.mpr ⟨hold, hnotp⟩)

/-- **A label is added** that the password does not have. -/
theorem inv_labelAdded (hS : S.Lawful) {s : LabelEditor L} {p : CorePwd} (hs : Inv S mPwd s p)
    (now : ℤ) {label : SecureString} (hlabel : label ∉ p.data.labels) :
    ∃ t p', labelAdded S mPwd s
        (editAndSave S.toCorePwdList now s.mPwdFile p (.addPwdToLabel label)) label = some t ∧
      Inv S mPwd t p' := by
  obtain ⟨hp, hmPwd⟩ := hS.pwd_eq_some_iff.mp hs.pwd
  obtain ⟨p', hsame, hlabels, hperm⟩ := hS.addPwdToLabel s.live now p hp label hlabel
  have hp' := pwd_of_perm hS hmPwd hsame hperm
  have hread := updateAvailableLabels_eq (s := { s with
    mPwdFile := editAndSave S.toCorePwdList now s.mPwdFile p (.addPwdToLabel label) }) hp'
  refine ⟨_, p', by rw [labelAdded, hread]; rfl, ?_⟩
  refine ⟨hp', ?_, rfl, button_iff fun hoffered => ?_⟩
  · exact (List.perm_append_singleton label _).trans ((hs.rows.cons label).trans hlabels.symm)
  · rw [hs.button, hs.available]
    exact fun hnone => hoffered (available_nil_of_add hS hlabels hperm hnone)

/-- A new label that the keyboard accepts is one that no password has. -/
theorem closeNewLabel_eq_ok (hS : S.Lawful) {now : ℤ} {f f' : CorePwdFile L} {p : CorePwd}
    {result : SecureString}
    (h : EditLabelsAlert.closeNewLabel S.toCorePwdList now f p result = .ok f') :
    f' = editAndSave S.toCorePwdList now f p (.addPwdToLabel result) ∧
      result ∉ S.allLabels f.passwordList := by
  rw [EditLabelsAlert.closeNewLabel] at h
  split_ifs at h with hempty hmatch
  rw [exactMatch_iff fun filtered hfiltered =>
    ((hS.mem_filterLabels _ _ _).mp hfiltered).2, hS.mem_filterLabels] at hmatch
  exact ⟨(Except.ok.inj h).symm, fun hmem => hmatch ⟨hmem, List.infix_rfl⟩⟩

/-! ## Removing a label -/

/-- **A row is removed**, and its label with it. -/
theorem inv_labelRemoved (hS : S.Lawful) {s : LabelEditor L} {p : CorePwd} (hs : Inv S mPwd s p)
    (now : ℤ) {row : ℕ} {label : SecureString} (hrow : s.rows[row]? = some label) :
    ∃ t p', labelRemoved S mPwd s
        (editAndSave S.toCorePwdList now s.mPwdFile p (.removePwdFromLabel label)) row = some t ∧
      Inv S mPwd t p' := by
  obtain ⟨hp, hmPwd⟩ := hS.pwd_eq_some_iff.mp hs.pwd
  obtain ⟨p', hsame, hlabels, hperm⟩ := hS.removePwdFromLabel s.live now p hp label
  have hp' := pwd_of_perm hS hmPwd hsame hperm
  have hread := updateAvailableLabels_eq (s := { s with
    mPwdFile := editAndSave S.toCorePwdList now s.mPwdFile p (.removePwdFromLabel label) }) hp'
  refine ⟨_, p', by rw [labelRemoved, hread]; rfl, ?_⟩
  refine ⟨hp', ?_, rfl, button_iff fun _ => rfl⟩
  have hrows : s.rows.Nodup := hs.rows.nodup_iff.mpr (hs.labels hS)
  obtain ⟨hlt, rfl⟩ := List.getElem?_eq_some_iff.mp hrow
  have herase : s.rows.eraseIdx row = s.rows.erase s.rows[row] :=
    (hrows.erase_getElem row hlt).symm
  exact herase ▸ (hs.rows.erase _).trans hlabels.symm

/-! ## Every run -/

/-- **A possible action goes through** and keeps the invariant. -/
theorem exists_step (hS : S.Lawful) {s : LabelEditor L} {p : CorePwd} (hs : Inv S mPwd s p)
    {e : Action} (he : e.Possible s) : ∃ t p', step S mPwd s e = some t ∧ Inv S mPwd t p' := by
  cases e with
  | existingLabel now which =>
    obtain ⟨hbutton, hlt⟩ := he
    obtain ⟨label, hlabel⟩ : ∃ label, s.mAvailableLabels[which]? = some label :=
      ⟨_, List.getElem?_eq_getElem hlt⟩
    have hoffered : label ∈ s.mAvailableLabels := List.mem_of_getElem? hlabel
    rw [hs.available, mem_available_iff] at hoffered
    rw [step, if_pos hbutton, hlabel, Option.bind_some, hs.pwd, Option.bind_some]
    exact inv_labelAdded hS hs now hoffered.2
  | newLabel now result =>
    rw [step, hs.pwd, Option.bind_some]
    cases hclose : EditLabelsAlert.closeNewLabel S.toCorePwdList now s.mPwdFile p result with
    | error e => exact ⟨s, p, rfl, hs⟩
    | ok f =>
      obtain ⟨rfl, hnew⟩ := closeNewLabel_eq_ok hS hclose
      have hlabel : result ∉ p.data.labels := fun hmem =>
        hnew ((hS.mem_allLabels _ _).mpr ⟨p, (hS.pwd_eq_some_iff.mp hs.pwd).1, hmem⟩)
      exact inv_labelAdded hS hs now hlabel
  | removeLabel now row =>
    have hlabel := List.getElem?_eq_getElem he
    rw [step, hlabel, Option.bind_some, hs.pwd, Option.bind_some]
    exact inv_labelRemoved hS hs now hlabel

/-- What has a next state was possible. -/
theorem possible_of_step {s t : LabelEditor L} {e : Action} (h : step S mPwd s e = some t) :
    e.Possible s := by
  cases e with
  | existingLabel now which =>
    rw [step] at h
    split_ifs at h with hbutton
    obtain ⟨label, hlabel, -⟩ := Option.bind_eq_some_iff.mp h
    exact ⟨hbutton, (List.getElem?_eq_some_iff.mp hlabel).1⟩
  | newLabel now result => trivial
  | removeLabel now row =>
    obtain ⟨label, hlabel, -⟩ := Option.bind_eq_some_iff.mp h
    exact (List.getElem?_eq_some_iff.mp hlabel).1

/-- **One action** keeps the invariant. -/
theorem inv_step (hS : S.Lawful) {s t : LabelEditor L} {p : CorePwd} (hs : Inv S mPwd s p)
    {e : Action} (h : step S mPwd s e = some t) : ∃ p', Inv S mPwd t p' := by
  obtain ⟨t', p', ht', hinv⟩ := exists_step hS hs (possible_of_step h)
  exact ⟨p', Option.some.inj (ht'.symm.trans h) ▸ hinv⟩

/-- **The label editor agrees with the store**: the dialog opens, and after any actions its rows are
the labels of the password, it offers the other labels of the store, its button is enabled exactly
when there are any, and whatever is possible goes through. -/
theorem run_agrees (hS : S.Lawful) {f : CorePwdFile L} {p : CorePwd}
    (hp : S.pwd f.passwordList mPwd = some p) :
    ∃ s, addLabelLists S mPwd f = some s ∧
      ∀ es t, run (step S mPwd) s es = some t → (∃ p', Agrees S mPwd t p') ∧
        ∀ e : Action, e.Possible t → ∃ u, step S mPwd t e = some u := by
  obtain ⟨s, hs, hinv⟩ := inv_addLabelLists hp
  refine ⟨s, hs, fun es t ht => ?_⟩
  obtain ⟨p', hinv'⟩ := run_induction (I := fun s => ∃ p, Inv S mPwd s p)
    (fun s e t ⟨p, hp⟩ h => inv_step hS hp h) ⟨p, hinv⟩ ht
  refine ⟨⟨p', hinv'.agrees hS⟩, fun e he => ?_⟩
  obtain ⟨u, -, hu, -⟩ := exists_step hS hinv' he
  exact ⟨u, hu⟩

/-- A label of another password is chosen, the first one removed and a new one entered. -/
theorem run_agrees_table :
    let t : LabelTable :=
      ⟨(PwdTable.empty.add ⟨[1], [], [2], [[5], [6]], 3, 3⟩).add ⟨[8], [], [9], [[6]], 4, 4⟩,
        by decide⟩
    ∃ s u, addLabelLists LabelTable.store 2 (CorePwdFile.opened t) = some s ∧
      run (step LabelTable.store 2) s [.existingLabel 7 0, .removeLabel 8 0, .newLabel 9 [4]]
        = some u ∧
      u.rows = [[5], [4]] ∧ ∃ p, Agrees LabelTable.store 2 u p := by
  intro t
  have hp : LabelTable.store.pwd (CorePwdFile.opened t).passwordList 2
      = some ⟨2, [8], [], [9], [[6]], 4, 4⟩ := by decide
  obtain ⟨s, hs, hagrees⟩ := run_agrees LabelTable.store_lawful hp
  have hrows : ((addLabelLists LabelTable.store 2 (CorePwdFile.opened t)).bind fun s =>
      (run (step LabelTable.store 2) s [.existingLabel 7 0, .removeLabel 8 0, .newLabel 9 [4]]).map
        rows) = some [[5], [4]] := by decide
  rw [hs, Option.bind_some] at hrows
  obtain ⟨u, hu, hrows⟩ := Option.map_eq_some_iff.mp hrows
  exact ⟨s, u, hs, hu, hrows, (hagrees _ u hu).1⟩

end LabelEditor

end Kryptan
