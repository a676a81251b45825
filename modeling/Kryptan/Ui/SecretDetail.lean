import Kryptan.Sync.Descriptions
import Kryptan.Ui.SecretAdapter

/-!
# Ui/SecretDetail — one password on the screen, and what its keyboards change

    mDescription ──▸ keyboard ──Done──▸ KeyboardCloseValidate ──▸ SetNewDescription, save, refresh
                        ▴                         │
                        ╰───────── error ◂────────╯

The keyboard for the description opens with the description that is there.  A new one is refused
when the list has it already, and the search that decides so goes through the whole list, the
password itself included.  **A rename is refused exactly when it would create a clash, except that
the password's own description is refused as well** (`renamesExactly_iff`).  What is on the screen
is what the store has, after any keyboards (`run_shown`).
-/

namespace Kryptan

open CorePwdFile CoreSecureStringHandler Runs

variable {L : Type*}

/-- `Filter` searches the descriptions of the whole list, a handle is that of one password, and a
setter changes the given password only. -/
structure CorePwdList.LawfulSetters (C : CorePwdList L) : Prop where
  nodup : ∀ list, ((C.all list).map CorePwd.nativeHandle).Nodup
  filter : ∀ list pattern, (C.filter list pattern).Perm
    ((C.all list).filter fun p => pattern <:+: p.getDescriptionCopy)
  edit : ∀ list now, ∀ p ∈ C.all list, ∀ e : PwdEdit, ∃ d : PwdData,
    d.description = e.description p ∧
      (C.all (C.edit list now p e)).Perm (⟨p.nativeHandle, d⟩ :: (C.all list).erase p)

theorem PwdTable.core_lawfulSetters : PwdTable.core.LawfulSetters where
  nodup t := t.nodup
  filter _ _ := List.Perm.refl _
  edit t now p hp e := ⟨applyEdit now p.data e, by cases e <;> rfl,
    rewrite_entries_perm t hp fun d => applyEdit now d e⟩

/-- The fragment: the handle of its password, the strings it has read of it, and the text of the
labels. -/
structure SecretDetailFragment (L : Type*) where
  mPwdFile : CorePwdFile L
  mPwd : ℕ
  mDescription : SecureString
  mUsername : SecureString
  mPassword : SecureString
  labelText : SecureString

/-- What a toast says. -/
inductive Toast where
  | descriptionEdited
  | usernameEdited
  deriving DecidableEq, Repr

/-- How `KeyboardCloseValidate` ends: the error it shows on the keyboard, the toast, and whether the
keyboard is closed. -/
structure Validated (L : Type*) where
  fragment : SecretDetailFragment L
  error : Option InputError
  toast : Option Toast
  closes : Bool

namespace SecretDetailFragment

/-- The id of the keyboard for the description. -/
@[match_pattern] abbrev descriptionId : ℕ := 1

/-- The id of the keyboard for the username. -/
@[match_pattern] abbrev usernameId : ℕ := 2

variable (C : CorePwdList L)

def live (f : SecretDetailFragment L) : L := f.mPwdFile.passwordList

/-- The loop that puts the labels into one text. -/
def appendLabels (labelText : SecureString) : List SecureString → SecureString
  | [] => labelText
  | label :: labels =>
    let labelText := append labelText label
    appendLabels (if labels.length > 0 then appendString labelText [',', ' '] else labelText) labels

/-- `refreshContentView`, `none` if the handle is that of no password. -/
def refreshContentView (f : SecretDetailFragment L) : Option (SecretDetailFragment L) :=
  (C.lookup f.live f.mPwd).map fun d => { f with
    mDescription := d.description
    mUsername := d.username
    mPassword := d.password
    labelText := appendLabels newSecureString d.labels }

/-- A setter of `mPwd`, `none` if the handle is that of no password. -/
def set (now : ℤ) (f : SecretDetailFragment L) (e : PwdEdit) : Option (SecretDetailFragment L) :=
  (C.lookup f.live f.mPwd).map fun d =>
    { f with mPwdFile := { f.mPwdFile with
        passwordList := C.edit f.live now ⟨f.mPwd, d⟩ e } }

/-- What follows the cases of `KeyboardCloseValidate`. -/
def saveAndRefresh (toast : Option Toast) (f : SecretDetailFragment L) : Option (Validated L) :=
  (refreshContentView C { f with mPwdFile := f.mPwdFile.saveWithDialog }).map fun f =>
    ⟨f, none, toast, true⟩

def keyboardCloseValidate (now : ℤ) (f : SecretDetailFragment L) (id : ℕ) (result : SecureString) :
    Option (Validated L) :=
  match id with
  | descriptionId =>
    if getLength result = 0 then some ⟨f, some .fieldRequired, none, false⟩
    else if exactMatch ((C.filter f.live result).map CorePwd.getDescriptionCopy) result then
      some ⟨f, some .pwdAlreadyExists, none, false⟩
    else
      (set C now { f with mDescription := result } (.setNewDescription result)).bind
        (saveAndRefresh C (some .descriptionEdited))
  | usernameId =>
    (set C now { f with mUsername := result } (.setNewUsername result)).bind
      (saveAndRefresh C (some .usernameEdited))
  | _ => saveAndRefresh C none f

/-- The fragment of a password, once its view is there. -/
def opened (mPwdFile : CorePwdFile L) (mPwd : ℕ) : Option (SecretDetailFragment L) :=
  refreshContentView C ⟨mPwdFile, mPwd, [], [], [], []⟩

/-- A keyboard is closed with a text, or a dialog that has changed the file in any way. -/
inductive DetailEvent (L : Type*) where
  | keyboard (now : ℤ) (id : ℕ) (result : SecureString)
  | onDismiss (mPwdFile : CorePwdFile L)

/-- One event. -/
def step (f : SecretDetailFragment L) : DetailEvent L → Option (SecretDetailFragment L)
  | .keyboard now id result => (keyboardCloseValidate C now f id result).map Validated.fragment
  | .onDismiss mPwdFile => refreshContentView C { f with mPwdFile := mPwdFile }

/-! ## What is to hold -/

/-- The entry of a password has a new description, and no other entry has changed. -/
def Renamed (list list' : L) (p : CorePwd) (desc : SecureString) : Prop :=
  ∃ p' : CorePwd, p'.nativeHandle = p.nativeHandle ∧ p'.getDescriptionCopy = desc ∧
    (C.all list').Perm (p' :: (C.all list).erase p)

/-- **What is to hold of a rename**: it is accepted exactly when no other password has the
description, it changes the description of the password only, and a refused one changes and saves
nothing. -/
structure RenamesExactly (f : SecretDetailFragment L) (p : CorePwd) (desc : SecureString)
    (v : Validated L) : Prop where
  accepts : v.closes = true ↔ ∀ q ∈ C.all f.live, q ≠ p → q.getDescriptionCopy ≠ desc
  renamed : v.closes = true → Renamed C f.live v.fragment.live p desc
  refused : v.closes = false → v.fragment = f

/-- The screen shows what the store has of the password. -/
def Shown (f : SecretDetailFragment L) : Prop := refreshContentView C f = some f

/-! ## The keyboards -/

variable {C} {f g : SecretDetailFragment L} {v : Validated L} {now : ℤ} {p : CorePwd}
  {result : SecureString}

/-- What has just been read is shown. -/
theorem shown_of_refreshContentView (h : refreshContentView C f = some g) : Shown C g := by
  obtain ⟨d, hd, rfl⟩ := Option.map_eq_some_iff.mp h
  exact Option.map_eq_some_iff.mpr ⟨d, hd, rfl⟩

theorem shown_of_saveAndRefresh {toast : Option Toast} (h : saveAndRefresh C toast f = some v) :
    Shown C v.fragment := by
  obtain ⟨g, hg, rfl⟩ := Option.map_eq_some_iff.mp h
  exact shown_of_refreshContentView hg

/-- The texts of the labels, with commas between them. -/
theorem appendLabels_eq (labelText : SecureString) (labels : List SecureString) :
    appendLabels labelText labels
      = labelText ++ (Utf8.encode [',', ' ']).intercalate labels := by
  induction labels generalizing labelText with
  | nil => simp [appendLabels]
  | cons label labels ih =>
    rw [appendLabels, ih]
    cases labels with
    | nil => simp
    | cons label' labels => simp [List.intercalate]

/-- The file is saved and closes the keyboard, if the handle is still that of a password. -/
theorem exists_saveAndRefresh {d : PwdData} (h : C.lookup f.live f.mPwd = some d)
    (toast : Option Toast) :
    ∃ g, saveAndRefresh C toast f = some ⟨g, none, toast, true⟩ ∧
      g.mPwdFile = f.mPwdFile.saveWithDialog ∧ g.mPwd = f.mPwd := by
  have hread : C.lookup (live { f with mPwdFile := f.mPwdFile.saveWithDialog }) f.mPwd = some d := h
  rw [saveAndRefresh, refreshContentView, hread, Option.map_some, Option.map_some]
  exact ⟨_, rfl, rfl, rfl⟩

/-- **A setter changes its password only, and the file is saved.** -/
theorem exists_set_saveAndRefresh (hC : C.LawfulSetters) (hp : p ∈ C.all f.live)
    (hmPwd : f.mPwd = p.nativeHandle) (now : ℤ) {e : PwdEdit} {desc : SecureString}
    (hdesc : e.description p = desc) (toast : Option Toast) :
    ∃ g, (set C now f e).bind (saveAndRefresh C toast) = some ⟨g, none, toast, true⟩ ∧
      Renamed C f.live g.live p desc := by
  obtain ⟨d, hd, hperm⟩ := hC.edit f.live now p hp e
  have hset : set C now f e = some { f with mPwdFile := { f.mPwdFile with
      passwordList := C.edit f.live now p e } } := by
    rw [set, hmPwd, CorePwdList.lookup_nativeHandle (hC.nodup f.live) hp, Option.map_some]
  have hread : C.lookup (C.edit f.live now p e) f.mPwd = some d := by
    have hmem : ⟨p.nativeHandle, d⟩ ∈ C.all (C.edit f.live now p e) :=
      hperm.mem_iff.mpr List.mem_cons_self
    rw [hmPwd]
    exact CorePwdList.lookup_nativeHandle (hC.nodup _) hmem
  obtain ⟨g, hg, hfile, -⟩ := exists_saveAndRefresh (f := { f with mPwdFile :=
    { f.mPwdFile with passwordList := C.edit f.live now p e } }) hread toast
  refine ⟨g, by rw [hset, Option.bind_some, hg], ⟨p.nativeHandle, d⟩, rfl, hd.trans hdesc, ?_⟩
  rw [live, hfile]
  exact hperm

/-- A description the list has, the password's own too, is refused. -/
theorem keyboardCloseValidate_of_mem (hC : C.LawfulSetters) (now : ℤ) (hresult : result ≠ [])
    (htaken : result ∈ descriptions (C.all f.live)) :
    keyboardCloseValidate C now f descriptionId result
      = some ⟨f, some .pwdAlreadyExists, none, false⟩ := by
  have hmatch := (exactMatch_search_iff (hC.filter f.live result)).mpr htaken
  have hlength : getLength result ≠ 0 := mt List.eq_nil_of_length_eq_zero hresult
  rw [keyboardCloseValidate, if_neg hlength, if_pos hmatch]

/-- Any other description is accepted. -/
theorem keyboardCloseValidate_of_notMem (hC : C.LawfulSetters) (hp : p ∈ C.all f.live)
    (hmPwd : f.mPwd = p.nativeHandle) (now : ℤ) (hresult : result ≠ [])
    (hnew : result ∉ descriptions (C.all f.live)) :
    ∃ g, keyboardCloseValidate C now f descriptionId result
        = some ⟨g, none, some .descriptionEdited, true⟩ ∧ Renamed C f.live g.live p result := by
  have hmatch := mt (exactMatch_search_iff (hC.filter f.live result)).mp hnew
  have hlength : getLength result ≠ 0 := mt List.eq_nil_of_length_eq_zero hresult
  rw [keyboardCloseValidate, if_neg hlength, if_neg hmatch]
  exact exists_set_saveAndRefresh (f := { f with mDescription := result }) hC hp hmPwd now rfl _

/-- **A rename is refused exactly when it would create a clash, except that the password's own
description is refused as well.** -/
theorem renamesExactly_iff (hC : C.LawfulSetters) (hp : p ∈ C.all f.live)
    (hmPwd : f.mPwd = p.nativeHandle) (now : ℤ) (hresult : result ≠ []) :
    ∃ v, keyboardCloseValidate C now f descriptionId result = some v ∧
      (RenamesExactly C f p result v ↔
        (p.getDescriptionCopy ≠ result ∨
          ∃ q ∈ C.all f.live, q ≠ p ∧ q.getDescriptionCopy = result)) := by
  by_cases htaken : result ∈ descriptions (C.all f.live)
  · refine ⟨_, keyboardCloseValidate_of_mem hC now hresult htaken, fun h => ?_, fun h => ?_⟩
    · have hother := mt h.accepts.mpr Bool.false_ne_true
      push Not at hother
      exact .inr hother
    · refine ⟨iff_of_false Bool.false_ne_true fun hfree => ?_,
        fun h => absurd h Bool.false_ne_true, fun _ => rfl⟩
      obtain ⟨q, hq, hdesc⟩ := mem_descriptions.mp htaken
      rcases h with hown | ⟨q, hq, hne, hdesc⟩
      · exact hfree q hq (fun heq => hown (heq ▸ hdesc)) hdesc
      · exact hfree q hq hne hdesc
  · obtain ⟨g, hg, hrenamed⟩ :=
      keyboardCloseValidate_of_notMem hC hp hmPwd now hresult htaken
    have hfree : ∀ q ∈ C.all f.live, q.getDescriptionCopy ≠ result := fun q hq hdesc =>
      htaken (mem_descriptions.mpr ⟨q, hq, hdesc⟩)
    refine ⟨_, hg, iff_of_true ⟨iff_of_true rfl fun q hq _ => hfree q hq, fun _ => hrenamed,
      fun h => nomatch h⟩ (.inl (hfree p hp))⟩

/-- A new description is accepted. -/
theorem renamesExactly_table :
    let t := (PwdTable.empty.add ⟨[1], [], [2], [], 3, 3⟩).add ⟨[8], [], [9], [], 4, 4⟩
    ∃ v, keyboardCloseValidate PwdTable.core 9 ⟨CorePwdFile.opened t, 2, [8], [], [9], []⟩
        descriptionId [1, 8] = some v ∧
      RenamesExactly PwdTable.core ⟨CorePwdFile.opened t, 2, [8], [], [9], []⟩
        ⟨2, [8], [], [9], [], 4, 4⟩ [1, 8] v := by
  intro t
  obtain ⟨v, hv, hiff⟩ := renamesExactly_iff PwdTable.core_lawfulSetters
    (f := ⟨CorePwdFile.opened t, 2, [8], [], [9], []⟩) (p := ⟨2, [8], [], [9], [], 4, 4⟩)
    (by decide) rfl 9 (List.cons_ne_nil 1 [8])
  exact ⟨v, hv, hiff.mpr (.inl (by decide))⟩

/-- The keyboard for the description of the only password is closed as it was opened. -/
theorem not_renamesExactly_unchanged :
    ¬ ∀ (f : SecretDetailFragment PwdTable) (p : CorePwd) (now : ℤ) (result : SecureString)
      (v : Validated PwdTable), p ∈ PwdTable.core.all f.live → f.mPwd = p.nativeHandle →
      result ≠ [] → keyboardCloseValidate PwdTable.core now f descriptionId result = some v →
      RenamesExactly PwdTable.core f p result v := by
  intro h
  let f : SecretDetailFragment PwdTable :=
    ⟨CorePwdFile.opened (PwdTable.empty.add ⟨[1], [], [2], [], 3, 3⟩), 1, [1], [], [2], []⟩
  have hexact := h f ⟨1, [1], [], [2], [], 3, 3⟩ 9 [1] ⟨f, some .pwdAlreadyExists, none, false⟩
    (by decide) rfl (List.cons_ne_nil 1 []) rfl
  refine Bool.false_ne_true (hexact.accepts.mpr fun q hq hne => ?_)
  obtain rfl : q = ⟨1, [1], [], [2], [], 3, 3⟩ := List.mem_singleton.mp hq
  exact absurd rfl hne

/-! ## The handlers of the session -/

/-- What a setter and the save after it leave of the file. -/
theorem mPwdFile_of_set {d : PwdData} (hd : C.lookup f.live f.mPwd = some d) {e : PwdEdit}
    {toast : Option Toast}
    (h : (set C now f e).bind (saveAndRefresh C toast) = some v) :
    v.error = none ∧ v.fragment.mPwdFile = editAndSave C now f.mPwdFile ⟨f.mPwd, d⟩ e := by
  obtain ⟨g, hg, hv⟩ := Option.bind_eq_some_iff.mp h
  rw [set, hd] at hg
  obtain rfl := Option.some.inj hg
  obtain ⟨g, hg, rfl⟩ := Option.map_eq_some_iff.mp hv
  obtain ⟨d', -, rfl⟩ := Option.map_eq_some_iff.mp hg
  exact ⟨rfl, rfl⟩

/-- What `KeyboardCloseValidate` answers, in the terms of the handlers. -/
def answer (v : Validated L) : Except (InputField × InputError) (CorePwdFile L) :=
  match v.error with
  | none => .ok v.fragment.mPwdFile
  | some e => .error (.keyboard, e)

/-- **The keyboard for the description does to the file what its handler does.** -/
theorem answer_description {d : PwdData} (hd : C.lookup f.live f.mPwd = some d)
    (hv : keyboardCloseValidate C now f descriptionId result = some v) :
    handle C now f.mPwdFile (.editDescription ⟨f.mPwd, d⟩ result) = answer v := by
  rw [keyboardCloseValidate, live] at hv
  rw [handle, closeDescription]
  split_ifs at hv with hlength hmatch
  · rw [if_pos hlength, ← Option.some.inj hv, answer]
  · rw [if_neg hlength, if_pos hmatch, ← Option.some.inj hv, answer]
  · obtain ⟨herror, hfile⟩ := mPwdFile_of_set (f := { f with mDescription := result }) hd hv
    rw [if_neg hlength, if_neg hmatch, answer, herror, hfile]

/-- **So does the keyboard for the username.** -/
theorem answer_username {d : PwdData} (hd : C.lookup f.live f.mPwd = some d)
    (hv : keyboardCloseValidate C now f usernameId result = some v) :
    handle C now f.mPwdFile (.editUsername ⟨f.mPwd, d⟩ result) = answer v := by
  rw [keyboardCloseValidate] at hv
  obtain ⟨herror, hfile⟩ := mPwdFile_of_set (f := { f with mUsername := result }) hd hv
  rw [handle, closeUsername, answer, herror, hfile]

/-! ## The screen -/

/-- **One event**: what is shown is what the store has. -/
theorem shown_step {e : DetailEvent L} (hf : Shown C f) (h : step C f e = some g) :
    Shown C g := by
  cases e with
  | keyboard now id result =>
    obtain ⟨v, hv, rfl⟩ := Option.map_eq_some_iff.mp h
    unfold keyboardCloseValidate at hv
    split at hv
    · split_ifs at hv
      · exact Option.some.inj hv ▸ hf
      · exact Option.some.inj hv ▸ hf
      · obtain ⟨g, -, hg⟩ := Option.bind_eq_some_iff.mp hv
        exact shown_of_saveAndRefresh hg
    · obtain ⟨g, -, hg⟩ := Option.bind_eq_some_iff.mp hv
      exact shown_of_saveAndRefresh hg
    · exact shown_of_saveAndRefresh hv
  | onDismiss mPwdFile => exact shown_of_refreshContentView h

/-- **The screen shows what the store has of the password, after any keyboards and dialogs.** -/
theorem run_shown {mPwdFile : CorePwdFile L} {mPwd : ℕ} (hf : opened C mPwdFile mPwd = some f)
    {es : List (DetailEvent L)} (hg : run (step C) f es = some g) :
    ∃ d, C.lookup g.live g.mPwd = some d ∧ g.mDescription = d.description ∧
      g.mUsername = d.username ∧ g.mPassword = d.password ∧
      g.labelText = (Utf8.encode [',', ' ']).intercalate d.labels := by
  have hshown : Shown C g :=
    run_induction (fun _ _ _ h => shown_step h) (shown_of_refreshContentView hf) hg
  obtain ⟨d, hd, heq⟩ := Option.map_eq_some_iff.mp hshown
  rw [← heq]
  exact ⟨d, hd, rfl, rfl, rfl, appendLabels_eq newSecureString d.labels⟩

end SecretDetailFragment

end Kryptan
