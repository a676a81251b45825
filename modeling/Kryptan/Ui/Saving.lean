import Kryptan.Core.PwdList
import Kryptan.Machinery.Runs

/-!
# Ui/Saving — the edits a user confirms, and the password file on disk

    dialog ──accepted──▸ native edit of the list ──▸ SaveWithDialog ──▸ … Save … ──▸ disk

Each handler edits the live list and starts a save of its own; a refused edit does neither.  One of
them forgets: `editExistingPasswordClicked` returns without `SaveWithDialog`.  The disk agrees with
the list whenever no save is pending **exactly as long as that edit finds a save pending, or changes
nothing** (`allStates_saved_iff`).
-/

namespace Kryptan

open CoreSecureStringHandler Runs

variable {L : Type*}

/-- The password file: its live list, the list last written by `Save`, and the saves that were
started and have not finished. -/
structure CorePwdFile (L : Type*) where
  passwordList : L
  onDisk : L
  pending : ℕ

namespace CorePwdFile

def saveWithDialog (f : CorePwdFile L) : CorePwdFile L := { f with pending := f.pending + 1 }

/-- A started `SaveAsync` writes the list and finishes. -/
def save (f : CorePwdFile L) : CorePwdFile L :=
  { f with onDisk := f.passwordList, pending := f.pending - 1 }

end CorePwdFile

open CorePwdFile

/-! ## What the dialogs refuse -/

/-- Where an error is shown. -/
inductive InputField where
  | passwordEditText
  | descriptionEditText
  | keyboard
  deriving DecidableEq, Repr

/-- The text of an error. -/
inductive InputError where
  | fieldRequired
  | pwdAlreadyExists
  | labelAlreadyExists
  deriving DecidableEq, Repr

/-- A text of the length of `text` is among the results of a search for it. -/
def exactMatch (filterResults : List SecureString) (text : SecureString) : Bool :=
  filterResults.any fun filtered => getLength filtered = getLength text

/-- **A result of the same length is the text itself**, as a search finds nothing that does not
contain it. -/
theorem exactMatch_iff {filterResults : List SecureString} {text : SecureString}
    (hsearch : ∀ filtered ∈ filterResults, text <:+: filtered) :
    exactMatch filterResults text = true ↔ text ∈ filterResults := by
  rw [exactMatch, List.any_eq_true]
  constructor
  · rintro ⟨filtered, hfiltered, hlength⟩
    have hsame : getLength filtered = getLength text := of_decide_eq_true hlength
    rwa [(hsearch filtered hfiltered).eq_of_length hsame.symm]
  · exact fun htext => ⟨text, htext, decide_eq_true rfl⟩

namespace GeneratePasswordDialog

def validateNewPasswordAndDescription (C : CorePwdList L) (list : L)
    (password description : SecureString) : Except (InputField × InputError) Unit :=
  if getLength password = 0 then .error (.passwordEditText, .fieldRequired)
  else if getLength description = 0 then .error (.descriptionEditText, .fieldRequired)
  else if exactMatch ((C.filter list description).map CorePwd.getDescriptionCopy) description then
    .error (.descriptionEditText, .pwdAlreadyExists)
  else .ok ()

def createNewPasswordClicked (C : CorePwdList L) (now : ℤ) (mPwdFile : CorePwdFile L)
    (password description username : SecureString) :
    Except (InputField × InputError) (CorePwdFile L) :=
  match validateNewPasswordAndDescription C mPwdFile.passwordList password description with
  | .error e => .error e
  | .ok () =>
    let created :=
      if getLength username > 0 then
        C.createPwd mPwdFile.passwordList now description (some username) password
      else C.createPwd mPwdFile.passwordList now description none password
    .ok (saveWithDialog { mPwdFile with passwordList := created.1 })

def editExistingPasswordClicked (C : CorePwdList L) (now : ℤ) (mPwdFile : CorePwdFile L)
    (mEditPwd : CorePwd) (password : SecureString) :
    Except (InputField × InputError) (CorePwdFile L) :=
  if getLength password = 0 then .error (.passwordEditText, .fieldRequired)
  else
    -- no save is started here
    .ok { mPwdFile with
      passwordList := C.edit mPwdFile.passwordList now mEditPwd (.setNewPassword password) }

end GeneratePasswordDialog

/-- Edit the live list and start a save. -/
def editAndSave (C : CorePwdList L) (now : ℤ) (mPwdFile : CorePwdFile L) (mPwd : CorePwd)
    (e : PwdEdit) : CorePwdFile L :=
  saveWithDialog { mPwdFile with passwordList := C.edit mPwdFile.passwordList now mPwd e }

namespace SecretDetailFragment

/-- `KeyboardCloseValidate` of the keyboard for the description. -/
def closeDescription (C : CorePwdList L) (now : ℤ) (mPwdFile : CorePwdFile L) (mPwd : CorePwd)
    (result : SecureString) : Except (InputField × InputError) (CorePwdFile L) :=
  if getLength result = 0 then .error (.keyboard, .fieldRequired)
  else if exactMatch ((C.filter mPwdFile.passwordList result).map CorePwd.getDescriptionCopy)
      result then
    .error (.keyboard, .pwdAlreadyExists)
  else .ok (editAndSave C now mPwdFile mPwd (.setNewDescription result))

/-- `KeyboardCloseValidate` of the keyboard for the username. -/
def closeUsername (C : CorePwdList L) (now : ℤ) (mPwdFile : CorePwdFile L) (mPwd : CorePwd)
    (result : SecureString) : Except (InputField × InputError) (CorePwdFile L) :=
  .ok (editAndSave C now mPwdFile mPwd (.setNewUsername result))

def deletePassword (C : CorePwdList L) (mPwdFile : CorePwdFile L) (mPwd : CorePwd) :
    Except (InputField × InputError) (CorePwdFile L) :=
  .ok (saveWithDialog
    { mPwdFile with passwordList := C.deletePwd mPwdFile.passwordList mPwd })

end SecretDetailFragment

namespace EditLabelsAlert

def addLabelToPassword (C : CorePwdList L) (now : ℤ) (mPwdFile : CorePwdFile L) (mPwd : CorePwd)
    (label : SecureString) : Except (InputField × InputError) (CorePwdFile L) :=
  .ok (editAndSave C now mPwdFile mPwd (.addPwdToLabel label))

/-- `KeyboardCloseValidate` of the keyboard for a new label. -/
def closeNewLabel (C : CorePwdList L) (now : ℤ) (mPwdFile : CorePwdFile L) (mPwd : CorePwd)
    (result : SecureString) : Except (InputField × InputError) (CorePwdFile L) :=
  if getLength result = 0 then .error (.keyboard, .fieldRequired)
  else if exactMatch (C.filterLabels mPwdFile.passwordList result) result then
    .error (.keyboard, .labelAlreadyExists)
  else addLabelToPassword C now mPwdFile mPwd result

def removeLabel (C : CorePwdList L) (now : ℤ) (mPwdFile : CorePwdFile L) (mPwd : CorePwd)
    (label : SecureString) : Except (InputField × InputError) (CorePwdFile L) :=
  .ok (editAndSave C now mPwdFile mPwd (.removePwdFromLabel label))

end EditLabelsAlert

/-! ## A user at work -/

/-- The edits a user can confirm. -/
inductive Confirmed where
  | createPassword (password description username : SecureString)
  | editPassword (mEditPwd : CorePwd) (password : SecureString)
  | editDescription (mPwd : CorePwd) (result : SecureString)
  | editUsername (mPwd : CorePwd) (result : SecureString)
  | existingLabel (mPwd : CorePwd) (label : SecureString)
  | newLabel (mPwd : CorePwd) (result : SecureString)
  | removeLabel (mPwd : CorePwd) (label : SecureString)
  | deletePassword (mPwd : CorePwd)
  deriving DecidableEq, Repr

/-- The handler of a confirmed edit. -/
def handle (C : CorePwdList L) (now : ℤ) (f : CorePwdFile L) :
    Confirmed → Except (InputField × InputError) (CorePwdFile L)
  | .createPassword password description username =>
    GeneratePasswordDialog.createNewPasswordClicked C now f password description username
  | .editPassword mEditPwd password =>
    GeneratePasswordDialog.editExistingPasswordClicked C now f mEditPwd password
  | .editDescription mPwd result => SecretDetailFragment.closeDescription C now f mPwd result
  | .editUsername mPwd result => SecretDetailFragment.closeUsername C now f mPwd result
  | .existingLabel mPwd label => EditLabelsAlert.addLabelToPassword C now f mPwd label
  | .newLabel mPwd result => EditLabelsAlert.closeNewLabel C now f mPwd result
  | .removeLabel mPwd label => EditLabelsAlert.removeLabel C now f mPwd label
  | .deletePassword mPwd => SecretDetailFragment.deletePassword C f mPwd

/-- An edit is confirmed at some time, or a pending save finishes. -/
inductive FileEvent where
  | confirm (now : ℤ) (e : Confirmed)
  | saved
  deriving DecidableEq, Repr

/-- One event.  A refused edit leaves the file alone. -/
def CorePwdFile.step (C : CorePwdList L) (f : CorePwdFile L) : FileEvent → Option (CorePwdFile L)
  | .confirm now e =>
    match handle C now f e with
    | .ok f' => some f'
    | .error _ => some f
  | .saved => if f.pending = 0 then none else some f.save

/-- A file just opened. -/
def CorePwdFile.opened (list : L) : CorePwdFile L := ⟨list, list, 0⟩

/-- **What is to hold**: with every save finished, the disk has the list. -/
def Saved (f : CorePwdFile L) : Prop := f.pending = 0 → f.onDisk = f.passwordList

/-- An accepted edit of a secret finds a save pending, or leaves the list as it is. -/
def SecretCovered (C : CorePwdList L) (f : CorePwdFile L) : FileEvent → Prop
  | .confirm now (.editPassword mEditPwd password) =>
    getLength password = 0 ∨ f.pending ≠ 0 ∨
      C.edit f.passwordList now mEditPwd (.setNewPassword password) = f.passwordList
  | _ => True

/-! ## When it holds -/

/-- **Every accepted edit but that of a secret starts a save.** -/
theorem pending_of_handle {C : CorePwdList L} {now : ℤ} {f f' : CorePwdFile L} {e : Confirmed}
    (h : handle C now f e = .ok f') (he : ∀ p s, e ≠ .editPassword p s) : f'.pending ≠ 0 := by
  cases e with
  | createPassword password description username =>
    rw [handle, GeneratePasswordDialog.createNewPasswordClicked] at h
    split at h
    · exact nomatch h
    · exact Except.ok.inj h ▸ Nat.succ_ne_zero _
  | editPassword p s => exact absurd rfl (he p s)
  | editDescription p r =>
    rw [handle, SecretDetailFragment.closeDescription] at h
    split_ifs at h
    exact Except.ok.inj h ▸ Nat.succ_ne_zero _
  | newLabel p r =>
    rw [handle, EditLabelsAlert.closeNewLabel] at h
    split_ifs at h
    exact Except.ok.inj h ▸ Nat.succ_ne_zero _
  | editUsername | existingLabel | removeLabel | deletePassword =>
    exact Except.ok.inj h ▸ Nat.succ_ne_zero _

/-- An edit of a secret is saved exactly when it is refused, finds a save pending, or changes
nothing. -/
theorem saved_editPassword_iff {C : CorePwdList L} {f f' : CorePwdFile L} {now : ℤ} {p : CorePwd}
    {s : SecureString} (hf : Saved f) (h : f.step C (.confirm now (.editPassword p s)) = some f') :
    Saved f' ↔ SecretCovered C f (.confirm now (.editPassword p s)) := by
  rw [CorePwdFile.step, handle, GeneratePasswordDialog.editExistingPasswordClicked] at h
  by_cases hs : getLength s = 0
  · rw [if_pos hs] at h
    obtain rfl := Option.some.inj h
    exact iff_of_true hf (.inl hs)
  · rw [if_neg hs] at h
    obtain rfl := Option.some.inj h
    simp only [Saved, SecretCovered, hs, false_or]
    constructor
    · intro h'
      by_cases hp : f.pending = 0
      · exact .inr ((h' hp).symm.trans (hf hp))
      · exact .inl hp
    · rintro (hp | heq) hp'
      · exact absurd hp' hp
      · exact (hf hp').trans heq.symm

/-- **One step from a saved state**: the next one is saved exactly when an edit of a secret is
covered. -/
theorem saved_step_iff {C : CorePwdList L} {f f' : CorePwdFile L} {e : FileEvent} (hf : Saved f)
    (h : f.step C e = some f') : Saved f' ↔ SecretCovered C f e := by
  cases e with
  | saved =>
    rw [CorePwdFile.step] at h
    split_ifs at h
    exact iff_of_true (fun _ => Option.some.inj h ▸ rfl) trivial
  | confirm now e =>
    by_cases he : ∀ p s, e ≠ .editPassword p s
    · refine iff_of_true (fun hpending => ?_) ?_
      · rw [CorePwdFile.step] at h
        split at h
        case h_1 g heq =>
          obtain rfl := Option.some.inj h
          exact absurd hpending (pending_of_handle heq he)
        case h_2 =>
          obtain rfl := Option.some.inj h
          exact hf hpending
      · cases e with
        | editPassword p s => exact absurd rfl (he p s)
        | _ => trivial
    · simp only [not_forall, not_not] at he
      obtain ⟨p, s, rfl⟩ := he
      exact saved_editPassword_iff hf h

/-- **Every confirmed edit reaches the disk as long as every accepted edit of a secret finds a save
pending or changes nothing** — and no longer. -/
theorem allStates_saved_iff (C : CorePwdList L) (list : L) (es : List FileEvent) :
    AllStates (CorePwdFile.step C) Saved (opened list) es ↔
      AllSteps (CorePwdFile.step C) (SecretCovered C) (opened list) es := by
  have hopened : Saved (opened list) := fun _ => rfl
  exact allStates_iff_allSteps (I := Saved) (N := fun _ _ => True)
    (fun f e f' hf _ hP h => (saved_step_iff hf h).mpr hP) (fun _ hf => hf)
    (fun f e f' hf _ hP h hsaved => hP ((saved_step_iff hf h).mp hsaved)) hopened
    (allSteps_true _ _)

/-- A password's secret is edited, and nothing is saved. -/
theorem not_saved_after_editPassword :
    ¬ ∀ (list : PwdTable) (es : List FileEvent) (f : CorePwdFile PwdTable),
      run (CorePwdFile.step PwdTable.core) (opened list) es = some f → Saved f := by
  intro h
  have hsaved := h (PwdTable.empty.add ⟨[1], [], [2], [], 3, 4⟩)
    [.confirm 9 (.editPassword ⟨1, [1], [], [2], [], 3, 4⟩ [7])] _ rfl
  exact absurd (hsaved rfl) (by decide)

end Kryptan
