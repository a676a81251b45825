import Kryptan.Ui.LabelEditor
import Kryptan.Ui.LabelFilter
import Kryptan.Ui.SecretDetail

/-!
# Ui/Screens — the activities over one password list

    SelectLabelActivity ──browse──▸ SecretListActivity ──onItemSelected──▸ SecretDetailActivity
             ▴                          ▴   │    ▴                                 │
             ╰────onSecretListDone──────┴───╯    ╰────────onActivityResult─────────╯

Every screen shows what it has read of the list, and reads again when it comes back to the front.  On
a wide screen the details are a pane of the list and not a screen of their own, and the pane is
emptied by a fragment for the password `null`.  **The screen in front always shows the list as it is,
and would show it under any search made next, and nothing throws, as long as no sync is started from
the details, an emptied pane opens no dialog and copies and confirms nothing, a sync leaves the
password in the pane as it was, and a list that was searched is only shown again with the set of
passwords it was first searched in** — and no longer (`allStates_frontRight_iff`).
-/

namespace Kryptan

open Runs

variable {L : Type*}

/-! ## The views -/

/-- The screen of the labels: those of the list, the ticked ones, and the number on the button. -/
structure LabelScreen where
  mLabels : List SecureString
  mSelectedLabels : List SecureString
  nrOfMatches : ℕ
  deriving DecidableEq, Repr

/-- What a `SecretDetailFragment` shows of its password. -/
structure DetailView where
  mPwd : ℕ
  mDescription : SecureString
  mUsername : SecureString
  mPassword : SecureString
  labelText : SecureString
  deriving DecidableEq, Repr

/-- The container for details in a wide list: with no fragment yet, with one for the password
`null`, or with one for a password. -/
inductive DetailPane where
  | empty
  | null
  | shows (v : DetailView)
  deriving DecidableEq, Repr

/-- The screen of the secrets: its adapter, but for the list. -/
structure ListScreen where
  mLabelsFilter : List SecureString
  mFilteredSecrets : List ℕ
  mFilter : Option (List ℕ)
  shown : List Char
  deriving DecidableEq, Repr

/-- What ends the program: an exception, or a native method on the handle of no password. -/
inductive Crash where
  | illegalArgument
  | nullPointer
  | deadHandle
  deriving DecidableEq, Repr

/-- The activity in front, over the ones it was started from.  A list on which a screen of details
was started has no pane. -/
inductive Front where
  | labels
  | list (l : ListScreen) (mDetails : DetailPane)
  | detail (l : ListScreen) (v : DetailView)
  | crashed (c : Crash)
  deriving DecidableEq, Repr

/-- The open list and the activities. -/
structure Screens (L : Type*) where
  passwordList : L
  labels : LabelScreen
  front : Front

/-- What the user does.  `editKeyboard` is the keyboard for the description or the username, with the
setter it is confirmed with, if it is; `editDialog` the dialog for the password or the labels once it
is closed, with the setters it has called; `delete` a deletion that is confirmed; and `sync` a sync
that leaves the given list. -/
inductive ScreenEvent (L : Type*) where
  | onLabelSelectionChanged (label : SecureString) (isSelected : Bool)
  | browse
  | newPassword (now : ℤ) (description : SecureString) (username : Option SecureString)
      (password : SecureString)
  | sync (list : L)
  | onItemSelected (pwd : ℕ)
  | actionSearch
  | search (constraint : List Char)
  | editKeyboard (confirmed : Option (ℤ × PwdEdit))
  | editDialog (edits : List (ℤ × PwdEdit))
  | delete
  | copy
  | back

/-- Tables, with the labels that some entry has. -/
def PwdTable.labelCore : LabelStore PwdTable where
  toCorePwdList := PwdTable.core
  allLabels t := (t.entries.flatMap fun p => p.data.labels).dedup

variable (C : LabelStore L) (text : JavaText) (mTwoPane : Bool)

namespace LabelScreen

def setMatchingPasswordsText (s : LabelScreen) (list : L) : LabelScreen :=
  { s with nrOfMatches := (C.filterByLabels list s.mSelectedLabels).length }

/-- `onFileDecryptDone`, `onSecretListDone` and `onSyncronizationDone`. -/
def refreshData (list : L) : LabelScreen :=
  setMatchingPasswordsText C ⟨C.allLabels list, [], 0⟩ list

def onLabelSelectionChanged (s : LabelScreen) (list : L) (label : SecureString)
    (isSelected : Bool) : LabelScreen :=
  setMatchingPasswordsText C { s with
    mSelectedLabels :=
      if isSelected then s.mSelectedLabels ++ [label] else s.mSelectedLabels.erase label } list

end LabelScreen

namespace DetailView

/-- A fragment that has read its password. -/
def read (mPwd : ℕ) (d : PwdData) : DetailView where
  mPwd := mPwd
  mDescription := d.description
  mUsername := d.username
  mPassword := d.password
  labelText := SecretDetailFragment.appendLabels CoreSecureStringHandler.newSecureString d.labels

/-- What the password is read as, if there is one under the handle. -/
def refreshContentView (list : L) (mPwd : ℕ) : Option DetailView :=
  (C.lookup list mPwd).map (read mPwd)

/-- The setters of a dialog, `none` once the handle is that of no password. -/
def setAll (mPwd : ℕ) (list : L) : List (ℤ × PwdEdit) → Option L
  | [] => some list
  | (now, e) :: edits => (C.lookup list mPwd).bind fun d =>
      setAll mPwd (C.edit list now ⟨mPwd, d⟩ e) edits

/-- `deletePwd` of the fragment's password. -/
def deletePwd (mPwd : ℕ) (list : L) : Option L :=
  (C.lookup list mPwd).map fun d => C.deletePwd list ⟨mPwd, d⟩

end DetailView

namespace ListScreen

/-- The adapter of the screen over the open list. -/
def adapter (l : ListScreen) (list : L) : SecretAdapter L :=
  ⟨list, l.mFilteredSecrets, l.mFilter, l.shown⟩

/-- The screen with another state of its adapter. -/
def withAdapter (l : ListScreen) (a : SecretAdapter L) : ListScreen :=
  { l with mFilteredSecrets := a.mFilteredSecrets, mFilter := a.mFilter, shown := a.shown }

def refreshListContents (l : ListScreen) (list : L) : ListScreen :=
  l.withAdapter (SecretAdapter.refreshData C.toCorePwdList l.mLabelsFilter (l.adapter list))

/-- `onCreate`. -/
def onCreate (list : L) (mLabelsFilter : List SecureString) : ListScreen :=
  withAdapter ⟨mLabelsFilter, [], none, []⟩
    (SecretAdapter.new C.toCorePwdList mLabelsFilter list)

end ListScreen

namespace Screens

open DetailView

/-- The file has just been opened. -/
def onFileDecryptDone (list : L) : Screens L := ⟨list, LabelScreen.refreshData C list, .labels⟩

def crash (s : Screens L) (c : Crash) : Screens L := { s with front := .crashed c }

/-- A fragment for a password in the pane, which has the list read again. -/
def showInPane (s : Screens L) (l : ListScreen) (pwd : ℕ) : Screens L :=
  match refreshContentView C s.passwordList pwd with
  | none => s.crash .deadHandle
  | some v => { s with
      front := .list (l.refreshListContents C s.passwordList) (.shows v) }

/-- A fragment for a password on a screen of its own. -/
def showOnScreen (s : Screens L) (l : ListScreen) (pwd : ℕ) : Screens L :=
  match refreshContentView C s.passwordList pwd with
  | none => s.crash .deadHandle
  | some v => { s with front := .detail l v }

/-- `onItemSelected` and `showNewlyCreatedPwd`. -/
def showPwd (s : Screens L) (l : ListScreen) (pwd : ℕ) : Screens L :=
  if mTwoPane then showInPane C s l pwd else showOnScreen C s l pwd

/-- The setters of the fragment in the pane, and what it reads after them. -/
def editInPane (s : Screens L) (l : ListScreen) (v : DetailView) (edits : List (ℤ × PwdEdit)) :
    Screens L :=
  match setAll C v.mPwd s.passwordList edits with
  | none => s.crash .deadHandle
  | some list => showInPane C { s with passwordList := list } l v.mPwd

/-- The setters of the fragment on a screen of its own. -/
def editOnScreen (s : Screens L) (l : ListScreen) (v : DetailView) (edits : List (ℤ × PwdEdit)) :
    Screens L :=
  match setAll C v.mPwd s.passwordList edits with
  | none => s.crash .deadHandle
  | some list => showOnScreen C { s with passwordList := list } l v.mPwd

/-- A list in front again: `onActivityResult` with any request code. -/
def returnToList (s : Screens L) (l : ListScreen) (mDetails : DetailPane) : Screens L :=
  { s with front := .list (l.refreshListContents C s.passwordList) mDetails }

/-- The screen of the labels in front again. -/
def returnToLabels (s : Screens L) : Screens L :=
  { s with labels := .refreshData C s.passwordList, front := .labels }

/-- What happens on the screen of the labels. -/
def labelStep (s : Screens L) : ScreenEvent L → Option (Screens L)
  | .onLabelSelectionChanged label isSelected =>
    if s.labels.mLabels.contains label then
      some { s with
        labels := s.labels.onLabelSelectionChanged C s.passwordList label isSelected }
    else none
  -- the button is disabled when nothing matches
  | .browse =>
    if s.labels.nrOfMatches > 0 then
      some { s with front := .list (.onCreate C s.passwordList s.labels.mSelectedLabels) .empty }
    else none
  -- the search in the menu is not
  | .actionSearch =>
    some { s with front := .list (.onCreate C s.passwordList s.labels.mSelectedLabels) .empty }
  | .newPassword now description username password =>
    let (list, pwd) := C.createPwd s.passwordList now description username password
    some (showPwd C mTwoPane { s with passwordList := list } (.onCreate C list [])
      pwd.nativeHandle)
  | .sync list => some (returnToLabels C { s with passwordList := list })
  | _ => none

/-- What happens on the screen of the secrets. -/
def listStep (s : Screens L) (l : ListScreen) (mDetails : DetailPane) :
    ScreenEvent L → Option (Screens L)
  | .newPassword now description username password =>
    let (list, pwd) := C.createPwd s.passwordList now description username password
    some (showPwd C mTwoPane { s with passwordList := list } l pwd.nativeHandle)
  | .sync list => some (returnToList C { s with passwordList := list } l mDetails)
  | .onItemSelected pwd =>
    if pwd ∈ l.mFilteredSecrets then some (showPwd C mTwoPane s l pwd) else none
  | .search constraint =>
    match SecretAdapter.step C.toCorePwdList text l.mLabelsFilter (l.adapter s.passwordList)
        (.search constraint) with
    | none => some (s.crash .deadHandle)
    | some a => some { s with front := .list (l.withAdapter a) mDetails }
  -- `showSearch` shows the text searched for last, and searches for nothing itself
  | .actionSearch => some s
  | .editKeyboard confirmed =>
    match mDetails, confirmed with
    | .empty, _ => none
    -- the keyboard of an emptied pane starts from a new string, and only its setter needs a password
    | .null, none => some s
    | .null, some _ => some (s.crash .nullPointer)
    | .shows _, none => some s
    | .shows v, some edit => some (editInPane C s l v [edit])
  -- the dialogs read the password as they open, and the fragment reads it as they close
  | .editDialog edits =>
    match mDetails with
    | .empty => none
    | .null => some (s.crash .nullPointer)
    | .shows v => some (editInPane C s l v edits)
  | .delete =>
    match mDetails with
    | .empty => none
    | .null => some (s.crash .nullPointer)
    | .shows v =>
      match deletePwd C v.mPwd s.passwordList with
      | none => some (s.crash .deadHandle)
      -- `deselectCurrentlySelected` selects the password `null`
      | some list => some { s with
          passwordList := list
          front := .list (l.refreshListContents C list) .null }
  | .copy =>
    match mDetails with
    | .empty => none
    | .null => some (s.crash .nullPointer)
    | .shows _ => some s
  | .back => some (returnToLabels C s)
  | _ => none

/-- What happens on the screen of the details. -/
def detailStep (s : Screens L) (l : ListScreen) (v : DetailView) :
    ScreenEvent L → Option (Screens L)
  -- the password goes back as a result, and the list starts another screen for it
  | .newPassword now description username password =>
    let (list, pwd) := C.createPwd s.passwordList now description username password
    some (showPwd C mTwoPane { s with passwordList := list } (l.refreshListContents C list)
      pwd.nativeHandle)
  -- the intent has no password file
  | .sync _ => some (s.crash .illegalArgument)
  | .editKeyboard none => some s
  | .editKeyboard (some edit) => some (editOnScreen C s l v [edit])
  | .editDialog edits => some (editOnScreen C s l v edits)
  | .delete =>
    match deletePwd C v.mPwd s.passwordList with
    | none => some (s.crash .deadHandle)
    | some list => some (returnToList C { s with passwordList := list } l .empty)
  | .copy => some s
  -- the search in the menu goes back too, and has the list show its dialog
  | .back | .actionSearch => some (returnToList C s l .empty)
  | _ => none

/-- One event, for the activity in front. -/
def step (s : Screens L) (e : ScreenEvent L) : Option (Screens L) :=
  match s.front with
  | .labels => labelStep C mTwoPane s e
  | .list l mDetails => listStep C text mTwoPane s l mDetails e
  | .detail l v => detailStep C mTwoPane s l v e
  | .crashed _ => none

end Screens

/-! ## What is to hold -/

variable (hasLabels : PwdData → List SecureString → Bool)

/-- The labels are those of the list, and the number is that of the passwords under the ticked
ones. -/
structure LabelScreen.Right (s : LabelScreen) (list : L) : Prop where
  mLabels : s.mLabels = C.allLabels list
  nrOfMatches : s.nrOfMatches
    = ((C.all list).filter fun p => hasLabels p.data s.mSelectedLabels).length

/-- The fragment shows what there is to read of its password. -/
def DetailView.Right (list : L) (v : DetailView) : Prop :=
  refreshContentView C list v.mPwd = some v

/-- A fragment in the pane is right. -/
def DetailPane.Right (list : L) (pane : DetailPane) : Prop :=
  ∀ v, pane = .shows v → v.Right C list

/-- The rows, and what any search makes of them, are the store. -/
def ListScreen.Right (l : ListScreen) (list : L) : Prop :=
  SecretAdapter.ShowsStore C.toCorePwdList text l.mLabelsFilter hasLabels (l.adapter list)

/-- The passwords under the labels are those the list screen was first searched in, if it was. -/
def ListScreen.SameSet (l : ListScreen) (list : L) : Prop :=
  ∀ mOriginalSet ∈ l.mFilter,
    mOriginalSet.Perm (SecretAdapter.labelled C.toCorePwdList l.mLabelsFilter hasLabels list)

namespace Screens

open DetailView

/-- **The screen in front shows the list as it is**, and a list shows it under any search too. -/
def FrontRight (s : Screens L) : Prop :=
  match s.front with
  | .labels => s.labels.Right C hasLabels s.passwordList
  | .list l mDetails =>
    l.Right C text hasLabels s.passwordList ∧ mDetails.Right C s.passwordList
  | .detail _ v => v.Right C s.passwordList
  | .crashed _ => False

/-- The setters of the pane are called on a password, and leave the set of passwords that the list
was first searched in. -/
def EditSound (s : Screens L) (l : ListScreen) (mDetails : DetailPane)
    (edits : List (ℤ × PwdEdit)) : Prop :=
  mDetails ≠ .null ∧
    ∀ v, mDetails = .shows v → ∀ list ∈ setAll C v.mPwd s.passwordList edits,
      l.SameSet C hasLabels list

/-- An emptied pane opens no dialog and copies and confirms nothing, a sync leaves the password in
the pane as it was, and the list is read again over the set of passwords it was first searched in. -/
def ListSound (s : Screens L) (l : ListScreen) (mDetails : DetailPane) : ScreenEvent L → Prop
  | .newPassword now description username password => mTwoPane = true →
      l.SameSet C hasLabels (C.createPwd s.passwordList now description username password).1
  | .sync list => l.SameSet C hasLabels list ∧
      ∀ v, mDetails = .shows v →
        refreshContentView C list v.mPwd = refreshContentView C s.passwordList v.mPwd
  | .editKeyboard confirmed => ∀ edit ∈ confirmed, EditSound C hasLabels s l mDetails [edit]
  | .editDialog edits => EditSound C hasLabels s l mDetails edits
  | .delete => mDetails ≠ .null ∧
      ∀ v, mDetails = .shows v → ∀ list ∈ deletePwd C v.mPwd s.passwordList,
        l.SameSet C hasLabels list
  | .copy => mDetails ≠ .null
  | _ => True

/-- No sync is started, and the list that is returned to has the set of passwords it was first
searched in. -/
def DetailSound (s : Screens L) (l : ListScreen) (v : DetailView) : ScreenEvent L → Prop
  | .newPassword now description username password => mTwoPane = true →
      l.SameSet C hasLabels (C.createPwd s.passwordList now description username password).1
  | .sync _ => False
  | .delete => ∀ list ∈ deletePwd C v.mPwd s.passwordList, l.SameSet C hasLabels list
  | .back | .actionSearch => l.SameSet C hasLabels s.passwordList
  | _ => True

/-- What the front stays right under. -/
def Sound (s : Screens L) (e : ScreenEvent L) : Prop :=
  match s.front with
  | .list l mDetails => ListSound C mTwoPane hasLabels s l mDetails e
  | .detail l v => DetailSound C mTwoPane hasLabels s l v e
  | _ => True

end Screens

/-! ## One event -/

section

variable {C text mTwoPane hasLabels} {list : L} {mPwd : ℕ} {l : ListScreen}

/-- What is behind a handle is an entry of the list. -/
theorem CorePwdList.mem_of_lookup {C : CorePwdList L} {d : PwdData}
    (h : C.lookup list mPwd = some d) : ⟨mPwd, d⟩ ∈ C.all list := by
  obtain ⟨p, hp, rfl⟩ := Option.map_eq_some_iff.mp h
  obtain rfl : p.nativeHandle = mPwd := by simpa using List.find?_some hp
  exact List.mem_of_find?_eq_some hp

namespace DetailView

/-- **The setters leave the password under its handle.** -/
theorem exists_setAll (hC : C.toCorePwdList.LawfulSetters) {d : PwdData}
    (h : C.lookup list mPwd = some d) (edits : List (ℤ × PwdEdit)) :
    ∃ list' d', setAll C mPwd list edits = some list' ∧ C.lookup list' mPwd = some d' := by
  induction edits generalizing list d with
  | nil => exact ⟨list, d, rfl, h⟩
  | cons edit edits ih =>
    obtain ⟨d', -, hperm⟩ := hC.edit list edit.1 _ (CorePwdList.mem_of_lookup h) edit.2
    have hread : C.lookup (C.edit list edit.1 ⟨mPwd, d⟩ edit.2) mPwd = some d' :=
      CorePwdList.lookup_nativeHandle (p := ⟨mPwd, d'⟩) (hC.nodup _)
        (hperm.mem_iff.mpr List.mem_cons_self)
    rw [setAll, h, Option.bind_some]
    exact ih hread

/-- A password of the list is read. -/
theorem exists_refreshContentView {d : PwdData} (h : C.lookup list mPwd = some d) :
    ∃ v, refreshContentView C list mPwd = some v := ⟨_, Option.map_eq_some_iff.mpr ⟨d, h, rfl⟩⟩

/-- What has been read is right. -/
theorem right_of_refreshContentView {v : DetailView}
    (h : refreshContentView C list mPwd = some v) : v.Right C list := by
  obtain ⟨d, hd, rfl⟩ := Option.map_eq_some_iff.mp h
  exact h

/-- A right view is that of a password of the list. -/
theorem Right.exists_lookup {v : DetailView} (h : v.Right C list) :
    ∃ d, C.lookup list v.mPwd = some d :=
  let ⟨d, hd, _⟩ := Option.map_eq_some_iff.mp h
  ⟨d, hd⟩

/-- …and can be deleted. -/
theorem exists_deletePwd {v : DetailView} (h : v.Right C list) :
    ∃ list', deletePwd C v.mPwd list = some list' :=
  let ⟨_, hd⟩ := h.exists_lookup
  ⟨_, Option.map_eq_some_iff.mpr ⟨_, hd, rfl⟩⟩

end DetailView

/-! ## The screens and their parts -/

namespace DetailView

/-- The fragment over the password file. -/
def fragment (mPwdFile : CorePwdFile L) (v : DetailView) : SecretDetailFragment L :=
  ⟨mPwdFile, v.mPwd, v.mDescription, v.mUsername, v.mPassword, v.labelText⟩

/-- **The view is what the fragment reads.** -/
theorem map_fragment_refreshContentView (mPwdFile : CorePwdFile L) (v : DetailView) :
    (refreshContentView C mPwdFile.passwordList v.mPwd).map (fragment mPwdFile)
      = SecretDetailFragment.refreshContentView C.toCorePwdList (v.fragment mPwdFile) := by
  rw [refreshContentView, Option.map_map]
  rfl

/-- **A setter changes the list as it does for the fragment.** -/
theorem setAll_singleton (mPwdFile : CorePwdFile L) (v : DetailView) (now : ℤ) (e : PwdEdit) :
    setAll C v.mPwd mPwdFile.passwordList [(now, e)]
      = (SecretDetailFragment.set C.toCorePwdList now (v.fragment mPwdFile) e).map
        SecretDetailFragment.live := by
  rw [SecretDetailFragment.set, Option.map_map, setAll]
  exact Option.map_eq_bind.symm

end DetailView

/-- **The ticks of the screen are those of the grid**, by the contents of the labels. -/
theorem LabelScreen.onLabelSelectionChanged_map (content : ℕ → SecureString)
    (mSelectedLabels : List ℕ) (label : ℕ) (isSelected : Bool) (s : LabelScreen)
    (h : s.mSelectedLabels = mSelectedLabels.map content) :
    (s.onLabelSelectionChanged C list (content label) isSelected).mSelectedLabels
      = (SelectLabelActivity.onLabelSelectionChanged content mSelectedLabels label isSelected).map
        content := by
  have hequals : (content label == ·) ∘ content = CoreSecureStringHandler.equals content label := by
    funext o
    rw [Bool.eq_iff_iff, CoreSecureStringHandler.equals_iff]
    exact beq_iff_eq
  cases isSelected with
  | true => simp [onLabelSelectionChanged, setMatchingPasswordsText,
      SelectLabelActivity.onLabelSelectionChanged, h]
  | false => simp [onLabelSelectionChanged, setMatchingPasswordsText,
      SelectLabelActivity.onLabelSelectionChanged, h, List.erase_eq_eraseP, List.eraseP_map, hequals]

/-- The labels are right once they have been read. -/
theorem LabelScreen.right_setMatchingPasswordsText (hF : C.toCorePwdList.LawfulFilter hasLabels)
    {s : LabelScreen} (h : s.mLabels = C.allLabels list) :
    (s.setMatchingPasswordsText C list).Right C hasLabels list :=
  ⟨h, (hF.filterByLabels list s.mSelectedLabels).length_eq⟩

namespace ListScreen

/-- The adapter of a list in front is fresh. -/
def Fresh (C : LabelStore L) (text : JavaText) (hasLabels : PwdData → List SecureString → Bool)
    (l : ListScreen) (list : L) : Prop :=
  SecretAdapter.Fresh C.toCorePwdList text l.mLabelsFilter hasLabels (l.adapter list)

theorem Fresh.right (hF : C.toCorePwdList.LawfulFilter hasLabels)
    (h : l.Fresh C text hasLabels list) : l.Right C text hasLabels list :=
  h.showsStore hF

/-- A list in front has the set of passwords it was first searched in. -/
theorem Fresh.sameSet (h : l.Fresh C text hasLabels list) : l.SameSet C hasLabels list := by
  intro mOriginalSet hfilter
  have hset := h.filter
  rwa [SecretAdapter.getFilter, adapter, Option.mem_def.mp hfilter] at hset

/-- A row of a list in front is a password. -/
theorem Fresh.exists_lookup (hF : C.toCorePwdList.LawfulFilter hasLabels)
    (h : l.Fresh C text hasLabels list) (hrow : mPwd ∈ l.mFilteredSecrets) :
    ∃ d, C.lookup list mPwd = some d := by
  obtain ⟨p, hp, rfl⟩ := List.mem_map.mp (h.rows.mem_iff.mp hrow)
  exact ⟨p.data, SecretAdapter.lookup_of_mem hF (List.mem_filter.mp hp).1⟩

/-- **A list that is read again** is fresh over the set of passwords it was first searched in, and
is not right over another. -/
theorem refreshListContents_spec (text : JavaText) (hF : C.toCorePwdList.LawfulFilter hasLabels)
    (l : ListScreen) (list : L) :
    (l.SameSet C hasLabels list → (l.refreshListContents C list).Fresh C text hasLabels list) ∧
      ((l.refreshListContents C list).Right C text hasLabels list →
        l.SameSet C hasLabels list) :=
  SecretAdapter.changed_spec hF (l.adapter list) list

theorem fresh_onCreate (hF : C.toCorePwdList.LawfulFilter hasLabels) (list : L)
    (mLabelsFilter : List SecureString) :
    (onCreate C list mLabelsFilter).Fresh C text hasLabels list :=
  SecretAdapter.fresh_new hF list

end ListScreen

namespace Screens

open DetailView

variable {s t : Screens L} {e : ScreenEvent L}

/-- The front is right, and stays so under whatever is sound. -/
def FrontFresh (C : LabelStore L) (text : JavaText)
    (hasLabels : PwdData → List SecureString → Bool) (s : Screens L) : Prop :=
  match s.front with
  | .labels => s.labels.Right C hasLabels s.passwordList
  | .list l mDetails =>
    l.Fresh C text hasLabels s.passwordList ∧ mDetails.Right C s.passwordList
  | .detail _ v => v.Right C s.passwordList
  | .crashed _ => False

theorem FrontFresh.right (hF : C.toCorePwdList.LawfulFilter hasLabels)
    (h : s.FrontFresh C text hasLabels) : s.FrontRight C text hasLabels := by
  rw [FrontFresh] at h
  rw [FrontRight]
  cases hfront : s.front with
  | list l mDetails =>
    rw [hfront] at h
    exact ⟨h.1.right hF, h.2⟩
  | _ =>
    rw [hfront] at h
    exact h

/-- A list in front again, over the list as it is. -/
theorem returnToList_spec (text : JavaText) (hF : C.toCorePwdList.LawfulFilter hasLabels)
    (s : Screens L) (l : ListScreen) (mDetails : DetailPane) :
    (l.SameSet C hasLabels s.passwordList → mDetails.Right C s.passwordList →
        (s.returnToList C l mDetails).FrontFresh C text hasLabels) ∧
      ((s.returnToList C l mDetails).FrontRight C text hasLabels →
        l.SameSet C hasLabels s.passwordList ∧ mDetails.Right C s.passwordList) := by
  obtain ⟨hfresh, hsame⟩ := l.refreshListContents_spec text hF s.passwordList
  exact ⟨fun h hpane => ⟨hfresh h, hpane⟩, fun h => ⟨hsame h.1, h.2⟩⟩

/-- **The password that is shown is deleted**, and the list is in front without it. -/
theorem deletePwd_spec (text : JavaText) (hF : C.toCorePwdList.LawfulFilter hasLabels)
    (s : Screens L) (l : ListScreen) {v : DetailView} (h : v.Right C s.passwordList)
    (mDetails : DetailPane) (hpane : ∀ w, mDetails ≠ .shows w) :
    ∃ list, deletePwd C v.mPwd s.passwordList = some list ∧
      ((∀ list ∈ deletePwd C v.mPwd s.passwordList, l.SameSet C hasLabels list) →
        (returnToList C { s with passwordList := list } l mDetails).FrontFresh C text hasLabels) ∧
      ((returnToList C { s with passwordList := list } l mDetails).FrontRight C text hasLabels →
        ∀ list ∈ deletePwd C v.mPwd s.passwordList, l.SameSet C hasLabels list) := by
  obtain ⟨list, hlist⟩ := exists_deletePwd h
  obtain ⟨hfresh, hset⟩ := returnToList_spec text hF { s with passwordList := list } l mDetails
  refine ⟨list, hlist, fun hsound => hfresh (hsound list hlist) fun w hw => absurd hw (hpane w),
    fun hright list' hlist' => ?_⟩
  obtain rfl := Option.some.inj (hlist.symm.trans hlist')
  exact (hset hright).1

/-- A fragment in the pane. -/
theorem showInPane_spec (text : JavaText) (hF : C.toCorePwdList.LawfulFilter hasLabels)
    (s : Screens L) (l : ListScreen) {d : PwdData}
    (hd : C.lookup s.passwordList mPwd = some d) :
    (l.SameSet C hasLabels s.passwordList →
        (s.showInPane C l mPwd).FrontFresh C text hasLabels) ∧
      ((s.showInPane C l mPwd).FrontRight C text hasLabels →
        l.SameSet C hasLabels s.passwordList) := by
  obtain ⟨v, hv⟩ := exists_refreshContentView hd
  obtain ⟨hfresh, hsame⟩ := l.refreshListContents_spec text hF s.passwordList
  rw [showInPane, hv]
  refine ⟨fun h => ⟨hfresh h, fun w hw => ?_⟩, fun h => hsame h.1⟩
  obtain rfl := DetailPane.shows.inj hw
  exact right_of_refreshContentView hv

/-- A fragment on a screen of its own. -/
theorem frontFresh_showOnScreen (s : Screens L) (l : ListScreen) {d : PwdData}
    (hd : C.lookup s.passwordList mPwd = some d) :
    (s.showOnScreen C l mPwd).FrontFresh C text hasLabels := by
  obtain ⟨v, hv⟩ := exists_refreshContentView hd
  rw [showOnScreen, hv]
  exact right_of_refreshContentView hv

/-- **The setters of the pane**: the front stays right if they are sound, and is not right if they
are not. -/
theorem editInPane_spec (text : JavaText) (hC : C.toCorePwdList.LawfulSetters)
    (hF : C.toCorePwdList.LawfulFilter hasLabels) (s : Screens L) (l : ListScreen) {v : DetailView}
    (h : v.Right C s.passwordList) (edits : List (ℤ × PwdEdit)) :
    (EditSound C hasLabels s l (.shows v) edits →
        (s.editInPane C l v edits).FrontFresh C text hasLabels) ∧
      ((s.editInPane C l v edits).FrontRight C text hasLabels →
        EditSound C hasLabels s l (.shows v) edits) := by
  obtain ⟨d, hd⟩ := h.exists_lookup
  obtain ⟨list, d', hlist, hd'⟩ := exists_setAll hC hd edits
  obtain ⟨hfresh, hsame⟩ := showInPane_spec text hF { s with passwordList := list } l hd'
  rw [editInPane, hlist]
  refine ⟨fun hsound => hfresh (hsound.2 v rfl list hlist), fun hright => ⟨nofun, ?_⟩⟩
  rintro w ⟨⟩ list' hlist'
  obtain rfl := Option.some.inj (hlist.symm.trans hlist')
  exact hsame hright

/-- The setters of a screen of details leave it right. -/
theorem frontFresh_editOnScreen (hC : C.toCorePwdList.LawfulSetters) (s : Screens L)
    (l : ListScreen) {v : DetailView} (h : v.Right C s.passwordList) (edits : List (ℤ × PwdEdit)) :
    (s.editOnScreen C l v edits).FrontFresh C text hasLabels := by
  obtain ⟨d, hd⟩ := h.exists_lookup
  obtain ⟨list, d', hlist, hd'⟩ := exists_setAll hC hd edits
  rw [editOnScreen, hlist]
  exact frontFresh_showOnScreen _ l hd'

/-- A password of the list is shown. -/
theorem showPwd_spec (text : JavaText) (hF : C.toCorePwdList.LawfulFilter hasLabels)
    (mTwoPane : Bool) (s : Screens L) (l : ListScreen) {d : PwdData}
    (hd : C.lookup s.passwordList mPwd = some d) :
    ((mTwoPane = true → l.SameSet C hasLabels s.passwordList) →
        (s.showPwd C mTwoPane l mPwd).FrontFresh C text hasLabels) ∧
      ((s.showPwd C mTwoPane l mPwd).FrontRight C text hasLabels → mTwoPane = true →
        l.SameSet C hasLabels s.passwordList) := by
  cases mTwoPane with
  | false => exact ⟨fun _ => frontFresh_showOnScreen s l hd, fun _ h => absurd h Bool.false_ne_true⟩
  | true =>
    obtain ⟨hfresh, hsame⟩ := showInPane_spec text hF s l hd
    exact ⟨fun h => hfresh (h rfl), fun h _ => hsame h⟩

/-- A password just created is in the list. -/
theorem lookup_createPwd (hC : C.toCorePwdList.LawfulSetters) (hE : C.toCorePwdList.LawfulEdit)
    (list : L) (now : ℤ) (description : SecureString) (username : Option SecureString)
    (password : SecureString) :
    ∃ d, C.lookup (C.createPwd list now description username password).1
      (C.createPwd list now description username password).2.nativeHandle = some d := by
  obtain ⟨p, -, hp, hperm⟩ := hE.createPwd list now description username password
  rw [hp]
  exact ⟨p.data, CorePwdList.lookup_nativeHandle (hC.nodup _)
    (hperm.mem_iff.mpr List.mem_cons_self)⟩

/-- **One event on the screen of the labels.** -/
theorem labelStep_frontFresh (hC : C.toCorePwdList.LawfulSetters)
    (hE : C.toCorePwdList.LawfulEdit) (hF : C.toCorePwdList.LawfulFilter hasLabels)
    (hfront : s.front = .labels) (h : s.labels.Right C hasLabels s.passwordList)
    (hstep : labelStep C mTwoPane s e = some t) : t.FrontFresh C text hasLabels := by
  cases e with
  | onLabelSelectionChanged label isSelected =>
    rw [labelStep] at hstep
    split_ifs at hstep
    obtain rfl := Option.some.inj hstep
    rw [FrontFresh, hfront]
    exact LabelScreen.right_setMatchingPasswordsText hF h.mLabels
  | browse =>
    rw [labelStep] at hstep
    split_ifs at hstep
    obtain rfl := Option.some.inj hstep
    exact ⟨ListScreen.fresh_onCreate hF s.passwordList s.labels.mSelectedLabels, nofun⟩
  | actionSearch =>
    obtain rfl := Option.some.inj hstep
    exact ⟨ListScreen.fresh_onCreate hF s.passwordList s.labels.mSelectedLabels, nofun⟩
  | newPassword now description username password =>
    obtain rfl := Option.some.inj hstep
    obtain ⟨d, hd⟩ := lookup_createPwd hC hE s.passwordList now description username password
    exact (showPwd_spec text hF mTwoPane { s with passwordList := _ } (.onCreate C _ []) hd).1
      fun _ => (ListScreen.fresh_onCreate hF _ [] : ListScreen.Fresh C text hasLabels _ _).sameSet
  | sync list =>
    obtain rfl := Option.some.inj hstep
    exact LabelScreen.right_setMatchingPasswordsText hF rfl
  | _ => exact nomatch hstep

/-- **One event on the screen of the secrets**: the front stays right if the event is sound, and is
not right if it is not. -/
theorem listStep_spec (hC : C.toCorePwdList.LawfulSetters) (hE : C.toCorePwdList.LawfulEdit)
    (hF : C.toCorePwdList.LawfulFilter hasLabels) {l : ListScreen} {mDetails : DetailPane}
    (hfront : s.front = .list l mDetails) (h : l.Fresh C text hasLabels s.passwordList)
    (hpane : mDetails.Right C s.passwordList)
    (hstep : listStep C text mTwoPane s l mDetails e = some t) :
    (ListSound C mTwoPane hasLabels s l mDetails e → t.FrontFresh C text hasLabels) ∧
      (t.FrontRight C text hasLabels → ListSound C mTwoPane hasLabels s l mDetails e) := by
  have hkept : s.FrontFresh C text hasLabels := by
    rw [FrontFresh, hfront]
    exact ⟨h, hpane⟩
  cases e with
  | newPassword now description username password =>
    obtain rfl := Option.some.inj hstep
    obtain ⟨d, hd⟩ := lookup_createPwd hC hE s.passwordList now description username password
    exact showPwd_spec text hF mTwoPane { s with passwordList := _ } l hd
  | sync list =>
    obtain rfl := Option.some.inj hstep
    obtain ⟨hfresh, hright⟩ := returnToList_spec text hF { s with passwordList := list } l mDetails
    -- the pane is not read again, so it is right if its password reads as before
    refine ⟨fun ⟨hsame, hreads⟩ => hfresh hsame fun v hv => (hreads v hv).trans (hpane v hv),
      fun hfront => ?_⟩
    obtain ⟨hsame, hreads⟩ := hright hfront
    exact ⟨hsame, fun v hv => (hreads v hv).trans (hpane v hv).symm⟩
  | onItemSelected pwd =>
    rw [listStep] at hstep
    split_ifs at hstep with hrow
    obtain rfl := Option.some.inj hstep
    obtain ⟨d, hd⟩ := h.exists_lookup hF hrow
    exact ⟨fun _ => (showPwd_spec text hF mTwoPane s l hd).1 fun _ => h.sameSet, fun _ => trivial⟩
  | search constraint =>
    obtain ⟨a, ha, hfresh⟩ := SecretAdapter.Fresh.search hF h constraint
    rw [listStep, ha] at hstep
    obtain rfl := Option.some.inj hstep
    obtain ⟨values, -, rfl⟩ := Option.map_eq_some_iff.mp ha
    exact ⟨fun _ => ⟨hfresh, hpane⟩, fun _ => trivial⟩
  | actionSearch =>
    obtain rfl := Option.some.inj hstep
    exact ⟨fun _ => hkept, fun _ => trivial⟩
  | editKeyboard confirmed =>
    cases mDetails with
    | empty => exact nomatch hstep
    | null =>
      cases confirmed with
      | none =>
        obtain rfl := Option.some.inj hstep
        exact ⟨fun _ => hkept, fun _ => nofun⟩
      | some edit =>
        obtain rfl := Option.some.inj hstep
        exact ⟨fun hsound => absurd rfl (hsound edit rfl).1, fun hright => hright.elim⟩
    | shows v =>
      cases confirmed with
      | none =>
        obtain rfl := Option.some.inj hstep
        exact ⟨fun _ => hkept, fun _ => nofun⟩
      | some edit =>
        obtain rfl := Option.some.inj hstep
        obtain ⟨hfresh, hsound⟩ := editInPane_spec text hC hF s l (hpane v rfl) [edit]
        refine ⟨fun hall => hfresh (hall edit rfl), fun hright => ?_⟩
        rintro _ ⟨⟩
        exact hsound hright
  | editDialog edits =>
    cases mDetails with
    | empty => exact nomatch hstep
    | null =>
      obtain rfl := Option.some.inj hstep
      exact ⟨fun hsound => absurd rfl hsound.1, fun hright => hright.elim⟩
    | shows v =>
      obtain rfl := Option.some.inj hstep
      exact editInPane_spec text hC hF s l (hpane v rfl) edits
  | delete =>
    cases mDetails with
    | empty => exact nomatch hstep
    | null =>
      obtain rfl := Option.some.inj hstep
      exact ⟨fun hsound => absurd rfl hsound.1, fun hright => hright.elim⟩
    | shows v =>
      obtain ⟨list, hlist, hfresh, hset⟩ := deletePwd_spec text hF s l (hpane v rfl) .null nofun
      rw [listStep, hlist] at hstep
      obtain rfl := Option.some.inj hstep
      refine ⟨fun hsound => hfresh (hsound.2 v rfl), fun hright => ⟨nofun, ?_⟩⟩
      rintro w ⟨⟩
      exact hset hright
  | copy =>
    cases mDetails with
    | empty => exact nomatch hstep
    | null =>
      obtain rfl := Option.some.inj hstep
      exact ⟨fun hsound => absurd rfl hsound, fun hright => hright.elim⟩
    | shows v =>
      obtain rfl := Option.some.inj hstep
      exact ⟨fun _ => hkept, fun _ => nofun⟩
  | back =>
    obtain rfl := Option.some.inj hstep
    exact ⟨fun _ => LabelScreen.right_setMatchingPasswordsText hF rfl, fun _ => trivial⟩
  | _ => exact nomatch hstep

/-- **One event on the screen of the details.** -/
theorem detailStep_spec (hC : C.toCorePwdList.LawfulSetters) (hE : C.toCorePwdList.LawfulEdit)
    (hF : C.toCorePwdList.LawfulFilter hasLabels) {l : ListScreen} {v : DetailView}
    (hfront : s.front = .detail l v) (h : v.Right C s.passwordList)
    (hstep : detailStep C mTwoPane s l v e = some t) :
    (DetailSound C mTwoPane hasLabels s l v e → t.FrontFresh C text hasLabels) ∧
      (t.FrontRight C text hasLabels → DetailSound C mTwoPane hasLabels s l v e) := by
  have hkept : s.FrontFresh C text hasLabels := by
    rw [FrontFresh, hfront]
    exact h
  cases e with
  | newPassword now description username password =>
    obtain rfl := Option.some.inj hstep
    obtain ⟨d, hd⟩ := lookup_createPwd hC hE s.passwordList now description username password
    exact showPwd_spec text hF mTwoPane { s with passwordList := _ } (l.refreshListContents C _) hd
  | sync list =>
    obtain rfl := Option.some.inj hstep
    exact ⟨fun hsound => hsound.elim, fun hright => hright.elim⟩
  | editKeyboard confirmed =>
    cases confirmed with
    | none =>
      obtain rfl := Option.some.inj hstep
      exact ⟨fun _ => hkept, fun _ => trivial⟩
    | some edit =>
      obtain rfl := Option.some.inj hstep
      exact ⟨fun _ => frontFresh_editOnScreen hC s l h [edit], fun _ => trivial⟩
  | editDialog edits =>
    obtain rfl := Option.some.inj hstep
    exact ⟨fun _ => frontFresh_editOnScreen hC s l h edits, fun _ => trivial⟩
  | delete =>
    obtain ⟨list, hlist, hspec⟩ := deletePwd_spec text hF s l h .empty nofun
    rw [detailStep, hlist] at hstep
    obtain rfl := Option.some.inj hstep
    exact hspec
  | copy =>
    obtain rfl := Option.some.inj hstep
    exact ⟨fun _ => hkept, fun _ => trivial⟩
  | back | actionSearch =>
    obtain rfl := Option.some.inj hstep
    obtain ⟨hfresh, hset⟩ := returnToList_spec text hF s l .empty
    exact ⟨fun hsound => hfresh hsound nofun, fun hright => (hset hright).1⟩
  | _ => exact nomatch hstep

/-- **One event**: the front stays right if it is sound, and is not right if it is not. -/
theorem step_spec (hC : C.toCorePwdList.LawfulSetters) (hE : C.toCorePwdList.LawfulEdit)
    (hF : C.toCorePwdList.LawfulFilter hasLabels) (h : s.FrontFresh C text hasLabels)
    (hstep : step C text mTwoPane s e = some t) :
    (Sound C mTwoPane hasLabels s e → t.FrontFresh C text hasLabels) ∧
      (t.FrontRight C text hasLabels → Sound C mTwoPane hasLabels s e) := by
  rw [FrontFresh] at h
  rw [step] at hstep
  rw [Sound]
  cases hfront : s.front with
  | labels =>
    rw [hfront] at h hstep
    exact ⟨fun _ => labelStep_frontFresh hC hE hF hfront h hstep, fun _ => trivial⟩
  | list l mDetails =>
    rw [hfront] at h hstep
    exact listStep_spec hC hE hF hfront h.1 h.2 hstep
  | detail l v =>
    rw [hfront] at h hstep
    exact detailStep_spec hC hE hF hfront h hstep
  | crashed c =>
    rw [hfront] at h
    exact h.elim

/-- **The button opens a list of as many passwords as it says**, and of one at least. -/
theorem browse_rows (hF : C.toCorePwdList.LawfulFilter hasLabels) (hfront : s.front = .labels)
    (h : s.labels.Right C hasLabels s.passwordList)
    (hstep : step C text mTwoPane s .browse = some t) :
    ∃ l, t.front = .list l .empty ∧ l.mFilteredSecrets.length = s.labels.nrOfMatches ∧
      l.mFilteredSecrets ≠ [] := by
  rw [step, hfront, labelStep] at hstep
  split_ifs at hstep with hpos
  obtain rfl := Option.some.inj hstep
  have hrows : (ListScreen.onCreate C s.passwordList
      s.labels.mSelectedLabels).mFilteredSecrets.length = s.labels.nrOfMatches := by
    rw [h.nrOfMatches, ← (hF.filterByLabels s.passwordList s.labels.mSelectedLabels).length_eq]
    exact List.length_map _
  exact ⟨_, rfl, hrows, List.ne_nil_of_length_pos (hrows ▸ hpos)⟩

/-- **The screen in front always shows the list as it is, and nothing throws, exactly as long as
every event is sound**: whatever screens are opened and left, and whatever is created, edited,
deleted, searched and synced on them. -/
theorem allStates_frontRight_iff (hC : C.toCorePwdList.LawfulSetters)
    (hE : C.toCorePwdList.LawfulEdit) (hF : C.toCorePwdList.LawfulFilter hasLabels) (list : L)
    (es : List (ScreenEvent L)) :
    AllStates (step C text mTwoPane) (FrontRight C text hasLabels) (onFileDecryptDone C list) es ↔
      AllSteps (step C text mTwoPane) (Sound C mTwoPane hasLabels) (onFileDecryptDone C list)
        es := by
  have hstart : (onFileDecryptDone C list).FrontFresh C text hasLabels :=
    LabelScreen.right_setMatchingPasswordsText hF rfl
  exact allStates_iff_allSteps (N := fun _ _ => True)
    (fun s e t h _ hsound hstep => (step_spec hC hE hF h hstep).1 hsound) (fun _ h => h.right hF)
    (fun s e t h _ hbad hstep hright => hbad ((step_spec hC hE hF h hstep).2 hright)) hstart
    (allSteps_true _ _)

/-- A password is created, gets a label, is found by a search, and is renamed.  On a wide screen one
is deleted, a keyboard of the emptied pane is cancelled, and the next password is found by a search
and renamed. -/
theorem allStates_frontRight_renamed :
    AllStates (step PwdTable.labelCore SecretAdapter.asciiText false)
        (FrontRight PwdTable.labelCore SecretAdapter.asciiText
          fun d labels => decide (∀ l ∈ labels, l ∈ d.labels))
        (onFileDecryptDone PwdTable.labelCore PwdTable.empty)
        [.newPassword 5 [97] none [2], .editDialog [(6, .addPwdToLabel [7])], .back,
          .search ['a'], .onItemSelected 1, .editKeyboard (some (7, .setNewDescription [98])),
          .back] ∧
      AllStates (step PwdTable.labelCore SecretAdapter.asciiText true)
        (FrontRight PwdTable.labelCore SecretAdapter.asciiText
          fun d labels => decide (∀ l ∈ labels, l ∈ d.labels))
        (onFileDecryptDone PwdTable.labelCore PwdTable.empty)
        [.newPassword 5 [97] none [2], .delete, .editKeyboard none, .newPassword 6 [98] none [2],
          .search ['b'], .editKeyboard (some (7, .setNewDescription [99]))] := by
  constructor
  · refine (allStates_frontRight_iff PwdTable.core_lawfulSetters PwdTable.core_lawfulEdit
      SecretAdapter.core_lawfulFilter _ _).mpr ?_
    rintro _ ⟨⟩
    refine ⟨trivial, ?_⟩
    rintro _ ⟨⟩
    refine ⟨trivial, ?_⟩
    rintro _ ⟨⟩
    refine ⟨nofun, ?_⟩
    rintro _ ⟨⟩
    refine ⟨trivial, ?_⟩
    rintro _ ⟨⟩
    refine ⟨trivial, ?_⟩
    rintro _ ⟨⟩
    refine ⟨trivial, ?_⟩
    -- the search has left the filter with the one password, which is still the set
    rintro _ ⟨⟩
    refine ⟨?_, trivial⟩
    rintro _ ⟨⟩
    decide
  · refine (allStates_frontRight_iff PwdTable.core_lawfulSetters PwdTable.core_lawfulEdit
      SecretAdapter.core_lawfulFilter _ _).mpr ?_
    rintro _ ⟨⟩
    refine ⟨trivial, ?_⟩
    rintro _ ⟨⟩
    refine ⟨⟨nofun, fun _ _ _ _ => nofun⟩, ?_⟩
    rintro _ ⟨⟩
    refine ⟨nofun, ?_⟩
    rintro _ ⟨⟩
    refine ⟨fun _ => nofun, ?_⟩
    rintro _ ⟨⟩
    refine ⟨trivial, ?_⟩
    rintro _ ⟨⟩
    refine ⟨?_, trivial⟩
    rintro _ ⟨⟩
    refine ⟨nofun, ?_⟩
    rintro _ ⟨⟩ _ ⟨⟩ _ ⟨⟩
    decide

end Screens

end

end Kryptan
