import Kryptan.Ui.Saving

/-!
# Ui/OpenPasswordFile — the master key and the file it opens, from the first start on

    onCreate ──no file──▸ choose a key ──▸ Save ──▸ onSuccessfull ──┐
        │                                                           ├──▸ labels: edit, change the
        └────a file─────▸ log in ──▸ TryOpenAndParse ──▸ finish ────┘    key, Save … (killed)

The master key lives in memory, a login writes the attempted password into it, and every `Save`
writes the whole file under whatever it holds then.  Three readings of a run:

* **no lock-out** (`run_opens_again`): whenever the app is killed, a password that was typed twice
  into the dialog for the master key opens the file;
* **a login is decided when the button is pressed** (`login_outcome`), whatever is typed until the
  result is there;
* with no save pending the file is the list on the screen, under the key in memory, **exactly as
  long as the edits of secrets are covered** (`allStates_current_iff`).

There is no synchronisation in these runs: what its workers do to the key is `Net/MasterKey`.
-/

namespace Kryptan

open CoreSecureStringHandler Runs

variable {F L : Type*}

/-! ## The native file -/

/-- What `OpenAndParse` throws: the two exceptions `TryOpenAndParse` catches, and any other. -/
inductive OpenError where
  | decryptMacBad
  | decryptWrongKey
  | other
  deriving DecidableEq, Repr

/-- The native `PwdFile`: files of type `F` on disk, lists of type `L` in memory. -/
structure PwdFile (F L : Type*) where
  createNew : L
  save : SecureString → L → F
  openAndParse : SecureString → F → Except OpenError L

/-- A file opens under the key it was saved with, and under no other. -/
structure PwdFile.Lawful (P : PwdFile F L) : Prop where
  openAndParse_save : ∀ key list, P.openAndParse key (P.save key list) = .ok list
  openAndParse_ne : ∀ key key' list, key ≠ key' →
    P.openAndParse key (P.save key' list) = .error .decryptMacBad ∨
      P.openAndParse key (P.save key' list) = .error .decryptWrongKey

/-- Files that are the key and the list, and open under that key: they behave as documented. -/
def PwdFile.plain (createNew : L) : PwdFile (SecureString × L) L where
  createNew := createNew
  save := Prod.mk
  openAndParse key f := if key = f.1 then .ok f.2 else .error .decryptWrongKey

theorem PwdFile.plain_lawful (createNew : L) : (PwdFile.plain createNew).Lawful where
  openAndParse_save _ _ := if_pos rfl
  openAndParse_ne _ _ _ h := .inr (if_neg h)

/-- `Global.MINIMUM_MASTERKEY_LENGTH`. -/
def minimumMasterkeyLength : ℕ := 8

/-! ## The dialog for the master key -/

/-- The texts of the errors about a master key. -/
inductive MasterkeyError where
  | fieldRequired
  | invalidPassword
  | incorrectPassword
  | incorrectConfirm
  deriving DecidableEq, Repr

namespace ChangeMasterKeyAlert

/-- The fields of the dialog. -/
inductive KeyField where
  | oldMasterkey
  | password
  | confirm
  deriving DecidableEq, Repr

/-- `oldKeyConfirmed`: the lengths, then byte by byte. -/
def oldKeyConfirmed (pass key : SecureString) : Bool :=
  if getLength pass ≠ getLength key then false
  else (List.range (getLength pass)).all fun (i : ℕ) => getByte pass i = getByte key i

/-- `onPositiveClicked`: the field and the text of the error, or the new master key. -/
def onPositiveClicked (mConfirmOldKey : Bool) (key old pass conf : SecureString) :
    Except (KeyField × MasterkeyError) SecureString :=
  if mConfirmOldKey && !oldKeyConfirmed old key then .error (.oldMasterkey, .incorrectPassword)
  else if getLength pass = 0 then .error (.password, .fieldRequired)
  else if getLength pass < minimumMasterkeyLength then .error (.password, .invalidPassword)
  else if pass ≠ conf then .error (.confirm, .incorrectConfirm)
  else .ok (copyBytes pass (clear key) (getLength pass))

end ChangeMasterKeyAlert

/-! ## The app -/

/-- What is in front of the user.  While a new file is saved nothing can be clicked. -/
inductive Screen where
  | newMasterkey
  | savingNew
  | login
  | labels
  | crashed
  deriving DecidableEq, Repr

/-- The background task of a login: it runs, and then waits to post its result. -/
inductive UserLoginTask where
  | running
  | finished (success : Bool)
  deriving DecidableEq, Repr

/-- Who is told that a `SaveAsync` finished. -/
inductive FinishListener where
  | dummy
  | onSuccessfull
  deriving DecidableEq, Repr

/-- The app and its file: `opened` is the list of an open file, `pending` are the saves that have
not run and `posted` those that wait to tell their listeners. -/
structure KryptanApp (F L : Type*) where
  screen : Screen
  disk : Option F
  masterkey : SecureString
  opened : Option L
  mPasswordView : SecureString
  mError : Option MasterkeyError
  mPassword : SecureString
  mAuthTask : Option UserLoginTask
  pending : List FinishListener
  posted : List FinishListener

namespace KryptanApp

/-- `OpenPasswordFileActivity.onCreate`, in a new process: without a file a new one is created in
memory and the dialog for its master key is shown over the form. -/
def onCreate (P : PwdFile F L) (disk : Option F) : KryptanApp F L where
  screen := if disk.isSome then .login else .newMasterkey
  disk := disk
  masterkey := newSecureString
  opened := if disk.isSome then none else some P.createNew
  mPasswordView := newSecureString
  mError := none
  mPassword := newSecureString
  mAuthTask := none
  pending := []
  posted := []

def attemptLogin (s : KryptanApp F L) : KryptanApp F L :=
  if s.mAuthTask.isSome then s
  else
    let s := { s with mError := none, mPassword := s.mPasswordView }
    if getLength s.mPassword = 0 then { s with mError := some .fieldRequired }
    else if getLength s.mPassword < minimumMasterkeyLength then
      { s with mError := some .invalidPassword }
    else { s with mAuthTask := some .running }

/-- `TryOpenAndParse`: a wrong key leaves the file as it is, any other exception comes out. -/
def tryOpenAndParse (P : PwdFile F L) (s : KryptanApp F L) : KryptanApp F L :=
  match s.disk.map (P.openAndParse s.masterkey) with
  | some (.ok list) => { s with opened := some list }
  | some (.error .decryptMacBad) | some (.error .decryptWrongKey) => s
  | some (.error .other) | none => { s with screen := .crashed }

/-- `UserLoginTask.doInBackground`. -/
def doInBackground (P : PwdFile F L) (s : KryptanApp F L) : KryptanApp F L :=
  let s := tryOpenAndParse P
    { s with masterkey := copyBytes s.mPassword (clear s.masterkey) (getLength s.mPassword) }
  { s with mAuthTask := some (.finished s.opened.isSome) }

/-- `UserLoginTask.onPostExecute`. -/
def onPostExecute (s : KryptanApp F L) (success : Bool) : KryptanApp F L :=
  let s := { s with mAuthTask := none }
  if success then { s with screen := .labels } else { s with mError := some .incorrectPassword }

/-- `SaveWithDialog`. -/
def saveWithDialog (s : KryptanApp F L) (onFinish : FinishListener) : KryptanApp F L :=
  { s with pending := s.pending ++ [onFinish] }

/-- The positive button of the dialog for the master key, with what its listener is told. -/
def changeMasterkey (s : KryptanApp F L) (mConfirmOldKey : Bool) (mSuccessfull : FinishListener)
    (accepted : Screen) (old pass conf : SecureString) : KryptanApp F L :=
  match ChangeMasterKeyAlert.onPositiveClicked mConfirmOldKey s.masterkey old pass conf with
  | .ok key => saveWithDialog { s with masterkey := key, screen := accepted } mSuccessfull
  | .error _ => s

/-- An edit the user confirms: the handler changes the open list and starts its saves. -/
def confirm (C : CorePwdList L) (s : KryptanApp F L) (list : L) (now : ℤ) (e : Confirmed) :
    KryptanApp F L :=
  match handle C now (CorePwdFile.opened list) e with
  | .ok f => { s with
      opened := some f.passwordList
      pending := s.pending ++ List.replicate f.pending .dummy }
  | .error _ => s

/-- `OpenPasswordFileActivity.onSuccessfull`, or the listener that does nothing. -/
def onFinish (s : KryptanApp F L) : FinishListener → KryptanApp F L
  | .dummy => s
  | .onSuccessfull => if s.opened.isSome then { s with screen := .labels } else s

end KryptanApp

/-- The user types into the form, presses its button, answers the dialog for the master key or
confirms an edit; a login task or a save runs, or posts its result; the process is killed, and
started again. -/
inductive AppEvent where
  | typed (text : SecureString)
  | attemptLogin
  | doInBackground
  | onPostExecute
  | changeMasterkey (old pass conf : SecureString)
  | confirm (now : ℤ) (e : Confirmed)
  | save
  | saved
  | killed
  deriving DecidableEq, Repr

open KryptanApp

/-- One event. -/
def KryptanApp.step (P : PwdFile F L) (C : CorePwdList L) (s : KryptanApp F L) :
    AppEvent → Option (KryptanApp F L)
  | .typed text =>
    if s.screen = .login then some { s with mPasswordView := text, mError := none } else none
  | .attemptLogin => if s.screen = .login then some s.attemptLogin else none
  | .doInBackground =>
    if s.mAuthTask = some .running ∧ s.screen = .login then some (s.doInBackground P) else none
  | .onPostExecute =>
    match s.screen, s.mAuthTask with
    | .login, some (.finished success) => some (s.onPostExecute success)
    | _, _ => none
  | .changeMasterkey old pass conf =>
    match s.screen with
    | .newMasterkey => some (s.changeMasterkey false .onSuccessfull .savingNew old pass conf)
    | .labels => some (s.changeMasterkey true .dummy .labels old pass conf)
    | _ => none
  | .confirm now e =>
    match s.screen, s.opened with
    | .labels, some list => some (s.confirm C list now e)
    | _, _ => none
  | .save =>
    match s.pending, s.opened with
    | onFinish :: pending, some list =>
      some { s with
        disk := some (P.save s.masterkey list)
        pending := pending
        posted := s.posted ++ [onFinish] }
    | _, _ => none
  | .saved =>
    match s.posted with
    | onFinish :: posted => some ({ s with posted := posted }.onFinish onFinish)
    | [] => none
  | .killed => some (onCreate P s.disk)

/-! ## What the dialog accepts -/

theorem getByte_of_lt {s : SecureString} {i : ℕ} (h : i < s.length) : getByte s i = s[i] := by
  rw [getByte_natCast, List.getD_eq_getElem?_getD, List.getElem?_eq_getElem h, Option.getD_some]

namespace ChangeMasterKeyAlert

/-- **The byte loop compares the strings.** -/
theorem oldKeyConfirmed_iff (pass key : SecureString) :
    oldKeyConfirmed pass key = true ↔ pass = key := by
  rw [oldKeyConfirmed]
  split
  · next hlength => exact ⟨fun h => (nomatch h), fun h => absurd (congrArg List.length h) hlength⟩
  · next hlength =>
    rw [not_not] at hlength
    rw [List.all_eq_true]
    constructor
    · refine fun h => List.ext_getElem hlength fun i hi hi' => ?_
      have hbyte := of_decide_eq_true (h i (List.mem_range.mpr hi))
      rwa [getByte_of_lt hi, getByte_of_lt hi'] at hbyte
    · rintro rfl i -
      exact decide_eq_true rfl

/-- **What the dialog accepts**: the old key where it is asked for, and twice the same new key of at
least eight bytes, which becomes the key as it was typed. -/
theorem onPositiveClicked_ok_iff {mConfirmOldKey : Bool} {key old pass conf key' : SecureString} :
    onPositiveClicked mConfirmOldKey key old pass conf = .ok key' ↔
      (mConfirmOldKey = true → old = key) ∧ minimumMasterkeyLength ≤ getLength pass ∧
        pass = conf ∧ pass = key' := by
  have hcopy : copyBytes pass (clear key) (getLength pass) = pass := by
    rw [copyBytes_getLength, clear, List.nil_append]
  have hold : (mConfirmOldKey && !oldKeyConfirmed old key) = true ↔
      ¬ (mConfirmOldKey = true → old = key) := by
    rw [← oldKeyConfirmed_iff]
    cases mConfirmOldKey <;> cases oldKeyConfirmed old key <;> decide
  have hmin : 0 < minimumMasterkeyLength := by decide
  rw [onPositiveClicked, hcopy]
  split_ifs with h1 h2 h3 h4
  · exact ⟨fun h => (nomatch h), fun h => absurd h.1 (hold.mp h1)⟩
  · exact ⟨fun h => (nomatch h), fun h => absurd h.2.1 (by omega)⟩
  · exact ⟨fun h => (nomatch h), fun h => absurd h.2.1 (by omega)⟩
  · exact ⟨fun h => (nomatch h), fun h => absurd h.2.2.1 h4⟩
  · rw [hold, not_not] at h1
    rw [not_not] at h4
    rw [Except.ok.injEq]
    exact ⟨fun h => ⟨h1, by omega, h4, h⟩, fun h => h.2.2.2⟩

end ChangeMasterKeyAlert

open ChangeMasterKeyAlert

/-! ## What every run keeps -/

/-- A master key of `K`, as long as the login asks for. -/
def Accepted (K : SecureString → Prop) (key : SecureString) : Prop :=
  minimumMasterkeyLength ≤ getLength key ∧ K key

/-- A file that an accepted master key opens. -/
def OpensWith (P : PwdFile F L) (K : SecureString → Prop) (f : F) : Prop :=
  ∃ key list, f = P.save key list ∧ Accepted K key

/-- The open list and the master key are those of the file on disk. -/
def SavedUnderKey (P : PwdFile F L) (s : KryptanApp F L) : Prop :=
  ∃ list, s.opened = some list ∧ s.disk = some (P.save s.masterkey list)

/-- The invariant of the login form: the file is open once a task has opened it. -/
def LoginInv (P : PwdFile F L) (s : KryptanApp F L) : Prop :=
  if s.mAuthTask = some (.finished true) then SavedUnderKey P s else s.opened = none

/-- **The invariant**, screen by screen. -/
def AppInv (P : PwdFile F L) (K : SecureString → Prop) (s : KryptanApp F L) : Prop :=
  (∀ f ∈ s.disk, OpensWith P K f) ∧
    match s.screen with
    | .newMasterkey => s.opened.isSome ∧ s.pending = [] ∧ s.posted = []
    | .savingNew | .labels => s.opened.isSome ∧ Accepted K s.masterkey
    | .login => s.disk.isSome ∧ s.pending = [] ∧ s.posted = [] ∧ LoginInv P s
    | .crashed => False

/-- The passwords that are accepted by the dialog for the master key are of `K`. -/
def KeysIn (K : SecureString → Prop) : AppEvent → Prop
  | .changeMasterkey _ pass conf => pass = conf → K pass
  | _ => True

theorem keysIn_true (e : AppEvent) : KeysIn (fun _ => True) e := by
  cases e with
  | changeMasterkey old pass conf => exact fun _ => trivial
  | _ => trivial

section Invariant

variable {P : PwdFile F L} {C : CorePwdList L} {K : SecureString → Prop} {s t : KryptanApp F L}

/-- A file is saved under one key, and from one list. -/
theorem PwdFile.Lawful.save_inj (hP : P.Lawful) {key key' : SecureString} {list list' : L}
    (h : P.save key list = P.save key' list') : key = key' ∧ list = list' := by
  have hopen := hP.openAndParse_save key list
  have hkey : key = key' := by
    by_contra hne
    rw [h] at hopen
    rcases hP.openAndParse_ne key key' list' hne with herr | herr
    · exact nomatch hopen.symm.trans herr
    · exact nomatch hopen.symm.trans herr
  subst hkey
  rw [h, hP.openAndParse_save] at hopen
  exact ⟨rfl, (Except.ok.inj hopen).symm⟩

/-- A file that an accepted key opens was saved under an accepted key only. -/
theorem OpensWith.accepted (hP : P.Lawful) {key : SecureString} {list : L}
    (h : OpensWith P K (P.save key list)) : Accepted K key := by
  obtain ⟨key', list', heq, haccepted⟩ := h
  rwa [(hP.save_inj heq).1]

theorem onCreate_inv {disk : Option F} (h : ∀ f ∈ disk, OpensWith P K f) :
    AppInv P K (onCreate P disk) := by
  cases disk with
  | none => exact ⟨h, rfl, rfl, rfl⟩
  | some f => exact ⟨h, rfl, rfl, rfl, rfl⟩

/-- A press of the login button: nothing but the form and the task changes. -/
theorem attemptLogin_cases (s : KryptanApp F L) :
    s.attemptLogin = s ∨ s.mAuthTask = none ∧ ∃ error,
      s.attemptLogin = { s with mError := error, mPassword := s.mPasswordView } ∨
      minimumMasterkeyLength ≤ getLength s.mPasswordView ∧ s.attemptLogin =
        { s with mError := none, mPassword := s.mPasswordView, mAuthTask := some .running } := by
  rw [attemptLogin]
  split
  · exact .inl rfl
  · next htask =>
    refine .inr ⟨Option.not_isSome_iff_eq_none.mp htask, ?_⟩
    dsimp only
    split_ifs with h0 hmin
    · exact ⟨_, .inl rfl⟩
    · exact ⟨_, .inl rfl⟩
    · exact ⟨none, .inr ⟨Nat.le_of_not_lt hmin, rfl⟩⟩

/-- A press of the login button on a long enough password starts a task. -/
theorem attemptLogin_of_le (htask : s.mAuthTask = none)
    (hmin : minimumMasterkeyLength ≤ getLength s.mPasswordView) : s.attemptLogin =
      { s with mError := none, mPassword := s.mPasswordView, mAuthTask := some .running } := by
  have hpos : 0 < minimumMasterkeyLength := by decide
  rw [attemptLogin, if_neg (by simp [htask])]
  dsimp only
  rw [if_neg (by omega), if_neg (by omega)]

/-- **What a login task does**: the attempted password becomes the master key, and the file is open
exactly when it was saved under it. -/
theorem doInBackground_eq (hP : P.Lawful) {key : SecureString} {list : L}
    (hdisk : s.disk = some (P.save key list)) (hclosed : s.opened = none) :
    s.doInBackground P = { s with
      masterkey := s.mPassword
      opened := if s.mPassword = key then some list else none
      mAuthTask := some (.finished (s.mPassword = key)) } := by
  have hcopy : copyBytes s.mPassword (clear s.masterkey) (getLength s.mPassword) = s.mPassword := by
    rw [copyBytes_getLength, clear, List.nil_append]
  rw [doInBackground, hcopy, tryOpenAndParse]
  simp only [hdisk, Option.map_some]
  by_cases hkey : s.mPassword = key
  · subst hkey
    rw [hP.openAndParse_save]
    simp
  · rcases hP.openAndParse_ne _ _ list hkey with herr | herr
    · rw [herr]
      simp [hkey, hclosed]
    · rw [herr]
      simp [hkey, hclosed]

/-- On the form, as long as no task has opened it, the file is closed and was saved under some
accepted key. -/
theorem AppInv.login (h : AppInv P K s) (hscreen : s.screen = .login)
    (htask : s.mAuthTask ≠ some (.finished true)) :
    (∃ key list, s.disk = some (P.save key list) ∧ Accepted K key) ∧ s.pending = [] ∧
      s.posted = [] ∧ s.opened = none := by
  rw [AppInv, hscreen] at h
  obtain ⟨hfile, hdisk, hpending, hposted, hlogin⟩ := h
  rw [LoginInv, if_neg htask] at hlogin
  obtain ⟨f, hf⟩ := Option.isSome_iff_exists.mp hdisk
  obtain ⟨key, list, rfl, hkey⟩ := hfile f hf
  exact ⟨⟨key, list, hf, hkey⟩, hpending, hposted, hlogin⟩

/-- A press of the login button keeps the invariant of the form. -/
theorem attemptLogin_inv (h : AppInv P K s) (hscreen : s.screen = .login) :
    AppInv P K s.attemptLogin := by
  rcases attemptLogin_cases s with heq | ⟨htask, error, heq | ⟨-, heq⟩⟩
  · rwa [heq]
  all_goals
    rw [AppInv, hscreen] at h
    obtain ⟨hfile, hdisk, hpending, hposted, hlogin⟩ := h
    rw [LoginInv, htask, if_neg nofun] at hlogin
    rw [heq, AppInv, hscreen]
    refine ⟨hfile, hdisk, hpending, hposted, ?_⟩
  · rw [LoginInv, htask, if_neg nofun]
    exact hlogin
  · rw [LoginInv, if_neg nofun]
    exact hlogin

/-- A login task keeps the invariant of the form: what it opened was saved under its key. -/
theorem doInBackground_inv (hP : P.Lawful) (h : AppInv P K s) (hscreen : s.screen = .login)
    (htask : s.mAuthTask = some .running) : AppInv P K (s.doInBackground P) := by
  obtain ⟨⟨key, list, hf, -⟩, hpending, hposted, hclosed⟩ := h.login hscreen (htask ▸ nofun)
  rw [doInBackground_eq hP hf hclosed, AppInv, hscreen]
  refine ⟨h.1, hf ▸ rfl, hpending, hposted, ?_⟩
  by_cases hkey : s.mPassword = key
  · rw [LoginInv, if_pos (by simp [hkey])]
    exact ⟨list, if_pos hkey, hkey ▸ hf⟩
  · rw [LoginInv, if_neg (by simp [hkey])]
    exact if_neg hkey

/-- The result of a login task: an open file on the next screen, or the form as before. -/
theorem onPostExecute_inv (hP : P.Lawful) {success : Bool} (h : AppInv P K s)
    (hscreen : s.screen = .login) (htask : s.mAuthTask = some (.finished success)) :
    AppInv P K (s.onPostExecute success) := by
  rw [AppInv, hscreen] at h
  obtain ⟨hfile, hdisk, hpending, hposted, hlogin⟩ := h
  cases success with
  | true =>
    rw [LoginInv, if_pos htask] at hlogin
    obtain ⟨list, hopened, hsaved⟩ := hlogin
    exact ⟨hfile, hopened ▸ rfl, (hfile _ hsaved).accepted hP⟩
  | false =>
    rw [LoginInv, if_neg (by rw [htask]; decide)] at hlogin
    refine ⟨hfile, ?_⟩
    simp only [onPostExecute, Bool.false_eq_true, if_false, hscreen]
    exact ⟨hdisk, hpending, hposted, hlogin⟩

/-- **What the dialog for the master key does**: nothing, or an accepted key is set and a save is
started. -/
theorem changeMasterkey_cases (s : KryptanApp F L) (mConfirmOldKey : Bool)
    (mSuccessfull : FinishListener) (accepted : Screen) (old pass conf : SecureString) :
    s.changeMasterkey mConfirmOldKey mSuccessfull accepted old pass conf = s ∨
      ((mConfirmOldKey = true → old = s.masterkey) ∧ minimumMasterkeyLength ≤ getLength pass ∧
        pass = conf) ∧
      s.changeMasterkey mConfirmOldKey mSuccessfull accepted old pass conf = { s with
        masterkey := pass
        screen := accepted
        pending := s.pending ++ [mSuccessfull] } := by
  rw [changeMasterkey]
  split
  · next key heq =>
    obtain ⟨hold, hmin, hconf, rfl⟩ := onPositiveClicked_ok_iff.mp heq
    exact .inr ⟨⟨hold, hmin, hconf⟩, rfl⟩
  · exact .inl rfl

/-- A key accepted for a file that is open keeps the invariant. -/
theorem changeMasterkey_inv {mConfirmOldKey : Bool} {mSuccessfull : FinishListener}
    {accepted : Screen} {old pass conf : SecureString} (h : AppInv P K s)
    (hopened : s.opened.isSome) (haccepted : accepted = .savingNew ∨ accepted = .labels)
    (hkey : KeysIn K (.changeMasterkey old pass conf)) :
    AppInv P K (s.changeMasterkey mConfirmOldKey mSuccessfull accepted old pass conf) := by
  rcases changeMasterkey_cases s mConfirmOldKey mSuccessfull accepted old pass conf with
    heq | ⟨⟨-, hmin, hconf⟩, heq⟩
  · rwa [heq]
  · rw [heq]
    rcases haccepted with rfl | rfl
    · exact ⟨h.1, hopened, hmin, hkey hconf⟩
    · exact ⟨h.1, hopened, hmin, hkey hconf⟩

/-- A confirmed edit leaves the disk, the master key and the screen alone, and the file open. -/
theorem confirm_cases (C : CorePwdList L) (s : KryptanApp F L) (list : L) (now : ℤ)
    (e : Confirmed) :
    s.confirm C list now e = s ∧ (∃ err, handle C now (CorePwdFile.opened list) e = .error err) ∨
      ∃ f, handle C now (CorePwdFile.opened list) e = .ok f ∧ s.confirm C list now e = { s with
        opened := some f.passwordList
        pending := s.pending ++ List.replicate f.pending .dummy } := by
  rw [confirm]
  cases h : handle C now (CorePwdFile.opened list) e with
  | ok f => exact .inr ⟨f, rfl, rfl⟩
  | error err => exact .inl ⟨rfl, err, rfl⟩

/-- **Only an open file under an accepted key is ever being saved.** -/
theorem AppInv.saving (h : AppInv P K s) (hsaves : s.pending ≠ [] ∨ s.posted ≠ []) :
    (s.screen = .savingNew ∨ s.screen = .labels) ∧ s.opened.isSome ∧ Accepted K s.masterkey := by
  have hs := h.2
  cases hscreen : s.screen with
  | savingNew =>
    rw [hscreen] at hs
    exact ⟨.inl rfl, hs⟩
  | labels =>
    rw [hscreen] at hs
    exact ⟨.inr rfl, hs⟩
  | newMasterkey =>
    rw [hscreen] at hs
    exact absurd hsaves (by simp [hs.2])
  | login =>
    rw [hscreen] at hs
    exact absurd hsaves (by simp [hs.2.1, hs.2.2.1])
  | crashed =>
    rw [hscreen] at hs
    exact hs.elim

/-- An open file under an accepted key keeps the invariant on the screens it can be seen on. -/
theorem inv_of_opened (hscreen : s.screen = .savingNew ∨ s.screen = .labels)
    (hfile : ∀ f ∈ s.disk, OpensWith P K f) (hopened : s.opened.isSome)
    (hkey : Accepted K s.masterkey) : AppInv P K s := by
  refine ⟨hfile, ?_⟩
  rcases hscreen with hscreen | hscreen
  · rw [hscreen]
    exact ⟨hopened, hkey⟩
  · rw [hscreen]
    exact ⟨hopened, hkey⟩

/-- **What an event does**, and what it needs. -/
theorem step_cases {e : AppEvent} (ht : s.step P C e = some t) :
    match e with
    | .typed text => s.screen = .login ∧ t = { s with mPasswordView := text, mError := none }
    | .attemptLogin => s.screen = .login ∧ t = s.attemptLogin
    | .doInBackground =>
      s.screen = .login ∧ s.mAuthTask = some .running ∧ t = s.doInBackground P
    | .onPostExecute => ∃ success, s.screen = .login ∧
        s.mAuthTask = some (.finished success) ∧ t = s.onPostExecute success
    | .changeMasterkey old pass conf =>
      s.screen = .newMasterkey ∧
          t = s.changeMasterkey false .onSuccessfull .savingNew old pass conf ∨
        s.screen = .labels ∧ t = s.changeMasterkey true .dummy .labels old pass conf
    | .confirm now e =>
      ∃ list, s.screen = .labels ∧ s.opened = some list ∧ t = s.confirm C list now e
    | .save => ∃ onFinish pending list, s.pending = onFinish :: pending ∧
        s.opened = some list ∧ t = { s with
          disk := some (P.save s.masterkey list)
          pending := pending
          posted := s.posted ++ [onFinish] }
    | .saved => ∃ onFinish posted, s.posted = onFinish :: posted ∧
        t = { s with posted := posted }.onFinish onFinish
    | .killed => t = onCreate P s.disk := by
  cases e with
  | typed | attemptLogin =>
    obtain ⟨hscreen, ht⟩ := Option.ite_none_right_eq_some.mp ht
    exact ⟨hscreen, (Option.some.inj ht).symm⟩
  | doInBackground =>
    obtain ⟨hrun, ht⟩ := Option.ite_none_right_eq_some.mp ht
    exact ⟨hrun.2, hrun.1, (Option.some.inj ht).symm⟩
  | onPostExecute =>
    rw [KryptanApp.step] at ht
    split at ht
    · next success hscreen htask => exact ⟨success, hscreen, htask, (Option.some.inj ht).symm⟩
    · exact nomatch ht
  | changeMasterkey =>
    rw [KryptanApp.step] at ht
    split at ht
    · next hscreen => exact .inl ⟨hscreen, (Option.some.inj ht).symm⟩
    · next hscreen => exact .inr ⟨hscreen, (Option.some.inj ht).symm⟩
    · exact nomatch ht
  | confirm =>
    rw [KryptanApp.step] at ht
    split at ht
    · next list hscreen hopened => exact ⟨list, hscreen, hopened, (Option.some.inj ht).symm⟩
    · exact nomatch ht
  | save =>
    rw [KryptanApp.step] at ht
    split at ht
    · next onFinish pending list hpending hopened =>
      exact ⟨onFinish, pending, list, hpending, hopened, (Option.some.inj ht).symm⟩
    · exact nomatch ht
  | saved =>
    rw [KryptanApp.step] at ht
    split at ht
    · next onFinish posted hposted =>
      exact ⟨onFinish, posted, hposted, (Option.some.inj ht).symm⟩
    · exact nomatch ht
  | killed => exact (Option.some.inj ht).symm

/-- **One event keeps the invariant**, whoever it comes from. -/
theorem step_inv (hP : P.Lawful) {e : AppEvent} (h : AppInv P K s) (he : KeysIn K e)
    (ht : s.step P C e = some t) : AppInv P K t := by
  have hcase := step_cases ht
  cases e with
  | typed text =>
    obtain ⟨-, rfl⟩ := hcase
    exact h
  | attemptLogin =>
    obtain ⟨hscreen, rfl⟩ := hcase
    exact attemptLogin_inv h hscreen
  | doInBackground =>
    obtain ⟨hscreen, htask, rfl⟩ := hcase
    exact doInBackground_inv hP h hscreen htask
  | onPostExecute =>
    obtain ⟨success, hscreen, htask, rfl⟩ := hcase
    exact onPostExecute_inv hP h hscreen htask
  | changeMasterkey old pass conf =>
    have hopened := h.2
    obtain ⟨hscreen, rfl⟩ | ⟨hscreen, rfl⟩ := hcase
    · rw [hscreen] at hopened
      exact changeMasterkey_inv h hopened.1 (.inl rfl) he
    · rw [hscreen] at hopened
      exact changeMasterkey_inv h hopened.1 (.inr rfl) he
  | confirm now e =>
    obtain ⟨list, hscreen, hopened, rfl⟩ := hcase
    rcases confirm_cases C s list now e with ⟨heq, -⟩ | ⟨f, -, heq⟩
    · rwa [heq]
    · rw [AppInv, hscreen] at h
      rw [heq, AppInv, hscreen]
      exact ⟨h.1, rfl, h.2.2⟩
  | save =>
    obtain ⟨onFinish, pending, list, hpending, hopened, rfl⟩ := hcase
    obtain ⟨hscreen, -, hkey⟩ := h.saving (.inl (by simp [hpending]))
    refine inv_of_opened hscreen ?_ (hopened ▸ rfl) hkey
    rintro f ⟨⟩
    exact ⟨_, list, rfl, hkey⟩
  | saved =>
    obtain ⟨onFinish, posted, hposted, rfl⟩ := hcase
    obtain ⟨hscreen, hopened, hkey⟩ := h.saving (.inr (by simp [hposted]))
    cases onFinish with
    | dummy => exact inv_of_opened hscreen h.1 hopened hkey
    | onSuccessfull =>
      rw [KryptanApp.onFinish, if_pos hopened]
      exact inv_of_opened (.inr rfl) h.1 hopened hkey
  | killed =>
    obtain rfl : t = onCreate P s.disk := hcase
    exact onCreate_inv h.1

/-- The invariant of a whole run whose accepted master keys are of `K`. -/
theorem run_inv (hP : P.Lawful) {disk : Option F} (hdisk : ∀ f ∈ disk, OpensWith P K f)
    {es : List AppEvent} (hes : ∀ e ∈ es, KeysIn K e)
    (h : run (KryptanApp.step P C) (onCreate P disk) es = some s) : AppInv P K s :=
  ((allSteps_of_forall_mem _ hes).allStates (I := AppInv P K)
    (fun _ _ _ hs he ht => step_inv hP hs he ht) (onCreate_inv hdisk)).of_run h

/-! ## Nobody is locked out -/

/-- The key a file was saved under opens it. -/
theorem login_opens (hP : P.Lawful) (C : CorePwdList L) {key : SecureString}
    (hmin : minimumMasterkeyLength ≤ getLength key) (list : L) :
    ∃ t, run (KryptanApp.step P C) (onCreate P (some (P.save key list)))
        [.typed key, .attemptLogin, .doInBackground, .onPostExecute] = some t ∧
      t.screen = .labels ∧ t.opened = some list ∧ t.disk = some (P.save key list) := by
  let s₀ : KryptanApp F L := { onCreate P (some (P.save key list)) with mPasswordView := key }
  let s₁ : KryptanApp F L := { s₀ with mPassword := key, mAuthTask := some .running }
  have htyped : (onCreate P (some (P.save key list))).step P C (.typed key) = some s₀ := rfl
  have hlogin : s₀.step P C .attemptLogin = some s₁ :=
    congrArg some (attemptLogin_of_le (s := s₀) rfl hmin)
  have htask : s₁.step P C .doInBackground = some { s₁ with
      masterkey := key
      opened := some list
      mAuthTask := some (.finished true) } := by
    refine (congrArg some (doInBackground_eq hP (s := s₁) rfl rfl)).trans ?_
    simp [s₁]
  refine ⟨_, run_cons_eq_some.mpr ⟨_, htyped, run_cons_eq_some.mpr ⟨_, hlogin,
    run_cons_eq_some.mpr ⟨_, htask, rfl⟩⟩⟩, rfl, rfl, rfl⟩

/-- **Nobody is locked out.**  Whenever there is a file in a run from the first start on, killing the
app and logging in with a password that was typed twice into the dialog for the master key opens
it. -/
theorem run_opens_again (hP : P.Lawful) {es : List AppEvent} {f : F}
    (h : run (KryptanApp.step P C) (onCreate P none) es = some s) (hf : s.disk = some f) :
    ∃ key list t, (∃ old, .changeMasterkey old key key ∈ es) ∧ f = P.save key list ∧
      run (KryptanApp.step P C) s
        [.killed, .typed key, .attemptLogin, .doInBackground, .onPostExecute] = some t ∧
      t.screen = .labels ∧ t.opened = some list := by
  have hinv : AppInv P (fun key => ∃ old, .changeMasterkey old key key ∈ es) s := by
    refine run_inv hP (fun f h => absurd h (Option.not_mem_none f)) (fun e he => ?_) h
    cases e with
    | changeMasterkey old pass conf =>
      rintro rfl
      exact ⟨old, he⟩
    | _ => trivial
  obtain ⟨key, list, rfl, hmin, hkey⟩ := hinv.1 f hf
  obtain ⟨t, ht, hscreen, hopened, -⟩ := login_opens hP C hmin list
  refine ⟨key, list, t, hkey, rfl, ?_, hscreen, hopened⟩
  exact run_cons_eq_some.mpr ⟨_, rfl, hf ▸ ht⟩

/-- A key change that is killed before its save has run: the first key opens the file. -/
theorem run_opens_again_first_key :
    ∃ key list t, (∃ old, .changeMasterkey old key key ∈
        [.changeMasterkey [] (.replicate 8 1) (.replicate 8 1), .save, .saved,
          AppEvent.changeMasterkey (.replicate 8 1) (.replicate 9 2) (.replicate 9 2)]) ∧
      ((.replicate 8 1, PwdTable.empty) : SecureString × PwdTable)
        = (PwdFile.plain PwdTable.empty).save key list ∧
      run (KryptanApp.step (PwdFile.plain PwdTable.empty) PwdTable.core)
        { onCreate (PwdFile.plain PwdTable.empty) none with
          screen := .labels
          disk := some (.replicate 8 1, PwdTable.empty)
          masterkey := .replicate 9 2
          pending := [.dummy] }
        [.killed, .typed key, .attemptLogin, .doInBackground, .onPostExecute] = some t ∧
      t.screen = .labels ∧ t.opened = some list :=
  run_opens_again (PwdFile.plain_lawful _) (C := PwdTable.core)
    (show run _ _ [AppEvent.changeMasterkey [] (.replicate 8 1) (.replicate 8 1), .save, .saved,
      .changeMasterkey (.replicate 8 1) (.replicate 9 2) (.replicate 9 2)] = some _ from rfl) rfl

/-! ## A login is decided when the button is pressed -/

/-- A login with the password `p`, from the press of the button until its result is there: the file
was saved under `key`, and is opened once the task has run. -/
def LoggingIn (P : PwdFile F L) (p key : SecureString) (list : L) (s : KryptanApp F L) : Prop :=
  s.screen = .login ∧ s.disk = some (P.save key list) ∧ s.mPassword = p ∧ s.pending = [] ∧
    s.posted = [] ∧
    (s.mAuthTask = some .running ∧ s.opened = none ∨
      s.mAuthTask = some (.finished (p = key)) ∧ s.opened = if p = key then some list else none)

/-- **Nothing but its own task moves a login on**: not what is typed, nor the button. -/
theorem loggingIn_step (hP : P.Lawful) {p key : SecureString} {list : L} {e : AppEvent}
    (h : LoggingIn P p key list s) (hpost : e ≠ .onPostExecute) (hkilled : e ≠ .killed)
    (ht : s.step P C e = some t) : LoggingIn P p key list t := by
  obtain ⟨hscreen, hdisk, hp, hpending, hposted, htask⟩ := h
  have hcase := step_cases ht
  cases e with
  | typed text =>
    obtain ⟨-, rfl⟩ := hcase
    exact ⟨hscreen, hdisk, hp, hpending, hposted, htask⟩
  | attemptLogin =>
    obtain ⟨-, rfl⟩ := hcase
    have hsome : s.mAuthTask.isSome := by
      rcases htask with h | h
      · rw [h.1]
        rfl
      · rw [h.1]
        rfl
    rw [attemptLogin, if_pos hsome]
    exact ⟨hscreen, hdisk, hp, hpending, hposted, htask⟩
  | doInBackground =>
    obtain ⟨-, hrun, rfl⟩ := hcase
    rcases htask with ⟨-, hclosed⟩ | ⟨htask, -⟩
    · rw [doInBackground_eq hP hdisk hclosed]
      exact ⟨hscreen, hdisk, hp, hpending, hposted, .inr ⟨by simp [hp], by simp [hp]⟩⟩
    · exact nomatch htask.symm.trans hrun
  | onPostExecute => exact absurd rfl hpost
  | killed => exact absurd rfl hkilled
  | changeMasterkey =>
    obtain ⟨hother, -⟩ | ⟨hother, -⟩ := hcase
    · exact nomatch hscreen.symm.trans hother
    · exact nomatch hscreen.symm.trans hother
  | confirm =>
    obtain ⟨list, hother, -⟩ := hcase
    exact nomatch hscreen.symm.trans hother
  | save =>
    obtain ⟨onFinish, pending, list, hsome, -⟩ := hcase
    exact nomatch hpending.symm.trans hsome
  | saved =>
    obtain ⟨onFinish, posted, hsome, -⟩ := hcase
    exact nomatch hposted.symm.trans hsome

/-- **A login is decided by the password that is in the field when the button is pressed.**  Whatever
is typed or pressed until its result is there, the file on disk is left alone; the labels are shown
if it opens under that password, and the form with an error if it does not. -/
theorem login_outcome (hP : P.Lawful) {fs es : List AppEvent}
    (hs : run (KryptanApp.step P C) (onCreate P none) fs = some s) (hscreen : s.screen = .login)
    (htask : s.mAuthTask = none) (hmin : minimumMasterkeyLength ≤ getLength s.mPasswordView)
    (hes : ∀ e ∈ es, e ≠ .onPostExecute ∧ e ≠ .killed)
    (ht : run (KryptanApp.step P C) s (.attemptLogin :: (es ++ [.onPostExecute])) = some t) :
    t.disk = s.disk ∧
      ∃ f ∈ s.disk, match P.openAndParse s.mPasswordView f with
        | .ok list => t.screen = .labels ∧ t.opened = some list
        | .error _ => t.screen = .login ∧ t.opened = none ∧ t.mError = some .incorrectPassword := by
  have hinv : AppInv P (fun _ => True) s :=
    run_inv hP (fun f h => absurd h (Option.not_mem_none f)) (fun e _ => keysIn_true e) hs
  obtain ⟨⟨key, list, hf, -⟩, hpending, hposted, hclosed⟩ := hinv.login hscreen (htask ▸ nofun)
  obtain ⟨s₁, hs₁, hrest⟩ := run_cons_eq_some.mp ht
  obtain ⟨u, hu, hlast⟩ := run_append_eq_some.mp hrest
  have hstart : LoggingIn P s.mPasswordView key list s₁ := by
    rw [KryptanApp.step, if_pos hscreen, attemptLogin_of_le htask hmin] at hs₁
    obtain rfl := Option.some.inj hs₁
    exact ⟨hscreen, hf, rfl, hpending, hposted, .inl ⟨rfl, hclosed⟩⟩
  obtain ⟨huscreen, hudisk, -, -, -, hutask⟩ : LoggingIn P s.mPasswordView key list u :=
    ((allSteps_of_forall_mem s₁ hes).allStates
      (fun _ _ _ h he ht => loggingIn_step hP h he.1 he.2 ht) hstart).of_run hu
  obtain ⟨v, hv, hvt⟩ := run_cons_eq_some.mp hlast
  obtain rfl := Option.some.inj hvt
  rcases hutask with ⟨hrunning, -⟩ | ⟨hfinished, huopened⟩
  · rw [KryptanApp.step, huscreen, hrunning] at hv
    exact nomatch hv
  · rw [KryptanApp.step, huscreen, hfinished] at hv
    obtain rfl := Option.some.inj hv
    by_cases hkey : s.mPasswordView = key
    · rw [onPostExecute, if_pos (decide_eq_true hkey)]
      refine ⟨hudisk.trans hf.symm, _, hf, ?_⟩
      rw [hkey, hP.openAndParse_save]
      exact ⟨rfl, huopened.trans (if_pos hkey)⟩
    · rw [onPostExecute, if_neg (by simp [hkey])]
      refine ⟨hudisk.trans hf.symm, _, hf, ?_⟩
      rcases hP.openAndParse_ne _ _ list hkey with herr | herr
      · rw [herr]
        exact ⟨huscreen, huopened.trans (if_neg hkey), rfl⟩
      · rw [herr]
        exact ⟨huscreen, huopened.trans (if_neg hkey), rfl⟩

/-- A wrong password, and the right one typed while the task is running: the wrong one counts. -/
theorem login_outcome_typed_late :
    let step := KryptanApp.step (PwdFile.plain PwdTable.empty) PwdTable.core
    ∃ s t, run step (onCreate (PwdFile.plain PwdTable.empty) none)
        [.changeMasterkey [] (.replicate 8 1) (.replicate 8 1), .save, .killed,
          .typed (.replicate 8 3)] = some s ∧
      run step s [.attemptLogin, .typed (.replicate 8 1), .attemptLogin, .doInBackground,
        .onPostExecute] = some t ∧
      t.disk = some (.replicate 8 1, PwdTable.empty) ∧ t.screen = .login ∧ t.opened = none ∧
        t.mError = some .incorrectPassword := by
  have h := login_outcome (PwdFile.plain_lawful PwdTable.empty) (C := PwdTable.core)
    (show run _ _ [.changeMasterkey [] (.replicate 8 1) (.replicate 8 1), .save, .killed,
      .typed (.replicate 8 3)] = some _ from rfl) rfl rfl (by decide)
    (show ∀ e ∈ [AppEvent.typed (.replicate 8 1), .attemptLogin, .doInBackground], _ from
      by decide) rfl
  obtain ⟨hdisk, f, ⟨⟩, hscreen, hopened, herror⟩ := h
  exact ⟨_, _, rfl, rfl, hdisk, hscreen, hopened, herror⟩

/-! ## The file on disk is the list on the screen -/

/-- **What is to hold**: with every save run, the file is the open list under the key in memory. -/
def Current (P : PwdFile F L) (s : KryptanApp F L) : Prop :=
  (s.screen = .savingNew ∨ s.screen = .labels) → s.pending = [] → SavedUnderKey P s

/-- An accepted edit of a secret finds a save pending, or leaves the list as it is. -/
def Covered (C : CorePwdList L) (s : KryptanApp F L) : AppEvent → Prop
  | .confirm now (.editPassword mEditPwd password) =>
    getLength password = 0 ∨ s.pending ≠ [] ∨
      ∀ list ∈ s.opened, C.edit list now mEditPwd (.setNewPassword password) = list
  | _ => True

instance [DecidableEq L] (s : KryptanApp F L) (e : AppEvent) : Decidable (Covered C s e) := by
  unfold Covered
  split <;> infer_instance

/-- A state with a save pending is current. -/
theorem current_of_pending (h : s.pending ≠ []) : Current P s := fun _ hpending =>
  absurd hpending h

/-- A state of the login form or of the dialog over it is current. -/
theorem current_of_screen (h : s.screen = .login ∨ s.screen = .newMasterkey) : Current P s := by
  rintro (hscreen | hscreen) -
  · rcases h with h | h <;> exact nomatch hscreen.symm.trans h
  · rcases h with h | h <;> exact nomatch hscreen.symm.trans h

/-- An edit of a secret from a current state: the file is current exactly when it is covered. -/
theorem current_editPassword_iff (hP : P.Lawful) {list : L} {now : ℤ} {p : CorePwd}
    {secret : SecureString} (h : Current P s) (hscreen : s.screen = .labels)
    (hopened : s.opened = some list) :
    Current P (s.confirm C list now (.editPassword p secret)) ↔
      Covered C s (.confirm now (.editPassword p secret)) := by
  rw [confirm, handle, GeneratePasswordDialog.editExistingPasswordClicked]
  by_cases hsecret : getLength secret = 0
  · rw [if_pos hsecret]
    exact iff_of_true h (.inl hsecret)
  · rw [if_neg hsecret]
    simp only [Current, Covered, hsecret, hopened, false_or, CorePwdFile.opened, hscreen, or_true,
      true_imp_iff, List.replicate_zero, List.append_nil, Option.mem_def, Option.some.injEq,
      forall_eq', SavedUnderKey]
    constructor
    · intro hcurrent
      by_cases hpending : s.pending = []
      · obtain ⟨list', hlist', hdisk'⟩ := hcurrent hpending
        obtain ⟨list'', hlist'', hdisk''⟩ := h (.inr hscreen) hpending
        obtain rfl : list = list'' := Option.some.inj (hopened.symm.trans hlist'')
        rw [hlist', (hP.save_inj (Option.some.inj (hdisk'.symm.trans hdisk''))).2]
        exact .inr rfl
      · exact .inl hpending
    · rintro (hpending | heq) hp
      · exact absurd hp hpending
      · obtain ⟨list'', hlist'', hdisk''⟩ := h (.inr hscreen) hp
        obtain rfl : list = list'' := Option.some.inj (hopened.symm.trans hlist'')
        exact ⟨list, heq, hdisk''⟩

/-- Every other accepted edit has started a save. -/
theorem current_confirm {list : L} {now : ℤ} {e : Confirmed} (h : Current P s)
    (he : ∀ p secret, e ≠ .editPassword p secret) : Current P (s.confirm C list now e) := by
  rcases confirm_cases C s list now e with ⟨heq, -⟩ | ⟨f, hf, heq⟩
  · rwa [heq]
  · have hf' : f.pending ≠ 0 := pending_of_handle hf he
    rw [heq]
    refine current_of_pending fun hnil => hf' ?_
    have hlen := congrArg List.length hnil
    rw [List.length_append, List.length_replicate, List.length_nil] at hlen
    omega

/-- **One event from a current state**: the next state is current exactly when an edit of a secret
is covered. -/
theorem current_step_iff (hP : P.Lawful) {e : AppEvent} (hinv : AppInv P K s) (h : Current P s)
    (ht : s.step P C e = some t) : Current P t ↔ Covered C s e := by
  have hcase := step_cases ht
  cases e with
  | typed text =>
    obtain ⟨hscreen, rfl⟩ := hcase
    exact iff_of_true (current_of_screen (.inl hscreen)) trivial
  | attemptLogin =>
    obtain ⟨hscreen, rfl⟩ := hcase
    refine iff_of_true (current_of_screen (.inl ?_)) trivial
    rcases attemptLogin_cases s with heq | ⟨-, error, heq | ⟨-, heq⟩⟩
    all_goals
      rw [heq]
      exact hscreen
  | doInBackground =>
    obtain ⟨hscreen, htask, rfl⟩ := hcase
    obtain ⟨⟨key, list, hdisk, -⟩, -, -, hclosed⟩ := hinv.login hscreen (htask ▸ nofun)
    rw [doInBackground_eq hP hdisk hclosed]
    exact iff_of_true (current_of_screen (.inl hscreen)) trivial
  | onPostExecute =>
    obtain ⟨success, hscreen, htask, rfl⟩ := hcase
    cases success with
    | false => exact iff_of_true (current_of_screen (.inl hscreen)) trivial
    | true =>
      have hlogin := hinv.2
      rw [hscreen] at hlogin
      have hsaved : LoginInv P s := hlogin.2.2.2
      rw [LoginInv, if_pos htask] at hsaved
      exact iff_of_true (fun _ _ => hsaved) trivial
  | changeMasterkey old pass conf =>
    refine iff_of_true ?_ trivial
    obtain ⟨-, rfl⟩ | ⟨-, rfl⟩ := hcase
    all_goals
      rcases changeMasterkey_cases s _ _ _ old pass conf with heq | ⟨-, heq⟩
      · rwa [heq]
      · rw [heq]
        exact current_of_pending (by simp)
  | confirm now e =>
    obtain ⟨list, hscreen, hopened, rfl⟩ := hcase
    by_cases he : ∀ p secret, e ≠ .editPassword p secret
    · refine iff_of_true (current_confirm h he) ?_
      cases e with
      | editPassword p secret => exact absurd rfl (he p secret)
      | _ => trivial
    · simp only [not_forall, not_not] at he
      obtain ⟨p, secret, rfl⟩ := he
      exact current_editPassword_iff hP h hscreen hopened
  | save =>
    obtain ⟨onFinish, pending, list, -, hopened, rfl⟩ := hcase
    exact iff_of_true (fun _ _ => ⟨list, hopened, rfl⟩) trivial
  | saved =>
    obtain ⟨onFinish, posted, hposted, rfl⟩ := hcase
    obtain ⟨hscreen, hopened, -⟩ := hinv.saving (.inr (by simp [hposted]))
    refine iff_of_true (fun _ hpending => ?_) trivial
    cases onFinish with
    | dummy => exact h hscreen hpending
    | onSuccessfull =>
      rw [KryptanApp.onFinish, if_pos hopened] at hpending ⊢
      exact h hscreen hpending
  | killed =>
    obtain rfl : t = onCreate P s.disk := hcase
    refine iff_of_true (current_of_screen ?_) trivial
    cases hdisk : s.disk with
    | none => exact .inr rfl
    | some f => exact .inl rfl

/-- **The file is the list on the screen, under the key in memory, whenever no save is pending —
exactly as long as every accepted edit of a secret finds a save pending or changes nothing.** -/
theorem allStates_current_iff (hP : P.Lawful) (C : CorePwdList L) (es : List AppEvent) :
    AllStates (KryptanApp.step P C) (Current P) (onCreate P none) es ↔
      AllSteps (KryptanApp.step P C) (Covered C) (onCreate P none) es :=
  allStates_iff_allSteps (I := fun s => AppInv P (fun _ => True) s ∧ Current P s)
    (N := fun _ _ => True)
    (fun _ _ _ hs _ he ht =>
      ⟨step_inv hP hs.1 (keysIn_true _) ht, (current_step_iff hP hs.1 hs.2 ht).mpr he⟩)
    (fun _ hs => hs.2) (fun _ _ _ hs _ he ht hcur => he ((current_step_iff hP hs.1 hs.2 ht).mp hcur))
    ⟨onCreate_inv fun f h => absurd h (Option.not_mem_none f), current_of_screen (.inr rfl)⟩
    (allSteps_true _ _)

/-- A new file, a login after the app was killed, and a secret that is edited while the save of its
creation is pending. -/
theorem allStates_current_login :
    let step := KryptanApp.step (PwdFile.plain PwdTable.empty) PwdTable.core
    let s := onCreate (PwdFile.plain PwdTable.empty) none
    let es : List AppEvent := [.changeMasterkey [] (.replicate 8 1) (.replicate 8 1), .save,
      .killed, .typed (.replicate 8 1), .attemptLogin, .doInBackground, .onPostExecute,
      .confirm 5 (.createPassword [2] [97] []),
      .confirm 6 (.editPassword ⟨1, [97], [], [2], [], 5, 5⟩ [3]), .save]
    AllStates step (Current (PwdFile.plain PwdTable.empty)) s es ∧
      ∃ t, run step s es = some t ∧ t.pending = [] ∧
        t.disk.map (fun f => f.2.entries.map fun p => p.data.password) = some [[3]] := by
  refine ⟨(allStates_current_iff (PwdFile.plain_lawful _) PwdTable.core _).mpr ?_,
    _, rfl, rfl, rfl⟩
  decide

end Invariant

end Kryptan
