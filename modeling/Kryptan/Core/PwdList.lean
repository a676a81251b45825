import Kryptan.Core.SecureString
import Mathlib.Algebra.Order.Group.Nat
import Mathlib.Algebra.Order.BigOperators.Group.List
import Mathlib.Data.List.Infix
import Mathlib.Data.List.Nodup
import Mathlib.Data.List.Perm.Basic

/-!
# Core/PwdList — the password list, seen through its native methods

    CorePwdList ── All · CreatePwd · DeletePwd · ImportPwd · AddPwdToLabel · … ──▸ native list

The list and its passwords live in the native core: the program holds handles and calls native
methods.  `CorePwdList L` is those methods over whatever type `L` the native lists have, and a
`CorePwd` is a handle with what its getters read.  Two groups of documented behaviour are named:

* `LawfulMerge` — `DeletePwd` removes the given entry, `ImportPwd` adds a copy;
* `LawfulEdit` — a new password is created now, an edit leaves the creation time alone.

`PwdTable.core` is a list that behaves so.
-/

namespace Kryptan

/-- What the getters of a password read. -/
structure PwdData where
  description : SecureString
  username : SecureString
  password : SecureString
  labels : List SecureString
  timeCreated : ℤ
  timeModified : ℤ
  deriving DecidableEq, Repr

/-- A password of a list: its native handle and what is behind it. -/
structure CorePwd where
  nativeHandle : ℕ
  data : PwdData
  deriving DecidableEq, Repr

namespace CorePwd

/-- In a list of distinct handles a handle is that of one password. -/
theorem find?_nativeHandle {l : List CorePwd} (h : (l.map nativeHandle).Nodup) {p : CorePwd}
    (hp : p ∈ l) : (l.find? fun q => q.nativeHandle = p.nativeHandle) = some p := by
  obtain ⟨q, hq⟩ := Option.isSome_iff_exists.mp
    (List.find?_isSome.mpr ⟨p, hp, decide_eq_true rfl⟩ :
      (l.find? fun q => decide (q.nativeHandle = p.nativeHandle)).isSome = true)
  have hsame : q.nativeHandle = p.nativeHandle := by simpa using List.find?_some hq
  rw [hq, List.inj_on_of_nodup_map h (List.mem_of_find?_eq_some hq) hp hsame]

def getTimeCreated (p : CorePwd) : ℤ := p.data.timeCreated

def getTimeModified (p : CorePwd) : ℤ := p.data.timeModified

def getDescriptionCopy (p : CorePwd) : SecureString := p.data.description

end CorePwd

/-- The setters of a password and the two label methods of its list. -/
inductive PwdEdit where
  | setNewDescription (desc : SecureString)
  | setNewUsername (user : SecureString)
  | setNewPassword (password : SecureString)
  | addPwdToLabel (label : SecureString)
  | removePwdFromLabel (label : SecureString)
  deriving DecidableEq, Repr

/-- The native methods of `CorePwdList` and `CorePwd`, over native lists of type `L`.  Those that
read the clock take its reading `now`. -/
structure CorePwdList (L : Type*) where
  all : L → List CorePwd
  filter : L → SecureString → List CorePwd
  filterByLabels : L → List SecureString → List CorePwd
  filterLabels : L → SecureString → List SecureString
  createPwd : L → ℤ → (description : SecureString) → (username : Option SecureString) →
    (password : SecureString) → L × CorePwd
  deletePwd : L → CorePwd → L
  importPwd : L → CorePwd → L
  edit : L → ℤ → CorePwd → PwdEdit → L

namespace CorePwdList

variable {L : Type*}

/-- The passwords of a list without their handles. -/
def contents (C : CorePwdList L) (list : L) : List PwdData := (C.all list).map CorePwd.data

/-- `deletePwd` removes the given entry and `ImportPwd` adds a copy. -/
structure LawfulMerge (C : CorePwdList L) : Prop where
  nodup : ∀ list, ((C.all list).map CorePwd.nativeHandle).Nodup
  deletePwd : ∀ list, ∀ p ∈ C.all list, (C.all (C.deletePwd list p)).Perm ((C.all list).erase p)
  importPwd : ∀ list p, ∃ h, (C.all (C.importPwd list p)).Perm (⟨h, p.data⟩ :: C.all list)

/-- A password is created now, and an edit of a password leaves its creation time alone. -/
structure LawfulEdit (C : CorePwdList L) : Prop where
  createPwd : ∀ list now description username password,
    ∃ p : CorePwd, p.getTimeCreated = now ∧
      (C.createPwd list now description username password).2 = p ∧
      (C.all (C.createPwd list now description username password).1).Perm (p :: C.all list)
  edit : ∀ list now, ∀ p ∈ C.all list, ∀ e, ∃ p' : CorePwd, p'.getTimeCreated = p.getTimeCreated ∧
      (C.all (C.edit list now p e)).Perm (p' :: (C.all list).erase p)

end CorePwdList

/-! ## A list that behaves as documented -/

/-- A table of passwords, each under a handle of its own. -/
structure PwdTable where
  entries : List CorePwd
  nodup : (entries.map CorePwd.nativeHandle).Nodup
  deriving DecidableEq

namespace PwdTable

/-- A handle that no entry has. -/
def freshHandle (entries : List CorePwd) : ℕ := (entries.map CorePwd.nativeHandle).sum + 1

theorem freshHandle_notMem (entries : List CorePwd) :
    freshHandle entries ∉ entries.map CorePwd.nativeHandle := fun h =>
  absurd (List.le_sum_of_mem h) (by unfold freshHandle; omega)

/-- The empty table. -/
def empty : PwdTable := ⟨[], List.nodup_nil⟩

/-- Add an entry under a fresh handle. -/
def add (t : PwdTable) (d : PwdData) : PwdTable where
  entries := ⟨freshHandle t.entries, d⟩ :: t.entries
  nodup := List.nodup_cons.mpr ⟨freshHandle_notMem t.entries, t.nodup⟩

/-- Take an entry out. -/
def remove (t : PwdTable) (p : CorePwd) : PwdTable where
  entries := t.entries.erase p
  nodup := t.nodup.sublist (List.erase_sublist.map _)

/-- Rewrite the data behind an entry. -/
def rewrite (t : PwdTable) (p : CorePwd) (f : PwdData → PwdData) : PwdTable where
  entries := t.entries.map fun q => if q = p then ⟨q.nativeHandle, f q.data⟩ else q
  nodup := by
    have hsame : ∀ q : CorePwd, (if q = p then ⟨q.nativeHandle, f q.data⟩ else q).nativeHandle
        = q.nativeHandle := fun q => by split <;> rfl
    rw [List.map_map, Function.comp_def]
    simp only [hsame]
    exact t.nodup

/-- The effect of an edit on the data behind a password. -/
def applyEdit (now : ℤ) (d : PwdData) : PwdEdit → PwdData
  | .setNewDescription desc => { d with description := desc, timeModified := now }
  | .setNewUsername user => { d with username := user, timeModified := now }
  | .setNewPassword password => { d with password := password, timeModified := now }
  | .addPwdToLabel label => { d with labels := d.labels ++ [label], timeModified := now }
  | .removePwdFromLabel label => { d with labels := d.labels.erase label, timeModified := now }

/-- The native methods on tables. -/
def core : CorePwdList PwdTable where
  all t := t.entries
  filter t pattern := t.entries.filter fun p => pattern <:+: p.data.description
  filterByLabels t labels := t.entries.filter fun p => ∀ l ∈ labels, l ∈ p.data.labels
  filterLabels t pattern :=
    ((t.entries.flatMap fun p => p.data.labels).dedup).filter fun l => pattern <:+: l
  createPwd t now description username password :=
    let d : PwdData := ⟨description, username.getD [], password, [], now, now⟩
    (t.add d, ⟨freshHandle t.entries, d⟩)
  deletePwd := remove
  importPwd t p := t.add p.data
  edit t now p e := t.rewrite p fun d => applyEdit now d e

theorem core_lawfulMerge : core.LawfulMerge where
  nodup t := t.nodup
  deletePwd _ _ _ := List.Perm.refl _
  importPwd _ _ := ⟨_, List.Perm.refl _⟩

/-- Rewriting one entry replaces it. -/
theorem rewrite_entries_perm (t : PwdTable) {p : CorePwd} (hp : p ∈ t.entries)
    (f : PwdData → PwdData) :
    ((t.rewrite p f).entries).Perm (⟨p.nativeHandle, f p.data⟩ :: t.entries.erase p) := by
  have hne : ∀ q ∈ t.entries.erase p, q ≠ p := fun q hq =>
    ((t.nodup.of_map.mem_erase_iff).mp hq).1
  refine ((List.perm_cons_erase hp).map _).trans ?_
  rw [List.map_cons, if_pos rfl]
  refine List.Perm.cons _ (.of_eq ?_)
  calc _ = (t.entries.erase p).map id := List.map_congr_left fun q hq => if_neg (hne q hq)
    _ = _ := List.map_id _

theorem core_lawfulEdit : core.LawfulEdit where
  createPwd t now description username password :=
    ⟨_, rfl, rfl, List.Perm.refl _⟩
  edit t now p hp e :=
    ⟨⟨p.nativeHandle, applyEdit now p.data e⟩, by cases e <;> rfl,
      rewrite_entries_perm t hp fun d => applyEdit now d e⟩

end PwdTable

end Kryptan
