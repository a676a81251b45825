import Kryptan.Core.PwdList
import Kryptan.Machinery.Runs
import Mathlib.Data.List.Infix

/-!
# Ui/SecretAdapter — the list of secrets and its search

    store ──refreshData──▸ mFilteredSecrets ──getFilter, once──▸ SecretFilter.mOriginalSet
                                  ▴                                       │
                                  └───────── publishResults ◂── performFiltering

The rows are handles into the store.  `refreshData` replaces them, but the filter keeps the rows it
was created with.  `performFiltering` is run by a worker thread and `publishResults` by the user
interface after it; a search is one event here, that of the two with no change in between.  **The list
and its search show the store exactly as long as no change, once the filter is there, touches the set
of passwords under the labels** (`allStates_showsStore_iff`).
-/

namespace Kryptan

open Runs

variable {L : Type*}

/-- What is behind a native handle, if it is one of a password of the list. -/
def CorePwdList.lookup (C : CorePwdList L) (list : L) (handle : ℕ) : Option PwdData :=
  ((C.all list).find? fun p => p.nativeHandle = handle).map CorePwd.data

theorem CorePwdList.lookup_nativeHandle {C : CorePwdList L} {list : L}
    (h : ((C.all list).map CorePwd.nativeHandle).Nodup) {p : CorePwd} (hp : p ∈ C.all list) :
    C.lookup list p.nativeHandle = some p.data := by
  rw [lookup, CorePwd.find?_nativeHandle h hp, Option.map_some]

/-- Filtering by labels returns the passwords of the list that have them, whatever `hasLabels` that
is. -/
structure CorePwdList.LawfulFilter (C : CorePwdList L)
    (hasLabels : PwdData → List SecureString → Bool) : Prop where
  nodup : ∀ list, ((C.all list).map CorePwd.nativeHandle).Nodup
  filterByLabels : ∀ list labels, (C.filterByLabels list labels).Perm
    ((C.all list).filter fun p => hasLabels p.data labels)

/-- The adapter over the live list.  `shown` is the constraint of the last search, empty since the
last `refreshData`. -/
structure SecretAdapter (L : Type*) where
  passwordList : L
  mFilteredSecrets : List ℕ
  mFilter : Option (List ℕ)
  shown : List Char

/-- The texts of Java: how bytes are decoded and how a text is upper-cased. -/
structure JavaText where
  decode : SecureString → List Char
  toUpperCase : List Char → List Char

namespace SecretAdapter

variable (C : CorePwdList L) (text : JavaText) (mLabelsFilter : List SecureString)

def refreshData (a : SecretAdapter L) : SecretAdapter L :=
  { a with
    mFilteredSecrets := (C.filterByLabels a.passwordList mLabelsFilter).map CorePwd.nativeHandle
    shown := [] }

/-- The constructor. -/
def new (list : L) : SecretAdapter L := refreshData C mLabelsFilter ⟨list, [], none, []⟩

/-- The upper-cased description contains the upper-cased constraint. -/
def contains (constraint : List Char) (d : PwdData) : Bool :=
  text.toUpperCase constraint <:+: text.toUpperCase (text.decode d.description)

/-- The loop of `performFiltering`, `none` once it comes to a handle that is no longer one. -/
def filterLoop (list : L) (constraint : List Char) : List ℕ → Option (List ℕ)
  | [] => some []
  | secret :: mOriginalSet => do
    let d ← C.lookup list secret
    let filtered ← filterLoop list constraint mOriginalSet
    return if contains text constraint d then secret :: filtered else filtered

def performFiltering (list : L) (mOriginalSet : List ℕ) (constraint : List Char) :
    Option (List ℕ) :=
  if constraint = [] then some mOriginalSet else filterLoop C text list constraint mOriginalSet

/-- The filter, created with the present rows at its first use. -/
def getFilter (a : SecretAdapter L) : List ℕ := a.mFilter.getD a.mFilteredSecrets

/-- The list changes in any way and the adapter is refreshed, or a search is made. -/
inductive AdapterEvent (L : Type*) where
  | changed (list : L)
  | search (constraint : List Char)

/-- One event.  A search that comes to a dead handle has no next state. -/
def step (a : SecretAdapter L) : AdapterEvent L → Option (SecretAdapter L)
  | .changed list => some (refreshData C mLabelsFilter { a with passwordList := list })
  | .search constraint =>
    (performFiltering C text a.passwordList a.getFilter constraint).map fun values =>
      { a with mFilteredSecrets := values, mFilter := some a.getFilter, shown := constraint }

/-! ## What is to hold -/

variable (hasLabels : PwdData → List SecureString → Bool)

/-- The handles of the passwords under the labels. -/
def labelled (list : L) : List ℕ :=
  ((C.all list).filter fun p => hasLabels p.data mLabelsFilter).map CorePwd.nativeHandle

/-- The rows are the passwords under the labels whose description contains the constraint, all of
them for an empty one. -/
def RowsRight (a : SecretAdapter L) : Prop :=
  a.mFilteredSecrets.Perm
    (((C.all a.passwordList).filter fun p => hasLabels p.data mLabelsFilter &&
      (a.shown = [] || contains text a.shown p.data)).map CorePwd.nativeHandle)

/-- **The list and its search show the store**: the rows are right, and after a search for any
constraint, which uses no dead handle, they are right again. -/
def ShowsStore (a : SecretAdapter L) : Prop :=
  RowsRight C text mLabelsFilter hasLabels a ∧
    ∀ constraint, ∃ b, step C text mLabelsFilter a (.search constraint) = some b ∧
      RowsRight C text mLabelsFilter hasLabels b

/-- A change to the store, once the filter is there, leaves the set of passwords under the labels as
the filter has it. -/
def FilterFresh (a : SecretAdapter L) : AdapterEvent L → Prop
  | .changed list => ∀ mOriginalSet ∈ a.mFilter,
      mOriginalSet.Perm (labelled C mLabelsFilter hasLabels list)
  | .search _ => True

/-! ## The filter on live handles -/

variable {C text mLabelsFilter hasLabels}

theorem lookup_of_mem (hC : C.LawfulFilter hasLabels) {list : L} {p : CorePwd}
    (hp : p ∈ C.all list) : C.lookup list p.nativeHandle = some p.data :=
  CorePwdList.lookup_nativeHandle (hC.nodup list) hp

/-- **On live handles the loop is a filter.** -/
theorem filterLoop_eq_some {list : L} {constraint : List Char} {hs : List ℕ}
    (h : ∀ x ∈ hs, ∃ d, C.lookup list x = some d) :
    filterLoop C text list constraint hs
      = some (hs.filter fun x => (C.lookup list x).any (contains text constraint)) := by
  induction hs with
  | nil => rfl
  | cons x hs ih =>
    obtain ⟨⟨d, hd⟩, hrest⟩ := List.forall_mem_cons.mp h
    rw [filterLoop, ih hrest, hd]
    cases hc : contains text constraint d <;> simp [hd, hc]

/-- **A search of the current passwords under the labels is right.** -/
theorem performFiltering_labelled (text : JavaText) (hC : C.LawfulFilter hasLabels) {list : L}
    {hs : List ℕ} (hhs : hs.Perm (labelled C mLabelsFilter hasLabels list))
    (constraint : List Char) :
    ∃ values, performFiltering C text list hs constraint = some values ∧ values.Perm
      (((C.all list).filter fun p => hasLabels p.data mLabelsFilter &&
        (constraint = [] || contains text constraint p.data)).map CorePwd.nativeHandle) := by
  by_cases hempty : constraint = []
  · refine ⟨hs, if_pos hempty, ?_⟩
    simpa [hempty, labelled] using hhs
  · have hlive : ∀ x ∈ hs, ∃ d, C.lookup list x = some d := fun x hx => by
      obtain ⟨p, hp, rfl⟩ := List.mem_map.mp (hhs.mem_iff.mp hx)
      exact ⟨p.data, lookup_of_mem hC (List.mem_filter.mp hp).1⟩
    refine ⟨_, (if_neg hempty).trans (filterLoop_eq_some hlive), ?_⟩
    refine (hhs.filter _).trans (.of_eq ?_)
    rw [labelled, List.filter_map, List.filter_filter]
    refine congrArg _ (List.filter_congr fun p hp => ?_)
    simp [lookup_of_mem hC hp, hempty, Bool.and_comm]

/-! ## Runs -/

/-- The rows are right, and what a search goes by is the set of passwords under the labels. -/
structure Fresh (C : CorePwdList L) (text : JavaText) (mLabelsFilter : List SecureString)
    (hasLabels : PwdData → List SecureString → Bool) (a : SecretAdapter L) : Prop where
  rows : RowsRight C text mLabelsFilter hasLabels a
  filter : a.getFilter.Perm (labelled C mLabelsFilter hasLabels a.passwordList)

theorem refreshData_perm (hC : C.LawfulFilter hasLabels) (mLabelsFilter : List SecureString)
    (a : SecretAdapter L) : (refreshData C mLabelsFilter a).mFilteredSecrets.Perm
      (labelled C mLabelsFilter hasLabels a.passwordList) :=
  (hC.filterByLabels a.passwordList mLabelsFilter).map CorePwd.nativeHandle

/-- **After `refreshData` the rows are the passwords under the labels.** -/
theorem rowsRight_refreshData (hC : C.LawfulFilter hasLabels) (a : SecretAdapter L) :
    RowsRight C text mLabelsFilter hasLabels (refreshData C mLabelsFilter a) := by
  simpa [RowsRight, refreshData, labelled] using refreshData_perm hC mLabelsFilter a

theorem fresh_new (hC : C.LawfulFilter hasLabels) (list : L) :
    Fresh C text mLabelsFilter hasLabels (new C mLabelsFilter list) where
  rows := rowsRight_refreshData hC _
  filter := refreshData_perm hC mLabelsFilter ⟨list, [], none, []⟩

/-- A search of a fresh adapter goes through, and the adapter stays fresh. -/
theorem Fresh.search (hC : C.LawfulFilter hasLabels) {a : SecretAdapter L}
    (ha : Fresh C text mLabelsFilter hasLabels a) (constraint : List Char) :
    ∃ b, step C text mLabelsFilter a (.search constraint) = some b ∧
      Fresh C text mLabelsFilter hasLabels b := by
  obtain ⟨values, hvalues, hperm⟩ := performFiltering_labelled text hC ha.filter constraint
  refine ⟨{ a with mFilteredSecrets := values, mFilter := some a.getFilter, shown := constraint },
    ?_, hperm, ha.filter⟩
  rw [step, hvalues, Option.map_some]

theorem Fresh.showsStore (hC : C.LawfulFilter hasLabels) {a : SecretAdapter L}
    (ha : Fresh C text mLabelsFilter hasLabels a) :
    ShowsStore C text mLabelsFilter hasLabels a := by
  refine ⟨ha.rows, fun constraint => ?_⟩
  obtain ⟨b, hb, hfresh⟩ := ha.search hC constraint
  exact ⟨b, hb, hfresh.rows⟩

/-- **A change**: the adapter is fresh after it exactly when its filter is, and where it is not,
the search for nothing shows so. -/
theorem changed_spec (hC : C.LawfulFilter hasLabels) (a : SecretAdapter L) (list : L) :
    (FilterFresh C mLabelsFilter hasLabels a (.changed list) →
        Fresh C text mLabelsFilter hasLabels
          (refreshData C mLabelsFilter { a with passwordList := list })) ∧
      (ShowsStore C text mLabelsFilter hasLabels
          (refreshData C mLabelsFilter { a with passwordList := list }) →
        FilterFresh C mLabelsFilter hasLabels a (.changed list)) := by
  constructor
  · intro h
    refine ⟨rowsRight_refreshData hC _, ?_⟩
    cases hf : a.mFilter with
    | none =>
      have hrows := refreshData_perm hC mLabelsFilter { a with passwordList := list }
      simpa [getFilter, refreshData, hf] using hrows
    | some mOriginalSet => simpa [getFilter, refreshData, hf] using h mOriginalSet hf
  · rintro ⟨-, hsearch⟩ mOriginalSet hf
    obtain ⟨b, hb, hrows⟩ := hsearch []
    have hfilter : getFilter (refreshData C mLabelsFilter { a with passwordList := list })
        = mOriginalSet := by
      simp [getFilter, refreshData, Option.mem_def.mp hf]
    rw [step, hfilter, performFiltering, if_pos rfl] at hb
    obtain rfl := Option.some.inj hb
    simpa [RowsRight, refreshData, labelled] using hrows

/-- **The list and its search always show the store, as long as every change leaves the set of
passwords under the labels as an existing filter has it** — and no longer. -/
theorem allStates_showsStore_iff (hC : C.LawfulFilter hasLabels) (list : L)
    (es : List (AdapterEvent L)) :
    AllStates (step C text mLabelsFilter) (ShowsStore C text mLabelsFilter hasLabels)
        (new C mLabelsFilter list) es ↔
      AllSteps (step C text mLabelsFilter) (FilterFresh C mLabelsFilter hasLabels)
        (new C mLabelsFilter list) es := by
  refine allStates_iff_allSteps (I := Fresh C text mLabelsFilter hasLabels)
    (N := fun _ _ => True) (fun a e b ha _ hP h => ?_) (fun _ ha => ha.showsStore hC)
    (fun a e b ha _ hP h hshows => ?_) (fresh_new hC list) (allSteps_true _ _)
  · cases e with
    | changed list' => exact Option.some.inj h ▸ (changed_spec hC a list').1 hP
    | search constraint =>
      obtain ⟨b', hb', hfresh⟩ := ha.search hC constraint
      exact Option.some.inj (hb'.symm.trans h) ▸ hfresh
  · cases e with
    | changed list' =>
      obtain rfl := Option.some.inj h
      exact hP ((changed_spec hC a list').2 hshows)
    | search constraint => exact hP trivial

/-! ## Tables -/

/-- A table is filtered by the passwords that have all the labels. -/
theorem core_lawfulFilter :
    PwdTable.core.LawfulFilter fun d labels => decide (∀ l ∈ labels, l ∈ d.labels) where
  nodup t := t.nodup
  filterByLabels _ _ := List.Perm.refl _

/-- Texts of ASCII characters, upper-cased one by one. -/
def asciiText : JavaText where
  decode s := s.map fun b => Char.ofNat b.toNat
  toUpperCase := List.map Char.toUpper

/-- Two passwords, one of them under the label `[7]`. -/
def twoPasswords : PwdTable :=
  (PwdTable.empty.add ⟨[97], [], [2], [[7]], 3, 4⟩).add ⟨[98], [], [2], [], 3, 4⟩

/-- The passwords under a label are searched, the one that is there is renamed, which leaves the set
the filter has, and the next search finds it under its new name. -/
theorem allStates_showsStore_table :
    let renamed := PwdTable.core.edit twoPasswords 5 ⟨1, [97], [], [2], [[7]], 3, 4⟩
      (.setNewDescription [98])
    let es : List (AdapterEvent PwdTable) := [.search ['a'], .changed renamed, .search ['b']]
    let s := new PwdTable.core [[7]] twoPasswords
    AllStates (step PwdTable.core asciiText [[7]])
        (ShowsStore PwdTable.core asciiText [[7]] fun d labels =>
          decide (∀ l ∈ labels, l ∈ d.labels)) s es ∧
      (run (step PwdTable.core asciiText [[7]]) s es).map mFilteredSecrets = some [1] := by
  refine ⟨(allStates_showsStore_iff core_lawfulFilter _ _).mpr ?_, by decide⟩
  rintro _ ⟨⟩
  refine ⟨trivial, ?_⟩
  rintro _ ⟨⟩
  refine ⟨?_, ?_⟩
  · rintro _ ⟨⟩
    decide
  · exact fun _ _ => ⟨trivial, trivial⟩

/-- A password is created after a search: the next search does not find it. -/
theorem not_showsStore_after_create :
    ¬ ∀ (list : PwdTable) (es : List (AdapterEvent PwdTable)) (a : SecretAdapter PwdTable),
      run (step PwdTable.core asciiText []) (new PwdTable.core [] list) es = some a →
        ShowsStore PwdTable.core asciiText [] (fun d labels => decide (∀ l ∈ labels, l ∈ d.labels))
          a := by
  intro h
  have hshows := h PwdTable.empty
    [.search [], .changed (PwdTable.empty.add ⟨[97], [], [2], [], 3, 4⟩)] _ rfl
  obtain ⟨b, hb, hrows⟩ := hshows.2 ['a']
  obtain rfl := Option.some.inj hb
  exact absurd hrows (by unfold RowsRight; decide)

end SecretAdapter

end Kryptan
