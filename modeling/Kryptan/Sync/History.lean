import Kryptan.Machinery.Runs
import Kryptan.Sync.OneSided
import Mathlib.Data.Set.Basic
import Mathlib.Logic.Function.Basic

/-!
# Sync/History — a phone and its desktops over time

    phone ══ create · edit · delete ══╗                    ╔══ finishClicked: LAST_SYNC_TIME = now
                                      ╠══ sync, adoption ══╣
    desktop d ══ create · edit · … ═══╝                    ╚══ … the desktop goes on meanwhile

`History` is the two sides' lists and one clock in seconds, with the real sync between them.
`Times` is the same seen through creation times: sets of seconds, which an edit leaves alone and a
sync equates.  **`History` refines `Times`** (`History.step_refines`), so what the default choices
say about deletions can be argued about seconds.

`shared` and `syncedAt` are for the statements only: the passwords that were in both lists after a
sync with a desktop, and the second of the last one.
-/

namespace Kryptan

open ConflictChoice SyncAdapter SyncronizeDesktopActivity Runs

variable {L ι : Type*}

/-! ## The lists -/

/-- The phone, its desktops, the clock, and the second of the last creation.  `adopted` is the
desktop that has adopted a merge while the success dialog is still open on the phone. -/
structure History (L ι : Type*) where
  phone : L
  desktops : ι → List PwdData
  clock : ℤ
  lastCreation : ℤ
  lastSyncTime : ℤ
  adopted : Option ι
  shared : ι → List ℤ
  syncedAt : ι → ℤ

/-- What happens.  A sync is the snapshot of the desktop's list, the items with the user's clicks
applied to the phone's list, and the adoption of the result. -/
inductive HistoryEvent (ι : Type*) where
  | tick (seconds : ℕ)
  | phoneCreates (description password : SecureString) (username : Option SecureString)
  | phoneEdits (p : CorePwd) (e : PwdEdit)
  | phoneDeletes (p : CorePwd)
  | desktopCreates (d : ι) (data : PwdData)
  | desktopEdits (d : ι) (data : PwdData)
  | desktopDeletes (d : ι) (timeCreated : ℤ)
  | sync (d : ι) (remoteArray : List CorePwd) (clicks : List (ℕ × Button))
  | finishClicked

/-- The creation times of a desktop's list. -/
def dataTimes (l : List PwdData) : List ℤ := l.map PwdData.timeCreated

namespace History

variable [DecidableEq ι]

/-- The sync with a desktop, up to its adoption. -/
def syncWith (C : CorePwdList L) (s : History L ι) (d : ι) (remoteArray : List CorePwd)
    (clicks : List (ℕ × Button)) : Option (History L ι) :=
  match createSyncItemList s.lastSyncTime (C.all s.phone) remoteArray with
  | .ok items =>
    let merged := (applyChoices C s.phone (clickItems items clicks)).list
    some { s with
      phone := merged
      desktops := Function.update s.desktops d (C.contents merged)
      adopted := some d
      shared := Function.update s.shared d (s.shared d ++ times (C.all merged))
      syncedAt := Function.update s.syncedAt d s.clock }
  | .error _ => none

/-- One event.  No two passwords are created in the same second, and the phone's user is held by the
success dialog until its button is clicked. -/
def step (C : CorePwdList L) (s : History L ι) : HistoryEvent ι → Option (History L ι)
  | .tick seconds => some { s with clock := s.clock + seconds }
  | .phoneCreates description password username =>
    if s.adopted = none ∧ s.lastCreation < s.clock then
      some { s with
        phone := (C.createPwd s.phone s.clock description username password).1
        lastCreation := s.clock }
    else none
  | .phoneEdits p e =>
    if s.adopted = none ∧ p ∈ C.all s.phone then
      some { s with phone := C.edit s.phone s.clock p e }
    else none
  | .phoneDeletes p =>
    if s.adopted = none ∧ p ∈ C.all s.phone then some { s with phone := C.deletePwd s.phone p }
    else none
  | .desktopCreates d data =>
    if s.lastCreation < s.clock then
      some { s with
        desktops := Function.update s.desktops d
          ({ data with timeCreated := s.clock } :: s.desktops d)
        lastCreation := s.clock }
    else none
  | .desktopEdits d data =>
    some { s with
      desktops := Function.update s.desktops d
        ((s.desktops d).map fun q => if q.timeCreated = data.timeCreated then data else q) }
  | .desktopDeletes d timeCreated =>
    if timeCreated ∈ dataTimes (s.desktops d) then
      some { s with
        desktops := Function.update s.desktops d
          ((s.desktops d).filter fun q => q.timeCreated ≠ timeCreated) }
    else none
  | .sync d remoteArray clicks =>
    if s.adopted = none ∧ remoteArray.map CorePwd.data = s.desktops d then
      s.syncWith C d remoteArray clicks
    else none
  | .finishClicked =>
    if s.adopted = none then none else some { s with lastSyncTime := s.clock, adopted := none }

/-- New lists and no sync yet. -/
def start (phone : L) (clock : ℤ) : History L ι where
  phone := phone
  desktops := fun _ => []
  clock := clock
  lastCreation := 0
  lastSyncTime := 0
  adopted := none
  shared := fun _ => []
  syncedAt := fun _ => 0

end History

/-! ## Their creation times -/

/-- A phone (`none`) and desktops as sets of creation times. -/
@[ext]
structure Times (ι : Type*) where
  held : Option ι → Set ℤ
  clock : ℤ
  lastCreation : ℤ
  lastSync : ℤ
  adopted : Option ι
  shared : ι → Set ℤ
  syncedAt : ι → ℤ

/-- What an event is to the creation times. -/
inductive Act (ι : Type*) where
  | tick
  | create (side : Option ι)
  | delete (side : Option ι) (t : ℤ)
  | quiet
  | sync (d : ι) (byDefault : Bool)
  | finish

namespace Times

/-- A password of the phone or of a desktop that the other one does not have. -/
def Apart (s : Times ι) (d : ι) (t : ℤ) : Prop :=
  (t ∈ s.held none ∧ t ∉ s.held (some d)) ∨ (t ∉ s.held none ∧ t ∈ s.held (some d))

variable [DecidableEq ι]

/-- The creation times over one event.  A sync puts both sides on times that one of them had; by
default it brings the phone none that lies before the last sync, and drops nothing but times of one
side that do. -/
inductive Step : Times ι → Act ι → Times ι → Prop where
  | tick (s : Times ι) (c : ℤ) (h : s.clock ≤ c) : Step s .tick { s with clock := c }
  | create (s : Times ι) (side : Option ι) (hidle : side = none → s.adopted = none)
      (hfresh : s.lastCreation < s.clock) :
      Step s (.create side) { s with
        held := Function.update s.held side (insert s.clock (s.held side))
        lastCreation := s.clock }
  | delete (s : Times ι) (side : Option ι) (t : ℤ) (hidle : side = none → s.adopted = none)
      (ht : t ∈ s.held side) :
      Step s (.delete side t) { s with
        held := Function.update s.held side (s.held side \ {t}) }
  | quiet (s : Times ι) : Step s .quiet s
  | sync (s : Times ι) (d : ι) (byDefault : Bool) (merged : Set ℤ) (hidle : s.adopted = none)
      (hmerged : ∀ t ∈ merged, t ∈ s.held none ∨ t ∈ s.held (some d))
      (hdefault : byDefault = true → ∀ t ∈ merged, t ∈ s.held none ∨
        (t ∈ s.held (some d) ∧ ¬ (s.lastSync ≠ 0 ∧ t < s.lastSync)))
      (hkeeps : byDefault = true → ∀ t, t ∈ s.held none ∨ t ∈ s.held (some d) →
        (s.Apart d t → ¬ (s.lastSync ≠ 0 ∧ t < s.lastSync)) → t ∈ merged) :
      Step s (.sync d byDefault) { s with
        held := Function.update (Function.update s.held none merged) (some d) merged
        adopted := some d
        shared := Function.update s.shared d (s.shared d ∪ merged)
        syncedAt := Function.update s.syncedAt d s.clock }
  | finish (s : Times ι) (d : ι) (h : s.adopted = some d) :
      Step s .finish { s with lastSync := s.clock, adopted := none }

/-- A step may be read off the state it leads to. -/
theorem Step.of_eq {s t t' : Times ι} {a : Act ι} (h : Step s a t) (heq : t' = t) : Step s a t' :=
  heq ▸ h

theorem mem_update {κ : Type*} [DecidableEq κ] {f : κ → Set ℤ} {i j : κ} {S : Set ℤ} {t : ℤ} :
    t ∈ Function.update f i S j ↔ (j = i ∧ t ∈ S) ∨ (j ≠ i ∧ t ∈ f j) := by
  rcases eq_or_ne j i with rfl | hne
  · simp
  · simp [hne]

/-- What a side holds after a creation. -/
theorem mem_create {f : Option ι → Set ℤ} {i j : Option ι} {x t : ℤ} :
    t ∈ Function.update f i (insert x (f i)) j ↔ (j = i ∧ t = x) ∨ t ∈ f j := by
  rw [mem_update, Set.mem_insert_iff]
  rcases eq_or_ne j i with rfl | hne
  · simp
  · simp [hne]

/-- What a side holds after a deletion. -/
theorem mem_delete {f : Option ι → Set ℤ} {i j : Option ι} {x t : ℤ} :
    t ∈ Function.update f i (f i \ {x}) j ↔ t ∈ f j ∧ (j = i → t ≠ x) := by
  rw [mem_update, Set.mem_sdiff, Set.mem_singleton_iff]
  rcases eq_or_ne j i with rfl | hne
  · simp
  · simp [hne]

/-- What a side holds after a sync. -/
theorem mem_sync {f : Option ι → Set ℤ} {d : ι} {S : Set ℤ} {j : Option ι} {t : ℤ} :
    t ∈ Function.update (Function.update f none S) (some d) S j ↔
      ((j = none ∨ j = some d) ∧ t ∈ S) ∨ (j ≠ none ∧ j ≠ some d ∧ t ∈ f j) := by
  rw [mem_update, mem_update]
  rcases eq_or_ne j (some d) with rfl | hne
  · simp
  · rcases eq_or_ne j none with rfl | hnone
    · simp
    · simp [hne, hnone]

/-- **A time on some side** was on a side before, or is of a password just created. -/
theorem Step.held_cases {s t : Times ι} {a : Act ι} (h : Step s a t) {side : Option ι} {u : ℤ}
    (hu : u ∈ t.held side) :
    (∃ side', u ∈ s.held side') ∨ (u = s.clock ∧ t.lastCreation = s.clock) := by
  cases h with
  | tick | quiet | finish => exact .inl ⟨side, hu⟩
  | create side' hidle hfresh =>
    rcases mem_create.mp hu with ⟨-, rfl⟩ | hu
    · exact .inr ⟨rfl, rfl⟩
    · exact .inl ⟨_, hu⟩
  | delete side' x hidle hx => exact .inl ⟨_, (mem_delete.mp hu).1⟩
  | sync d byDefault merged hidle hmerged hdefault hkeeps =>
    rcases mem_sync.mp hu with ⟨-, hu⟩ | ⟨-, -, hu⟩
    · exact .inl ((hmerged u hu).elim (fun h => ⟨_, h⟩) fun h => ⟨_, h⟩)
    · exact .inl ⟨_, hu⟩

/-- The second of the last creation only moves on, and stays behind the clock. -/
theorem Step.lastCreation_mono {s t : Times ι} {a : Act ι} (h : Step s a t)
    (hs : s.lastCreation ≤ s.clock) :
    s.lastCreation ≤ t.lastCreation ∧ t.lastCreation ≤ t.clock ∧ s.clock ≤ t.clock := by
  cases h with
  | tick c h => exact ⟨le_rfl, hs.trans h, h⟩
  | create side hidle hfresh => exact ⟨hfresh.le, le_rfl, le_rfl⟩
  | delete | quiet | sync | finish => exact ⟨le_rfl, hs, le_rfl⟩

/-- The order of the clock's readings. -/
structure Ordered (s : Times ι) : Prop where
  clock_pos : 0 < s.clock
  held_pos : ∀ side, ∀ t ∈ s.held side, 0 < t
  held_le : ∀ side, ∀ t ∈ s.held side, t ≤ s.lastCreation
  lastCreation_le : s.lastCreation ≤ s.clock
  lastSync_nonneg : 0 ≤ s.lastSync
  lastSync_le : s.lastSync ≤ s.clock

/-- **Every event keeps the order.** -/
theorem Ordered.step {s t : Times ι} {a : Act ι} (hs : s.Ordered) (h : Step s a t) :
    t.Ordered := by
  obtain ⟨hmono, hlast, hclock⟩ := h.lastCreation_mono hs.lastCreation_le
  have hsync : 0 ≤ t.lastSync ∧ t.lastSync ≤ t.clock := by
    have hkeep : t.lastSync = s.lastSync → 0 ≤ t.lastSync ∧ t.lastSync ≤ t.clock := fun heq =>
      heq ▸ ⟨hs.lastSync_nonneg, hs.lastSync_le.trans hclock⟩
    cases h with
    | tick | create | delete | quiet | sync => exact hkeep rfl
    | finish d h => exact ⟨hs.clock_pos.le, le_rfl⟩
  refine ⟨hs.clock_pos.trans_le hclock, fun side u hu => ?_, fun side u hu => ?_, hlast, hsync.1,
    hsync.2⟩
  · rcases h.held_cases hu with ⟨side', hu⟩ | ⟨rfl, -⟩
    · exact hs.held_pos side' u hu
    · exact hs.clock_pos
  · rcases h.held_cases hu with ⟨side', hu⟩ | ⟨rfl, heq⟩
    · exact (hs.held_le side' u hu).trans hmono
    · exact heq.ge

end Times

/-! ## The refinement -/

namespace HistoryEvent

/-- What an event is to the creation times. -/
def act : HistoryEvent ι → Act ι
  | .tick _ => .tick
  | .phoneCreates _ _ _ => .create none
  | .phoneDeletes p => .delete none p.getTimeCreated
  | .desktopCreates d _ => .create (some d)
  | .desktopDeletes d t => .delete (some d) t
  | .phoneEdits _ _ | .desktopEdits _ _ => .quiet
  | .sync d _ clicks => .sync d clicks.isEmpty
  | .finishClicked => .finish

end HistoryEvent

namespace History

/-- The creation times of a history. -/
def view (C : CorePwdList L) (s : History L ι) : Times ι where
  held
    | none => {t | t ∈ times (C.all s.phone)}
    | some d => {t | t ∈ dataTimes (s.desktops d)}
  clock := s.clock
  lastCreation := s.lastCreation
  lastSync := s.lastSyncTime
  adopted := s.adopted
  shared d := {t | t ∈ s.shared d}
  syncedAt := s.syncedAt

/-- The lists have each creation time once, and the clock's readings are in order. -/
structure Wellformed (C : CorePwdList L) (s : History L ι) : Prop where
  phone : (times (C.all s.phone)).Nodup
  desktop : ∀ d, (dataTimes (s.desktops d)).Nodup
  ordered : (s.view C).Ordered

variable {C : CorePwdList L}

theorem mem_held_phone {s : History L ι} {t : ℤ} :
    t ∈ (s.view C).held none ↔ t ∈ times (C.all s.phone) := Iff.rfl

theorem mem_held_desktop {s : History L ι} {d : ι} {t : ℤ} :
    t ∈ (s.view C).held (some d) ↔ t ∈ dataTimes (s.desktops d) := Iff.rfl

variable [DecidableEq ι]

/-- The times held after the phone's list has changed. -/
theorem held_phone (C : CorePwdList L) (s t : History L ι) {S : Set ℤ} (h : t.desktops = s.desktops)
    (hset : {u | u ∈ times (C.all t.phone)} = S) :
    (t.view C).held = Function.update (s.view C).held none S := by
  funext side
  rcases side with _ | d
  · rw [Function.update_self]
    exact hset
  · rw [Function.update_of_ne (Option.some_ne_none d)]
    simp only [view, h]

/-- The times held after a desktop's list has changed. -/
theorem held_desktop (C : CorePwdList L) (s t : History L ι) {d : ι} {l : List PwdData} {S : Set ℤ}
    (hphone : t.phone = s.phone) (h : t.desktops = Function.update s.desktops d l)
    (hset : {u | u ∈ dataTimes l} = S) :
    (t.view C).held = Function.update (s.view C).held (some d) S := by
  funext side
  rcases side with _ | d'
  · rw [Function.update_of_ne (Option.some_ne_none d).symm]
    simp only [view, hphone]
  · rcases eq_or_ne d' d with rfl | hne
    · rw [Function.update_self, ← hset]
      simp only [view, h, Function.update_self]
    · rw [Function.update_of_ne fun heq => hne (Option.some.inj heq)]
      simp only [view, h, Function.update_of_ne hne]

/-- What is behind a merged list, in creation times. -/
theorem dataTimes_contents (C : CorePwdList L) (list : L) :
    dataTimes (C.contents list) = times (C.all list) :=
  List.map_map ..

/-- An edit on a desktop leaves the creation times alone. -/
theorem dataTimes_edit (l : List PwdData) (data : PwdData) :
    dataTimes (l.map fun q => if q.timeCreated = data.timeCreated then data else q)
      = dataTimes l := by
  rw [dataTimes, List.map_map]
  refine List.map_congr_left fun q _ => ?_
  rw [Function.comp_apply]
  split_ifs with h
  · exact h.symm
  · rfl

/-- A deletion on a desktop takes one creation time out. -/
theorem dataTimes_filter (l : List PwdData) (t : ℤ) :
    dataTimes (l.filter fun q => q.timeCreated ≠ t) = (dataTimes l).filter (· ≠ t) := by
  rw [dataTimes, dataTimes, List.filter_map]
  rfl

/-! ### Event by event -/

section

variable {s t : History L ι}

/-- The lists stay well formed as soon as they have their times once. -/
theorem Wellformed.step (hs : s.Wellformed C) {a : Act ι}
    (hstep : Times.Step (s.view C) a (t.view C))
    (hphone : (times (C.all t.phone)).Nodup) (hdesktop : ∀ d, (dataTimes (t.desktops d)).Nodup) :
    Times.Step (s.view C) a (t.view C) ∧ t.Wellformed C :=
  ⟨hstep, hphone, hdesktop, hs.ordered.step hstep⟩

omit [DecidableEq ι] in
/-- No list has a time beyond the last creation. -/
theorem Wellformed.clock_notMem (hs : s.Wellformed C) (hlt : s.lastCreation < s.clock)
    (side : Option ι) : s.clock ∉ (s.view C).held side := fun hmem =>
  absurd (hs.ordered.held_le side s.clock hmem) (not_le.mpr hlt)

/-- One desktop's list has changed. -/
theorem Wellformed.desktop_update (hs : s.Wellformed C) {d : ι} {l : List PwdData}
    (hl : (dataTimes l).Nodup) (d' : ι) :
    (dataTimes (Function.update s.desktops d l d')).Nodup := by
  rcases eq_or_ne d' d with rfl | hne
  · rwa [Function.update_self]
  · rw [Function.update_of_ne hne]
    exact hs.desktop d'

theorem phoneCreates_refines (hE : C.LawfulEdit) (hs : s.Wellformed C)
    {description password : SecureString} {username : Option SecureString}
    (h : s.step C (.phoneCreates description password username) = some t) :
    Times.Step (s.view C) (.create none) (t.view C) ∧ t.Wellformed C := by
  obtain ⟨hguard, heq⟩ := Option.ite_none_right_eq_some.mp h
  obtain rfl := Option.some.inj heq
  have hperm := times_createPwd hE s.phone s.clock description password username
  have hset : {u | u ∈ times (C.all (C.createPwd s.phone s.clock description username
      password).1)} = insert s.clock ((s.view C).held none) :=
    Set.ext fun u => hperm.mem_iff.trans List.mem_cons
  have hstep := Times.Step.create (s.view C) none (fun _ => hguard.1) hguard.2
  refine hs.step (hstep.of_eq (Times.ext (held_phone C s _ rfl hset) rfl rfl rfl rfl rfl rfl))
    ?_ hs.desktop
  rw [hperm.nodup_iff, List.nodup_cons]
  exact ⟨hs.clock_notMem hguard.2 none, hs.phone⟩

theorem phoneEdits_refines (hE : C.LawfulEdit) (hs : s.Wellformed C) {p : CorePwd} {e : PwdEdit}
    (h : s.step C (.phoneEdits p e) = some t) :
    Times.Step (s.view C) .quiet (t.view C) ∧ t.Wellformed C := by
  obtain ⟨hguard, heq⟩ := Option.ite_none_right_eq_some.mp h
  obtain rfl := Option.some.inj heq
  have hperm := times_edit hE s.clock hguard.2 e
  have hset : {u | u ∈ times (C.all (C.edit s.phone s.clock p e))} = (s.view C).held none :=
    Set.ext fun u => hperm.mem_iff
  have hheld := held_phone C s { s with phone := C.edit s.phone s.clock p e } rfl hset
  exact hs.step ((Times.Step.quiet (s.view C)).of_eq (Times.ext
    (hheld.trans (Function.update_eq_self none _)) rfl rfl rfl rfl rfl rfl))
    (hperm.nodup_iff.mpr hs.phone) hs.desktop

theorem phoneDeletes_refines (hC : C.LawfulMerge) (hs : s.Wellformed C) {p : CorePwd}
    (h : s.step C (.phoneDeletes p) = some t) :
    Times.Step (s.view C) (.delete none p.getTimeCreated) (t.view C) ∧ t.Wellformed C := by
  obtain ⟨hguard, heq⟩ := Option.ite_none_right_eq_some.mp h
  obtain rfl := Option.some.inj heq
  have hperm := times_deletePwd hC hguard.2
  obtain ⟨hgone, hrest⟩ := List.nodup_cons.mp (hperm.nodup_iff.mpr hs.phone)
  have hset : {u | u ∈ times (C.all (C.deletePwd s.phone p))}
      = (s.view C).held none \ {p.getTimeCreated} := by
    ext u
    have hmem := hperm.mem_iff (a := u)
    rw [List.mem_cons] at hmem
    constructor
    · intro hu
      exact ⟨hmem.mp (.inr hu), fun heq => hgone (heq ▸ hu)⟩
    · rintro ⟨hu, hne⟩
      exact (hmem.mpr hu).resolve_left hne
  have hstep := Times.Step.delete (s.view C) none p.getTimeCreated (fun _ => hguard.1)
    (mem_times.mpr ⟨p, hguard.2, rfl⟩)
  exact hs.step (hstep.of_eq (Times.ext (held_phone C s _ rfl hset) rfl rfl rfl rfl rfl rfl))
    hrest hs.desktop

theorem desktopCreates_refines (hs : s.Wellformed C) {d : ι} {data : PwdData}
    (h : s.step C (.desktopCreates d data) = some t) :
    Times.Step (s.view C) (.create (some d)) (t.view C) ∧ t.Wellformed C := by
  obtain ⟨hguard, heq⟩ := Option.ite_none_right_eq_some.mp h
  obtain rfl := Option.some.inj heq
  have hset : {u | u ∈ dataTimes ({ data with timeCreated := s.clock } :: s.desktops d)}
      = insert s.clock ((s.view C).held (some d)) := Set.ext fun u => List.mem_cons
  have hstep := Times.Step.create (s.view C) (some d) (fun h => nomatch h) hguard
  exact hs.step
    (hstep.of_eq (Times.ext (held_desktop C s _ rfl rfl hset) rfl rfl rfl rfl rfl rfl)) hs.phone
    (hs.desktop_update (List.nodup_cons.mpr ⟨hs.clock_notMem hguard (some d), hs.desktop d⟩))

theorem desktopEdits_refines (hs : s.Wellformed C) {d : ι} {data : PwdData}
    (h : s.step C (.desktopEdits d data) = some t) :
    Times.Step (s.view C) .quiet (t.view C) ∧ t.Wellformed C := by
  obtain rfl := Option.some.inj h
  have hedit := dataTimes_edit (s.desktops d) data
  have hset : {u | u ∈ dataTimes ((s.desktops d).map fun q =>
      if q.timeCreated = data.timeCreated then data else q)} = (s.view C).held (some d) := by
    rw [hedit]
    rfl
  have hheld := held_desktop C s { s with desktops := Function.update s.desktops d _ } rfl rfl hset
  exact hs.step ((Times.Step.quiet (s.view C)).of_eq (Times.ext
    (hheld.trans (Function.update_eq_self (some d) _)) rfl rfl rfl rfl rfl rfl)) hs.phone
    (hs.desktop_update (hedit ▸ hs.desktop d))

theorem desktopDeletes_refines (hs : s.Wellformed C) {d : ι} {x : ℤ}
    (h : s.step C (.desktopDeletes d x) = some t) :
    Times.Step (s.view C) (.delete (some d) x) (t.view C) ∧ t.Wellformed C := by
  obtain ⟨hguard, heq⟩ := Option.ite_none_right_eq_some.mp h
  obtain rfl := Option.some.inj heq
  have hfilter := dataTimes_filter (s.desktops d) x
  have hset : {u | u ∈ dataTimes ((s.desktops d).filter fun q => q.timeCreated ≠ x)}
      = (s.view C).held (some d) \ {x} := by
    ext u
    rw [hfilter]
    simp [view]
  have hstep := Times.Step.delete (s.view C) (some d) x (fun h => nomatch h) hguard
  exact hs.step
    (hstep.of_eq (Times.ext (held_desktop C s _ rfl rfl hset) rfl rfl rfl rfl rfl rfl)) hs.phone
    (hs.desktop_update (hfilter ▸ (hs.desktop d).filter _))

omit [DecidableEq ι] in
/-- The list a desktop delivers has its creation times. -/
theorem times_remoteArray {d : ι} {remoteArray : List CorePwd}
    (h : remoteArray.map CorePwd.data = s.desktops d) :
    times remoteArray = dataTimes (s.desktops d) := by
  rw [← h, dataTimes, List.map_map]
  rfl

/-- The times held once a desktop has adopted a merged list. -/
theorem held_adopted (C : CorePwdList L) (s : History L ι) (d : ι) (merged : L) :
    ({ s with
      phone := merged
      desktops := Function.update s.desktops d (C.contents merged) }.view C).held
      = Function.update (Function.update (s.view C).held none {u | u ∈ times (C.all merged)})
        (some d) {u | u ∈ times (C.all merged)} := by
  have hset : {u | u ∈ dataTimes (C.contents merged)} = {u | u ∈ times (C.all merged)} := by
    rw [dataTimes_contents]
  have hdesktop := held_desktop C { s with phone := merged }
    { s with
      phone := merged
      desktops := Function.update s.desktops d (C.contents merged) } rfl rfl hset
  rw [hdesktop, held_phone C s { s with phone := merged } rfl rfl]

/-- What is shared once a desktop has adopted a list. -/
theorem setOf_mem_shared (shared : ι → List ℤ) (d : ι) (l : List ℤ) :
    (fun d' => {u | u ∈ Function.update shared d (shared d ++ l) d'})
      = Function.update (fun d' => {u | u ∈ shared d'}) d
        ({u | u ∈ shared d} ∪ {u | u ∈ l}) := by
  funext d'
  rcases eq_or_ne d' d with rfl | hne
  · simp only [Function.update_self]
    exact Set.ext fun u => List.mem_append
  · simp only [Function.update_of_ne hne]

theorem sync_refines (hC : C.LawfulMerge) (hs : s.Wellformed C) {d : ι}
    {remoteArray : List CorePwd} {clicks : List (ℕ × Button)}
    (h : s.step C (.sync d remoteArray clicks) = some t) :
    Times.Step (s.view C) (.sync d clicks.isEmpty) (t.view C) ∧ t.Wellformed C := by
  obtain ⟨hguard, h⟩ := Option.ite_none_right_eq_some.mp h
  rw [syncWith] at h
  split at h
  case h_2 => exact nomatch h
  case h_1 items hitems =>
  obtain rfl := Option.some.inj h
  set merged := (applyChoices C s.phone (clickItems items clicks)).list with hmerged
  have hremote := times_remoteArray hguard.2
  have hremotes : (times remoteArray).Nodup := hremote ▸ hs.desktop d
  have hnodup := nodup_applyChoices hC hs.phone hremotes hitems clicks
  have hdesktop : ∀ u ∈ times remoteArray, u ∈ (s.view C).held (some d) := fun u hu =>
    mem_held_desktop.mpr (hremote ▸ hu)
  have hstep := Times.Step.sync (s.view C) d clicks.isEmpty {u | u ∈ times (C.all merged)}
    hguard.1 (fun u hu => (mem_times_of_applyChoices hC hitems hu).imp_right (hdesktop u))
    (fun hnone u hu => by
      obtain rfl := List.isEmpty_iff.mp hnone
      exact (mem_times_of_default hC hitems hu).imp_right (And.imp_left (hdesktop u)))
    (fun hnone u hu hapart => by
      obtain rfl := List.isEmpty_iff.mp hnone
      rw [mem_held_phone, mem_held_desktop, ← hremote] at hu
      rw [Times.Apart, mem_held_phone, mem_held_desktop, ← hremote] at hapart
      exact mem_times_default_of_kept hC hs.phone hremotes hitems hu hapart)
  exact hs.step (hstep.of_eq (Times.ext (held_adopted C s d merged) rfl rfl rfl rfl
    (setOf_mem_shared s.shared d _) rfl)) hnodup
    (hs.desktop_update (dataTimes_contents C _ ▸ hnodup))

/-- **Every event is what it is said to be to the creation times**, and the lists stay
well formed. -/
theorem step_refines (hC : C.LawfulMerge) (hE : C.LawfulEdit) {e : HistoryEvent ι}
    (hs : s.Wellformed C) (h : s.step C e = some t) :
    Times.Step (s.view C) e.act (t.view C) ∧ t.Wellformed C := by
  cases e with
  | tick seconds =>
    obtain rfl := Option.some.inj h
    have hle : s.clock ≤ s.clock + seconds := by omega
    exact hs.step (.tick (s.view C) _ hle) hs.phone hs.desktop
  | phoneCreates description password username => exact phoneCreates_refines hE hs h
  | phoneEdits p e => exact phoneEdits_refines hE hs h
  | phoneDeletes p => exact phoneDeletes_refines hC hs h
  | desktopCreates d data => exact desktopCreates_refines hs h
  | desktopEdits d data => exact desktopEdits_refines hs h
  | desktopDeletes d x => exact desktopDeletes_refines hs h
  | finishClicked =>
    obtain ⟨hguard, heq⟩ := Option.ite_none_left_eq_some.mp h
    obtain rfl := Option.some.inj heq
    obtain ⟨d, hd⟩ := Option.ne_none_iff_exists'.mp hguard
    exact hs.step (Times.Step.finish (s.view C) d hd) hs.phone hs.desktop
  | sync d remoteArray clicks => exact sync_refines hC hs h

end

/-! ## What the defaults would do -/

/-- In a sync with `d` from here, `F` holds of every password that is on one side only: of whether
the default drops it and its creation time. -/
def ForDefaults (C : CorePwdList L) (s : History L ι) (d : ι) (F : Prop → ℤ → Prop) : Prop :=
  s.adopted = none → ∀ remoteArray : List CorePwd, remoteArray.map CorePwd.data = s.desktops d →
    ∀ items, createSyncItemList s.lastSyncTime (C.all s.phone) remoteArray = .ok items →
      ∀ c ∈ items, ∀ p, c.single = some p → F c.Drops p.getTimeCreated

omit [DecidableEq ι] in
/-- **The defaults go by the creation times.** -/
theorem forDefaults_iff {s : History L ι} (hs : s.Wellformed C) (d : ι) (F : Prop → ℤ → Prop) :
    ForDefaults C s d F ↔ (s.adopted = none → ∀ t, (s.view C).Apart d t →
      F (s.lastSyncTime ≠ 0 ∧ t < s.lastSyncTime) t) := by
  constructor
  · intro h hidle
    let remoteArray := (s.desktops d).map fun data => (⟨0, data⟩ : CorePwd)
    have hdata : remoteArray.map CorePwd.data = s.desktops d := by
      rw [List.map_map]
      exact List.map_id _
    obtain ⟨items, hitems, -⟩ :=
      createSyncItemList_spec s.lastSyncTime (C.all s.phone) remoteArray
    have hremote := times_remoteArray hdata
    have hall := (forall_single_iff hs.phone (hremote ▸ hs.desktop d) hitems F).mp
      (h hidle remoteArray hdata items hitems)
    rw [hremote] at hall
    exact hall
  · intro h hidle remoteArray hdata items hitems
    have hremote := times_remoteArray hdata
    refine (forall_single_iff hs.phone (hremote ▸ hs.desktop d) hitems F).mpr ?_
    rw [hremote]
    exact h hidle

omit [DecidableEq ι] in
theorem wellformed_start {phone : L} {clock : ℤ} (hphone : C.all phone = []) (hclock : 0 < clock) :
    (start phone clock : History L ι).Wellformed C where
  phone := by
    rw [start, hphone]
    exact List.nodup_nil
  desktop _ := List.nodup_nil
  ordered := by
    have hheld : ∀ side, ∀ t, t ∉ ((start phone clock : History L ι).view C).held side := by
      rintro (_ | d) t ht
      · rw [mem_held_phone, start, hphone] at ht
        exact List.not_mem_nil ht
      · exact List.not_mem_nil ht
    exact ⟨hclock, fun side t ht => absurd ht (hheld side t),
      fun side t ht => absurd ht (hheld side t), hclock.le, le_rfl, hclock.le⟩

end History

end Kryptan
