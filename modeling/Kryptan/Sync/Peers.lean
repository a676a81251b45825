import Kryptan.Sync.History

/-!
# Sync/Peers — several desktops and one LAST_SYNC_TIME

    with d:   sync ─────────────────── t ──────────────────────────────── sync?
    with d':        … sync …                   … sync: LAST_SYNC_TIME …
                             (t is on the phone or on d, and on neither after a sync with both)

The phone stores one time for all its desktops, so a sync with `d'` moves the line between "deleted"
and "new" for `d` as well.  **The defaults of a sync with `d` are sound exactly when no password
lies between the last sync with `d` and the last sync of all** (`soundAt_iff`), and then a password
that nobody deletes stays (`Kept.step`).
-/

namespace Kryptan

open ConflictChoice SyncAdapter SyncronizeDesktopActivity Runs History

variable {L ι : Type*}

namespace Times

/-- Every password of the phone alone or of `d` alone that lies before the last sync of all lies
before the last sync with `d`; one of that very second was part of it. -/
def NoneBetween (s : Times ι) (d : ι) : Prop :=
  s.adopted = none → ∀ t, s.Apart d t → t < s.lastSync →
    t ≤ s.syncedAt d ∧ (t = s.syncedAt d → t ∈ s.shared d)

/-- The last syncs, and what they say about the passwords there are: what was shared with a desktop
lies before the last sync with it, and what was not lies after it. -/
structure SyncOrder (s : Times ι) : Prop where
  syncedAt_le : ∀ d, s.syncedAt d ≤ s.clock
  syncedAt_le_lastSync : s.adopted = none → ∀ d, s.syncedAt d ≤ s.lastSync
  shared_le : ∀ d, ∀ t ∈ s.shared d, t ≤ s.syncedAt d
  le_of_unshared : ∀ d t, t ∈ s.held none ∨ t ∈ s.held (some d) → t ∉ s.shared d →
    s.syncedAt d ≤ t

/-- The syncs of a scenario are default merges. -/
def ByDefault : Act ι → Prop
  | .sync _ byDefault => byDefault = true
  | _ => True

variable [DecidableEq ι]

omit [DecidableEq ι] in
/-- A default merge brings the phone nothing older than the last sync, so nothing that it did not
share with a desktop lies before the sync with that one. -/
theorem SyncOrder.le_of_merged {s : Times ι} (hs : s.SyncOrder) (hord : s.Ordered) {d : ι}
    {merged : Set ℤ} (hidle : s.adopted = none)
    (hdefault : ∀ t ∈ merged, t ∈ s.held none ∨
      (t ∈ s.held (some d) ∧ ¬ (s.lastSync ≠ 0 ∧ t < s.lastSync)))
    {d' : ι} {t : ℤ} (ht : t ∈ merged) (hun : t ∉ s.shared d') : s.syncedAt d' ≤ t := by
  rcases hdefault t ht with hphone | ⟨hdesktop, hnew⟩
  · exact hs.le_of_unshared d' t (.inl hphone) hun
  · have hpos := hord.held_pos _ t hdesktop
    by_contra hlt
    have hlt' : t < s.lastSync := (not_le.mp hlt).trans_le (hs.syncedAt_le_lastSync hidle d')
    exact hnew ⟨(hpos.trans hlt').ne', hlt'⟩

/-- A default sync keeps the order of the syncs. -/
theorem SyncOrder.sync {s : Times ι} (hs : s.SyncOrder) (hord : s.Ordered) {d : ι}
    {merged : Set ℤ} (hidle : s.adopted = none)
    (hmerged : ∀ t ∈ merged, t ∈ s.held none ∨ t ∈ s.held (some d))
    (hdefault : ∀ t ∈ merged, t ∈ s.held none ∨
      (t ∈ s.held (some d) ∧ ¬ (s.lastSync ≠ 0 ∧ t < s.lastSync))) :
    SyncOrder { s with
      held := Function.update (Function.update s.held none merged) (some d) merged
      adopted := some d
      shared := Function.update s.shared d (s.shared d ∪ merged)
      syncedAt := Function.update s.syncedAt d s.clock } := by
  have hle : ∀ t ∈ merged, t ≤ s.clock := fun t ht =>
    ((hmerged t ht).elim (hord.held_le _ t) (hord.held_le _ t)).trans hord.lastCreation_le
  have hself : Function.update s.syncedAt d s.clock d = s.clock := Function.update_self ..
  have hother : ∀ d', d' ≠ d → Function.update s.syncedAt d s.clock d' = s.syncedAt d' :=
    fun d' hne => Function.update_of_ne hne ..
  have hshared : ∀ d' t, t ∈ Function.update s.shared d (s.shared d ∪ merged) d' ↔
      (d' = d ∧ (t ∈ s.shared d ∨ t ∈ merged)) ∨ (d' ≠ d ∧ t ∈ s.shared d') :=
    fun _ _ => mem_update
  refine ⟨fun d' => ?_, fun h => (nomatch h), fun d' t ht => ?_, fun d' t ht hun => ?_⟩
  · rcases eq_or_ne d' d with rfl | hne
    · exact hself.le
    · exact (hother d' hne).le.trans (hs.syncedAt_le d')
  · rcases (hshared d' t).mp ht with ⟨rfl, ht | ht⟩ | ⟨hne, ht⟩
    · exact ((hs.shared_le _ t ht).trans (hs.syncedAt_le _)).trans hself.ge
    · exact (hle t ht).trans hself.ge
    · exact (hs.shared_le d' t ht).trans (hother d' hne).ge
  · -- what the phone or `d'` holds now is merged, or is still what `d'` held
    have hcases : t ∈ merged ∨ (d' ≠ d ∧ t ∈ s.held (some d')) := by
      simp only [mem_sync] at ht
      tauto
    rcases eq_or_ne d' d with rfl | hne
    · have hin := hcases.resolve_right fun h => h.1 rfl
      exact absurd ((hshared d' t).mpr (.inl ⟨rfl, .inr hin⟩)) hun
    · have hun' : t ∉ s.shared d' := fun h => hun ((hshared d' t).mpr (.inr ⟨hne, h⟩))
      refine (hother d' hne).le.trans ?_
      rcases hcases with hin | ⟨-, hstays⟩
      · exact hs.le_of_merged hord hidle hdefault hin hun'
      · exact hs.le_of_unshared d' t (.inr hstays) hun'

/-- **Every event keeps the order of the syncs**, as long as merges are default ones. -/
theorem SyncOrder.step {s t : Times ι} {a : Act ι} (hs : s.SyncOrder) (hord : s.Ordered)
    (ha : ByDefault a) (h : Step s a t) : t.SyncOrder := by
  cases h with
  | tick c h =>
    exact ⟨fun d => (hs.syncedAt_le d).trans h, hs.syncedAt_le_lastSync, hs.shared_le,
      hs.le_of_unshared⟩
  | quiet => exact hs
  | finish d h => exact ⟨hs.syncedAt_le, fun _ => hs.syncedAt_le, hs.shared_le, hs.le_of_unshared⟩
  | create side hidle hfresh =>
    refine ⟨hs.syncedAt_le, hs.syncedAt_le_lastSync, hs.shared_le, fun d t ht hun => ?_⟩
    have hcases : t = s.clock ∨ t ∈ s.held none ∨ t ∈ s.held (some d) := by
      simp only [mem_create] at ht
      tauto
    rcases hcases with rfl | ht
    · exact hs.syncedAt_le d
    · exact hs.le_of_unshared d t ht hun
  | delete side x hidle hx =>
    refine ⟨hs.syncedAt_le, hs.syncedAt_le_lastSync, hs.shared_le, fun d t ht hun => ?_⟩
    exact hs.le_of_unshared d t
      (ht.imp (fun h => (mem_delete.mp h).1) fun h => (mem_delete.mp h).1) hun
  | sync d byDefault merged hidle hmerged hdefault hkeeps =>
    exact hs.sync hord hidle hmerged (hdefault ha)

/-- The defaults of a sync with `d` drop shared passwords only. -/
def Sound (s : Times ι) (d : ι) : Prop :=
  s.adopted = none → ∀ t, s.Apart d t → (s.lastSync ≠ 0 ∧ t < s.lastSync) → t ∈ s.shared d

omit [DecidableEq ι] in
/-- **The defaults are sound for a desktop exactly when nothing lies between.** -/
theorem sound_iff {s : Times ι} (hs : s.SyncOrder) (hord : s.Ordered) (d : ι) :
    s.Sound d ↔ s.NoneBetween d := by
  have hheld : ∀ t, s.Apart d t → t ∈ s.held none ∨ t ∈ s.held (some d) := fun t ht =>
    ht.imp And.left And.right
  constructor
  · intro h hidle t ht hlt
    have hpos : 0 < t := (hheld t ht).elim (hord.held_pos _ t) (hord.held_pos _ t)
    have hshared := h hidle t ht ⟨(hpos.trans hlt).ne', hlt⟩
    exact ⟨hs.shared_le d t hshared, fun _ => hshared⟩
  · rintro h hidle t ht ⟨-, hlt⟩
    obtain ⟨hle, htie⟩ := h hidle t ht hlt
    by_contra hun
    exact hun (htie (le_antisymm hle (hs.le_of_unshared d t (hheld t ht) hun)))

/-! ## What nobody deletes -/

/-- Both sides still have a time that they shared. -/
def Kept (s : Times ι) (t : ℤ) : Prop :=
  ∀ d, t ∈ s.shared d → t ∈ s.held none ∧ t ∈ s.held (some d)

/-- A sync with nothing between. -/
def Clear (s : Times ι) : Act ι → Prop
  | .sync d _ => s.NoneBetween d
  | _ => True

/-- The event is not the deletion of this time. -/
def Spares (t : ℤ) : Act ι → Prop
  | .delete _ x => x ≠ t
  | _ => True

instance (t : ℤ) (a : Act ι) : Decidable (Spares t a) := by
  unfold Spares
  split <;> infer_instance

omit [DecidableEq ι] in
/-- A default sync with nothing between keeps a time that both sides have as soon as it is
shared. -/
theorem Kept.mem_merged {s : Times ι} {t : ℤ} (hs : s.Kept t) (horder : s.SyncOrder)
    (hord : s.Ordered) {d : ι} {merged : Set ℤ} (hidle : s.adopted = none)
    (hclear : s.NoneBetween d)
    (hkeeps : ∀ t, t ∈ s.held none ∨ t ∈ s.held (some d) →
      (s.Apart d t → ¬ (s.lastSync ≠ 0 ∧ t < s.lastSync)) → t ∈ merged)
    (ht : t ∈ s.held none ∨ t ∈ s.held (some d)) : t ∈ merged := by
  refine hkeeps t ht fun hapart hold => ?_
  obtain ⟨hphone, hdesktop⟩ := hs d ((sound_iff horder hord d).mpr hclear hidle t hapart hold)
  rcases hapart with ⟨-, hnot⟩ | ⟨hnot, -⟩
  · exact hnot hdesktop
  · exact hnot hphone

/-- A sync that merges a time keeps it where it is. -/
theorem Kept.sync {s : Times ι} {t : ℤ} (hs : s.Kept t) {d : ι} {merged : Set ℤ}
    (hmem : t ∈ s.held none ∨ t ∈ s.held (some d) → t ∈ merged) :
    Kept { s with
      held := Function.update (Function.update s.held none merged) (some d) merged
      adopted := some d
      shared := Function.update s.shared d (s.shared d ∪ merged)
      syncedAt := Function.update s.syncedAt d s.clock } t ∧
      ∀ side, t ∈ s.held side →
        t ∈ Function.update (Function.update s.held none merged) (some d) merged side := by
  have hgrow : ∀ side, t ∈ s.held side →
      t ∈ Function.update (Function.update s.held none merged) (some d) merged side :=
    fun side ht => by
      rw [mem_sync]
      by_cases hside : side = none ∨ side = some d
      · have hin : t ∈ s.held none ∨ t ∈ s.held (some d) := by
          rcases hside with rfl | rfl
          · exact .inl ht
          · exact .inr ht
        exact .inl ⟨hside, hmem hin⟩
      · rw [not_or] at hside
        exact .inr ⟨hside.1, hside.2, ht⟩
  refine ⟨fun d' hd' => ?_, hgrow⟩
  have hcases : (d' = d ∧ (t ∈ s.shared d ∨ t ∈ merged)) ∨ (d' ≠ d ∧ t ∈ s.shared d') :=
    mem_update.mp hd'
  rcases hcases with ⟨rfl, hd | hin⟩ | ⟨-, hd⟩
  · exact (hs _ hd).imp (hgrow _) (hgrow _)
  · have hheld : ∀ side, side = none ∨ side = some d' →
        t ∈ Function.update (Function.update s.held none merged) (some d') merged side :=
      fun side hside => mem_sync.mpr (.inl ⟨hside, hin⟩)
    exact ⟨hheld _ (.inl rfl), hheld _ (.inr rfl)⟩
  · exact (hs _ hd).imp (hgrow _) (hgrow _)

/-- **What nobody deletes stays where it is**, as long as every sync is a default one with nothing
between. -/
theorem Kept.step {s s' : Times ι} {a : Act ι} {t : ℤ} (hs : s.Kept t) (horder : s.SyncOrder)
    (hord : s.Ordered) (ha : ByDefault a) (hclear : s.Clear a) (hspares : Spares t a)
    (h : Step s a s') : s'.Kept t ∧ ∀ side, t ∈ s.held side → t ∈ s'.held side := by
  cases h with
  | tick | quiet | finish => exact ⟨hs, fun _ => id⟩
  | create side hidle hfresh =>
    have hgrow : ∀ side', t ∈ s.held side' →
        t ∈ Function.update s.held side (insert s.clock (s.held side)) side' := fun _ ht =>
      mem_create.mpr (.inr ht)
    exact ⟨fun d hd => (hs d hd).imp (hgrow _) (hgrow _), hgrow⟩
  | delete side x hidle hx =>
    have hgrow : ∀ side', t ∈ s.held side' →
        t ∈ Function.update s.held side (s.held side \ {x}) side' := fun _ ht =>
      mem_delete.mpr ⟨ht, fun _ => hspares.symm⟩
    exact ⟨fun d hd => (hs d hd).imp (hgrow _) (hgrow _), hgrow⟩
  | sync d byDefault merged hidle hmerged hdefault hkeeps =>
    exact hs.sync (hs.mem_merged horder hord hidle hclear (hkeeps ha))

end Times

/-! ## Several desktops -/

namespace History

/-- **What is to hold**: in a sync with `d` from here, the default drops a password that is on one
side only no more than if both lists had it after an earlier sync with `d`. -/
def SoundAt (C : CorePwdList L) (s : History L ι) (d : ι) : Prop :=
  ForDefaults C s d fun drops t => drops → t ∈ s.shared d

theorem soundAt_iff_sound {C : CorePwdList L} {s : History L ι} (hs : s.Wellformed C) (d : ι) :
    SoundAt C s d ↔ (s.view C).Sound d :=
  forDefaults_iff hs d _

variable [DecidableEq ι]

/-- The lists are well formed and the syncs in order. -/
structure InOrder (C : CorePwdList L) (s : History L ι) : Prop where
  wellformed : s.Wellformed C
  order : (s.view C).SyncOrder

omit [DecidableEq ι] in
theorem inOrder_start {C : CorePwdList L} {phone : L} {clock : ℤ} (hphone : C.all phone = [])
    (hclock : 0 < clock) : InOrder C (start phone clock : History L ι) := by
  refine ⟨wellformed_start hphone hclock, fun _ => hclock.le, fun _ _ => le_rfl,
    fun d t ht => absurd ht List.not_mem_nil, fun d t ht _ => ?_⟩
  rcases ht with ht | ht
  · rw [mem_held_phone, start, hphone] at ht
    exact absurd ht List.not_mem_nil
  · exact absurd ht List.not_mem_nil

/-- A sync of the scenario applies the default choices. -/
def DefaultChoices (_ : History L ι) : HistoryEvent ι → Prop
  | .sync _ _ clicks => clicks = []
  | _ => True

instance (s : History L ι) (e : HistoryEvent ι) : Decidable (DefaultChoices s e) := by
  unfold DefaultChoices
  split <;> infer_instance

omit [DecidableEq ι] in
theorem byDefault_act {s : History L ι} {e : HistoryEvent ι} (h : DefaultChoices s e) :
    Times.ByDefault e.act := by
  cases e with
  | sync d remoteArray clicks => exact List.isEmpty_iff.mpr h
  | _ => trivial

/-- **A default step keeps the lists well formed and the syncs in order.** -/
theorem InOrder.step {C : CorePwdList L} (hC : C.LawfulMerge) (hE : C.LawfulEdit)
    {s t : History L ι} {e : HistoryEvent ι} (hs : InOrder C s) (he : DefaultChoices s e)
    (h : History.step C s e = some t) : InOrder C t := by
  obtain ⟨hstep, hwell⟩ := step_refines hC hE hs.wellformed h
  exact ⟨hwell, hs.order.step hs.wellformed.ordered (byDefault_act he) hstep⟩

omit [DecidableEq ι] in
/-- **The defaults of the next sync with `d` are sound exactly when no password lies between the
last sync with `d` and the last sync of all.** -/
theorem InOrder.soundAt_iff {C : CorePwdList L} {s : History L ι} (hs : InOrder C s) (d : ι) :
    SoundAt C s d ↔ (s.view C).NoneBetween d := by
  rw [soundAt_iff_sound hs.wellformed, Times.sound_iff hs.order hs.wellformed.ordered]

/-- A password stays on the sides that have it. -/
def Stays (C : CorePwdList L) (t : ℤ) (s s' : History L ι) : Prop :=
  ∀ side, t ∈ (s.view C).held side → t ∈ (s'.view C).held side

theorem InOrder.stays {C : CorePwdList L} (hC : C.LawfulMerge) (hE : C.LawfulEdit)
    {s s' : History L ι} {e : HistoryEvent ι} {t : ℤ} (hs : InOrder C s)
    (hkept : (s.view C).Kept t) (he : DefaultChoices s e) (hclear : (s.view C).Clear e.act)
    (hspares : Times.Spares t e.act) (h : History.step C s e = some s') :
    (s'.view C).Kept t ∧ Stays C t s s' :=
  hkept.step hs.order hs.wellformed.ordered (byDefault_act he) hclear hspares
    (step_refines hC hE hs.wellformed h).1

/-- **Where every sync is a default merge**, the defaults of the next sync with `d` drop shared
passwords only exactly when no password lies between the last sync with `d` and the last sync of
all; and where no sync ever meets one that does, a password that nobody deletes stays wherever it
once was. -/
theorem defaultSyncs_sound_iff {C : CorePwdList L} (hC : C.LawfulMerge) (hE : C.LawfulEdit)
    {phone : L} (hphone : C.all phone = []) {clock : ℤ} (hclock : 0 < clock)
    {es : List (HistoryEvent ι)} (hes : AllSteps (step C) DefaultChoices (start phone clock) es)
    {s : History L ι} (hrun : run (step C) (start phone clock) es = some s) :
    (∀ d, SoundAt C s d ↔ (s.view C).NoneBetween d) ∧
      (AllSteps (step C) (fun u e => (u.view C).Clear e.act) (start phone clock) es →
        ∀ t, AllSteps (step C) (fun _ e => Times.Spares t e.act) (start phone clock) es →
          ∀ fs, fs <+: es → ∀ u, run (step C) (start phone clock) fs = some u →
            Stays C t u s) := by
  have hstart := inOrder_start (C := C) (ι := ι) hphone hclock
  constructor
  · have hall := hes.allStates (I := InOrder C) (fun s e t hs he h => hs.step hC hE he h) hstart
    exact (hall.of_run hrun).soundAt_iff
  · intro hclear t hspares fs hfs u hu
    have hboth := (hes.and hclear).and hspares
    refine hboth.rel_of_prefix (I := fun u => InOrder C u ∧ (u.view C).Kept t) (R := Stays C t)
      (fun _ _ h => h) (fun _ _ _ h h' side ht => h' side (h side ht))
      (fun s e s' hs hP h => ?_) ⟨hstart, fun d ht => absurd ht List.not_mem_nil⟩ hfs hu hrun
    obtain ⟨hkept, hstays⟩ := hs.1.stays hC hE hs.2 hP.1.1 hP.1.2 hP.2 h
    exact ⟨⟨hs.1.step hC hE hP.1.1 h, hkept⟩, hstays⟩

omit [DecidableEq ι] in
/-- Only the passwords of the two lists count. -/
theorem noneBetween_iff {C : CorePwdList L} {s : History L ι} {d : ι} :
    (s.view C).NoneBetween d ↔ s.adopted ≠ none ∨
      ∀ t ∈ times (C.all s.phone) ++ dataTimes (s.desktops d),
        ¬ (t ∈ times (C.all s.phone) ∧ t ∈ dataTimes (s.desktops d)) → t < s.lastSyncTime →
          t ≤ s.syncedAt d ∧ (t = s.syncedAt d → t ∈ s.shared d) := by
  have hapart (t : ℤ) : (s.view C).Apart d t ↔
      t ∈ times (C.all s.phone) ++ dataTimes (s.desktops d) ∧
        ¬ (t ∈ times (C.all s.phone) ∧ t ∈ dataTimes (s.desktops d)) := by
    rw [Times.Apart, mem_held_phone, mem_held_desktop, List.mem_append]
    tauto
  simp only [Times.NoneBetween, hapart, and_imp]
  exact imp_iff_not_or

instance {C : CorePwdList L} {s : History L ι} {d : ι} : Decidable ((s.view C).NoneBetween d) :=
  decidable_of_iff _ noneBetween_iff.symm

instance {C : CorePwdList L} {s : History L ι} {e : HistoryEvent ι} :
    Decidable ((s.view C).Clear e.act) := by
  unfold Times.Clear
  split <;> infer_instance

/-- A password that two desktops are synced with, and another one after it, which the first desktop
deletes before its next sync. -/
def twoDesktops : List (HistoryEvent Bool) :=
  let p : PwdData := ⟨[1], [], [2], [], 5, 5⟩
  [.phoneCreates [1] [2] none, .sync true [] [], .finishClicked, .sync false [] [],
    .finishClicked, .tick 1, .phoneCreates [3] [4] none, .sync true [⟨0, p⟩] [], .finishClicked,
    .sync false [⟨0, p⟩] [], .tick 1, .finishClicked, .desktopDeletes true 6,
    .sync true [⟨0, p⟩] [], .finishClicked]

/-- The one is on all sides for good, and the next sync with the other desktop rightly takes the
second for deleted there. -/
theorem defaultSyncs_sound_twoDesktops :
    ∃ u s, run (step PwdTable.core) (start PwdTable.empty 5 : History PwdTable Bool)
        (twoDesktops.take 1) = some u ∧
      run (step PwdTable.core) (start PwdTable.empty 5) twoDesktops = some s ∧
      dataTimes (s.desktops false) = [6, 5] ∧ times (PwdTable.core.all s.phone) = [5] ∧
      (∀ d, SoundAt PwdTable.core s d) ∧ Stays PwdTable.core 5 u s := by
  have hes : AllSteps (step PwdTable.core) DefaultChoices (start PwdTable.empty 5)
      twoDesktops := by decide
  have hclear : AllSteps (step PwdTable.core) (fun u e => (u.view PwdTable.core).Clear e.act)
      (start PwdTable.empty 5) twoDesktops := by decide
  have hspares : AllSteps (step PwdTable.core) (fun _ e => Times.Spares 5 e.act)
      (start PwdTable.empty 5) twoDesktops := by decide
  obtain ⟨hsound, hstays⟩ := defaultSyncs_sound_iff PwdTable.core_lawfulMerge
    PwdTable.core_lawfulEdit rfl (by decide) hes rfl
  exact ⟨_, _, rfl, rfl, rfl, rfl, fun d => (hsound d).mpr (by cases d <;> decide),
    hstays hclear 5 hspares _ (List.take_prefix 1 _) _ rfl⟩

/-- A sync is over at once: the button is clicked before anything else happens. -/
def AtOnce (s : History L ι) : HistoryEvent ι → Prop
  | .finishClicked => True
  | e => s.adopted = none ∧ DefaultChoices s e

instance (s : History L ι) (e : HistoryEvent ι) : Decidable (AtOnce s e) := by
  unfold AtOnce
  split <;> infer_instance

/-- The phone creates a password after a sync with one desktop and syncs with another one: the next
sync with the first takes the password for deleted there. -/
theorem not_soundAt_after_other_desktop :
    ¬ ∀ (clock : ℤ) (es : List (HistoryEvent Bool)) (s : History PwdTable Bool), 0 < clock →
      AllSteps (step PwdTable.core) AtOnce (start PwdTable.empty clock) es →
        run (step PwdTable.core) (start PwdTable.empty clock) es = some s →
          ∀ d, SoundAt PwdTable.core s d := by
  intro h
  have hscenario : AllSteps (step PwdTable.core) AtOnce (start PwdTable.empty 5)
      [.sync false [] [], .finishClicked, .tick 1, .phoneCreates [1] [2] none, .tick 1,
        .sync true [] [], .finishClicked] := by
    decide
  have hsound := h 5 _ _ (by decide) hscenario rfl false
  have hdrop := hsound rfl [] rfl _ rfl _ List.mem_cons_self _ rfl
  exact absurd (hdrop (by decide)) (by decide)

end History

end Kryptan
