import Kryptan.Sync.History

/-!
# Sync/Inference — telling a deleted password from a new one, with one desktop

    … adoption ─────────────── click: LAST_SYNC_TIME = now ─────────────── next sync …
         │      desktop creates t: t < now, yet never on the phone              │
         ╰── a cut: the passwords created before it are those that were shared ─╯

The defaults take a password that is on one side only for deleted when it was created before
LAST_SYNC_TIME.  What they ought to go by is the adoption: **with one desktop the inference is right
in every state of a run exactly as long as every click and every deletion is in time**
(`allStates_infersDeletions_iff`).
-/

namespace Kryptan

open ConflictChoice SyncAdapter SyncronizeDesktopActivity Runs History

variable {L : Type*}

namespace Times

/-! ## One desktop, in creation times -/

/-- The defaults tell the shared passwords from the others. -/
def Right (s : Times Unit) : Prop :=
  s.adopted = none → ∀ t, s.Apart () t → ((s.lastSync ≠ 0 ∧ t < s.lastSync) ↔ t ∈ s.shared ())

/-- The side across from a side. -/
def across : Option Unit → Option Unit
  | none => some ()
  | some () => none

/-- An event in time: a password that is deleted while the other side has it was created before
LAST_SYNC_TIME, and at a click no password of the phone alone was created in this very second, while
all those of the desktop alone were. -/
def InTime (s : Times Unit) : Act Unit → Prop
  | .delete side t => s.adopted = none → t ∈ s.held (across side) → t < s.lastSync
  | .finish => (∀ t ∈ s.held none, t ∉ s.held (some ()) → t < s.clock) ∧
      ∀ t ∈ s.held (some ()), t ∉ s.held none → t = s.clock
  | _ => True

/-- The shared passwords, among those there are, are those created up to a second `u`: that of the
last creation before the last adoption. -/
structure Cut (s : Times Unit) (u : ℤ) : Prop where
  shared_iff : ∀ side, ∀ t ∈ s.held side, t ∈ s.shared () ↔ t ≤ u
  shared_le : ∀ t ∈ s.shared (), t ≤ s.lastCreation
  le : u ≤ s.lastCreation
  both : ∀ t ∈ s.held none, t ∈ s.held (some ()) → t ≤ u
  phone : s.adopted ≠ none → ∀ t ∈ s.held none, t ≤ u
  desktop : s.adopted ≠ none → ∀ t ∈ s.held (some ()), t ≤ u → t ∈ s.held none

/-- A creation leaves the cut: the new time lies beyond it, and beyond everything shared. -/
theorem Cut.create {s : Times Unit} {u : ℤ} (hs : s.Cut u) (hord : s.Ordered) {side : Option Unit}
    (hidle : side = none → s.adopted = none) (hfresh : s.lastCreation < s.clock) :
    Cut { s with
      held := Function.update s.held side (insert s.clock (s.held side))
      lastCreation := s.clock } u := by
  have hnew : s.clock ∉ s.shared () := fun h => absurd (hs.shared_le _ h) (not_le.mpr hfresh)
  have hbeyond : ¬ s.clock ≤ u := not_le.mpr (hs.le.trans_lt hfresh)
  have hnone : ∀ side', s.clock ∉ s.held side' := fun side' h =>
    absurd (hord.held_le side' _ h) (not_le.mpr hfresh)
  have hmem : ∀ side' t, t ∈ Function.update s.held side (insert s.clock (s.held side)) side' ↔
      (side' = side ∧ t = s.clock) ∨ t ∈ s.held side' := fun _ _ => mem_create
  refine ⟨fun side' t ht => ?_, fun t ht => (hs.shared_le t ht).trans hfresh.le,
    hs.le.trans hfresh.le, fun t ht ht' => ?_, fun h t ht => ?_, fun h t ht hle => ?_⟩
  · rcases (hmem _ _).mp ht with ⟨-, rfl⟩ | ht
    · exact iff_of_false hnew hbeyond
    · exact hs.shared_iff side' t ht
  · rcases (hmem _ _).mp ht with ⟨rfl, rfl⟩ | ht
    · rcases (hmem (some ()) _).mp ht' with ⟨h, -⟩ | ht'
      · exact nomatch h
      · exact absurd ht' (hnone _)
    · rcases (hmem _ _).mp ht' with ⟨-, rfl⟩ | ht'
      · exact absurd ht (hnone _)
      · exact hs.both t ht ht'
  · rcases (hmem _ _).mp ht with ⟨hside, -⟩ | ht
    · exact absurd (hidle hside.symm) h
    · exact hs.phone h t ht
  · rcases (hmem _ _).mp ht with ⟨-, rfl⟩ | ht
    · exact absurd hle hbeyond
    · exact (hmem _ _).mpr (.inr (hs.desktop h t ht hle))

/-- A sync cuts at the last creation. -/
theorem Cut.sync {s : Times Unit} {u : ℤ} (hs : s.Cut u) (hord : s.Ordered) {merged : Set ℤ}
    (hmerged : ∀ t ∈ merged, t ∈ s.held none ∨ t ∈ s.held (some ())) :
    Cut { s with
      held := Function.update (Function.update s.held none merged) (some ()) merged
      adopted := some ()
      shared := Function.update s.shared () (s.shared () ∪ merged)
      syncedAt := Function.update s.syncedAt () s.clock } s.lastCreation := by
  have hle : ∀ t ∈ merged, t ≤ s.lastCreation := fun t ht =>
    (hmerged t ht).elim (hord.held_le _ t) (hord.held_le _ t)
  have hheld : ∀ side', ∀ t, t ∈ Function.update (Function.update s.held none merged) (some ())
      merged side' ↔ t ∈ merged := fun side' t => by
    rw [mem_sync]
    rcases side' with _ | d' <;> simp
  have hshared : ∀ t, t ∈ Function.update s.shared () (s.shared () ∪ merged) () ↔
      t ∈ s.shared () ∨ t ∈ merged := fun t => by rw [Function.update_self, Set.mem_union]
  refine ⟨fun side' t ht => ?_, fun t ht => ?_, le_rfl,
    fun t ht _ => hle t ((hheld none t).mp ht), fun _ t ht => hle t ((hheld none t).mp ht),
    fun _ t ht _ => (hheld none t).mpr ((hheld (some ()) t).mp ht)⟩
  · have hmem := (hheld side' t).mp ht
    exact iff_of_true ((hshared t).mpr (.inr hmem)) (hle t hmem)
  · exact ((hshared t).mp ht).elim (hs.shared_le t) (hle t)

/-- **Every event leaves a cut**, a sync a new one. -/
theorem Cut.step {s t : Times Unit} {a : Act Unit} {u : ℤ} (hs : s.Cut u) (hord : s.Ordered)
    (h : Step s a t) : ∃ u', t.Cut u' := by
  cases h with
  | tick c h => exact ⟨u, hs.shared_iff, hs.shared_le, hs.le, hs.both, hs.phone, hs.desktop⟩
  | quiet => exact ⟨u, hs⟩
  | finish d h =>
    exact ⟨u, hs.shared_iff, hs.shared_le, hs.le, hs.both, fun h => absurd rfl h,
      fun h => absurd rfl h⟩
  | create side hidle hfresh => exact ⟨u, hs.create hord hidle hfresh⟩
  | delete side x hidle hx =>
    refine ⟨u, fun side' t ht => hs.shared_iff side' t (mem_delete.mp ht).1, hs.shared_le, hs.le,
      fun t ht ht' => hs.both t (mem_delete.mp ht).1 (mem_delete.mp ht').1,
      fun h t ht => hs.phone h t (mem_delete.mp ht).1, fun h t ht hle => ?_⟩
    exact mem_delete.mpr
      ⟨hs.desktop h t (mem_delete.mp ht).1 hle, fun hside => absurd (hidle hside.symm) h⟩
  | sync d byDefault merged hidle hmerged hdefault hkeeps => exact ⟨_, hs.sync hord hmerged⟩

/-- A password on one side after a deletion was on one side before, or is the deleted one, left on
the other side. -/
theorem apart_of_delete {s : Times Unit} {side : Option Unit} {x t : ℤ}
    (h : ({ s with held := Function.update s.held side (s.held side \ {x}) } : Times Unit).Apart
      () t) :
    (t = x ∧ t ∈ s.held (across side)) ∨ s.Apart () t := by
  have hmem : ∀ side' t, t ∈ Function.update s.held side (s.held side \ {x}) side' ↔
      t ∈ s.held side' ∧ (side' = side → t ≠ x) := fun _ _ => mem_delete
  rcases side with _ | d
  all_goals
    unfold Apart at h ⊢
    simp only [hmem] at h
    by_cases htx : t = x
    · subst htx
      simp only [across]
      simp at h
      tauto
    · simp only [htx, ne_eq, not_false_eq_true, implies_true, and_true] at h
      exact .inr h

/-- A password on one side after a creation was on one side before, or is the new one. -/
theorem apart_of_create {s : Times Unit} {side : Option Unit} {x t c : ℤ}
    (h : ({ s with
      held := Function.update s.held side (insert x (s.held side))
      lastCreation := c } : Times Unit).Apart () t) : t = x ∨ s.Apart () t := by
  have hmem : ∀ side' t, t ∈ Function.update s.held side (insert x (s.held side)) side' ↔
      (side' = side ∧ t = x) ∨ t ∈ s.held side' := fun _ _ => mem_create
  unfold Apart at h ⊢
  simp only [hmem] at h
  tauto

/-- A password that both sides have is shared. -/
theorem Cut.shared_of_both {s : Times Unit} {u t : ℤ} (hs : s.Cut u) {side : Option Unit}
    (h : t ∈ s.held side) (h' : t ∈ s.held (across side)) : t ∈ s.shared () := by
  refine (hs.shared_iff side t h).mpr ?_
  rcases side with _ | d
  · exact hs.both t h h'
  · exact hs.both t h' h

/-- A deletion of a password that the other side has leaves it apart. -/
theorem apart_of_deleted {s : Times Unit} {side : Option Unit} {x : ℤ}
    (hacross : x ∈ s.held (across side)) :
    ({ s with held := Function.update s.held side (s.held side \ {x}) } : Times Unit).Apart
      () x := by
  have hgone : x ∉ Function.update s.held side (s.held side \ {x}) side := by
    simp
  have hstays : x ∈ Function.update s.held side (s.held side \ {x}) (across side) :=
    mem_delete.mpr ⟨hacross, by rcases side with _ | d <;> simp [across]⟩
  rcases side with _ | d
  · exact .inr ⟨hgone, hstays⟩
  · exact .inl ⟨hstays, hgone⟩

/-- The defaults stay right over a deletion exactly when it is in time. -/
theorem right_delete_iff {s : Times Unit} {u : ℤ} (hcut : s.Cut u) (hord : s.Ordered)
    (hs : s.Right) {side : Option Unit} {x : ℤ} (hx : x ∈ s.held side) :
    Right { s with held := Function.update s.held side (s.held side \ {x}) } ↔
      s.InTime (.delete side x) := by
  constructor
  · intro hright hnone hacross
    have hdrops := hright hnone x (apart_of_deleted hacross)
    exact (hdrops.mpr (hcut.shared_of_both hx hacross)).2
  · intro hin hnone t ht
    rcases apart_of_delete ht with ⟨rfl, hacross⟩ | ht
    · have hlt := hin hnone hacross
      have hpos := hord.held_pos side t hx
      exact iff_of_true ⟨(hpos.trans hlt).ne', hlt⟩ (hcut.shared_of_both hx hacross)
    · exact hs hnone t ht

/-- The defaults are right after a click exactly when it is in time: what the phone alone has was
shared, and what the desktop alone has was not. -/
theorem right_finish_iff {s : Times Unit} {u : ℤ} (hcut : s.Cut u) (hord : s.Ordered)
    (hadopted : s.adopted ≠ none) :
    Right { s with lastSync := s.clock, adopted := none } ↔ s.InTime .finish := by
  have hphone : ∀ t ∈ s.held none, t ∈ s.shared () := fun t ht =>
    (hcut.shared_iff none t ht).mpr (hcut.phone hadopted t ht)
  have hdesktop : ∀ t ∈ s.held (some ()), t ∉ s.held none → t ∉ s.shared () := fun t ht ht' h =>
    ht' (hcut.desktop hadopted t ht ((hcut.shared_iff _ t ht).mp h))
  constructor
  · intro hright
    refine ⟨fun t ht ht' => ?_, fun t ht ht' => ?_⟩
    · exact ((hright rfl t (.inl ⟨ht, ht'⟩)).mpr (hphone t ht)).2
    · by_contra hne
      have hle : t ≤ s.clock := (hord.held_le _ t ht).trans hord.lastCreation_le
      have hdrops := hright rfl t (.inr ⟨ht', ht⟩)
      exact hdesktop t ht ht' (hdrops.mp ⟨hord.clock_pos.ne', lt_of_le_of_ne hle hne⟩)
  · rintro ⟨hlt, heq⟩ - t (⟨ht, ht'⟩ | ⟨ht', ht⟩)
    · exact iff_of_true ⟨hord.clock_pos.ne', hlt t ht ht'⟩ (hphone t ht)
    · exact iff_of_false (fun h => h.2.ne (heq t ht ht')) (hdesktop t ht ht')

/-- **One event**: where the defaults were right, they stay right exactly when it is in time. -/
theorem right_step_iff {s t : Times Unit} {a : Act Unit} {u : ℤ} (hcut : s.Cut u)
    (hord : s.Ordered) (hs : s.Right) (h : Step s a t) : t.Right ↔ s.InTime a := by
  cases h with
  | tick c h => exact iff_of_true hs trivial
  | quiet => exact iff_of_true hs trivial
  | sync d byDefault merged hidle hmerged hdefault hkeeps =>
    exact iff_of_true (fun h => nomatch h) trivial
  | create side hidle hfresh =>
    refine iff_of_true (fun hnone t ht => ?_) trivial
    rcases apart_of_create ht with rfl | ht
    · exact iff_of_false (fun h => absurd hord.lastSync_le (not_le.mpr h.2))
        fun h => absurd (hcut.shared_le _ h) (not_le.mpr hfresh)
    · exact hs hnone t ht
  | delete side x hidle hx => exact right_delete_iff hcut hord hs hx
  | finish d h => exact right_finish_iff hcut hord fun hnone => nomatch h.symm.trans hnone

end Times

/-! ## One desktop -/

namespace History

/-- **What is to hold**: in a sync from here, the default drops a password that is on one side only
exactly when both lists had it after an earlier sync. -/
def InfersDeletions (C : CorePwdList L) (s : History L Unit) : Prop :=
  ForDefaults C s () fun drops t => drops ↔ t ∈ s.shared ()

theorem infersDeletions_iff {C : CorePwdList L} {s : History L Unit} (hs : s.Wellformed C) :
    InfersDeletions C s ↔ (s.view C).Right :=
  forDefaults_iff hs () _

/-- The lists are well formed, the creation times have a cut, and the defaults are right. -/
structure Inferring (C : CorePwdList L) (s : History L Unit) : Prop where
  wellformed : s.Wellformed C
  cut : ∃ u, (s.view C).Cut u
  right : (s.view C).Right

theorem inferring_start {C : CorePwdList L} {phone : L} {clock : ℤ} (hphone : C.all phone = [])
    (hclock : 0 < clock) : Inferring C (start phone clock) := by
  have hphone' : ∀ t, t ∉ ((start phone clock : History L Unit).view C).held none := fun t ht => by
    rw [mem_held_phone, start, hphone] at ht
    exact List.not_mem_nil ht
  have hdesktop : ∀ t, t ∉ ((start phone clock : History L Unit).view C).held (some ()) :=
    fun t ht => List.not_mem_nil ht
  refine ⟨wellformed_start hphone hclock, ⟨0, ?_, fun t ht => absurd ht List.not_mem_nil, le_rfl,
    fun t ht => absurd ht (hphone' t), fun h => absurd rfl h, fun h => absurd rfl h⟩, ?_⟩
  · rintro (_ | d) t ht
    · exact absurd ht (hphone' t)
    · exact absurd ht (hdesktop t)
  · rintro - t (⟨ht, -⟩ | ⟨-, ht⟩)
    · exact absurd ht (hphone' t)
    · exact absurd ht (hdesktop t)

instance (C : CorePwdList L) (s : History L Unit) : ∀ e : HistoryEvent Unit,
    Decidable ((s.view C).InTime e.act)
  | .phoneDeletes p => inferInstanceAs (Decidable (s.adopted = none →
      p.getTimeCreated ∈ dataTimes (s.desktops ()) → p.getTimeCreated < s.lastSyncTime))
  | .desktopDeletes () t => inferInstanceAs (Decidable (s.adopted = none →
      t ∈ times (C.all s.phone) → t < s.lastSyncTime))
  | .finishClicked => inferInstanceAs (Decidable
      ((∀ t ∈ times (C.all s.phone), t ∉ dataTimes (s.desktops ()) → t < s.clock) ∧
        ∀ t ∈ dataTimes (s.desktops ()), t ∉ times (C.all s.phone) → t = s.clock))
  | .tick _ | .phoneCreates _ _ _ | .phoneEdits _ _ | .desktopCreates _ _ | .desktopEdits _ _
  | .sync _ _ _ => isTrue trivial

/-- **With one desktop the defaults tell the deleted passwords from the new ones as long as every
click and every deletion is in time** — and no longer. -/
theorem allStates_infersDeletions_iff {C : CorePwdList L} (hC : C.LawfulMerge) (hE : C.LawfulEdit)
    {phone : L} (hphone : C.all phone = []) {clock : ℤ} (hclock : 0 < clock)
    (es : List (HistoryEvent Unit)) :
    AllStates (step C) (InfersDeletions C) (start phone clock) es ↔
      AllSteps (step C) (fun s e => (s.view C).InTime e.act) (start phone clock) es := by
  refine allStates_iff_allSteps (I := Inferring C) (N := fun _ _ => True)
    (fun s e t hs _ hP h => ?_) (fun s hs => (infersDeletions_iff hs.wellformed).mpr hs.right)
    (fun s e t hs _ hP h hright => ?_) (inferring_start hphone hclock) (allSteps_true _ _)
  all_goals
    obtain ⟨hstep, hwell⟩ := step_refines hC hE hs.wellformed h
    obtain ⟨u, hcut⟩ := hs.cut
    have hiff := Times.right_step_iff hcut hs.wellformed.ordered hs.right hstep
  · exact ⟨hwell, hcut.step hs.wellformed.ordered hstep, hiff.mpr hP⟩
  · exact hP (hiff.mp ((infersDeletions_iff hwell).mp hright))

/-- A password is created, synced, and deleted on the desktop in a later second. -/
theorem allStates_infersDeletions_table :
    AllStates (step PwdTable.core) (InfersDeletions PwdTable.core) (start PwdTable.empty 5)
      [.phoneCreates [1] [2] none, .sync () [] [], .tick 3, .finishClicked,
        .desktopDeletes () 5] :=
  (allStates_infersDeletions_iff PwdTable.core_lawfulMerge PwdTable.core_lawfulEdit rfl (by decide)
    _).mpr (by decide)

/-- The desktop creates a password between the adoption and the click: the next sync takes it for
deleted on the phone. -/
theorem not_infersDeletions_after_late_click :
    ¬ ∀ (clock : ℤ) (es : List (HistoryEvent Unit)) (s : History PwdTable Unit), 0 < clock →
      run (step PwdTable.core) (start PwdTable.empty clock) es = some s →
        InfersDeletions PwdTable.core s := by
  intro h
  have hinfers := h 5 [.sync () [] [], .tick 1, .desktopCreates () ⟨[1], [], [2], [], 6, 6⟩,
    .tick 1, .finishClicked] _ (by decide) rfl
  have hdrop := hinfers rfl [⟨0, [1], [], [2], [], 6, 6⟩] rfl _ rfl _ List.mem_cons_self _ rfl
  exact absurd hdrop (by decide)

end History

end Kryptan
