import Kryptan.Sync.DesktopSync

/-!
# Sync/Failure — the list after a sync that failed

    connecting ──▸ choosing ──accept──▸ sending ──▸ finished
        │              │        │          │
        ╰──────────────┴────────┴──────────┴──▸ SyncFailed

The choices are applied to the live list before anything is sent, and `SyncFailed` cleans up the
clients only.  So a failed sync leaves the list as it was **exactly when the items applied up to then
that take the remote side have the same contents on both sides, counted together**
(`restored_iff`) — whichever client, message, click or exception it failed by.
-/

namespace Kryptan.DesktopSync

open ConflictChoice SyncAdapter SyncronizeDesktopActivity Runs

variable {n : ℕ} {L : Type*}

/-- `SyncFailed` has been called. -/
def Failed (s : DesktopSync n L) : Prop := s.connections.errors ≠ []

/-- **What is to hold**: a failed sync leaves the list with the passwords it had. -/
def Restored (C : CorePwdList L) (phone : L) (s : DesktopSync n L) : Prop :=
  s.Failed → (C.contents s.mLocalPwdFile).Perm (C.contents phone)

/-! ## What was applied -/

/-- The contents of the list are those of the phone, but for what was replaced; and the items in view
are of the list. -/
structure Tallied (C : CorePwdList L) (phone : L) (s : DesktopSync n L) : Prop where
  contents : (C.contents s.mLocalPwdFile ++ (replaced s.applied).map CorePwd.data).Perm
    (C.contents phone ++ (replacing s.applied).map CorePwd.data)
  covers : s.listShown = true → Covers C s.mLocalPwdFile s.mSyncAdapter

section

variable {N : PwdFileNatives L} {C : CorePwdList L} {lastSyncTime : ℤ} {phone : L}
  {s t : DesktopSync n L}

theorem tallied_start (C : CorePwdList L) (phone : L) (key : List Char) :
    Tallied C phone (start n key phone) :=
  ⟨List.Perm.refl _, fun h => absurd h Bool.false_ne_true⟩

/-- Where nothing is shown or applied, the list is as it was. -/
theorem Tallied.of_same (h : Tallied C phone s) (hphone : t.mLocalPwdFile = s.mLocalPwdFile)
    (hadapter : t.mSyncAdapter = s.mSyncAdapter) (hshown : t.listShown = s.listShown)
    (happlied : t.applied = s.applied) : Tallied C phone t := by
  refine ⟨?_, fun hview => ?_⟩
  · rw [hphone, happlied]
    exact h.contents
  · rw [hphone, hadapter]
    exact h.covers (hshown.symm.trans hview)

/-- More items are applied. -/
theorem Tallied.contents_append (hC : C.LawfulMerge) (h : Tallied C phone s)
    {items : List ConflictChoice} {others : List CorePwd}
    (hall : (C.all s.mLocalPwdFile).Perm (replaced items ++ others)) :
    (C.contents (applyChoices C s.mLocalPwdFile items).list
        ++ (replaced (s.applied ++ items)).map CorePwd.data).Perm
      (C.contents phone ++ (replacing (s.applied ++ items)).map CorePwd.data) := by
  have hloop := contents_foldl_applyChoice hC (m := ⟨s.mLocalPwdFile, 0⟩) hall
  have hbefore := h.contents
  rw [replaced_append, replacing_append, List.map_append, List.map_append]
  simp only [← Multiset.coe_eq_coe, ← Multiset.coe_add] at hloop hbefore ⊢
  rw [add_left_comm, applyChoices, hloop, ← add_assoc, add_comm (Multiset.ofList _), hbefore,
    add_assoc]

/-- The choices are applied, all of them or up to an exception. -/
theorem Tallied.accept (hC : C.LawfulMerge) (h : Tallied C phone s) (hchoosing : s.choosing = true)
    {throwsAt : Option (BreakOff × String)} (ht : s.accept N C throwsAt = some t) :
    Tallied C phone t := by
  have hcovers := h.covers (Bool.and_eq_true_iff.mp hchoosing).1
  cases throwsAt with
  | none =>
    obtain ⟨u, -, rfl⟩ := Option.map_eq_some_iff.mp ht
    obtain ⟨others, hothers⟩ := (replaced_sublist s.mSyncAdapter).exists_perm_append
    exact ⟨h.contents_append hC (hcovers.symm.trans hothers), fun h => absurd h Bool.false_ne_true⟩
  | some p =>
    obtain ⟨u, -, rfl⟩ := Option.map_eq_some_iff.mp ht
    obtain ⟨others, hothers⟩ := (replaced_items_sublist p.1 s.mSyncAdapter).exists_perm_append
    refine ⟨?_, fun h => absurd h Bool.false_ne_true⟩
    rw [applyChoicesUpTo_eq]
    exact h.contents_append hC (hcovers.symm.trans hothers)

/-- A message shows the items of the list, or changes nothing of it. -/
theorem Tallied.deliver (h : Tallied C phone s) {throws : Option String}
    (ht : s.deliver N C lastSyncTime throws = some t) : Tallied C phone t := by
  rw [DesktopSync.deliver] at ht
  split at ht
  case h_1 =>
    obtain ⟨u, -, rfl⟩ := Option.map_eq_some_iff.mp ht
    exact h.of_same rfl rfl rfl rfl
  case h_2 c newFile _ =>
  split at ht <;> obtain ⟨u, -, rfl⟩ := Option.map_eq_some_iff.mp ht
  case h_1 items hlisted =>
    obtain ⟨f, -, hitems⟩ := exists_listed hlisted
    exact ⟨h.contents, fun _ => covers_of_createSyncItemList hitems⟩
  case h_2 => exact h.of_same rfl rfl rfl rfl

/-- **Every event keeps the tally.** -/
theorem Tallied.step (hC : C.LawfulMerge) (h : Tallied C phone s) {e : DesktopSyncEvent n}
    (ht : s.step N C lastSyncTime e = some t) : Tallied C phone t := by
  cases e with
  | work c o =>
    obtain ⟨u, -, rfl⟩ := Option.map_eq_some_iff.mp ht
    exact h.of_same rfl rfl rfl rfl
  | deliver throws => exact h.deliver ht
  | click i b =>
    obtain ⟨-, heq⟩ := Option.ite_none_right_eq_some.mp ht
    obtain rfl := Option.some.inj heq
    exact ⟨h.contents, fun hview => (h.covers hview).clickItem (i, b)⟩
  | accept throwsAt =>
    obtain ⟨hchoosing, ht⟩ := Option.ite_none_right_eq_some.mp ht
    exact h.accept hC hchoosing ht
  | cancel =>
    obtain ⟨-, ht⟩ := Option.ite_none_right_eq_some.mp ht
    obtain ⟨u, -, rfl⟩ := Option.map_eq_some_iff.mp ht
    exact h.of_same rfl rfl rfl rfl

/-- **The list has the contents it had exactly when the items undo one another.** -/
theorem Tallied.perm_iff (h : Tallied C phone s) :
    (C.contents s.mLocalPwdFile).Perm (C.contents phone) ↔ Undone s.applied := by
  constructor
  · intro hsame
    exact (List.perm_append_left_iff _).mp ((hsame.symm.append_right _).trans h.contents)
  · intro hundone
    exact (List.perm_append_right_iff _).mp (h.contents.trans (hundone.symm.append_left _))

/-- **A failed sync leaves the list as it was exactly when, among the items applied, those that take
the remote side have the same contents on both sides**: in every run of the clients, the messages,
the user and the exceptions. -/
theorem restored_iff (N : PwdFileNatives L) {C : CorePwdList L} (hC : C.LawfulMerge)
    (lastSyncTime : ℤ) (phone : L) (key : List Char) {es : List (DesktopSyncEvent n)}
    {s : DesktopSync n L} (hs : run (step N C lastSyncTime) (start n key phone) es = some s) :
    Restored C phone s ↔ (s.Failed → Undone s.applied) := by
  have htallied : Tallied C phone s :=
    run_induction (fun _ _ _ h ht => h.step hC ht) (tallied_start C phone key) hs
  exact forall_congr' fun _ => htallied.perm_iff

end

/-! ## A desktop that sends its list, and a user who cancels -/

/-- Files of tables of passwords that are nothing but the second they were created in. -/
def tableFiles : PwdFileNatives PwdTable where
  tryOpenAndParse key data := (secondsFiles.tryOpenAndParse key data).map fun seconds =>
    seconds.foldl (fun t (sec : ℕ) => t.add ⟨[], [], [], [], sec, sec⟩) PwdTable.empty
  saveToString file key mashCount seed :=
    secondsFiles.saveToString (file.entries.map fun p => p.getTimeCreated.toNat) key mashCount seed

/-- The desktop has the same password, the user takes it from there, accepts, and cancels while it is
sent: the password was replaced by itself. -/
theorem restored_cancelled :
    let phone := PwdTable.empty.add ⟨[], [], [], [], 1, 1⟩
    ∃ s, run (step tableFiles PwdTable.core 0) (start 1 ['\x01'] phone)
        (upToAccept ['t', '1'] [(0, .chooseRemote)] ++ [.cancel]) = some s ∧
      s.Failed ∧ replaced s.applied ≠ [] ∧ Restored PwdTable.core phone s := by
  intro phone
  have hend : (run (step tableFiles PwdTable.core 0) (start 1 ['\x01'] phone)
      (upToAccept ['t', '1'] [(0, .chooseRemote)] ++ [.cancel])).any
      (fun s => s.connections.errors ≠ [] ∧ replaced s.applied ≠ [] ∧ Undone s.applied) = true := by
    decide +kernel
  obtain ⟨s, hrun, hs⟩ := (Option.any_eq_true _ _).mp hend
  obtain ⟨hfailed, hreplaced, hundone⟩ := of_decide_eq_true hs
  exact ⟨s, hrun, hfailed, hreplaced,
    (restored_iff tableFiles PwdTable.core_lawfulMerge 0 phone _ hrun).mpr fun _ => hundone⟩

/-- The desktop has deleted a password of the phone.  The user accepts that, and cancels while the
list is sent: the password stays deleted. -/
theorem not_restored_after_cancel :
    ¬ ∀ (lastSyncTime : ℤ) (phone : PwdTable) (key : List Char) (es : List (DesktopSyncEvent 1))
      (s : DesktopSync 1 PwdTable),
      run (step tableFiles PwdTable.core lastSyncTime) (start 1 key phone) es = some s →
        Restored PwdTable.core phone s := by
  intro h
  have hend : (run (step tableFiles PwdTable.core 5)
      (start 1 ['\x01'] (PwdTable.empty.add ⟨[], [], [], [], 1, 1⟩))
      (upToAccept [] [] ++ [.cancel])).any
      (fun s => s.connections.errors ≠ [] ∧ PwdTable.core.contents s.mLocalPwdFile = []) = true := by
    decide +kernel
  obtain ⟨s, hrun, hs⟩ := (Option.any_eq_true _ _).mp hend
  obtain ⟨hfailed, hempty⟩ := of_decide_eq_true hs
  have hrestored := h 5 _ ['\x01'] _ s hrun hfailed
  rw [hempty] at hrestored
  exact absurd hrestored.length_eq (by decide)

end Kryptan.DesktopSync
