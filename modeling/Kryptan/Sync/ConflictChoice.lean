import Kryptan.Core.PwdList

/-!
# Sync/ConflictChoice — what a sync proposes for a password, and what the user makes of it

    local ?──┐                      ┌── local propagates : the local list keeps what it has
             ├── makeDefaultChoice ─┤
    remote ?─┘                      └── remote propagates: it takes what the remote list has

An item of the sync has a local side, a remote side or both.  The proposal goes by the creation and
modification times and the time of the last sync; **it always settles the item**
(`IsDefault.isResolved`), and so does every click of the user (`click_isResolved`).
-/

namespace Kryptan

/-- The texts next to an item, with the time that some of them end in. -/
inductive Tooltip where
  | noSync
  | created (time : ℤ)
  | modified (time : ℤ)
  | new
  | deleted
  | beforeSync
  | afterSync
  | identical
  deriving DecidableEq, Repr

/-- An item of the sync. -/
structure ConflictChoice where
  mLocal : Option CorePwd
  mRemote : Option CorePwd
  mLocalPropogation : Bool
  mRemotePropogation : Bool
  mLastSyncDate : ℤ
  mLocalTooltip : Option Tooltip
  mRemoteTooltip : Option Tooltip
  deriving DecidableEq, Repr

namespace ConflictChoice

def shouldLocalPropagate (c : ConflictChoice) : Bool := c.mLocalPropogation

def shouldRemotePropagate (c : ConflictChoice) : Bool := c.mRemotePropogation

def setLocalPropagation (c : ConflictChoice) (mLocal : Bool) : ConflictChoice :=
  { c with mLocalPropogation := mLocal }

def setRemotePropagation (c : ConflictChoice) (mRemote : Bool) : ConflictChoice :=
  { c with mRemotePropogation := mRemote }

def isResolved (c : ConflictChoice) : Bool := c.mLocalPropogation || c.mRemotePropogation

/-- Set both flags and both tooltips. -/
def propose (c : ConflictChoice) (localPropagates remotePropagates : Bool)
    (localTooltip remoteTooltip : Tooltip) : ConflictChoice :=
  { (c.setLocalPropagation localPropagates).setRemotePropagation remotePropagates with
    mLocalTooltip := some localTooltip
    mRemoteTooltip := some remoteTooltip }

def makeDefaultChoice (c : ConflictChoice) : Except String ConflictChoice :=
  match c.mLocal, c.mRemote with
  | none, none => .error "Both local and remote cannot be null"
  | none, some remote =>
    if c.mLastSyncDate = 0 then .ok (c.propose false true .noSync (.created remote.getTimeCreated))
    else if remote.getTimeCreated < c.mLastSyncDate then
      -- taken for deleted locally
      .ok (c.propose true false .deleted .beforeSync)
    else .ok (c.propose false true .new .afterSync)
  | some loc, none =>
    if c.mLastSyncDate = 0 then .ok (c.propose true false (.created loc.getTimeCreated) .noSync)
    else if loc.getTimeCreated < c.mLastSyncDate then
      -- taken for deleted on the remote side
      .ok (c.propose false true .beforeSync .deleted)
    else .ok (c.propose true false .afterSync .new)
  | some loc, some remote =>
    if loc.getTimeCreated ≠ remote.getTimeCreated then
      .error "The arguments does not have the same creation date"
    else if loc.getTimeModified = remote.getTimeModified then
      .ok (c.propose true true .identical .identical)
    else if loc.getTimeModified < remote.getTimeModified then
      .ok (c.propose false true (.modified loc.getTimeModified)
        (.modified remote.getTimeModified))
    else
      .ok (c.propose true false (.modified loc.getTimeModified)
        (.modified remote.getTimeModified))

/-- The constructor of an item. -/
def new (lastSyncDate : ℤ) (mLocal mRemote : Option CorePwd) : Except String ConflictChoice :=
  makeDefaultChoice ⟨mLocal, mRemote, false, false, lastSyncDate, none, none⟩

/-- The two sides of an item. -/
def sides (c : ConflictChoice) : Option CorePwd × Option CorePwd := (c.mLocal, c.mRemote)

/-- The item is as its constructor leaves it. -/
def IsDefault (lastSyncDate : ℤ) (c : ConflictChoice) : Prop :=
  new lastSyncDate c.mLocal c.mRemote = .ok c

/-! ## The constructor -/

/-- Two sides that may be paired: not both missing, and created at the same time. -/
def Pairable (mLocal mRemote : Option CorePwd) : Prop :=
  (mLocal ≠ none ∨ mRemote ≠ none) ∧
    ∀ p ∈ mLocal, ∀ q ∈ mRemote, p.getTimeCreated = q.getTimeCreated

/-- **The constructor throws on nothing else.** -/
theorem exists_new (lastSyncDate : ℤ) {mLocal mRemote : Option CorePwd}
    (h : Pairable mLocal mRemote) : ∃ c, new lastSyncDate mLocal mRemote = .ok c := by
  obtain ⟨hsome, hsame⟩ := h
  unfold new makeDefaultChoice
  cases mLocal with
  | none =>
    cases mRemote with
    | none => simp at hsome
    | some remote => dsimp only; split_ifs <;> exact ⟨_, rfl⟩
  | some loc =>
    cases mRemote with
    | none => dsimp only; split_ifs <;> exact ⟨_, rfl⟩
    | some remote =>
      dsimp only
      rw [if_neg (not_not.mpr (hsame loc rfl remote rfl))]
      split_ifs <;> exact ⟨_, rfl⟩

/-- The constructor keeps the sides and makes up its mind. -/
theorem new_eq_ok {lastSyncDate : ℤ} {mLocal mRemote : Option CorePwd} {c : ConflictChoice}
    (h : new lastSyncDate mLocal mRemote = .ok c) :
    c.sides = (mLocal, mRemote) ∧ c.isResolved = true := by
  unfold new makeDefaultChoice at h
  dsimp only at h
  split at h
  · exact nomatch h
  all_goals
    split_ifs at h <;> first
      | contradiction
      | exact Except.ok.inj h ▸ ⟨rfl, rfl⟩

theorem isDefault_of_new {lastSyncDate : ℤ} {mLocal mRemote : Option CorePwd} {c : ConflictChoice}
    (h : new lastSyncDate mLocal mRemote = .ok c) : c.IsDefault lastSyncDate := by
  obtain ⟨hl, hr⟩ := Prod.mk.inj (new_eq_ok h).1
  rw [IsDefault, hl, hr]
  exact h

/-- **The proposal settles the item.** -/
theorem IsDefault.isResolved {lastSyncDate : ℤ} {c : ConflictChoice}
    (h : c.IsDefault lastSyncDate) : c.isResolved = true :=
  (new_eq_ok h).2

/-! ## What is proposed for a password on one side only -/

/-- The password is on the remote side only: it is dropped exactly when it was created before the
last sync. -/
theorem IsDefault.remote_only {lastSyncDate : ℤ} {c : ConflictChoice}
    (h : c.IsDefault lastSyncDate) {q : CorePwd} (hl : c.mLocal = none) (hr : c.mRemote = some q) :
    c.shouldLocalPropagate = decide (lastSyncDate ≠ 0 ∧ q.getTimeCreated < lastSyncDate) ∧
      c.shouldRemotePropagate = !c.shouldLocalPropagate := by
  rw [IsDefault, hl, hr, new, makeDefaultChoice] at h
  dsimp only at h
  split_ifs at h with h0 hlt <;> rw [← Except.ok.inj h] <;>
    simp [propose, shouldLocalPropagate, shouldRemotePropagate, setLocalPropagation,
      setRemotePropagation, *]

/-- The password is on the local side only: it is dropped exactly when it was created before the
last sync. -/
theorem IsDefault.local_only {lastSyncDate : ℤ} {c : ConflictChoice}
    (h : c.IsDefault lastSyncDate) {p : CorePwd} (hl : c.mLocal = some p) (hr : c.mRemote = none) :
    c.shouldRemotePropagate = decide (lastSyncDate ≠ 0 ∧ p.getTimeCreated < lastSyncDate) ∧
      c.shouldLocalPropagate = !c.shouldRemotePropagate := by
  rw [IsDefault, hl, hr, new, makeDefaultChoice] at h
  dsimp only at h
  split_ifs at h with h0 hlt <;> rw [← Except.ok.inj h] <;>
    simp [propose, shouldLocalPropagate, shouldRemotePropagate, setLocalPropagation,
      setRemotePropagation, *]

/-- **A tooltip says "deleted" exactly where a password of the other side is to be dropped.** -/
theorem new_deleted_iff {lastSyncDate : ℤ} {mLocal mRemote : Option CorePwd} {c : ConflictChoice}
    (h : new lastSyncDate mLocal mRemote = .ok c) :
    (c.mLocalTooltip = some .deleted ↔ mLocal = none ∧ c.shouldLocalPropagate = true) ∧
      (c.mRemoteTooltip = some .deleted ↔ mRemote = none ∧ c.shouldRemotePropagate = true) := by
  unfold new makeDefaultChoice at h
  dsimp only at h
  split at h
  · exact nomatch h
  all_goals
    split_ifs at h <;> first
      | contradiction
      | (rw [← Except.ok.inj h]
         simp [propose, shouldLocalPropagate, shouldRemotePropagate, setLocalPropagation,
           setRemotePropagation])

/-! ## The two buttons of an item -/

/-- The buttons next to the two sides of an item. -/
inductive Button where
  | chooseLocal
  | chooseRemote
  deriving DecidableEq, Repr

def chooseLocalOverrideClicked (c : ConflictChoice) : ConflictChoice :=
  (c.setLocalPropagation true).setRemotePropagation false

def chooseRemoteOverrideClicked (c : ConflictChoice) : ConflictChoice :=
  (c.setLocalPropagation false).setRemotePropagation true

def click (c : ConflictChoice) : Button → ConflictChoice
  | .chooseLocal => c.chooseLocalOverrideClicked
  | .chooseRemote => c.chooseRemoteOverrideClicked

@[simp] theorem click_sides (c : ConflictChoice) (b : Button) : (c.click b).sides = c.sides := by
  cases b <;> rfl

/-- **A click settles the item.** -/
theorem click_isResolved (c : ConflictChoice) (b : Button) : (c.click b).isResolved = true := by
  cases b <;> rfl

end ConflictChoice

end Kryptan
