import Kryptan.Core.SecureString
import Kryptan.Machinery.Ranges
import Kryptan.Machinery.Runs
import Kryptan.Machinery.Ticked

/-!
# Ui/LabelFilter — the labels ticked for browsing

    checkbox ──setChecked──▸ onCheckedChanged(tag) ──▸ mChecked ──▸ mSelectedLabels

A grid shows the labels of the password file, each with a checkbox.  Its views are recycled: a view
that scrolled away comes back bound to another position, its checkbox set by the program, and the
checkbox reports that to the same listener as a click of the user.  Since `getView` sets the tag
first, the listener finds the entry that the checkbox was just set to (`getView_eq`).  So **the
filter is the set of ticked labels after whatever the user and the grid do** (`run_inStep`).
-/

namespace Kryptan

open Runs Ticked

variable {content : ℕ → SecureString}

/-- `equals` of two handlers, by their native handles: the same handle or the same contents. -/
def CoreSecureStringHandler.equals (content : ℕ → SecureString) (h o : ℕ) : Bool :=
  o = h || content h = content o

theorem CoreSecureStringHandler.equals_iff {h o : ℕ} :
    equals content h o = true ↔ content h = content o := by
  rw [equals, Bool.or_eq_true, decide_eq_true_iff, decide_eq_true_iff]
  exact ⟨fun hor => hor.elim (fun heq => heq ▸ rfl) id, .inr⟩

/-- What `AllLabels` returns: handlers of distinct contents. -/
structure LabelSource (content : ℕ → SecureString) where
  labels : List ℕ
  nodup : (labels.map content).Nodup

/-- A view of the grid: what matters of it is its checkbox. -/
structure LabelView where
  tag : Option ℕ
  checked : Bool
  displayed : Bool
  deriving DecidableEq, Repr

/-- The adapter, the selection of the activity, and the views made so far. -/
structure LabelFilter (content : ℕ → SecureString) where
  mLabels : LabelSource content
  mChecked : List Bool
  mSelectedLabels : List ℕ
  views : List LabelView

namespace SelectLabelActivity

/-- The selection after `OnLabelSelectionChanged`. -/
def onLabelSelectionChanged (content : ℕ → SecureString) (mSelectedLabels : List ℕ) (label : ℕ)
    (isSelected : Bool) : List ℕ :=
  if isSelected then mSelectedLabels ++ [label]
  else mSelectedLabels.eraseP (CoreSecureStringHandler.equals content label)

end SelectLabelActivity

namespace LabelFilter

/-! ## The adapter -/

/-- `none` stands for an exception. -/
def onCheckedChanged (s : LabelFilter content) (tag : Option ℕ) (isChecked : Bool) :
    Option (LabelFilter content) := do
  let label ← tag
  let checked ← s.mChecked[label]?
  if checked = isChecked then return s
  let changed ← s.mLabels.labels[label]?
  return { s with
    mChecked := s.mChecked.set label isChecked
    mSelectedLabels :=
      SelectLabelActivity.onLabelSelectionChanged content s.mSelectedLabels changed isChecked }

/-- `setChecked` of a checkbox: the listener hears of a change only. -/
def setChecked (s : LabelFilter content) (v : ℕ) (isChecked : Bool) :
    Option (LabelFilter content) := do
  let view ← s.views[v]?
  if view.checked = isChecked then return s
  onCheckedChanged { s with views := s.views.set v { view with checked := isChecked } } view.tag
    isChecked

/-- The views, with a new one if there is none to convert. -/
def inflate (s : LabelFilter content) : Option ℕ → List LabelView
  | none => s.views ++ [⟨none, false, false⟩]
  | some _ => s.views

/-- The view that `getView` returns. -/
def group (s : LabelFilter content) (convertView : Option ℕ) : ℕ :=
  convertView.getD s.views.length

def getView (s : LabelFilter content) (arg0 : ℕ) (convertView : Option ℕ) :
    Option (LabelFilter content) := do
  let view ← (s.inflate convertView)[s.group convertView]?
  let _ ← s.mLabels.labels[arg0]?
  let checked ← s.mChecked[arg0]?
  setChecked { s with
    views := (s.inflate convertView).set (s.group convertView)
      { view with tag := some arg0, displayed := true } } (s.group convertView) checked

/-- `performClick` of a checkbox, also on a click on the texts next to it. -/
def performClick (s : LabelFilter content) (v : ℕ) : Option (LabelFilter content) := do
  let view ← s.views[v]?
  setChecked s v (!view.checked)

def refreshData (s : LabelFilter content) (labels : LabelSource content) : LabelFilter content :=
  { s with mLabels := labels, mChecked := List.replicate labels.labels.length false }

/-! ## The grid -/

/-- A view leaves the display, for `getView` to convert. -/
def scrap (s : LabelFilter content) (v : ℕ) : LabelFilter content :=
  { s with views := s.views.modify v fun view => { view with displayed := false } }

/-- `onSecretListDone` and `onSyncronizationDone`: new data, no selection, and as the data have
changed the grid scraps every view before it binds the first one again. -/
def returned (s : LabelFilter content) (labels : LabelSource content) : LabelFilter content :=
  { s.refreshData labels with
    mSelectedLabels := []
    views := s.views.map fun view => { view with displayed := false } }

/-- The view `v` is displayed, at a position. -/
def shows (s : LabelFilter content) (v position : ℕ) : Bool :=
  (s.views[v]?).any fun view => view.displayed && view.tag = some position

/-- The view `v` is displayed. -/
def isDisplayed (s : LabelFilter content) (v : ℕ) : Bool := (s.views[v]?).any LabelView.displayed

/-- What the grid and the user do. -/
inductive Event (content : ℕ → SecureString) where
  | getView (arg0 : ℕ) (convertView : Option ℕ)
  | toggle (v : ℕ)
  | scrap (v : ℕ)
  | returned (labels : LabelSource content)

/-- The grid binds views to positions that it has, one displayed view to a position, and the user
clicks on displayed views. -/
def Enabled (s : LabelFilter content) : Event content → Prop
  | .getView arg0 convertView => arg0 < s.mLabels.labels.length ∧
      (∀ v ∈ convertView, v < s.views.length) ∧
      ∀ v < s.views.length, s.shows v arg0 = true → convertView = some v
  | .toggle v => s.isDisplayed v = true
  | .scrap _ => True
  | .returned _ => True

instance (s : LabelFilter content) (e : Event content) : Decidable (s.Enabled e) := by
  unfold Enabled
  split <;> infer_instance

/-- What an event does; `none` stands for an exception. -/
def act (s : LabelFilter content) : Event content → Option (LabelFilter content)
  | .getView arg0 convertView => s.getView arg0 convertView
  | .toggle v => s.performClick v
  | .scrap v => some (s.scrap v)
  | .returned labels => some (s.returned labels)

/-- One event. -/
def step (s : LabelFilter content) (e : Event content) : Option (LabelFilter content) :=
  if s.Enabled e then s.act e else none

/-- The activity with a file just opened. -/
def opened (labels : LabelSource content) : LabelFilter content where
  mLabels := labels
  mChecked := List.replicate labels.labels.length false
  mSelectedLabels := []
  views := []

/-- **What is to hold**: the boxes, the check marks and the selection say the same. -/
structure InStep (s : LabelFilter content) : Prop where
  length : s.mChecked.length = s.mLabels.labels.length
  once : (s.mSelectedLabels.map content).Nodup
  selected : ∀ label, label ∈ s.mSelectedLabels ↔
    ∃ position : ℕ, s.mLabels.labels[position]? = some label ∧ s.mChecked[position]? = some true
  displayed : ∀ view ∈ s.views, view.displayed = true →
    ∃ position, view.tag = some position ∧ s.mChecked[position]? = some view.checked

/-! ## What binding and clicking do -/

theorem shows_iff {s : LabelFilter content} {v position : ℕ} :
    s.shows v position = true ↔
      ∃ view, s.views[v]? = some view ∧ view.displayed = true ∧ view.tag = some position := by
  rw [shows, Option.any_eq_true]
  simp

theorem isDisplayed_iff {s : LabelFilter content} {v : ℕ} :
    s.isDisplayed v = true ↔ ∃ view, s.views[v]? = some view ∧ view.displayed = true := by
  rw [isDisplayed, Option.any_eq_true]

/-- The listener does nothing where the entry is what the checkbox was set to. -/
theorem onCheckedChanged_same {s : LabelFilter content} {label : ℕ} {isChecked : Bool}
    (h : s.mChecked[label]? = some isChecked) :
    s.onCheckedChanged (some label) isChecked = some s := by
  simp [onCheckedChanged, h]

/-- The listener changes the entry and the selection where they differ. -/
theorem onCheckedChanged_other {s : LabelFilter content} {label changed : ℕ} {isChecked : Bool}
    (h : s.mChecked[label]? = some (!isChecked)) (hl : s.mLabels.labels[label]? = some changed) :
    s.onCheckedChanged (some label) isChecked = some { s with
      mChecked := s.mChecked.set label isChecked
      mSelectedLabels :=
        SelectLabelActivity.onLabelSelectionChanged content s.mSelectedLabels changed isChecked } := by
  simp [onCheckedChanged, h, hl]

/-- **Binding a view changes that view only**, whatever it showed before: its checkbox shows the
entry of the position, and neither the entries nor the selection change. -/
theorem getView_eq {s : LabelFilter content} {arg0 label : ℕ} {convertView : Option ℕ}
    {checked : Bool} (hgroup : s.group convertView < (s.inflate convertView).length)
    (hlabel : s.mLabels.labels[arg0]? = some label) (hchecked : s.mChecked[arg0]? = some checked) :
    s.getView arg0 convertView = some { s with
      views := (s.inflate convertView).set (s.group convertView) ⟨some arg0, checked, true⟩ } := by
  rw [getView, List.getElem?_eq_getElem hgroup, hlabel, hchecked]
  simp only [Option.bind_eq_bind, Option.bind_some, setChecked, List.getElem?_set_self hgroup]
  split_ifs with hsame
  · rw [← hsame]
    rfl
  · rw [List.set_set]
    exact onCheckedChanged_same hchecked

/-- **A click flips the checkbox**, and with it the entry of its position and the selection. -/
theorem performClick_eq {s : LabelFilter content} {v position label : ℕ} {view : LabelView}
    (hview : s.views[v]? = some view) (htag : view.tag = some position)
    (hlabel : s.mLabels.labels[position]? = some label)
    (hchecked : s.mChecked[position]? = some view.checked) :
    s.performClick v = some { s with
      views := s.views.set v { view with checked := !view.checked }
      mChecked := s.mChecked.set position (!view.checked)
      mSelectedLabels := SelectLabelActivity.onLabelSelectionChanged content s.mSelectedLabels
        label (!view.checked) } := by
  have hflip : view.checked ≠ !view.checked := by cases view.checked <;> decide
  rw [performClick, hview]
  simp only [Option.bind_eq_bind, Option.bind_some, setChecked, hview, if_neg hflip, htag]
  exact onCheckedChanged_other (by rwa [Bool.not_not]) hlabel

/-! ## The selection -/

/-- **The selection follows the check mark** of a position. -/
theorem onLabelSelectionChanged_perm {labels : LabelSource content} {mChecked : List Bool}
    {mSelectedLabels : List ℕ} {position label : ℕ} {checked : Bool}
    (hselected : mSelectedLabels.Perm (ticked labels.labels mChecked))
    (hlabel : labels.labels[position]? = some label)
    (hchecked : mChecked[position]? = some checked) :
    (SelectLabelActivity.onLabelSelectionChanged content mSelectedLabels label (!checked)).Perm
      (ticked labels.labels (mChecked.set position (!checked))) := by
  cases checked with
  | false =>
    have hadd := ticked_set_true hlabel hchecked
    exact (List.perm_append_singleton label _).trans ((hselected.cons label).trans hadd.symm)
  | true =>
    have hperm := hselected.trans (ticked_set_false hlabel hchecked)
    have hdistinct : (mSelectedLabels.map content).Nodup :=
      (hselected.map content).nodup_iff.mpr
        (labels.nodup.sublist ((ticked_sublist _ _).map content))
    have honce : mSelectedLabels.Pairwise fun o o' =>
        CoreSecureStringHandler.equals content label o = true →
          CoreSecureStringHandler.equals content label o' = true → False :=
      (List.pairwise_map.mp hdistinct).imp fun hne ho ho' =>
        hne ((CoreSecureStringHandler.equals_iff.mp ho).symm.trans
          (CoreSecureStringHandler.equals_iff.mp ho'))
    refine (hperm.eraseP _ honce).trans (.of_eq ?_)
    exact List.eraseP_cons_of_pos (CoreSecureStringHandler.equals_iff.mpr rfl)

/-! ## The invariant -/

/-- What every event keeps. -/
structure Inv (s : LabelFilter content) : Prop where
  length : s.mChecked.length = s.mLabels.labels.length
  selected : s.mSelectedLabels.Perm (ticked s.mLabels.labels s.mChecked)
  displayed : ∀ (v : ℕ) (view : LabelView), s.views[v]? = some view → view.displayed = true →
    ∃ position, view.tag = some position ∧ s.mChecked[position]? = some view.checked
  distinct : ∀ v w position, s.shows v position = true → s.shows w position = true → v = w

theorem Inv.inStep {s : LabelFilter content} (h : Inv s) : InStep s where
  length := h.length
  once := (h.selected.map content).nodup_iff.mpr
    (s.mLabels.nodup.sublist ((ticked_sublist _ _).map content))
  selected label := h.selected.mem_iff.trans mem_ticked_iff
  displayed view hview hdisplayed := by
    obtain ⟨v, hv⟩ := List.mem_iff_getElem?.mp hview
    exact h.displayed v view hv hdisplayed

/-- With no view displayed, the views are as they have to be. -/
theorem Inv.of_none {s : LabelFilter content} (hlength : s.mChecked.length = s.mLabels.labels.length)
    (hselected : s.mSelectedLabels.Perm (ticked s.mLabels.labels s.mChecked))
    (hnone : ∀ (v : ℕ) (view : LabelView), s.views[v]? = some view → view.displayed = false) : Inv s where
  length := hlength
  selected := hselected
  displayed v view hview hdisplayed := by simp [hnone v view hview] at hdisplayed
  distinct v w position hv _ := by
    obtain ⟨view, hview, hdisplayed, -⟩ := shows_iff.mp hv
    simp [hnone v view hview] at hdisplayed

theorem inv_opened (labels : LabelSource content) : Inv (opened labels) :=
  Inv.of_none List.length_replicate (.of_eq (ticked_replicate_false _ _).symm)
    fun v view hview => by simp [opened] at hview

theorem inv_returned (s : LabelFilter content) (labels : LabelSource content) :
    Inv (s.returned labels) := by
  refine Inv.of_none List.length_replicate (.of_eq (ticked_replicate_false _ _).symm)
    fun v view hview => ?_
  rw [returned, List.getElem?_map, Option.map_eq_some_iff] at hview
  obtain ⟨_, -, rfl⟩ := hview
  rfl

/-- A position has a label and an entry. -/
theorem Inv.exists_entry {s : LabelFilter content} (h : Inv s) {position : ℕ}
    (hlt : position < s.mLabels.labels.length) :
    ∃ label checked, s.mLabels.labels[position]? = some label ∧
      s.mChecked[position]? = some checked :=
  ⟨_, _, List.getElem?_eq_getElem hlt, List.getElem?_eq_getElem (h.length.symm ▸ hlt)⟩

/-- A displayed view shows the entry of a position. -/
theorem Inv.exists_shown {s : LabelFilter content} (h : Inv s) {v : ℕ}
    (hv : s.isDisplayed v = true) :
    ∃ view position label, s.views[v]? = some view ∧ view.displayed = true ∧
      view.tag = some position ∧ s.mLabels.labels[position]? = some label ∧
      s.mChecked[position]? = some view.checked := by
  obtain ⟨view, hview, hdisplayed⟩ := isDisplayed_iff.mp hv
  obtain ⟨position, htag, hchecked⟩ := h.displayed v view hview hdisplayed
  have hlt := (List.getElem?_eq_some_iff.mp hchecked).1
  rw [h.length] at hlt
  exact ⟨view, position, _, hview, hdisplayed, htag, List.getElem?_eq_getElem hlt, hchecked⟩

/-- The view that is bound exists. -/
theorem group_lt {s : LabelFilter content} {arg0 : ℕ} {convertView : Option ℕ}
    (h : s.Enabled (.getView arg0 convertView)) :
    s.group convertView < (s.inflate convertView).length := by
  cases convertView with
  | none => simp [group, inflate]
  | some v => exact h.2.1 v rfl

/-- The views but the one bound are as they were. -/
theorem inflate_getElem?_of_ne {s : LabelFilter content} {convertView : Option ℕ} {v : ℕ}
    (h : v ≠ s.group convertView) : (s.inflate convertView)[v]? = s.views[v]? := by
  cases convertView with
  | some v => rfl
  | none =>
    rcases lt_or_gt_of_ne h with hlt | hgt
    · exact List.getElem?_append_left hlt
    · have hgt' : s.views.length < v := hgt
      rw [inflate, List.getElem?_eq_none (by simpa using Nat.succ_le_of_lt hgt'),
        List.getElem?_eq_none hgt'.le]

/-- After the binding a view is the one bound, or one that was there before. -/
theorem getElem?_bind_cases {s : LabelFilter content} {convertView : Option ℕ} {v : ℕ}
    {bound view : LabelView}
    (hview : ((s.inflate convertView).set (s.group convertView) bound)[v]? = some view) :
    (v = s.group convertView ∧ view = bound) ∨
      (v ≠ s.group convertView ∧ s.views[v]? = some view) := by
  obtain ⟨hv, rfl⟩ | ⟨hne, hview⟩ := Ranges.getElem?_set_cases hview
  · exact .inl ⟨hv.symm, rfl⟩
  · rw [inflate_getElem?_of_ne hne.symm] at hview
    exact .inr ⟨hne.symm, hview⟩

/-- No other displayed view shows the position that is bound. -/
theorem tag_ne_of_enabled {s : LabelFilter content} {arg0 : ℕ} {convertView : Option ℕ}
    (hE : s.Enabled (.getView arg0 convertView)) {v : ℕ} {view : LabelView}
    (hne : v ≠ s.group convertView) (hview : s.views[v]? = some view)
    (hdisplayed : view.displayed = true) : view.tag ≠ some arg0 := by
  intro htag
  have hconvert := hE.2.2 v (List.getElem?_eq_some_iff.mp hview).1
    (shows_iff.mpr ⟨view, hview, hdisplayed, htag⟩)
  exact hne (by rw [hconvert]; rfl)

/-- **Binding a view keeps the invariant.** -/
theorem inv_getView {s : LabelFilter content} (hs : Inv s) {arg0 : ℕ} {convertView : Option ℕ}
    {checked : Bool} (hE : s.Enabled (.getView arg0 convertView))
    (hchecked : s.mChecked[arg0]? = some checked) :
    Inv { s with
      views := (s.inflate convertView).set (s.group convertView) ⟨some arg0, checked, true⟩ } := by
  refine ⟨hs.length, hs.selected, fun v view hview hdisplayed => ?_, fun v w position hv hw => ?_⟩
  · rcases getElem?_bind_cases hview with ⟨-, rfl⟩ | ⟨-, hview⟩
    · exact ⟨arg0, rfl, hchecked⟩
    · exact hs.displayed v view hview hdisplayed
  · obtain ⟨view, hview, hvd, hvt⟩ := shows_iff.mp hv
    obtain ⟨view', hview', hwd, hwt⟩ := shows_iff.mp hw
    rcases getElem?_bind_cases hview with ⟨rfl, rfl⟩ | ⟨hvne, hview⟩ <;>
      rcases getElem?_bind_cases hview' with ⟨rfl, rfl⟩ | ⟨hwne, hview'⟩
    · rfl
    · exact absurd (hwt.trans hvt.symm) (tag_ne_of_enabled hE hwne hview' hwd)
    · exact absurd (hvt.trans hwt.symm) (tag_ne_of_enabled hE hvne hview hvd)
    · exact hs.distinct v w position (shows_iff.mpr ⟨view, hview, hvd, hvt⟩)
        (shows_iff.mpr ⟨view', hview', hwd, hwt⟩)

/-- A click leaves every view where it is displayed. -/
theorem shows_of_set_checked {s : LabelFilter content} {v w position : ℕ} {view view' : LabelView}
    {checked : Bool} (hview : s.views[v]? = some view)
    (hview' : (s.views.set v { view with checked := checked })[w]? = some view')
    (hdisplayed : view'.displayed = true) (htag : view'.tag = some position) :
    s.shows w position = true := by
  obtain ⟨rfl, rfl⟩ | ⟨-, hview'⟩ := Ranges.getElem?_set_cases hview'
  · exact shows_iff.mpr ⟨view, hview, hdisplayed, htag⟩
  · exact shows_iff.mpr ⟨view', hview', hdisplayed, htag⟩

/-- **A click keeps the invariant.** -/
theorem inv_performClick {s : LabelFilter content} (hs : Inv s) {v position label : ℕ}
    {view : LabelView} (hview : s.views[v]? = some view) (hdisplayed : view.displayed = true)
    (htag : view.tag = some position) (hlabel : s.mLabels.labels[position]? = some label)
    (hchecked : s.mChecked[position]? = some view.checked) :
    Inv { s with
      views := s.views.set v { view with checked := !view.checked }
      mChecked := s.mChecked.set position (!view.checked)
      mSelectedLabels := SelectLabelActivity.onLabelSelectionChanged content s.mSelectedLabels
        label (!view.checked) } := by
  refine ⟨by rw [List.length_set]; exact hs.length,
    onLabelSelectionChanged_perm hs.selected hlabel hchecked, fun w view' hview' hd => ?_,
    fun w w' position' hw hw' => ?_⟩
  · obtain ⟨rfl, rfl⟩ | ⟨hne, hview'⟩ := Ranges.getElem?_set_cases hview'
    · exact ⟨position, htag,
        List.getElem?_set_self (List.getElem?_eq_some_iff.mp hchecked).1⟩
    · obtain ⟨position', htag', hchecked'⟩ := hs.displayed w view' hview' hd
      have hother : position ≠ position' := by
        rintro rfl
        exact hne.symm (hs.distinct w v position (shows_iff.mpr ⟨view', hview', hd, htag'⟩)
          (shows_iff.mpr ⟨view, hview, hdisplayed, htag⟩))
      exact ⟨position', htag', (List.getElem?_set_ne hother).trans hchecked'⟩
  · obtain ⟨view', hview', hd, ht⟩ := shows_iff.mp hw
    obtain ⟨view'', hview'', hd', ht'⟩ := shows_iff.mp hw'
    exact hs.distinct w w' position' (shows_of_set_checked hview hview' hd ht)
      (shows_of_set_checked hview hview'' hd' ht')

/-- Taking a view off the display keeps the invariant. -/
theorem inv_scrap {s : LabelFilter content} (hs : Inv s) (v : ℕ) : Inv (s.scrap v) := by
  have hviews : ∀ (w : ℕ) (view : LabelView), (s.scrap v).views[w]? = some view →
      view.displayed = true → s.views[w]? = some view := by
    intro w view hview hdisplayed
    rw [scrap, List.getElem?_modify] at hview
    obtain ⟨view', hview', rfl⟩ := Option.map_eq_some_iff.mp hview
    split_ifs at hdisplayed ⊢
    exact hview'
  refine ⟨hs.length, hs.selected,
    fun w view hview hd => hs.displayed w view (hviews w view hview hd) hd,
    fun w w' position hw hw' => ?_⟩
  obtain ⟨view, hview, hd, ht⟩ := shows_iff.mp hw
  obtain ⟨view', hview', hd', ht'⟩ := shows_iff.mp hw'
  exact hs.distinct w w' position (shows_iff.mpr ⟨view, hviews w view hview hd, hd, ht⟩)
    (shows_iff.mpr ⟨view', hviews w' view' hview' hd', hd', ht'⟩)

/-- **One event**: it goes through without an exception and keeps the invariant. -/
theorem Inv.step {s : LabelFilter content} (hs : Inv s) {e : Event content} (hE : s.Enabled e) :
    ∃ t, s.act e = some t ∧ Inv t := by
  cases e with
  | getView arg0 convertView =>
    obtain ⟨label, checked, hlabel, hchecked⟩ := hs.exists_entry hE.1
    exact ⟨_, getView_eq (group_lt hE) hlabel hchecked, inv_getView hs hE hchecked⟩
  | toggle v =>
    obtain ⟨view, position, label, hview, hd, htag, hlabel, hchecked⟩ := hs.exists_shown hE
    exact ⟨_, performClick_eq hview htag hlabel hchecked,
      inv_performClick hs hview hd htag hlabel hchecked⟩
  | scrap v => exact ⟨_, rfl, inv_scrap hs v⟩
  | returned labels => exact ⟨_, rfl, inv_returned s labels⟩

/-! ## Every run -/

theorem run_inv {labels : LabelSource content} {es : List (Event content)}
    {s : LabelFilter content} (h : run step (opened labels) es = some s) : Inv s := by
  refine run_induction (fun s e t hs hstep => ?_) (inv_opened labels) h
  unfold LabelFilter.step at hstep
  split_ifs at hstep with hE
  obtain ⟨t', ht', hinv⟩ := hs.step hE
  exact Option.some.inj (ht'.symm.trans hstep) ▸ hinv

/-- **The filter is the set of ticked labels**, after any run of the grid and the user; every event
goes through, and binding a view, fresh or recycled, neither selects nor deselects a label. -/
theorem run_inStep {labels : LabelSource content} {es : List (Event content)}
    {s : LabelFilter content} (h : run step (opened labels) es = some s) :
    InStep s ∧ (∀ e, s.Enabled e → (s.act e).isSome = true) ∧
      ∀ arg0 convertView t, s.step (.getView arg0 convertView) = some t →
        t.mChecked = s.mChecked ∧ t.mSelectedLabels = s.mSelectedLabels := by
  have hs := run_inv h
  refine ⟨hs.inStep, fun e hE => ?_, fun arg0 convertView t ht => ?_⟩
  · obtain ⟨t, ht, -⟩ := hs.step hE
    exact Option.isSome_iff_exists.mpr ⟨t, ht⟩
  · unfold LabelFilter.step at ht
    split_ifs at ht with hE
    obtain ⟨label, checked, hlabel, hchecked⟩ := hs.exists_entry hE.1
    obtain rfl := Option.some.inj ((getView_eq (group_lt hE) hlabel hchecked).symm.trans ht)
    exact ⟨rfl, rfl⟩

/-- The view of a ticked label is bound to another one: the first stays ticked and the box is
cleared. -/
theorem run_inStep_recycled :
    let labels : LabelSource fun n => [UInt8.ofNat n] := ⟨[0, 1, 2], by decide⟩
    ∃ s, run step (opened labels) [.getView 0 none, .toggle 0, .scrap 0, .getView 1 (some 0)]
        = some s ∧ s.mSelectedLabels = [0] ∧ s.views = [⟨some 1, false, true⟩] ∧ InStep s := by
  intro labels
  obtain ⟨s, hrun, hselected, hviews⟩ : ∃ s, run step (opened labels)
      [.getView 0 none, .toggle 0, .scrap 0, .getView 1 (some 0)] = some s ∧
      s.mSelectedLabels = [0] ∧ s.views = [⟨some 1, false, true⟩] := ⟨_, rfl, rfl, rfl⟩
  exact ⟨s, hrun, hselected, hviews, (run_inStep hrun).1⟩

end LabelFilter

end Kryptan
