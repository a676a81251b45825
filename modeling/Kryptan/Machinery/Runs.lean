import Mathlib.Data.List.Basic
import Mathlib.Data.Option.Basic

/-!
# Machinery/Runs — words of events, run through a guarded step function

    s₀ ──e₁──▸ s₁ ──e₂──▸ … ──eₙ──▸ sₙ

A system is a function `step : σ → ε → Option σ`: `none` says the event is not enabled.  Everything
that is not determined (the environment, the scheduler) is in the event, so a word of events is a
run.  Three readings of a word are used below:

* `run` — the state it ends in;
* `AllStates Q` — `Q` holds of every state on the way, the two ends included;
* `AllSteps P` — `P` holds of every step on the way, as a relation between the state before it and
  its event.

`allStates_iff_allSteps` is the rule of a system that is right exactly as long as its steps are.
-/

namespace Kryptan.Runs

variable {σ ε : Type*} {step : σ → ε → Option σ}

/-- The state a word of events ends in, `none` once an event on the way is not enabled. -/
def run (step : σ → ε → Option σ) (s : σ) : List ε → Option σ
  | [] => some s
  | e :: es => (step s e).bind fun t => run step t es

/-- `Q` holds of every state of the run. -/
def AllStates (step : σ → ε → Option σ) (Q : σ → Prop) : σ → List ε → Prop
  | s, [] => Q s
  | s, e :: es => Q s ∧ ∀ t, step s e = some t → AllStates step Q t es

/-- `P` holds of every enabled step of the run: of the state it is taken in and its event. -/
def AllSteps (step : σ → ε → Option σ) (P : σ → ε → Prop) : σ → List ε → Prop
  | _, [] => True
  | s, e :: es => ∀ t, step s e = some t → P s e ∧ AllSteps step P t es

/-- On a concrete word the steps can be checked. -/
instance AllSteps.decidable {P : σ → ε → Prop} [∀ s e, Decidable (P s e)] :
    ∀ s es, Decidable (AllSteps step P s es)
  | _, [] => isTrue trivial
  | s, e :: es =>
    match h : step s e with
    | none => isTrue fun t ht => absurd (h.symm.trans ht) (Option.some_ne_none t).symm
    | some t =>
      have := AllSteps.decidable (P := P) t es
      decidable_of_iff (P s e ∧ AllSteps step P t es)
        ⟨fun hP _ hu => Option.some.inj (h.symm.trans hu) ▸ hP, fun hP => hP t h⟩

/-! ## The end of a run -/

theorem run_cons (s : σ) (e : ε) (es : List ε) :
    run step s (e :: es) = (step s e).bind fun t => run step t es := rfl

/-- A run that goes through starts with an enabled step. -/
theorem run_cons_eq_some {s u : σ} {e : ε} {es : List ε} :
    run step s (e :: es) = some u ↔ ∃ t, step s e = some t ∧ run step t es = some u := by
  rw [run_cons, Option.bind_eq_some_iff]

/-- A run of two words goes through the state between them. -/
theorem run_append_eq_some {s u : σ} {es fs : List ε} :
    run step s (es ++ fs) = some u ↔ ∃ t, run step s es = some t ∧ run step t fs = some u := by
  induction es generalizing s with
  | nil => exact ⟨fun h => ⟨s, rfl, h⟩, fun ⟨t, ht, h⟩ => Option.some.inj ht ▸ h⟩
  | cons e es ih =>
    rw [List.cons_append, run_cons_eq_some]
    constructor
    · rintro ⟨t, ht, h⟩
      obtain ⟨v, hv, hu⟩ := ih.mp h
      exact ⟨v, run_cons_eq_some.mpr ⟨t, ht, hv⟩, hu⟩
    · rintro ⟨v, hv, hu⟩
      obtain ⟨t, ht, h⟩ := run_cons_eq_some.mp hv
      exact ⟨t, ht, ih.mpr ⟨v, h, hu⟩⟩

/-- **The invariant rule**: what one step preserves, a whole run preserves. -/
theorem run_induction {I : σ → Prop} (hstep : ∀ s e t, I s → step s e = some t → I t)
    {s : σ} (hs : I s) {es : List ε} {t : σ} (h : run step s es = some t) : I t := by
  induction es generalizing s with
  | nil => exact Option.some.inj h ▸ hs
  | cons e es ih =>
    obtain ⟨u, hu, ht⟩ := run_cons_eq_some.mp h
    exact ih (hstep s e u hs hu) ht

/-! ## Every state of a run -/

theorem AllStates.head {Q : σ → Prop} {s : σ} {es : List ε} (h : AllStates step Q s es) : Q s := by
  cases es with
  | nil => exact h
  | cons e es => exact h.1

/-- **Every state of a run is the end of one of its prefixes.** -/
theorem allStates_iff_prefix {Q : σ → Prop} {s : σ} {es : List ε} :
    AllStates step Q s es ↔ ∀ fs, fs <+: es → ∀ t, run step s fs = some t → Q t := by
  induction es generalizing s with
  | nil =>
    refine ⟨fun h fs hfs t ht => ?_, fun h => h [] (List.prefix_refl _) s rfl⟩
    rw [List.prefix_nil.mp hfs] at ht
    exact Option.some.inj ht ▸ h
  | cons e es ih =>
    constructor
    · intro h fs hfs t ht
      cases fs with
      | nil => exact Option.some.inj ht ▸ h.1
      | cons f fs =>
        obtain ⟨rfl, hfs'⟩ := List.cons_prefix_cons.mp hfs
        obtain ⟨u, hu, hrun⟩ := run_cons_eq_some.mp ht
        exact ih.mp (h.2 u hu) fs hfs' t hrun
    · intro h
      refine ⟨h [] List.nil_prefix s rfl, fun t ht => ih.mpr fun fs hfs u hu => ?_⟩
      exact h (e :: fs) (List.cons_prefix_cons.mpr ⟨rfl, hfs⟩) u
        (run_cons_eq_some.mpr ⟨t, ht, hu⟩)

/-- What holds of every state of a run holds of its end. -/
theorem AllStates.of_run {Q : σ → Prop} {s t : σ} {es : List ε} (h : AllStates step Q s es)
    (hrun : run step s es = some t) : Q t :=
  allStates_iff_prefix.mp h es (List.prefix_refl _) t hrun

/-! ## Every step of a run -/

/-- **The invariant rule of the well-behaved steps**: what every step meeting `P` preserves holds
of every state of a run whose steps all meet `P`. -/
theorem AllSteps.allStates {I : σ → Prop} {P : σ → ε → Prop}
    (hstep : ∀ s e t, I s → P s e → step s e = some t → I t) {s : σ} (hs : I s) {es : List ε}
    (h : AllSteps step P s es) : AllStates step I s es := by
  induction es generalizing s with
  | nil => exact hs
  | cons e es ih => exact ⟨hs, fun t ht => ih (hstep s e t hs (h t ht).1 ht) (h t ht).2⟩

/-- **The rule of a run that is kept a record of**: `I es s` is what holds of the state `s` that the
word `es` has led to, and every step that meets `P` keeps it, with its event at the end of the
word. -/
theorem AllSteps.run_record {I : List ε → σ → Prop} {P : σ → ε → Prop}
    (hstep : ∀ es s e t, I es s → P s e → step s e = some t → I (es ++ [e]) t) {s t : σ}
    {fs es : List ε} (hs : I fs s) (h : AllSteps step P s es) (hrun : run step s es = some t) :
    I (fs ++ es) t := by
  induction es generalizing fs s with
  | nil =>
    rw [List.append_nil]
    exact Option.some.inj hrun ▸ hs
  | cons e es ih =>
    obtain ⟨u, hu, hlast⟩ := run_cons_eq_some.mp hrun
    obtain ⟨hP, hrest⟩ := h u hu
    rw [List.append_cons]
    exact ih (hstep fs s e u hs hP hu) hrest hlast

/-- Two properties of the steps of a run are one. -/
theorem AllSteps.and {P P' : σ → ε → Prop} {s : σ} {es : List ε} (h : AllSteps step P s es)
    (h' : AllSteps step P' s es) : AllSteps step (fun s e => P s e ∧ P' s e) s es := by
  induction es generalizing s with
  | nil => trivial
  | cons e es ih => exact fun t ht => ⟨⟨(h t ht).1, (h' t ht).1⟩, ih (h t ht).2 (h' t ht).2⟩

/-- **The rule of what only grows**: a preorder that every step meeting `P` goes up in, from an
invariant, holds between any state of a run and its end. -/
theorem AllSteps.rel_of_prefix {I : σ → Prop} {P : σ → ε → Prop} {R : σ → σ → Prop}
    (hrefl : ∀ s, R s s) (htrans : ∀ s t u, R s t → R t u → R s u)
    (hstep : ∀ s e t, I s → P s e → step s e = some t → I t ∧ R s t) {s u v : σ} (hs : I s)
    {es fs : List ε} (h : AllSteps step P s es) (hfs : fs <+: es) (hu : run step s fs = some u)
    (hv : run step s es = some v) : R u v := by
  induction es generalizing s fs u with
  | nil =>
    rw [List.prefix_nil.mp hfs] at hu
    exact Option.some.inj (hu.symm.trans hv) ▸ hrefl u
  | cons e es ih =>
    obtain ⟨t, ht, hrun⟩ := run_cons_eq_some.mp hv
    obtain ⟨hP, hrest⟩ := h t ht
    obtain ⟨hI, hR⟩ := hstep s e t hs hP ht
    cases fs with
    | nil =>
      obtain rfl := Option.some.inj hu
      exact htrans s t v hR (ih hI hrest List.nil_prefix rfl hrun)
    | cons f fs =>
      obtain ⟨rfl, hfs'⟩ := List.cons_prefix_cons.mp hfs
      obtain ⟨t', ht', hu'⟩ := run_cons_eq_some.mp hu
      obtain rfl := Option.some.inj (ht.symm.trans ht')
      exact ih hI hrest hfs' hu' hrun

theorem AllStates.mono {Q Q' : σ → Prop} (hQ : ∀ s, Q s → Q' s) {s : σ} {es : List ε}
    (h : AllStates step Q s es) : AllStates step Q' s es := by
  induction es generalizing s with
  | nil => exact hQ s h
  | cons e es ih => exact ⟨hQ s h.1, fun t ht => ih (h.2 t ht)⟩

/-- **A system that is right exactly as long as its steps are.**  From an invariant, a step that
meets `P` keeps it and a step that does not leaves a state that is not right, so a run has only
right states exactly when all of its steps meet `P`.  The steps considered are those of a scenario
`N`; with `N` everything this is a statement about all runs. -/
theorem allStates_iff_allSteps {I Q : σ → Prop} {N P : σ → ε → Prop}
    (hstep : ∀ s e t, I s → N s e → P s e → step s e = some t → I t) (hQ : ∀ s, I s → Q s)
    (hbad : ∀ s e t, I s → N s e → ¬ P s e → step s e = some t → ¬ Q t) {s : σ} (hs : I s)
    {es : List ε} (hN : AllSteps step N s es) :
    AllStates step Q s es ↔ AllSteps step P s es := by
  induction es generalizing s with
  | nil => exact ⟨fun _ => trivial, fun _ => hQ s hs⟩
  | cons e es ih =>
    constructor
    · intro h t ht
      by_cases hP : P s e
      · exact ⟨hP, (ih (hstep s e t hs (hN t ht).1 hP ht) (hN t ht).2).mp (h.2 t ht)⟩
      · exact absurd (h.2 t ht).head (hbad s e t hs (hN t ht).1 hP ht)
    · intro h
      refine ⟨hQ s hs, fun t ht => ?_⟩
      exact (ih (hstep s e t hs (hN t ht).1 (h t ht).1 ht) (hN t ht).2).mpr (h t ht).2

/-- What holds of every event of a word holds of every step it makes. -/
theorem allSteps_of_forall_mem {P : ε → Prop} (s : σ) {es : List ε} (h : ∀ e ∈ es, P e) :
    AllSteps step (fun _ e => P e) s es := by
  induction es generalizing s with
  | nil => trivial
  | cons e es ih =>
    exact fun t _ => ⟨h e List.mem_cons_self, ih t fun e' he' => h e' (List.mem_cons_of_mem _ he')⟩

/-- Every step of every run meets the trivial scenario. -/
theorem allSteps_true (s : σ) (es : List ε) : AllSteps step (fun _ _ => True) s es := by
  induction es generalizing s with
  | nil => trivial
  | cons e es ih => exact fun t _ => ⟨trivial, ih t⟩

/-- **The rule of what is there for good**: what an event of `E` establishes, and every event keeps,
holds at the end of a run with such an event in it. -/
theorem run_establishes {I Q : σ → Prop} {N E : ε → Prop}
    (hstep : ∀ s e t, I s → N e → step s e = some t → I t ∧ (E e → Q t) ∧ (Q s → Q t)) {s t : σ}
    (hs : I s) {es : List ε} (hN : ∀ e ∈ es, N e) (hE : ∃ e ∈ es, E e)
    (h : run step s es = some t) : I t ∧ Q t := by
  obtain ⟨e, he, hEe⟩ := hE
  obtain ⟨es₁, es₂, rfl⟩ := List.append_of_mem he
  obtain ⟨u, hu, hrest⟩ := run_append_eq_some.mp h
  obtain ⟨v, hv, hlast⟩ := run_cons_eq_some.mp hrest
  have hIu : I u := ((allSteps_of_forall_mem s fun f hf => hN f (List.mem_append_left _ hf)).allStates
    (fun s f t hs hf ht => (hstep s f t hs hf ht).1) hs).of_run hu
  obtain ⟨hIv, hmade, -⟩ := hstep u e v hIu (hN e he) hv
  refine ((allSteps_of_forall_mem v fun f hf => hN f ?_).allStates
    (I := fun s => I s ∧ Q s) (fun s f t hs hf ht => ?_) ⟨hIv, hmade hEe⟩).of_run hlast
  · exact List.mem_append_right _ (List.mem_cons_of_mem _ hf)
  · obtain ⟨hI, -, hkept⟩ := hstep s f t hs.1 hf ht
    exact ⟨hI, hkept hs.2⟩

/-- …and so does, for each of many things to establish, a run with an event for each of them. -/
theorem run_establishes_all {κ : Type*} {I : σ → Prop} {Q : κ → σ → Prop} {N : ε → Prop}
    {D : κ → Prop} {E : κ → ε → Prop}
    (hstep : ∀ s e t, I s → N e → step s e = some t →
      I t ∧ ∀ k, D k → (E k e → Q k t) ∧ (Q k s → Q k t)) {s t : σ} (hs : I s) {es : List ε}
    (hN : ∀ e ∈ es, N e) (hE : ∀ k, D k → ∃ e ∈ es, E k e) (h : run step s es = some t) :
    I t ∧ ∀ k, D k → Q k t := by
  refine ⟨((allSteps_of_forall_mem s hN).allStates
    (fun s e t hs he ht => (hstep s e t hs he ht).1) hs).of_run h, fun k hk => ?_⟩
  refine (run_establishes (fun s e t hs he ht => ?_) hs hN (hE k hk) h).2
  obtain ⟨hI, hall⟩ := hstep s e t hs he ht
  exact ⟨hI, (hall k hk).1, (hall k hk).2⟩

/-! ## Two systems in step -/

/-- A relation between two outcomes can be weakened. -/
theorem rel_imp {τ : Type*} {R R' : σ → τ → Prop} (hR : ∀ s t, R s t → R' s t) {a : Option σ}
    {b : Option τ} (h : Option.Rel R a b) : Option.Rel R' a b := by
  cases h with
  | some h => exact .some (hR _ _ h)
  | none => exact .none

/-- **The rule of two systems in step**: if each event is enabled in both or in neither and takes
related states to related states, so does each word. -/
theorem run_rel {τ : Type*} {step' : τ → ε → Option τ} {R : σ → τ → Prop}
    (hstep : ∀ s t e, R s t → Option.Rel R (step s e) (step' t e)) {s : σ} {t : τ} (h : R s t)
    (es : List ε) : Option.Rel R (run step s es) (run step' t es) := by
  induction es generalizing s t with
  | nil => exact .some h
  | cons e es ih =>
    have hst := hstep s t e h
    rw [run_cons, run_cons]
    generalize step s e = u at hst ⊢
    generalize step' t e = v at hst ⊢
    cases hst with
    | some h' => exact ih h'
    | none => exact .none

/-- What one of two systems in step does, the other does too. -/
theorem exists_run_left {τ : Type*} {step' : τ → ε → Option τ} {R : σ → τ → Prop}
    (hstep : ∀ s t e, R s t → Option.Rel R (step s e) (step' t e)) {s u : σ} {t : τ} (h : R s t)
    {es : List ε} (hu : run step s es = some u) : ∃ v, run step' t es = some v ∧ R u v := by
  have hrel := run_rel hstep h es
  rw [hu] at hrel
  generalize run step' t es = v at hrel
  cases hrel with
  | some h' => exact ⟨_, rfl, h'⟩

/-- …and the other way round. -/
theorem exists_run_right {τ : Type*} {step' : τ → ε → Option τ} {R : σ → τ → Prop}
    (hstep : ∀ s t e, R s t → Option.Rel R (step s e) (step' t e)) {s : σ} {t v : τ} (h : R s t)
    {es : List ε} (hv : run step' t es = some v) : ∃ u, run step s es = some u ∧ R u v := by
  have hrel := run_rel hstep h es
  rw [hv] at hrel
  generalize run step s es = u at hrel
  cases hrel with
  | some h' => exact ⟨_, rfl, h'⟩

/-! ## What is bound to come -/

/-- `G` is bound to come if nothing but events of `E` happens: as long as it does not hold one of
these that is due is enabled, and whichever of `E` is next, `G` is still bound to come. -/
inductive Inevitable (step : σ → ε → Option σ) (due : ε → Prop) (E : σ → ε → Prop) (G : σ → Prop) :
    σ → Prop
  | here {s : σ} (h : G s) : Inevitable step due E G s
  | next {s : σ} (henabled : ∃ e t, due e ∧ E s e ∧ step s e = some t)
    (hnext : ∀ e t, E s e → step s e = some t → Inevitable step due E G t) :
    Inevitable step due E G s

/-- **The rule of what is bound to come**: a rank that goes down with every event until `G`
holds. -/
theorem inevitable_of_rank {I G : σ → Prop} {due : ε → Prop} {E : σ → ε → Prop} (rank : σ → ℕ)
    (henabled : ∀ s, I s → ∃ e t, due e ∧ E s e ∧ step s e = some t)
    (hnext : ∀ s e t, I s → E s e → step s e = some t → G t ∨ I t ∧ rank t < rank s) {s : σ}
    (hs : I s) : Inevitable step due E G s := by
  induction hrank : rank s using Nat.strongRecOn generalizing s with
  | ind n ih =>
    refine .next (henabled s hs) fun e t he ht => ?_
    rcases hnext s e t hs he ht with hG | ⟨hI, hlt⟩
    · exact .here hG
    · exact ih (rank t) (hrank ▸ hlt) hI rfl

end Kryptan.Runs
