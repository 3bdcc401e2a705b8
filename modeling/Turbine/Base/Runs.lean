import Mathlib.Data.List.Basic

/-!
# Turbine.Base.Runs

Runs of a system whose atomic steps are given by a partial function
`step : σ → ε → Option σ`: an event that is not enabled has no successor.
A run is a list of events, so an interleaving of several threads is simply a
run of the combined system.

* `run` executes a list of events;
* `Along` says that every step of a run satisfies a relation, `Guarded` that
  every step is taken in a state meeting a condition, `Sometime` that some
  step satisfies a relation;
* `invariant_of_guarded`, `along_of_guarded` and `along_iff_guarded` are the rules
  by which a statement about whole runs is reduced to a statement about one step;
* `trace` collects what the steps of a run record, and `invariant_of_trace` is the
  invariant rule for the state together with the record.
-/

namespace Turbine.Base

variable {σ ε α : Type} {step : σ → ε → Option σ}

/-- Execute the events in order; `none` as soon as one is not enabled. -/
def run (step : σ → ε → Option σ) : σ → List ε → Option σ
  | s, [] => some s
  | s, e :: es => (step s e).bind fun s' => run step s' es

/-- Every step of the run from `s` satisfies `R`. -/
def Along (step : σ → ε → Option σ) (R : σ → ε → σ → Prop) : σ → List ε → Prop
  | _, [] => True
  | s, e :: es => ∀ s', step s e = some s' → R s e s' ∧ Along step R s' es

/-- Every step of the run from `s` is taken in a state meeting `G`. -/
def Guarded (step : σ → ε → Option σ) (G : σ → ε → Prop) (s : σ) (es : List ε) : Prop :=
  Along step (fun s e _ => G s e) s es

/-- Some step of the run from `s` satisfies `R`. -/
def Sometime (step : σ → ε → Option σ) (R : σ → ε → σ → Prop) : σ → List ε → Prop
  | _, [] => False
  | s, e :: es => ∃ s', step s e = some s' ∧ (R s e s' ∨ Sometime step R s' es)

/-- What the steps of the run from `s` record, in order. -/
def trace (step : σ → ε → Option σ) (record : σ → ε → List α) : σ → List ε → List α
  | _, [] => []
  | s, e :: es =>
    match step s e with
    | some s' => record s e ++ trace step record s' es
    | none => []

/-- Whether a decidable relation holds along a run can be evaluated. -/
instance Along.decidable {R : σ → ε → σ → Prop} [∀ s e s', Decidable (R s e s')] :
    (s : σ) → (es : List ε) → Decidable (Along step R s es)
  | _, [] => .isTrue trivial
  | s, e :: es =>
    match h : step s e with
    | none => .isTrue fun s' hs => by simp [h] at hs
    | some s' =>
      have : Decidable (Along step R s' es) := Along.decidable s' es
      decidable_of_iff (R s e s' ∧ Along step R s' es) (by simp [Along, h])

instance {G : σ → ε → Prop} [∀ s e, Decidable (G s e)] (s : σ) (es : List ε) :
    Decidable (Guarded step G s es) :=
  inferInstanceAs (Decidable (Along step (fun s e _ => G s e) s es))

/-- Whether a decidable relation holds at some step of a run can be evaluated. -/
instance Sometime.decidable {R : σ → ε → σ → Prop} [∀ s e s', Decidable (R s e s')] :
    (s : σ) → (es : List ε) → Decidable (Sometime step R s es)
  | _, [] => .isFalse id
  | s, e :: es =>
    match h : step s e with
    | none => .isFalse fun ⟨s', hs, _⟩ => by simp [h] at hs
    | some s' =>
      have : Decidable (Sometime step R s' es) := Sometime.decidable s' es
      decidable_of_iff (R s e s' ∨ Sometime step R s' es) (by simp [Sometime, h])

/-! ## executing runs -/

@[simp] theorem run_nil (s : σ) : run step s [] = some s := rfl

/-- A run starts with an enabled event. -/
theorem run_cons_eq_some {s t : σ} {e : ε} {es : List ε} :
    run step s (e :: es) = some t ↔ ∃ s', step s e = some s' ∧ run step s' es = some t := by
  simp only [run, Option.bind_eq_some_iff]

theorem run_append {s : σ} (es fs : List ε) :
    run step s (es ++ fs) = (run step s es).bind fun s' => run step s' fs := by
  induction es generalizing s with
  | nil => rfl
  | cons e es ih =>
    cases h : step s e with
    | none => simp [run, h]
    | some s' => simp [run, h, ih]

/-! ## conditions along a run -/

theorem guarded_cons {G : σ → ε → Prop} {s s' : σ} {e : ε} {es : List ε} (hs : step s e = some s') :
    Guarded step G s (e :: es) ↔ G s e ∧ Guarded step G s' es := by
  simp [Guarded, Along, hs]

theorem along_cons {R : σ → ε → σ → Prop} {s s' : σ} {e : ε} {es : List ε}
    (hs : step s e = some s') : Along step R s (e :: es) ↔ R s e s' ∧ Along step R s' es := by
  simp [Along, hs]

theorem guarded_append {G : σ → ε → Prop} {s s' : σ} {es fs : List ε}
    (hrun : run step s es = some s') :
    Guarded step G s (es ++ fs) ↔ Guarded step G s es ∧ Guarded step G s' fs := by
  induction es generalizing s with
  | nil =>
    simp only [run_nil, Option.some.injEq] at hrun
    subst hrun
    simp [Guarded, Along]
  | cons e es ih =>
    obtain ⟨s₁, hs, hrun⟩ := run_cons_eq_some.1 hrun
    rw [List.cons_append, guarded_cons hs, guarded_cons hs, ih hrun, and_assoc]

theorem guarded_of_forall {G : σ → ε → Prop} (hG : ∀ s e, G s e) {s : σ} {es : List ε} :
    Guarded step G s es := by
  induction es generalizing s with
  | nil => trivial
  | cons e es ih => exact fun s' _ => ⟨hG s e, ih⟩

theorem guarded_of_mem {P : ε → Prop} {s : σ} {es : List ε} (h : ∀ e ∈ es, P e) :
    Guarded step (fun _ e => P e) s es := by
  induction es generalizing s with
  | nil => trivial
  | cons e es ih =>
    obtain ⟨he, hes⟩ := List.forall_mem_cons.1 h
    exact fun s' _ => ⟨he, ih hes⟩

theorem Guarded.and {G H : σ → ε → Prop} {s : σ} {es : List ε} (hG : Guarded step G s es)
    (hH : Guarded step H s es) : Guarded step (fun s e => G s e ∧ H s e) s es := by
  induction es generalizing s with
  | nil => trivial
  | cons e es ih =>
    intro s' hs
    exact ⟨⟨(hG s' hs).1, (hH s' hs).1⟩, ih (hG s' hs).2 (hH s' hs).2⟩

/-- **Invariant rule.**  What holds at the start and is preserved by every
step meeting `G` holds at the end of every run whose steps all meet `G`. -/
theorem invariant_of_guarded {I : σ → Prop} {G : σ → ε → Prop}
    (hstep : ∀ s e s', I s → G s e → step s e = some s' → I s')
    {s t : σ} {es : List ε} (h0 : I s) (hg : Guarded step G s es)
    (hrun : run step s es = some t) : I t := by
  induction es generalizing s with
  | nil => simp_all
  | cons e es ih =>
    obtain ⟨s', hs, hrun⟩ := run_cons_eq_some.1 hrun
    obtain ⟨hG, hg⟩ := (guarded_cons hs).1 hg
    exact ih (hstep s e s' h0 hG hs) hg hrun

theorem invariant_of_run {I : σ → Prop} (hstep : ∀ s e s', I s → step s e = some s' → I s')
    {s t : σ} {es : List ε} (h0 : I s) (hrun : run step s es = some t) : I t := by
  induction es generalizing s with
  | nil => simp_all
  | cons e es ih =>
    obtain ⟨s', hs, hrun⟩ := run_cons_eq_some.1 hrun
    exact ih (hstep s e s' h0 hs) hrun

theorem trace_cons {record : σ → ε → List α} {s s' : σ} {e : ε} {es : List ε}
    (hs : step s e = some s') :
    trace step record s (e :: es) = record s e ++ trace step record s' es := by
  simp [trace, hs]

theorem trace_events {s t : σ} {es : List ε} (hrun : run step s es = some t) :
    trace step (fun _ e => [e]) s es = es := by
  induction es generalizing s with
  | nil => rfl
  | cons e es ih =>
    obtain ⟨s', hs, hrun⟩ := run_cons_eq_some.1 hrun
    rw [trace_cons hs, ih hrun, List.singleton_append]

/-- **Record rule.**  What holds of the state and an empty record, and is preserved
when a step meeting `G` extends the record, holds at the end of every run whose steps
all meet `G`, of the state and all that was recorded. -/
theorem invariant_of_guarded_trace {I : σ → List α → Prop} {G : σ → ε → Prop}
    {record : σ → ε → List α}
    (hstep : ∀ s log e s', I s log → G s e → step s e = some s' → I s' (log ++ record s e))
    {s t : σ} {es : List ε} (h0 : I s []) (hg : Guarded step G s es)
    (hrun : run step s es = some t) : I t (trace step record s es) := by
  suffices h : ∀ {s : σ} {log : List α}, I s log → Guarded step G s es →
      run step s es = some t → I t (log ++ trace step record s es) from h h0 hg hrun
  clear h0 hg hrun
  induction es with
  | nil =>
    intro s log hI _ hrun
    obtain rfl := Option.some.inj hrun
    rwa [trace, List.append_nil]
  | cons e es ih =>
    intro s log hI hg hrun
    obtain ⟨s', hs, hrun⟩ := run_cons_eq_some.1 hrun
    obtain ⟨hG, hg⟩ := (guarded_cons hs).1 hg
    rw [trace_cons hs, ← List.append_assoc]
    exact ih (hstep s log e s' hI hG hs) hg hrun

/-- The record rule for a step function whose steps need no condition. -/
theorem invariant_of_trace {I : σ → List α → Prop} {record : σ → ε → List α}
    (hstep : ∀ s log e s', I s log → step s e = some s' → I s' (log ++ record s e))
    {s t : σ} {es : List ε} (h0 : I s []) (hrun : run step s es = some t) :
    I t (trace step record s es) :=
  invariant_of_guarded_trace (G := fun _ _ => True) (fun s log e s' hI _ => hstep s log e s' hI) h0
    (guarded_of_forall fun _ _ => trivial) hrun

/-- **Property rule.**  When a step that meets `G` keeps an invariant and has the
property `R`, a run whose steps all meet `G` has the property at every step. -/
theorem along_of_guarded {I : σ → Prop} {G : σ → ε → Prop} {R : σ → ε → σ → Prop}
    (hstep : ∀ s e s', I s → G s e → step s e = some s' → I s' ∧ R s e s')
    {s : σ} {es : List ε} (h0 : I s) (hg : Guarded step G s es) : Along step R s es := by
  induction es generalizing s with
  | nil => trivial
  | cons e es ih =>
    intro s' hs
    obtain ⟨hG, hg⟩ := (guarded_cons hs).1 hg
    obtain ⟨hI, hR⟩ := hstep s e s' h0 hG hs
    exact ⟨hR, ih hI hg⟩

theorem along_of_run {I : σ → Prop} {R : σ → ε → σ → Prop}
    (hstep : ∀ s e s', I s → step s e = some s' → I s' ∧ R s e s')
    {s : σ} {es : List ε} (h0 : I s) : Along step R s es :=
  along_of_guarded (G := fun _ _ => True) (fun s e s' hI _ => hstep s e s' hI) h0
    (guarded_of_forall fun _ _ => trivial)

/-- **Exactness rule.**  When, in the states satisfying an invariant, a step
has the property `R` exactly if it meets `G`, a whole run has the property at
every step exactly if all its steps meet `G`. -/
theorem along_iff_guarded {I : σ → Prop} {G : σ → ε → Prop} {R : σ → ε → σ → Prop}
    (hinv : ∀ s e s', I s → G s e → step s e = some s' → I s')
    (hiff : ∀ s e s', I s → step s e = some s' → (R s e s' ↔ G s e))
    {s : σ} {es : List ε} (h0 : I s) : Along step R s es ↔ Guarded step G s es := by
  induction es generalizing s with
  | nil => simp [Along, Guarded]
  | cons e es ih =>
    cases hs : step s e with
    | none => simp [Along, Guarded, hs]
    | some s' =>
      rw [along_cons hs, guarded_cons hs, hiff s e s' h0 hs]
      constructor
      · rintro ⟨hG, hR⟩
        exact ⟨hG, (ih (hinv s e s' h0 hG hs)).1 hR⟩
      · rintro ⟨hG, hg⟩
        exact ⟨hG, (ih (hinv s e s' h0 hG hs)).2 hg⟩

end Turbine.Base
