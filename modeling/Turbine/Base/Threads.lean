import Mathlib.Data.List.Basic
import Mathlib.Logic.Relation
import Turbine.Base.Runs

/-!
# Turbine.Base.Threads

Any number of calls that run at the same time over one shared state, next to a clock
that only goes forward.  A call is known by its place in the list of all calls ever
made; `advance t` lets call `t` take its next atomic action.

* `Program.each_step`: the rule for what holds of every call.  The caller shows that the
  call that acts keeps it for itself, and that it keeps it for all others;
* `Program.run_alone`: a call that nobody comes in between is a chain of its own actions.
-/

namespace Turbine.Base.Threads

/-- A call and how far it has got. -/
structure Thread (ρ φ : Type) where
  request : ρ
  phase : φ
deriving DecidableEq, Repr

structure World (σ ρ φ : Type) where
  shared : σ
  clock : Nat := 0
  threads : List (Thread ρ φ) := []

inductive Event (ρ : Type)
  | tick (d : Nat)
  | call (request : ρ)
  | advance (t : Nat)
deriving DecidableEq, Repr

/-- Where every call starts, what its next action makes of the shared state and of its own
phase (`none` if it has to wait, or has returned), and which times the clock can show. -/
structure Program (σ ρ φ : Type) where
  start : φ
  act : World σ ρ φ → Thread ρ φ → Option (σ × φ)
  shows : Nat → Bool := fun _ => true

variable {σ ρ φ : Type}

/-- Call `t` has acted. -/
def World.acted (w : World σ ρ φ) (t : Nat) (θ : Thread ρ φ) (shared : σ) (phase : φ) :
    World σ ρ φ := { w with shared, threads := w.threads.set t { θ with phase } }

def Program.step (P : Program σ ρ φ) (w : World σ ρ φ) : Event ρ → Option (World σ ρ φ)
  | .tick d => if P.shows (w.clock + d) then some { w with clock := w.clock + d } else none
  | .call request => some { w with threads := w.threads ++ [⟨request, P.start⟩] }
  | .advance t =>
    match w.threads[t]? with
    | some θ => (P.act w θ).map fun next => w.acted t θ next.1 next.2
    | none => none

/-! ## one event -/

variable {P : Program σ ρ φ} {w w' : World σ ρ φ} {e : Event ρ} {t u : Nat} {θ θ' : Thread ρ φ}
  {shared : σ} {phase : φ}

/-- One event, by kind. -/
inductive Program.Step (P : Program σ ρ φ) (w : World σ ρ φ) : Event ρ → World σ ρ φ → Prop
  | tick {d : Nat} (hd : P.shows (w.clock + d) = true) :
      Step P w (.tick d) { w with clock := w.clock + d }
  | call {request : ρ} :
      Step P w (.call request) { w with threads := w.threads ++ [⟨request, P.start⟩] }
  | act {t : Nat} {θ : Thread ρ φ} {shared : σ} {phase : φ} (ht : w.threads[t]? = some θ)
      (hact : P.act w θ = some (shared, phase)) :
      Step P w (.advance t) (w.acted t θ shared phase)

/-- **Inversion.** -/
theorem Program.step_cases (h : P.step w e = some w') : P.Step w e w' := by
  cases e with
  | tick d =>
    simp only [step] at h
    split at h
    case isTrue hd =>
      obtain rfl := Option.some.inj h
      exact .tick hd
    case isFalse => cases h
  | call request =>
    obtain rfl := Option.some.inj h
    exact .call
  | advance t =>
    simp only [step] at h
    split at h
    case h_1 θ ht =>
      obtain ⟨⟨shared, phase⟩, hact, rfl⟩ := Option.map_eq_some_iff.1 h
      exact .act ht hact
    case h_2 => cases h

theorem Program.step_advance (ht : w.threads[t]? = some θ)
    (hact : P.act w θ = some (shared, phase)) :
    P.step w (.advance t) = some (w.acted t θ shared phase) := by
  simp only [step, ht, hact, Option.map_some]

theorem getElem?_acted (ht : w.threads[t]? = some θ) :
    (w.acted t θ shared phase).threads[u]? =
      if u = t then some { θ with phase } else w.threads[u]? := by
  obtain ⟨hlt, -⟩ := List.getElem?_eq_some_iff.1 ht
  rw [World.acted, List.getElem?_set]
  by_cases hu : t = u
  · rw [if_pos hu, if_pos hlt, if_pos hu.symm]
  · rw [if_neg hu, if_neg (Ne.symm hu)]

theorem Program.clock_le (h : P.step w e = some w') : w.clock ≤ w'.clock := by
  cases step_cases h with
  | tick => exact Nat.le_add_right ..
  | call => exact Nat.le_refl _
  | act => exact Nat.le_refl _

/-- `Q` holds of every call and its number. -/
def Each (Q : Nat → σ → Nat → Thread ρ φ → Prop) (w : World σ ρ φ) : Prop :=
  ∀ (t : Nat) (θ : Thread ρ φ), w.threads[t]? = some θ → Q t w.shared w.clock θ

/-- `Q` cannot be lost by the passing of time. -/
def Lasting (Q : Nat → σ → Nat → Thread ρ φ → Prop) : Prop :=
  ∀ t shared now after θ, now ≤ after → Q t shared now θ → Q t shared after θ

/-- **Rule for every call.**  Time keeps `Q`, a new call has it, and a call that acts keeps it
for itself and for the others. -/
theorem Program.each_step {Q : Nat → σ → Nat → Thread ρ φ → Prop} (htime : Lasting Q)
    (hstart : ∀ request, Q w.threads.length w.shared w.clock ⟨request, P.start⟩)
    (hact : ∀ t θ shared phase, e = .advance t → w.threads[t]? = some θ →
      P.act w θ = some (shared, phase) → Q t shared w.clock { θ with phase } ∧
        ∀ u θ', u ≠ t → w.threads[u]? = some θ' → Q u shared w.clock θ')
    (h : Each Q w) (hs : P.step w e = some w') : Each Q w' := by
  intro u θ hu
  cases step_cases hs with
  | tick => exact htime _ _ _ _ _ (Nat.le_add_right ..) (h u θ hu)
  | call =>
    rw [List.getElem?_append] at hu
    split at hu
    case isTrue => exact h u θ hu
    case isFalse hge =>
      obtain ⟨hlt, rfl⟩ := List.getElem?_eq_some_iff.1 hu
      rw [List.length_singleton] at hlt
      obtain rfl : u = w.threads.length := by omega
      simpa using hstart _
  | @act t θ₀ shared phase ht hacted =>
    obtain ⟨hown, hothers⟩ := hact t θ₀ shared phase rfl ht hacted
    rw [getElem?_acted ht] at hu
    split at hu
    case isTrue hut =>
      obtain rfl := Option.some.inj hu
      exact hut ▸ hown
    case isFalse hut => exact hothers u θ hut hu

/-! ## one call alone -/

/-- A call has joined the others, and has got to a shared state and a phase of its own. -/
def World.joined (w : World σ ρ φ) (request : ρ) (s : σ × φ) : World σ ρ φ :=
  { w with shared := s.1, threads := w.threads ++ [⟨request, s.2⟩] }

/-- What such a call does next. -/
def Program.Acts (P : Program σ ρ φ) (w : World σ ρ φ) (request : ρ) (s s' : σ × φ) : Prop :=
  P.act (w.joined request s) ⟨request, s.2⟩ = some s'

/-- It gets from one to the other by itself. -/
def Program.Alone (P : Program σ ρ φ) (w : World σ ρ φ) (request : ρ) : σ × φ → σ × φ → Prop :=
  Relation.ReflTransGen (P.Acts w request)

variable {request : ρ} {s s' : σ × φ}

theorem Program.step_joined (h : P.Acts w request s s') :
    P.step (w.joined request s) (.advance w.threads.length) = some (w.joined request s') := by
  have ht : (w.joined request s).threads[w.threads.length]? = some ⟨request, s.2⟩ := by
    simp [World.joined]
  rw [step_advance ht h]
  simp [World.joined, World.acted]

theorem Program.run_joined (h : P.Alone w request s s') :
    ∃ n, run P.step (w.joined request s) (List.replicate n (.advance w.threads.length)) =
      some (w.joined request s') := by
  induction h using Relation.ReflTransGen.head_induction_on with
  | refl => exact ⟨0, rfl⟩
  | head hacts _ ih =>
    obtain ⟨n, hrun⟩ := ih
    exact ⟨n + 1, run_cons_eq_some.2 ⟨_, step_joined hacts, hrun⟩⟩

/-- **A call that runs alone.** -/
theorem Program.run_alone (h : P.Alone w request (w.shared, P.start) s) :
    ∃ n, run P.step w (.call request :: List.replicate n (.advance w.threads.length)) =
      some (w.joined request s) := by
  obtain ⟨n, hrun⟩ := run_joined h
  exact ⟨n, run_cons_eq_some.2 ⟨_, rfl, hrun⟩⟩

end Turbine.Base.Threads
