import Mathlib.Data.Sum.Basic

/-!
# Turbine.Base.Loops

Loops over a stream of which every turn that goes on takes something.  Such a
loop ends on every input, so `Loop.run` is a total function; it is executed by
structural recursion on a bound of the input's length.

* `run_induction`: what every last turn gives and every other turn passes on
  holds of the result;
* `run_rel`: two loops whose turns correspond have corresponding results.
-/

namespace Turbine.Base

variable {α σ σ' ρ ρ' : Type}

/-- A loop with variables `σ` over an input of `α`s.  A turn ends the loop with a
result, or leaves new variables and a shorter input. -/
structure Loop (α σ ρ : Type) where
  turn : σ → List α → (σ × List α) ⊕ ρ
  shorter : ∀ s input s' rest, turn s input = .inl (s', rest) → rest.length < input.length

/-- A turn that may fail, as a turn of a loop that a failure ends. -/
def settle {ε τ : Type} : Except ε (τ ⊕ ρ) → τ ⊕ Except ε ρ
  | .error e => .inr (.error e)
  | .ok (.inl next) => .inl next
  | .ok (.inr r) => .inr (.ok r)

theorem settle_eq_inl {ε τ : Type} {turn : Except ε (τ ⊕ ρ)} {next : τ} :
    settle turn = .inl next ↔ turn = .ok (.inl next) := by
  rcases turn with e | next' | r <;> simp [settle]

namespace Loop

/-- The loop, with a bound on the length of its input. -/
def go (l : Loop α σ ρ) : (n : Nat) → (s : σ) → (input : List α) → input.length < n → ρ
  | 0, _, _, h => absurd h (Nat.not_lt_zero _)
  | n + 1, s, input, h =>
    match hturn : l.turn s input with
    | .inl (s', rest) =>
      l.go n s' rest (Nat.lt_of_lt_of_le (l.shorter _ _ _ _ hturn) (Nat.le_of_lt_succ h))
    | .inr r => r

/-- The result of the loop. -/
def run (l : Loop α σ ρ) (s : σ) (input : List α) : ρ :=
  l.go (input.length + 1) s input (Nat.lt_succ_self _)

variable {l : Loop α σ ρ} {l' : Loop α σ' ρ'} {s s' : σ} {input rest : List α} {r : ρ}

theorem go_more {n : Nat} (h : input.length < n + 1) (hrest : rest.length < n)
    (hturn : l.turn s input = .inl (s', rest)) : l.go (n + 1) s input h = l.go n s' rest hrest := by
  rw [go]
  split
  · next hturn' =>
      rw [hturn] at hturn'
      cases hturn'
      rfl
  · next hturn' =>
      rw [hturn] at hturn'
      cases hturn'

theorem go_done {n : Nat} (h : input.length < n + 1) (hturn : l.turn s input = .inr r) :
    l.go (n + 1) s input h = r := by
  rw [go]
  split
  · next hturn' =>
      rw [hturn] at hturn'
      cases hturn'
  · next hturn' =>
      rw [hturn] at hturn'
      cases hturn'
      rfl

/-- The bound does not matter. -/
theorem go_eq_run {n : Nat} (h : input.length < n) : l.go n s input h = l.run s input := by
  suffices hany : ∀ m (h' : input.length < m), l.go n s input h = l.go m s input h' from hany _ _
  induction n generalizing s input with
  | zero => exact absurd h (Nat.not_lt_zero _)
  | succ n ih =>
    intro m h'
    cases m with
    | zero => exact absurd h' (Nat.not_lt_zero _)
    | succ m =>
      cases hturn : l.turn s input with
      | inl next =>
        obtain ⟨s₁, rest⟩ := next
        have hlt := l.shorter _ _ _ _ hturn
        have hn : rest.length < n := by omega
        have hm : rest.length < m := by omega
        rw [go_more h hn hturn, go_more h' hm hturn]
        exact ih hn m hm
      | inr r => rw [go_done h hturn, go_done h' hturn]

theorem run_more (hturn : l.turn s input = .inl (s', rest)) : l.run s input = l.run s' rest := by
  have hlt := l.shorter _ _ _ _ hturn
  rw [run, go_more _ hlt hturn, go_eq_run]

theorem run_done (hturn : l.turn s input = .inr r) : l.run s input = r := go_done _ hturn

/-- **Loop rule.**  What the last turn gives, and what every other turn passes back
from the rest of the loop, holds of the result. -/
theorem run_induction {P : σ → List α → ρ → Prop}
    (done : ∀ s input r, l.turn s input = .inr r → P s input r)
    (more : ∀ s input s' rest r, l.turn s input = .inl (s', rest) → P s' rest r → P s input r)
    (s : σ) (input : List α) : P s input (l.run s input) := by
  suffices hgo : ∀ n s input (h : input.length < n), P s input (l.go n s input h) from
    hgo _ s input _
  intro n
  induction n with
  | zero => exact fun _ _ h => absurd h (Nat.not_lt_zero _)
  | succ n ih =>
    intro s input h
    cases hturn : l.turn s input with
    | inl next =>
      obtain ⟨s', rest⟩ := next
      have hlt := l.shorter _ _ _ _ hturn
      have hrest : rest.length < n := by omega
      rw [go_more h hrest hturn]
      exact more s input s' rest _ hturn (ih s' rest hrest)
    | inr r =>
      rw [go_done h hturn]
      exact done s input r hturn

/-- **Simulation rule.**  Loops whose turns correspond have corresponding results. -/
theorem run_rel {S : σ → σ' → Prop} {R : ρ → ρ' → Prop} (hturn : ∀ s s' input, S s s' →
      Sum.LiftRel (fun p q => S p.1 q.1 ∧ p.2 = q.2) R (l.turn s input) (l'.turn s' input))
    {s : σ} {s' : σ'} (hs : S s s') (input : List α) : R (l.run s input) (l'.run s' input) := by
  refine l.run_induction (P := fun s input r => ∀ s', S s s' → R r (l'.run s' input))
    ?_ ?_ s input s' hs
  · intro s input r hdone s' hs
    have hrel := hturn s s' input hs
    rw [hdone] at hrel
    cases hdone' : l'.turn s' input with
    | inl next =>
      rw [hdone'] at hrel
      cases hrel
    | inr r' =>
      rw [hdone'] at hrel
      cases hrel with
      | inr hR =>
        rw [run_done hdone']
        exact hR
  · intro s input s₁ rest r hmore ih s' hs
    have hrel := hturn s s' input hs
    rw [hmore] at hrel
    cases hmore' : l'.turn s' input with
    | inl next =>
      obtain ⟨s₁', rest'⟩ := next
      rw [hmore'] at hrel
      cases hrel with
      | inl hS =>
        obtain ⟨hS, rfl⟩ := hS
        rw [run_more hmore']
        exact ih s₁' hS
    | inr r' =>
      rw [hmore'] at hrel
      cases hrel

end Loop

end Turbine.Base
