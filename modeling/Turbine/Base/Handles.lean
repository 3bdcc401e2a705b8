import Mathlib.Logic.Function.Basic
import Turbine.Base.Runs

/-!
# Turbine.Base.Handles

Handles that may be used while they are open and never after they were closed, such as
file descriptors.  A table of handles is a system whose events are the uses of its
handles (`useHandle`), so a list of uses is in order exactly if the table can run it.

* `uses_of_run`: in a list that is in order, nothing follows the close of a handle.
-/

namespace Turbine.Base

inductive Use
  | read
  | write
  | close
deriving DecidableEq, Repr

variable {D : Type} [DecidableEq D]

/-- One use of a handle, by a table that knows which are open. -/
def useHandle (opened : D → Bool) (use : D × Use) : Option (D → Bool) :=
  if opened use.1 = true then
    match use.2 with
    | .close => some (Function.update opened use.1 false)
    | .read | .write => some opened
  else none

/-- What was done with a handle, in order. -/
def usesOf (d : D) (uses : List (D × Use)) : List Use :=
  (uses.filter fun use => use.1 = d).map Prod.snd

variable {opened opened' : D → Bool} {d : D} {use : D × Use} {uses : List (D × Use)}

theorem usesOf_cons_self (u : Use) : usesOf d ((d, u) :: uses) = u :: usesOf d uses := by
  simp [usesOf]

theorem usesOf_cons_of_ne (h : use.1 ≠ d) : usesOf d (use :: uses) = usesOf d uses := by
  simp [usesOf, h]

/-! ## the table's steps -/

theorem useHandle_close (h : opened d = true) :
    useHandle opened (d, .close) = some (Function.update opened d false) := by
  simp [useHandle, h]

theorem useHandle_of_ne_close {u : Use} (h : opened d = true) (hu : u ≠ .close) :
    useHandle opened (d, u) = some opened := by
  cases u with
  | close => exact absurd rfl hu
  | read => simp [useHandle, h]
  | write => simp [useHandle, h]

theorem opened_of_useHandle (h : useHandle opened use = some opened') : opened use.1 = true := by
  unfold useHandle at h
  split at h
  · assumption
  · cases h

/-- The other handles are as they were. -/
theorem useHandle_of_ne (h : useHandle opened use = some opened') (hd : d ≠ use.1) :
    opened' d = opened d := by
  obtain ⟨d', u⟩ := use
  have hopen := opened_of_useHandle h
  by_cases hu : u = .close
  · subst hu
    rw [useHandle_close hopen] at h
    obtain rfl := Option.some.inj h
    exact Function.update_of_ne hd ..
  · rw [useHandle_of_ne_close hopen hu] at h
    obtain rfl := Option.some.inj h
    rfl

/-! ## lists of uses -/

theorem uses_of_run_closed (h : run useHandle opened uses = some opened') (hd : opened d = false) :
    usesOf d uses = [] ∧ opened' d = false := by
  induction uses generalizing opened with
  | nil =>
    obtain rfl := Option.some.inj h
    exact ⟨rfl, hd⟩
  | cons use uses ih =>
    obtain ⟨opened₁, hfirst, hrest⟩ := run_cons_eq_some.1 h
    have hne : d ≠ use.1 := by
      rintro rfl
      rw [opened_of_useHandle hfirst] at hd
      cases hd
    have hd₁ : opened₁ d = false := by rw [useHandle_of_ne hfirst hne, hd]
    rw [usesOf_cons_of_ne (Ne.symm hne)]
    exact ih hrest hd₁

/-- Nothing follows the close of a handle, and a handle is closed at the end exactly if
one of its uses was a close. -/
theorem uses_of_run (h : run useHandle opened uses = some opened') (hd : opened d = true) :
    Use.close ∉ (usesOf d uses).dropLast ∧ (opened' d = false ↔ Use.close ∈ usesOf d uses) := by
  induction uses generalizing opened with
  | nil =>
    obtain rfl := Option.some.inj h
    simp [usesOf, hd]
  | cons use uses ih =>
    obtain ⟨opened₁, hfirst, hrest⟩ := run_cons_eq_some.1 h
    by_cases hne : d = use.1
    · obtain ⟨d', u⟩ := use
      obtain rfl : d = d' := hne
      rw [usesOf_cons_self]
      by_cases hu : u = .close
      · -- the handle is closed now, so this was its last use
        subst hu
        rw [useHandle_close hd] at hfirst
        obtain rfl := Option.some.inj hfirst
        obtain ⟨hnone, hclosed⟩ := uses_of_run_closed hrest (Function.update_self ..)
        simp [hnone, hclosed]
      · rw [useHandle_of_ne_close hd hu] at hfirst
        obtain rfl := Option.some.inj hfirst
        obtain ⟨hlast, hclosed⟩ := ih hrest hd
        have hu' : Use.close ≠ u := Ne.symm hu
        refine ⟨?_, by simp [hclosed, hu']⟩
        cases huses : usesOf d uses with
        | nil => simp
        | cons v vs =>
          rw [huses] at hlast
          simp [hu', hlast]
    · have hd₁ : opened₁ d = true := by rw [useHandle_of_ne hfirst hne, hd]
      rw [usesOf_cons_of_ne (Ne.symm hne)]
      exact ih hrest hd₁

theorem count_close_eq_one {l : List Use} (hlast : Use.close ∉ l.dropLast) (hclose : Use.close ∈ l) :
    l.count .close = 1 := by
  have hne : l ≠ [] := List.ne_nil_of_mem hclose
  have hl := List.dropLast_append_getLast hne
  rw [← hl, List.mem_append] at hclose
  have hend : l.getLast hne = .close := by simpa [hlast, eq_comm] using hclose
  rw [← hl, List.count_append, List.count_eq_zero_of_not_mem hlast, hend]
  rfl

end Turbine.Base
