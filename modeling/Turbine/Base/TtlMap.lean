import Mathlib.Logic.Function.Basic

/-!
# Turbine.Base.TtlMap

Maps whose values may end at a deadline.  A value that has ended is as good as absent,
so two maps may differ in such values and still agree (`TtlMap.Agree`): now and, since
values only end, at all later times (`Agree.later`).
-/

namespace Turbine.Base

/-- A value, with the moment at which it ends if it ever does. -/
structure Timed (ν : Type) where
  value : ν
  deadline : Option Nat
deriving DecidableEq, Repr

/-- The value has not ended. -/
def Timed.live {ν : Type} (now : Nat) (x : Timed ν) : Bool :=
  match x.deadline with
  | some deadline => now < deadline
  | none => true

def TtlMap (κ ν : Type) := κ → Option (Timed ν)

namespace TtlMap

variable {κ ν : Type} {m m' m'' : TtlMap κ ν} {now after : Nat} {k : κ}

/-- What is there of the key. -/
def visible (m : TtlMap κ ν) (now : Nat) (k : κ) : Option (Timed ν) := (m k).filter (Timed.live now)

/-- Store a value under the key, or take it out. -/
def put [DecidableEq κ] (m : TtlMap κ ν) (key : κ) (x : Option (Timed ν)) : TtlMap κ ν :=
  Function.update m key x

/-- The maps show the same. -/
def Agree (now : Nat) (m m' : TtlMap κ ν) : Prop := ∀ k, m.visible now k = m'.visible now k

theorem Agree.refl : Agree now m m := fun _ => rfl

theorem Agree.trans (h : Agree now m m') (h' : Agree now m' m'') : Agree now m m'' :=
  fun k => (h k).trans (h' k)

theorem live_of_le {x : Timed ν} (hle : now ≤ after) (h : x.live after = true) :
    x.live now = true := by
  rw [Timed.live] at h ⊢
  split
  case h_1 deadline hdeadline =>
    rw [hdeadline] at h
    simp only [decide_eq_true_eq] at h ⊢
    omega
  case h_2 => rfl

/-- What is there later is there now. -/
theorem visible_later (hle : now ≤ after) :
    m.visible after k = (m.visible now k).filter (Timed.live after) := by
  rw [visible, visible]
  cases m k with
  | none => rfl
  | some x =>
    cases hnow : x.live now with
    | true => rw [Option.filter_some_pos hnow]
    | false =>
      have hlater : x.live after = false :=
        Bool.eq_false_iff.2 fun h => by simp [live_of_le hle h] at hnow
      rw [Option.filter_some_neg (by simp [hlater]), Option.filter_some_neg (by simp [hnow]),
        Option.filter_none]

/-- **Agreement lasts.** -/
theorem Agree.later (h : Agree now m m') (hle : now ≤ after) : Agree after m m' := by
  intro k
  rw [visible_later hle, visible_later hle, h k]

section Put

variable [DecidableEq κ] {key : κ} {x : Option (Timed ν)}

theorem put_self : m.put key x key = x := Function.update_self ..

theorem put_ne (h : k ≠ key) : m.put key x k = m k := Function.update_of_ne h ..

theorem visible_put :
    (m.put key x).visible now k =
      if k = key then x.filter (Timed.live now) else m.visible now k := by
  rw [visible]
  split
  case isTrue hk => rw [hk, put_self]
  case isFalse hk => rw [put_ne hk, visible]

theorem Agree.put (h : Agree now m m') : Agree now (m.put key x) (m'.put key x) := by
  intro k
  rw [visible_put, visible_put, h k]

end Put

end TtlMap

end Turbine.Base
