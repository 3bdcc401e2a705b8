import Mathlib.Algebra.Order.BigOperators.Group.List
import Mathlib.Algebra.Order.Ring.Nat

/-!
# Turbine.Base.Ranks

Ranks in a list of weights, such as the counts of a histogram: `reach` is the first
position at which the running sum reaches a rank.

* `reach_mono`: a higher rank is not reached earlier;
* `pos_of_reach`, `reach_sum_take`: the positions that are reached are those with a
  weight.
-/

namespace Turbine.Base

/-- The first position at which the running sum reaches the rank, and the length of the
list where it never does. -/
def reach : List Nat → Nat → Nat
  | [], _ => 0
  | w :: ws, rank => if rank ≤ w then 0 else reach ws (rank - w) + 1

variable {ws : List Nat} {rank rank' : Nat}

@[simp]
theorem reach_zero (ws : List Nat) : reach ws 0 = 0 := by
  cases ws <;> simp [reach]

theorem reach_mono (h : rank ≤ rank') : reach ws rank ≤ reach ws rank' := by
  induction ws generalizing rank rank' with
  | nil => rfl
  | cons w ws ih =>
    simp only [reach]
    split
    case isTrue => exact Nat.zero_le _
    case isFalse hw =>
      rw [if_neg (by omega)]
      exact Nat.succ_le_succ (ih (by omega))

theorem reach_lt_length (hpos : 0 < rank) (h : rank ≤ ws.sum) : reach ws rank < ws.length := by
  induction ws generalizing rank with
  | nil => exact absurd h (by simpa using hpos.ne')
  | cons w ws ih =>
    rw [List.sum_cons] at h
    simp only [reach]
    split
    case isTrue => exact Nat.zero_lt_succ _
    case isFalse hw => exact Nat.succ_lt_succ (ih (by omega) (by omega))

/-- Where a rank is reached there is a weight. -/
theorem pos_of_reach {w : Nat} (hpos : 0 < rank) (h : ws[reach ws rank]? = some w) : 0 < w := by
  induction ws generalizing rank with
  | nil => simp at h
  | cons first ws ih =>
    simp only [reach] at h
    split at h
    case isTrue hle =>
      obtain rfl : first = w := by simpa using h
      omega
    case isFalse hlt =>
      have hrest : 0 < rank - first := by omega
      exact ih hrest (by simpa using h)

theorem reach_sum_take {w i : Nat} (h : ws[i]? = some w) (hpos : 0 < w) :
    reach ws (ws.take (i + 1)).sum = i := by
  induction ws generalizing i with
  | nil => simp at h
  | cons first ws ih =>
    cases i with
    | zero => simp [reach]
    | succ i =>
      have hw : ws[i]? = some w := by simpa using h
      have htake : (ws.take (i + 1))[i]? = some w := by
        rw [List.getElem?_take_of_lt (Nat.lt_succ_self i), hw]
      have hle : w ≤ (ws.take (i + 1)).sum := List.le_sum_of_mem (List.mem_of_getElem? htake)
      rw [List.take_succ_cons, List.sum_cons, reach, if_neg (by omega),
        Nat.add_sub_cancel_left, ih hw]

end Turbine.Base
