import Mathlib.Logic.Relation
import Turbine.Security.Guard

/-!
# Turbine.Security.Evaluation

`evaluate`, access by access.  Every field of a profile is an atomic of its own, so that
other evaluations of the same profile may come in between any two accesses.

* `reaches_evaluate`: an evaluation that nobody comes in between is `evaluate`;
* `step_of_isHeld`: an evaluation that meets a block in force leaves it so, and blocks;
* `step_of_isJudging`: one that is past the test only ever sets a block.
-/

namespace Turbine.Security

open Base

/-! ## accesses -/

/-- Where an evaluation stands, by what it does next. -/
inductive Point
  -- step 1: a new window
  | loadWindow
  | casWindow (winStart : Nat)
  | resetRequests
  | resetErrors
  | loadExpiry
  | liftBlock
  | liftDeadline
  | liftAttempts
  -- step 2: is there a block?
  | loadBlocked
  | loadDeadline
  | clearBlocked
  | clearDeadline
  -- steps 3 and 4: the request is counted and judged
  | countRequest
  | loadWindowAgain (count : UInt32)
  | loadErrors (count : UInt32)
  | setBlocked (rate : Float64) (count : UInt32)
  | setDeadline (rate : Float64) (count : UInt32)
  | done (verdict : Verdict)
deriving DecidableEq

/-- Past the rate limit. -/
def Point.afterRate (cfg : BehaviourConfig) (count : UInt32) : Point :=
  if cfg.scanningMinRequests ≤ count then .loadErrors count else .done .allow

def Point.step (cfg : BehaviourConfig) (now : Nat) (p : IpProfile) : Point → IpProfile × Point
  | .loadWindow =>
    (p, if rollsOver cfg now p.windowStartNs then .casWindow p.windowStartNs else .loadBlocked)
  | .casWindow winStart =>
    if p.windowStartNs = winStart then ({ p with windowStartNs := now }, .resetRequests)
    else (p, .loadBlocked)
  | .resetRequests => ({ p with requestCount := 0 }, .resetErrors)
  | .resetErrors => ({ p with errorCount := 0 }, .loadExpiry)
  | .loadExpiry => (p, if p.isOver now then .liftBlock else .loadBlocked)
  | .liftBlock => ({ p with blocked := false }, .liftDeadline)
  | .liftDeadline => ({ p with blockUntilNs := 0 }, .liftAttempts)
  | .liftAttempts => ({ p with sqliAttempts := 0 }, .loadBlocked)
  | .loadBlocked => (p, if p.blocked then .loadDeadline else .countRequest)
  | .loadDeadline =>
    (p, if p.isPending now then .done (.block .temporarilyBlocked) else .clearBlocked)
  | .clearBlocked => ({ p with blocked := false }, .clearDeadline)
  | .clearDeadline => ({ p with blockUntilNs := 0 }, .countRequest)
  | .countRequest =>
    let count := p.requestCount + 1
    ({ p with requestCount := count },
      if 0 < cfg.maxRps && 10 < count then .loadWindowAgain count else .afterRate cfg count)
  | .loadWindowAgain count =>
    (p, if (Float64.ofNat cfg.maxRps.toNat).lt (rps now p.windowStartNs count) then
          .done (.block (.rateLimitExceeded (rps now p.windowStartNs count) cfg.maxRps))
        else .afterRate cfg count)
  | .loadErrors count =>
    (p, if cfg.scanningErrorRate.lt (errorRate p.errorCount count) then
          .setBlocked (errorRate p.errorCount count) count
        else .done .allow)
  | .setBlocked rate count => ({ p with blocked := true }, .setDeadline rate count)
  | .setDeadline rate count =>
    ({ p with blockUntilNs := saturatingAdd now scanningBlockNs },
      .done (.block (.scanningDetected rate count)))
  | .done verdict => (p, .done verdict)

/-! ## on its own -/

variable {cfg : BehaviourConfig} {p : IpProfile} {now : Nat}

/-- An evaluation gets from one state to the other by itself. -/
def Reaches (cfg : BehaviourConfig) (now : Nat) : IpProfile × Point → IpProfile × Point → Prop :=
  Relation.ReflTransGen fun a b => a.2.step cfg now a.1 = b

theorem reaches_step {point : Point} {b : IpProfile × Point}
    (h : Reaches cfg now (point.step cfg now p) b) : Reaches cfg now (p, point) b := .head rfl h

/-- The end of step 1. -/
theorem reaches_expiry :
    Reaches cfg now (p, .loadExpiry)
      (if p.isOver now then { p with blocked := false, blockUntilNs := 0, sqliAttempts := 0 }
        else p, .loadBlocked) := by
  refine reaches_step ?_
  rw [Point.step]
  split
  · exact reaches_step (reaches_step (reaches_step .refl))
  · exact .refl

theorem reaches_rollWindow :
    Reaches cfg now (p, .loadWindow) (rollWindow cfg p now, .loadBlocked) := by
  refine reaches_step ?_
  rw [Point.step, rollWindow]
  split
  · refine reaches_step ?_
    rw [Point.step, if_pos rfl]
    exact reaches_step (reaches_step reaches_expiry)
  · exact .refl

/-- Past the rate limit. -/
theorem reaches_afterRate (cfg : BehaviourConfig) (now : Nat) (p : IpProfile) (count : UInt32) :
    Reaches cfg now (p, .afterRate cfg count)
      (if isScanning cfg p.errorCount count then
        ({ p with blocked := true, blockUntilNs := saturatingAdd now scanningBlockNs },
          .done (.block (.scanningDetected (errorRate p.errorCount count) count)))
      else (p, .done .allow)) := by
  rw [Point.afterRate, isScanning]
  by_cases hmin : cfg.scanningMinRequests ≤ count
  · rw [if_pos hmin, decide_eq_true hmin, Bool.true_and]
    refine reaches_step ?_
    rw [Point.step]
    split
    · exact reaches_step (reaches_step .refl)
    · exact .refl
  · rw [if_neg hmin, decide_eq_false hmin, Bool.false_and, if_neg Bool.false_ne_true]
    exact .refl

/-- `judge`, as far as a profile that has been counted goes. -/
theorem judge_eq_of_not_exceedsRate
    (h : exceedsRate cfg now p.windowStartNs (p.requestCount + 1) = false) :
    judge cfg p now =
      if isScanning cfg p.errorCount (p.requestCount + 1) then
        ({ p with
            requestCount := p.requestCount + 1, blocked := true
            blockUntilNs := saturatingAdd now scanningBlockNs },
          .block (.scanningDetected (errorRate p.errorCount (p.requestCount + 1))
            (p.requestCount + 1)))
      else ({ p with requestCount := p.requestCount + 1 }, .allow) := by
  rw [judge, if_neg (by rw [h]; exact Bool.false_ne_true)]

theorem reaches_judge_of_not_exceedsRate
    (h : exceedsRate cfg now p.windowStartNs (p.requestCount + 1) = false) :
    Reaches cfg now
      ({ p with requestCount := p.requestCount + 1 }, .afterRate cfg (p.requestCount + 1))
      ((judge cfg p now).1, .done (judge cfg p now).2) := by
  have hrest := reaches_afterRate cfg now { p with requestCount := p.requestCount + 1 }
    (p.requestCount + 1)
  rw [judge_eq_of_not_exceedsRate h]
  dsimp only at hrest
  split at hrest
  case isTrue hscan => rw [if_pos hscan]; exact hrest
  case isFalse hscan => rw [if_neg hscan]; exact hrest

theorem reaches_judge :
    Reaches cfg now (p, .countRequest) ((judge cfg p now).1, .done (judge cfg p now).2) := by
  refine reaches_step ?_
  rw [Point.step]
  cases hlimited : (0 < cfg.maxRps && 10 < p.requestCount + 1 : Bool) with
  | false =>
    rw [if_neg Bool.false_ne_true]
    exact reaches_judge_of_not_exceedsRate (by rw [exceedsRate, hlimited, Bool.false_and])
  | true =>
    rw [if_pos rfl]
    refine reaches_step ?_
    rw [Point.step]
    have hexceeds : exceedsRate cfg now p.windowStartNs (p.requestCount + 1) =
        (Float64.ofNat cfg.maxRps.toNat).lt (rps now p.windowStartNs (p.requestCount + 1)) := by
      rw [exceedsRate, hlimited, Bool.true_and]
    split
    case isTrue hrate =>
      rw [judge, if_pos (hexceeds.trans hrate)]
      exact .refl
    case isFalse hrate =>
      exact reaches_judge_of_not_exceedsRate (hexceeds.trans (Bool.eq_false_iff.2 hrate))

/-- **Connection.**  An evaluation that nobody comes in between. -/
theorem reaches_evaluate :
    Reaches cfg now (p, .loadWindow) ((evaluate cfg p now).1, .done (evaluate cfg p now).2) := by
  refine .trans reaches_rollWindow (reaches_step ?_)
  rw [Point.step, evaluate]
  split
  · refine reaches_step ?_
    rw [Point.step]
    split
    · exact .refl
    · exact reaches_step (reaches_step reaches_judge)
  · exact reaches_judge

/-! ## among others -/

/-- Before the test for a block, or after it has found one. -/
def Point.isHeld : Point → Bool
  | .loadWindow | .casWindow _ | .resetRequests | .resetErrors | .loadExpiry | .loadBlocked
  | .loadDeadline => true
  | .done verdict => verdict.isBlocked
  | .liftBlock | .liftDeadline | .liftAttempts | .clearBlocked | .clearDeadline | .countRequest
  | .loadWindowAgain _ | .loadErrors _ | .setBlocked .. | .setDeadline .. => false

/-- Past the test for a block. -/
def Point.isJudging : Point → Bool
  | .countRequest | .loadWindowAgain _ | .loadErrors _ | .setBlocked .. | .setDeadline ..
  | .done _ => true
  | .loadWindow | .casWindow _ | .resetRequests | .resetErrors | .loadExpiry | .loadBlocked
  | .loadDeadline | .liftBlock | .liftDeadline | .liftAttempts | .clearBlocked
  | .clearDeadline => false

variable {point : Point}

theorem isOver_of_isPending (h : p.isPending now = true) : p.isOver now = false := by
  simp only [IpProfile.isPending, IpProfile.isOver, Bool.and_eq_true, decide_eq_true_eq,
    Bool.and_eq_false_iff, decide_eq_false_iff_not] at h ⊢
  exact .inr (Nat.not_le.2 h.2)

/-- An evaluation that meets a block in force. -/
theorem step_of_isHeld (cfg : BehaviourConfig) (hblocked : p.blocked = true)
    (hpending : p.isPending now = true) (hheld : point.isHeld = true) :
    (point.step cfg now p).2.isHeld = true ∧ (point.step cfg now p).1.blocked = true ∧
      (point.step cfg now p).1.blockUntilNs = p.blockUntilNs := by
  cases point with
  | loadWindow =>
    refine ⟨?_, hblocked, rfl⟩
    rw [Point.step]
    split <;> rfl
  | casWindow winStart =>
    rw [Point.step]
    split
    · exact ⟨rfl, hblocked, rfl⟩
    · exact ⟨rfl, hblocked, rfl⟩
  | resetRequests => exact ⟨rfl, hblocked, rfl⟩
  | resetErrors => exact ⟨rfl, hblocked, rfl⟩
  | loadExpiry =>
    rw [Point.step, isOver_of_isPending hpending]
    exact ⟨rfl, hblocked, rfl⟩
  | loadBlocked =>
    rw [Point.step, if_pos hblocked]
    exact ⟨rfl, hblocked, rfl⟩
  | loadDeadline =>
    rw [Point.step, if_pos hpending]
    exact ⟨rfl, hblocked, rfl⟩
  | done verdict => exact ⟨hheld, hblocked, rfl⟩
  | liftBlock | liftDeadline | liftAttempts | clearBlocked | clearDeadline | countRequest
  | loadWindowAgain | loadErrors | setBlocked | setDeadline => cases hheld

theorem isJudging_afterRate {count : UInt32} : (Point.afterRate cfg count).isJudging = true := by
  rw [Point.afterRate]
  split <;> rfl

/-- An evaluation past the test only ever sets a block. -/
theorem step_of_isJudging (cfg : BehaviourConfig) (now : Nat) (p : IpProfile)
    (hjudging : point.isJudging = true) :
    (point.step cfg now p).2.isJudging = true ∧
      (p.blocked = true → (point.step cfg now p).1.blocked = true) ∧
      ((point.step cfg now p).1.blockUntilNs = p.blockUntilNs ∨
        (point.step cfg now p).1.blockUntilNs = saturatingAdd now scanningBlockNs) := by
  cases point with
  | countRequest =>
    refine ⟨?_, id, .inl rfl⟩
    rw [Point.step]
    dsimp only
    split
    · rfl
    · exact isJudging_afterRate
  | loadWindowAgain count =>
    refine ⟨?_, id, .inl rfl⟩
    rw [Point.step]
    split
    · rfl
    · exact isJudging_afterRate
  | loadErrors count =>
    refine ⟨?_, id, .inl rfl⟩
    rw [Point.step]
    split <;> rfl
  | setBlocked rate count => exact ⟨rfl, fun _ => rfl, .inl rfl⟩
  | setDeadline rate count =>
    rw [Point.step]
    exact ⟨rfl, id, .inr rfl⟩
  | done verdict => exact ⟨rfl, id, .inl rfl⟩
  | loadWindow | casWindow | resetRequests | resetErrors | loadExpiry | loadBlocked | loadDeadline
  | liftBlock | liftDeadline | liftAttempts | clearBlocked | clearDeadline => cases hjudging

end Turbine.Security
