import Turbine.Base.Runs
import Turbine.Security.Guard

/-!
# Turbine.Security.Restart

Whole histories of calls to the behaviour guard, one after the other, at times that never
go back: what is left of a block once it has expired, or has been lifted by hand.

* `startsOver_iff`: when attempts are counted from the start;
* `unblocked_run`: nobody else's calls touch a profile.
-/

namespace Turbine.Security

open Base

/-! ## histories -/

inductive Op (Ip : Type)
  | checkRequest (ip : Ip)
  | recordRequest (ip : Ip) (wasError : Bool)
  | recordSqliAttempt (ip : Ip)
  | unblockIp (ip : Ip)
deriving DecidableEq

/-- A call, and when it is made. -/
structure Call (Ip : Type) where
  now : Nat
  op : Op Ip
deriving DecidableEq

structure History (Ip : Type) where
  guard : BehaviourGuard Ip
  clock : Nat := 0

variable {Ip : Type} [DecidableEq Ip]

def Op.apply (cfg : BehaviourConfig) (g : BehaviourGuard Ip) (now : Nat) : Op Ip → BehaviourGuard Ip
  | .checkRequest ip => (g.checkRequest cfg ip now).1
  | .recordRequest ip wasError => g.recordRequest ip wasError
  | .recordSqliAttempt ip => g.recordSqliAttempt cfg ip now
  | .unblockIp ip => (g.unblockIp ip).1

/-- One call; time does not go back. -/
def step (cfg : BehaviourConfig) (s : History Ip) (c : Call Ip) : Option (History Ip) :=
  if s.clock ≤ c.now then some ⟨c.op.apply cfg s.guard c.now, c.now⟩ else none

/-- A new guard. -/
def initial (Ip : Type) : History Ip := { guard := { profiles := ∅ } }

/-! ## what a call does to each profile -/

variable {cfg : BehaviourConfig} {g : BehaviourGuard Ip} {ip : Ip} {p : IpProfile} {now : Nat}
  {op : Op Ip} {s s' : History Ip} {c : Call Ip}

/-- What a call makes of the profile of `ip`. -/
def Op.effect (cfg : BehaviourConfig) (now : Nat) (ip : Ip) : Op Ip → IpProfile → IpProfile
  | .checkRequest ip', p => if ip = ip' then (evaluate cfg p now).1 else p
  | .recordRequest ip' wasError, p => if ip = ip' ∧ wasError then p.error else p
  | .recordSqliAttempt ip', p => if ip = ip' then p.attempt cfg now else p
  | .unblockIp ip', p => if ip = ip' then p.unblock else p

theorem profile?_store (ip' : Ip) :
    (g.store ip' p).profile? ip = if ip = ip' then some p else g.profile? ip := by
  rw [BehaviourGuard.profile?, BehaviourGuard.store]
  split
  case isTrue hip => rw [hip, AList.lookup_insert]
  case isFalse hip => rw [AList.lookup_insert_ne hip]; rfl

theorem turnsAway_of_tracked (h : g.profile? ip = some p) : g.turnsAway ip = false := by
  rw [BehaviourGuard.turnsAway, h, Option.isNone_some, Bool.and_false]

theorem checkRequest_of_tracked (h : g.profile? ip = some p) :
    g.checkRequest cfg ip now = (g.store ip (evaluate cfg p now).1, (evaluate cfg p now).2) := by
  rw [BehaviourGuard.checkRequest,
    if_neg (by rw [turnsAway_of_tracked h]; exact Bool.false_ne_true), h]
  rfl

theorem recordSqliAttempt_of_tracked (h : g.profile? ip = some p) :
    g.recordSqliAttempt cfg ip now = g.store ip (p.attempt cfg now) := by
  rw [BehaviourGuard.recordSqliAttempt,
    if_neg (by rw [turnsAway_of_tracked h]; exact Bool.false_ne_true), h]
  rfl

/-- The address a call is about. -/
def Op.address : Op Ip → Ip
  | .checkRequest ip | .recordRequest ip _ | .recordSqliAttempt ip | .unblockIp ip => ip

/-- A call about one address stores at most its own profile. -/
theorem apply_eq : op.apply cfg g now = g ∨ ∃ p, op.apply cfg g now = g.store op.address p := by
  cases op with
  | checkRequest ip =>
    simp only [Op.apply, BehaviourGuard.checkRequest]
    split
    · exact .inl rfl
    · exact .inr ⟨_, rfl⟩
  | recordRequest ip wasError =>
    simp only [Op.apply, BehaviourGuard.recordRequest]
    split
    · exact .inl rfl
    · split
      · exact .inr ⟨_, rfl⟩
      · exact .inl rfl
  | recordSqliAttempt ip =>
    simp only [Op.apply, BehaviourGuard.recordSqliAttempt]
    split
    · exact .inl rfl
    · exact .inr ⟨_, rfl⟩
  | unblockIp ip =>
    simp only [Op.apply, BehaviourGuard.unblockIp]
    split
    · exact .inr ⟨_, rfl⟩
    · exact .inl rfl

theorem profile?_apply_ne (hip : ip ≠ op.address) :
    (op.apply cfg g now).profile? ip = g.profile? ip := by
  obtain heq | ⟨p, heq⟩ : op.apply cfg g now = g ∨ ∃ p, op.apply cfg g now = g.store op.address p :=
    apply_eq
  · rw [heq]
  · rw [heq, profile?_store, if_neg hip]

/-- **One call, profile by profile.** -/
theorem profile?_apply (h : g.profile? ip = some p) :
    (op.apply cfg g now).profile? ip = some (op.effect cfg now ip p) := by
  by_cases hip : ip = op.address
  · cases op with
    | checkRequest ip' =>
      obtain rfl : ip = ip' := hip
      simp [Op.apply, Op.effect, checkRequest_of_tracked h, profile?_store]
    | recordRequest ip' wasError =>
      obtain rfl : ip = ip' := hip
      cases wasError with
      | false => simpa [Op.apply, Op.effect, BehaviourGuard.recordRequest] using h
      | true => simp [Op.apply, Op.effect, BehaviourGuard.recordRequest, h, profile?_store]
    | recordSqliAttempt ip' =>
      obtain rfl : ip = ip' := hip
      simp [Op.apply, Op.effect, recordSqliAttempt_of_tracked h, profile?_store]
    | unblockIp ip' =>
      obtain rfl : ip = ip' := hip
      simp [Op.apply, Op.effect, BehaviourGuard.unblockIp, h, profile?_store]
  · rw [profile?_apply_ne hip, h]
    cases op <;> simp_all [Op.effect, Op.address]

/-- **Step lemma.** -/
theorem profile?_step (h : s.guard.profile? ip = some p) (hs : step cfg s c = some s') :
    s'.guard.profile? ip = some (c.op.effect cfg c.now ip p) ∧ s.clock ≤ c.now ∧
      s'.clock = c.now := by
  simp only [step, Option.ite_none_right_eq_some] at hs
  obtain ⟨hclock, hs⟩ := hs
  obtain rfl := Option.some.inj hs
  exact ⟨profile?_apply h, hclock, rfl⟩

/-! ## attempts -/

/-- The window takes the attempts with it if the block is over. -/
theorem sqliAttempts_rollWindow :
    (rollWindow cfg p now).sqliAttempts =
      if rollsOver cfg now p.windowStartNs && p.isOver now then 0 else p.sqliAttempts := by
  cases hrolls : rollsOver cfg now p.windowStartNs with
  | false => rw [rollWindow_of_not_rollsOver hrolls, Bool.false_and, if_neg Bool.false_ne_true]
  | true =>
    rw [rollWindow_of_rollsOver hrolls, Bool.true_and]
    split <;> rfl

theorem sqliAttempts_judge : (judge cfg p now).1.sqliAttempts = p.sqliAttempts := by
  rw [judge, apply_ite Prod.fst, apply_ite Prod.fst]
  simp only [apply_ite IpProfile.sqliAttempts, ite_self]

theorem sqliAttempts_released :
    (released cfg p now).sqliAttempts = (rollWindow cfg p now).sqliAttempts := by
  rw [released]
  split <;> rfl

theorem sqliAttempts_evaluate :
    (evaluate cfg p now).1.sqliAttempts = (rollWindow cfg p now).sqliAttempts := by
  by_cases h : (rollWindow cfg p now).blocked = true ∧ (rollWindow cfg p now).isPending now = true
  · rw [evaluate_of_blocked h.1 h.2]
  · rw [evaluate_of_free (by simpa using h), sqliAttempts_judge, sqliAttempts_released]

theorem sqliAttempts_attempt : (p.attempt cfg now).sqliAttempts = p.sqliAttempts + 1 := by
  simp only [IpProfile.attempt]
  split <;> rfl

/-- The call records an attempt of the address. -/
def Call.attempts (ip : Ip) (c : Call Ip) : Bool := c.op = .recordSqliAttempt ip

/-- A call counts one attempt more, or leaves the count alone, or sets it to zero. -/
theorem sqliAttempts_effect (cfg : BehaviourConfig) (now : Nat) (ip : Ip) (p : IpProfile)
    (c : Call Ip) :
    (c.op.effect cfg now ip p).sqliAttempts =
        (if c.attempts ip then p.sqliAttempts + 1 else p.sqliAttempts) ∨
      c.attempts ip = false ∧ (c.op.effect cfg now ip p).sqliAttempts = 0 := by
  obtain ⟨time, op⟩ := c
  by_cases hip : ip = op.address
  · cases op with
    | checkRequest ip' =>
      obtain rfl : ip = ip' := hip
      rw [Op.effect, if_pos rfl, sqliAttempts_evaluate, sqliAttempts_rollWindow]
      split
      · exact .inr ⟨rfl, rfl⟩
      · exact .inl rfl
    | recordRequest ip' wasError =>
      rw [Op.effect]
      split
      · exact .inl rfl
      · exact .inl rfl
    | recordSqliAttempt ip' =>
      obtain rfl : ip = ip' := hip
      rw [Op.effect, if_pos rfl, sqliAttempts_attempt, Call.attempts, if_pos (decide_eq_true rfl)]
      exact .inl rfl
    | unblockIp ip' =>
      obtain rfl : ip = ip' := hip
      rw [Op.effect, if_pos rfl]
      exact .inr ⟨rfl, rfl⟩
  · refine .inl ?_
    cases op <;> simp_all [Op.effect, Op.address, Call.attempts, eq_comm]

/-! ## the count after an expired block -/

/-- The recorded attempts of the address. -/
def attemptsIn (ip : Ip) (cs : List (Call Ip)) : Nat := cs.countP (Call.attempts ip)

/-- The attempts have been counted from zero, or are about to start there. -/
def CountedFrom (ip : Ip) (s : History Ip) (n : Nat) : Prop :=
  ∃ p, s.guard.profile? ip = some p ∧
    (p.sqliAttempts.toNat ≤ n ∨ n = 0 ∧ p.sqliAttempts + 1 = 0)

theorem toNat_succ_le {a : UInt32} {n : Nat} (h : a.toNat ≤ n ∨ n = 0 ∧ a + 1 = 0) :
    (a + 1).toNat ≤ n + 1 := by
  obtain hle | ⟨-, hwraps⟩ := h
  · rw [UInt32.toNat_add]
    exact Nat.le_trans (Nat.mod_le ..) (Nat.succ_le_succ hle)
  · rw [hwraps]
    exact Nat.zero_le _

/-- **Step lemma.** -/
theorem countedFrom_step {n : Nat} (h : CountedFrom ip s n) (hs : step cfg s c = some s') :
    CountedFrom ip s' (n + attemptsIn ip [c]) := by
  obtain ⟨p, hp, hcount⟩ := h
  obtain ⟨hp', -⟩ := profile?_step hp hs
  refine ⟨_, hp', ?_⟩
  rw [attemptsIn, List.countP_singleton]
  obtain hsame | ⟨hother, hzero⟩ := sqliAttempts_effect cfg c.now ip p c
  · rw [hsame]
    cases hc : c.attempts ip with
    | false => exact hcount
    | true => exact .inl (toNat_succ_le hcount)
  · rw [hzero]
    exact .inl (Nat.zero_le _)

/-- **Run lemma.** -/
theorem countedFrom_run {cs : List (Call Ip)} (h : CountedFrom ip s 0)
    (hrun : run (step cfg) s cs = some s') : CountedFrom ip s' (attemptsIn ip cs) := by
  have hcounted : CountedFrom ip s' (attemptsIn ip (trace (step cfg) (fun _ c => [c]) s cs)) :=
    invariant_of_trace (I := fun s log => CountedFrom ip s (attemptsIn ip log))
      (fun s log c s' hI hs => by
        rw [attemptsIn, List.countP_append]
        exact countedFrom_step hI hs) h hrun
  rwa [trace_events hrun] at hcounted

/-- The call blocks the address for injection. -/
def BlocksForSqli (cfg : BehaviourConfig) (ip : Ip) (s : History Ip) (c : Call Ip) : Prop :=
  c.op = .recordSqliAttempt ip ∧ s.clock ≤ c.now ∧
    ∃ p, s.guard.profile? ip = some p ∧ cfg.sqliBlockThreshold ≤ p.sqliAttempts + 1

/-- From here on, the address is blocked for injection only after as many further attempts as
the threshold says. -/
def StartsOver (cfg : BehaviourConfig) (ip : Ip) (s : History Ip) : Prop :=
  ∀ cs c s', run (step cfg) s cs = some s' → BlocksForSqli cfg ip s' c →
    cfg.sqliBlockThreshold.toNat ≤ attemptsIn ip (cs ++ [c])

theorem attemptsIn_concat {cs : List (Call Ip)} (h : c.op = .recordSqliAttempt ip) :
    attemptsIn ip (cs ++ [c]) = attemptsIn ip cs + 1 := by
  have hc : c.attempts ip = true := decide_eq_true h
  rw [attemptsIn, List.countP_append, List.countP_singleton, if_pos hc]
  rfl

theorem startsOver_of_countedFrom (h : CountedFrom ip s 0) : StartsOver cfg ip s := by
  rintro cs c s' hrun ⟨hop, -, p, hp, hblocks⟩
  obtain ⟨p', hp', hcount⟩ := countedFrom_run h hrun
  obtain rfl := Option.some.inj (hp.symm.trans hp')
  rw [attemptsIn_concat hop]
  exact Nat.le_trans (UInt32.le_iff_toNat_le.1 hblocks) (toNat_succ_le hcount)

theorem step_of_le (h : s.clock ≤ c.now) :
    step cfg s c = some ⟨c.op.apply cfg s.guard c.now, c.now⟩ := by
  rw [step, if_pos h]

/-- A run of attempts at one moment. -/
theorem attempts_run (cfg : BehaviourConfig) (n : Nat) (hs : s.guard.profile? ip = some p) :
    ∃ s' p', run (step cfg) s (List.replicate n ⟨s.clock, .recordSqliAttempt ip⟩) = some s' ∧
      s'.guard.profile? ip = some p' ∧ p'.sqliAttempts = p.sqliAttempts + .ofNat n := by
  induction n generalizing s p with
  | zero => exact ⟨s, p, rfl, hs, (UInt32.add_zero _).symm⟩
  | succ n ih =>
    obtain ⟨s', p', hrun, hp', hcount⟩ := ih
      (s := ⟨(Op.recordSqliAttempt ip).apply cfg s.guard s.clock, s.clock⟩) (profile?_apply hs)
    refine ⟨s', p', ?_, hp', ?_⟩
    · rw [List.replicate_succ]
      exact run_cons_eq_some.2 ⟨_, step_of_le (Nat.le_refl _), hrun⟩
    · rw [hcount, Op.effect, if_pos rfl, sqliAttempts_attempt, UInt32.add_assoc, Nat.add_comm n 1,
        UInt32.ofNat_add]
      rfl

theorem attemptsIn_replicate (n now : Nat) :
    attemptsIn ip (List.replicate n ⟨now, .recordSqliAttempt ip⟩) = n := by
  have hc : Call.attempts ip (⟨now, .recordSqliAttempt ip⟩ : Call Ip) = true := decide_eq_true rfl
  rw [attemptsIn, List.countP_replicate, if_pos hc]

theorem toNat_succ_lt {a : UInt32} (h : a + 1 ≠ 0) : a.toNat + 1 < 4294967296 := by
  have hlt : a.toNat < 4294967296 := a.toNat_lt
  by_contra hge
  have hzero : (a + 1).toNat = 0 := by
    rw [UInt32.toNat_add, show a.toNat = 4294967295 by omega]
    rfl
  exact h (UInt32.toNat_inj.1 hzero)

/-- With the attempts that are missing from the threshold, but for one, the next is one too
many. -/
theorem threshold_le_succ {a T : UInt32} (hwraps : a + 1 ≠ 0) :
    T ≤ a + .ofNat (T.toNat - 1 - a.toNat) + 1 := by
  have hT : T.toNat < 4294967296 := T.toNat_lt
  have ha := toNat_succ_lt hwraps
  have hone : (1 : UInt32).toNat = 1 := rfl
  rw [UInt32.le_iff_toNat_le, UInt32.toNat_add, UInt32.toNat_add, UInt32.toNat_ofNat', hone]
  omega

/-- **Exactly.**  A count that is neither zero nor about to be is not started over, unless the
first attempt is one too many anyway. -/
theorem startsOver_iff (hs : s.guard.profile? ip = some p) :
    StartsOver cfg ip s ↔
      cfg.sqliBlockThreshold ≤ 1 ∨ p.sqliAttempts = 0 ∨ p.sqliAttempts + 1 = 0 := by
  constructor
  · intro h
    by_contra hne
    simp only [not_or] at hne
    obtain ⟨hthreshold, hzero, hwraps⟩ := hne
    obtain ⟨s', p', hrun, hp', hcount⟩ := attempts_run cfg
      (cfg.sqliBlockThreshold.toNat - 1 - p.sqliAttempts.toNat) hs
    have hblocks : BlocksForSqli cfg ip s' ⟨s'.clock, .recordSqliAttempt ip⟩ :=
      ⟨rfl, Nat.le_refl _, p', hp', by rw [hcount]; exact threshold_le_succ hwraps⟩
    have hle := h _ _ s' hrun hblocks
    rw [attemptsIn_concat rfl, attemptsIn_replicate] at hle
    have hpos : p.sqliAttempts.toNat ≠ 0 := fun h => hzero (UInt32.toNat_inj.1 h)
    have htwo : 1 < cfg.sqliBlockThreshold.toNat :=
      Nat.not_le.1 fun h => hthreshold (UInt32.le_iff_toNat_le.2 h)
    omega
  · rintro (hthreshold | hzero | hwraps)
    · rintro cs c s' - ⟨hop, -⟩
      rw [attemptsIn_concat hop]
      exact Nat.le_trans (UInt32.le_iff_toNat_le.1 hthreshold) (Nat.le_add_left ..)
    · exact startsOver_of_countedFrom ⟨p, hs, .inl (by rw [hzero]; exact Nat.le_refl _)⟩
    · exact startsOver_of_countedFrom ⟨p, hs, .inr ⟨rfl, hwraps⟩⟩

/-- After the history, a check finds the block of the address expired and lets it pass. -/
structure PassesExpired (cfg : BehaviourConfig) (ip : Ip) (cs : List (Call Ip)) (now : Nat)
    (p : IpProfile) (s s' : History Ip) : Prop where
  history : run (step cfg) (initial Ip) cs = some s
  tracked : s.guard.profile? ip = some p
  blocked : p.blocked = true
  expired : p.isOver now = true
  check : step cfg s ⟨now, .checkRequest ip⟩ = some s'
  passes : (s.guard.checkRequest cfg ip now).2 = .allow

/-- **An expired block restarts the attempt count**, exactly if the check that finds it expired
also starts a new window; or if the threshold, or the count, leaves no room for a difference. -/
theorem expired_block_restarts_iff (cfg : BehaviourConfig) (ip : Ip) (cs : List (Call Ip))
    (now : Nat) (p : IpProfile) (s s' : History Ip) (h : PassesExpired cfg ip cs now p s s') :
    StartsOver cfg ip s' ↔
      rollsOver cfg now p.windowStartNs = true ∨ cfg.sqliBlockThreshold ≤ 1 ∨
        p.sqliAttempts = 0 ∨ p.sqliAttempts + 1 = 0 := by
  obtain ⟨hs', -⟩ := profile?_step h.tracked h.check
  have hcount : (Op.effect cfg now ip (.checkRequest ip) p).sqliAttempts =
      if rollsOver cfg now p.windowStartNs then 0 else p.sqliAttempts := by
    rw [Op.effect, if_pos rfl, sqliAttempts_evaluate, sqliAttempts_rollWindow, h.expired,
      Bool.and_true]
  rw [startsOver_iff hs', hcount]
  cases rollsOver cfg now p.windowStartNs <;> simp

/-- Three attempts at the start. -/
def threeAttempts : List (Call Nat) := List.replicate 3 ⟨0, .recordSqliAttempt 0⟩

/-- The first check comes when the block is over, and so is the window. -/
theorem expired_block_restarts_late :
    ∃ p s s', PassesExpired {} 0 threeAttempts 700000000000 p s s' ∧ StartsOver {} 0 s' := by
  have hexpired : PassesExpired {} 0 threeAttempts 700000000000 _ _ _ :=
    ⟨rfl, rfl, rfl, rfl, rfl, rfl⟩
  exact ⟨_, _, _, hexpired, (expired_block_restarts_iff _ _ _ _ _ _ _ hexpired).2 (.inl rfl)⟩

/-- A check while the block is in force has started a new window. -/
def checkedMeanwhile : List (Call Nat) := threeAttempts ++ [⟨590000000000, .checkRequest 0⟩]

/-- A single attempt blocks again, where the threshold says three. -/
theorem expired_block_keeps_count :
    ∃ p s s', PassesExpired {} 0 checkedMeanwhile 610000000000 p s s' ∧
      BlocksForSqli {} 0 s' ⟨610000000000, .recordSqliAttempt 0⟩ ∧ ¬ StartsOver {} 0 s' := by
  have hexpired : PassesExpired {} 0 checkedMeanwhile 610000000000 _ _ _ :=
    ⟨rfl, rfl, rfl, rfl, rfl, rfl⟩
  have hblocks : BlocksForSqli {} 0 _ ⟨610000000000, .recordSqliAttempt 0⟩ :=
    ⟨rfl, Nat.le_refl _, _, (profile?_step hexpired.tracked hexpired.check).1, by decide⟩
  exact ⟨_, _, _, hexpired, hblocks, fun hover => absurd (hover [] _ _ rfl hblocks) (by decide)⟩

/-! ## the first check after an unblock -/

/-- The call is a check of the address, or records an error or an attempt. -/
def Call.touches (ip : Ip) (c : Call Ip) : Bool :=
  match c.op with
  | .checkRequest ip' | .recordSqliAttempt ip' => ip' = ip
  | .recordRequest ip' wasError => ip' = ip && wasError
  | .unblockIp _ => false

/-- A profile without a block stays as it is. -/
theorem effect_unblock (h : c.touches ip = false) :
    c.op.effect cfg now ip p.unblock = p.unblock := by
  obtain ⟨time, op⟩ := c
  cases op with
  | checkRequest ip' => exact if_neg fun hip => of_decide_eq_false h hip.symm
  | recordRequest ip' wasError =>
    refine if_neg fun hip => ?_
    simp [Call.touches, hip.1, hip.2] at h
  | recordSqliAttempt ip' => exact if_neg fun hip => of_decide_eq_false h hip.symm
  | unblockIp ip' => exact ite_self _

/-- **Run lemma.**  Nobody else's calls touch the profile. -/
theorem unblocked_run {cs : List (Call Ip)} (huntouched : ∀ c ∈ cs, c.touches ip = false)
    (hp : s.guard.profile? ip = some p.unblock) (hrun : run (step cfg) s cs = some s') :
    s'.guard.profile? ip = some p.unblock := by
  induction cs generalizing s with
  | nil =>
    obtain rfl := Option.some.inj hrun
    exact hp
  | cons c cs ih =>
    rw [List.forall_mem_cons] at huntouched
    obtain ⟨s₁, hs, hrun⟩ := run_cons_eq_some.1 hrun
    obtain ⟨hp₁, -⟩ := profile?_step hp hs
    rw [effect_unblock huntouched.1] at hp₁
    exact ih huntouched.2 hp₁ hrun

/-- Without a rate limit a request is allowed unless it belongs to a scan. -/
theorem judge_allow_iff (hrate : cfg.maxRps = 0) :
    (judge cfg p now).2 = .allow ↔ isScanning cfg p.errorCount (p.requestCount + 1) = false := by
  have hlimit : exceedsRate cfg now p.windowStartNs (p.requestCount + 1) = false := by
    rw [exceedsRate, hrate]
    rfl
  simp only [judge, hlimit, Bool.false_eq_true, if_false]
  cases isScanning cfg p.errorCount (p.requestCount + 1) <;> simp

/-- A new window and the end of a block do not get in each other's way. -/
theorem rollWindow_unblock : rollWindow cfg p.unblock now = (rollWindow cfg p now).unblock := by
  have hover : p.unblock.isOver now = false := rfl
  cases hrolls : rollsOver cfg now p.windowStartNs with
  | false =>
    rw [rollWindow_of_not_rollsOver hrolls]
    exact rollWindow_of_not_rollsOver hrolls
  | true =>
    rw [rollWindow_of_rollsOver hrolls, rollWindow_of_rollsOver (p := p.unblock) hrolls, hover,
      if_neg Bool.false_ne_true]
    split <;> rfl

theorem evaluate_unblock :
    evaluate cfg p.unblock now = judge cfg (rollWindow cfg p now).unblock now := by
  rw [evaluate, rollWindow_unblock]
  rfl

/-- **Unblocking is effective**, exactly if the requests and errors that have been counted in
the window do not make the next request part of a scan. -/
theorem unblocked_allowed_iff (cfg : BehaviourConfig) (hrate : cfg.maxRps = 0) (ip : Ip)
    (cs ds : List (Call Ip)) (time now : Nat) (s s' : History Ip)
    (hcs : run (step cfg) (initial Ip) cs = some s) (hreturned : (s.guard.unblockIp ip).2 = true)
    (hrun : run (step cfg) (initial Ip) (cs ++ ⟨time, .unblockIp ip⟩ :: ds) = some s')
    (huntouched : ∀ c ∈ ds, c.touches ip = false) :
    (s'.guard.checkRequest cfg ip now).2 = .allow ↔
      ∃ p, s.guard.profile? ip = some p ∧
        isScanning cfg (rollWindow cfg p now).errorCount ((rollWindow cfg p now).requestCount + 1) =
          false := by
  obtain ⟨p, hp⟩ : ∃ p, s.guard.profile? ip = some p := by
    cases hp : s.guard.profile? ip with
    | some p => exact ⟨p, rfl⟩
    | none => simp [BehaviourGuard.unblockIp, hp] at hreturned
  rw [run_append, hcs, Option.bind_some] at hrun
  obtain ⟨s₁, hs, hrun⟩ := run_cons_eq_some.1 hrun
  have hp₁ : s₁.guard.profile? ip = some p.unblock := by
    rw [(profile?_step hp hs).1, Op.effect, if_pos rfl]
  have hp' := unblocked_run huntouched hp₁ hrun
  rw [checkRequest_of_tracked hp', evaluate_unblock, judge_allow_iff hrate]
  constructor
  · exact fun h => ⟨p, hp, h⟩
  · rintro ⟨q, hq, h⟩
    obtain rfl := Option.some.inj (hp.symm.trans hq)
    exact h

/-- Scans are looked for from the third request on. -/
def fromThird : BehaviourConfig := { scanningMinRequests := 3 }

/-- Three requests with errors, the last of which is blocked for a scan. -/
def threeErrors : List (Call Nat) :=
  [⟨1, .checkRequest 0⟩, ⟨1, .recordRequest 0 true⟩, ⟨2, .checkRequest 0⟩,
    ⟨2, .recordRequest 0 true⟩, ⟨3, .checkRequest 0⟩, ⟨3, .recordRequest 0 true⟩]

/-- The window is over at the next check. -/
theorem unblocked_allowed_later :
    ∃ s', run (step fromThird) (initial Nat) (threeErrors ++ [⟨4, .unblockIp 0⟩]) = some s' ∧
      (s'.guard.checkRequest fromThird 0 70000000000).2 = .allow := by
  have hs : run (step fromThird) (initial Nat) threeErrors = some _ := rfl
  have hs' : run (step fromThird) (initial Nat) (threeErrors ++ [⟨4, .unblockIp 0⟩]) = some _ := rfl
  refine ⟨_, hs', ?_⟩
  exact (unblocked_allowed_iff fromThird rfl 0 threeErrors [] 4 70000000000 _ _ hs rfl hs'
    (List.forall_mem_nil _)).2 ⟨_, rfl, by decide⟩

/-- The next check in the same window blocks the address again. -/
theorem unblocked_blocked_again :
    ∃ s s', run (step fromThird) (initial Nat) threeErrors = some s ∧
      (s.guard.unblockIp 0).2 = true ∧ step fromThird s ⟨4, .unblockIp 0⟩ = some s' ∧
      (s'.guard.checkRequest fromThird 0 5).2 = .block (.scanningDetected (errorRate 3 4) 4) :=
  ⟨_, _, rfl, rfl, rfl, rfl⟩

end Turbine.Security
