import Turbine.Security.Concurrent

/-!
# Turbine.Security.Blocks

How long a block lasts when calls run among each other.

* `inForce_step`: a block stays in force until its deadline, and no evaluation gets past it;
* `inForce_update`, `inForce_scan`: an injection puts one in force, and so does a scan, unless
  somebody is about to undo it.
-/

namespace Turbine.Security.Concurrent

open Base Threads

variable {Ip : Type} [DecidableEq Ip] {cfg : BehaviourConfig} {shard : Ip → Nat} {w w' : State Ip}
  {op : Op Ip} {ip : Ip} {phase phase' : Phase} {g : BehaviourGuard Ip} {p : IpProfile}
  {e : Event Ip} {t now d n : Nat} {call : Call Ip}

/-! ## time -/

/-- The call has read the clock in the past. -/
def Dated (_ : Nat) (_ : BehaviourGuard Ip) (clock : Nat) (call : Call Ip) : Prop :=
  ∀ now, call.phase.reading? = some now → now ≤ clock

/-- Readings are of the past, and the clock has not come to its end. -/
structure Timely (w : State Ip) : Prop where
  dated : Each Dated w
  clock_lt : w.clock < u64Max

theorem Acts.reading (h : Acts cfg shard w op phase g phase') (hnow : phase'.reading? = some now) :
    now = w.clock ∨ phase.reading? = some now := by
  cases h with
  | approach hreading => exact .inl (hreading now hnow)
  | miss => exact .inr hnow
  | enter => exact .inr hnow
  | create => exact .inr hnow
  | move => exact .inr hnow
  | away | finish | error | update | lift => cases hnow

theorem dated_step (h : Each Dated w) (hs : (program cfg shard).step w e = some w') :
    Each Dated w' := by
  refine Program.each_step (fun _ _ _ _ _ hle h now hnow => Nat.le_trans (h now hnow) hle)
    (fun _ now hnow => ?_)
    (fun t call g phase _ ht hact => ⟨fun now hnow => ?_, fun u θ _ hu => ?_⟩) h hs
  · cases hnow
  · have hacts : Acts cfg shard w call.request call.phase g phase := .of_act hact
    obtain rfl | hold := hacts.reading hnow
    · exact Nat.le_refl _
    · exact h t call ht now hold
  · exact h u θ hu

/-- **Step lemma.** -/
theorem timely_step (h : Timely w) (hs : (program cfg shard).step w e = some w') : Timely w' := by
  refine ⟨dated_step h.dated hs, ?_⟩
  cases Program.step_cases hs with
  | tick hshows => exact of_decide_eq_true hshows
  | call => exact h.clock_lt
  | act => exact h.clock_lt

theorem timely_run {es : List (Event Ip)}
    (hrun : run (program cfg shard).step (initial Ip) es = some w) : Timely w := by
  refine invariant_of_run (fun _ _ _ => timely_step) ⟨fun t call h => ?_, Nat.zero_lt_succ _⟩ hrun
  simp [initial] at h

/-! ## one profile -/

/-- What a call at `phase` makes of the block: nothing; or it is an evaluation that takes its
next access, or undoes the block by hand, or records an attempt that blocks. -/
inductive Change (cfg : BehaviourConfig) (ip : Ip) (p p' : IpProfile) (op : Op Ip) (phase : Phase) :
    Prop
  | none (hblocked : p'.blocked = p.blocked) (hdeadline : p'.blockUntilNs = p.blockUntilNs)
  | evaluation {exclusive : Bool} {now : Nat} {point : Point} (hop : op = .checkRequest ip)
      (hphase : phase = .evaluating exclusive now point) (hp' : p' = (point.step cfg now p).1)
  | unblock (hop : op = .unblockIp ip)
  | attempt {now : Nat} (hop : op = .recordSqliAttempt ip) (hphase : phase = .ready now)
      (hthreshold : cfg.sqliBlockThreshold ≤ p.sqliAttempts + 1)

theorem change_store {ip' : Ip} {q : IpProfile} (hp : w.shared.profile? ip = some p)
    (hchange : ip = ip' → Change cfg ip p q op phase) :
    ∃ p', (w.shared.store ip' q).profile? ip = some p' ∧ Change cfg ip p p' op phase := by
  by_cases hip : ip = ip'
  · exact ⟨q, by rw [profile?_store, if_pos hip], hchange hip⟩
  · exact ⟨p, by rw [profile?_store, if_neg hip, hp], .none rfl rfl⟩

omit [DecidableEq Ip] in
theorem change_attempt (hthreshold : ¬ cfg.sqliBlockThreshold ≤ p.sqliAttempts + 1) :
    Change cfg ip p (p.attempt cfg now) op phase := by
  have hattempt : p.attempt cfg now = { p with sqliAttempts := p.sqliAttempts + 1 } := by
    rw [IpProfile.attempt, if_neg hthreshold]
  rw [hattempt]
  exact .none rfl rfl

/-- What an access does to a profile that is there. -/
theorem Acts.profile (h : Acts cfg shard w op phase g phase') (hp : w.shared.profile? ip = some p) :
    ∃ p', g.profile? ip = some p' ∧ Change cfg ip p p' op phase := by
  cases h with
  | approach | away | miss | enter | finish => exact ⟨p, hp, .none rfl rfl⟩
  | @create ip' now =>
    refine change_store hp fun hip => ?_
    subst hip
    rw [hp]
    exact .none rfl rfl
  | @move ip' exclusive now point q hq =>
    refine change_store hp fun hip => ?_
    subst hip
    obtain rfl := Option.some.inj (hp.symm.trans hq)
    exact .evaluation rfl rfl rfl
  | @error ip' =>
    simp only [BehaviourGuard.recordRequest, Bool.not_true, Bool.false_eq_true, if_false]
    split
    case h_1 q hq =>
      refine change_store hp fun hip => ?_
      subst hip
      obtain rfl := Option.some.inj (hp.symm.trans hq)
      exact .none rfl rfl
    case h_2 => exact ⟨p, hp, .none rfl rfl⟩
  | @update ip' now =>
    refine change_store hp fun hip => ?_
    subst hip
    rw [hp, Option.getD_some]
    by_cases hthreshold : cfg.sqliBlockThreshold ≤ p.sqliAttempts + 1
    · exact .attempt rfl rfl hthreshold
    · exact change_attempt hthreshold
  | @lift ip' =>
    refine change_store hp fun hip => ?_
    exact .unblock (by rw [hip])

/-- A call that evaluates has just begun to, or goes on. -/
theorem Acts.evaluating {exclusive : Bool} {point' : Point}
    (h : Acts cfg shard w op phase g (.evaluating exclusive now point')) :
    point' = .loadWindow ∨ ∃ ip point p, op = .checkRequest ip ∧
      phase = .evaluating exclusive now point ∧ w.shared.profile? ip = some p ∧
      point' = (point.step cfg now p).2 := by
  cases h with
  | approach _ hidle => cases hidle
  | enter => exact .inl rfl
  | create => exact .inl rfl
  | move hp => exact .inr ⟨_, _, _, rfl, rfl, hp, rfl⟩

/-! ## a block in force -/

/-- The call does not get past a block until `d`.  One of the first `n` may have got past before
it was set; such a call sets no shorter block itself. -/
def Meets (ip : Ip) (d n t : Nat) (_ : BehaviourGuard Ip) (clock : Nat) (call : Call Ip) : Prop :=
  clock < d → call.request = .checkRequest ip → ∀ exclusive now point,
    call.phase = .evaluating exclusive now point →
      point.isHeld = true ∨ t < n ∧ point.isJudging = true ∧ d ≤ scanningBlockNs + now

/-- The address is blocked until `d`. -/
structure InForce (ip : Ip) (d n : Nat) (w : State Ip) : Prop where
  blocked : ∃ p, w.shared.profile? ip = some p ∧
    (w.clock < d → p.blocked = true ∧ min d u64Max ≤ p.blockUntilNs)
  calls : Each (Meets ip d n) w

/-- No unblocking of the address goes on. -/
def Unlifted (ip : Ip) (w : State Ip) : Event Ip → Prop
  | .advance t => ∀ call ∈ w.threads[t]?, call.request ≠ .unblockIp ip
  | .tick _ | .call _ => True

instance : Decidable (Unlifted ip w e) :=
  match e with
  | .advance t => inferInstanceAs (Decidable (∀ call ∈ w.threads[t]?, call.request ≠ .unblockIp ip))
  | .tick _ | .call _ => .isTrue trivial

/-- The time that a blocking attempt has read. -/
def deadlines (cfg : BehaviourConfig) (ip : Ip) (w : State Ip) : Event Ip → List Nat
  | .advance t =>
    match w.threads[t]? with
    | some ⟨.recordSqliAttempt ip', .ready now⟩ =>
      if ip' = ip ∧ cfg.sqliBlockThreshold ≤
          ((w.shared.profile? ip).getD (.new now)).sqliAttempts + 1 then [now]
      else []
    | _ => []
  | .tick _ | .call _ => []

theorem isPending_of_deadline (hdeadline : min d u64Max ≤ p.blockUntilNs) (hd : now < d)
    (hclock : now < u64Max) : p.isPending now = true := by
  have hlt : now < p.blockUntilNs := Nat.lt_of_lt_of_le (Nat.lt_min.2 ⟨hd, hclock⟩) hdeadline
  simp only [IpProfile.isPending, Bool.and_eq_true, decide_eq_true_eq]
  exact ⟨by omega, hlt⟩

omit [DecidableEq Ip] in
/-- What the evaluation of a call makes of a block in force. -/
theorem inForce_evaluation {exclusive : Bool} {point : Point} (htimely : Timely w)
    (hforce : Each (Meets ip d n) w) (hclock : w.clock < d) (hblocked : p.blocked = true)
    (hdeadline : min d u64Max ≤ p.blockUntilNs)
    (ht : w.threads[t]? = some ⟨.checkRequest ip, .evaluating exclusive now point⟩) :
    ((point.step cfg now p).1.blocked = true ∧
        min d u64Max ≤ (point.step cfg now p).1.blockUntilNs) ∧
      ((point.step cfg now p).2.isHeld = true ∨
        t < n ∧ (point.step cfg now p).2.isJudging = true ∧ d ≤ scanningBlockNs + now) := by
  have hnow : now ≤ w.clock := htimely.dated t _ ht now rfl
  obtain hheld | ⟨hn, hjudging, hd⟩ := hforce t _ ht hclock rfl exclusive now point rfl
  · have hpending : p.isPending now = true :=
      isPending_of_deadline hdeadline (Nat.lt_of_le_of_lt hnow hclock)
        (Nat.lt_of_le_of_lt hnow htimely.clock_lt)
    obtain ⟨hheld, hblocked, hsame⟩ := step_of_isHeld cfg hblocked hpending hheld
    exact ⟨⟨hblocked, hsame ▸ hdeadline⟩, .inl hheld⟩
  · obtain ⟨hjudging, hstays, hset⟩ := step_of_isJudging cfg now p hjudging
    refine ⟨⟨hstays hblocked, ?_⟩, .inr ⟨hn, hjudging, hd⟩⟩
    obtain hsame | hset := hset
    · exact hsame ▸ hdeadline
    · rw [hset, saturatingAdd]
      omega

theorem deadlines_attempt {ip : Ip} (ht : w.threads[t]? = some ⟨.recordSqliAttempt ip, .ready now⟩)
    (hthreshold : cfg.sqliBlockThreshold ≤
      ((w.shared.profile? ip).getD (.new now)).sqliAttempts + 1) :
    deadlines cfg ip w (.advance t) = [now] := by
  simp only [deadlines, ht]
  rw [if_pos ⟨trivial, hthreshold⟩]

/-- **Step lemma.**  A block stays in force unless it is undone by hand, or another attempt
sets a new deadline. -/
theorem inForce_step (htimely : Timely w) (h : InForce ip d n w) (hunlifted : Unlifted ip w e)
    (hdeadlines : deadlines cfg ip w e = []) (hs : (program cfg shard).step w e = some w') :
    InForce ip d n w' := by
  obtain ⟨⟨p, hp, hblocked⟩, hcalls⟩ := h
  constructor
  case blocked =>
    cases Program.step_cases hs with
    | tick =>
      exact ⟨p, hp, fun hclock => hblocked (Nat.lt_of_le_of_lt (Nat.le_add_right ..) hclock)⟩
    | call => exact ⟨p, hp, hblocked⟩
    | @act t call g phase ht hact =>
      have hacts : Acts cfg shard w call.request call.phase g phase := .of_act hact
      obtain ⟨p', hp', hchange⟩ := hacts.profile hp
      refine ⟨p', hp', fun hclock => ?_⟩
      obtain ⟨hblocked, hdeadline⟩ := hblocked hclock
      obtain ⟨op, phase₀⟩ := call
      cases hchange with
      | none hsame hsame' => exact ⟨hsame.trans hblocked, hsame' ▸ hdeadline⟩
      | evaluation hop hphase hp'' =>
        subst hop hphase hp''
        exact (inForce_evaluation htimely hcalls hclock hblocked hdeadline ht).1
      | unblock hop => exact absurd hop (hunlifted _ ht)
      | attempt hop hphase hthreshold =>
        subst hop hphase
        rw [deadlines_attempt ht (by rw [hp]; exact hthreshold)] at hdeadlines
        cases hdeadlines
  case calls =>
    refine Program.each_step (fun _ _ _ _ _ hle h hclock => h (Nat.lt_of_le_of_lt hle hclock))
      (fun request _ _ exclusive now point hphase => ?_)
      (fun t call g phase he ht hact => ⟨fun hclock hop exclusive now point hphase => ?_,
        fun u other _ hu => hcalls u other hu⟩) hcalls hs
    · cases hphase
    · obtain ⟨op, phase₀⟩ := call
      subst hop hphase
      have hacts : Acts cfg shard w (.checkRequest ip) phase₀ g (.evaluating exclusive now point) :=
        .of_act hact
      obtain rfl | ⟨ip', point₀, q, hop, rfl, hq, rfl⟩ := hacts.evaluating
      · exact .inl rfl
      · cases hop
        obtain rfl := Option.some.inj (hp.symm.trans hq)
        obtain ⟨hblocked, hdeadline⟩ := hblocked hclock
        exact (inForce_evaluation htimely hcalls hclock hblocked hdeadline ht).2

/-! ## injections -/

/-- What a call of `record_sqli_attempt` that has read the clock does. -/
theorem step_attempt (ht : w.threads[t]? = some ⟨.recordSqliAttempt ip, .ready now⟩)
    (hs : (program cfg shard).step w (.advance t) = some w') :
    canWrite shard w ip = true ∧
      w' = w.acted t ⟨.recordSqliAttempt ip, .ready now⟩
        (w.shared.store ip (((w.shared.profile? ip).getD (.new now)).attempt cfg now))
        (.returned .recorded) := by
  cases Program.step_cases hs with
  | @act _ call g phase ht' hact =>
    obtain rfl := Option.some.inj (ht.symm.trans ht')
    have hact : sqliAct cfg shard w ip (.ready now) = some (g, phase) := hact
    simp only [sqliAct, Option.ite_none_right_eq_some, Option.some.injEq, Prod.mk.injEq] at hact
    obtain ⟨hfree, rfl, rfl⟩ := hact
    exact ⟨hfree, rfl⟩

omit [DecidableEq Ip] in
theorem not_evaluating_of_canWrite {u : Nat} {exclusive : Bool} {point : Point}
    (hfree : canWrite shard w ip = true) :
    w.threads[u]? ≠ some ⟨.checkRequest ip, .evaluating exclusive now point⟩ := by
  intro hu
  have hholds := List.all_eq_true.1 hfree _ (List.mem_of_getElem? hu)
  simp [Op.address, Phase.holds] at hholds

theorem attempt_of_threshold (now : Nat) (h : cfg.sqliBlockThreshold ≤ p.sqliAttempts + 1) :
    (p.attempt cfg now).blocked = true ∧
      (p.attempt cfg now).blockUntilNs = saturatingAdd now sqliBlockNs := by
  rw [IpProfile.attempt, if_pos h]
  exact ⟨rfl, rfl⟩

/-- A blocking attempt takes effect when nobody evaluates the profile. -/
theorem inForce_update (ht : w.threads[t]? = some ⟨.recordSqliAttempt ip, .ready now⟩)
    (hthreshold : cfg.sqliBlockThreshold ≤
      ((w.shared.profile? ip).getD (.new now)).sqliAttempts + 1)
    (hs : (program cfg shard).step w (.advance t) = some w') :
    InForce ip (sqliBlockNs + now) 0 w' := by
  obtain ⟨hfree, rfl⟩ := step_attempt ht hs
  obtain ⟨hblocked, hdeadline⟩ := attempt_of_threshold now hthreshold
  refine ⟨⟨_, ?_, fun _ => ⟨hblocked, Nat.le_of_eq hdeadline.symm⟩⟩, ?_⟩
  · exact (profile?_store ip).trans (if_pos rfl)
  · intro u call hu _ hop exclusive reading point hphase
    obtain ⟨op, phase⟩ := call
    subst hop hphase
    rw [getElem?_acted ht] at hu
    split at hu
    · cases hu
    · exact absurd hu (not_evaluating_of_canWrite hfree)

/-- Whether an event is a blocking attempt. -/
theorem deadlines_eq (cfg : BehaviourConfig) (ip : Ip) (w : State Ip) (e : Event Ip) :
    deadlines cfg ip w e = [] ∨
    ∃ t now, e = .advance t ∧ w.threads[t]? = some ⟨.recordSqliAttempt ip, .ready now⟩ ∧
      cfg.sqliBlockThreshold ≤ ((w.shared.profile? ip).getD (.new now)).sqliAttempts + 1 ∧
      deadlines cfg ip w e = [now] := by
  cases e with
  | tick d => exact .inl rfl
  | call op => exact .inl rfl
  | advance t =>
    simp only [deadlines]
    split
    case h_1 ip' now ht =>
      split
      case isTrue h =>
        obtain ⟨rfl, hthreshold⟩ := h
        exact .inr ⟨t, now, rfl, ht, hthreshold, rfl⟩
      case isFalse => exact .inl rfl
    case h_2 => exact .inl rfl

/-- **Step lemma.**  The last attempt that blocked sets the deadline. -/
theorem inForce_deadlines {log : List Nat} {first : Nat} (htimely : Timely w)
    (h : InForce ip (sqliBlockNs + log.getLastD first) 0 w) (hunlifted : Unlifted ip w e)
    (hs : (program cfg shard).step w e = some w') :
    InForce ip (sqliBlockNs + (log ++ deadlines cfg ip w e).getLastD first) 0 w' := by
  obtain hnone | ⟨t, now, rfl, ht, hthreshold, hone⟩ := deadlines_eq cfg ip w e
  · rw [hnone, List.append_nil]
    exact inForce_step htimely h hunlifted hnone hs
  · rw [hone, List.getLastD_concat]
    exact inForce_update ht hthreshold hs

/-- **An SQL-injection block lasts its full time.**  Once an attempt for an address has brought
its count to the threshold, and as long as nobody lifts the block by hand: a check that has
evaluated the profile and returns less than ten minutes after the reading of the attempt that
was the last to set the deadline has found it blocked, and returns that. -/
theorem sqli_block_lasts (cfg : BehaviourConfig) (shard : Ip → Nat) (ip : Ip)
    (es fs : List (Event Ip)) (t now : Nat) (w w₁ w₂ : State Ip)
    (hes : run (program cfg shard).step (initial Ip) es = some w)
    (ht : w.threads[t]? = some ⟨.recordSqliAttempt ip, .ready now⟩)
    (hupdate : (program cfg shard).step w (.advance t) = some w₁)
    (hthreshold : ∃ p, w₁.shared.profile? ip = some p ∧ cfg.sqliBlockThreshold ≤ p.sqliAttempts)
    (hfs : run (program cfg shard).step w₁ fs = some w₂)
    (hunlifted : Guarded (program cfg shard).step (Unlifted ip) w₁ fs) (u reading : Nat)
    (exclusive : Bool) (verdict : Verdict)
    (hu : w₂.threads[u]? = some ⟨.checkRequest ip, .evaluating exclusive reading (.done verdict)⟩)
    (hclock : w₂.clock <
      sqliBlockNs + (trace (program cfg shard).step (deadlines cfg ip) w₁ fs).getLastD now) :
    verdict.isBlocked = true ∧ (program cfg shard).step w₂ (.advance u) =
      some (w₂.acted u ⟨.checkRequest ip, .evaluating exclusive reading (.done verdict)⟩ w₂.shared
         (.returned (.verdict verdict))) := by
  have hattempts : cfg.sqliBlockThreshold ≤
      ((w.shared.profile? ip).getD (.new now)).sqliAttempts + 1 := by
    obtain ⟨p, hp, hthreshold⟩ := hthreshold
    obtain ⟨-, rfl⟩ := step_attempt ht hupdate
    obtain rfl := Option.some.inj (((profile?_store ip).trans (if_pos rfl)).symm.trans hp)
    rwa [sqliAttempts_attempt] at hthreshold
  have hend : Timely w₂ ∧ InForce ip
      (sqliBlockNs + (trace (program cfg shard).step (deadlines cfg ip) w₁ fs).getLastD now) 0 w₂ :=
    invariant_of_guarded_trace
      (I := fun w log => Timely w ∧ InForce ip (sqliBlockNs + log.getLastD now) 0 w)
      (fun _ _ _ _ hI hG hs => ⟨timely_step hI.1 hs, inForce_deadlines hI.1 hI.2 hG hs⟩)
      ⟨timely_step (timely_run hes) hupdate, inForce_update ht hattempts hupdate⟩ hunlifted hfs
  have hblocked : verdict.isBlocked = true := by
    obtain hheld | ⟨hlt, -⟩ := hend.2.calls u _ hu hclock rfl exclusive reading (.done verdict) rfl
    · exact hheld
    · cases hlt
  exact ⟨hblocked, Program.step_advance hu rfl⟩

/-- One after the other. -/
def advances (n t : Nat) : List (Event Ip) := List.replicate n (.advance t)

/-- The first attempt blocks. -/
def strict : BehaviourConfig := { sqliBlockThreshold := 1 }

/-- An attempt is recorded, and then a check comes, up to its return. -/
theorem sqli_block_lasts_checked :
    ∃ w w₁ w₂, run (program strict fun _ => 0).step (initial Nat)
        (.tick 1 :: .call (.recordSqliAttempt 0) :: advances 2 0) = some w ∧
      (program strict fun _ => 0).step w (.advance 0) = some w₁ ∧
      run (program strict fun _ => 0).step w₁ (.tick 8 :: .call (.checkRequest 0) :: advances 6 1) =
        some w₂ ∧
      ∃ verdict, w₂.threads[1]? = some ⟨.checkRequest 0, .evaluating false 9 (.done verdict)⟩ ∧
        verdict.isBlocked = true := by
  refine ⟨_, _, _, rfl, rfl, rfl, _, rfl, ?_⟩
  exact And.left (sqli_block_lasts strict (fun _ => 0) 0
    (.tick 1 :: .call (.recordSqliAttempt 0) :: advances 2 0)
    (.tick 8 :: .call (.checkRequest 0) :: advances 6 1) 0 1 _ _ _ rfl rfl rfl
    ⟨_, rfl, by decide⟩ rfl (by decide) 1 9 false _ rfl (by decide))

/-! ## scans -/

/-- The call is not about to clear a block, or to set one that was computed before `now`. -/
def Phase.spares (now : Nat) : Phase → Bool
  | .evaluating _ reading point => point.isHeld || point.isJudging && now ≤ reading
  | .start | .full | .admitted | .ready _ | .missing _ | .lifting _ | .returned _ => true

/-- Call `t` is about to set the deadline of a block, having read the time `now`.  The flag that
it has set before is still there, and none of the other evaluations of the address gets in its
way. -/
structure Settled (ip : Ip) (t now : Nat) (w : State Ip) : Prop where
  flag : ∃ p, w.shared.profile? ip = some p ∧ p.blocked = true
  others : ∀ u < w.threads.length, u ≠ t → ∀ call ∈ w.threads[u]?,
    call.request = .checkRequest ip → call.phase.spares now = true

/-- A scan that is settled puts the block in force. -/
theorem inForce_scan {exclusive : Bool} {rate : Float64} {count : UInt32} (ht : w.threads[t]? =
      some ⟨.checkRequest ip, .evaluating exclusive now (.setDeadline rate count)⟩)
    (hsettled : Settled ip t now w) (hs : (program cfg shard).step w (.advance t) = some w') :
    InForce ip (scanningBlockNs + now) w'.threads.length w' := by
  obtain ⟨p, hp, hflag⟩ := hsettled.flag
  have hdone : ∀ verdict, Point.setDeadline rate count ≠ .done verdict := by
    intro verdict h
    cases h
  have hact : act cfg shard w (.checkRequest ip)
      (.evaluating exclusive now (.setDeadline rate count)) =
        some (w.shared.store ip { p with blockUntilNs := saturatingAdd now scanningBlockNs },
          .evaluating exclusive now (.done (.block (.scanningDetected rate count)))) := by
    rw [act, checkAct_evaluating hdone, hp]
    rfl
  obtain rfl := Option.some.inj ((Program.step_advance ht hact).symm.trans hs)
  refine ⟨⟨_, (profile?_store ip).trans (if_pos rfl), fun _ => ⟨hflag, Nat.le_refl _⟩⟩, ?_⟩
  intro u call hu _ hop exclusive' reading point hphase
  have hlt : u < (w.acted t ⟨.checkRequest ip, _⟩ _ _).threads.length :=
    (List.getElem?_eq_some_iff.1 hu).1
  obtain ⟨op, phase⟩ := call
  subst hop hphase
  rw [getElem?_acted ht] at hu
  split at hu
  case isTrue =>
    cases hu
    exact .inl rfl
  case isFalse hut =>
    have hspares := hsettled.others u (List.getElem?_eq_some_iff.1 hu).1 hut _ hu rfl
    simp only [Phase.spares, Bool.or_eq_true, Bool.and_eq_true, decide_eq_true_eq] at hspares
    obtain hheld | ⟨hjudging, hle⟩ := hspares
    · exact .inl hheld
    · exact .inr ⟨hlt, hjudging, Nat.add_le_add_left hle _⟩

/-- Checks from number `n` on have returned a block. -/
def Answered (ip : Ip) (d n t : Nat) (_ : BehaviourGuard Ip) (clock : Nat) (call : Call Ip) :
    Prop :=
  n ≤ t → clock < d → call.request = .checkRequest ip →
    ∀ verdict, call.phase = .returned (.verdict verdict) → verdict.isBlocked = true

/-- A verdict comes from an evaluation, or the address was not tracked. -/
theorem Acts.verdict {verdict : Verdict}
    (h : Acts cfg shard w (.checkRequest ip) phase g (.returned (.verdict verdict))) :
    w.shared.profile? ip = none ∨
      ∃ exclusive now, phase = .evaluating exclusive now (.done verdict) := by
  cases h with
  | approach _ hidle => cases hidle
  | away habsent => exact .inl habsent
  | finish => exact .inr ⟨_, _, rfl⟩

/-- **Step lemma.** -/
theorem answered_step (hforce : InForce ip d n w) (h : Each (Answered ip d n) w)
    (hs : (program cfg shard).step w e = some w') : Each (Answered ip d n) w' := by
  refine Program.each_step
    (fun _ _ _ _ _ hle h hn hclock => h hn (Nat.lt_of_le_of_lt hle hclock))
    (fun request _ _ _ verdict hphase => ?_)
    (fun t call g phase he ht hact => ⟨fun hn hclock hop verdict hphase => ?_,
      fun u other _ hu => h u other hu⟩) h hs
  · cases hphase
  · obtain ⟨op, phase₀⟩ := call
    subst hop hphase
    have hacts : Acts cfg shard w (.checkRequest ip) phase₀ g (.returned (.verdict verdict)) :=
      .of_act hact
    obtain habsent | ⟨exclusive, now, rfl⟩ := hacts.verdict
    · obtain ⟨p, hp, -⟩ := hforce.blocked
      cases habsent.symm.trans hp
    · obtain hheld | ⟨hlt, -⟩ := hforce.calls t _ ht hclock rfl exclusive now (.done verdict) rfl
      · exact hheld
      · exact absurd hn (Nat.not_le.2 hlt)

/-- Nobody unblocks the address, or records an attempt. -/
def Undisturbed (ip : Ip) (w : State Ip) : Event Ip → Prop
  | .advance t => ∀ call ∈ w.threads[t]?,
      call.request ≠ .unblockIp ip ∧ call.request ≠ .recordSqliAttempt ip
  | .tick _ | .call _ => True

instance : Decidable (Undisturbed ip w e) :=
  match e with
  | .advance t => inferInstanceAs (Decidable (∀ call ∈ w.threads[t]?,
      call.request ≠ .unblockIp ip ∧ call.request ≠ .recordSqliAttempt ip))
  | .tick _ | .call _ => .isTrue trivial

theorem deadlines_of_undisturbed (h : Undisturbed ip w e) : deadlines cfg ip w e = [] := by
  obtain hnone | ⟨t, now, rfl, ht, -⟩ := deadlines_eq cfg ip w e
  · exact hnone
  · exact absurd rfl (h _ ht).2

omit [DecidableEq Ip] in
theorem unlifted_of_undisturbed (h : Undisturbed ip w e) : Unlifted ip w e := by
  cases e with
  | tick | call => trivial
  | advance t => exact fun call hcall => (h call hcall).1

/-- **A scanning block is not lost.**  Once a check has set the deadline of such a block, and the
block is settled, and as long as nobody lifts it by hand or blocks for an injection: every check
of the address that starts afterwards and has returned within five minutes of the time the block
was computed at has returned a block. -/
theorem scanning_block_kept (cfg : BehaviourConfig) (shard : Ip → Nat) (ip : Ip)
    (es fs : List (Event Ip)) (t now : Nat) (exclusive : Bool) (rate : Float64) (count : UInt32)
    (w w₁ w₂ : State Ip) (hes : run (program cfg shard).step (initial Ip) es = some w)
    (ht : w.threads[t]? =
      some ⟨.checkRequest ip, .evaluating exclusive now (.setDeadline rate count)⟩)
    (hsettled : Settled ip t now w) (hset : (program cfg shard).step w (.advance t) = some w₁)
    (hfs : run (program cfg shard).step w₁ fs = some w₂)
    (hundisturbed : Guarded (program cfg shard).step (Undisturbed ip) w₁ fs) (u : Nat)
    (verdict : Verdict) (hu : w₁.threads.length ≤ u)
    (hreturned : w₂.threads[u]? = some ⟨.checkRequest ip, .returned (.verdict verdict)⟩)
    (hclock : w₂.clock < scanningBlockNs + now) : verdict.isBlocked = true := by
  have hanswered : Each (Answered ip (scanningBlockNs + now) w₁.threads.length) w₁ := by
    intro v call hv hge
    exact absurd hge (Nat.not_le.2 (List.getElem?_eq_some_iff.1 hv).1)
  obtain ⟨-, -, hend⟩ := invariant_of_guarded
    (I := fun w => Timely w ∧ InForce ip (scanningBlockNs + now) w₁.threads.length w ∧
      Each (Answered ip (scanningBlockNs + now) w₁.threads.length) w)
    (fun _ _ _ hI hG hs => ⟨timely_step hI.1 hs,
      inForce_step hI.1 hI.2.1 (unlifted_of_undisturbed hG) (deadlines_of_undisturbed hG) hs,
      answered_step hI.2.1 hI.2.2 hs⟩)
    ⟨timely_step (timely_run hes) hset, inForce_scan ht hsettled hset, hanswered⟩ hundisturbed hfs
  exact hend u _ hreturned hu hclock rfl verdict rfl

/-- Two requests with errors. -/
def twoErrors : List (Event Nat) :=
  List.flatten [[.tick 1, .call (.checkRequest 0)], advances 8 0,
    [.call (.recordRequest 0 true)], advances 1 1, [.call (.checkRequest 0)], advances 7 2,
    [.call (.recordRequest 0 true)], advances 1 3]

/-- A third one, up to the deadline of its block. -/
def thirdRequest : List (Event Nat) :=
  List.flatten [twoErrors, [.call (.checkRequest 0)], advances 8 4]

theorem scanning_block_kept_alone :
    ∃ w w₁ w₂, run (program fromThird fun _ => 0).step (initial Nat) thirdRequest = some w ∧
      (program fromThird fun _ => 0).step w (.advance 4) = some w₁ ∧
      run (program fromThird fun _ => 0).step w₁ (.call (.checkRequest 0) :: advances 7 5) =
        some w₂ ∧
      ∃ verdict, w₂.threads[5]? = some ⟨.checkRequest 0, .returned (.verdict verdict)⟩ ∧
        verdict.isBlocked = true := by
  refine ⟨_, _, _, rfl, rfl, rfl, _, rfl, ?_⟩
  exact scanning_block_kept fromThird (fun _ => 0) 0 thirdRequest
    (.call (.checkRequest 0) :: advances 7 5) 4 1 false (errorRate 2 3) 3 _ _ _ rfl rfl
    ⟨⟨_, rfl, rfl⟩, by decide⟩ rfl rfl (by decide) 5 _ (by decide) rfl (by decide)

/-- Between the two stores of the third request, a fourth one finds the flag without a deadline,
and is going to clear it. -/
def flagWithoutDeadline : List (Event Nat) :=
  List.flatten [thirdRequest, [.call (.checkRequest 0)], advances 6 5, advances 2 4]

/-- The fourth request clears the block, and a fifth one comes. -/
def blockCleared : List (Event Nat) :=
  List.flatten [advances 5 5, [.call (.checkRequest 0)], advances 8 6]

/-- The third request has returned a block, but the fifth, which comes after that, is allowed. -/
theorem scanning_block_lost :
    ∃ w w', run (program fromThird fun _ => 0).step (initial Nat) flagWithoutDeadline = some w ∧
      w.threads[4]? = some ⟨.checkRequest 0,
        .returned (.verdict (.block (.scanningDetected (errorRate 2 3) 3)))⟩ ∧
      w.threads.length = 6 ∧
      run (program fromThird fun _ => 0).step w blockCleared = some w' ∧
      Guarded (program fromThird fun _ => 0).step (Undisturbed 0) w blockCleared ∧ w'.clock = 1 ∧
      w'.threads[6]? = some ⟨.checkRequest 0, .returned (.verdict .allow)⟩ :=
  ⟨_, _, rfl, rfl, rfl, rfl, by decide, rfl, rfl⟩

end Turbine.Security.Concurrent
