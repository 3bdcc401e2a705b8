import Turbine.Base.Threads
import Turbine.Security.Evaluation
import Turbine.Security.Restart

/-!
# Turbine.Security.Concurrent

Any number of concurrent calls to the behaviour guard, for any addresses.  A call reads
the clock before it takes the lock of its shard.  Evaluations hold the lock in read mode,
so that those of one address run among each other; the update of `record_sqli_attempt`
takes it in write mode.

* `guard_call_alone`: a call that nobody comes in between is the function of the guard.
-/

namespace Turbine.Security.Concurrent

open Base Threads

/-! ## model -/

inductive Result
  | verdict (verdict : Verdict)
  | unblocked (found : Bool)
  | recorded
deriving DecidableEq

/-- Where a call stands: it has found the map full (`full`) or not, or its address in it
(`admitted`), has read the clock (`ready`), has found no profile (`missing`), evaluates its
profile or lifts its block, or has returned.  An evaluation whose call has put in the profile
holds the lock in write mode. -/
inductive Phase
  | start
  | full
  | admitted
  | ready (now : Nat)
  | missing (now : Nat)
  | evaluating (exclusive : Bool) (now : Nat) (point : Point)
  | lifting (point : Point)
  | returned (result : Result)
deriving DecidableEq

variable {Ip : Type} [DecidableEq Ip]

abbrev State (Ip : Type) := World (BehaviourGuard Ip) (Op Ip) Phase

abbrev Call (Ip : Type) := Thread (Op Ip) Phase

abbrev Event (Ip : Type) := Threads.Event (Op Ip)

/-- The call holds the lock of its shard. -/
def Phase.holds : Phase → Bool
  | .evaluating .. | .lifting _ => true
  | .start | .full | .admitted | .ready _ | .missing _ | .returned _ => false

/-- The call holds it in write mode. -/
def Phase.holdsExclusively : Phase → Bool
  | .evaluating exclusive .. => exclusive
  | .lifting _ | .start | .full | .admitted | .ready _ | .missing _ | .returned _ => false

/-- The lock can be taken in read mode. -/
def canRead (shard : Ip → Nat) (w : State Ip) (ip : Ip) : Bool :=
  w.threads.all fun call =>
    !(shard call.request.address = shard ip && call.phase.holdsExclusively)

/-- The lock can be taken in write mode. -/
def canWrite (shard : Ip → Nat) (w : State Ip) (ip : Ip) : Bool :=
  w.threads.all fun call => !(shard call.request.address = shard ip && call.phase.holds)

/-- The test whether the map is full, and the reading of the clock. -/
def approach (shard : Ip → Nat) (w : State Ip) (ip : Ip) (away : Result) : Phase → Option Phase
  | .start => some (if w.shared.maxProfiles ≤ w.shared.size then .full else .admitted)
  | .full =>
    if canRead shard w ip then
      some (if (w.shared.profile? ip).isSome then .admitted else .returned away)
    else none
  | .admitted => some (.ready w.clock)
  | .ready _ | .missing _ | .evaluating .. | .lifting _ | .returned _ => none

/-- `BehaviourGuard::check_request`. -/
def checkAct (cfg : BehaviourConfig) (shard : Ip → Nat) (w : State Ip) (ip : Ip) :
    Phase → Option (BehaviourGuard Ip × Phase)
  | .ready now =>
    if canRead shard w ip then
      some (w.shared, if (w.shared.profile? ip).isSome then .evaluating false now .loadWindow
        else .missing now)
    else none
  | .missing now =>
    if canWrite shard w ip then
      some (w.shared.store ip ((w.shared.profile? ip).getD (.new now)),
        .evaluating true now .loadWindow)
    else none
  | .evaluating _ _ (.done verdict) => some (w.shared, .returned (.verdict verdict))
  | .evaluating exclusive now point =>
    (w.shared.profile? ip).map fun p =>
      (w.shared.store ip (point.step cfg now p).1,
        .evaluating exclusive now (point.step cfg now p).2)
  | phase => (approach shard w ip (.verdict .allow) phase).map (w.shared, ·)

/-- `BehaviourGuard::record_request`. -/
def recordAct (shard : Ip → Nat) (w : State Ip) (ip : Ip) (wasError : Bool) :
    Phase → Option (BehaviourGuard Ip × Phase)
  | .start =>
    if !wasError then some (w.shared, .returned .recorded)
    else if canRead shard w ip then some (w.shared.recordRequest ip true, .returned .recorded)
    else none
  | _ => none

/-- `BehaviourGuard::record_sqli_attempt`. -/
def sqliAct (cfg : BehaviourConfig) (shard : Ip → Nat) (w : State Ip) (ip : Ip) :
    Phase → Option (BehaviourGuard Ip × Phase)
  | .ready now =>
    if canWrite shard w ip then
      some (w.shared.store ip (((w.shared.profile? ip).getD (.new now)).attempt cfg now),
        .returned .recorded)
    else none
  | phase => (approach shard w ip .recorded phase).map (w.shared, ·)

/-- `BehaviourGuard::unblock_ip`; its three stores are those of an evaluation that lifts a
block. -/
def unblockAct (cfg : BehaviourConfig) (shard : Ip → Nat) (w : State Ip) (ip : Ip) :
    Phase → Option (BehaviourGuard Ip × Phase)
  | .start =>
    if canRead shard w ip then
      some (w.shared, if (w.shared.profile? ip).isSome then .lifting .liftBlock
        else .returned (.unblocked false))
    else none
  | .lifting .loadBlocked => some (w.shared, .returned (.unblocked true))
  | .lifting point =>
    (w.shared.profile? ip).map fun p =>
      (w.shared.store ip (point.step cfg 0 p).1, .lifting (point.step cfg 0 p).2)
  | _ => none

/-- The next access of a call. -/
def act (cfg : BehaviourConfig) (shard : Ip → Nat) (w : State Ip) :
    Op Ip → Phase → Option (BehaviourGuard Ip × Phase)
  | .checkRequest ip => checkAct cfg shard w ip
  | .recordRequest ip wasError => recordAct shard w ip wasError
  | .recordSqliAttempt ip => sqliAct cfg shard w ip
  | .unblockIp ip => unblockAct cfg shard w ip

/-- The clock has 64 bits: it gets to their end after 584 years. -/
def program (cfg : BehaviourConfig) (shard : Ip → Nat) :
    Program (BehaviourGuard Ip) (Op Ip) Phase where
  start := .start
  act w call := act cfg shard w call.request call.phase
  shows clock := clock < u64Max

/-- A new guard, before any call. -/
def initial (Ip : Type) : State Ip := { shared := { profiles := ∅ } }

/-! ## what one access does -/

/-- When the call read the clock. -/
def Phase.reading? : Phase → Option Nat
  | .ready now | .missing now | .evaluating _ now _ => some now
  | .start | .full | .admitted | .lifting _ | .returned _ => none

/-- The call neither evaluates nor has a verdict. -/
def Phase.isIdle : Phase → Bool
  | .evaluating .. | .returned (.verdict _) => false
  | .start | .full | .admitted | .ready _ | .missing _ | .lifting _ | .returned (.unblocked _)
  | .returned .recorded => true

/-- One access, by what it does. -/
inductive Acts (cfg : BehaviourConfig) (shard : Ip → Nat) (w : State Ip) :
    Op Ip → Phase → BehaviourGuard Ip → Phase → Prop
  | approach {op : Op Ip} {phase phase' : Phase}
      (hreading : ∀ now, phase'.reading? = some now → now = w.clock)
      (hidle : phase'.isIdle = true) : Acts cfg shard w op phase w.shared phase'
  | away {ip : Ip} (habsent : w.shared.profile? ip = none) :
      Acts cfg shard w (.checkRequest ip) .full w.shared (.returned (.verdict .allow))
  | miss {ip : Ip} {now : Nat} :
      Acts cfg shard w (.checkRequest ip) (.ready now) w.shared (.missing now)
  | enter {ip : Ip} {now : Nat} :
      Acts cfg shard w (.checkRequest ip) (.ready now) w.shared (.evaluating false now .loadWindow)
  | create {ip : Ip} {now : Nat} :
      Acts cfg shard w (.checkRequest ip) (.missing now)
        (w.shared.store ip ((w.shared.profile? ip).getD (.new now)))
        (.evaluating true now .loadWindow)
  | move {ip : Ip} {exclusive : Bool} {now : Nat} {point : Point} {p : IpProfile}
      (hp : w.shared.profile? ip = some p) :
      Acts cfg shard w (.checkRequest ip) (.evaluating exclusive now point)
        (w.shared.store ip (point.step cfg now p).1)
        (.evaluating exclusive now (point.step cfg now p).2)
  | finish {ip : Ip} {exclusive : Bool} {now : Nat} {verdict : Verdict} :
      Acts cfg shard w (.checkRequest ip) (.evaluating exclusive now (.done verdict)) w.shared
        (.returned (.verdict verdict))
  | error {ip : Ip} :
      Acts cfg shard w (.recordRequest ip true) .start (w.shared.recordRequest ip true)
        (.returned .recorded)
  | update {ip : Ip} {now : Nat} (hfree : canWrite shard w ip = true) :
      Acts cfg shard w (.recordSqliAttempt ip) (.ready now)
        (w.shared.store ip (((w.shared.profile? ip).getD (.new now)).attempt cfg now))
        (.returned .recorded)
  | lift {ip : Ip} {p : IpProfile} {point point' : Point} :
      Acts cfg shard w (.unblockIp ip) (.lifting point) (w.shared.store ip p) (.lifting point')

variable {cfg : BehaviourConfig} {shard : Ip → Nat} {w w' : State Ip} {op : Op Ip} {ip : Ip}
  {phase phase' : Phase} {g : BehaviourGuard Ip}

theorem acts_idle (hreading : phase'.reading? = none) (hidle : phase'.isIdle = true) :
    Acts cfg shard w op phase w.shared phase' := by
  refine .approach (fun now h => ?_) hidle
  rw [hreading] at h
  cases h

theorem acts_ready : Acts cfg shard w op phase w.shared (.ready w.clock) :=
  .approach (fun _ h => (Option.some.inj h).symm) rfl

/-- Only a check is turned away with a verdict. -/
theorem acts_approach {away : Result}
    (haway : away = .recorded ∨ op = .checkRequest ip ∧ away = .verdict .allow)
    (h : approach shard w ip away phase = some phase') :
    Acts cfg shard w op phase w.shared phase' := by
  cases phase with
  | start =>
    simp only [approach, Option.some.injEq] at h
    subst h
    split
    · exact acts_idle rfl rfl
    · exact acts_idle rfl rfl
  | full =>
    simp only [approach, Option.ite_none_right_eq_some, Option.some.injEq] at h
    obtain ⟨-, rfl⟩ := h
    split
    case isTrue => exact acts_idle rfl rfl
    case isFalse habsent =>
      obtain rfl | ⟨rfl, rfl⟩ := haway
      · exact acts_idle rfl rfl
      · exact .away (by simpa using habsent)
  | admitted => cases h; exact acts_ready
  | ready | missing | evaluating | lifting | returned => cases h

theorem acts_map_approach (ip : Ip) {away : Result}
    (haway : away = .recorded ∨ op = .checkRequest ip ∧ away = .verdict .allow)
    (h : (approach shard w ip away phase).map (w.shared, ·) = some (g, phase')) :
    Acts cfg shard w op phase g phase' := by
  obtain ⟨phase', h, heq⟩ := Option.map_eq_some_iff.1 h
  cases heq
  exact acts_approach haway h

/-- An evaluation that is not done takes its next access. -/
theorem checkAct_evaluating {exclusive : Bool} {now : Nat} {point : Point}
    (hdone : ∀ verdict, point ≠ .done verdict) :
    checkAct cfg shard w ip (.evaluating exclusive now point) =
      (w.shared.profile? ip).map fun p =>
        (w.shared.store ip (point.step cfg now p).1,
          .evaluating exclusive now (point.step cfg now p).2) := by
  cases point <;> first | rfl | exact absurd rfl (hdone _)

theorem unblockAct_lifting {point : Point} (hdone : point ≠ .loadBlocked) :
    unblockAct cfg shard w ip (.lifting point) =
      (w.shared.profile? ip).map fun p =>
        (w.shared.store ip (point.step cfg 0 p).1, .lifting (point.step cfg 0 p).2) := by
  cases point <;> first | rfl | exact absurd rfl hdone

theorem acts_checkAct (h : checkAct cfg shard w ip phase = some (g, phase')) :
    Acts cfg shard w (.checkRequest ip) phase g phase' := by
  cases phase with
  | ready now =>
    simp only [checkAct, Option.ite_none_right_eq_some, Option.some.injEq, Prod.mk.injEq] at h
    obtain ⟨-, rfl, rfl⟩ := h
    split
    · exact .enter
    · exact .miss
  | missing now =>
    simp only [checkAct, Option.ite_none_right_eq_some, Option.some.injEq, Prod.mk.injEq] at h
    obtain ⟨-, rfl, rfl⟩ := h
    exact .create
  | evaluating exclusive now point =>
    by_cases hdone : ∃ verdict, point = .done verdict
    · obtain ⟨verdict, rfl⟩ := hdone
      cases h
      exact .finish
    · rw [checkAct_evaluating (not_exists.1 hdone)] at h
      obtain ⟨p, hp, heq⟩ := Option.map_eq_some_iff.1 h
      cases heq
      exact .move hp
  | start | full | admitted | lifting | returned => exact acts_map_approach ip (.inr ⟨rfl, rfl⟩) h

theorem acts_recordAct {wasError : Bool}
    (h : recordAct shard w ip wasError phase = some (g, phase')) :
    Acts cfg shard w (.recordRequest ip wasError) phase g phase' := by
  cases phase with
  | start =>
    simp only [recordAct] at h
    cases wasError with
    | false =>
      cases h
      exact acts_idle rfl rfl
    | true =>
      simp only [Bool.not_true, Bool.false_eq_true, if_false, Option.ite_none_right_eq_some,
        Option.some.injEq, Prod.mk.injEq] at h
      obtain ⟨-, rfl, rfl⟩ := h
      exact .error
  | full | admitted | ready | missing | evaluating | lifting | returned => cases h

theorem acts_sqliAct (h : sqliAct cfg shard w ip phase = some (g, phase')) :
    Acts cfg shard w (.recordSqliAttempt ip) phase g phase' := by
  cases phase with
  | ready now =>
    simp only [sqliAct, Option.ite_none_right_eq_some, Option.some.injEq, Prod.mk.injEq] at h
    obtain ⟨hfree, rfl, rfl⟩ := h
    exact .update hfree
  | start | full | admitted | missing | evaluating | lifting | returned =>
    exact acts_map_approach ip (.inl rfl) h

theorem acts_unblockAct (h : unblockAct cfg shard w ip phase = some (g, phase')) :
    Acts cfg shard w (.unblockIp ip) phase g phase' := by
  cases phase with
  | start =>
    simp only [unblockAct, Option.ite_none_right_eq_some, Option.some.injEq, Prod.mk.injEq] at h
    obtain ⟨-, rfl, rfl⟩ := h
    split
    · exact acts_idle rfl rfl
    · exact acts_idle rfl rfl
  | lifting point =>
    by_cases hdone : point = .loadBlocked
    · subst hdone
      cases h
      exact acts_idle rfl rfl
    · rw [unblockAct_lifting hdone] at h
      obtain ⟨p, hp, heq⟩ := Option.map_eq_some_iff.1 h
      cases heq
      exact .lift
  | full | admitted | ready | missing | evaluating | returned => cases h

/-- **Inversion.** -/
theorem Acts.of_act (h : act cfg shard w op phase = some (g, phase')) :
    Acts cfg shard w op phase g phase' := by
  cases op with
  | checkRequest ip => exact acts_checkAct h
  | recordRequest ip wasError => exact acts_recordAct h
  | recordSqliAttempt ip => exact acts_sqliAct h
  | unblockIp ip => exact acts_unblockAct h

/-! ## one call alone -/

/-- What a call returns when nobody comes in between. -/
def result (cfg : BehaviourConfig) (g : BehaviourGuard Ip) (now : Nat) : Op Ip → Result
  | .checkRequest ip => .verdict (g.checkRequest cfg ip now).2
  | .recordRequest .. | .recordSqliAttempt _ => .recorded
  | .unblockIp ip => .unblocked (g.unblockIp ip).2

/-- Nobody holds a lock. -/
def Unlocked (w : State Ip) : Prop := ∀ call ∈ w.threads, call.phase.holds = false

omit [DecidableEq Ip] in
theorem canWrite_joined (hfree : Unlocked w) (hphase : phase.holds = false) :
    canWrite shard (w.joined op (g, phase)) ip = true := by
  rw [canWrite, World.joined, List.all_append, Bool.and_eq_true]
  refine ⟨List.all_eq_true.2 fun call hcall => ?_, ?_⟩
  · rw [hfree call hcall, Bool.and_false, Bool.not_false]
  · simp [hphase]

omit [DecidableEq Ip] in
theorem canRead_of_canWrite (h : canWrite shard w ip = true) : canRead shard w ip = true := by
  refine List.all_eq_true.2 fun call hcall => ?_
  have hholds := List.all_eq_true.1 h call hcall
  cases hphase : call.phase <;> simp_all [Phase.holds, Phase.holdsExclusively]

omit [DecidableEq Ip] in
theorem canRead_joined (hfree : Unlocked w) (hphase : phase.holds = false) :
    canRead shard (w.joined op (g, phase)) ip = true :=
  canRead_of_canWrite (canWrite_joined hfree hphase)

/-- A call takes its next access, and goes on. -/
theorem alone_act {s : BehaviourGuard Ip × Phase} {g' : BehaviourGuard Ip}
    (hact : act cfg shard (w.joined op (g, phase)) op phase = some (g', phase'))
    (hrest : (program cfg shard).Alone w op (g', phase') s) :
    (program cfg shard).Alone w op (g, phase) s := .head hact hrest

/-- The test whether the map is full, and the reading of the clock. -/
theorem alone_approach {away : Result} (hfree : Unlocked w)
    (hstart : act cfg shard (w.joined op (w.shared, .start)) op .start =
      some (w.shared, if w.shared.maxProfiles ≤ w.shared.size then .full else .admitted))
    (hfull : act cfg shard (w.joined op (w.shared, .full)) op .full =
      (approach shard (w.joined op (w.shared, .full)) ip away .full).map (w.shared, ·))
    (hadmitted : act cfg shard (w.joined op (w.shared, .admitted)) op .admitted =
      some (w.shared, .ready w.clock)) :
    (program cfg shard).Alone w op (w.shared, .start)
      (w.shared, if w.shared.turnsAway ip then .returned away else .ready w.clock) := by
  have hcontains : act cfg shard (w.joined op (w.shared, .full)) op .full =
      some (w.shared, if (w.shared.profile? ip).isSome then .admitted else .returned away) := by
    rw [hfull, approach, canRead_joined hfree rfl, if_pos rfl]
    rfl
  refine alone_act hstart ?_
  rw [BehaviourGuard.turnsAway]
  by_cases hsize : w.shared.maxProfiles ≤ w.shared.size
  · rw [if_pos hsize, decide_eq_true hsize, Bool.true_and]
    refine alone_act hcontains ?_
    cases w.shared.profile? ip with
    | none => exact .refl
    | some p => exact alone_act hadmitted .refl
  · rw [if_neg hsize, decide_eq_false hsize, Bool.false_and]
    exact alone_act hadmitted .refl

theorem store_store {p p' : IpProfile} : (g.store ip p).store ip p' = g.store ip p' := by
  rw [BehaviourGuard.store, BehaviourGuard.store, AList.insert_insert]
  rfl

/-- An evaluation, from anywhere to its end. -/
theorem alone_evaluating {exclusive : Bool} {now : Nat} {verdict : Verdict}
    {a : IpProfile × Point} {p : IpProfile} (h : Reaches cfg now a (p, .done verdict)) :
    (program cfg shard).Alone w (.checkRequest ip)
      (g.store ip a.1, .evaluating exclusive now a.2)
      (g.store ip p, .returned (.verdict verdict)) := by
  induction h using Relation.ReflTransGen.head_induction_on with
  | refl => exact alone_act rfl .refl
  | @head a c hstep _ ih =>
    by_cases hdone : ∃ verdict, a.2 = .done verdict
    · obtain ⟨verdict', hdone⟩ := hdone
      rw [hdone, Point.step] at hstep
      rw [hdone]
      rw [← hstep] at ih
      exact ih
    · refine alone_act ((checkAct_evaluating (not_exists.1 hdone)).trans ?_) ih
      have hp : (g.store ip a.1).profile? ip = some a.1 := (profile?_store ip).trans (if_pos rfl)
      simp only [World.joined, hp, Option.map_some, store_store, hstep]

theorem alone_evaluate {exclusive : Bool} {now : Nat} {p : IpProfile}
    (hp : g.profile? ip = some p) :
    (program cfg shard).Alone w (.checkRequest ip) (g, .evaluating exclusive now .loadWindow)
      (g.store ip (evaluate cfg p now).1, .returned (.verdict (evaluate cfg p now).2)) := by
  have hreaches : Reaches cfg now (p, .loadWindow) _ := reaches_evaluate
  obtain heq | ⟨c, hstep, hrest⟩ := hreaches.cases_head
  · cases congrArg Prod.snd heq
  · have hact : act cfg shard
        (w.joined (.checkRequest ip) (g, .evaluating exclusive now .loadWindow)) (.checkRequest ip)
        (.evaluating exclusive now .loadWindow) =
          some (g.store ip c.1, .evaluating exclusive now c.2) := by
      rw [act, checkAct_evaluating fun _ h => by cases h]
      simp only [World.joined, hp, Option.map_some, hstep]
    exact alone_act hact (alone_evaluating hrest)

theorem alone_checkRequest (hfree : Unlocked w) :
    (program cfg shard).Alone w (.checkRequest ip) (w.shared, .start)
      ((w.shared.checkRequest cfg ip w.clock).1,
        .returned (.verdict (w.shared.checkRequest cfg ip w.clock).2)) := by
  have happroach : (program cfg shard).Alone w (.checkRequest ip) (w.shared, .start)
      (w.shared, if w.shared.turnsAway ip then .returned (.verdict .allow) else .ready w.clock) :=
    alone_approach hfree rfl rfl rfl
  rw [BehaviourGuard.checkRequest]
  split at happroach
  case isTrue haway =>
    rw [if_pos haway]
    exact happroach
  case isFalse hroom =>
    rw [if_neg hroom]
    refine happroach.trans ?_
    cases hp : w.shared.profile? ip with
    | some p =>
      have hact : act cfg shard (w.joined (.checkRequest ip) (w.shared, .ready w.clock))
          (.checkRequest ip) (.ready w.clock) =
            some (w.shared, .evaluating false w.clock .loadWindow) := by
        rw [act, checkAct, canRead_joined hfree rfl]
        simp [World.joined, hp]
      exact alone_act hact (alone_evaluate hp)
    | none =>
      have hready : act cfg shard (w.joined (.checkRequest ip) (w.shared, .ready w.clock))
          (.checkRequest ip) (.ready w.clock) = some (w.shared, .missing w.clock) := by
        rw [act, checkAct, canRead_joined hfree rfl]
        simp [World.joined, hp]
      have hmissing : act cfg shard (w.joined (.checkRequest ip) (w.shared, .missing w.clock))
          (.checkRequest ip) (.missing w.clock) =
            some (w.shared.store ip (.new w.clock), .evaluating true w.clock .loadWindow) := by
        rw [act, checkAct, canWrite_joined hfree rfl]
        simp [World.joined, hp]
      exact alone_act hready (alone_act hmissing (alone_evaluating reaches_evaluate))

theorem alone_recordSqliAttempt (hfree : Unlocked w) :
    (program cfg shard).Alone w (.recordSqliAttempt ip) (w.shared, .start)
      (w.shared.recordSqliAttempt cfg ip w.clock, .returned .recorded) := by
  have happroach : (program cfg shard).Alone w (.recordSqliAttempt ip) (w.shared, .start)
      (w.shared, if w.shared.turnsAway ip then .returned .recorded else .ready w.clock) :=
    alone_approach hfree rfl rfl rfl
  rw [BehaviourGuard.recordSqliAttempt]
  split at happroach
  case isTrue haway =>
    rw [if_pos haway]
    exact happroach
  case isFalse hroom =>
    rw [if_neg hroom]
    exact happroach.tail (if_pos (canWrite_joined hfree rfl))

theorem alone_recordRequest (hfree : Unlocked w) (wasError : Bool) :
    (program cfg shard).Alone w (.recordRequest ip wasError) (w.shared, .start)
      (w.shared.recordRequest ip wasError, .returned .recorded) := by
  cases wasError with
  | false => exact alone_act rfl .refl
  | true => exact alone_act (if_pos (canRead_joined hfree rfl)) .refl

/-- One store of a call that lifts a block. -/
theorem alone_lifting {p : IpProfile} {point : Point} {s : BehaviourGuard Ip × Phase}
    (hdone : point ≠ .loadBlocked) (hp : g.profile? ip = some p)
    (hrest : (program cfg shard).Alone w (.unblockIp ip)
      (g.store ip (point.step cfg 0 p).1, .lifting (point.step cfg 0 p).2) s) :
    (program cfg shard).Alone w (.unblockIp ip) (g, .lifting point) s := by
  refine alone_act ((unblockAct_lifting hdone).trans ?_) hrest
  simp only [World.joined, hp, Option.map_some]

theorem alone_unblockIp (hfree : Unlocked w) :
    (program cfg shard).Alone w (.unblockIp ip) (w.shared, .start)
      ((w.shared.unblockIp ip).1, .returned (.unblocked (w.shared.unblockIp ip).2)) := by
  have hstart : act cfg shard (w.joined (.unblockIp ip) (w.shared, .start)) (.unblockIp ip) .start =
      some (w.shared, if (w.shared.profile? ip).isSome then .lifting .liftBlock
        else .returned (.unblocked false)) :=
    if_pos (canRead_joined hfree rfl)
  have htracked : ∀ p : IpProfile, (w.shared.store ip p).profile? ip = some p :=
    fun p => (profile?_store ip).trans (if_pos rfl)
  rw [BehaviourGuard.unblockIp]
  refine alone_act hstart ?_
  cases hp : w.shared.profile? ip with
  | none => exact .refl
  | some p =>
    refine alone_lifting (by simp) hp (alone_lifting (by simp [Point.step]) (htracked _) ?_)
    rw [store_store]
    refine alone_lifting (by simp [Point.step]) (htracked _) ?_
    rw [store_store]
    exact alone_act rfl .refl

/-- **Connection.**  A call that nobody comes in between, and that finds no lock taken, does to
the guard, and returns, what the function does and returns. -/
theorem guard_call_alone (cfg : BehaviourConfig) (shard : Ip → Nat) (w : State Ip)
    (hfree : Unlocked w) (op : Op Ip) :
    ∃ n, run (program cfg shard).step w
        (.call op :: List.replicate n (.advance w.threads.length)) =
      some (w.joined op
        (op.apply cfg w.shared w.clock, .returned (result cfg w.shared w.clock op))) := by
  refine Program.run_alone ?_
  cases op with
  | checkRequest ip => exact alone_checkRequest hfree
  | recordRequest ip wasError => exact alone_recordRequest hfree wasError
  | recordSqliAttempt ip => exact alone_recordSqliAttempt hfree
  | unblockIp ip => exact alone_unblockIp hfree

theorem guard_call_alone_first :
    ∃ n, run (program {} fun _ : Nat => 0).step ⟨⟨∅, 2⟩, 5, []⟩
        (.call (.checkRequest 7) :: List.replicate n (.advance 0)) =
      some (World.joined ⟨⟨∅, 2⟩, 5, []⟩ (.checkRequest 7)
        ((Op.checkRequest 7).apply {} ⟨∅, 2⟩ 5,
          .returned (result {} ⟨∅, 2⟩ 5 (.checkRequest 7)))) :=
  guard_call_alone {} (fun _ => 0) ⟨⟨∅, 2⟩, 5, []⟩ (List.forall_mem_nil _) (.checkRequest 7)

end Turbine.Security.Concurrent
