import Turbine.Base.Counting
import Turbine.Dispatch.Inversion

/-!
# Turbine.Dispatch.Accounting

No slot is lost.  `get_idle` drops unpickable slots on the floor and trusts
the next `refresh_fds` to find them by their flag or counter, while
`refresh_fds` clears flag and counter before it re-queues the slot.  The
invariant says where a slot can be at every moment in between
(`State.Accounted`), and `restored_of_flagged` that a refresh whose fd list
covers a flagged slot puts it back.
-/

namespace Turbine.Dispatch

open Base

variable {cfg : Config} {s s' : State} {e : Event} {i t : Nat} {τ τ' : Task}

/-! ## where a slot can be -/

/-- The slot is marked unhealthy or has served its quota: `get_idle` skips it. -/
def State.Flagged (cfg : Config) (s : State) (i : Nat) : Prop :=
  s.unhealthy i = true ∨ s.overQuota cfg i = true

/-- Slots that the call's scale-up branch will queue. -/
def RefreshCall.Grows (cfg : Config) (c : RefreshCall) (i : Nat) : Prop :=
  c.prevLen ≤ i ∧ i < min c.newLen cfg.cap

/-- An in-progress `refresh_fds` holds the slot: it has collected it for revival,
has just cleared its flag, or will queue it as a new slot. -/
def Reaper.Holds (cfg : Config) : Reaper → Nat → Prop
  | .swapFlag c _ revived, i => i ∈ revived ∨ c.Grows cfg i
  | .swapServed c j was revived, i => i ∈ revived ∨ (i = j ∧ was = true) ∨ c.Grows cfg i
  | .requeueing c revived, i => i ∈ revived ∨ c.Grows cfg i
  | .adding c _, i => c.Grows cfg i
  | .growing c, i => c.Grows cfg i
  | _, _ => False

/-- The slot is in the idle queue, with a request, with an in-progress
`refresh_fds`, or flagged for the next one. -/
def State.Accounted (cfg : Config) (s : State) (i : Nat) : Prop :=
  i ∈ s.queue ∨ (∃ τ ∈ s.tasks, τ.slot? = some i) ∨ s.reaper.Holds cfg i ∨ s.Flagged cfg i

/-- `refresh_fds` has just pushed slots to the queue. -/
def Reaper.JustPushed : Reaper → Prop
  | .adding .. | .growAdding _ => True
  | _ => False

/-- The loop variable of `refresh_fds` stays in range. -/
def Reaper.InRange (cfg : Config) : Reaper → Prop
  | .swapServed c i _ _ => i < min c.newLen cfg.cap
  | _ => True

theorem inRange_step (h : Step cfg s e s') (hr : s.reaper.InRange cfg) : s'.reaper.InRange cfg := by
  cases h with
  | tick => dsimp only; split <;> trivial
  | swapFlag hr hi => exact hi
  | markDead | poison => simpa [State.goto] using hr
  | _ => first | exact hr | trivial

/-! ## one step -/

/-- Counting a request only moves a slot towards its quota. -/
theorem overQuota_record {j : Nat} (h : s.overQuota cfg i = true) :
    { s with served := if j < cfg.cap then Function.update s.served j (s.served j + 1)
        else s.served }.overQuota cfg i = true := by
  simp only [State.overQuota, Bool.and_eq_true, decide_eq_true_eq] at h ⊢
  refine ⟨h.1, Nat.le_trans h.2 ?_⟩
  split
  · by_cases hij : i = j
    · subst hij; simp
    · simp [hij]
  · exact Nat.le_refl _

/-- A queued slot stays queued until a `get_idle` pops it. -/
theorem queued_step (h : Step cfg s e s') (hq : i ∈ s.queue) :
    i ∈ s'.queue ∨
      ∃ t, e = .pop t ∧ s.queue.getLast? = some i ∧ ∃ τ ∈ s'.tasks, τ.slot? = some i := by
  cases h with
  | @pop t k idx ht hlast =>
    rw [← List.dropLast_append_getLast? idx hlast, List.mem_append, List.mem_singleton] at hq
    obtain hq | rfl := hq
    · exact .inl hq
    · obtain ⟨hlt, -⟩ := List.getElem?_eq_some_iff.1 ht
      exact .inr ⟨t, rfl, hlast, .popped k i, List.mem_set hlt _, rfl⟩
  | giveBack ht hg => exact .inl (List.mem_append_left _ hq)
  | requeue hr => exact .inl (mem_requeue.2 (.inl hq))
  | grow hr h => exact .inl (List.mem_append_left _ hq)
  | markDead | poison | mark => exact .inl (by simpa [State.goto] using hq)
  | _ => exact .inl hq

/-- If one request moves on, a taken slot is the one it had or is still taken. -/
theorem left_or_taken {t j : Nat} {τ τ' : Task} (hτ : s.tasks[t]? = some τ)
    (hslot : τ.slot? = some j) (ht : ∃ τ ∈ s.tasks, τ.slot? = some i) :
    j = i ∨ ∃ υ ∈ s.tasks.set t τ', υ.slot? = some i := by
  obtain hs | hs := exists_mem_set (fun τ : Task => τ.slot? = some i) hτ ht
  · exact .inl (Option.some.inj (hslot.symm.trans hs))
  · exact .inr hs

/-- A slot that a request has taken stays with it until it is returned to the
queue or dropped with its flag up. -/
theorem taken_step (h : Step cfg s e s') (hi : i < cfg.cap) (ht : ∃ τ ∈ s.tasks, τ.slot? = some i) :
    (∃ τ ∈ s'.tasks, τ.slot? = some i) ∨ i ∈ s'.queue ∨ s'.Flagged cfg i := by
  cases h with
  | arrive =>
    obtain ⟨τ, hτ, hs⟩ := ht
    exact .inl ⟨τ, List.mem_append_left _ hτ, hs⟩
  | skipUnhealthy hτ hu =>
    obtain rfl | hs := left_or_taken hτ rfl ht
    · exact .inr (.inr (.inl (hu.resolve_left (by omega))))
    · exact .inl hs
  | skipOverQuota hτ hu =>
    obtain rfl | hs := left_or_taken hτ rfl ht
    · exact .inr (.inr (.inr hu))
    · exact .inl hs
  | poison hτ =>
    obtain rfl | hs := left_or_taken hτ rfl ht
    · exact .inr (.inr (.inl ((s.markUnhealthy_unhealthy cfg _).2 (.inl ⟨rfl, hi⟩))))
    · exact .inl (by simpa [State.goto] using hs)
  | giveBack hτ hg =>
    obtain rfl | hs := left_or_taken hτ rfl ht
    · exact .inr (.inl (by simp [State.goto]))
    · exact .inl hs
  | markDead hτ =>
    have hs := exists_mem_set_of_imp (b := .guarded _ .dropping)
      (fun τ : Task => τ.slot? = some i) hτ id ht
    exact .inl (by simpa [State.goto] using hs)
  | mark hr => exact .inl (by simpa using ht)
  | _ =>
    first
    | exact .inl ht
    | exact .inl (exists_mem_set_of_imp (fun τ : Task => τ.slot? = some i)
        (‹_› : s.tasks[_]? = some _) (by simp) ht)

/-- The unhealthy flag is lost only to the loop of `refresh_fds`, which
remembers it. -/
theorem unhealthy_step (h : Step cfg s e s') (hu : s.unhealthy i = true) :
    s'.unhealthy i = true ∨
      ∃ c revived, s.reaper = .swapFlag c i revived ∧
        s'.reaper = .swapServed c i true revived := by
  cases h with
  | @swapFlag c j revived hr hj =>
    by_cases hij : i = j
    · subst hij
      exact .inr ⟨c, revived, hr, by simp [hu]⟩
    · exact .inl (by simpa [hij] using hu)
  | markDead | poison | mark => exact .inl ((s.markUnhealthy_unhealthy cfg _).2 (.inr hu))
  | _ => exact .inl hu

/-- The served counter is reset only by the loop of `refresh_fds`, which
collects the slot for revival unless it is a new one. -/
theorem overQuota_step (h : Step cfg s e s') (ho : s.overQuota cfg i = true) :
    s'.overQuota cfg i = true ∨
      ∃ c was revived, s.reaper = .swapServed c i was revived ∧
        s'.reaper = .swapFlag c (i + 1) (if i < c.prevLen then revived ++ [i] else revived) := by
  cases h with
  | @revive c j was revived hr hj h =>
    by_cases hij : i = j
    · subst hij
      exact .inr ⟨c, was, revived, hr, by simp [hj]⟩
    · exact .inl (by simpa [State.overQuota, hij] using ho)
  | @keep c j was revived hr h =>
    by_cases hij : i = j
    · subst hij
      refine .inr ⟨c, was, revived, hr, ?_⟩
      simp only [State.overQuota, Bool.and_eq_true, decide_eq_true_eq] at ho
      have hmax := Config.quotaFor_pos.1 ho.1
      have hge : ¬ i < c.prevLen := fun hlt => by
        have := (h hlt).2 hmax
        omega
      simp [hge]
    · exact .inl (by simpa [State.overQuota, hij] using ho)
  | record ht => exact .inl (overQuota_record ho)
  | markDead | poison | mark => exact .inl (by simpa [State.overQuota, State.goto] using ho)
  | _ => exact .inl ho

/-- What `refresh_fds` holds it passes on, in the end to the queue. -/
theorem holds_step (h : Step cfg s e s') (hrange : s.reaper.InRange cfg)
    (hh : s.reaper.Holds cfg i) :
    (i ∈ s'.queue ∧ s'.reaper.JustPushed) ∨ s'.reaper.Holds cfg i := by
  cases h with
  | swapFlag hr hj => rw [hr] at hh; exact .inr (hh.imp_right .inr)
  | swapDone hr hj hv => rw [hr] at hh; exact .inr hh
  | swapNone hr hj =>
    rw [hr] at hh
    obtain hh | hh := hh
    · simp at hh
    · exact .inr hh
  | revive hr hj h =>
    rw [hr] at hh
    obtain hh | ⟨rfl, -⟩ | hh := hh
    · exact .inr (.inl (List.mem_append_left _ hh))
    · exact .inr (.inl (by simp))
    · exact .inr (.inr hh)
  | keep hr h =>
    rw [hr] at hh hrange
    obtain hh | ⟨rfl, rfl⟩ | hh := hh
    · exact .inr (.inl hh)
    · refine .inr (.inr ⟨?_, hrange⟩)
      by_contra hlt
      simpa using (h (by omega)).1
    · exact .inr (.inr hh)
  | requeue hr =>
    rw [hr] at hh
    obtain hh | hh := hh
    · exact .inl ⟨mem_requeue.2 (.inr hh), trivial⟩
    · exact .inr hh
  | addPermits hr => rw [hr] at hh; exact .inr hh
  | growNone hr h => rw [hr] at hh; obtain ⟨h1, h2⟩ := hh; omega
  | growPanic hr h hu => rw [hr] at hh; obtain ⟨h1, h2⟩ := hh; omega
  | grow hr h =>
    rw [hr] at hh
    obtain ⟨h1, h2⟩ := hh
    refine .inl ⟨List.mem_append_right _ (List.mem_range'_1.2 ⟨h1, ?_⟩), trivial⟩
    unfold RefreshCall.growable
    omega
  | markDead | poison => exact .inr (by simpa [State.goto] using hh)
  | _ =>
    -- the reaper is elsewhere, or the step is not one of its own
    first
    | exact .inr hh
    | rw [(‹_› : s.reaper = _)] at hh; exact absurd hh id

theorem holds_of_swapServed {c : RefreshCall} {revived : List Nat}
    (hr : s.reaper = .swapServed c i true revived) : s.reaper.Holds cfg i := by
  rw [hr]
  exact .inr (.inl ⟨rfl, rfl⟩)

theorem holds_of_swapFlag {c : RefreshCall} {revived : List Nat} (hi : i < min c.newLen cfg.cap)
    (hr : s.reaper = .swapFlag c (i + 1) (if i < c.prevLen then revived ++ [i] else revived)) :
    s.reaper.Holds cfg i := by
  rw [hr]
  by_cases hlt : i < c.prevLen
  · exact .inl (by simp [hlt])
  · exact .inr ⟨by omega, hi⟩

/-- **Step lemma.**  No step loses a slot. -/
theorem accounted_step (h : Step cfg s e s') (hrange : s.reaper.InRange cfg)
    (hi : i < cfg.cap) (ha : s.Accounted cfg i) : s'.Accounted cfg i := by
  obtain hq | ht | hh | hf := ha
  · obtain hq' | ⟨-, -, -, ht'⟩ := queued_step h hq
    · exact .inl hq'
    · exact .inr (.inl ht')
  · obtain ht' | hq' | hf' := taken_step h hi ht
    · exact .inr (.inl ht')
    · exact .inl hq'
    · exact .inr (.inr (.inr hf'))
  · obtain ⟨hq', -⟩ | hh' := holds_step h hrange hh
    · exact .inl hq'
    · exact .inr (.inr (.inl hh'))
  · obtain hu | ho := hf
    · obtain hu' | ⟨c, revived, -, hr'⟩ := unhealthy_step h hu
      · exact .inr (.inr (.inr (.inl hu')))
      · exact .inr (.inr (.inl (holds_of_swapServed hr')))
    · obtain ho' | ⟨c, was, revived, hr, hr'⟩ := overQuota_step h ho
      · exact .inr (.inr (.inr (.inr ho')))
      · rw [hr] at hrange
        exact .inr (.inr (.inl (holds_of_swapFlag hrange hr')))

/-! ## one refresh -/

/-- The loop of the refresh has yet to visit slot `i`. -/
def Reaper.Ahead (cfg : Config) : Reaper → Nat → Prop
  | .refreshing newFds, i => i < min newFds.length cfg.cap
  | .swapFlag c j _, i => j ≤ i ∧ i < min c.newLen cfg.cap
  | .swapServed c j _ _, i => j < i ∧ i < min c.newLen cfg.cap
  | _, _ => False

/-- The loop of the refresh is between its two swaps of slot `i`. -/
def Reaper.Visits : Reaper → Nat → Prop
  | .swapServed _ j _ _, i => i = j
  | _, _ => False

/-- The refresh in progress will put slot `i` into the queue. -/
def State.Restoring (cfg : Config) (s : State) (i : Nat) : Prop :=
  s.reaper.Holds cfg i ∨ (s.Flagged cfg i ∧ s.reaper.Ahead cfg i) ∨
    (s.overQuota cfg i = true ∧ s.reaper.Visits i)

theorem State.Restoring.reaper_busy (h : s.Restoring cfg i) :
    s.reaper ≠ .idle ∧ s.reaper ≠ .panicked := by
  constructor <;> intro hr <;>
    simp [State.Restoring, hr, Reaper.Holds, Reaper.Ahead, Reaper.Visits] at h

/-- The loop comes closer to slot `i` until it visits it. -/
theorem ahead_step (h : Step cfg s e s') (ha : s.reaper.Ahead cfg i) :
    s'.reaper.Ahead cfg i ∨
      (s'.reaper.Visits i ∧ s'.overQuota cfg i = s.overQuota cfg i) ∧
        (s.unhealthy i = true → s'.reaper.Holds cfg i) := by
  cases h with
  | install hr =>
    rw [hr] at ha
    exact .inl ⟨Nat.zero_le _, ha⟩
  | @swapFlag c j revived hr hj =>
    rw [hr] at ha
    by_cases hij : i = j
    · subst hij
      exact .inr ⟨⟨rfl, rfl⟩, fun hu => .inr (.inl ⟨rfl, hu⟩)⟩
    · exact .inl ⟨by have := ha.1; omega, ha.2⟩
  | swapDone hr hj hv => rw [hr] at ha; obtain ⟨h1, h2⟩ := ha; omega
  | swapNone hr hj => rw [hr] at ha; obtain ⟨h1, h2⟩ := ha; omega
  | revive hr hj h => rw [hr] at ha; exact .inl ha
  | keep hr h => rw [hr] at ha; exact .inl ha
  | markDead | poison => exact .inl (by simpa [State.goto] using ha)
  | _ =>
    first
    | exact .inl ha
    | rw [(‹_› : s.reaper = _)] at ha; exact absurd ha id

theorem visits_step (h : Step cfg s e s') (hv : s.reaper.Visits i) :
    s'.reaper.Visits i ∨ s'.overQuota cfg i = false := by
  cases h with
  | revive hr hj h =>
    rw [hr] at hv
    obtain rfl : i = _ := hv
    exact .inr (by simp [State.overQuota]; omega)
  | keep hr h =>
    rw [hr] at hv
    obtain rfl : i = _ := hv
    exact .inr (by simp [State.overQuota]; omega)
  | markDead | poison => exact .inl (by simpa [State.goto] using hv)
  | _ =>
    first
    | exact .inl hv
    | rw [(‹_› : s.reaper = _)] at hv; exact absurd hv id

/-- **Step lemma.**  The refresh goes on to restore slot `i` until it has. -/
theorem restoring_step (h : Step cfg s e s') (hrange : s.reaper.InRange cfg)
    (hs : s.Restoring cfg i) : s'.Restoring cfg i ∨ (i ∈ s'.queue ∧ s'.reaper.JustPushed) := by
  obtain hh | ⟨hf, ha⟩ | ⟨ho, hv⟩ := hs
  · obtain hq | hh' := holds_step h hrange hh
    · exact .inr hq
    · exact .inl (.inl hh')
  · left
    obtain ha' | ⟨⟨hv', ho'⟩, hh'⟩ := ahead_step h ha
    · obtain hu | ho := hf
      · obtain hu' | ⟨c, revived, -, hr'⟩ := unhealthy_step h hu
        · exact .inr (.inl ⟨.inl hu', ha'⟩)
        · exact .inl (holds_of_swapServed hr')
      · obtain ho' | ⟨c, was, revived, hr, hr'⟩ := overQuota_step h ho
        · exact .inr (.inl ⟨.inr ho', ha'⟩)
        · rw [hr] at hrange
          exact .inl (holds_of_swapFlag hrange hr')
    · obtain hu | ho := hf
      · exact .inl (hh' hu)
      · exact .inr (.inr ⟨ho'.trans ho, hv'⟩)
  · left
    obtain ho' | ⟨c, was, revived, hr, hr'⟩ := overQuota_step h ho
    · obtain hv' | hno := visits_step h hv
      · exact .inr (.inr ⟨ho', hv'⟩)
      · rw [hno] at ho'
        contradiction
    · rw [hr] at hrange
      exact .inl (holds_of_swapFlag hrange hr')

/-- The step is a `get_idle` popping slot `i`. -/
def Takes (i : Nat) (s : State) (e : Event) (_ : State) : Prop :=
  ∃ t, e = .pop t ∧ s.queue.getLast? = some i

/-- A queued slot is still queued at the end of a run, or was popped in it. -/
theorem queued_or_taken {es : List Event} (hq : i ∈ s.queue)
    (hrun : run (step cfg) s es = some s') : i ∈ s'.queue ∨ Sometime (step cfg) (Takes i) s es := by
  induction es generalizing s with
  | nil => simp only [run_nil, Option.some.injEq] at hrun; exact .inl (hrun ▸ hq)
  | cons e es ih =>
    obtain ⟨s₁, hs, hrun⟩ := run_cons_eq_some.1 hrun
    obtain hq' | ⟨t, ht, hlast, -⟩ := queued_step (.of_step hs) hq
    · exact (ih hq' hrun).imp_right fun h => ⟨s₁, hs, .inr h⟩
    · exact .inr ⟨s₁, hs, .inl ⟨t, ht, hlast⟩⟩

/-- The run from `s` to `s'` passes a moment, before the next tick, at which
`refresh_fds` has just put slot `i` into the queue; from then on the slot stays
there until a `get_idle` takes it. -/
def RestoredIn (cfg : Config) (i : Nat) (s : State) (es : List Event) (s' : State) : Prop :=
  ∃ es₁ s₁ es₂, es = es₁ ++ es₂ ∧ .tick ∉ es₁ ∧ run (step cfg) s es₁ = some s₁ ∧
    i ∈ s₁.queue ∧ s₁.reaper.JustPushed ∧
    (i ∈ s'.queue ∨ Sometime (step cfg) (Takes i) s₁ es₂)

/-- **Run lemma.**  A refresh that is to restore slot `i` has restored it by the
time it ends. -/
theorem restored_of_restoring {es : List Event} (hrange : s.reaper.InRange cfg)
    (hs : s.Restoring cfg i) (hrun : run (step cfg) s es = some s')
    (hend : s'.reaper = .idle ∨ s'.reaper = .panicked) : RestoredIn cfg i s es s' := by
  induction es generalizing s with
  | nil =>
    simp only [run_nil, Option.some.injEq] at hrun
    subst hrun
    obtain ⟨hidle, hpanic⟩ := hs.reaper_busy
    exact (hend.elim hidle hpanic).elim
  | cons e es ih =>
    obtain ⟨s₁, hstep, hrun⟩ := run_cons_eq_some.1 hrun
    have h := Step.of_step hstep
    have hne : .tick ≠ e := by
      rintro rfl
      cases h with
      | tick hr => exact hs.reaper_busy.1 hr
    obtain hs' | ⟨hq, hp⟩ := restoring_step h hrange hs
    · obtain ⟨es₁, s₂, es₂, rfl, htick, hrun₁, hq, hp, hlast⟩ := ih (inRange_step h hrange) hs' hrun
      exact ⟨e :: es₁, s₂, es₂, rfl, by simp [hne, htick],
        run_cons_eq_some.2 ⟨s₁, hstep, hrun₁⟩, hq, hp, hlast⟩
    · exact ⟨[e], s₁, es, rfl, by simp [hne], run_cons_eq_some.2 ⟨s₁, hstep, rfl⟩, hq, hp,
        queued_or_taken hq hrun⟩

/-- Bound on the steps left in a call of `refresh_fds`. -/
def Reaper.remaining (cfg : Config) : Reaper → Nat
  | .refreshing newFds => 2 * min newFds.length cfg.cap + 6
  | .swapFlag c i _ => 2 * (min c.newLen cfg.cap - i) + 5
  | .swapServed c i _ _ => 2 * (min c.newLen cfg.cap - i) + 4
  | .requeueing .. => 4
  | .adding .. => 3
  | .growing _ => 2
  | .growAdding _ => 1
  | _ => 0

/-- A call of `refresh_fds` is never blocked. -/
theorem refresh_enabled (h : 0 < s.reaper.remaining cfg) : ∃ s', step cfg s .reaper = some s' := by
  simp only [step, reaperStep]
  cases hr : s.reaper with
  | idle | reaping | panicked => simp [hr, Reaper.remaining] at h
  | marking todo => simp [hr, Reaper.remaining] at h
  | _ => dsimp only; (repeat' split) <;> exact ⟨_, rfl⟩

/-- Every step of a call of `refresh_fds` brings it closer to its end. -/
theorem remaining_step (h : Step cfg s .reaper s') (hrange : s.reaper.InRange cfg)
    (hpos : 0 < s.reaper.remaining cfg) :
    s'.reaper.remaining cfg < s.reaper.remaining cfg ∧
      (0 < s'.reaper.remaining cfg ∨ s'.reaper = .idle ∨ s'.reaper = .panicked) := by
  cases h with
  | growNone hr h => rw [hr]; exact ⟨Nat.succ_pos _, .inr (.inl rfl)⟩
  | growPanic hr h hu => rw [hr]; exact ⟨Nat.succ_pos _, .inr (.inr rfl)⟩
  | growAdd hr => rw [hr]; exact ⟨Nat.succ_pos _, .inr (.inl rfl)⟩
  | install hr => rw [hr]; simp only [Reaper.remaining]; omega
  | swapFlag hr hi => rw [hr]; simp only [Reaper.remaining]; omega
  | swapDone hr hi hv => rw [hr]; simp only [Reaper.remaining]; omega
  | swapNone hr hi => rw [hr]; simp only [Reaper.remaining]; omega
  | revive hr hi h =>
    rw [hr] at hrange ⊢
    simp only [Reaper.InRange] at hrange
    simp only [Reaper.remaining]
    omega
  | keep hr h =>
    rw [hr] at hrange ⊢
    simp only [Reaper.InRange] at hrange
    simp only [Reaper.remaining]
    omega
  | requeue hr => rw [hr]; simp only [Reaper.remaining]; omega
  | addPermits hr => rw [hr]; simp only [Reaper.remaining]; omega
  | grow hr h => rw [hr]; simp only [Reaper.remaining]; omega
  | _ => rw [(‹_› : s.reaper = _)] at hpos; simp [Reaper.remaining] at hpos

/-- A call of `refresh_fds` ends. -/
theorem refresh_ends (hrange : s.reaper.InRange cfg) (h : 0 < s.reaper.remaining cfg) :
    ∃ n s', run (step cfg) s (List.replicate n .reaper) = some s' ∧
      (s'.reaper = .idle ∨ s'.reaper = .panicked) := by
  induction hn : s.reaper.remaining cfg using Nat.strongRecOn generalizing s with
  | ind n ih =>
    obtain ⟨s₁, hs₁⟩ := refresh_enabled h
    obtain ⟨hlt, hnext⟩ := remaining_step (.of_step hs₁) hrange h
    obtain hpos | hend := hnext
    · obtain ⟨m, s₂, hs₂, hend⟩ := ih _ (hn ▸ hlt) (inRange_step (.of_step hs₁) hrange) hpos rfl
      exact ⟨m + 1, s₂, run_cons_eq_some.2 ⟨s₁, hs₁, hs₂⟩, hend⟩
    · exact ⟨1, s₁, run_cons_eq_some.2 ⟨s₁, hs₁, rfl⟩, hend⟩

/-! ## whole runs -/

/-- **No slot is lost.**  In every reachable state every slot is in the idle
queue, with a request, with an in-progress `refresh_fds`, or flagged; and a call
of `refresh_fds` whose fd list covers a flagged slot ends, having put the slot
back into the queue, where it stays until a `get_idle` takes it. -/
theorem no_slot_lost (cfg : Config) (late : Nat → Bool) (es : List Event) (s : State)
    (hrun : run (step cfg) (initial cfg late) es = some s) :
    (∀ i < cfg.cap, s.Accounted cfg i) ∧
      ∀ newFds, s.reaper = .refreshing newFds →
        (∃ n s', run (step cfg) s (List.replicate n .reaper) = some s' ∧
          (s'.reaper = .idle ∨ s'.reaper = .panicked)) ∧
        ∀ i < min newFds.length cfg.cap, s.Flagged cfg i →
          ∀ es' s', run (step cfg) s es' = some s' →
            (s'.reaper = .idle ∨ s'.reaper = .panicked) → RestoredIn cfg i s es' s' := by
  have hinv : s.reaper.InRange cfg ∧ ∀ i < cfg.cap, s.Accounted cfg i := by
    refine invariant_of_run
      (I := fun s => s.reaper.InRange cfg ∧ ∀ i < cfg.cap, s.Accounted cfg i) ?_ ?_ hrun
    · rintro s e s' ⟨hr, ha⟩ h
      exact ⟨inRange_step (.of_step h) hr, fun i hi => accounted_step (.of_step h) hr hi (ha i hi)⟩
    · exact ⟨by simp [Reaper.InRange], fun i hi => .inl (by simpa using hi)⟩
  obtain ⟨hrange, hacc⟩ := hinv
  refine ⟨hacc, fun newFds hr => ⟨refresh_ends hrange ?_, ?_⟩⟩
  · rw [hr, Reaper.remaining]
    omega
  · intro i hi hf es' s' hrun' hend
    refine restored_of_restoring hrange (.inr (.inl ⟨hf, ?_⟩)) hrun' hend
    rw [hr]
    exact hi

/-- A request is cancelled, and the reaper comes to call `refresh_fds`. -/
def poisonedAndReaped : List Event :=
  claimAndArm 0 ++ [Event.cancel 0, .drop 0, .tick] ++ List.replicate 3 Event.reaper ++
    [Event.reap 0]

theorem no_slot_lost_poisonedAndReaped :
    ∃ s s', run (step recycleEach) (initial recycleEach fun _ => false) poisonedAndReaped =
        some s ∧
      s.Accounted recycleEach 0 ∧ s.Flagged recycleEach 0 ∧
      run (step recycleEach) s (List.replicate 7 .reaper) = some s' ∧
      RestoredIn recycleEach 0 s (List.replicate 7 .reaper) s' := by
  have hrun : (run (step recycleEach) (initial recycleEach fun _ => false)
      poisonedAndReaped).map (fun s => (s.reaper, s.unhealthy 0)) =
        some (.refreshing [⟨0, 0⟩], true) := by decide
  have hrun' : (run (step recycleEach) (initial recycleEach fun _ => false)
      (poisonedAndReaped ++ List.replicate 7 Event.reaper)).map (fun s => s.reaper) =
        some .idle := by decide
  obtain ⟨s, hs, hv⟩ := Option.map_eq_some_iff.1 hrun
  obtain ⟨s', hs', hidle⟩ := Option.map_eq_some_iff.1 hrun'
  rw [Prod.mk.injEq] at hv
  rw [run_append, hs, Option.bind_some] at hs'
  obtain ⟨hacc, hrefresh⟩ := no_slot_lost _ _ _ _ hs
  have hf : s.Flagged recycleEach 0 := .inl hv.2
  exact ⟨s, s', hs, hacc 0 (by decide), hf, hs',
    (hrefresh _ hv.1).2 0 (by decide) hf _ s' hs' (.inl hidle)⟩

end Turbine.Dispatch
