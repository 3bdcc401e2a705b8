import Turbine.Dispatch.Accounting
import Turbine.Dispatch.Workers

/-!
# Turbine.Dispatch.Quota

`max_requests` per worker lifetime: the served counter of a slot is meant to
be the number of requests its present worker has completed.  Three kinds of
steps touch the two sides, and each keeps them equal only under a condition
(`CountsLifetime`):

* `record_served` counts for the slot, whoever occupies it by then;
* the pool puts a new worker into a slot and leaves the counter alone;
* `refresh_fds` resets every counter on every tick, respawn or not.

The conditions are exactly what it takes (`counted_step_iff`).
-/

namespace Turbine.Dispatch

open Base

variable {cfg : Config} {s s' : State} {e : Event} {i : Nat} {w : WorkerId}

/-! ## the counter of a slot and the age of its worker -/

/-- The served counter of every occupied slot is the number of requests that
its occupant has completed. -/
def State.Counted (cfg : Config) (s : State) : Prop :=
  ∀ i < cfg.cap, ∀ w, s.occupant? i = some w → s.served i = s.completions.count w

/-- What `max_requests` promises: the counters count, and a worker that has
completed its quota is neither pickable nor left alone by the reaper. -/
structure State.Lifetime (cfg : Config) (s : State) : Prop where
  counted : s.Counted cfg
  retired : ∀ i < cfg.cap, ∀ w, s.occupant? i = some w → 0 < cfg.quotaFor i →
    cfg.quotaFor i ≤ s.completions.count w →
      s.isPickable cfg i = false ∧ (s.unhealthy i = true ∨ i ∈ s.overQuotaIndices cfg)

/-- Counting is all it takes. -/
theorem State.Counted.lifetime (h : s.Counted cfg) : s.Lifetime cfg := by
  refine ⟨h, fun i hi w hocc hpos hq => ?_⟩
  rw [← h i hi w hocc] at hq
  have hover : s.overQuota cfg i = true := by simp [State.overQuota, hpos, hq]
  refine ⟨by simp [State.isPickable, hover], ?_⟩
  cases hu : s.unhealthy i with
  | true => exact .inl rfl
  | false =>
    have hmax : cfg.maxRequests ≠ 0 := Nat.ne_of_gt (Config.quotaFor_pos.1 hpos)
    exact .inr (by simp [State.overQuotaIndices, hmax, hi, hu, hover])

theorem lifetime_iff_counted : s.Lifetime cfg ↔ s.Counted cfg :=
  ⟨fun h => h.counted, fun h => h.lifetime⟩

/-- The step keeps counters and lifetimes together: a request is counted for
the worker that answered it, a counter is reset while it is zero, a slot changes
hands while its counter is zero. -/
def CountsLifetime (cfg : Config) (s : State) : Event → Prop
  | .record t =>
    match s.tasks[t]? with
    | some (.guarded g (.replied _)) => ∀ v ∈ (s.occupant? g.idx).toList, v = g.worker
    | _ => True
  | .reaper =>
    match s.reaper with
    | .swapServed _ i _ _ => (s.occupant? i).isSome → s.served i = 0
    | _ => True
  | .reap count =>
    ∀ i < cfg.cap, i ∈ renewedSlots cfg.mode s.pool ((deadSlots s.pool).take count) →
      s.served i = 0
  | .spawnAdditional => ∀ i < cfg.cap, i ∈ [s.pool.length] → s.served i = 0
  | .reload count => ∀ i < cfg.cap, i < count → s.served i = 0
  | _ => True

/-! ## one step -/

/-- The worker of a request was spawned for the request's slot. -/
theorem worker_slot (hn : s.Numbered cfg) {t : Nat} {g : IdleGuard} {st : Stage}
    (ht : s.tasks[t]? = some (.guarded g st)) : g.worker.slot = g.idx := by
  obtain ⟨-, harmed⟩ := numbered_guard hn.tasks ht
  cases hp : g.poisonOnDrop with
  | none => simp [IdleGuard.worker, hp]
  | some w => simp [IdleGuard.worker, hp, (harmed w hp).1]

theorem count_spawned (hn : s.Numbered cfg) (hw : s.nextSerial ≤ w.serial) :
    s.completions.count w = 0 :=
  List.count_eq_zero.2 fun hmem => by
    have := hn.completions w hmem
    omega

theorem counted_congr (hserved : s'.served = s.served) (hcomp : s'.completions = s.completions)
    (hpool : s'.pool = s.pool) : s'.Counted cfg ↔ s.Counted cfg := by
  simp only [State.Counted, State.occupant?, hserved, hcomp, hpool]

/-- `record_served` keeps the count iff it counts for the occupant. -/
theorem counted_record_iff (hn : s.Numbered cfg) (hc : s.Counted cfg) {t : Nat} {g : IdleGuard}
    {r : Option Reply} (ht : s.tasks[t]? = some (.guarded g (.replied r)))
    (hserved : s'.served = Function.update s.served g.idx (s.served g.idx + 1))
    (hcomp : s'.completions = g.worker :: s.completions) (hpool : s'.pool = s.pool) :
    s'.Counted cfg ↔ ∀ v ∈ (s.occupant? g.idx).toList, v = g.worker := by
  have hocc : ∀ i, s'.occupant? i = s.occupant? i := fun i => by
    simp only [State.occupant?, hpool]
  have hslot := worker_slot hn ht
  have hidx := (numbered_guard hn.tasks ht).1
  constructor
  · intro hc' v hv
    rw [Option.mem_toList] at hv
    have h' := hc' g.idx hidx v ((hocc _).trans hv)
    rw [hserved, hcomp, Function.update_self, hc g.idx hidx v hv, List.count_cons] at h'
    by_contra hne
    simp [Ne.symm hne] at h'
  · intro hv i hi w hw
    rw [hocc] at hw
    rw [hserved, hcomp, List.count_cons]
    by_cases hig : i = g.idx
    · subst hig
      have hwg : w = g.worker := hv w (by simpa using hw)
      simp [hc _ hi w hw, hwg]
    · have hwg : g.worker ≠ w := fun h => hig (by
        rw [← hslot, h, (hn.listed i w (.inl hw)).1])
      simp [hig, hwg, hc i hi w hw]

/-- Resetting a counter keeps the count iff it was zero already. -/
theorem counted_reset_iff (hc : s.Counted cfg) (hi : i < cfg.cap)
    (hserved : s'.served = Function.update s.served i 0)
    (hcomp : s'.completions = s.completions) (hpool : s'.pool = s.pool) :
    s'.Counted cfg ↔ ((s.occupant? i).isSome → s.served i = 0) := by
  have hocc : ∀ j, s'.occupant? j = s.occupant? j := fun j => by
    simp only [State.occupant?, hpool]
  constructor
  · intro hc' hsome
    obtain ⟨w, hw⟩ := Option.isSome_iff_exists.1 hsome
    have h' := hc' i hi w ((hocc i).trans hw)
    rw [hserved, hcomp, Function.update_self] at h'
    rw [hc i hi w hw, ← h']
  · intro hzero j hj w hw
    rw [hocc] at hw
    rw [hserved, hcomp]
    by_cases hji : j = i
    · subst hji
      rw [Function.update_self, ← hc j hj w hw, hzero (by simp [hw])]
    · rw [Function.update_of_ne hji, hc j hj w hw]

/-- New workers keep the count iff they get slots whose counter is zero. -/
theorem counted_renewed_iff (hn : s.Numbered cfg) (hc : s.Counted cfg) (new : Nat → Prop)
    (hserved : s'.served = s.served) (hcomp : s'.completions = s.completions)
    (hkept : ∀ i, ¬ new i → ∀ w, s'.occupant? i = some w → s.occupant? i = some w)
    (hnew : ∀ i, new i → ∃ w, s'.occupant? i = some w ∧ s.nextSerial ≤ w.serial) :
    s'.Counted cfg ↔ ∀ i < cfg.cap, new i → s.served i = 0 := by
  constructor
  · intro hc' i hi hin
    obtain ⟨w, hw, hle⟩ := hnew i hin
    rw [← hserved, hc' i hi w hw, hcomp, count_spawned hn hle]
  · intro hzero i hi w hw
    rw [hserved, hcomp]
    by_cases hin : new i
    · obtain ⟨v, hv, hle⟩ := hnew i hin
      obtain rfl : v = w := Option.some.inj (hv.symm.trans hw)
      rw [hzero i hi hin, count_spawned hn hle]
    · exact hc i hi w (hkept i hin w hw)

/-- A renewal of the pool, in the form above. -/
theorem counted_renewal_iff (hn : s.Numbered cfg) (hc : s.Counted cfg) {new : Nat → Prop}
    (hserved : s'.served = s.served) (hcomp : s'.completions = s.completions)
    (hr : Renewal new s.pool s.nextSerial s'.pool s'.nextSerial) :
    s'.Counted cfg ↔ ∀ i < cfg.cap, new i → s.served i = 0 :=
  counted_renewed_iff hn hc new hserved hcomp
    (fun i hi _ hw => (hr.kept i hi).symm.trans hw)
    fun i hi => let ⟨serial, hw, hle, _⟩ := hr.renewed i hi; ⟨⟨i, serial⟩, hw, hle⟩

/-- **Step lemma.**  A step keeps the count iff it meets `CountsLifetime`. -/
theorem counted_step_iff (h : Step cfg s e s') (hn : s.Numbered cfg)
    (hrange : s.reaper.InRange cfg) (hc : s.Counted cfg) :
    s'.Counted cfg ↔ CountsLifetime cfg s e := by
  have hstep := h
  cases h with
  | record ht =>
    have hidx := (numbered_guard hn.tasks ht).1
    simp only [CountsLifetime, ht]
    exact counted_record_iff hn hc ht (by simp [State.goto, hidx]) rfl rfl
  | revive hr hi h =>
    rw [hr] at hrange
    simp only [CountsLifetime, hr]
    exact counted_reset_iff hc (Nat.lt_of_lt_of_le hrange (Nat.min_le_right _ _)) rfl rfl rfl
  | keep hr h =>
    rw [hr] at hrange
    simp only [CountsLifetime, hr]
    exact counted_reset_iff hc (Nat.lt_of_lt_of_le hrange (Nat.min_le_right _ _)) rfl rfl rfl
  | reap | spawnAdditional =>
    exact counted_renewal_iff hn hc rfl rfl (renewal_step hstep (by simp))
  | @reload count =>
    refine counted_renewed_iff hn hc (· < count) rfl rfl (fun i hi w hw => ?_) fun i hi => ?_
    · have hocc : occupantIn (spawnAll s.nextSerial count) i = some w := hw
      rw [occupantIn_spawnAll, if_neg hi] at hocc
      contradiction
    · exact ⟨⟨i, s.nextSerial + i⟩, occupantIn_spawnAll.trans (if_pos hi), Nat.le_add_right _ _⟩
  | @exit j =>
    have hocc : ∀ i, occupantIn (s.pool.modify j fun o => { o with alive := false }) i =
        occupantIn s.pool i := fun i =>
      (renewal_step hstep (by simp)).kept i List.not_mem_nil
    simp only [CountsLifetime, iff_true]
    exact fun i hi w hw => hc i hi w ((hocc i).symm.trans hw)
  | markDead | poison | mark =>
    simp only [CountsLifetime, iff_true, *]
    exact (counted_congr (by simp [State.goto]) (by simp [State.goto])
      (by simp [State.goto])).2 hc
  | _ =>
    simp only [CountsLifetime, iff_true, *]
    exact hc

/-! ## whole runs -/

theorem counted_initial (cfg : Config) (late : Nat → Bool) : (initial cfg late).Counted cfg := by
  intro i _ w _
  simp

/-- **Run lemma.**  The quota bounds the requests a worker answers in its
lifetime, in every state of a run, exactly when the steps of the run keep
counters and lifetimes together. -/
theorem lifetime_along_iff (cfg : Config) (late : Nat → Bool) (es : List Event) :
    Along (step cfg) (fun _ _ s' => s'.Lifetime cfg) (initial cfg late) es ↔
      Guarded (step cfg) (CountsLifetime cfg) (initial cfg late) es := by
  refine along_iff_guarded
    (I := fun s => s.Numbered cfg ∧ s.reaper.InRange cfg ∧ s.Counted cfg) ?_ ?_
    ⟨numbered_initial cfg late, by simp [Reaper.InRange], counted_initial cfg late⟩
  · rintro s e s' ⟨hn, hrange, hc⟩ hg h
    have h' := Step.of_step h
    exact ⟨numbered_step h' hn, inRange_step h' hrange, (counted_step_iff h' hn hrange hc).2 hg⟩
  · rintro s e s' ⟨hn, hrange, hc⟩ h
    rw [lifetime_iff_counted, counted_step_iff (Step.of_step h) hn hrange hc]

/-- One slot, to be recycled after two requests. -/
def recycleSecond : Config := ⟨1, 2, fun _ _ _ => 2, .persistent⟩

/-- A tick falls between two requests: the worker is alive and under quota, so
nothing is respawned, but its counter starts again. -/
def resetBetween : List Event :=
  claimAndArm 0 ++ finishAndReturn 0 ++ [Event.tick] ++ List.replicate 4 Event.reaper ++
    [Event.reap 0] ++ List.replicate 5 Event.reaper ++ claimAndArm 1 ++ finishAndReturn 1

/-- The worker has completed its quota of two; its counter says one, the slot
is pickable and the reaper has no reason to retire it. -/
theorem quota_outlived :
    ∃ s, run (step recycleSecond) (initial recycleSecond fun _ => false) resetBetween = some s ∧
      s.occupant? 0 = some ⟨0, 0⟩ ∧ recycleSecond.quotaFor 0 = 2 ∧
      s.completions.count ⟨0, 0⟩ = 2 ∧ s.served 0 = 1 ∧
      s.isPickable recycleSecond 0 = true ∧ s.overQuotaIndices recycleSecond = [] ∧
      ¬ s.Lifetime recycleSecond := by
  have hrun : (run (step recycleSecond) (initial recycleSecond fun _ => false) resetBetween).map
      (fun s => (s.occupant? 0, s.completions.count ⟨0, 0⟩, s.served 0,
        s.isPickable recycleSecond 0, s.overQuotaIndices recycleSecond)) =
      some (some ⟨0, 0⟩, 2, 1, true, []) := by decide
  obtain ⟨s, hs, h⟩ := Option.map_eq_some_iff.1 hrun
  simp only [Prod.mk.injEq] at h
  obtain ⟨hocc, hcount, hserved, hpick, hover⟩ := h
  refine ⟨s, hs, hocc, by decide, hcount, hserved, hpick, hover, fun hl => ?_⟩
  have := hl.counted 0 (by decide) _ hocc
  omega

end Turbine.Dispatch
