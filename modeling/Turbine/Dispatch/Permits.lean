import Mathlib.Data.List.Nodup
import Turbine.Base.Counting
import Turbine.Dispatch.Inversion

/-!
# Turbine.Dispatch.Permits

Permit conservation: the semaphore never promises more workers than the idle
queue holds.  Every party keeps the two in balance once its half-done
operations are counted: a `get_idle` between its permit and its pop, a
`return_idle` between its push and its `add_permits`, a `refresh_fds` between
the same two.  The one place that breaks the balance is the revival in
`refresh_fds`, which adds a permit for every revived slot but pushes only
those not queued already.
-/

namespace Turbine.Dispatch

open Base

variable {cfg : Config} {s s' : State} {e : Event} {t : Nat} {τ τ' : Task}

/-! ## half-done operations -/

/-- The task has changed one of permits and queue and not yet the other. -/
def Task.pending : Task → Bool
  | .acquired _ | .restoring | .returning => true
  | .waiting _ | .popped .. | .checked .. | .guarded .. | .finished _ => false

/-- Entries that `refresh_fds` has pushed and not yet added permits for. -/
def Reaper.pending : Reaper → Nat
  | .adding _ count => count
  | .growAdding growable => growable
  | _ => 0

@[simp] theorem pending_skip (k : Nat) : (skip cfg k).pending = false := by
  unfold skip; split <;> rfl

/-- Permits and queue entries agree, half-done operations counted. -/
def State.Balanced (s : State) : Prop :=
  s.permits + s.tasks.countP Task.pending + s.reaper.pending = s.queue.length

/-- The slots that the step makes `refresh_fds` revive. -/
def revivedBy (s : State) : Event → List Nat
  | .reaper =>
    match s.reaper with
    | .requeueing _ revived => revived
    | _ => []
  | _ => []

/-- None of the slots that the step revives is queued already. -/
def RevivedAbsent (s : State) (e : Event) : Prop := ∀ i ∈ revivedBy s e, i ∉ s.queue

instance : Decidable (RevivedAbsent s e) :=
  inferInstanceAs (Decidable (∀ i ∈ revivedBy s e, i ∉ s.queue))

/-- `refresh_fds` collects revived slots in increasing order. -/
def Reaper.Distinct : Reaper → Prop
  | .swapFlag _ i revived | .swapServed _ i _ revived =>
    revived.Nodup ∧ ∀ j ∈ revived, j < i
  | .requeueing _ revived => revived.Nodup
  | _ => True

theorem distinct_step (h : Step cfg s e s') (hd : s.reaper.Distinct) : s'.reaper.Distinct := by
  cases h with
  | tick => dsimp only; split <;> trivial
  | install => exact ⟨List.nodup_nil, by simp⟩
  | swapFlag hr hi => simpa [hr, Reaper.Distinct] using hd
  | swapDone hr hi hv =>
    simp only [hr, Reaper.Distinct] at hd
    exact hd.1
  | revive hr hi h =>
    simp only [hr, Reaper.Distinct] at hd
    refine ⟨List.nodup_append.2 ⟨hd.1, by simp, ?_⟩, ?_⟩
    · intro j hj k hk
      have := hd.2 j hj
      simp only [List.mem_singleton] at hk
      omega
    · intro j hj
      rw [List.mem_append, List.mem_singleton] at hj
      obtain hj | rfl := hj
      · exact Nat.lt_succ_of_lt (hd.2 j hj)
      · exact Nat.lt_succ_self _
  | keep hr h =>
    simp only [hr, Reaper.Distinct] at hd
    exact ⟨hd.1, fun j hj => Nat.lt_succ_of_lt (hd.2 j hj)⟩
  | markDead | poison => simpa [State.goto] using hd
  | _ => first | exact hd | trivial

/-! ## the balance -/

/-- A step of one task keeps the balance if it changes permits and queue by as
much as it changes what is half-done. -/
theorem balanced_set (ht : s.tasks[t]? = some τ) (htasks : s'.tasks = s.tasks.set t τ')
    (hr : s'.reaper = s.reaper)
    (hdiff : s'.permits + (if τ'.pending then 1 else 0) + s.queue.length =
      s.permits + (if τ.pending then 1 else 0) + s'.queue.length)
    (hb : s.Balanced) : s'.Balanced := by
  have hset := countP_set_add (b := τ') Task.pending ht
  simp only [State.Balanced, htasks, hr] at hb ⊢
  omega

theorem balanced_goto (ht : s.tasks[t]? = some τ) (hτ : τ'.pending = τ.pending)
    (hb : s.Balanced) : (s.goto t τ').Balanced :=
  balanced_set ht rfl rfl (by simp [State.goto, hτ]) hb

theorem length_dropLast_of_getLast? {queue : List Nat} {idx : Nat}
    (h : queue.getLast? = some idx) : queue.dropLast.length + 1 = queue.length := by
  have hne : queue ≠ [] := by rintro rfl; simp at h
  have := List.length_pos_of_ne_nil hne
  rw [List.length_dropLast]
  omega

/-- **Step lemma.**  A step whose revived slots are not queued keeps the
balance. -/
theorem balanced_step (h : Step cfg s e s') (hd : s.reaper.Distinct) (ha : RevivedAbsent s e)
    (hb : s.Balanced) : s'.Balanced := by
  cases h with
  | arrive => simpa [State.Balanced, Task.pending] using hb
  | acquire ht hp =>
    refine balanced_set ht rfl rfl ?_ hb
    simp only [State.goto, Task.pending, Bool.false_eq_true, if_true, if_false]
    omega
  | pop ht hq =>
    have hlen := length_dropLast_of_getLast? hq
    refine balanced_set ht rfl rfl ?_ hb
    simp only [State.goto, Task.pending, Bool.false_eq_true, if_true, if_false]
    omega
  | restore ht => exact balanced_set ht rfl rfl (by simp [State.goto, Task.pending]) hb
  | giveBack ht hg =>
    refine balanced_set ht rfl rfl ?_ hb
    simp only [State.goto, Task.pending, List.length_append, List.length_singleton,
      Bool.false_eq_true, if_true, if_false]
    omega
  | addPermit ht => exact balanced_set ht rfl rfl (by simp [State.goto, Task.pending]) hb
  | markDead ht =>
    exact balanced_goto (State.getElem?_markUnhealthy_tasks ht) (by rfl)
      (by simpa [State.Balanced] using hb)
  | poison ht =>
    exact balanced_goto (State.getElem?_markUnhealthy_tasks ht) (by rfl)
      (by simpa [State.Balanced] using hb)
  | skipUnhealthy ht h => exact balanced_goto ht (by rw [pending_skip]; rfl) hb
  | skipOverQuota ht h => exact balanced_goto ht (by rw [pending_skip]; rfl) hb
  | tick hr =>
    rw [State.Balanced, hr] at hb
    unfold State.Balanced
    dsimp only
    split <;> exact hb
  | mark hr => simpa [State.Balanced, hr, Reaper.pending] using hb
  | requeue hr =>
    have hlen := length_requeue (by simpa [hr, Reaper.Distinct] using hd)
      (fun i hi => ha i (by simpa [revivedBy, hr] using hi))
    simp only [State.Balanced, hr, Reaper.pending] at hb ⊢
    omega
  | addPermits hr =>
    simp only [State.Balanced, hr, Reaper.pending] at hb ⊢
    omega
  | grow hr h =>
    simp only [State.Balanced, hr, Reaper.pending, List.length_append, List.length_range']
      at hb ⊢
    omega
  | growAdd hr =>
    simp only [State.Balanced, hr, Reaper.pending] at hb ⊢
    omega
  | _ =>
    -- the other steps change neither permits nor queue, nor what is half-done
    first
    | exact hb
    | exact balanced_goto (‹_› : s.tasks[_]? = some _) (by rfl) hb
    | simpa only [State.Balanced, Reaper.pending, (‹_› : s.reaper = _)] using hb

/-- While the balance holds, a `get_idle` that has its permit finds an entry. -/
theorem State.Balanced.queue_ne_nil {k : Nat} (hb : s.Balanced)
    (ht : s.tasks[t]? = some (.acquired k)) : s.queue ≠ [] := by
  have hpos : 0 < s.tasks.countP Task.pending :=
    List.countP_pos_iff.2 ⟨_, List.mem_of_getElem? ht, rfl⟩
  have hlen : 0 < s.queue.length := by
    unfold State.Balanced at hb
    omega
  exact List.length_pos_iff.1 hlen

/-! ## why `get_idle` answers `None` -/

/-- The task has not met an empty queue, and if it gave up it had skipped as
many workers as `get_idle` allows. -/
def Task.Explained (cfg : Config) : Task → Prop
  | .restoring | .finished .queueEmpty => False
  | .finished (.gaveUp skipped) => cfg.maxSkips ≤ skipped
  | _ => True

theorem explained_skip (k : Nat) : (skip cfg k).Explained cfg := by
  unfold skip
  split
  case isTrue h => exact h
  case isFalse => trivial

theorem explained_step (h : Step cfg s e s') (hb : s.Balanced)
    (hx : ∀ τ ∈ s.tasks, τ.Explained cfg) : ∀ τ ∈ s'.tasks, τ.Explained cfg := by
  cases h with
  | arrive => exact List.forall_mem_append.2 ⟨hx, List.forall_mem_singleton.2 trivial⟩
  | popEmpty ht hq => exact absurd hq (hb.queue_ne_nil ht)
  | restore ht => exact absurd (hx _ (List.mem_of_getElem? ht)) id
  | skipUnhealthy ht h => exact State.forall_goto hx (explained_skip _)
  | skipOverQuota ht h => exact State.forall_goto hx (explained_skip _)
  | markDead | poison | mark =>
    first
    | exact State.forall_goto (by simpa using hx) trivial
    | simpa using hx
  | _ => first | exact hx | exact State.forall_goto hx trivial

/-! ## whole runs -/

/-- The task has its permit and has not popped yet. -/
def Task.awaitsPop : Task → Bool
  | .acquired _ => true
  | _ => false

/-- `get_idle` returned `None`. -/
def Outcome.isNone : Outcome → Bool
  | .timedOut | .queueEmpty | .gaveUp _ => true
  | .cancelled | .poisoned | .returned => false

/-- What the semaphore promises: every permit stands for a queue entry, so
`get_idle` finds one, and answers `None` only for want of a permit or after
skipping as many workers as it may. -/
structure State.Funded (cfg : Config) (s : State) : Prop where
  permits_le : s.permits + s.tasks.countP Task.awaitsPop ≤ s.queue.length
  pop_finds : ∀ (t k : Nat), s.tasks[t]? = some (.acquired k) → s.queue ≠ []
  answers : ∀ (t : Nat) (o : Outcome), s.tasks[t]? = some (.finished o) → o.isNone = true →
    o = .timedOut ∨ ∃ k, o = .gaveUp k ∧ cfg.maxSkips ≤ k

/-- **Permit conservation.**  Every run in which `refresh_fds` revives only
slots that are not queued keeps the promise in every state. -/
theorem permits_funded (cfg : Config) (late : Nat → Bool) (es : List Event) (s : State)
    (hrun : run (step cfg) (initial cfg late) es = some s)
    (hg : Guarded (step cfg) RevivedAbsent (initial cfg late) es) : s.Funded cfg := by
  have hinv : s.Balanced ∧ s.reaper.Distinct ∧ ∀ τ ∈ s.tasks, τ.Explained cfg := by
    refine invariant_of_guarded
      (I := fun s => s.Balanced ∧ s.reaper.Distinct ∧ ∀ τ ∈ s.tasks, τ.Explained cfg)
      ?_ ?_ hg hrun
    · rintro s e s' ⟨hb, hd, hx⟩ hG h
      have hs := Step.of_step h
      exact ⟨balanced_step hs hd hG hb, distinct_step hs hd, explained_step hs hb hx⟩
    · exact ⟨by simp [State.Balanced, Reaper.pending], by simp [Reaper.Distinct], by simp⟩
  obtain ⟨hb, -, hx⟩ := hinv
  have hle : s.tasks.countP Task.awaitsPop ≤ s.tasks.countP Task.pending :=
    List.countP_mono_left fun τ _ h => by cases τ <;> simp_all [Task.awaitsPop, Task.pending]
  refine ⟨?_, fun t k ht => hb.queue_ne_nil ht, fun t o ht ho => ?_⟩
  · unfold State.Balanced at hb
    omega
  · have hxo := hx _ (List.mem_of_getElem? ht)
    cases o with
    | timedOut => exact .inl rfl
    | gaveUp k => exact .inr ⟨k, rfl, hxo⟩
    | queueEmpty => exact absurd hxo id
    | cancelled | poisoned | returned => simp [Outcome.isNone] at ho

/-- A slot poisoned by one request is revived, then claimed by the next. -/
def revivedThenClaimed : List Event :=
  claimAndArm 0 ++ [Event.cancel 0, .drop 0, .tick] ++ List.replicate 3 Event.reaper ++
    [Event.reap 0] ++ List.replicate 6 Event.reaper ++ claimAndArm 1

theorem permits_funded_revivedThenClaimed :
    ∃ s, run (step recycleEach) (initial recycleEach fun _ => false) revivedThenClaimed =
        some s ∧
      Guarded (step recycleEach) RevivedAbsent (initial recycleEach fun _ => false)
        revivedThenClaimed ∧
      s.Funded recycleEach := by
  obtain ⟨s, hs⟩ : ∃ s, run (step recycleEach) (initial recycleEach fun _ => false)
      revivedThenClaimed = some s := Option.isSome_iff_exists.1 (by decide)
  exact ⟨s, hs, by decide, permits_funded _ _ _ _ hs (by decide)⟩

/-- The one worker is returned, over quota, before the reaper's tick: the tick
finds it queued and pushes nothing, but adds a permit. -/
def surplusPermit : List Event :=
  claimAndArm 0 ++ finishAndReturn 0 ++ [Event.tick] ++ List.replicate 5 Event.reaper ++
    [Event.reap 0] ++ List.replicate 6 Event.reaper

/-- Two permits for one queue entry; the second request to come is refused at
once although nothing was skipped and no time has passed. -/
theorem surplus_permit :
    (∃ s, run (step recycleEach) (initial recycleEach fun _ => false) surplusPermit = some s ∧
      s.permits = 2 ∧ s.queue = [0] ∧ ¬ s.Funded recycleEach) ∧
    ∃ s, run (step recycleEach) (initial recycleEach fun _ => false)
        (surplusPermit ++ claimAndArm 1 ++ [.arrive, .acquire 2, .pop 2, .restore 2]) = some s ∧
      s.tasks[2]? = some (.finished .queueEmpty) := by
  have hrun : (run (step recycleEach) (initial recycleEach fun _ => false) surplusPermit).map
      (fun s => (s.permits, s.queue)) = some (2, [0]) := by decide
  have hrun' : (run (step recycleEach) (initial recycleEach fun _ => false)
      (surplusPermit ++ claimAndArm 1 ++ [Event.arrive, .acquire 2, .pop 2, .restore 2])).map
      (fun s => s.tasks[2]?) = some (some (.finished .queueEmpty)) := by decide
  obtain ⟨s, hs, hv⟩ := Option.map_eq_some_iff.1 hrun
  obtain ⟨s', hs', ht⟩ := Option.map_eq_some_iff.1 hrun'
  rw [Prod.mk.injEq] at hv
  refine ⟨⟨s, hs, hv.1, hv.2, fun h => ?_⟩, s', hs', ht⟩
  have hle := h.permits_le
  rw [hv.1, hv.2] at hle
  simp only [List.length_singleton] at hle
  omega

end Turbine.Dispatch
