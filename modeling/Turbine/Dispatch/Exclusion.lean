import Mathlib.Data.List.Nodup
import Turbine.Base.Counting
import Turbine.Dispatch.Inversion

/-!
# Turbine.Dispatch.Exclusion

Mutual exclusion of workers: a slot is in the idle queue once, or with one
request, or with nobody.  Requests keep this by themselves: popping and
returning move a slot, skipping and poisoning drop it.  Only `refresh_fds`
puts slots into the queue without having taken them, and it decides from
flags and counters, not from who holds the slot; `ReaddsFree` is the
condition under which that is harmless.
-/

namespace Turbine.Dispatch

open Base

variable {cfg : Config} {s s' : State} {e : Event} {i t : Nat} {τ τ' : Task}

/-! ## occurrences of a slot -/

/-- How often slot `i` occurs across the idle queue and the requests that have
taken it from there. -/
def State.occurrences (s : State) (i : Nat) : Nat :=
  s.queue.count i + s.tasks.countP fun τ => τ.slot? = some i

/-- Slots that the step makes `refresh_fds` append to the idle queue. -/
def readded (cfg : Config) (s : State) : Event → List Nat
  | .reaper =>
    match s.reaper with
    | .requeueing _ revived => revived.filter fun i => i ∉ s.queue
    | .growing c => List.range' c.prevLen (c.growable cfg)
    | _ => []
  | _ => []

/-- Slot `i` is not queued and no request has taken it. -/
def State.Free (s : State) (i : Nat) : Prop := i ∉ s.queue ∧ ∀ τ ∈ s.tasks, τ.slot? ≠ some i

/-- Every slot that the step makes `refresh_fds` append to the idle queue is
neither queued already nor taken by a request. -/
def ReaddsFree (cfg : Config) (s : State) (e : Event) : Prop := ∀ i ∈ readded cfg s e, s.Free i

instance : Decidable (s.Free i) :=
  inferInstanceAs (Decidable (i ∉ s.queue ∧ ∀ τ ∈ s.tasks, τ.slot? ≠ some i))

instance : Decidable (ReaddsFree cfg s e) :=
  inferInstanceAs (Decidable (∀ i ∈ readded cfg s e, s.Free i))

theorem State.Free.occurrences_eq_zero (h : s.Free i) : s.occurrences i = 0 := by
  have hq : s.queue.count i = 0 := List.count_eq_zero.2 h.1
  have ht : s.tasks.countP (fun τ => τ.slot? = some i) = 0 :=
    List.countP_eq_zero.2 fun τ hτ => by simpa using h.2 τ hτ
  simp only [State.occurrences, hq, ht]

/-- A task that changes place without taking a slot adds no occurrence. -/
theorem occurrences_goto_le (ht : s.tasks[t]? = some τ)
    (hτ : τ'.slot? = some i → τ.slot? = some i) :
    (s.goto t τ').occurrences i ≤ s.occurrences i := by
  have hset := countP_set_add (b := τ') (fun τ => decide (τ.slot? = some i)) ht
  simp only [State.occurrences, State.goto]
  by_cases h' : τ'.slot? = some i
  · simp only [h', hτ h', decide_true, if_true] at hset
    omega
  · simp only [h', decide_false] at hset
    simp only [Bool.false_eq_true, if_false] at hset
    omega

@[simp] theorem slot?_skip (k : Nat) : (skip cfg k).slot? = none := by
  unfold skip; split <;> rfl

/-- Popping moves a slot from the queue to the request. -/
theorem occurrences_pop {k idx : Nat} (ht : s.tasks[t]? = some (.acquired k))
    (hq : s.queue.getLast? = some idx) :
    ({ s with queue := s.queue.dropLast }.goto t (.popped k idx)).occurrences i =
      s.occurrences i := by
  have hset := countP_set_add (b := .popped k idx) (fun τ => decide (τ.slot? = some i)) ht
  have hcount : s.queue.dropLast.count i + [idx].count i = s.queue.count i := by
    rw [← List.count_append]
    exact congrArg (List.count i) (List.dropLast_append_getLast? idx hq)
  rw [List.count_singleton] at hcount
  simp only [slot?_acquired, slot?_popped, reduceCtorEq, Option.some.injEq, decide_false,
    Bool.false_eq_true, if_false, decide_eq_true_eq] at hset
  simp only [beq_iff_eq] at hcount
  simp only [State.occurrences, State.goto]
  omega

/-- `return_idle` moves a slot from the guard to the queue. -/
theorem occurrences_giveBack {g : IdleGuard} {st : Stage}
    (ht : s.tasks[t]? = some (.guarded g st)) :
    ({ s with queue := s.queue ++ [g.idx] }.goto t .returning).occurrences i =
      s.occurrences i := by
  have hset := countP_set_add (b := .returning) (fun τ => decide (τ.slot? = some i)) ht
  simp only [slot?_guarded, slot?_returning, reduceCtorEq, Option.some.injEq, decide_false,
    Bool.false_eq_true, if_false, decide_eq_true_eq] at hset
  simp only [State.occurrences, State.goto, List.count_append, List.count_singleton, beq_iff_eq]
  omega

/-- What `refresh_fds` re-queues occurs once if it was free before. -/
theorem occurrences_requeue {c : RefreshCall} {revived : List Nat}
    (hr : s.reaper = .requeueing c revived) (hf : ReaddsFree cfg s .reaper)
    (hi : s.occurrences i ≤ 1) :
    { s with
      queue := requeue s.queue revived
      reaper := .adding c revived.length }.occurrences i ≤ 1 := by
  by_cases hq : i ∈ s.queue
  · simpa only [State.occurrences, count_requeue_of_mem hq] using hi
  · by_cases hv : i ∈ revived
    · have hfree : s.Free i := hf i (by simp [readded, hr, hv, hq])
      have ht : s.tasks.countP (fun τ => τ.slot? = some i) = 0 :=
        List.countP_eq_zero.2 fun τ hτ => by simpa using hfree.2 τ hτ
      simp only [State.occurrences, ht]
      exact count_requeue_of_not_mem hq
    · have hq' : i ∉ requeue s.queue revived := by simp [mem_requeue, hq, hv]
      simp only [State.occurrences, List.count_eq_zero.2 hq, List.count_eq_zero.2 hq'] at hi ⊢
      exact hi

/-- What the scale-up branch queues occurs once if it was free before. -/
theorem occurrences_grow {c : RefreshCall} (hr : s.reaper = .growing c)
    (hf : ReaddsFree cfg s .reaper) (hi : s.occurrences i ≤ 1) :
    { s with
      queue := s.queue ++ List.range' c.prevLen (c.growable cfg)
      reaper := .growAdding (c.growable cfg) }.occurrences i ≤ 1 := by
  simp only [State.occurrences, List.count_append] at hi ⊢
  by_cases hg : i ∈ List.range' c.prevLen (c.growable cfg)
  · have hfree := (hf i (by simpa [readded, hr] using hg)).occurrences_eq_zero
    have hone : (List.range' c.prevLen (c.growable cfg)).count i = 1 :=
      List.count_eq_one_of_mem List.nodup_range' hg
    simp only [State.occurrences] at hfree
    omega
  · have hzero := List.count_eq_zero.2 hg
    omega

/-- **Step lemma.**  A step whose re-queued slots are free keeps every slot at
one occurrence. -/
theorem occurrences_step (h : Step cfg s e s') (hf : ReaddsFree cfg s e)
    (hi : s.occurrences i ≤ 1) : s'.occurrences i ≤ 1 := by
  cases h with
  | arrive => simpa [State.occurrences] using hi
  | pop ht hq => exact (occurrences_pop ht hq).trans_le hi
  | giveBack ht hg => exact (occurrences_giveBack ht).trans_le hi
  | requeue hr => exact occurrences_requeue hr hf hi
  | grow hr h => exact occurrences_grow hr hf hi
  | markDead ht =>
    refine Nat.le_trans
      (occurrences_goto_le (State.getElem?_markUnhealthy_tasks ht) (by simp)) ?_
    simpa [State.occurrences] using hi
  | poison ht =>
    refine Nat.le_trans
      (occurrences_goto_le (State.getElem?_markUnhealthy_tasks ht) (by simp)) ?_
    simpa [State.occurrences] using hi
  | mark hr => simpa [State.occurrences] using hi
  | skipUnhealthy ht h => exact Nat.le_trans (occurrences_goto_le ht (by simp)) hi
  | skipOverQuota ht h => exact Nat.le_trans (occurrences_goto_le ht (by simp)) hi
  | _ =>
    -- the other steps of a task keep its slot, the other steps of the reaper
    -- and the workers touch neither queue nor tasks
    first
    | exact hi
    | exact Nat.le_trans
        (occurrences_goto_le (‹_› : s.tasks[_]? = some _) (by simp)) hi

/-! ## whole runs -/

/-- No slot occurs twice across the idle queue and the requests that took one. -/
def State.Exclusive (s : State) : Prop := ∀ i, s.occurrences i ≤ 1

theorem exclusive_initial (cfg : Config) (late : Nat → Bool) : (initial cfg late).Exclusive := by
  intro i
  simpa [State.occurrences] using List.nodup_iff_count_le_one.1 List.nodup_range i

/-- **Run lemma.**  Along a run whose re-queued slots are free, slots stay
exclusive. -/
theorem exclusive_run {late : Nat → Bool} {es : List Event}
    (hg : Guarded (step cfg) (ReaddsFree cfg) (initial cfg late) es)
    (hrun : run (step cfg) (initial cfg late) es = some s) : s.Exclusive :=
  invariant_of_guarded (fun _ _ _ hs hG h i => occurrences_step (.of_step h) hG (hs i))
    (exclusive_initial cfg late) hg hrun

theorem State.Exclusive.taker_unique (h : s.Exclusive) {u : Nat} (ht : s.tasks[t]? = some τ)
    (hu : s.tasks[u]? = some τ') (hτ : τ.slot? = some i) (hτ' : τ'.slot? = some i) : t = u := by
  have hle : s.tasks.countP (fun τ => τ.slot? = some i) ≤ 1 :=
    Nat.le_trans (Nat.le_add_left _ _) (h i)
  exact eq_of_countP_le_one hle ht (by simp [hτ]) hu (by simp [hτ'])

/-- What dispatching promises its callers: each slot occurs at most once across
the idle queue and the live guards, so no two requests hold one worker. -/
structure State.HeldOnce (cfg : Config) (s : State) : Prop where
  once : ∀ i < cfg.cap, s.queue.count i + s.tasks.countP (fun τ => τ.guard? = some i) ≤ 1
  holder : ∀ (t u : Nat) (g g' : IdleGuard) (st st' : Stage),
    s.tasks[t]? = some (.guarded g st) → s.tasks[u]? = some (.guarded g' st') →
      g.idx = g'.idx → t = u

/-- **Mutual exclusion.**  Every run in which `refresh_fds` only re-queues slots
that are neither queued nor taken keeps the promise in every state. -/
theorem slot_held_once (cfg : Config) (late : Nat → Bool) (es : List Event) (s : State)
    (hrun : run (step cfg) (initial cfg late) es = some s)
    (hg : Guarded (step cfg) (ReaddsFree cfg) (initial cfg late) es) : s.HeldOnce cfg := by
  have hex : s.Exclusive := exclusive_run hg hrun
  refine ⟨fun i _ => ?_, fun t u g g' st st' ht hu hidx =>
    hex.taker_unique ht hu (slot?_guarded g st) (hidx ▸ slot?_guarded g' st')⟩
  have hle : s.tasks.countP (fun τ => τ.guard? = some i) ≤
      s.tasks.countP (fun τ => τ.slot? = some i) :=
    List.countP_mono_left fun τ _ h => by
      simp only [decide_eq_true_eq] at h ⊢
      exact slot?_of_guard? h
  exact Nat.le_trans (Nat.add_le_add_left hle _) (hex i)

/-- A request that is cancelled poisons its slot, and the next tick re-queues
it: nobody holds the slot then. -/
def poisonedThenRevived : List Event :=
  claimAndArm 0 ++ [Event.cancel 0, .drop 0, .tick] ++ List.replicate 3 Event.reaper ++
    [Event.reap 0] ++ List.replicate 6 Event.reaper

theorem slot_held_once_poisonedThenRevived :
    ∃ s, run (step recycleEach) (initial recycleEach fun _ => false) poisonedThenRevived =
        some s ∧
      Guarded (step recycleEach) (ReaddsFree recycleEach) (initial recycleEach fun _ => false)
        poisonedThenRevived ∧
      s.HeldOnce recycleEach := by
  obtain ⟨s, hs⟩ : ∃ s, run (step recycleEach) (initial recycleEach fun _ => false)
      poisonedThenRevived = some s := Option.isSome_iff_exists.1 (by decide)
  exact ⟨s, hs, by decide, slot_held_once _ _ _ _ hs (by decide)⟩

/-- The reaper's tick falls between `record_served` and the guard's drop: the
slot is over quota, so the tick re-queues it while the guard still lives, and
the drop queues it once more. -/
def doubleDispatch : List Event :=
  claimAndArm 0 ++ [Event.respond 0, .record 0, .tick] ++ List.replicate 5 Event.reaper ++
    [Event.reap 0] ++ List.replicate 6 Event.reaper ++ [Event.drop 0, .addPermit 0] ++
    claimAndArm 1 ++ claimAndArm 2

/-- Two requests hold the one worker, and read from the same pipe. -/
theorem double_dispatch :
    ∃ s, run (step recycleEach) (initial recycleEach fun _ => false) doubleDispatch = some s ∧
      s.tasks[1]? = some (.guarded ⟨0, some ⟨0, 0⟩, false⟩ .reading) ∧
      s.tasks[2]? = some (.guarded ⟨0, some ⟨0, 0⟩, false⟩ .reading) ∧
      ¬ s.HeldOnce recycleEach := by
  have hrun : (run (step recycleEach) (initial recycleEach fun _ => false) doubleDispatch).map
      (fun s => s.tasks) = some [.finished .returned, .guarded ⟨0, some ⟨0, 0⟩, false⟩ .reading,
        .guarded ⟨0, some ⟨0, 0⟩, false⟩ .reading] := by decide
  obtain ⟨s, hs, htasks⟩ := Option.map_eq_some_iff.1 hrun
  have h1 : s.tasks[1]? = some (.guarded ⟨0, some ⟨0, 0⟩, false⟩ .reading) := by simp [htasks]
  have h2 : s.tasks[2]? = some (.guarded ⟨0, some ⟨0, 0⟩, false⟩ .reading) := by simp [htasks]
  exact ⟨s, hs, h1, h2, fun h => absurd (h.holder 1 2 _ _ _ _ h1 h2 rfl) (by decide)⟩

end Turbine.Dispatch
