import Mathlib.Data.List.Basic
import Mathlib.Logic.Function.Basic
import Mathlib.Order.Basic
import Turbine.Base.Runs

/-!
# Turbine.Dispatch.Model

`ThreadDispatch` (crates/turbine-core/src/main.rs) as a transition system.
The server shares one dispatch between any number of request tasks and one
reaper task; the shared words are a semaphore, a mutex-protected deque, two
vectors of atomics and the table of worker fds.  Every access to one of them
is one `Event`, so a run of events is one interleaving of

* request tasks: `get_idle`, the handler code between `IdleGuard::new` and
  the guard's drop, and `return_idle` (`Task`);
* the reaper's tick: `over_quota_indices`, `mark_unhealthy`, the pool's
  respawn, `refresh_fds` (`Reaper`);
* the workers behind it, which exit when they like and, in channel mode,
  answer when they like (`Occupant`, `Channel`).

The last three fields of `State` are a record of what happened; no step
reads them.
-/

namespace Turbine.Dispatch

/-! ## workers and configuration -/

/-- One worker process or thread: the pool slot it was spawned for and a
serial number no other worker has.  Every spawn opens a fresh pipe pair, so
this also names the fds stored in `worker_fds`. -/
structure WorkerId where
  slot : Nat
  serial : Nat
deriving DecidableEq, Repr

/-- A worker of the pool and whether its process or thread still runs. -/
structure Occupant where
  id : WorkerId
  alive : Bool
deriving DecidableEq, Repr

/-- How requests reach the workers and how the pool respawns them: persistent
workers over pipes, native processes over pipes, native threads over
in-memory channels. -/
inductive Mode
  | persistent
  | nativeProcess
  | channel
deriving DecidableEq, Repr

/-- `ThreadDispatch::has_channels`. -/
def Mode.hasChannels : Mode → Bool
  | .channel => true
  | _ => false

/-- What is fixed when the server starts.  `cap` is the length of the atomics
vectors; `scaled` stands for the floating-point product
`(base as f64 * frac).round() as i64` of `staggered_max_requests`. -/
structure Config where
  cap : Nat
  maxRequests : Nat
  scaled : Nat → Nat → Nat → Int
  mode : Mode

/-- `staggered_max_requests(base, slot_idx, total)`. -/
def staggeredMaxRequests (scaled : Nat → Nat → Nat → Int) (base slotIdx total : Nat) : Nat :=
  if base = 0 ∨ total ≤ 1 then base else (max (scaled base slotIdx total) 1).toNat

/-- `ThreadDispatch::quota_for`. -/
def Config.quotaFor (cfg : Config) (idx : Nat) : Nat :=
  staggeredMaxRequests cfg.scaled cfg.maxRequests idx cfg.cap

/-- A quota of zero means unlimited, and only an unlimited configuration has
one: staggering never rounds a quota down to zero. -/
theorem Config.quotaFor_pos {cfg : Config} {i : Nat} :
    0 < cfg.quotaFor i ↔ 0 < cfg.maxRequests := by
  unfold Config.quotaFor staggeredMaxRequests
  split <;> omega

/-! ## request tasks -/

/-- What a channel worker sends back: its ready signal, or the response it
produced for the payload of request task `req`. -/
inductive Reply
  | ready
  | answer (req : Nat)
deriving DecidableEq, Repr

/-- `IdleGuard`.  `poisonOnDrop` holds the worker whose command fd the guard
was armed with. -/
structure IdleGuard where
  idx : Nat
  poisonOnDrop : Option WorkerId
  completed : Bool
deriving DecidableEq, Repr

/-- `IdleGuard::new`. -/
def IdleGuard.new (idx : Nat) : IdleGuard := ⟨idx, none, false⟩

/-- The worker that a request with guard `g` talks to: the one whose pipes the
guard was armed with, else the channel thread started for the slot. -/
def IdleGuard.worker (g : IdleGuard) : WorkerId := g.poisonOnDrop.getD ⟨g.idx, g.idx⟩

/-- Where a request that holds a guard stands. -/
inductive Stage
  | claimed
  | reading
  | sent
  | receiving
  | failing
  | replied (reply : Option Reply)
  | dropping
deriving DecidableEq, Repr

/-- How a request's use of the dispatch ended.  The first three are the ways
in which `get_idle` returns `None`; giving up keeps the final value of its
`skipped` counter. -/
inductive Outcome
  | timedOut
  | queueEmpty
  | gaveUp (skipped : Nat)
  | cancelled
  | poisoned
  | returned
deriving DecidableEq, Repr

/-- Program counter of a request task.  `skipped` is `get_idle`'s counter. -/
inductive Task
  | waiting (skipped : Nat)
  | acquired (skipped : Nat)
  | restoring
  | popped (skipped idx : Nat)
  | checked (skipped idx : Nat)
  | guarded (guard : IdleGuard) (stage : Stage)
  | returning
  | finished (outcome : Outcome)
deriving DecidableEq, Repr

/-- The slot of the guard that the task keeps alive. -/
def Task.guard? : Task → Option Nat
  | .guarded g _ => some g.idx
  | .waiting _ | .acquired _ | .restoring | .popped .. | .checked .. | .returning
  | .finished _ => none

/-- The slot that the task has taken from the idle queue, whether its
`get_idle` is still checking it or a guard already owns it. -/
def Task.slot? : Task → Option Nat
  | .popped _ idx => some idx
  | .checked _ idx => some idx
  | .guarded g _ => some g.idx
  | .waiting _ | .acquired _ | .restoring | .returning | .finished _ => none

section Slots

variable (k i : Nat) (g : IdleGuard) (st : Stage) (o : Outcome)

@[simp] theorem slot?_waiting : (Task.waiting k).slot? = none := rfl
@[simp] theorem slot?_acquired : (Task.acquired k).slot? = none := rfl
@[simp] theorem slot?_restoring : Task.restoring.slot? = none := rfl
@[simp] theorem slot?_popped : (Task.popped k i).slot? = some i := rfl
@[simp] theorem slot?_checked : (Task.checked k i).slot? = some i := rfl
@[simp] theorem slot?_guarded : (Task.guarded g st).slot? = some g.idx := rfl
@[simp] theorem slot?_returning : Task.returning.slot? = none := rfl
@[simp] theorem slot?_finished : (Task.finished o).slot? = none := rfl

/-- A live guard's slot was taken from the queue. -/
theorem slot?_of_guard? {τ : Task} {i : Nat} (h : τ.guard? = some i) : τ.slot? = some i := by
  cases τ <;> simp_all [Task.guard?]

@[simp] theorem idx_new : (IdleGuard.new i).idx = i := rfl

end Slots

/-- The slot whose response receiver the task has locked. -/
def Task.locked? : Task → Option Nat
  | .guarded g .receiving => some g.idx
  | _ => none

/-! ## the reaper -/

/-- The two lengths `refresh_fds` compares. -/
structure RefreshCall where
  prevLen : Nat
  newLen : Nat
deriving DecidableEq, Repr

/-- Program counter of the reaper task. -/
inductive Reaper
  | idle
  | scanFlag (idx : Nat) (out : List Nat)
  | scanServed (idx : Nat) (out : List Nat)
  | marking (todo : List Nat)
  | reaping
  | refreshing (newFds : List WorkerId)
  | swapFlag (call : RefreshCall) (i : Nat) (revived : List Nat)
  | swapServed (call : RefreshCall) (i : Nat) (wasUnhealthy : Bool) (revived : List Nat)
  | requeueing (call : RefreshCall) (revived : List Nat)
  | adding (call : RefreshCall) (count : Nat)
  | growing (call : RefreshCall)
  | growAdding (growable : Nat)
  | panicked
deriving DecidableEq, Repr

/-! ## the shared state -/

/-- One channel worker: the payloads it has not taken yet, the messages its
requests have not received yet, whether its ready signal is still to be
sent, and whether its thread still runs. -/
structure Channel where
  requests : List Nat
  responses : List Reply
  booting : Bool
  alive : Bool
deriving DecidableEq, Repr

/-- The dispatch, the tasks using it and the workers behind it.  The back of
the deque is the end of `queue`. -/
structure State where
  permits : Nat
  queue : List Nat
  fds : List WorkerId
  /-- An `AtomicU64` for each slot.  It grows by one for each request that was answered, so it
  does not wrap before there were 2^64 of them since the last tick reset it. -/
  served : Nat → Nat
  unhealthy : Nat → Bool
  tasks : List Task
  reaper : Reaper
  pool : List Occupant
  nextSerial : Nat
  channels : Nat → Channel
  /-- Workers that occupied a slot when it was marked unhealthy. -/
  marked : List WorkerId
  /-- Workers whose pipes a poisoned guard drop left mid-response. -/
  abandoned : List WorkerId
  /-- One entry per `record_served`: the worker that completed the request. -/
  completions : List WorkerId

/-- Move task `t` to `τ`. -/
def State.goto (s : State) (t : Nat) (τ : Task) : State := { s with tasks := s.tasks.set t τ }

theorem State.forall_goto {P : Task → Prop} {s : State} {t : Nat} {τ' : Task}
    (h : ∀ τ ∈ s.tasks, P τ) (hτ : P τ') : ∀ τ ∈ (s.goto t τ').tasks, P τ := by
  intro τ hmem
  obtain hmem | rfl := List.mem_or_eq_of_mem_set hmem
  · exact h τ hmem
  · exact hτ

/-- Replace the channel of slot `i`. -/
def State.setChannel (s : State) (i : Nat) (ch : Channel) : State :=
  { s with channels := Function.update s.channels i ch }

/-- The worker that occupies slot `i` of the pool. -/
def State.occupant? (s : State) (i : Nat) : Option WorkerId := s.pool[i]?.map Occupant.id

/-- `ThreadDispatch::mark_unhealthy`. -/
def State.markUnhealthy (cfg : Config) (s : State) (idx : Nat) : State :=
  if idx < cfg.cap then
    { s with
      unhealthy := Function.update s.unhealthy idx true
      marked := (s.occupant? idx).toList ++ s.marked }
  else s

section MarkUnhealthy

variable (cfg : Config) (s : State) (idx : Nat)

@[simp] theorem State.markUnhealthy_permits : (s.markUnhealthy cfg idx).permits = s.permits := by
  unfold State.markUnhealthy; split <;> rfl

@[simp] theorem State.markUnhealthy_queue : (s.markUnhealthy cfg idx).queue = s.queue := by
  unfold State.markUnhealthy; split <;> rfl

@[simp] theorem State.markUnhealthy_fds : (s.markUnhealthy cfg idx).fds = s.fds := by
  unfold State.markUnhealthy; split <;> rfl

@[simp] theorem State.markUnhealthy_served : (s.markUnhealthy cfg idx).served = s.served := by
  unfold State.markUnhealthy; split <;> rfl

@[simp] theorem State.markUnhealthy_tasks : (s.markUnhealthy cfg idx).tasks = s.tasks := by
  unfold State.markUnhealthy; split <;> rfl

theorem State.getElem?_markUnhealthy_tasks {cfg : Config} {s : State} {idx t : Nat} {τ : Task}
    (ht : s.tasks[t]? = some τ) : (s.markUnhealthy cfg idx).tasks[t]? = some τ := by
  rw [State.markUnhealthy_tasks, ht]

@[simp] theorem State.markUnhealthy_reaper : (s.markUnhealthy cfg idx).reaper = s.reaper := by
  unfold State.markUnhealthy; split <;> rfl

@[simp] theorem State.markUnhealthy_pool : (s.markUnhealthy cfg idx).pool = s.pool := by
  unfold State.markUnhealthy; split <;> rfl

@[simp] theorem State.markUnhealthy_nextSerial :
    (s.markUnhealthy cfg idx).nextSerial = s.nextSerial := by
  unfold State.markUnhealthy; split <;> rfl

@[simp] theorem State.markUnhealthy_channels : (s.markUnhealthy cfg idx).channels = s.channels := by
  unfold State.markUnhealthy; split <;> rfl

@[simp] theorem State.markUnhealthy_abandoned :
    (s.markUnhealthy cfg idx).abandoned = s.abandoned := by
  unfold State.markUnhealthy; split <;> rfl

@[simp] theorem State.markUnhealthy_completions :
    (s.markUnhealthy cfg idx).completions = s.completions := by
  unfold State.markUnhealthy; split <;> rfl

/-- Marking sets one flag and clears none. -/
theorem State.markUnhealthy_unhealthy {i : Nat} :
    (s.markUnhealthy cfg idx).unhealthy i = true ↔
      i = idx ∧ idx < cfg.cap ∨ s.unhealthy i = true := by
  unfold State.markUnhealthy
  by_cases hc : idx < cfg.cap
  · by_cases hi : i = idx <;> simp [hc, hi]
  · simp [hc]

/-- Marking records the slot's occupant. -/
theorem State.mem_markUnhealthy_marked {w : WorkerId} :
    w ∈ (s.markUnhealthy cfg idx).marked ↔
      idx < cfg.cap ∧ s.occupant? idx = some w ∨ w ∈ s.marked := by
  unfold State.markUnhealthy
  by_cases hc : idx < cfg.cap <;> simp [hc]

end MarkUnhealthy

/-- The served counter of slot `idx` has reached its quota. -/
def State.overQuota (cfg : Config) (s : State) (idx : Nat) : Bool :=
  0 < cfg.quotaFor idx && cfg.quotaFor idx ≤ s.served idx

/-- `ThreadDispatch::is_pickable`, both loads taken at one moment. -/
def State.isPickable (cfg : Config) (s : State) (idx : Nat) : Bool :=
  decide (idx < cfg.cap) && !s.unhealthy idx && !s.overQuota cfg idx

/-- `ThreadDispatch::over_quota_indices`, all loads taken at one moment. -/
def State.overQuotaIndices (cfg : Config) (s : State) : List Nat :=
  if cfg.maxRequests = 0 then []
  else (List.range cfg.cap).filter fun idx => !s.unhealthy idx && s.overQuota cfg idx

end Turbine.Dispatch
