import Turbine.Pool.Reap

/-!
# Turbine.Pool.Idle

The idle queue of a `WorkerPool`, for pools that are used under their mutex:
`get_idle_worker` pops from the back, `return_worker` pushes to the back, and
`reap_and_respawn_threaded` puts a new thread into the slot of a dead one and
pushes the slot again.

* `State.Fits`: every slot is in the queue or in use, once at most, with one
  lemma for each of the pool's operations.
-/

namespace Turbine.Pool

open Dispatch (staggeredMaxRequests)

/-! ## one worker -/

/-- `Worker::new_thread`. -/
def Worker.newThread (threadId maxRequests cmdFd respFd : Nat) : Worker :=
  ⟨.thread threadId, .idle, 0, maxRequests, cmdFd, respFd⟩

/-- `Worker::mark_busy`. -/
def Worker.markBusy (w : Worker) : Worker := { w with state := .busy }

/-- `Worker::mark_idle`: the worker, and whether it should be recycled. -/
def Worker.markIdle (w : Worker) : Worker × Bool :=
  ({ w with requestsHandled := w.requestsHandled + 1, state := .idle },
    decide (0 < w.maxRequests ∧ w.maxRequests ≤ w.requestsHandled + 1))

/-- What `Worker::terminate` does to the worker's record. -/
def Worker.terminate (w : Worker) : Worker := { w with state := .stopping }

/-! ## the queue -/

/-- The loop of `get_idle_worker`, over the queue from the back: the first slot
whose worker is marked idle, and what is left. -/
def popIdle (workers : List Worker) : List Nat → Option (Nat × List Nat)
  | [] => none
  | idx :: rest =>
    if (workers[idx]?).any (fun w => w.state = .idle) then some (idx, rest)
    else popIdle workers rest

/-- `get_idle_worker`. -/
def getIdleWorker (s : State) : Option Nat × State :=
  match popIdle s.workers s.idleQueue.reverse with
  | some (idx, rest) => (some idx, { s with idleQueue := rest.reverse })
  | none => (none, { s with idleQueue := [] })

/-- `return_worker`. -/
def returnWorker (s : State) (index : Nat) : State :=
  match s.workers[index]? with
  | none => s
  | some w =>
    if w.markIdle.2 = true then
      { s with workers := s.workers.set index w.markIdle.1.terminate }
    else
      { s with
        workers := s.workers.set index w.markIdle.1
        idleQueue := s.idleQueue ++ [index] }

/-- `replace_worker`. -/
def replaceWorker (s : State) (index : Nat) (w : Worker) : State :=
  if index < s.workers.length then
    { s with workers := s.workers.set index w, idleQueue := s.idleQueue ++ [index] }
  else s

/-! ## worker threads -/

/-- What a successful thread start hands to the pool: the number drawn from
`THREAD_ID_COUNTER` and the master's ends of the two pipes. -/
structure Spawned where
  threadId : Nat
  cmdFd : Nat
  respFd : Nat
deriving DecidableEq, Repr

/-- The worker made for a new thread in slot `index`. -/
def Spawned.worker (cfg : PoolConfig) (index : Nat) (th : Spawned) : Worker :=
  .newThread th.threadId (staggeredMaxRequests cfg.scaled cfg.maxRequests index cfg.workers)
    th.cmdFd th.respFd

/-- The liveness flag of a thread is set before the thread starts. -/
def Os.start (os : Os) (threadId : Nat) : Os :=
  { os with threadAlive := Function.update os.threadAlive threadId true }

/-- `spawn_one_thread`. -/
def spawnOneThread (cfg : PoolConfig) (s : State) (index : Nat) (th : Spawned) : State :=
  { s with
    os := s.os.start th.threadId
    workers := s.workers ++ [th.worker cfg index]
    idleQueue := s.idleQueue ++ [s.workers.length] }

/-- `spawn_one_thread` for each index in turn; the source returns at the first
thread that does not start. -/
def spawnEachThread (cfg : PoolConfig) (s : State) : List Nat → List Spawned → State
  | index :: rest, th :: ths => spawnEachThread cfg (spawnOneThread cfg s index th) rest ths
  | _, _ => s

/-- `spawn_workers_threaded`. -/
def spawnWorkersThreaded (cfg : PoolConfig) (ths : List Spawned) : State :=
  spawnEachThread cfg ⟨⟨fun _ => none, fun _ => false⟩, [], [], false⟩
    (List.range cfg.workers) ths

/-- Second loop of `reap_and_respawn_threaded`; it returns at the first thread
that does not start. -/
def respawnThreaded (cfg : PoolConfig) (s : State) : List Nat → List Spawned → State
  | index :: rest, th :: ths =>
    respawnThreaded cfg
      (replaceWorker { s with os := s.os.start th.threadId } index (th.worker cfg index)) rest ths
  | _, _ => s

/-- `reap_and_respawn_threaded`. -/
def reapAndRespawnThreaded (cfg : PoolConfig) (s : State) (ths : List Spawned) : State :=
  let (toRespawn, workers, os) := collectDead s.os 0 s.workers
  respawnThreaded cfg { s with os := os, workers := workers } toRespawn ths

variable {cfg : PoolConfig} {s s' : State} {os : Os} {ws : List Worker} {i j : Nat} {w : Worker}

/-! ## what the operations do -/

/-- The slots passed over are dropped. -/
theorem popIdle_eq_some {q rest : List Nat} (h : popIdle ws q = some (i, rest)) :
    (∃ passed, q = passed ++ i :: rest) ∧ ∃ w, ws[i]? = some w ∧ w.state = .idle := by
  induction q with
  | nil => simp [popIdle] at h
  | cons j q ih =>
    unfold popIdle at h
    split at h
    case isTrue hidle =>
      obtain ⟨rfl, rfl⟩ := Prod.mk.inj (Option.some.inj h)
      exact ⟨⟨[], rfl⟩, by simpa [Option.any_eq_true] using hidle⟩
    case isFalse =>
      obtain ⟨⟨passed, rfl⟩, hw⟩ := ih h
      exact ⟨⟨j :: passed, rfl⟩, hw⟩

/-- A slot handed out leaves the queue, together with the slots behind it, and its
worker is marked idle. -/
theorem getIdleWorker_eq_some (h : getIdleWorker s = (some i, s')) :
    ∃ rest passed, s.idleQueue = rest ++ i :: passed ∧ s' = { s with idleQueue := rest } ∧
      ∃ w, s.workers[i]? = some w ∧ w.state = .idle := by
  unfold getIdleWorker at h
  split at h
  case h_1 idx rest hpop =>
    obtain ⟨hi, rfl⟩ := Prod.mk.inj h
    obtain rfl := Option.some.inj hi
    obtain ⟨⟨passed, hq⟩, hw⟩ := popIdle_eq_some hpop
    have hqueue : s.idleQueue = rest.reverse ++ idx :: passed.reverse := by
      rw [← List.reverse_reverse s.idleQueue, hq]
      simp
    exact ⟨rest.reverse, passed.reverse, hqueue, rfl, hw⟩
  case h_2 => simp at h

theorem getIdleWorker_eq_none (h : getIdleWorker s = (none, s')) :
    s' = { s with idleQueue := [] } := by
  unfold getIdleWorker at h
  split at h
  case h_1 => simp at h
  case h_2 => exact (Prod.mk.inj h).2.symm

theorem length_returnWorker : (returnWorker s i).workers.length = s.workers.length := by
  unfold returnWorker
  split
  · rfl
  · split <;> simp

theorem length_replaceWorker : (replaceWorker s i w).workers.length = s.workers.length := by
  unfold replaceWorker
  split <;> simp

/-- The slots found dead lie in the scanned part and differ. -/
theorem collectDead_fst (os : Os) (idx : Nat) (ws : List Worker) :
    (∀ i ∈ (collectDead os idx ws).1, idx ≤ i ∧ i < idx + ws.length) ∧
      (collectDead os idx ws).1.Nodup := by
  induction ws generalizing os idx with
  | nil => simp [collectDead]
  | cons w ws ih =>
    obtain ⟨hrange, hnodup⟩ := ih (w.isAlive os).2.2 (idx + 1)
    have hwide : ∀ i ∈ (collectDead (w.isAlive os).2.2 (idx + 1) ws).1,
        idx ≤ i ∧ i < idx + (w :: ws).length := by
      intro i hi
      obtain ⟨hle, hlt⟩ := hrange i hi
      rw [List.length_cons]
      omega
    simp only [collectDead]
    split
    case isTrue => exact ⟨hwide, hnodup⟩
    case isFalse =>
      refine ⟨?_, List.nodup_cons.2 ⟨fun hidx => ?_, hnodup⟩⟩
      · rw [List.forall_mem_cons]
        exact ⟨⟨Nat.le_refl _, by simp⟩, hwide⟩
      · have := (hrange idx hidx).1
        omega

/-! ## every slot once -/

/-- Every slot of the pool is in the queue or in one of `uses idx` uses outside it,
once at most, and no number beyond the pool is in either. -/
def State.Fits (s : State) (uses : Nat → Nat) : Prop :=
  ∀ idx, s.idleQueue.count idx + uses idx ≤ if idx < s.workers.length then 1 else 0

variable {uses uses' : Nat → Nat}

/-- What holds no slot more often than before still fits. -/
theorem State.Fits.le (h : s.Fits uses) (hlen : s'.workers.length = s.workers.length)
    (hle : ∀ idx, s'.idleQueue.count idx + uses' idx ≤ s.idleQueue.count idx + uses idx) :
    s'.Fits uses' := by
  intro idx
  rw [hlen]
  exact Nat.le_trans (hle idx) (h idx)

theorem State.Fits.congr (h : s.Fits uses) (hq : s'.idleQueue = s.idleQueue)
    (hlen : s'.workers.length = s.workers.length) : s'.Fits uses :=
  h.le hlen fun idx => Nat.le_of_eq (by rw [hq])

theorem State.Fits.take (h : s.Fits uses) (hget : getIdleWorker s = (some i, s')) :
    s'.Fits (fun idx => uses idx + if i = idx then 1 else 0) := by
  obtain ⟨rest, passed, hq, rfl, -⟩ := getIdleWorker_eq_some hget
  refine h.le rfl fun idx => ?_
  rw [hq, List.count_append, List.count_cons]
  simp only [beq_iff_eq]
  omega

theorem State.Fits.drain (h : s.Fits uses) : State.Fits { s with idleQueue := [] } uses :=
  h.le rfl fun idx => by simp

/-- Returning a slot moves it from the uses to the queue, or out of both. -/
theorem State.Fits.returnWorker (h : s.Fits (fun idx => uses idx + if i = idx then 1 else 0)) :
    (returnWorker s i).Fits uses := by
  refine h.le length_returnWorker fun idx => ?_
  unfold Pool.returnWorker
  split
  · omega
  · split
    · dsimp only
      omega
    · simp only [List.count_append, List.count_singleton, beq_iff_eq]
      omega

theorem State.Fits.append (h : s.Fits uses) (hq : s'.idleQueue = s.idleQueue ++ [s.workers.length])
    (hlen : s'.workers.length = s.workers.length + 1) : s'.Fits uses := by
  intro idx
  have hidx := h idx
  rw [hq, hlen, List.count_append, List.count_singleton]
  simp only [beq_iff_eq]
  split at hidx <;> split <;> split <;> omega

theorem State.Fits.spawnEach {idxs : List Nat} {forks : List Forked} (h : s.Fits uses) :
    (spawnEach cfg s idxs forks).Fits uses := by
  induction idxs generalizing s forks with
  | nil => exact h
  | cons idx idxs ih =>
    cases forks with
    | nil => exact h
    | cons f forks => exact ih (h.append rfl (by simp [spawnOne]))

theorem State.Fits.spawnEachThread {idxs : List Nat} {ths : List Spawned} (h : s.Fits uses) :
    (spawnEachThread cfg s idxs ths).Fits uses := by
  induction idxs generalizing s ths with
  | nil => exact h
  | cons idx idxs ih =>
    cases ths with
    | nil => exact h
    | cons th ths => exact ih (h.append rfl (by simp [spawnOneThread]))

theorem State.Fits.reapAndRespawn {forks : List Forked} (h : s.Fits uses) :
    (reapAndRespawn cfg s forks).Fits uses := by
  simp only [Pool.reapAndRespawn]
  exact State.Fits.spawnEach (h.congr rfl (length_collectDead s.os 0 s.workers))

theorem State.Fits.replaceWorker (h : s.Fits uses) (hfree : s.idleQueue.count i + uses i = 0) :
    (replaceWorker s i w).Fits uses := by
  intro idx
  have hidx := h idx
  rw [length_replaceWorker]
  unfold Pool.replaceWorker
  split
  case isTrue hi =>
    rw [List.count_append, List.count_singleton]
    by_cases hix : i = idx
    · subst hix
      simp only [beq_self_eq_true, if_true, if_pos hi]
      omega
    · simp only [beq_iff_eq, hix, if_false]
      omega
  case isFalse => exact hidx

theorem State.Fits.respawnThreaded {idxs : List Nat} {ths : List Spawned} (h : s.Fits uses)
    (hnodup : idxs.Nodup) (hfree : ∀ idx ∈ idxs, s.idleQueue.count idx + uses idx = 0) :
    (respawnThreaded cfg s idxs ths).Fits uses := by
  induction idxs generalizing s ths with
  | nil => exact h
  | cons idx idxs ih =>
    obtain ⟨hidx, hnodup⟩ := List.nodup_cons.1 hnodup
    obtain ⟨hfirst, hfree⟩ := List.forall_mem_cons.1 hfree
    cases ths with
    | nil => exact h
    | cons th ths =>
      refine ih (State.Fits.replaceWorker (h.congr rfl rfl) hfirst) hnodup fun j hj => ?_
      -- the slot just pushed is none of those still to come
      have hne : idx ≠ j := fun heq => hidx (heq ▸ hj)
      have hrest := hfree j hj
      unfold Pool.replaceWorker
      split
      · simpa [List.count_append, List.count_singleton, hne] using hrest
      · exact hrest

/-- `reap_and_respawn_threaded` keeps every slot once if the slots of dead workers
are neither queued nor in use. -/
theorem State.Fits.reapAndRespawnThreaded {ths : List Spawned} (h : s.Fits uses)
    (hfree : ∀ idx ∈ (collectDead s.os 0 s.workers).1, s.idleQueue.count idx + uses idx = 0) :
    (reapAndRespawnThreaded cfg s ths).Fits uses := by
  simp only [Pool.reapAndRespawnThreaded]
  exact State.Fits.respawnThreaded (h.congr rfl (length_collectDead s.os 0 s.workers))
    (collectDead_fst s.os 0 s.workers).2 hfree

end Turbine.Pool
