import Turbine.Dispatch.Model

/-!
# Turbine.Pool.Model

The process pool at the level of the operating system: what `waitpid` reports
about a child, what `Worker::is_alive` makes of it, and how
`reap_and_respawn` scans the workers and forks replacements through
`spawn_one`, the helper it shares with start-up.
-/

namespace Turbine.Pool

open Dispatch (staggeredMaxRequests)

/-! ## the operating system -/

/-- A child process that nobody has waited for yet. -/
inductive Child
  | running
  | exited (code : Int)
  | signaled
deriving DecidableEq, Repr

/-- What the pool's calls see of the operating system: the master's children by
pid, and the flags that worker threads clear when they exit.  A pid without an
entry is no child, or one that was waited for already. -/
structure Os where
  children : Nat → Option Child
  threadAlive : Nat → Bool

inductive WaitStatus
  | stillAlive
  | exited (code : Int)
  | signaled
deriving DecidableEq, Repr

/-- `waitpid(pid, WNOHANG)`.  A child that has ended is reported once and is
gone then; asking for a pid that is no child is an error. -/
def waitpid (os : Os) (pid : Nat) : Option WaitStatus × Os :=
  match os.children pid with
  | some .running => (some .stillAlive, os)
  | some (.exited code) =>
    (some (.exited code), { os with children := Function.update os.children pid none })
  | some .signaled =>
    (some .signaled, { os with children := Function.update os.children pid none })
  | none => (none, os)

/-! ## workers -/

inductive WorkerState
  | idle
  | busy
  | stopping
  | exited (code : Int)
deriving DecidableEq, Repr

inductive WorkerKind
  | process (pid : Nat)
  | thread (threadId : Nat)
deriving DecidableEq, Repr

structure Worker where
  kind : WorkerKind
  state : WorkerState
  requestsHandled : Nat
  maxRequests : Nat
  cmdFd : Nat
  respFd : Nat
deriving DecidableEq, Repr

/-- `Worker::new`. -/
def Worker.new (pid maxRequests cmdFd respFd : Nat) : Worker :=
  ⟨.process pid, .idle, 0, maxRequests, cmdFd, respFd⟩

/-- `Worker::is_alive`: the verdict, the worker with its state updated, and the
children left after `waitpid`. -/
def Worker.isAlive (os : Os) (w : Worker) : Bool × Worker × Os :=
  match w.kind with
  | .process pid =>
    match waitpid os pid with
    | (some .stillAlive, os') => (true, w, os')
    | (some (.exited code), os') => (false, { w with state := .exited code }, os')
    | (some .signaled, os') => (false, { w with state := .exited (-1) }, os')
    | (none, os') => (false, { w with state := .exited (-1) }, os')
  | .thread threadId =>
    if os.threadAlive threadId = true then (true, w, os)
    else (false, { w with state := .exited 0 }, os)

/-- The process or thread runs. -/
def WorkerKind.running (os : Os) : WorkerKind → Bool
  | .process pid => os.children pid = some .running
  | .thread threadId => os.threadAlive threadId

/-- The process or thread behind the worker runs. -/
def Worker.running (os : Os) (w : Worker) : Bool := w.kind.running os

variable {os : Os} {w : Worker}

/-- Asking about a running worker changes nothing. -/
theorem isAlive_of_running (h : w.running os = true) : w.isAlive os = (true, w, os) := by
  unfold Worker.running at h
  unfold Worker.isAlive
  cases hk : w.kind with
  | process pid =>
    have hc : os.children pid = some .running := by simpa [hk, WorkerKind.running] using h
    simp only [waitpid, hc]
  | thread id =>
    have ha : os.threadAlive id = true := by simpa [hk, WorkerKind.running] using h
    simp only [ha, if_true]

theorem isAlive_of_not_running (h : w.running os = false) : (w.isAlive os).1 = false := by
  unfold Worker.running at h
  unfold Worker.isAlive
  cases hk : w.kind with
  | process pid =>
    have hc : os.children pid ≠ some .running := by simpa [hk, WorkerKind.running] using h
    simp only [waitpid]
    cases hchild : os.children pid with
    | none => rfl
    | some c => cases c <;> simp_all
  | thread id =>
    have ha : os.threadAlive id = false := by simpa [hk, WorkerKind.running] using h
    simp only [ha, Bool.false_eq_true, if_false]

theorem isAlive_kind : (w.isAlive os).2.1.kind = w.kind := by
  unfold Worker.isAlive
  cases hk : w.kind with
  | process pid => dsimp only; split <;> first | exact hk | rfl
  | thread id => dsimp only; split <;> first | exact hk | rfl

theorem running_waitpid (pid : Nat) (k : WorkerKind) :
    k.running (waitpid os pid).2 = k.running os := by
  cases k with
  | thread id =>
    unfold waitpid
    split <;> rfl
  | process pid' =>
    by_cases hp : pid' = pid
    · subst hp
      unfold waitpid
      split <;> simp_all [WorkerKind.running]
    · unfold waitpid
      split <;> simp [WorkerKind.running, hp]

theorem running_isAlive (k : WorkerKind) : k.running (w.isAlive os).2.2 = k.running os := by
  unfold Worker.isAlive
  cases w.kind with
  | thread id => dsimp only; split <;> rfl
  | process pid =>
    have hw : k.running (waitpid os pid).2 = k.running os := running_waitpid pid k
    dsimp only
    split <;> (rename_i heq; rw [heq] at hw; exact hw)

/-! ## the pool -/

/-- The part of `PoolConfig` that `spawn_one` reads, with the product of
`staggered_max_requests`. -/
structure PoolConfig where
  workers : Nat
  maxRequests : Nat
  scaled : Nat → Nat → Nat → Int

/-- What the operating system hands to `spawn_one`: the child's pid and the
master's ends of the two pipes. -/
structure Forked where
  pid : Nat
  cmdFd : Nat
  respFd : Nat
deriving DecidableEq, Repr

/-- The pool and the processes behind it.  `died` records whether a worker died
since the last reap. -/
structure State where
  os : Os
  workers : List Worker
  idleQueue : List Nat
  died : Bool

/-- `spawn_one` in the parent: the new worker goes to the end of the pool,
whatever `index` is; `index` only selects its staggered quota. -/
def spawnOne (cfg : PoolConfig) (s : State) (index : Nat) (f : Forked) : State :=
  { s with
    os := { s.os with children := Function.update s.os.children f.pid (some .running) }
    workers := s.workers ++
      [.new f.pid (staggeredMaxRequests cfg.scaled cfg.maxRequests index cfg.workers)
        f.cmdFd f.respFd]
    idleQueue := s.idleQueue ++ [s.workers.length] }

/-- `spawn_one` for each index in turn; the source returns at the first fork
that fails. -/
def spawnEach (cfg : PoolConfig) (s : State) : List Nat → List Forked → State
  | index :: rest, f :: forks => spawnEach cfg (spawnOne cfg s index f) rest forks
  | _, _ => s

/-- `spawn_workers`. -/
def spawnWorkers (cfg : PoolConfig) (forks : List Forked) : State :=
  spawnEach cfg ⟨⟨fun _ => none, fun _ => false⟩, [], [], false⟩ (List.range cfg.workers) forks

/-- First loop of `reap_and_respawn`: the indices to respawn, the workers with
their states updated, and the children left. -/
def collectDead (os : Os) (idx : Nat) : List Worker → List Nat × List Worker × Os
  | [] => ([], [], os)
  | w :: ws =>
    let (alive, w', os') := w.isAlive os
    let (dead, ws', os'') := collectDead os' (idx + 1) ws
    (if alive then dead else idx :: dead, w' :: ws', os'')

/-- `reap_and_respawn` in the parent. -/
def reapAndRespawn (cfg : PoolConfig) (s : State) (forks : List Forked) : State :=
  let (toRespawn, workers, os) := collectDead s.os 0 s.workers
  spawnEach cfg { s with os := os, workers := workers } toRespawn forks

/-- One step: a child ends, or the master reaps. -/
inductive Event
  | exit (pid : Nat) (code : Int)
  | kill (pid : Nat)
  | reap (forks : List Forked)

/-- A running child ends. -/
def State.childEnds (s : State) (pid : Nat) (c : Child) : Option State :=
  if s.os.children pid = some .running then
    some { s with
      os := { s.os with children := Function.update s.os.children pid (some c) }
      died := true }
  else none

/-- The state after `e`.  A reap is enabled if every fork it needs succeeds, with
a pid that no child has. -/
def step (cfg : PoolConfig) (s : State) : Event → Option State
  | .exit pid code => s.childEnds pid (.exited code)
  | .kill pid => s.childEnds pid .signaled
  | .reap forks =>
    if forks.length = (collectDead s.os 0 s.workers).1.length ∧
        (forks.map Forked.pid).Nodup ∧
        ∀ f ∈ forks, (collectDead s.os 0 s.workers).2.2.children f.pid = none then
      some { reapAndRespawn cfg s forks with died := false }
    else none

end Turbine.Pool
