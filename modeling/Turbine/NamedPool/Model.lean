import Turbine.Base.Counting
import Turbine.Base.Runs
import Turbine.Pool.Idle

/-!
# Turbine.NamedPool.Model

Requests on a pool that is used under its mutex, as the named pools are.  A
request waits for a permit of the pool's semaphore, takes the lock, claims a
worker, sends and lets the lock go; a reader task reads the answer without the
lock and gives the worker back by its index.  When no worker is marked idle the
request reaps dead workers first, in the same locked section.

Every locked section is one atomic step.  `failed` in the state records which
workers a request failed on because they were gone, and a reading request
records which worker its index meant; the source has neither.
-/

namespace Turbine.NamedPool

open Base
open Pool (Os Child Worker WorkerKind PoolConfig Forked Spawned collectDead getIdleWorker
  returnWorker)

/-! ## requests and their environment -/

inductive WorkerMode
  | process
  | thread
deriving DecidableEq, Repr

structure Config where
  pool : PoolConfig
  mode : WorkerMode

inductive Answer
  /-- The response the worker wrote. -/
  | response
  /-- 502: sending or reading failed. -/
  | badGateway
  /-- 503: no worker is idle, even after reaping. -/
  | unavailable
  /-- 504: no permit in time. -/
  | timeout
deriving DecidableEq, Repr

/-- A request on the pool path. -/
inductive Task
  /-- Waits for a permit. -/
  | waiting
  /-- Has a permit and wants the lock. -/
  | admitted
  /-- The request was sent to the worker in slot `idx`; the reader task waits on
  `respFd`.  Only the index is given back. -/
  | reading (idx : Nat) (kind : WorkerKind) (respFd : Nat)
  | answered (a : Answer)
deriving DecidableEq, Repr

/-- The request will give slot `idx` back. -/
def Task.reads (idx : Nat) : Task → Bool
  | .reading i _ _ => i == idx
  | _ => false

/-- The processes and threads a reap finds the system ready to start. -/
structure Supply where
  forks : List Forked
  threads : List Spawned

/-- `THREAD_ID_COUNTER` after the threads of the supply. -/
def Supply.nextThread (supply : Supply) (n : Nat) : Nat :=
  supply.threads.foldl (fun m th => max m (th.threadId + 1)) n

/-- How the reader task ends: with a response, because the worker is gone, or with
another error. -/
inductive Reading
  | response
  | workerGone
  | otherError
deriving DecidableEq, Repr

structure State where
  pool : Pool.State
  /-- The threads that have closed their ends of the pipes. -/
  closed : Nat → Bool
  nextThread : Nat
  permits : Nat
  tasks : List Task
  failed : List (Nat × WorkerKind)

/-- Nobody reads the worker's commands or writes its responses any more.  A process
loses its pipes when it ends; a thread closes them on its own. -/
def gone (os : Os) (closed : Nat → Bool) : WorkerKind → Bool
  | .process pid => !(WorkerKind.process pid).running os
  | .thread id => closed id

/-! ## the locked sections -/

/-- The reap of the pool's mode. -/
def reap (cfg : Config) (p : Pool.State) (supply : Supply) : Pool.State :=
  match cfg.mode with
  | .process => Pool.reapAndRespawn cfg.pool p supply.forks
  | .thread => Pool.reapAndRespawnThreaded cfg.pool p supply.threads

/-- The choice of a worker: `get_idle_worker`, and once more after a reap. -/
def claim (cfg : Config) (p : Pool.State) (supply : Supply) : Option Nat × Pool.State :=
  match getIdleWorker p with
  | (some idx, p') => (some idx, p')
  | (none, p') => getIdleWorker (reap cfg p' supply)

def markBusy (p : Pool.State) (idx : Nat) (w : Worker) : Pool.State :=
  { p with workers := p.workers.set idx w.markBusy }

/-- The request ends; its permit is dropped. -/
def State.answer (s : State) (t : Nat) (p : Pool.State) (a : Answer) : State :=
  { s with pool := p, permits := s.permits + 1, tasks := s.tasks.set t (.answered a) }

/-- The worker in slot `idx` was gone when it was needed. -/
def State.noteFailure (s : State) (idx : Nat) (kind : WorkerKind) : State :=
  { s with failed := (idx, kind) :: s.failed }

/-- The request is with the worker. -/
def State.send (s : State) (t : Nat) (p : Pool.State) (idx : Nat) (w : Worker) : State :=
  { s with
    pool := markBusy p idx w
    tasks := s.tasks.set t (.reading idx w.kind w.respFd) }

def State.draw (s : State) (supply : Supply) : State :=
  { s with nextThread := supply.nextThread s.nextThread }

/-- Claiming and sending, under one lock. -/
def State.dispatch (cfg : Config) (s : State) (t : Nat) (supply : Supply) : State :=
  match claim cfg s.pool supply with
  | (none, p) => (s.draw supply).answer t p .unavailable
  | (some idx, p) =>
    match p.workers[idx]? with
    | none => (s.draw supply).answer t p .badGateway
    | some w =>
      if gone p.os s.closed w.kind = true then
        ((s.draw supply).answer t (returnWorker (markBusy p idx w) idx) .badGateway).noteFailure
          idx w.kind
      else (s.draw supply).send t p idx w

/-- Fork gives no pid that a child still has, and thread numbers are new. -/
def State.Supplies (s : State) (supply : Supply) : Prop :=
  ((supply.forks.map Forked.pid).Nodup ∧
    ∀ f ∈ supply.forks, (collectDead s.pool.os 0 s.pool.workers).2.2.children f.pid = none) ∧
  (supply.threads.map Spawned.threadId).Nodup ∧
    ∀ th ∈ supply.threads, s.nextThread ≤ th.threadId

instance {s : State} {supply : Supply} : Decidable (s.Supplies supply) :=
  inferInstanceAs (Decidable (_ ∧ _))

/-! ## steps -/

inductive Event
  | arrive
  | acquire (t : Nat)
  | expire (t : Nat)
  | dispatch (t : Nat) (supply : Supply)
  | finish (t : Nat) (r : Reading)
  | reap (supply : Supply)
  | childEnds (pid : Nat) (c : Child)
  | threadCloses (id : Nat)
  | threadExits (id : Nat)

/-- The pool after the reader task is done with slot `idx`, and whether the worker
counts as failed. -/
def State.finish (s : State) (t idx : Nat) (kind : WorkerKind) : Reading → State
  | .response => s.answer t (returnWorker s.pool idx) .response
  | .workerGone => (s.answer t (returnWorker s.pool idx) .badGateway).noteFailure idx kind
  | .otherError => s.answer t (returnWorker s.pool idx) .badGateway

def State.setPool (s : State) (p : Pool.State) : State := { s with pool := p }

def State.goto (s : State) (t : Nat) (τ : Task) : State := { s with tasks := s.tasks.set t τ }

/-- The flag of a thread that is about to exit. -/
def clearAlive (p : Pool.State) (id : Nat) : Pool.State :=
  { p with os := { p.os with threadAlive := Function.update p.os.threadAlive id false } }

/-- The state after `e`; `none` if the event is not enabled. -/
def step (cfg : Config) (s : State) : Event → Option State
  | .arrive => some { s with tasks := s.tasks ++ [.waiting] }
  | .acquire t =>
    match s.tasks[t]? with
    | some .waiting =>
      if 0 < s.permits then some { s.goto t .admitted with permits := s.permits - 1 } else none
    | _ => none
  | .expire t =>
    match s.tasks[t]? with
    | some .waiting => some (s.goto t (.answered .timeout))
    | _ => none
  | .dispatch t supply =>
    match s.tasks[t]? with
    | some .admitted => if s.Supplies supply then some (s.dispatch cfg t supply) else none
    | _ => none
  | .finish t r =>
    match s.tasks[t]? with
    | some (.reading idx kind _) =>
      if r = .workerGone → gone s.pool.os s.closed kind = true then
        some (s.finish t idx kind r)
      else none
    | _ => none
  | .reap supply =>
    if s.Supplies supply then some ((s.draw supply).setPool (reap cfg s.pool supply)) else none
  | .childEnds pid c =>
    if c = .running then none else (s.pool.childEnds pid c).map s.setPool
  | .threadCloses id =>
    if id < s.nextThread then some { s with closed := Function.update s.closed id true } else none
  | .threadExits id =>
    if id < s.nextThread then some (s.setPool (clearAlive s.pool id)) else none

/-- The pool after start-up, with one permit per configured worker. -/
def initial (cfg : Config) (supply : Supply) : State where
  pool :=
    match cfg.mode with
    | .process => Pool.spawnWorkers cfg.pool supply.forks
    | .thread => Pool.spawnWorkersThreaded cfg.pool supply.threads
  closed := fun _ => false
  nextThread := supply.nextThread 0
  permits := cfg.pool.workers
  tasks := []
  failed := []

/-! ## what a step does -/

variable {cfg : Config} {s s' : State} {e : Event} {p p' : Pool.State} {supply : Supply}
  {idx t : Nat} {w : Worker}

/-- Every way a step can go, with its conditions. -/
inductive Step (cfg : Config) (s : State) : Event → State → Prop
  | arrive : Step cfg s .arrive { s with tasks := s.tasks ++ [.waiting] }
  | acquire {t : Nat} (ht : s.tasks[t]? = some .waiting) (hpermit : 0 < s.permits) :
      Step cfg s (.acquire t) { s.goto t .admitted with permits := s.permits - 1 }
  | expire {t : Nat} (ht : s.tasks[t]? = some .waiting) :
      Step cfg s (.expire t) (s.goto t (.answered .timeout))
  | refuse {t : Nat} {supply : Supply} {p : Pool.State} (ht : s.tasks[t]? = some .admitted)
      (hsupply : s.Supplies supply) (hclaim : claim cfg s.pool supply = (none, p)) :
      Step cfg s (.dispatch t supply) ((s.draw supply).answer t p .unavailable)
  | sendFails {t idx : Nat} {supply : Supply} {p : Pool.State} {w : Worker}
      (ht : s.tasks[t]? = some .admitted) (hsupply : s.Supplies supply)
      (hclaim : claim cfg s.pool supply = (some idx, p)) (hw : p.workers[idx]? = some w)
      (hidle : w.state = .idle) (hgone : gone p.os s.closed w.kind = true) :
      Step cfg s (.dispatch t supply)
        (((s.draw supply).answer t (returnWorker (markBusy p idx w) idx) .badGateway).noteFailure
          idx w.kind)
  | send {t idx : Nat} {supply : Supply} {p : Pool.State} {w : Worker}
      (ht : s.tasks[t]? = some .admitted) (hsupply : s.Supplies supply)
      (hclaim : claim cfg s.pool supply = (some idx, p)) (hw : p.workers[idx]? = some w)
      (hidle : w.state = .idle) (hgone : gone p.os s.closed w.kind = false) :
      Step cfg s (.dispatch t supply) ((s.draw supply).send t p idx w)
  | finish {t idx fd : Nat} {kind : WorkerKind} {r : Reading}
      (ht : s.tasks[t]? = some (.reading idx kind fd))
      (hgone : r = .workerGone → gone s.pool.os s.closed kind = true) :
      Step cfg s (.finish t r) (s.finish t idx kind r)
  | reap {supply : Supply} (hsupply : s.Supplies supply) :
      Step cfg s (.reap supply) ((s.draw supply).setPool (reap cfg s.pool supply))
  | childEnds {pid : Nat} {c : Child} (hc : c ≠ .running)
      (hrunning : s.pool.os.children pid = some .running) :
      Step cfg s (.childEnds pid c) (s.setPool { s.pool with
        os := { s.pool.os with children := Function.update s.pool.os.children pid (some c) }
        died := true })
  | threadCloses {id : Nat} (hid : id < s.nextThread) :
      Step cfg s (.threadCloses id) { s with closed := Function.update s.closed id true }
  | threadExits {id : Nat} (hid : id < s.nextThread) :
      Step cfg s (.threadExits id) (s.setPool (clearAlive s.pool id))

/-- The pool whose queue a pop has emptied. -/
def drained (p : Pool.State) : Pool.State := { p with idleQueue := [] }

/-- The choice is made by the first pop, or by the second on a pool just reaped. -/
theorem claim_cases {r : Option Nat} (h : claim cfg p supply = (r, p')) :
    (∃ i, r = some i ∧ getIdleWorker p = (some i, p')) ∨
      (getIdleWorker p).1 = none ∧ getIdleWorker (reap cfg (drained p) supply) = (r, p') := by
  unfold claim at h
  split at h
  case h_1 i q hget =>
    obtain ⟨rfl, rfl⟩ := Prod.mk.inj h
    exact .inl ⟨i, rfl, hget⟩
  case h_2 q hget =>
    obtain rfl := Pool.getIdleWorker_eq_none hget
    exact .inr ⟨by rw [hget], h⟩

theorem claim_eq_some (h : claim cfg p supply = (some idx, p')) :
    ∃ w, p'.workers[idx]? = some w ∧ w.state = .idle := by
  have hget : ∃ q, getIdleWorker q = (some idx, p') := by
    obtain ⟨i, hi, hget⟩ | ⟨-, hget⟩ := claim_cases h
    · exact ⟨p, hi ▸ hget⟩
    · exact ⟨_, hget⟩
  obtain ⟨q, hget⟩ := hget
  obtain ⟨rest, passed, -, rfl, hw⟩ := Pool.getIdleWorker_eq_some hget
  exact hw

/-- **Inversion lemma.** -/
theorem Step.of_step (h : step cfg s e = some s') : Step cfg s e s' := by
  cases e with
  | arrive =>
    cases h
    exact .arrive
  | acquire t =>
    simp only [step] at h
    split at h
    case h_1 ht =>
      split at h
      case isTrue hpermit =>
        cases h
        exact .acquire ht hpermit
      case isFalse => cases h
    case h_2 => cases h
  | expire t =>
    simp only [step] at h
    split at h
    case h_1 ht =>
      cases h
      exact .expire ht
    case h_2 => cases h
  | dispatch t supply =>
    simp only [step] at h
    split at h
    case h_2 => cases h
    case h_1 ht =>
      split at h
      case isFalse => cases h
      case isTrue hsupply =>
        obtain rfl := Option.some.inj h
        rcases hclaim : claim cfg s.pool supply with ⟨_ | idx, p⟩
        · simp only [State.dispatch, hclaim]
          exact .refuse ht hsupply hclaim
        · obtain ⟨w, hw, hidle⟩ := claim_eq_some hclaim
          simp only [State.dispatch, hclaim, hw]
          split
          case isTrue hgone => exact .sendFails ht hsupply hclaim hw hidle hgone
          case isFalse hgone =>
            exact .send ht hsupply hclaim hw hidle (by simpa using hgone)
  | finish t r =>
    simp only [step] at h
    split at h
    case h_1 idx kind fd ht =>
      split at h
      case isTrue hgone =>
        cases h
        exact .finish ht hgone
      case isFalse => cases h
    case h_2 => cases h
  | reap supply =>
    simp only [step] at h
    split at h
    case isTrue hsupply =>
      cases h
      exact .reap hsupply
    case isFalse => cases h
  | childEnds pid c =>
    simp only [step, Pool.State.childEnds] at h
    split at h
    case isTrue => cases h
    case isFalse hc =>
      split at h
      case isTrue hrunning =>
        cases h
        exact .childEnds hc hrunning
      case isFalse => cases h
  | threadCloses id =>
    simp only [step] at h
    split at h
    case isTrue hid =>
      cases h
      exact .threadCloses hid
    case isFalse => cases h
  | threadExits id =>
    simp only [step] at h
    split at h
    case isTrue hid =>
      cases h
      exact .threadExits hid
    case isFalse => cases h

end Turbine.NamedPool
