import Turbine.Dispatch.Model

/-!
# Turbine.Dispatch.Step

The atomic steps of the dispatch.  `step` is executable and follows the
source statement by statement; `reaperStep` is the reaper's part of it.  A step
that is not enabled in a state is `none`.
-/

namespace Turbine.Dispatch

open Base

/-! ## the pool behind the dispatch -/

/-- Slots whose worker has exited, in pool order. -/
def deadSlots (pool : List Occupant) : List Nat :=
  (List.range pool.length).filter fun i => pool[i]?.any fun o => !o.alive

/-- Respawn the worker of one slot.  `replace_worker` overwrites the slot;
`spawn_one`, which `reap_and_respawn` uses, appends a new slot. -/
def respawnOne (mode : Mode) (p : List Occupant × Nat) (i : Nat) : List Occupant × Nat :=
  match mode with
  | .nativeProcess => (p.1 ++ [⟨⟨p.1.length, p.2⟩, true⟩], p.2 + 1)
  | _ => (p.1.set i ⟨⟨i, p.2⟩, true⟩, p.2 + 1)

/-- The pool's reap and respawn.  `count` is the number of respawns that
succeed before the first one fails, after which the source returns early. -/
def respawn (mode : Mode) (pool : List Occupant) (nextSerial count : Nat) : List Occupant × Nat :=
  ((deadSlots pool).take count).foldl (respawnOne mode) (pool, nextSerial)

/-- Workers spawned together for the slots `0 … count - 1`. -/
def spawnAll (nextSerial count : Nat) : List Occupant :=
  (List.range count).map fun i => ⟨⟨i, nextSerial + i⟩, true⟩

/-! ## events -/

/-- One atomic step of one party.  `t` numbers request tasks in order of
arrival, `i` numbers slots. -/
inductive Event
  /-- A request calls `get_idle`. -/
  | arrive
  | acquire (t : Nat)
  | timeout (t : Nat)
  /-- The request future is dropped at an await point. -/
  | cancel (t : Nat)
  | pop (t : Nat)
  | restore (t : Nat)
  | loadUnhealthy (t : Nat)
  | loadServed (t : Nat)
  /-- Read the slot's fds and arm the guard (pipe mode). -/
  | arm (t : Nat)
  /-- The response was decoded (pipe mode). -/
  | respond (t : Nat)
  /-- The write, the read or the decoding failed (pipe mode). -/
  | fail (t : Nat)
  | send (t : Nat)
  | lock (t : Nat)
  | recv (t : Nat)
  | markDead (t : Nat)
  | record (t : Nat)
  /-- The guard's drop, up to its write to the flag or the queue. -/
  | drop (t : Nat)
  | addPermit (t : Nat)
  /-- A channel worker sends its ready signal, answers, or exits. -/
  | ready (i : Nat)
  | serve (i : Nat)
  | hangUp (i : Nat)
  /-- A worker of the pool exits. -/
  | exit (i : Nat)
  /-- The auto-scaler adds a worker. -/
  | spawnAdditional
  /-- The file watcher replaces the whole pool. -/
  | reload (count : Nat)
  | tick
  | reap (count : Nat)
  | reaper
deriving DecidableEq, Repr

/-! ## the reaper's steps -/

/-- `refresh_fds`'s loop over the revived slots, under the queue's lock. -/
def requeue (queue revived : List Nat) : List Nat :=
  revived.foldl (fun q idx => if idx ∈ q then q else q ++ [idx]) queue

@[simp] theorem requeue_nil (queue : List Nat) : requeue queue [] = queue := rfl

theorem requeue_cons (queue : List Nat) (i : Nat) (revived : List Nat) :
    requeue queue (i :: revived) =
      requeue (if i ∈ queue then queue else queue ++ [i]) revived := rfl

/-- Every revived slot ends up in the queue, and nothing leaves it. -/
theorem mem_requeue {queue revived : List Nat} {j : Nat} :
    j ∈ requeue queue revived ↔ j ∈ queue ∨ j ∈ revived := by
  induction revived generalizing queue with
  | nil => simp
  | cons i revived ih =>
    rw [requeue_cons, ih]
    by_cases hi : i ∈ queue
    · rw [if_pos hi]
      have : j = i → j ∈ queue := fun h => h ▸ hi
      simp only [List.mem_cons]
      tauto
    · rw [if_neg hi]
      simp only [List.mem_append, List.mem_cons, List.not_mem_nil, or_false]
      tauto

theorem count_requeue_of_mem {queue revived : List Nat} {j : Nat} (hj : j ∈ queue) :
    (requeue queue revived).count j = queue.count j := by
  induction revived generalizing queue with
  | nil => simp
  | cons i revived ih =>
    rw [requeue_cons]
    by_cases hi : i ∈ queue
    · rw [if_pos hi, ih hj]
    · have hne : i ≠ j := fun h => hi (h ▸ hj)
      rw [if_neg hi, ih (by simp [hj]), List.count_append]
      simp [hne]

theorem count_requeue_of_not_mem {queue revived : List Nat} {j : Nat} (hj : j ∉ queue) :
    (requeue queue revived).count j ≤ 1 := by
  induction revived generalizing queue with
  | nil => simp [List.count_eq_zero.2 hj]
  | cons i revived ih =>
    rw [requeue_cons]
    by_cases hi : i ∈ queue
    · rw [if_pos hi]
      exact ih hj
    · rw [if_neg hi]
      by_cases hij : i = j
      · subst hij
        rw [count_requeue_of_mem (by simp), List.count_append, List.count_eq_zero.2 hj]
        simp
      · exact ih (by simp [hj, Ne.symm hij])

/-- Distinct slots that were not queued all get an entry of their own. -/
theorem length_requeue {queue revived : List Nat} (hnd : revived.Nodup)
    (hnew : ∀ i ∈ revived, i ∉ queue) :
    (requeue queue revived).length = queue.length + revived.length := by
  induction revived generalizing queue with
  | nil => simp
  | cons i revived ih =>
    rw [List.nodup_cons] at hnd
    rw [requeue_cons, if_neg (hnew i (by simp)), ih hnd.2]
    · simp only [List.length_append, List.length_cons, List.length_nil]
      omega
    · intro j hj
      have hji : j ≠ i := fun h => hnd.1 (h ▸ hj)
      simp [hnew j (by simp [hj]), hji]

/-- Number of slots of the scale-up branch of `refresh_fds`. -/
def RefreshCall.growable (cfg : Config) (c : RefreshCall) : Nat := min c.newLen cfg.cap - c.prevLen

/-- The reaper's next step, except waiting for the timer and the respawn. -/
def reaperStep (cfg : Config) (s : State) : Option State :=
  match s.reaper with
  | .scanFlag i out =>
    if cfg.cap ≤ i then some { s with reaper := .marking out }
    else if s.unhealthy i = true ∨ cfg.quotaFor i = 0 then
      some { s with reaper := .scanFlag (i + 1) out }
    else some { s with reaper := .scanServed i out }
  | .scanServed i out =>
    if cfg.quotaFor i ≤ s.served i then
      some { s with reaper := .scanFlag (i + 1) (out ++ [i]) }
    else some { s with reaper := .scanFlag (i + 1) out }
  | .marking [] => some { s with reaper := .reaping }
  | .marking (i :: todo) => some { s.markUnhealthy cfg i with reaper := .marking todo }
  | .refreshing newFds =>
    some { s with
      fds := newFds
      reaper := .swapFlag ⟨s.fds.length, newFds.length⟩ 0 [] }
  | .swapFlag c i revived =>
    if i < min c.newLen cfg.cap then
      some { s with
        unhealthy := Function.update s.unhealthy i false
        reaper := .swapServed c i (s.unhealthy i) revived }
    else if revived = [] then some { s with reaper := .growing c }
    else some { s with reaper := .requeueing c revived }
  | .swapServed c i wasUnhealthy revived =>
    let wasOverQuota := 0 < cfg.maxRequests && cfg.quotaFor i ≤ s.served i
    if i < c.prevLen ∧ (wasUnhealthy || wasOverQuota) = true then
      some { s with
        served := Function.update s.served i 0
        reaper := .swapFlag c (i + 1) (revived ++ [i]) }
    else
      some { s with
        served := Function.update s.served i 0
        reaper := .swapFlag c (i + 1) revived }
  | .requeueing c revived =>
    some { s with
      queue := requeue s.queue revived
      reaper := .adding c revived.length }
  | .adding c count => some { s with permits := s.permits + count, reaper := .growing c }
  | .growing c =>
    if c.newLen ≤ c.prevLen then some { s with reaper := .idle }
    -- the subtraction underflows: a debug build panics on it, a release
    -- build in add_permits
    else if min c.newLen cfg.cap < c.prevLen then some { s with reaper := .panicked }
    else if c.growable cfg = 0 then some { s with reaper := .idle }
    else
      some { s with
        queue := s.queue ++ List.range' c.prevLen (c.growable cfg)
        reaper := .growAdding (c.growable cfg) }
  | .growAdding growable => some { s with permits := s.permits + growable, reaper := .idle }
  | .idle | .reaping | .panicked => none

/-! ## the whole system's steps -/

/-- Number of unpickable workers after which `get_idle` gives up. -/
def Config.maxSkips (cfg : Config) : Nat := max cfg.cap 1 * 2

/-- Where `get_idle` goes after skipping a worker: it drops the slot on the
floor and loops, or returns `None`. -/
def skip (cfg : Config) (skipped : Nat) : Task :=
  if cfg.maxSkips ≤ skipped + 1 then .finished (.gaveUp (skipped + 1)) else .waiting (skipped + 1)

/-- The state after `e`, if `e` is enabled in `s`. -/
def step (cfg : Config) (s : State) : Event → Option State
  | .arrive => some { s with tasks := s.tasks ++ [.waiting 0] }
  | .acquire t =>
    match s.tasks[t]? with
    | some (.waiting k) =>
      if 0 < s.permits then
        some ({ s with permits := s.permits - 1 }.goto t (.acquired k))
      else none
    | _ => none
  | .timeout t =>
    match s.tasks[t]? with
    | some (.waiting _) => some (s.goto t (.finished .timedOut))
    | _ => none
  | .cancel t =>
    match s.tasks[t]? with
    | some (.waiting _) => some (s.goto t (.finished .cancelled))
    | some (.guarded g .reading) => some (s.goto t (.guarded g .dropping))
    | some (.guarded g .sent) => some (s.goto t (.guarded g .dropping))
    | some (.guarded g .receiving) => some (s.goto t (.guarded g .dropping))
    | _ => none
  | .pop t =>
    match s.tasks[t]? with
    | some (.acquired k) =>
      match s.queue.getLast? with
      | some idx => some ({ s with queue := s.queue.dropLast }.goto t (.popped k idx))
      | none => some (s.goto t .restoring)
    | _ => none
  | .restore t =>
    match s.tasks[t]? with
    | some .restoring =>
      some ({ s with permits := s.permits + 1 }.goto t (.finished .queueEmpty))
    | _ => none
  | .loadUnhealthy t =>
    match s.tasks[t]? with
    | some (.popped k idx) =>
      if cfg.cap ≤ idx ∨ s.unhealthy idx = true then some (s.goto t (skip cfg k))
      else some (s.goto t (.checked k idx))
    | _ => none
  | .loadServed t =>
    match s.tasks[t]? with
    | some (.checked k idx) =>
      if s.overQuota cfg idx = true then some (s.goto t (skip cfg k))
      else some (s.goto t (.guarded (.new idx) .claimed))
    | _ => none
  | .arm t =>
    if cfg.mode.hasChannels = true then none
    else
      match s.tasks[t]? with
      | some (.guarded g .claimed) =>
        match s.fds[g.idx]? with
        | some w => some (s.goto t (.guarded { g with poisonOnDrop := some w } .reading))
        -- indexing past the table panics and unwinds the guard
        | none => some (s.goto t (.guarded g .dropping))
      | _ => none
  | .respond t =>
    match s.tasks[t]? with
    | some (.guarded g .reading) => some (s.goto t (.guarded g (.replied none)))
    | _ => none
  | .fail t =>
    match s.tasks[t]? with
    | some (.guarded g .reading) => some (s.goto t (.guarded g .dropping))
    | _ => none
  | .send t =>
    if cfg.mode.hasChannels = true then
      match s.tasks[t]? with
      | some (.guarded g .claimed) =>
        let ch := s.channels g.idx
        if ch.alive = true then
          some ((s.setChannel g.idx { ch with requests := ch.requests ++ [t] }).goto t
            (.guarded g .sent))
        else some (s.goto t (.guarded g .failing))
      | _ => none
    else none
  | .lock t =>
    match s.tasks[t]? with
    | some (.guarded g .sent) =>
      if ∀ τ ∈ s.tasks, τ.locked? ≠ some g.idx then
        some (s.goto t (.guarded g .receiving))
      else none
    | _ => none
  | .recv t =>
    match s.tasks[t]? with
    | some (.guarded g .receiving) =>
      let ch := s.channels g.idx
      match ch.responses with
      | r :: rest =>
        some ((s.setChannel g.idx { ch with responses := rest }).goto t
          (.guarded g (.replied (some r))))
      | [] => if ch.alive = true then none else some (s.goto t (.guarded g .failing))
    | _ => none
  | .markDead t =>
    match s.tasks[t]? with
    | some (.guarded g .failing) =>
      some ((s.markUnhealthy cfg g.idx).goto t (.guarded g .dropping))
    | _ => none
  | .record t =>
    match s.tasks[t]? with
    | some (.guarded g (.replied _)) =>
      some ({ s with
        served := if g.idx < cfg.cap then
            Function.update s.served g.idx (s.served g.idx + 1)
          else s.served
        completions := g.worker :: s.completions }.goto t
          (.guarded { g with completed := true } .dropping))
    | _ => none
  | .drop t =>
    match s.tasks[t]? with
    | some (.guarded ⟨idx, some w, false⟩ .dropping) =>
      some ({ s.markUnhealthy cfg idx with abandoned := w :: s.abandoned }.goto t
        (.finished .poisoned))
    | some (.guarded g .dropping) =>
      some ({ s with queue := s.queue ++ [g.idx] }.goto t .returning)
    | _ => none
  | .addPermit t =>
    match s.tasks[t]? with
    | some .returning =>
      some ({ s with permits := s.permits + 1 }.goto t (.finished .returned))
    | _ => none
  | .ready i =>
    let ch := s.channels i
    if ch.alive = true ∧ ch.booting = true then
      some (s.setChannel i { ch with responses := ch.responses ++ [.ready], booting := false })
    else none
  | .serve i =>
    let ch := s.channels i
    match ch.requests with
    | t :: rest =>
      if ch.alive = true ∧ ch.booting = false then
        some (s.setChannel i
          { ch with requests := rest, responses := ch.responses ++ [.answer t] })
      else none
    | [] => none
  | .hangUp i =>
    some (s.setChannel i
      { s.channels i with requests := [], booting := false, alive := false })
  | .exit i => some { s with pool := s.pool.modify i fun o => { o with alive := false } }
  | .spawnAdditional =>
    some { s with
      pool := s.pool ++ [⟨⟨s.pool.length, s.nextSerial⟩, true⟩]
      nextSerial := s.nextSerial + 1 }
  | .reload count =>
    some { s with
      pool := spawnAll s.nextSerial count
      nextSerial := s.nextSerial + count }
  | .tick =>
    if s.reaper = .idle then
      some { s with reaper := if cfg.maxRequests = 0 then .marking [] else .scanFlag 0 [] }
    else none
  | .reap count =>
    if s.reaper = .reaping then
      let p := respawn cfg.mode s.pool s.nextSerial count
      some { s with
        pool := p.1
        nextSerial := p.2
        reaper := .refreshing (p.1.map Occupant.id) }
    else none
  | .reaper => reaperStep cfg s

/-! ## start-up -/

/-- `ThreadDispatch::new` over the fds of a freshly spawned pool. -/
def new (cfg : Config) : State where
  permits := cfg.cap
  queue := List.range cfg.cap
  fds := (spawnAll 0 cfg.cap).map Occupant.id
  served := fun _ => 0
  unhealthy := fun _ => false
  tasks := []
  reaper := .idle
  pool := spawnAll 0 cfg.cap
  nextSerial := cfg.cap
  channels := fun _ => ⟨[], [], false, false⟩
  marked := []
  abandoned := []
  completions := []

/-- `ThreadDispatch::spawn_channel_workers`, with the threads registered in the
pool.  `late i` says that worker `i` did not send its ready signal within the
second the function waits for it: the slot is queued all the same. -/
def spawnChannelWorkers (cfg : Config) (late : Nat → Bool) : State :=
  { new cfg with
    fds := []
    channels := fun i => ⟨[], [], late i, true⟩ }

/-- The dispatch at start-up. -/
def initial (cfg : Config) (late : Nat → Bool) : State :=
  if cfg.mode.hasChannels = true then spawnChannelWorkers cfg late else new cfg

section Initial

variable (cfg : Config) (late : Nat → Bool)

@[simp] theorem initial_permits : (initial cfg late).permits = cfg.cap := by
  unfold initial; split <;> rfl

@[simp] theorem initial_queue : (initial cfg late).queue = List.range cfg.cap := by
  unfold initial; split <;> rfl

@[simp] theorem initial_served : (initial cfg late).served = fun _ => 0 := by
  unfold initial; split <;> rfl

@[simp] theorem initial_unhealthy : (initial cfg late).unhealthy = fun _ => false := by
  unfold initial; split <;> rfl

@[simp] theorem initial_tasks : (initial cfg late).tasks = [] := by
  unfold initial; split <;> rfl

@[simp] theorem initial_reaper : (initial cfg late).reaper = .idle := by
  unfold initial; split <;> rfl

@[simp] theorem initial_pool : (initial cfg late).pool = spawnAll 0 cfg.cap := by
  unfold initial; split <;> rfl

@[simp] theorem initial_nextSerial : (initial cfg late).nextSerial = cfg.cap := by
  unfold initial; split <;> rfl

@[simp] theorem initial_marked : (initial cfg late).marked = [] := by
  unfold initial; split <;> rfl

@[simp] theorem initial_abandoned : (initial cfg late).abandoned = [] := by
  unfold initial; split <;> rfl

@[simp] theorem initial_completions : (initial cfg late).completions = [] := by
  unfold initial; split <;> rfl

end Initial

/-! ## pieces of runs -/

/-- One slot, recycled after every request. -/
def recycleEach : Config := ⟨1, 1, fun _ _ _ => 1, .persistent⟩

/-- A request over pipes up to the point where its guard is armed. -/
def claimAndArm (t : Nat) : List Event :=
  [.arrive, .acquire t, .pop t, .loadUnhealthy t, .loadServed t, .arm t]

/-- What remains of a request over pipes that is answered. -/
def finishAndReturn (t : Nat) : List Event := [.respond t, .record t, .drop t, .addPermit t]

end Turbine.Dispatch
