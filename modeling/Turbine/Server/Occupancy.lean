import Turbine.Dispatch.Inversion
import Turbine.Pool.Model

/-!
# Turbine.Server.Occupancy

The worker pool as the auto-scaler and the shutdown see it.  Requests are
dispatched by `ThreadDispatch`, which has an idle queue of its own; the pool keeps
a state for each worker and another idle queue.  The auto-scaler looks at the pool
to decide whether to add or terminate a worker, and the shutdown waits until the
pool has no busy worker.

`mark_busy` is only called for the named pools, so in the main pool nobody is ever
busy, whatever the dispatch has handed out.

* `requests_visible_along_iff`: the pool is right about its workers exactly as
  long as none is handed out.
-/

namespace Turbine.Server.Occupancy

open Base
open Dispatch (Mode Occupant Task deadSlots)
open Pool (WorkerState)

/-! ## the pool's books -/

/-- What `WorkerPool` has in its books: the state of each worker, and its idle queue. -/
structure Books where
  states : List WorkerState
  idleQueue : List Nat
deriving DecidableEq, Repr

/-- `WorkerPool::busy_count`. -/
def Books.busyCount (b : Books) : Nat := b.states.countP (· = .busy)

/-- `WorkerPool::alive_count`. -/
def Books.aliveCount (b : Books) : Nat := b.states.countP fun w => w = .idle ∨ w = .busy

/-- `WorkerPool::idle_count`. -/
def Books.idleCount (b : Books) : Nat := b.idleQueue.length

/-- Workers that have just been spawned. -/
def Books.spawned (count : Nat) : Books := ⟨List.replicate count .idle, List.range count⟩

/-- `spawn_one` and `push_worker`. -/
def Books.push (b : Books) : Books := ⟨b.states ++ [.idle], b.idleQueue ++ [b.states.length]⟩

/-- `WorkerPool::replace_worker`. -/
def Books.replaceWorker (b : Books) (index : Nat) : Books :=
  if index < b.states.length then ⟨b.states.set index .idle, b.idleQueue ++ [index]⟩ else b

/-- `is_alive` for every worker: the dead ones are recorded with their exit codes. -/
def Books.scan (pool : List Occupant) (codes : List Int) (b : Books) : Books :=
  { b with
    states := b.states.mapIdx fun i w =>
      if pool[i]?.any (fun o => !o.alive) then .exited (codes.getD i 0) else w }

/-- The pool's reap and respawn, of which `count` succeed. -/
def Books.reap (mode : Mode) (pool : List Occupant) (count : Nat) (codes : List Int) (b : Books) :
    Books :=
  ((deadSlots pool).take count).foldl
    (fun b i => match mode with
      | .nativeProcess => b.push
      | _ => b.replaceWorker i)
    (b.scan pool codes)

/-- The worker that `shrink_one` terminates: the last of the idle queue, if it is idle. -/
def Books.shrinks (b : Books) : Option Nat :=
  b.idleQueue.getLast?.filter fun idx => b.states[idx]? = some .idle

/-- `WorkerPool::shrink_one`. -/
def Books.shrinkOne (b : Books) : Books :=
  match b.shrinks with
  | some idx => ⟨b.states.set idx .stopping, b.idleQueue.dropLast⟩
  | none => { b with idleQueue := b.idleQueue.dropLast }

/-! ## the server -/

structure Config where
  dispatch : Dispatch.Config
  autoScale : Bool
  minWorkers : Nat
  maxWorkers : Nat

/-- The auto-scaling task.  `idleSince` says that the timer of the scale-down runs. -/
inductive Scaler
  | sleeping (idleSince : Bool)
  | observed (alive idle : Nat) (idleSince : Bool)
deriving DecidableEq, Repr

/-- Where the shutdown stands.  `drained` is the report that all requests are done,
`timedOut` the warning that they are not. -/
inductive Shutdown
  | serving
  | draining
  | drained
  | timedOut
  | down
deriving DecidableEq, Repr

structure State where
  dispatch : Dispatch.State
  books : Books
  scaler : Scaler
  shutdown : Shutdown

/-- What can happen.  The steps of the dispatch that concern the pool are apart. -/
inductive Event
  | dispatch (e : Dispatch.Event)
  | exit (i : Nat)
  | reap (count : Nat) (codes : List Int)
  | reload (count : Nat)
  /-- The auto-scaler reads the counts. -/
  | observe
  /-- It acts on them: has the idle time passed, does the spawn succeed? -/
  | scale (elapsed spawns : Bool)
  /-- The server is told to shut down. -/
  | signal
  /-- The shutdown looks whether a worker is busy: has its time passed? -/
  | look (late : Bool)
  | shutdownPool
deriving DecidableEq, Repr

/-- The events of the dispatch that concern the pool. -/
def changesPool : Dispatch.Event → Bool
  | .exit _ | .spawnAdditional | .reload _ | .reap _ => true
  | _ => false

/-- The auto-scaler after it has seen `alive` and `idle` workers. -/
def scale (cfg : Config) (s : State) (alive idle : Nat) (idleSince elapsed spawns : Bool) :
    Option State :=
  if idle = 0 ∧ alive < cfg.maxWorkers then
    if cfg.dispatch.mode = .persistent ∨ spawns = false then
      some { s with scaler := .sleeping idleSince }
    else
      (Dispatch.step cfg.dispatch s.dispatch .spawnAdditional).map fun d =>
        { s with dispatch := d, books := s.books.push, scaler := .sleeping false }
  else if 0 < idle ∧ cfg.minWorkers < alive then
    if idleSince = true ∧ elapsed = true then
      some { s with books := s.books.shrinkOne, scaler := .sleeping s.books.shrinks.isNone }
    else some { s with scaler := .sleeping true }
  else some { s with scaler := .sleeping false }

/-- The state after `e`, if `e` is enabled in `s`. -/
def step (cfg : Config) (s : State) : Event → Option State
  | .dispatch e =>
    if changesPool e then none
    else (Dispatch.step cfg.dispatch s.dispatch e).map fun d => { s with dispatch := d }
  | .exit i =>
    (Dispatch.step cfg.dispatch s.dispatch (.exit i)).map fun d => { s with dispatch := d }
  | .reap count codes =>
    (Dispatch.step cfg.dispatch s.dispatch (.reap count)).map fun d =>
      { s with
        dispatch := d
        books := s.books.reap cfg.dispatch.mode s.dispatch.pool count codes }
  | .reload count =>
    (Dispatch.step cfg.dispatch s.dispatch (.reload count)).map fun d =>
      { s with dispatch := d, books := .spawned count }
  | .observe =>
    match s.scaler with
    | .sleeping idleSince =>
      if cfg.autoScale then
        some { s with scaler := .observed s.books.aliveCount s.books.idleCount idleSince }
      else none
    | .observed .. => none
  | .scale elapsed spawns =>
    match s.scaler with
    | .observed alive idle idleSince => scale cfg s alive idle idleSince elapsed spawns
    | .sleeping _ => none
  | .signal => if s.shutdown = .serving then some { s with shutdown := .draining } else none
  | .look late =>
    if s.shutdown = .draining then
      if s.books.busyCount = 0 then some { s with shutdown := .drained }
      else if late then some { s with shutdown := .timedOut }
      else some s
    else none
  | .shutdownPool =>
    if s.shutdown = .drained ∨ s.shutdown = .timedOut then
      (Dispatch.step cfg.dispatch s.dispatch (.reload 0)).map fun d =>
        { s with dispatch := d, books := .spawned 0, shutdown := .down }
    else none

/-- The server at start-up. -/
def initial (cfg : Config) (late : Nat → Bool) : State where
  dispatch := Dispatch.initial cfg.dispatch late
  books := .spawned cfg.dispatch.cap
  scaler := .sleeping false
  shutdown := .serving

variable {cfg : Config} {s s' : State} {e : Event} {d d' : Dispatch.State} {i : Nat}

/-- One step, by branch. -/
inductive Step (cfg : Config) (s : State) : Event → State → Prop
  | dispatch {e : Dispatch.Event} {d : Dispatch.State} (he : changesPool e = false)
      (hd : Dispatch.step cfg.dispatch s.dispatch e = some d) :
      Step cfg s (.dispatch e) { s with dispatch := d }
  | exit {i : Nat} {d : Dispatch.State}
      (hd : Dispatch.step cfg.dispatch s.dispatch (.exit i) = some d) :
      Step cfg s (.exit i) { s with dispatch := d }
  | reap {count : Nat} {codes : List Int} {d : Dispatch.State}
      (hd : Dispatch.step cfg.dispatch s.dispatch (.reap count) = some d) :
      Step cfg s (.reap count codes)
        { s with
          dispatch := d
          books := s.books.reap cfg.dispatch.mode s.dispatch.pool count codes }
  | reload {count : Nat} {d : Dispatch.State}
      (hd : Dispatch.step cfg.dispatch s.dispatch (.reload count) = some d) :
      Step cfg s (.reload count) { s with dispatch := d, books := .spawned count }
  | turn {e : Event} {scaler : Scaler} {shutdown : Shutdown}
      (he : e = .observe ∨ (∃ elapsed spawns, e = .scale elapsed spawns) ∨ e = .signal ∨
        ∃ late, e = .look late)
      (hreport : s.shutdown ≠ .drained → shutdown = .drained → s.books.busyCount = 0) :
      Step cfg s e { s with scaler := scaler, shutdown := shutdown }
  | grow {elapsed spawns : Bool} {d : Dispatch.State}
      (hd : Dispatch.step cfg.dispatch s.dispatch .spawnAdditional = some d) :
      Step cfg s (.scale elapsed spawns)
        { s with dispatch := d, books := s.books.push, scaler := .sleeping false }
  | shrink {elapsed spawns : Bool} :
      Step cfg s (.scale elapsed spawns)
        { s with books := s.books.shrinkOne, scaler := .sleeping s.books.shrinks.isNone }
  | shutdownPool {d : Dispatch.State}
      (hd : Dispatch.step cfg.dispatch s.dispatch (.reload 0) = some d) :
      Step cfg s .shutdownPool
        { s with dispatch := d, books := .spawned 0, shutdown := .down }

/-- The branches of the auto-scaler. -/
theorem Step.of_scale {alive idle : Nat} {idleSince elapsed spawns : Bool}
    (h : scale cfg s alive idle idleSince elapsed spawns = some s') :
    Step cfg s (.scale elapsed spawns) s' := by
  have hturn : ∀ since, Step cfg s (.scale elapsed spawns) { s with scaler := .sleeping since } :=
    fun since => .turn (.inr (.inl ⟨elapsed, spawns, rfl⟩)) fun hne heq => absurd heq hne
  unfold scale at h
  split at h
  · split at h
    · cases h
      exact hturn _
    · obtain ⟨d, hd, rfl⟩ := Option.map_eq_some_iff.1 h
      exact .grow hd
  · split at h
    · split at h <;> cases h
      · exact .shrink
      · exact hturn _
    · cases h
      exact hturn _

/-- **Inversion.** -/
theorem Step.of_step (h : step cfg s e = some s') : Step cfg s e s' := by
  cases e with
  | dispatch e =>
    simp only [step] at h
    split at h
    case isTrue => cases h
    case isFalse he =>
      obtain ⟨d, hd, rfl⟩ := Option.map_eq_some_iff.1 h
      exact .dispatch (Bool.eq_false_iff.2 he) hd
  | exit i =>
    simp only [step] at h
    obtain ⟨d, hd, rfl⟩ := Option.map_eq_some_iff.1 h
    exact .exit hd
  | reap count codes =>
    simp only [step] at h
    obtain ⟨d, hd, rfl⟩ := Option.map_eq_some_iff.1 h
    exact .reap hd
  | reload count =>
    simp only [step] at h
    obtain ⟨d, hd, rfl⟩ := Option.map_eq_some_iff.1 h
    exact .reload hd
  | observe =>
    simp only [step] at h
    split at h
    · split at h <;> cases h
      exact .turn (.inl rfl) fun hne heq => absurd heq hne
    · cases h
  | scale elapsed spawns =>
    simp only [step] at h
    split at h
    · exact .of_scale h
    · cases h
  | signal =>
    simp only [step] at h
    split at h <;> cases h
    exact .turn (.inr (.inr (.inl rfl))) nofun
  | look late =>
    simp only [step] at h
    split at h
    case isTrue hdraining =>
      split at h
      case isTrue hbusy =>
        cases h
        exact .turn (.inr (.inr (.inr ⟨late, rfl⟩))) fun _ _ => hbusy
      case isFalse =>
        split at h <;> cases h
        · exact .turn (.inr (.inr (.inr ⟨late, rfl⟩))) nofun
        · exact .turn (.inr (.inr (.inr ⟨late, rfl⟩))) fun hne heq => absurd heq hne
    case isFalse => cases h
  | shutdownPool =>
    simp only [step] at h
    split at h
    · obtain ⟨d, hd, rfl⟩ := Option.map_eq_some_iff.1 h
      exact .shutdownPool hd
    · cases h

/-! ## nobody is busy -/

def Books.NotBusy (b : Books) : Prop := ∀ w ∈ b.states, w ≠ .busy

theorem Books.NotBusy.busyCount {b : Books} (h : b.NotBusy) : b.busyCount = 0 := by
  rw [Books.busyCount, List.countP_eq_zero]
  intro w hw
  simpa using h w hw

theorem notBusy_spawned (count : Nat) : (Books.spawned count).NotBusy := by
  intro w hw
  rw [List.eq_of_mem_replicate hw]
  simp

theorem Books.NotBusy.push {b : Books} (h : b.NotBusy) : b.push.NotBusy := by
  intro w hw
  obtain hw | hw := List.mem_append.1 hw
  · exact h w hw
  · simp [List.mem_singleton.1 hw]

theorem Books.NotBusy.set {b : Books} (h : b.NotBusy) {w : WorkerState} (hw : w ≠ .busy)
    (queue : List Nat) : Books.NotBusy ⟨b.states.set i w, queue⟩ := by
  intro v hv
  obtain hv | rfl := List.mem_or_eq_of_mem_set hv
  · exact h v hv
  · exact hw

theorem Books.NotBusy.replaceWorker {b : Books} (h : b.NotBusy) : (b.replaceWorker i).NotBusy := by
  unfold Books.replaceWorker
  split
  · exact h.set (by simp) _
  · exact h

theorem Books.NotBusy.scan {b : Books} (h : b.NotBusy) (pool : List Occupant) (codes : List Int) :
    (b.scan pool codes).NotBusy := by
  intro w hw
  obtain ⟨i, hi, rfl⟩ := List.mem_mapIdx.1 hw
  split
  · simp
  · exact h _ (List.getElem_mem hi)

theorem Books.NotBusy.reap {b : Books} (h : b.NotBusy) (mode : Mode) (pool : List Occupant)
    (count : Nat) (codes : List Int) : (b.reap mode pool count codes).NotBusy := by
  unfold Books.reap
  have hscan := h.scan pool codes
  generalize b.scan pool codes = b' at hscan
  induction (deadSlots pool).take count generalizing b' with
  | nil => exact hscan
  | cons i dead ih =>
    refine ih _ ?_
    cases mode with
    | nativeProcess => exact hscan.push
    | persistent | channel => exact hscan.replaceWorker

theorem Books.NotBusy.shrinkOne {b : Books} (h : b.NotBusy) : b.shrinkOne.NotBusy := by
  unfold Books.shrinkOne
  split
  · exact h.set (by simp) _
  · exact h

/-- **Step lemma.**  No step makes a worker busy. -/
theorem notBusy_step (h : s.books.NotBusy) (hs : Step cfg s e s') : s'.books.NotBusy := by
  cases hs with
  | dispatch he hd => exact h
  | exit hd => exact h
  | reap hd => exact h.reap _ _ _ _
  | reload hd => exact notBusy_spawned _
  | turn he hreport => exact h
  | grow hd => exact h.push
  | shrink => exact h.shrinkOne
  | shutdownPool hd => exact notBusy_spawned 0

/-- In every state of every run the shutdown finds no busy worker: its first look is the
report that all requests are done. -/
theorem look_reports (cfg : Config) (late : Nat → Bool) (es : List Event) (s : State)
    (hrun : run (step cfg) (initial cfg late) es = some s) (hdraining : s.shutdown = .draining)
    (timeUp : Bool) : step cfg s (.look timeUp) = some { s with shutdown := .drained } := by
  have hbooks : s.books.NotBusy :=
    invariant_of_run (I := fun s : State => s.books.NotBusy)
      (fun _ _ _ h hs => notBusy_step h (.of_step hs)) (notBusy_spawned _) hrun
  simp only [step]
  rw [if_pos hdraining, if_pos hbooks.busyCount]

theorem look_reports_in_flight :
    ∃ cfg s, run (step cfg) (initial cfg fun _ => false)
        ((Dispatch.claimAndArm 0).map .dispatch ++ [.signal]) = some s ∧
      step cfg s (.look false) = some { s with shutdown := .drained } :=
  ⟨⟨⟨2, 0, fun _ _ _ => 0, .nativeProcess⟩, true, 1, 2⟩, _, rfl,
    look_reports _ _ ((Dispatch.claimAndArm 0).map .dispatch ++ [.signal]) _ rfl rfl false⟩

/-! ## who holds a worker -/

/-- A request holds worker `i`. -/
def State.Held (s : State) (i : Nat) : Prop := ∃ τ ∈ s.dispatch.tasks, τ.guard? = some i

/-- No request holds a worker. -/
def Unguarded (d : Dispatch.State) : Prop := ∀ τ ∈ d.tasks, τ.guard? = none

theorem guard?_skip (cfg : Dispatch.Config) (k : Nat) : (Dispatch.skip cfg k).guard? = none := by
  unfold Dispatch.skip
  split <;> rfl

/-- A step that hands out a worker: `get_idle` finds it within its quota. -/
def HandsOut (cfg : Dispatch.Config) (d : Dispatch.State) : Dispatch.Event → Prop
  | .loadServed t => ∃ k idx, d.tasks[t]? = some (.checked k idx) ∧ d.overQuota cfg idx = false
  | _ => False

/-- **Step lemma.**  Only `get_idle` makes a request hold a worker. -/
theorem unguarded_step {cfg : Dispatch.Config} {e : Dispatch.Event} (h : Unguarded d)
    (hs : Dispatch.Step cfg d e d') (hkeep : ¬ HandsOut cfg d e) : Unguarded d' := by
  have hnot : ∀ {t : Nat} {g : Dispatch.IdleGuard} {st : Dispatch.Stage},
      d.tasks[t]? ≠ some (.guarded g st) := by
    intro t g st ht
    have hnone := h _ (List.mem_of_getElem? ht)
    simp [Task.guard?] at hnone
  cases hs with
  | arrive => exact List.forall_mem_append.2 ⟨h, List.forall_mem_singleton.2 rfl⟩
  | skipUnhealthy | skipOverQuota => exact Dispatch.State.forall_goto h (guard?_skip cfg _)
  | @claim t k idx ht hquota => exact absurd ⟨k, idx, ht, hquota⟩ hkeep
  | acquire | timeout | cancelWaiting | pop | popEmpty | restore | check | addPermit =>
    exact Dispatch.State.forall_goto h rfl
  | cancelGuarded ht | arm _ ht | armPanic _ ht | respond ht | fail ht | send _ ht
  | sendDead _ ht | lock ht | recv ht | recvDead ht | markDead ht | record ht | poison ht
  | giveBack ht => exact absurd ht hnot
  | mark => simpa [Unguarded] using h
  | _ => exact h

theorem unguarded_iff : Unguarded s.dispatch ↔ ∀ i, ¬ s.Held i := by
  constructor
  · rintro h i ⟨τ, hτ, hi⟩
    rw [h τ hτ] at hi
    cases hi
  · intro h τ hτ
    cases hguard : τ.guard? with
    | none => rfl
    | some i => exact absurd ⟨τ, hτ, hguard⟩ (h i)

/-- The step hands out no worker. -/
def HandsOutNone (cfg : Config) (s : State) : Event → Prop
  | .dispatch e => ¬ HandsOut cfg.dispatch s.dispatch e
  | _ => True

/-- **Step lemma.** -/
theorem unguarded_of_step (h : Unguarded s.dispatch) (hnone : HandsOutNone cfg s e)
    (hs : Step cfg s e s') : Unguarded s'.dispatch := by
  -- the pool's own events leave the requests alone
  have hpool : ∀ {e : Dispatch.Event} {d : Dispatch.State}, changesPool e = true →
      Dispatch.step cfg.dispatch s.dispatch e = some d → Unguarded d := by
    intro e d he hd
    refine unguarded_step h (.of_step hd) ?_
    cases e <;> first | exact id | cases he
  cases hs with
  | dispatch he hd => exact unguarded_step h (.of_step hd) hnone
  | exit hd | reap hd | reload hd | grow hd | shutdownPool hd => exact hpool rfl hd
  | turn he hreport => exact h
  | shrink => exact h

/-! ## what the pool knows -/

/-- Every worker that a request holds is busy in the books. -/
def State.Visible (s : State) : Prop := ∀ i, s.Held i → s.books.states[i]? = some .busy

/-- What the auto-scaler and the shutdown rely on: the books show which workers are held,
no worker is terminated while it is held, and the report that all requests are done is
only made when no worker is held. -/
structure Reliable (s : State) (s' : State) : Prop where
  visible : s'.Visible
  spared : ∀ i, s.books.states[i]? ≠ some .stopping → s'.books.states[i]? = some .stopping →
    ¬ s.Held i
  drained : s.shutdown ≠ .drained → s'.shutdown = .drained → ∀ i, ¬ s.Held i

/-- A worker that is handed out is held, and not busy in the books. -/
theorem not_visible_of_handsOut {e : Dispatch.Event} (h : s.books.NotBusy)
    (hout : HandsOut cfg.dispatch s.dispatch e)
    (hd : Dispatch.step cfg.dispatch s.dispatch e = some d) :
    ¬ State.Visible { s with dispatch := d } := by
  intro hvisible
  cases e with
  | loadServed t =>
    obtain ⟨k, idx, ht, hquota⟩ := hout
    obtain rfl : s.dispatch.goto t (.guarded (.new idx) .claimed) = d := by
      simpa [Dispatch.step, ht, hquota] using hd
    obtain ⟨hlt, -⟩ := List.getElem?_eq_some_iff.1 ht
    have hheld : Task.guarded (.new idx) .claimed ∈
        (s.dispatch.goto t (.guarded (.new idx) .claimed)).tasks :=
      List.mem_set hlt _
    have hbusy := hvisible idx ⟨_, hheld, rfl⟩
    exact h _ (List.mem_of_getElem? hbusy) rfl
  | _ => exact hout

/-- **Exactly when the books are right.**  In every run of every server, they are right
about the requests at every step iff no request is ever handed a worker. -/
theorem requests_visible_along_iff (cfg : Config) (late : Nat → Bool) (es : List Event) :
    Along (step cfg) (fun s _ s' => Reliable s s') (initial cfg late) es ↔
      Guarded (step cfg) (HandsOutNone cfg) (initial cfg late) es := by
  refine along_iff_guarded
    (I := fun s : State => s.books.NotBusy ∧ Unguarded s.dispatch) ?_ ?_ ?_
  · rintro s e s' ⟨hbooks, hfree⟩ hnone hs
    have hstep := Step.of_step hs
    exact ⟨notBusy_step hbooks hstep, unguarded_of_step hfree hnone hstep⟩
  · rintro s e s' ⟨hbooks, hfree⟩ hs
    constructor
    · intro hreliable
      cases Step.of_step hs with
      | dispatch he hd => exact fun hout => not_visible_of_handsOut hbooks hout hd hreliable.visible
      | turn he hreport =>
        obtain rfl | ⟨_, _, rfl⟩ | rfl | ⟨_, rfl⟩ := he <;> trivial
      | _ => trivial
    · intro hnone
      have hfree' := unguarded_iff.1 (unguarded_of_step hfree hnone (.of_step hs))
      have hfree := unguarded_iff.1 hfree
      exact ⟨fun i hi => absurd hi (hfree' i), fun i _ _ => hfree i, fun _ _ => hfree⟩
  · refine ⟨notBusy_spawned _, ?_⟩
    simp [Unguarded, initial]

/-! ## a request among the idle -/

/-- Two processes, one of which may go. -/
def twoWorkers : Config := ⟨⟨2, 0, fun _ _ _ => 0, .nativeProcess⟩, true, 1, 2⟩

/-- A request is sent to a worker. -/
def oneRequest : List Event := (Dispatch.claimAndArm 0).map .dispatch

/-- The auto-scaler sees an idle worker too many, and again when the idle time is over. -/
def scaledDown : List Event := [.observe, .scale false false, .observe, .scale true false]

def signalled : List Event := [.signal, .look false]

/-- The request is in flight throughout: its worker is idle in the books, is terminated as
idle, and the shutdown reports that all requests are done. -/
theorem request_unseen :
    ∃ s₁ s₂ s₃, run (step twoWorkers) (initial twoWorkers fun _ => false) oneRequest = some s₁ ∧
      s₁.Held 1 ∧ s₁.books.states[1]? = some .idle ∧
      run (step twoWorkers) s₁ scaledDown = some s₂ ∧
      s₂.Held 1 ∧ s₂.books.states[1]? = some .stopping ∧
      run (step twoWorkers) s₂ signalled = some s₃ ∧
      s₃.Held 1 ∧ s₃.shutdown = .drained := by
  have hview : ∀ {s : State} {books : Books} {shutdown : Shutdown},
      (s.dispatch.tasks, s.books, s.shutdown) =
        ([Task.guarded ⟨1, some ⟨1, 1⟩, false⟩ .reading], books, shutdown) →
      s.Held 1 ∧ s.books = books ∧ s.shutdown = shutdown := by
    intro s books shutdown h
    obtain ⟨htasks, hrest⟩ := Prod.mk.inj h
    obtain ⟨hbooks, hshutdown⟩ := Prod.mk.inj hrest
    exact ⟨⟨_, by rw [htasks]; exact List.mem_singleton.2 rfl, rfl⟩, hbooks, hshutdown⟩
  have hrun₁ : ((run (step twoWorkers) (initial twoWorkers fun _ => false) oneRequest).map
      fun s => (s.dispatch.tasks, s.books, s.shutdown)) =
        some ([.guarded ⟨1, some ⟨1, 1⟩, false⟩ .reading], ⟨[.idle, .idle], [0, 1]⟩, .serving) := by
    decide
  have hrun₂ : ((run (step twoWorkers) (initial twoWorkers fun _ => false)
      (oneRequest ++ scaledDown)).map fun s => (s.dispatch.tasks, s.books, s.shutdown)) =
        some ([.guarded ⟨1, some ⟨1, 1⟩, false⟩ .reading], ⟨[.idle, .stopping], [0]⟩, .serving) := by
    decide
  have hrun₃ : ((run (step twoWorkers) (initial twoWorkers fun _ => false)
      (oneRequest ++ (scaledDown ++ signalled))).map
        fun s => (s.dispatch.tasks, s.books, s.shutdown)) =
        some ([.guarded ⟨1, some ⟨1, 1⟩, false⟩ .reading], ⟨[.idle, .stopping], [0]⟩, .drained) := by
    decide
  obtain ⟨s₁, hs₁, hview₁⟩ := Option.map_eq_some_iff.1 hrun₁
  rw [run_append, hs₁, Option.bind_some] at hrun₂ hrun₃
  obtain ⟨s₂, hs₂, hview₂⟩ := Option.map_eq_some_iff.1 hrun₂
  rw [run_append, hs₂, Option.bind_some] at hrun₃
  obtain ⟨s₃, hs₃, hview₃⟩ := Option.map_eq_some_iff.1 hrun₃
  obtain ⟨hheld₁, hbooks₁, -⟩ := hview hview₁
  obtain ⟨hheld₂, hbooks₂, -⟩ := hview hview₂
  obtain ⟨hheld₃, -, hshutdown₃⟩ := hview hview₃
  exact ⟨s₁, s₂, s₃, hs₁, hheld₁, by rw [hbooks₁]; rfl, hs₂, hheld₂, by rw [hbooks₂]; rfl, hs₃,
    hheld₃, hshutdown₃⟩

end Turbine.Server.Occupancy
