import Turbine.Base.Handles
import Turbine.Pool.Model
import Turbine.Pool.Termination

/-!
# Turbine.Pool.Descriptors

Who closes the four pipe ends of a worker.  One worker's life, from the moment its pipes
exist: the server's `Worker`, the event loop and what surrounds it in the thread or the
child, and whoever has copied the descriptor numbers (`worker_fds`, a request that has
claimed the worker).  Every step records what it does with which descriptor.

* `opened_step`: a step that meets `Tidy` uses open descriptors only, and closes those
  that should not be open any more.
-/

namespace Turbine.Pool.Descriptors

open Base

/-! ## descriptors -/

/-- The ends of the command pipe and the response pipe. -/
inductive End
  | cmdRead
  | cmdWrite
  | respRead
  | respWrite
deriving DecidableEq, Repr

/-- The process whose descriptor it is.  A thread's are the server's. -/
inductive Owner
  | server
  | child
deriving DecidableEq, Repr

/-- `worker_event_loop_native` wraps its descriptors in `File`s, which close them;
`worker_event_loop_persistent` does not. -/
inductive EventLoop
  | native
  | persistent
deriving DecidableEq, Repr

structure Config where
  backend : Backend
  loop : EventLoop
deriving DecidableEq, Repr

/-- Whose descriptors the worker's ends are. -/
def Config.owner (cfg : Config) : Owner :=
  match cfg.backend with
  | .process => .child
  | .thread => .server

/-- A fork doubles the descriptors. -/
def Config.created (cfg : Config) : Owner × End → Bool
  | (.server, _) => true
  | (.child, _) => cfg.backend = .process

/-- What `spawn_one` does after the fork, in the server and in the child. -/
def Config.spawnUses (cfg : Config) : List ((Owner × End) × Use) :=
  match cfg.backend with
  | .process =>
    [((.server, .cmdRead), .close), ((.server, .respWrite), .close),
     ((.child, .cmdWrite), .close), ((.child, .respRead), .close)]
  | .thread => []

/-! ## the life of a worker -/

/-- `Worker`, as far as it matters here.  `hasCmd` is false once `cmd_fd` is `-1`. -/
structure Handle where
  state : WorkerState
  hasCmd : Bool
deriving DecidableEq, Repr

/-- How a child ended. -/
inductive Exit
  | code (c : Int)
  | signal
deriving DecidableEq, Repr

/-- Where the thread or the child stands.  `failing` is a thread whose PHP context could
not be made, `cleaned` one that has still to clear its flag; the status of a child is
there until somebody waits for it. -/
inductive Phase
  | booting
  | running
  | returned
  | failing
  | cleaned
  | ended (status : Option Exit)
deriving DecidableEq, Repr

/-- `copies` are the copies of the descriptor numbers, each with or without that of the
command pipe. -/
structure Life where
  worker : Option Handle := some ⟨.idle, true⟩
  phase : Phase := .booting
  copies : List Bool := []
deriving DecidableEq, Repr

def start : Life := {}

/-- `boot` to `exit` are the worker's own steps, `exit` the end of a child by itself or by
a signal.  `tell` and `hear` go through the `Worker`, `send` and `receive` through a copy.
`poll` is `is_alive`, `wait` a `waitpid` for the child's end. -/
inductive Event
  | boot
  | initFails
  | workerReads
  | workerWrites
  | loopReturns
  | cleanup
  | clearFlag
  | exit (status : Exit)
  | tell
  | hear
  | lend
  | pass (i : Nat)
  | send (i : Nat)
  | receive (i : Nat)
  | giveBack (i : Nat)
  | markBusy
  | markIdle
  | terminate
  | kill
  | poll
  | wait
  | drop
deriving DecidableEq, Repr

/-- The worker as the operating system sees it. -/
def Phase.os (p : Phase) : Os where
  children := fun _ =>
    match p with
    | .ended (some (.code c)) => some (.exited c)
    | .ended (some .signal) => some .signaled
    | .ended none => none
    | _ => some .running
  threadAlive := fun _ =>
    match p with
    | .failing | .ended _ => false
    | _ => true

/-- The status of a child is reported once. -/
def Phase.waited : Phase → Phase
  | .ended _ => .ended none
  | p => p

def Config.kind (cfg : Config) : WorkerKind :=
  match cfg.backend with
  | .process => .process 0
  | .thread => .thread 0

/-- What `is_alive` makes of the worker's state. -/
def Config.polled (cfg : Config) (p : Phase) (h : Handle) : Handle :=
  { h with state := ((⟨cfg.kind, h.state, 0, 0, 0, 0⟩ : Worker).isAlive p.os).2.1.state }

/-- What a thread's wrapper makes of where it stands when it closes the ends. -/
def Phase.cleanedUp : Phase → Option Phase
  | .returned => some .cleaned
  | .failing => some (.ended none)
  | _ => none

/-- A child may end until it has. -/
def Phase.exits (status : Exit) : Phase → Option Phase
  | .ended _ => none
  | _ => some (.ended (some status))

/-- `Worker::terminate` and `Worker::kill` both note that the worker stops. -/
def Handle.stop (h : Handle) : Handle := { h with state := .stopping }

/-- A step of the `Worker`. -/
def Life.through (s : Life) (f : Handle → Handle) : Option Life :=
  s.worker.map fun h => { s with worker := some (f h) }

/-- A step of the thread or the child. -/
def Life.goto (s : Life) (p : Option Phase) : Option Life := p.map fun p => { s with phase := p }

/-- One step; `none` if it cannot be taken. -/
def Config.step (cfg : Config) (s : Life) : Event → Option Life
  | .boot => if s.phase = .booting then some { s with phase := .running } else none
  | .initFails =>
    if s.phase = .booting ∧ cfg.backend = .thread then some { s with phase := .failing } else none
  | .workerReads | .workerWrites => if s.phase = .running then some s else none
  | .loopReturns => if s.phase = .running then some { s with phase := .returned } else none
  | .cleanup => if cfg.backend = .thread then s.goto s.phase.cleanedUp else none
  | .clearFlag => if s.phase = .cleaned then some { s with phase := .ended none } else none
  | .exit status => if cfg.backend = .process then s.goto (s.phase.exits status) else none
  | .tell | .hear => s.through id
  | .lend => s.worker.map fun h => { s with copies := s.copies ++ [h.hasCmd] }
  | .pass i => s.copies[i]?.map fun b => { s with copies := s.copies ++ [b] }
  | .send i | .receive i => s.copies[i]?.map fun _ => s
  | .giveBack i => s.copies[i]?.map fun _ => { s with copies := s.copies.eraseIdx i }
  | .markBusy => s.through fun h => { h with state := .busy }
  | .markIdle => s.through fun h => { h with state := .idle }
  | .terminate => s.through Handle.stop
  | .kill => s.through fun h =>
    { h.stop with hasCmd := h.hasCmd && decide (cfg.backend = .process) }
  | .poll => (s.through (cfg.polled s.phase)).map fun s' => { s' with phase := s.phase.waited }
  | .wait => some { s with phase := s.phase.waited }
  | .drop => s.worker.map fun _ => { s with worker := none }

/-- The worker's two ends are closed. -/
def Config.closeEnds (cfg : Config) : List ((Owner × End) × Use) :=
  [((cfg.owner, .cmdRead), .close), ((cfg.owner, .respWrite), .close)]

/-- The thread or the child has its ends still. -/
def Phase.holds (loop : EventLoop) : Phase → Bool
  | .booting | .running | .failing => true
  | .returned => loop = .persistent
  | .cleaned | .ended _ => false

/-- Writing to the command pipe.  The descriptor `-1` is nobody's. -/
def Handle.write (h : Handle) : List ((Owner × End) × Use) :=
  if h.hasCmd then [((.server, .cmdWrite), .write)] else []

def Handle.close (h : Handle) : List ((Owner × End) × Use) :=
  if h.hasCmd then [((.server, .cmdWrite), .close)] else []

/-- `Worker::terminate`. -/
def Config.terminate (cfg : Config) (h : Handle) : List ((Owner × End) × Use) :=
  match cfg.backend with
  | .process => []
  | .thread => h.write

/-- `Worker::drop`.  The state is that before `terminate`. -/
def Config.drop (cfg : Config) (h : Handle) : List ((Owner × End) × Use) :=
  if h.state ≠ .exited (-1) ∧ h.state ≠ .exited 0 then
    h.close ++ [((.server, .respRead), .close)] ++
      (if h.state = .idle ∨ h.state = .busy then cfg.terminate h else [])
  else []

/-- What a step does with the descriptors. -/
def Config.uses (cfg : Config) (s : Life) : Event → List ((Owner × End) × Use)
  | .workerReads => [((cfg.owner, .cmdRead), .read)]
  | .workerWrites => [((cfg.owner, .respWrite), .write)]
  | .loopReturns => if cfg.loop = .native then cfg.closeEnds else []
  | .cleanup => cfg.closeEnds
  -- the kernel closes what is open
  | .exit _ => if s.phase.holds cfg.loop then cfg.closeEnds else []
  | .tell => s.worker.elim [] Handle.write
  | .hear => [((.server, .respRead), .read)]
  | .send i => if s.copies[i]? = some true then [((.server, .cmdWrite), .write)] else []
  | .receive _ => [((.server, .respRead), .read)]
  | .terminate => s.worker.elim [] cfg.terminate
  | .kill => if cfg.backend = .thread then s.worker.elim [] Handle.close else []
  | .drop => s.worker.elim [] cfg.drop
  | _ => []

/-! ## the descriptors that should be open -/

def Config.opened (cfg : Config) (s : Life) : Owner × End → Bool
  | (o, .cmdWrite) => o = .server && s.worker.any Handle.hasCmd
  | (o, .respRead) => o = .server && s.worker.isSome
  | (o, .cmdRead) | (o, .respWrite) => o = cfg.owner && s.phase.holds cfg.loop

variable {cfg : Config} {s s' : Life} {p : Phase} {h h' : Handle}

theorem opened_ext {opened : Owner × End → Bool}
    (h : ∀ o f, opened (o, f) = cfg.opened s (o, f)) : opened = cfg.opened s :=
  funext fun d => h d.1 d.2

/-- The table has those descriptors open that should be. -/
theorem some_opened {opened : Owner × End → Bool}
    (h : ∀ o f, opened (o, f) = cfg.opened s (o, f)) : some opened = some (cfg.opened s) :=
  congrArg some (opened_ext h)

/-- The descriptors depend on whether the thread or the child has its ends still. -/
theorem opened_phase (hp : p.holds cfg.loop = s.phase.holds cfg.loop) :
    cfg.opened { s with phase := p } = cfg.opened s := by
  refine opened_ext fun o f => ?_
  cases f <;> simp [Config.opened, hp]

theorem opened_worker (hworker : s.worker = some h) (hcmd : h'.hasCmd = h.hasCmd) :
    cfg.opened { s with worker := some h' } = cfg.opened s := by
  refine opened_ext fun o f => ?_
  cases f <;> simp [Config.opened, hworker, hcmd]

/-- After the fork, the server and the child each have the ends they use. -/
theorem opened_start : run useHandle cfg.created cfg.spawnUses = some (cfg.opened start) := by
  obtain ⟨backend, loop⟩ := cfg
  cases backend with
  | thread =>
    refine some_opened fun o f => ?_
    cases o <;> cases f <;> rfl
  | process =>
    refine some_opened fun o f => ?_
    cases o <;> cases f <;> rfl

/-! ## what one step does -/

theorem run_closeEnds (hs : s.phase.holds cfg.loop = true) (hp : p.holds cfg.loop = false) :
    run useHandle (cfg.opened s) cfg.closeEnds = some (cfg.opened { s with phase := p }) := by
  have hcmd : cfg.opened s (cfg.owner, .cmdRead) = true := by simp [Config.opened, hs]
  have hresp : Function.update (cfg.opened s) (cfg.owner, .cmdRead) false
      (cfg.owner, .respWrite) = true := by
    simp [Config.opened, hs]
  rw [Config.closeEnds, run, useHandle_close hcmd, Option.bind_some, run,
    useHandle_close hresp, Option.bind_some, run_nil]
  refine some_opened fun o f => ?_
  cases f <;> simp [Config.opened, Function.update_apply, hp, hs]

theorem run_use {d : Owner × End} {u : Use} (hd : cfg.opened s d = true) (hu : u ≠ .close) :
    run useHandle (cfg.opened s) [(d, u)] = some (cfg.opened s) := by
  rw [run, useHandle_of_ne_close hd hu, Option.bind_some, run_nil]

theorem run_write (hworker : s.worker = some h) :
    run useHandle (cfg.opened s) h.write = some (cfg.opened s) := by
  unfold Handle.write
  split
  case isTrue hcmd =>
    have hd : cfg.opened s (.server, .cmdWrite) = true := by simp [Config.opened, hworker, hcmd]
    exact run_use hd nofun
  · rfl

/-- The command pipe is closed if it was open. -/
theorem run_close (hworker : s.worker = some h) :
    run useHandle (cfg.opened s) h.close =
      some (cfg.opened { s with worker := some { h with hasCmd := false } }) := by
  unfold Handle.close
  split
  case isTrue hcmd =>
    have hd : cfg.opened s (.server, .cmdWrite) = true := by simp [Config.opened, hworker, hcmd]
    rw [run, useHandle_close hd, Option.bind_some, run_nil]
    refine some_opened fun o f => ?_
    cases o <;> cases f <;> simp [Config.opened, hworker]
  case isFalse hcmd =>
    exact congrArg some (opened_worker hworker (Bool.eq_false_iff.2 hcmd).symm).symm

/-- The condition: a wrapper does not close what the loop has closed; a `Worker` is not
dropped as `Exited(0)` or `Exited(-1)`, nor as an idle or busy thread that has its command
pipe; and copies are not used for longer than the `Worker` has the descriptors. -/
def Config.Tidy (cfg : Config) (s : Life) : Event → Prop
  | .cleanup => cfg.loop = .native → s.phase ≠ .returned
  | .send i => s.copies[i]? = some true → s.worker.any Handle.hasCmd = true
  | .receive _ => s.worker.isSome = true
  | .drop => ∀ h ∈ s.worker, (h.state ≠ .exited (-1) ∧ h.state ≠ .exited 0) ∧
      (cfg.backend = .thread → h.hasCmd = true → h.state ≠ .idle ∧ h.state ≠ .busy)
  | _ => True

theorem run_drop (hworker : s.worker = some h) (htidy : cfg.Tidy s .drop) :
    run useHandle (cfg.opened s) (cfg.drop h) = some (cfg.opened { s with worker := none }) := by
  obtain ⟨hlive, hquiet⟩ := htidy h hworker
  have hlast : (if h.state = .idle ∨ h.state = .busy then cfg.terminate h else []) = [] := by
    split
    case isTrue hstate =>
      unfold Config.terminate
      split
      · rfl
      case h_2 hthread =>
        -- a thread without a command pipe cannot be told anything
        have hcmd : h.hasCmd = false := by
          by_contra hcmd
          have hstate' := hquiet hthread (by simpa using hcmd)
          rcases hstate with hstate | hstate
          · exact hstate'.1 hstate
          · exact hstate'.2 hstate
        simp [Handle.write, hcmd]
    · rfl
  have hresp : cfg.opened { s with worker := some { h with hasCmd := false } }
      (.server, .respRead) = true := by
    simp [Config.opened]
  rw [Config.drop, if_pos hlive, hlast, List.append_nil, run_append, run_close hworker,
    Option.bind_some, run, useHandle_close hresp, Option.bind_some, run_nil]
  refine some_opened fun o f => ?_
  cases f <;> simp [Config.opened, Function.update_apply]

/-- A step of the thread or the child that uses no descriptor. -/
theorem run_phase (hp : p.holds cfg.loop = s.phase.holds cfg.loop) :
    run useHandle (cfg.opened s) [] = some (cfg.opened { s with phase := p }) :=
  congrArg some (opened_phase hp).symm

theorem through_eq_some {f : Handle → Handle} (hs : s.through f = some s') :
    ∃ h, s.worker = some h ∧ { s with worker := some (f h) } = s' := Option.map_eq_some_iff.1 hs

theorem opened_through {f : Handle → Handle} (hs : s.through f = some s')
    (hf : ∀ h, (f h).hasCmd = h.hasCmd) : cfg.opened s' = cfg.opened s := by
  obtain ⟨h, hworker, rfl⟩ := through_eq_some hs
  exact opened_worker hworker (hf h)

theorem holds_waited {loop : EventLoop} : p.waited.holds loop = p.holds loop := by
  cases p <;> rfl

/-- A wrapper that closes the ends has them, unless the loop has closed them. -/
theorem run_cleanup (htidy : cfg.Tidy s .cleanup) (hs : s.phase.cleanedUp = some p) :
    run useHandle (cfg.opened s) cfg.closeEnds = some (cfg.opened { s with phase := p }) := by
  cases hphase : s.phase with
  | returned =>
    rw [hphase] at hs
    obtain rfl := Option.some.inj hs
    have hloop : cfg.loop = .persistent := by
      cases hloop : cfg.loop with
      | native => exact absurd hphase (htidy hloop)
      | persistent => rfl
    exact run_closeEnds (by rw [hphase, hloop]; rfl) rfl
  | failing =>
    rw [hphase] at hs
    obtain rfl := Option.some.inj hs
    exact run_closeEnds (by rw [hphase]; rfl) rfl
  | booting | running | cleaned | ended =>
    rw [hphase] at hs
    cases hs

/-- At the end of a child the kernel closes what is open. -/
theorem run_exit {status : Exit} (hs : s.phase.exits status = some p) :
    run useHandle (cfg.opened s) (cfg.uses s (.exit status)) =
      some (cfg.opened { s with phase := p }) := by
  have hp : p.holds cfg.loop = false := by
    unfold Phase.exits at hs
    split at hs <;> cases hs
    rfl
  simp only [Config.uses]
  split
  case isTrue hholds => exact run_closeEnds hholds hp
  case isFalse hholds => exact run_phase (by rw [hp, Bool.eq_false_iff.2 hholds])

/-- **Step lemma.**  A step that meets the condition uses open descriptors only, and
leaves open those that should be. -/
theorem opened_step {e : Event} (htidy : cfg.Tidy s e) (hs : cfg.step s e = some s') :
    run useHandle (cfg.opened s) (cfg.uses s e) = some (cfg.opened s') := by
  cases e <;> simp only [Config.step] at hs
  case boot =>
    split at hs <;> cases hs
    case isTrue hphase => exact run_phase (by rw [hphase]; rfl)
  case initFails =>
    split at hs <;> cases hs
    case isTrue hphase => exact run_phase (by rw [hphase.1]; rfl)
  case workerReads =>
    split at hs <;> cases hs
    case isTrue hphase => exact run_use (by simp [Config.opened, hphase, Phase.holds]) nofun
  case workerWrites =>
    split at hs <;> cases hs
    case isTrue hphase => exact run_use (by simp [Config.opened, hphase, Phase.holds]) nofun
  case loopReturns =>
    split at hs <;> cases hs
    case isTrue hphase =>
      simp only [Config.uses]
      split
      case isTrue hloop =>
        exact run_closeEnds (by rw [hphase]; rfl) (by rw [hloop]; rfl)
      case isFalse hloop =>
        have hheld : Phase.returned.holds cfg.loop = true := by
          cases hl : cfg.loop with
          | native => exact absurd hl hloop
          | persistent => rfl
        exact run_phase (by rw [hphase, hheld]; rfl)
  case cleanup =>
    split at hs
    · obtain ⟨p, hp, rfl⟩ := Option.map_eq_some_iff.1 hs
      exact run_cleanup htidy hp
    · cases hs
  case clearFlag =>
    split at hs <;> cases hs
    case isTrue hphase => exact run_phase (by rw [hphase]; rfl)
  case exit status =>
    split at hs
    · obtain ⟨p, hp, rfl⟩ := Option.map_eq_some_iff.1 hs
      exact run_exit hp
    · cases hs
  case tell =>
    obtain ⟨h, hworker, -⟩ := through_eq_some hs
    rw [opened_through hs fun _ => rfl, Config.uses, hworker]
    exact run_write hworker
  case hear =>
    obtain ⟨h, hworker, -⟩ := through_eq_some hs
    rw [opened_through hs fun _ => rfl]
    exact run_use (by simp [Config.opened, hworker]) nofun
  case lend =>
    obtain ⟨h, hworker, rfl⟩ := Option.map_eq_some_iff.1 hs
    rfl
  case pass i =>
    obtain ⟨b, hb, rfl⟩ := Option.map_eq_some_iff.1 hs
    rfl
  case giveBack i =>
    obtain ⟨b, hb, rfl⟩ := Option.map_eq_some_iff.1 hs
    rfl
  case send i =>
    obtain ⟨b, hb, rfl⟩ := Option.map_eq_some_iff.1 hs
    simp only [Config.uses]
    split
    case isTrue hcopy => exact run_use (by simp [Config.opened, htidy hcopy]) nofun
    · rfl
  case receive i =>
    obtain ⟨b, hb, rfl⟩ := Option.map_eq_some_iff.1 hs
    have hworker : s.worker.isSome = true := htidy
    exact run_use (by simp [Config.opened, hworker]) nofun
  case markBusy =>
    rw [opened_through hs fun _ => rfl]
    rfl
  case markIdle =>
    rw [opened_through hs fun _ => rfl]
    rfl
  case terminate =>
    obtain ⟨h, hworker, -⟩ := through_eq_some hs
    rw [opened_through hs fun _ => rfl, Config.uses, hworker, Option.elim, Config.terminate]
    split
    · rfl
    · exact run_write hworker
  case kill =>
    obtain ⟨h, hworker, rfl⟩ := through_eq_some hs
    cases hbackend : cfg.backend with
    | process =>
      simp only [Config.uses, hbackend, reduceCtorEq, if_false]
      exact congrArg some (opened_worker hworker (by simp)).symm
    | thread =>
      simp only [Config.uses, hbackend, if_true, hworker, Option.elim]
      rw [run_close hworker]
      refine some_opened fun o f => ?_
      cases f <;> simp [Config.opened]
  case poll =>
    obtain ⟨s₁, hs₁, rfl⟩ := Option.map_eq_some_iff.1 hs
    have hphase : s₁.phase = s.phase := by
      obtain ⟨h, -, rfl⟩ := through_eq_some hs₁
      rfl
    rw [← opened_through hs₁ fun _ => rfl, ← hphase]
    exact run_phase holds_waited
  case wait =>
    cases hs
    exact run_phase holds_waited
  case drop =>
    obtain ⟨h, hworker, rfl⟩ := Option.map_eq_some_iff.1 hs
    rw [Config.uses, hworker]
    exact run_drop hworker htidy

/-! ## whole lives -/

/-- Nothing is done with a descriptor after it was closed; the server's two are closed
once when the `Worker` is gone, the worker's two when the thread or the child has ended. -/
structure ClosedOnce (cfg : Config) (s : Life) (log : List ((Owner × End) × Use)) : Prop where
  last : ∀ d, Use.close ∉ (usesOf d log).dropLast
  server : s.worker = none → ∀ f ∈ [End.cmdWrite, End.respRead],
    (usesOf (.server, f) log).count .close = 1
  worker : ∀ status, s.phase = .ended status → ∀ f ∈ [End.cmdRead, End.respWrite],
    (usesOf (cfg.owner, f) log).count .close = 1

/-- What was done with the descriptors, from the spawn on. -/
def Config.log (cfg : Config) (es : List Event) : List ((Owner × End) × Use) :=
  cfg.spawnUses ++ trace cfg.step cfg.uses start es

/-- **Run lemma.**  The descriptors are used in order, and those are open that should
be. -/
theorem opened_run {es : List Event} (hg : Guarded cfg.step cfg.Tidy start es)
    (hrun : run cfg.step start es = some s) :
    run useHandle cfg.created (cfg.log es) = some (cfg.opened s) := by
  rw [Config.log, run_append, opened_start, Option.bind_some]
  refine invariant_of_guarded_trace
    (I := fun s log => run useHandle (cfg.opened start) log = some (cfg.opened s))
    (fun s log e s' h htidy hs => ?_) rfl hg hrun
  rw [run_append, h, Option.bind_some]
  exact opened_step htidy hs

/-- A descriptor that should not be open any more was closed once. -/
theorem count_close_of_run {log : List ((Owner × End) × Use)} {d : Owner × End}
    (h : run useHandle cfg.created log = some (cfg.opened s)) (hd : cfg.created d = true)
    (hclosed : cfg.opened s d = false) : (usesOf d log).count .close = 1 := by
  obtain ⟨hlast, hiff⟩ := uses_of_run h hd
  exact count_close_eq_one hlast (hiff.1 hclosed)

theorem created_owner (f : End) : cfg.created (cfg.owner, f) = true := by
  obtain ⟨backend, loop⟩ := cfg
  cases backend <;> rfl

/-- In every life whose steps all meet the condition, every descriptor is closed once, by
the time its holder is gone, and not used after that. -/
theorem descriptors_closed_once (cfg : Config) (es : List Event) (s : Life)
    (hg : Guarded cfg.step cfg.Tidy start es) (hrun : run cfg.step start es = some s) :
    ClosedOnce cfg s (cfg.log es) := by
  have h := opened_run hg hrun
  refine ⟨fun d => ?_, fun hworker f hf => ?_, fun status hphase f hf => ?_⟩
  · cases hd : cfg.created d with
    | true => exact (uses_of_run h hd).1
    | false => simp [(uses_of_run_closed h hd).1]
  · refine count_close_of_run h rfl ?_
    rcases List.mem_pair.1 hf with rfl | rfl
    · simp [Config.opened, hworker]
    · simp [Config.opened, hworker]
  · refine count_close_of_run h (created_owner f) ?_
    rcases List.mem_pair.1 hf with rfl | rfl
    · simp [Config.opened, hphase, Phase.holds]
    · simp [Config.opened, hphase, Phase.holds]

instance (cfg : Config) (s : Life) (e : Event) : Decidable (cfg.Tidy s e) := by
  cases e <;> unfold Config.Tidy <;> infer_instance

/-- A forked worker serves a request and is shut down with the pool. -/
def forkedLife : List Event :=
  [.boot, .lend, .send 0, .workerReads, .workerWrites, .receive 0, .giveBack 0, .terminate,
    .exit .signal, .wait, .drop]

theorem descriptors_closed_once_forked :
    ∃ s, run (Config.step ⟨.process, .native⟩) start forkedLife = some s ∧
      s.worker = none ∧ s.phase = .ended none ∧
      ClosedOnce ⟨.process, .native⟩ s (Config.log ⟨.process, .native⟩ forkedLife) :=
  ⟨_, rfl, rfl, rfl, descriptors_closed_once ⟨.process, .native⟩ forkedLife _ (by decide) rfl⟩

/-- A thread that is told to stop leaves its loop, and its wrapper goes on. -/
def stoppedLife : List Event := [.boot, .terminate, .workerReads, .loopReturns, .cleanup]

/-- A thread that has ended is found dead, and replaced. -/
def replacedLife : List Event :=
  [.boot, .tell, .workerReads, .loopReturns, .cleanup, .clearFlag, .poll, .drop]

/-- The ends of a native thread are closed twice, and those that the server has of a
thread that is replaced are never closed. -/
theorem closed_twice_and_never :
    (∃ s, run (Config.step ⟨.thread, .native⟩) start stoppedLife = some s ∧
      usesOf (.server, .cmdRead) (Config.log ⟨.thread, .native⟩ stoppedLife) =
        [.read, .close, .close] ∧
      ¬ ClosedOnce ⟨.thread, .native⟩ s (Config.log ⟨.thread, .native⟩ stoppedLife)) ∧
    ∃ s, run (Config.step ⟨.thread, .persistent⟩) start replacedLife = some s ∧
      s.worker = none ∧
      usesOf (.server, .cmdWrite) (Config.log ⟨.thread, .persistent⟩ replacedLife) = [.write] ∧
      ¬ ClosedOnce ⟨.thread, .persistent⟩ s
        (Config.log ⟨.thread, .persistent⟩ replacedLife) := by
  have htwice : usesOf (.server, .cmdRead) (Config.log ⟨.thread, .native⟩ stoppedLife) =
      [.read, .close, .close] := by decide
  have hnever : usesOf (.server, .cmdWrite)
      (Config.log ⟨.thread, .persistent⟩ replacedLife) = [.write] := by decide
  refine ⟨⟨_, rfl, htwice, fun h => ?_⟩, ⟨_, rfl, rfl, hnever, fun h => ?_⟩⟩
  · have hlast := h.last (.server, .cmdRead)
    rw [htwice] at hlast
    exact hlast (by decide)
  · have hcount := h.server rfl .cmdWrite (by decide)
    rw [hnever] at hcount
    cases hcount

end Turbine.Pool.Descriptors
