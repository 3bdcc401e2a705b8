import Mathlib.Logic.Function.Basic
import Turbine.Base.Counting
import Turbine.Base.Runs
import Turbine.Base.Wakeups

/-!
# Turbine.Tasks.Queue

The in-process task queue (crates/turbine-core/src/task_queue.rs) as a
transition system: any number of `push`, `pop` and `clear` calls on any channel
names.  Every access to the channel map, to a channel's queue or to its `Notify`
is one `Event`.  Time is left open: a deadline may pass whenever a pop looks at
the clock.

A `Notified` future takes part in nothing before it is polled for the first time;
then it takes a stored permit, or is parked.  `notify_one` wakes one parked
future; if there is none it stores a permit, and at most one is ever stored.  A
future dropped after it was woken passes its notification on, so leaving the
waiters is one step.

* `covered_step`: the one event that can leave a job behind.
-/

namespace Turbine.Tasks

open Base

/-! ## model -/

/-- `Job`.  `push` records the number of the call that made it; no step depends on it. -/
structure Job where
  push : Nat
  id : UInt64
  payload : List UInt8
deriving DecidableEq, Repr

/-- `QueueError`. -/
inductive QueueError
  | full (channel : String) (capacity : Nat)
  | tooManyChannels (maxChannels : Nat)
deriving DecidableEq, Repr

/-- `Channel`.  All channels have the same capacity.  `appended` records how many
jobs were ever put in; no step depends on it. -/
structure Channel where
  queue : List Job := []
  permit : Bool := false
  appended : Nat := 0
deriving DecidableEq, Repr

/-- The bounds a queue is created with. -/
structure Limits where
  maxChannels : Nat
  channelCapacity : Nat

/-- The two calls that look a channel up or create it. -/
inductive Call
  | push (payload : List UInt8)
  | pop (wait : Nat)
deriving DecidableEq, Repr

/-- How a call ended: what it returned, or, for `clear`, the jobs it removed. -/
inductive Outcome
  | pushed (result : Except QueueError UInt64)
  | popped (job : Option Job)
  | cleared (jobs : List Job)
  | cancelled

/-- Where a call stands.  The first three places are in `channel_or_create`, the
next three in `push`, the others in `pop`; channels go by the order in which they
were created. -/
inductive Task
  | lookup (name : String) (call : Call)
  | counting (name : String) (call : Call)
  | inserting (name : String) (call : Call)
  | numbering (c : Nat) (name : String) (payload : List UInt8)
  | enqueuing (c : Nat) (name : String) (job : Job)
  | notifying (c : Nat) (id : UInt64)
  | fastPath (c : Nat) (wait : Nat)
  /-- At the head of the loop; `looked` is the number of jobs ever appended when
  the queue was last found empty. -/
  | loopTop (c : Nat) (looked : Nat)
  | created (c : Nat)
  | checked (c : Nat)
  | parked (c : Nat)
  | notified (c : Nat)
  | woken (c : Nat)
  | done (outcome : Outcome)

/-- `TaskQueue` and its callers. -/
structure State where
  names : List String := []
  chans : Nat → Channel := fun _ => {}
  nextId : UInt64 := 1
  tasks : List Task := []

/-- The atomic actions.  `notify` and `cancel` name the future that is woken, if
one is. -/
inductive Event
  | push (name : String) (payload : List UInt8)
  | pop (name : String) (wait : Nat)
  | clear (name : String)
  | get (t : Nat)
  | count (t : Nat)
  | insert (t : Nat)
  | fetchId (t : Nat)
  | enqueue (t : Nat)
  | notify (t : Nat) (woken : Option Nat)
  | look (t : Nat)
  | expire (t : Nat)
  | create (t : Nat)
  | poll (t : Nat)
  | timeout (t : Nat)
  | cancel (t : Nat) (woken : Option Nat)
deriving DecidableEq, Repr

def State.goto (s : State) (t : Nat) (τ : Task) : State := { s with tasks := s.tasks.set t τ }

def State.start (s : State) (τ : Task) : State := { s with tasks := s.tasks ++ [τ] }

def State.setChan (s : State) (c : Nat) (chan : Channel) : State :=
  { s with chans := Function.update s.chans c chan }

/-- The call goes on with the channel it was looking for. -/
def Call.begin (c : Nat) (name : String) : Call → Task
  | .push payload => .numbering c name payload
  | .pop wait => .fastPath c wait

/-- The call ends because there are too many channels. -/
def Call.refuse (limits : Limits) : Call → Task
  | .push _ => .done (.pushed (.error (.tooManyChannels limits.maxChannels)))
  | .pop _ => .done (.popped none)

/-- The places at which `pop` looks into the queue: the channel, and where the call
goes if there is no job. -/
def Task.look? (s : State) : Task → Option (Nat × Task)
  | .fastPath c wait =>
    some (c, if wait = 0 then .done (.popped none) else .loopTop c (s.chans c).appended)
  | .created c => some (c, .checked c)
  | .woken c => some (c, .loopTop c (s.chans c).appended)
  | _ => none

def Task.isParked (c : Nat) : Task → Bool
  | .parked c' => c' = c
  | _ => false

/-- `Notify::notify_one`. -/
def notifyOne (s : State) (c : Nat) : Option Nat → Option State
  | some u =>
    match s.tasks[u]? with
    | some (.parked c') => if c' = c then some (s.goto u (.notified c)) else none
    | _ => none
  | none =>
    if s.tasks.any (Task.isParked c) then none
    else some (s.setChan c { s.chans c with permit := true })

/-- One atomic action; `none` if it is not enabled. -/
def step (limits : Limits) (s : State) : Event → Option State
  | .push name payload => some (s.start (.lookup name (.push payload)))
  | .pop name wait => some (s.start (.lookup name (.pop wait)))
  | .clear name =>
    match s.names.idxOf? name with
    | some c => some ((s.setChan c { s.chans c with queue := [] }).start
        (.done (.cleared (s.chans c).queue)))
    | none => some (s.start (.done (.cleared [])))
  | .get t =>
    match s.tasks[t]? with
    | some (.lookup name call) =>
      match s.names.idxOf? name with
      | some c => some (s.goto t (call.begin c name))
      | none => some (s.goto t (.counting name call))
    | _ => none
  | .count t =>
    match s.tasks[t]? with
    | some (.counting name call) =>
      if limits.maxChannels ≤ s.names.length then some (s.goto t (call.refuse limits))
      else some (s.goto t (.inserting name call))
    | _ => none
  | .insert t =>
    match s.tasks[t]? with
    | some (.inserting name call) =>
      match s.names.idxOf? name with
      | some c => some (s.goto t (call.begin c name))
      | none =>
        some ({ s with names := s.names ++ [name] }.goto t (call.begin s.names.length name))
    | _ => none
  | .fetchId t =>
    match s.tasks[t]? with
    | some (.numbering c name payload) =>
      some ({ s with nextId := s.nextId + 1 }.goto t (.enqueuing c name ⟨t, s.nextId, payload⟩))
    | _ => none
  | .enqueue t =>
    match s.tasks[t]? with
    | some (.enqueuing c name job) =>
      if limits.channelCapacity ≤ (s.chans c).queue.length then
        some (s.goto t (.done (.pushed (.error (.full name limits.channelCapacity)))))
      else some ((s.setChan c { s.chans c with
        queue := (s.chans c).queue ++ [job], appended := (s.chans c).appended + 1 }).goto t
          (.notifying c job.id))
    | _ => none
  | .notify t woken =>
    match s.tasks[t]? with
    | some (.notifying c id) => notifyOne (s.goto t (.done (.pushed (.ok id)))) c woken
    | _ => none
  | .look t =>
    match s.tasks[t]?.bind (Task.look? s) with
    | some (c, empty) =>
      match (s.chans c).queue with
      | job :: rest =>
        some ((s.setChan c { s.chans c with queue := rest }).goto t (.done (.popped (some job))))
      | [] => some (s.goto t empty)
    | none => none
  | .expire t =>
    match s.tasks[t]? with
    | some (.loopTop _ _) => some (s.goto t (.done (.popped none)))
    | _ => none
  | .create t =>
    match s.tasks[t]? with
    | some (.loopTop c _) => some (s.goto t (.created c))
    | _ => none
  | .poll t =>
    match s.tasks[t]? with
    | some (.checked c) =>
      if (s.chans c).permit then
        some ((s.setChan c { s.chans c with permit := false }).goto t (.woken c))
      else some (s.goto t (.parked c))
    | some (.notified c) => some (s.goto t (.woken c))
    | _ => none
  | .timeout t =>
    match s.tasks[t]? with
    | some (.parked _) => some (s.goto t (.done (.popped none)))
    | _ => none
  | .cancel t woken =>
    match s.tasks[t]?, woken with
    | some (.parked _), none => some (s.goto t (.done .cancelled))
    | some (.notified c), woken => notifyOne (s.goto t (.done .cancelled)) c woken
    | _, _ => none

/-- A new task queue. -/
def initial : State := {}

/-! ## the branches of a step -/

/-- The outcomes of `notify_one`. -/
inductive Notified (s : State) (c : Nat) : State → Prop
  | woke {u : Nat} (hu : s.tasks[u]? = some (.parked c)) : Notified s c (s.goto u (.notified c))
  | stored (hparked : ∀ τ ∈ s.tasks, τ.isParked c = false) :
      Notified s c (s.setChan c { s.chans c with permit := true })

/-- One atomic step, by branch. -/
inductive Step (limits : Limits) (s : State) : Event → State → Prop
  | push {name : String} {payload : List UInt8} :
      Step limits s (.push name payload) (s.start (.lookup name (.push payload)))
  | pop {name : String} {wait : Nat} :
      Step limits s (.pop name wait) (s.start (.lookup name (.pop wait)))
  | clear {name : String} {c : Nat} (hname : s.names.idxOf? name = some c) :
      Step limits s (.clear name) ((s.setChan c { s.chans c with queue := [] }).start
        (.done (.cleared (s.chans c).queue)))
  | clearNothing {name : String} (hname : s.names.idxOf? name = none) :
      Step limits s (.clear name) (s.start (.done (.cleared [])))
  | found {t c : Nat} {name : String} {call : Call}
      (ht : s.tasks[t]? = some (.lookup name call)) (hname : s.names.idxOf? name = some c) :
      Step limits s (.get t) (s.goto t (call.begin c name))
  | missing {t : Nat} {name : String} {call : Call}
      (ht : s.tasks[t]? = some (.lookup name call)) (hname : s.names.idxOf? name = none) :
      Step limits s (.get t) (s.goto t (.counting name call))
  | refuse {t : Nat} {name : String} {call : Call}
      (ht : s.tasks[t]? = some (.counting name call))
      (hmax : limits.maxChannels ≤ s.names.length) :
      Step limits s (.count t) (s.goto t (call.refuse limits))
  | count {t : Nat} {name : String} {call : Call}
      (ht : s.tasks[t]? = some (.counting name call))
      (hmax : s.names.length < limits.maxChannels) :
      Step limits s (.count t) (s.goto t (.inserting name call))
  | adopt {t c : Nat} {name : String} {call : Call}
      (ht : s.tasks[t]? = some (.inserting name call)) (hname : s.names.idxOf? name = some c) :
      Step limits s (.insert t) (s.goto t (call.begin c name))
  | insert {t : Nat} {name : String} {call : Call}
      (ht : s.tasks[t]? = some (.inserting name call)) (hname : s.names.idxOf? name = none) :
      Step limits s (.insert t)
        ({ s with names := s.names ++ [name] }.goto t (call.begin s.names.length name))
  | fetchId {t c : Nat} {name : String} {payload : List UInt8}
      (ht : s.tasks[t]? = some (.numbering c name payload)) :
      Step limits s (.fetchId t)
        ({ s with nextId := s.nextId + 1 }.goto t (.enqueuing c name ⟨t, s.nextId, payload⟩))
  | full {t c : Nat} {name : String} {job : Job}
      (ht : s.tasks[t]? = some (.enqueuing c name job))
      (hfull : limits.channelCapacity ≤ (s.chans c).queue.length) :
      Step limits s (.enqueue t)
        (s.goto t (.done (.pushed (.error (.full name limits.channelCapacity)))))
  | enqueue {t c : Nat} {name : String} {job : Job}
      (ht : s.tasks[t]? = some (.enqueuing c name job))
      (hroom : (s.chans c).queue.length < limits.channelCapacity) :
      Step limits s (.enqueue t) ((s.setChan c { s.chans c with
        queue := (s.chans c).queue ++ [job], appended := (s.chans c).appended + 1 }).goto t
          (.notifying c job.id))
  | notify {t c : Nat} {id : UInt64} {woken : Option Nat} {s' : State}
      (ht : s.tasks[t]? = some (.notifying c id))
      (hone : Notified (s.goto t (.done (.pushed (.ok id)))) c s') :
      Step limits s (.notify t woken) s'
  | take {t c : Nat} {τ empty : Task} {job : Job} {rest : List Job}
      (ht : s.tasks[t]? = some τ) (hlook : τ.look? s = some (c, empty))
      (hqueue : (s.chans c).queue = job :: rest) :
      Step limits s (.look t)
        ((s.setChan c { s.chans c with queue := rest }).goto t (.done (.popped (some job))))
  | miss {t c : Nat} {τ empty : Task}
      (ht : s.tasks[t]? = some τ) (hlook : τ.look? s = some (c, empty))
      (hqueue : (s.chans c).queue = []) :
      Step limits s (.look t) (s.goto t empty)
  | expire {t c looked : Nat} (ht : s.tasks[t]? = some (.loopTop c looked)) :
      Step limits s (.expire t) (s.goto t (.done (.popped none)))
  | create {t c looked : Nat} (ht : s.tasks[t]? = some (.loopTop c looked)) :
      Step limits s (.create t) (s.goto t (.created c))
  | pollPermit {t c : Nat} (ht : s.tasks[t]? = some (.checked c))
      (hpermit : (s.chans c).permit = true) :
      Step limits s (.poll t)
        ((s.setChan c { s.chans c with permit := false }).goto t (.woken c))
  | park {t c : Nat} (ht : s.tasks[t]? = some (.checked c))
      (hpermit : (s.chans c).permit = false) :
      Step limits s (.poll t) (s.goto t (.parked c))
  | pollWoken {t c : Nat} (ht : s.tasks[t]? = some (.notified c)) :
      Step limits s (.poll t) (s.goto t (.woken c))
  | timeout {t c : Nat} (ht : s.tasks[t]? = some (.parked c)) :
      Step limits s (.timeout t) (s.goto t (.done (.popped none)))
  | cancelParked {t c : Nat} (ht : s.tasks[t]? = some (.parked c)) :
      Step limits s (.cancel t none) (s.goto t (.done .cancelled))
  | cancelWoken {t c : Nat} {woken : Option Nat} {s' : State}
      (ht : s.tasks[t]? = some (.notified c))
      (hone : Notified (s.goto t (.done .cancelled)) c s') :
      Step limits s (.cancel t woken) s'

theorem Notified.of_notifyOne {s s' : State} {c : Nat} {woken : Option Nat}
    (h : notifyOne s c woken = some s') : Notified s c s' := by
  cases woken with
  | some u =>
    simp only [notifyOne] at h
    split at h <;> try contradiction
    case h_1 c' hu =>
      split at h <;> cases h
      case isTrue hc => exact .woke (hc ▸ hu)
  | none =>
    simp only [notifyOne] at h
    split at h
    · contradiction
    case isFalse hany =>
      cases h
      exact .stored (by simpa using hany)

/-- **Inversion.**  An enabled event takes one of the branches. -/
theorem Step.of_step {limits : Limits} {s s' : State} {e : Event}
    (h : step limits s e = some s') : Step limits s e s' := by
  cases e with
  | push name payload => cases h; exact .push
  | pop name wait => cases h; exact .pop
  | clear name =>
    simp only [step] at h
    split at h <;> cases h
    case h_1 c hname => exact .clear hname
    case h_2 hname => exact .clearNothing hname
  | get t =>
    simp only [step] at h
    split at h <;> try contradiction
    case h_1 name call ht =>
      split at h <;> cases h
      case h_1 c hname => exact .found ht hname
      case h_2 hname => exact .missing ht hname
  | count t =>
    simp only [step] at h
    split at h <;> try contradiction
    case h_1 name call ht =>
      split at h <;> cases h
      case isTrue hmax => exact .refuse ht hmax
      case isFalse hmax => exact .count ht (Nat.lt_of_not_le hmax)
  | insert t =>
    simp only [step] at h
    split at h <;> try contradiction
    case h_1 name call ht =>
      split at h <;> cases h
      case h_1 c hname => exact .adopt ht hname
      case h_2 hname => exact .insert ht hname
  | fetchId t =>
    simp only [step] at h
    split at h <;> cases h
    case h_1 c name payload ht => exact .fetchId ht
  | enqueue t =>
    simp only [step] at h
    split at h <;> try contradiction
    case h_1 c name job ht =>
      split at h <;> cases h
      case isTrue hfull => exact .full ht hfull
      case isFalse hroom => exact .enqueue ht (Nat.lt_of_not_le hroom)
  | notify t woken =>
    simp only [step] at h
    split at h <;> try contradiction
    case h_1 c id ht => exact .notify ht (.of_notifyOne h)
  | look t =>
    simp only [step] at h
    split at h <;> try contradiction
    case h_1 c empty hlook =>
      obtain ⟨τ, ht, hlook⟩ := Option.bind_eq_some_iff.1 hlook
      split at h <;> cases h
      case h_1 job rest hqueue => exact .take ht hlook hqueue
      case h_2 hqueue => exact .miss ht hlook hqueue
  | expire t =>
    simp only [step] at h
    split at h <;> cases h
    case h_1 c looked ht => exact .expire ht
  | create t =>
    simp only [step] at h
    split at h <;> cases h
    case h_1 c looked ht => exact .create ht
  | poll t =>
    simp only [step] at h
    split at h <;> try contradiction
    case h_1 c ht =>
      split at h <;> cases h
      case isTrue hpermit => exact .pollPermit ht hpermit
      case isFalse hpermit => exact .park ht (Bool.eq_false_iff.2 hpermit)
    case h_2 c ht => cases h; exact .pollWoken ht
  | timeout t =>
    simp only [step] at h
    split at h <;> cases h
    case h_1 c ht => exact .timeout ht
  | cancel t woken =>
    simp only [step] at h
    split at h <;> try contradiction
    case h_1 c ht => cases h; exact .cancelParked ht
    case h_2 c ht => exact .cancelWoken ht (.of_notifyOne h)

/-! ## what is in flight on a channel -/

/-- What a call counts for in the ledger of its channel. -/
inductive Role
  | polling
  | parked
  | woken
  | notifying
deriving DecidableEq, Repr

/-- The role of a call on channel `c`. -/
def Task.roleOn (c : Nat) : Task → Option Role
  | .checked c' => if c' = c then some .polling else none
  | .parked c' => if c' = c then some .parked else none
  | .notified c' => if c' = c then some .woken else none
  | .woken c' => if c' = c then some .woken else none
  | .notifying c' _ => if c' = c then some .notifying else none
  | _ => none

/-- The number of calls with a role on channel `c`. -/
def State.number (s : State) (c : Nat) (r : Role) : Nat :=
  s.tasks.countP fun τ => τ.roleOn c = some r

/-- The ledger of channel `c`. -/
def State.ledger (s : State) (c : Nat) : Ledger where
  queued := (s.chans c).queue.length
  permits := (s.chans c).permit.toNat
  polling := s.number c .polling
  parked := s.number c .parked
  woken := s.number c .woken
  notifying := s.number c .notifying

/-- The ledger after one call has gone from one role to another. -/
def move (old new : Option Role) (l : Ledger) : Ledger :=
  let count (r : Role) (n : Nat) : Nat :=
    n - (if old = some r then 1 else 0) + (if new = some r then 1 else 0)
  { l with
    polling := count .polling l.polling
    parked := count .parked l.parked
    woken := count .woken l.woken
    notifying := count .notifying l.notifying }

variable {limits : Limits} {s s' : State} {e : Event} {t u c c' : Nat} {τ old : Task} {r : Role}
  {chan : Channel}

@[simp] theorem goto_chans : (s.goto t τ).chans = s.chans := rfl

theorem number_pos (ht : s.tasks[t]? = some τ) (hrole : τ.roleOn c = some r) : 0 < s.number c r :=
  List.countP_pos_iff.2 ⟨τ, List.mem_of_getElem? ht, by simpa using hrole⟩

theorem number_goto (ht : s.tasks[t]? = some old) :
    (s.goto t τ).number c r = s.number c r - (if old.roleOn c = some r then 1 else 0) +
      (if τ.roleOn c = some r then 1 else 0) := by
  have hset : (s.goto t τ).number c r + (if old.roleOn c = some r then 1 else 0) =
      s.number c r + (if τ.roleOn c = some r then 1 else 0) := by
    simpa [State.number, State.goto] using
      countP_set_add (b := τ) (fun τ : Task => decide (τ.roleOn c = some r)) ht
  have hpos : old.roleOn c = some r → 0 < s.number c r := number_pos ht
  split <;> simp_all
  omega

/-- Moving one call. -/
theorem ledger_goto (ht : s.tasks[t]? = some old) :
    (s.goto t τ).ledger c = move (old.roleOn c) (τ.roleOn c) (s.ledger c) := by
  simp only [State.ledger, number_goto ht, move]
  rfl

theorem ledger_goto_same (ht : s.tasks[t]? = some old) (h : τ.roleOn c = old.roleOn c) :
    (s.goto t τ).ledger c = s.ledger c := by
  have hnumber : ∀ r, (s.goto t τ).number c r = s.number c r := by
    intro r
    have hpos : old.roleOn c = some r → 0 < s.number c r := number_pos ht
    rw [number_goto ht, h]
    split
    case isTrue hrole => exact Nat.sub_add_cancel (hpos hrole)
    case isFalse => rfl
  simp only [State.ledger, hnumber]
  rfl

theorem ledger_start (h : τ.roleOn c = none) : (s.start τ).ledger c = s.ledger c := by
  simp [State.ledger, State.number, State.start, h]

theorem ledger_setChan :
    (s.setChan c chan).ledger c =
      { s.ledger c with queued := chan.queue.length, permits := chan.permit.toNat } := by
  simp [State.ledger, State.setChan, State.number]

theorem ledger_setPermit {b : Bool} : (s.setChan c { s.chans c with permit := b }).ledger c =
      { s.ledger c with permits := b.toNat } := ledger_setChan

theorem ledger_setQueue {queue : List Job} :
    (s.setChan c { s.chans c with queue := queue }).ledger c =
      { s.ledger c with queued := queue.length } := ledger_setChan

theorem ledger_appendJob {job : Job} :
    (s.setChan c { s.chans c with
      queue := (s.chans c).queue ++ [job], appended := (s.chans c).appended + 1 }).ledger c =
        { s.ledger c with queued := (s.ledger c).queued + 1 } := by
  rw [ledger_setChan]
  simp [State.ledger]

theorem ledger_setChan_of_ne (h : c' ≠ c) : (s.setChan c chan).ledger c' = s.ledger c' := by
  simp [State.ledger, State.setChan, State.number, h]

/-- The three places at which `pop` looks into the queue. -/
theorem look?_cases (c' : Nat) {empty : Task} (h : τ.look? s = some (c, empty)) :
    (τ.roleOn c' = none ∧ empty.roleOn c' = none) ∨ (τ = .created c ∧ empty = .checked c) ∨
      (τ = .woken c ∧ empty = .loopTop c (s.chans c).appended) := by
  cases τ <;> simp only [Task.look?, Option.some.injEq, Prod.mk.injEq, reduceCtorEq] at h
  case fastPath d wait =>
    obtain ⟨rfl, rfl⟩ := h
    refine .inl ⟨rfl, ?_⟩
    split <;> rfl
  case created d =>
    obtain ⟨rfl, rfl⟩ := h
    exact .inr (.inl ⟨rfl, rfl⟩)
  case woken d =>
    obtain ⟨rfl, rfl⟩ := h
    exact .inr (.inr ⟨rfl, rfl⟩)

theorem roleOn_begin {call : Call} {name : String} : (call.begin c' name).roleOn c = none := by
  cases call <;> rfl

theorem roleOn_refuse {call : Call} : (call.refuse limits).roleOn c = none := by
  cases call <;> rfl

/-! ## no job is left behind -/

theorem number_parked_eq_zero (h : ∀ τ ∈ s.tasks, τ.isParked c = false) :
    s.number c .parked = 0 := by
  refine List.countP_eq_zero.2 fun τ hτ hrole => ?_
  have hparked := h τ hτ
  rw [decide_eq_true_iff] at hrole
  cases τ <;> simp only [Task.roleOn, Option.ite_none_right_eq_some, reduceCtorEq, and_false,
    Option.some.injEq] at hrole
  case parked c' => exact of_decide_eq_false hparked hrole.1

theorem ledger_notified_of_ne (hone : Notified s c s') (hc : c' ≠ c) :
    s'.ledger c' = s.ledger c' := by
  cases hone with
  | woke hu => exact ledger_goto_same hu (by simp [Task.roleOn, Ne.symm hc])
  | stored => exact ledger_setChan_of_ne hc

/-- `notify_one`, with the notification counted as pending before. -/
theorem covered_notified (hone : Notified s c s')
    (h : Ledger.Covered { s.ledger c with notifying := (s.ledger c).notifying + 1 })
    (hpolling : (s.chans c).permit = true → s.number c .polling ≤ 1) :
    (s'.ledger c).Covered := by
  cases hone with
  | woke hu =>
    have hparked : 0 < s.number c .parked := number_pos hu (by simp [Task.roleOn])
    rw [ledger_goto hu]
    simpa [Task.roleOn, move] using h.wake hparked (Nat.succ_pos _)
  | stored hparked =>
    have hnone : s.number c .parked = 0 := number_parked_eq_zero hparked
    cases hpermit : (s.chans c).permit with
    | true =>
      have hstored : (s.ledger c).permits = 1 := by simp [State.ledger, hpermit]
      have hlose := h.lose hnone hstored (hpolling hpermit)
      rw [ledger_setPermit]
      simpa [hstored] using hlose
    | false =>
      have hfree : (s.ledger c).permits = 0 := by simp [State.ledger, hpermit]
      rw [ledger_setPermit]
      simpa using h.store hnone hfree (Nat.succ_pos _)

/-- The channel on which the event calls `notify_one`. -/
def notifiedBy (s : State) : Event → Option Nat
  | .notify t _ =>
    match s.tasks[t]? with
    | some (.notifying c _) => some c
    | _ => none
  | .cancel t _ =>
    match s.tasks[t]? with
    | some (.notified c) => some c
    | _ => none
  | _ => none

/-- A `notify_one` that finds a permit is called only while at most one consumer is
about to poll. -/
def NotifiesOne (s : State) (e : Event) : Prop :=
  ∀ c ∈ notifiedBy s e, (s.chans c).permit = true → s.number c .polling ≤ 1

instance : Decidable (NotifiesOne s e) :=
  inferInstanceAs (Decidable (∀ c ∈ notifiedBy s e,
    (s.chans c).permit = true → s.number c .polling ≤ 1))

theorem covered_goto_same (h : (s.ledger c).Covered) (ht : s.tasks[t]? = some old)
    (hrole : τ.roleOn c = old.roleOn c) : ((s.goto t τ).ledger c).Covered := by
  rw [ledger_goto_same ht hrole]
  exact h

/-- **Step lemma.** -/
theorem covered_step (h : ∀ c, (s.ledger c).Covered) (hs : Step limits s e s')
    (hone : NotifiesOne s e) : ∀ c, (s'.ledger c).Covered := by
  intro c
  cases hs with
  | push | pop | clearNothing =>
    rw [ledger_start rfl]
    exact h c
  | @clear name d hname =>
    rw [ledger_start rfl]
    by_cases hc : c = d
    · subst hc
      rw [ledger_setChan]
      exact (h c).shrink (Nat.zero_le _) rfl rfl (Nat.le_refl _) rfl rfl
    · rw [ledger_setChan_of_ne hc]
      exact h c
  | found ht | adopt ht => exact covered_goto_same (h c) ht roleOn_begin
  | insert ht => exact covered_goto_same (s := { s with names := _ }) (h c) ht roleOn_begin
  | refuse ht => exact covered_goto_same (h c) ht roleOn_refuse
  | fetchId ht => exact covered_goto_same (s := { s with nextId := _ }) (h c) ht rfl
  | missing ht | count ht | full ht | expire ht | create ht =>
    exact covered_goto_same (h c) ht rfl
  | @enqueue t d name job ht hroom =>
    rw [ledger_goto (s := s.setChan d _) ht]
    by_cases hc : c = d
    · subst hc
      rw [ledger_appendJob]
      simpa [Task.roleOn, move] using (h c).append
    · rw [ledger_setChan_of_ne hc]
      simpa [Task.roleOn, move, Ne.symm hc] using h c
  | @notify t d id woken s' ht hnotified =>
    by_cases hc : c = d
    · subst hc
      have hpending : 0 < (s.ledger c).notifying := number_pos ht (by simp [Task.roleOn])
      refine covered_notified hnotified ?_ ?_
      · rw [ledger_goto ht]
        simpa [Task.roleOn, move, Nat.sub_add_cancel hpending] using h c
      · rw [number_goto ht, goto_chans]
        simpa [Task.roleOn] using hone c (by simp [notifiedBy, ht])
    · rw [ledger_notified_of_ne hnotified hc]
      exact covered_goto_same (h c) ht (by simp [Task.roleOn, Ne.symm hc])
  | @take t d τ empty job rest ht hlook hqueue =>
    have hlen : (s.ledger d).queued = rest.length + 1 := by simp [State.ledger, hqueue]
    rw [ledger_goto (s := s.setChan d _) ht]
    by_cases hc : c = d
    · subst hc
      rw [ledger_setQueue]
      obtain ⟨hrole, -⟩ | ⟨rfl, -⟩ | ⟨rfl, -⟩ := look?_cases c hlook
      · rw [hrole]
        exact (h c).shrink (by simp [move, hlen]) rfl rfl (Nat.le_refl _) rfl rfl
      · exact (h c).shrink (by simp [move, hlen]) rfl rfl (Nat.le_refl _) rfl rfl
      · have hwoken : 0 < (s.ledger c).woken := number_pos ht (by simp [Task.roleOn])
        simpa [Task.roleOn, move, hlen] using (h c).handle hwoken
    · rw [ledger_setChan_of_ne hc]
      obtain ⟨hrole, -⟩ | ⟨rfl, -⟩ | ⟨rfl, -⟩ := look?_cases c hlook
      · rw [hrole]
        exact h c
      · exact h c
      · simpa [Task.roleOn, move, Ne.symm hc] using h c
  | @miss t d τ empty ht hlook hqueue =>
    have hlen : (s.ledger d).queued = 0 := by simp [State.ledger, hqueue]
    obtain ⟨hrole, hempty⟩ | ⟨rfl, rfl⟩ | ⟨rfl, rfl⟩ := look?_cases c hlook
    · exact covered_goto_same (h c) ht (by rw [hrole, hempty])
    · rw [ledger_goto ht]
      by_cases hc : c = d
      · subst hc
        simpa [Task.roleOn, move] using (h c).look hlen
      · simpa [Task.roleOn, move, Ne.symm hc] using h c
    · rw [ledger_goto ht]
      by_cases hc : c = d
      · subst hc
        have hwoken : 0 < (s.ledger c).woken := number_pos ht (by simp [Task.roleOn])
        simpa [Task.roleOn, move, hlen] using (h c).handle hwoken
      · simpa [Task.roleOn, move, Ne.symm hc] using h c
  | @pollPermit t d ht hpermit =>
    rw [ledger_goto (s := s.setChan d _) ht]
    by_cases hc : c = d
    · subst hc
      have hstored : (s.ledger c).permits = 1 := by simp [State.ledger, hpermit]
      have hpolling : 0 < (s.ledger c).polling := number_pos ht (by simp [Task.roleOn])
      rw [ledger_setPermit]
      simpa [Task.roleOn, move] using (h c).take hstored hpolling
    · rw [ledger_setChan_of_ne hc]
      simpa [Task.roleOn, move, Ne.symm hc] using h c
  | @park t d ht hpermit =>
    rw [ledger_goto ht]
    by_cases hc : c = d
    · subst hc
      have hfree : (s.ledger c).permits = 0 := by simp [State.ledger, hpermit]
      have hpolling : 0 < (s.ledger c).polling := number_pos ht (by simp [Task.roleOn])
      simpa [Task.roleOn, move] using (h c).park hfree hpolling
    · simpa [Task.roleOn, move, Ne.symm hc] using h c
  | pollWoken ht => exact covered_goto_same (h c) ht rfl
  | @timeout t d ht | @cancelParked t d ht =>
    rw [ledger_goto ht]
    by_cases hc : c = d
    · subst hc
      simp only [Task.roleOn, move]
      exact (h c).shrink (Nat.le_refl _) rfl rfl (Nat.sub_le _ _) rfl rfl
    · simpa [Task.roleOn, move, Ne.symm hc] using h c
  | @cancelWoken t d woken s' ht hnotified =>
    by_cases hc : c = d
    · subst hc
      have hwoken : 0 < (s.ledger c).woken := number_pos ht (by simp [Task.roleOn])
      refine covered_notified hnotified ?_ ?_
      · rw [ledger_goto ht]
        simpa [Task.roleOn, move] using (h c).passOn hwoken
      · rw [number_goto ht, goto_chans]
        simpa [Task.roleOn] using hone c (by simp [notifiedBy, ht])
    · rw [ledger_notified_of_ne hnotified hc]
      exact covered_goto_same (h c) ht (by simp [Task.roleOn, Ne.symm hc])

/-! ## deadlines -/

/-- A pop at the head of its loop found the queue empty, and it still is if no job
was appended since. -/
def Task.LookedEmpty (s : State) : Task → Prop
  | .loopTop c looked => looked ≤ (s.chans c).appended ∧
      (looked = (s.chans c).appended → (s.chans c).queue = [])
  | _ => True

def State.LookedEmpty (s : State) : Prop := ∀ τ ∈ s.tasks, τ.LookedEmpty s

theorem lookedEmpty_goto (h : s.LookedEmpty) (hτ : τ.LookedEmpty s) : (s.goto t τ).LookedEmpty := by
  intro σ hσ
  obtain hσ | rfl := List.mem_or_eq_of_mem_set hσ
  · exact h σ hσ
  · exact hτ

theorem lookedEmpty_start (h : s.LookedEmpty) (hτ : τ.LookedEmpty s) : (s.start τ).LookedEmpty := by
  intro σ hσ
  rw [State.start, List.mem_append, List.mem_singleton] at hσ
  obtain hσ | rfl := hσ
  · exact h σ hσ
  · exact hτ

/-- A channel whose queue shrinks, or grows with its count. -/
theorem lookedEmpty_setChan (h : s.LookedEmpty) (hle : (s.chans c).appended ≤ chan.appended)
    (hqueue : chan.appended = (s.chans c).appended → (s.chans c).queue = [] → chan.queue = []) :
    (s.setChan c chan).LookedEmpty := by
  intro σ hσ
  have hold := h σ hσ
  cases σ with
  | loopTop d looked =>
    by_cases hd : d = c
    · subst hd
      simp only [Task.LookedEmpty, State.setChan, Function.update_self] at hold ⊢
      exact ⟨Nat.le_trans hold.1 hle, fun heq =>
        hqueue (by omega) (hold.2 (by omega))⟩
    · simpa [Task.LookedEmpty, State.setChan, hd] using hold
  | _ => trivial

theorem lookedEmpty_notified (h : s.LookedEmpty) (hone : Notified s c s') : s'.LookedEmpty := by
  cases hone with
  | woke hu => exact lookedEmpty_goto h trivial
  | stored => exact lookedEmpty_setChan h (Nat.le_refl _) fun _ => id

/-- **Step lemma.** -/
theorem lookedEmpty_step (h : s.LookedEmpty) (hs : Step limits s e s') : s'.LookedEmpty := by
  cases hs with
  | push | pop | clearNothing => exact lookedEmpty_start h trivial
  | clear =>
    exact lookedEmpty_start (lookedEmpty_setChan h (Nat.le_refl _) fun _ _ => rfl) trivial
  | @found t c name call | @adopt t c name call | @insert t name call =>
    exact lookedEmpty_goto h (by cases call <;> trivial)
  | @refuse t name call => exact lookedEmpty_goto h (by cases call <;> trivial)
  | enqueue =>
    refine lookedEmpty_goto (lookedEmpty_setChan h (Nat.le_succ _) fun heq => ?_) trivial
    exact absurd heq (Nat.succ_ne_self _)
  | notify ht hone =>
    refine lookedEmpty_notified ?_ hone
    exact lookedEmpty_goto h trivial
  | take ht hlook hqueue =>
    refine lookedEmpty_goto (lookedEmpty_setChan h (Nat.le_refl _) fun _ hempty => ?_) trivial
    rw [hqueue] at hempty
    contradiction
  | @miss t c τ empty ht hlook hqueue =>
    refine lookedEmpty_goto h ?_
    cases τ <;> simp only [Task.look?, Option.some.injEq, Prod.mk.injEq, reduceCtorEq] at hlook
    case fastPath d wait =>
      obtain ⟨rfl, rfl⟩ := hlook
      split
      · trivial
      · exact ⟨Nat.le_refl _, fun _ => hqueue⟩
    case created d =>
      obtain ⟨rfl, rfl⟩ := hlook
      trivial
    case woken d =>
      obtain ⟨rfl, rfl⟩ := hlook
      exact ⟨Nat.le_refl _, fun _ => hqueue⟩
  | pollPermit =>
    exact lookedEmpty_goto (lookedEmpty_setChan h (Nat.le_refl _) fun _ => id) trivial
  | cancelWoken ht hone =>
    refine lookedEmpty_notified ?_ hone
    exact lookedEmpty_goto h trivial
  | missing | count | fetchId | full | expire | create | park | pollWoken | timeout
  | cancelParked => exact lookedEmpty_goto h trivial

/-- The channel on which a parked pop gives up. -/
def timedOutOn (s : State) : Event → Option Nat
  | .timeout t =>
    match s.tasks[t]? with
    | some (.parked c) => some c
    | _ => none
  | _ => none

/-- The channel on which a pop finds its deadline passed at the head of the loop,
and what had been appended when it last looked into the queue. -/
def expiredOn (s : State) : Event → Option (Nat × Nat)
  | .expire t =>
    match s.tasks[t]? with
    | some (.loopTop c looked) => some (c, looked)
    | _ => none
  | _ => none

theorem parked_of_timedOutOn (h : timedOutOn s e = some c) :
    ∃ t : Nat, s.tasks[t]? = some (.parked c) := by
  cases e <;> simp only [timedOutOn, reduceCtorEq] at h
  case timeout t =>
    split at h <;> cases h
    case h_1 ht => exact ⟨t, ht⟩

theorem loopTop_of_expiredOn {looked : Nat} (h : expiredOn s e = some (c, looked)) :
    ∃ t : Nat, s.tasks[t]? = some (.loopTop c looked) := by
  cases e <;> simp only [expiredOn, reduceCtorEq] at h
  case expire t =>
    split at h <;> cases h
    case h_1 ht => exact ⟨t, ht⟩

/-- A parked pop gives up only while no wake-up is under way, and a pop at the head
of its loop only if no job was appended since it last looked. -/
def GivesUpQuietly (s : State) (e : Event) : Prop :=
  (∀ c ∈ timedOutOn s e, s.number c .woken = 0 ∧ s.number c .notifying = 0) ∧
  ∀ p ∈ expiredOn s e, p.2 = (s.chans p.1).appended

instance : Decidable (GivesUpQuietly s e) :=
  inferInstanceAs (Decidable ((∀ c ∈ timedOutOn s e,
    s.number c .woken = 0 ∧ s.number c .notifying = 0) ∧
      ∀ p ∈ expiredOn s e, p.2 = (s.chans p.1).appended))

/-! ## sleeping on work -/

/-- A job is queued, a pop is parked, and no permit and no wake-up is there. -/
def State.SleepsOnWork (s : State) (c : Nat) : Prop :=
  (s.chans c).queue ≠ [] ∧ 0 < s.number c .parked ∧ (s.chans c).permit = false ∧
    s.number c .woken = 0

instance : Decidable (s.SleepsOnWork c) :=
  inferInstanceAs (Decidable ((s.chans c).queue ≠ [] ∧ 0 < s.number c .parked ∧
    (s.chans c).permit = false ∧ s.number c .woken = 0))

/-- A pop returns `None` for lack of time while a job is queued. -/
def GivesUpOnWork (s : State) (e : Event) : Prop :=
  (∃ c ∈ timedOutOn s e, (s.chans c).queue ≠ []) ∨
  ∃ p ∈ expiredOn s e, (s.chans p.1).queue ≠ []

theorem not_sleepsOnWork (h : (s.ledger c).Covered) (hnotifying : s.number c .notifying = 0) :
    ¬ s.SleepsOnWork c := by
  rintro ⟨hqueue, hparked, hpermit, hwoken⟩
  have hzero := h.queued_eq_zero hparked hwoken hnotifying (by simp [State.ledger, hpermit])
  exact hqueue (List.length_eq_zero_iff.1 hzero)

theorem not_givesUpOnWork (h : ∀ c, (s.ledger c).Covered) (hlooked : s.LookedEmpty)
    (hquiet : GivesUpQuietly s e) : ¬ GivesUpOnWork s e := by
  rintro (⟨c, hc, hqueue⟩ | ⟨⟨c, looked⟩, hc, hqueue⟩)
  · obtain ⟨hwoken, hnotifying⟩ := hquiet.1 c hc
    obtain ⟨t, ht⟩ := parked_of_timedOutOn hc
    have hparked : 0 < (s.ledger c).parked := number_pos ht (by simp [Task.roleOn])
    -- a parked pop and a stored permit do not go together
    have hpermits : (s.ledger c).permits = 0 := by
      have hidle := (h c).idle
      omega
    have hzero := (h c).queued_eq_zero hparked hwoken hnotifying hpermits
    exact hqueue (List.length_eq_zero_iff.1 hzero)
  · obtain ⟨t, ht⟩ := loopTop_of_expiredOn hc
    exact hqueue ((hlooked _ (List.mem_of_getElem? ht)).2 (hquiet.2 _ hc))

theorem covered_initial : (initial.ledger c).Covered := by
  constructor <;> simp [State.ledger, State.number, initial]

/-- **No sleeping on work.**  In every run in which no notification is lost while
several consumers are about to poll and pops give up quietly, no channel has a job
and a parked pop but no permit and no wake-up, unless a push is just about to
notify; and no pop returns `None` for lack of time while a job is queued. -/
theorem no_pop_sleeps_on_work (limits : Limits) (es : List Event)
    (h : Guarded (step limits) (fun s e => NotifiesOne s e ∧ GivesUpQuietly s e) initial es) :
    Along (step limits) (fun s e s' =>
      (∀ c, s'.number c .notifying = 0 → ¬ s'.SleepsOnWork c) ∧ ¬ GivesUpOnWork s e)
        initial es := by
  refine along_of_guarded
    (I := fun s : State => (∀ c, (s.ledger c).Covered) ∧ s.LookedEmpty) ?_ ?_ h
  · rintro s e s' ⟨hcovered, hlooked⟩ ⟨hone, hquiet⟩ hs
    have hstep := Step.of_step hs
    have hcovered' := covered_step hcovered hstep hone
    exact ⟨⟨hcovered', lookedEmpty_step hlooked hstep⟩,
      fun c hnotifying => not_sleepsOnWork (hcovered' c) hnotifying,
      not_givesUpOnWork hcovered hlooked hquiet⟩
  · exact ⟨fun c => covered_initial, List.forall_mem_nil _⟩

/-- A pop parks on a new channel, a push wakes it, and another pop gives up after
the queue is empty again. -/
def wokenInTime : List Event :=
  [.pop "mail" 500, .get 0, .count 0, .insert 0, .look 0, .create 0, .look 0, .poll 0,
    .push "mail" [1], .get 1, .fetchId 1, .enqueue 1, .notify 1 (some 0), .poll 0, .look 0,
    .pop "mail" 500, .get 2, .look 2, .create 2, .look 2, .poll 2, .timeout 2]

theorem no_pop_sleeps_on_work_wokenInTime : (run (step ⟨8, 16⟩) initial wokenInTime).isSome ∧
      Along (step ⟨8, 16⟩) (fun s e s' =>
        (∀ c, s'.number c .notifying = 0 → ¬ s'.SleepsOnWork c) ∧ ¬ GivesUpOnWork s e)
          initial wokenInTime := ⟨by decide, no_pop_sleeps_on_work ⟨8, 16⟩ wokenInTime (by decide)⟩

/-- Two pops have found the queue empty; two pushes come before they poll, and the
second push finds a permit.  The first pop takes the permit, the second parks. -/
def lostNotification : List Event :=
  [.pop "mail" 500, .get 0, .count 0, .insert 0, .look 0, .create 0, .look 0,
    .pop "mail" 500, .get 1, .look 1, .create 1, .look 1,
    .push "mail" [1], .get 2, .fetchId 2, .enqueue 2, .notify 2 none,
    .push "mail" [2], .get 3, .fetchId 3, .enqueue 3, .notify 3 none, .poll 0, .look 0, .poll 1]

/-- The second job stays in the queue with no push under way, and the second pop
sleeps until its time is over. -/
theorem pop_sleeps_on_work :
    ∃ s, run (step ⟨8, 16⟩) initial lostNotification = some s ∧ s.SleepsOnWork 0 ∧
      s.number 0 .notifying = 0 ∧ (s.chans 0).queue = [⟨3, 2, [2]⟩] ∧
      GivesUpOnWork s (.timeout 1) ∧
      (step ⟨8, 16⟩ s (.timeout 1)).map (fun s' => ((s'.chans 0).queue)) = some [⟨3, 2, [2]⟩] := by
  refine ⟨_, rfl, ?_, ?_, ?_, ?_, ?_⟩
  · decide
  · decide
  · decide
  · exact .inl ⟨0, by decide, by decide⟩
  · decide

end Turbine.Tasks
