import Mathlib.Data.List.Nodup
import Turbine.Tasks.Queue

/-!
# Turbine.Tasks.Conservation

Where the jobs of the task queue are.  A run of `Tasks.Queue` leaves a log: which
calls were made, which call took which id, and which call appended or removed which
job.  What was removed from a channel, followed by what is in its queue, is what was
appended to it (`Recorded.order`), and the log tells where every call stands
(`Task.Explained`).

* `conserved`: what holds in every state a run can reach.
-/

namespace Turbine.Tasks

open Base

/-! ## a table of names that only grows -/

section Names

variable {α : Type} [BEq α] {a b : α} {i : Nat} {l l' : List α}

theorem idxOf?_of_prefix (hl : l <+: l') (h : l.idxOf? a = some i) : l'.idxOf? a = some i := by
  obtain ⟨m, rfl⟩ := hl
  have hfind : l.findIdx? (· == a) = some i := h
  rw [List.idxOf?, List.findIdx?_append, hfind]
  rfl

variable [LawfulBEq α]

theorem idxOf?_concat (h : l.idxOf? a = none) : (l ++ [a]).idxOf? a = some l.length := by
  have hfind : l.findIdx? (· == a) = none := h
  rw [List.idxOf?, List.findIdx?_append, hfind]
  simp

theorem getElem?_of_idxOf? (h : l.idxOf? a = some i) : l[i]? = some a := by
  obtain ⟨hi, ha, -⟩ := List.idxOf?_eq_some_iff.1 h
  rw [List.getElem?_eq_getElem hi, ha]

theorem idxOf?_inj (ha : l.idxOf? a = some i) (hb : l.idxOf? b = some i) : a = b :=
  Option.some.inj ((getElem?_of_idxOf? ha).symm.trans (getElem?_of_idxOf? hb))

end Names

/-! ## the log of a run -/

/-- A call puts a job into a channel, or takes one out. -/
structure Move where
  task : Nat
  chan : Nat
  job : Job
deriving DecidableEq, Repr

/-- What is recorded.  The calls are numbered in the order in which they are made. -/
inductive Entry
  | called (e : Event)
  | numbered (t : Nat) (id : UInt64)
  | appended (m : Move)
  | removed (m : Move)
deriving DecidableEq, Repr

/-- What an event records; only `push`, `pop` and `clear` make a call. -/
def record (limits : Limits) (s : State) : Event → List Entry
  | .push name payload => [.called (.push name payload)]
  | .pop name wait => [.called (.pop name wait)]
  | .clear name =>
    .called (.clear name) ::
      match s.names.idxOf? name with
      | some c => (s.chans c).queue.map fun job => .removed ⟨s.tasks.length, c, job⟩
      | none => []
  | .fetchId t => [.numbered t s.nextId]
  | .enqueue t =>
    match s.tasks[t]? with
    | some (.enqueuing c _ job) =>
      if limits.channelCapacity ≤ (s.chans c).queue.length then [] else [.appended ⟨t, c, job⟩]
    | _ => []
  | .look t =>
    match s.tasks[t]?.bind (Task.look? s) with
    | some (c, _) =>
      match (s.chans c).queue with
      | job :: _ => [.removed ⟨t, c, job⟩]
      | [] => []
    | none => []
  | _ => []

/-- The log of a run. -/
def history (limits : Limits) (es : List Event) : List Entry :=
  trace (step limits) (record limits) initial es

/-- The calls made. -/
def calls (log : List Entry) : List Event :=
  log.filterMap fun
    | .called e => some e
    | _ => none

/-- The ids handed out. -/
def ids (log : List Entry) : List (Nat × UInt64) :=
  log.filterMap fun
    | .numbered t id => some (t, id)
    | _ => none

/-- The jobs put into channels. -/
def appends (log : List Entry) : List Move :=
  log.filterMap fun
    | .appended m => some m
    | _ => none

/-- The jobs taken out of channels. -/
def removals (log : List Entry) : List Move :=
  log.filterMap fun
    | .removed m => some m
    | _ => none

/-- The jobs that were moved on channel `c`, in order. -/
def jobsOn (c : Nat) (moves : List Move) : List Job := (moves.filter (·.chan = c)).map (·.job)

/-- The task an entry is about; a new call has none yet. -/
def Entry.task : Entry → Option Nat
  | .called _ => none
  | .numbered t _ => some t
  | .appended m => some m.task
  | .removed m => some m.task

/-- What the log says of task `t`. -/
def trail (t : Nat) (log : List Entry) : List Entry := log.filter (·.task = some t)

/-! ## places -/

/-- Where a job can be: at a position of a queue, with the pop that returned it, or
among the jobs that a clear removed. -/
inductive Place
  | queued (c i : Nat)
  | returned (t : Nat)
  | cleared (t i : Nat)
deriving DecidableEq, Repr

def State.jobAt (s : State) : Place → Option Job
  | .queued c i => (s.chans c).queue[i]?
  | .returned t =>
    match s.tasks[t]? with
    | some (.done (.popped job)) => job
    | _ => none
  | .cleared t i =>
    match s.tasks[t]? with
    | some (.done (.cleared jobs)) => jobs[i]?
    | _ => none

/-- The channel a place belongs to: that of the queue, or the one that the pop or
the clear was called with. -/
def Place.channel (s : State) (log : List Entry) : Place → Option String
  | .queued c _ => s.names[c]?
  | .returned t =>
    match (calls log)[t]? with
    | some (.pop name _) => some name
    | _ => none
  | .cleared t _ =>
    match (calls log)[t]? with
    | some (.clear name) => some name
    | _ => none

/-- Call `t` is a push to the channel, and it has appended its job: it returned the
id, or is about to. -/
def Pushed (s : State) (log : List Entry) (t : Nat) (name : String) (job : Job) : Prop :=
  job.push = t ∧ (calls log)[t]? = some (.push name job.payload) ∧ (t, job.id) ∈ ids log ∧
    (s.tasks[t]? = some (.done (.pushed (.ok job.id))) ∨
      ∃ c, s.tasks[t]? = some (.notifying c job.id))

/-- What holds of a state and the log of the run that led to it. -/
structure Conserved (limits : Limits) (s : State) (log : List Entry) : Prop where
  /-- No push takes two ids, and they are handed out one after the other, from 1 on; so they
  come again only after 2^64 pushes. -/
  numbered : ((ids log).map Prod.fst).Nodup ∧
    (ids log).map Prod.snd = (List.range (ids log).length).map fun k => .ofNat (k + 1)
  /-- The job of a push that returned `Ok` is in one place of its channel, and in no
  other. -/
  placed : ∀ (t : Nat) (name : String) (payload : List UInt8) (id : UInt64),
    (calls log)[t]? = some (.push name payload) →
    s.tasks[t]? = some (.done (.pushed (.ok id))) →
    ∃ p, s.jobAt p = some ⟨t, id, payload⟩ ∧ p.channel s log = some name ∧
      ∀ q job, s.jobAt q = some job → job.push = t → q = p
  /-- The job of a push that returned `Err` is in none. -/
  refused : ∀ (t : Nat) (error : QueueError),
    s.tasks[t]? = some (.done (.pushed (.error error))) →
    ∀ p job, s.jobAt p = some job → job.push ≠ t
  /-- Every job in a place was put into that channel by a push that did not fail. -/
  pushed : ∀ p job, s.jobAt p = some job →
    ∃ t name, Pushed s log t name job ∧ p.channel s log = some name
  /-- The jobs removed from a channel, followed by those still in its queue, are the
  jobs appended to it, in order. -/
  order : ∀ c, jobsOn c (appends log) = jobsOn c (removals log) ++ (s.chans c).queue
  capacity : ∀ c, (s.chans c).queue.length ≤ limits.channelCapacity

/-! ## views of the log -/

variable {limits : Limits} {s s' : State} {e : Event} {t u c : Nat} {τ old : Task}
  {log new : List Entry} {m : Move} {names names' : List String} {tasks : List Task} {call : Event}

@[simp] theorem calls_append : calls (log ++ new) = calls log ++ calls new := List.filterMap_append

@[simp] theorem ids_append : ids (log ++ new) = ids log ++ ids new := List.filterMap_append

@[simp] theorem appends_append : appends (log ++ new) = appends log ++ appends new :=
  List.filterMap_append

@[simp] theorem removals_append : removals (log ++ new) = removals log ++ removals new :=
  List.filterMap_append

@[simp] theorem jobsOn_append {l l' : List Move} :
    jobsOn c (l ++ l') = jobsOn c l ++ jobsOn c l' := by
  simp [jobsOn]

@[simp] theorem trail_append : trail t (log ++ new) = trail t log ++ trail t new :=
  List.filter_append ..

theorem mem_view {β : Type} {view : Entry → Option β} {b : β} {entry : Entry}
    (h : ∀ x, view x = some b ↔ x = entry) : b ∈ log.filterMap view ↔ entry ∈ log := by
  simp [List.mem_filterMap, h]

theorem mem_ids {id : UInt64} : (t, id) ∈ ids log ↔ .numbered t id ∈ log :=
  mem_view fun x => by cases x <;> simp

theorem mem_appends : m ∈ appends log ↔ .appended m ∈ log := mem_view fun x => by cases x <;> simp

theorem mem_removals : m ∈ removals log ↔ .removed m ∈ log := mem_view fun x => by cases x <;> simp

theorem mem_jobsOn {job : Job} {moves : List Move} :
    job ∈ jobsOn c moves ↔ ∃ m ∈ moves, m.chan = c ∧ m.job = job := by
  simp only [jobsOn, List.mem_map, List.mem_filter, decide_eq_true_eq, and_assoc]

theorem mem_trail {x : Entry} : x ∈ trail t log ↔ x ∈ log ∧ x.task = some t := by
  simp [trail]

/-- Entries about one task are no calls, and the whole of them is its trail. -/
theorem calls_of_task (hnew : ∀ x ∈ new, x.task = some t) : calls new = [] := by
  refine List.filterMap_eq_nil_iff.2 fun x hx => ?_
  cases x with
  | called e => cases hnew _ hx
  | _ => rfl

theorem trail_of_task (hnew : ∀ x ∈ new, x.task = some t) : trail t new = new :=
  List.filter_eq_self.2 fun x hx => by simpa using hnew x hx

theorem trail_of_task_ne (hnew : ∀ x ∈ new, x.task = some t) (hu : u ≠ t) : trail u new = [] := by
  refine List.filter_eq_nil_iff.2 fun x hx => ?_
  simpa [hnew x hx] using Ne.symm hu

/-! ## where a call stands -/

/-- The call is of one kind, on the channel with number `c`. -/
def Calling (names : List String) (call : Event) (c : Nat) (kind : String → Event) : Prop :=
  ∃ name, call = kind name ∧ names.idxOf? name = some c

def Pushing (names : List String) (call : Event) (c : Nat) (payload : List UInt8) : Prop :=
  Calling names call c (.push · payload)

def Popping (names : List String) (call : Event) (c : Nat) : Prop :=
  ∃ wait, Calling names call c (.pop · wait)

def Clearing (names : List String) (call : Event) (c : Nat) : Prop := Calling names call c .clear

/-- The event that makes a call. -/
def Call.event (name : String) : Call → Event
  | .push payload => .push name payload
  | .pop wait => .pop name wait

/-- What the log must say of task `t`, by the place it stands at. -/
def Task.Explained (names : List String) (t : Nat) (call : Event) (trail : List Entry) : Task → Prop
  | .lookup name k | .counting name k | .inserting name k => call = k.event name ∧ trail = []
  | .numbering c _ payload => Pushing names call c payload ∧ trail = []
  | .enqueuing c _ job =>
    job.push = t ∧ Pushing names call c job.payload ∧ trail = [.numbered t job.id]
  | .notifying c id => ∃ payload, Pushing names call c payload ∧
      trail = [.numbered t id, .appended ⟨t, c, ⟨t, id, payload⟩⟩]
  | .fastPath c _ | .loopTop c _ | .created c | .checked c | .parked c | .notified c | .woken c =>
    Popping names call c ∧ trail = []
  | .done (.pushed (.ok id)) => ∃ c payload, Pushing names call c payload ∧
      trail = [.numbered t id, .appended ⟨t, c, ⟨t, id, payload⟩⟩]
  | .done (.pushed (.error _)) => ∀ m, .appended m ∉ trail ∧ .removed m ∉ trail
  | .done (.popped none) | .done .cancelled => trail = []
  | .done (.popped (some job)) => ∃ c, Popping names call c ∧ trail = [.removed ⟨t, c, job⟩]
  | .done (.cleared jobs) => (jobs = [] ∧ trail = []) ∨
      ∃ c, Clearing names call c ∧ trail = jobs.map fun job => .removed ⟨t, c, job⟩

/-- The log is about the tasks, and explains each of them. -/
structure Explains (names : List String) (tasks : List Task) (log : List Entry) : Prop where
  length : (calls log).length = tasks.length
  bounded : ∀ x ∈ log, ∀ t ∈ x.task, t < tasks.length
  explained : ∀ {t : Nat} {τ : Task} {call : Event}, tasks[t]? = some τ →
    (calls log)[t]? = some call → τ.Explained names t call (trail t log)

theorem Calling.grow {kind : String → Event} (hnames : names <+: names')
    (h : Calling names call c kind) : Calling names' call c kind := by
  obtain ⟨name, hcall, hname⟩ := h
  exact ⟨name, hcall, idxOf?_of_prefix hnames hname⟩

theorem Popping.grow (hnames : names <+: names') (h : Popping names call c) :
    Popping names' call c := h.imp fun _ => .grow hnames

/-- New channels change nothing for the calls that are under way. -/
theorem Task.Explained.grow (hnames : names <+: names') (h : τ.Explained names t call log) :
    τ.Explained names' t call log := by
  cases τ with
  | lookup | counting | inserting => exact h
  | numbering => exact h.imp_left (.grow hnames)
  | enqueuing => exact ⟨h.1, h.2.1.grow hnames, h.2.2⟩
  | notifying =>
    obtain ⟨payload, hpush, htrail⟩ := h
    exact ⟨payload, hpush.grow hnames, htrail⟩
  | fastPath | loopTop | created | checked | parked | notified | woken =>
    exact h.imp_left (.grow hnames)
  | done outcome =>
    match outcome, h with
    | .pushed (.ok _), ⟨c, payload, hpush, htrail⟩ =>
      exact ⟨c, payload, hpush.grow hnames, htrail⟩
    | .pushed (.error _), h | .popped none, h | .cancelled, h => exact h
    | .popped (some _), ⟨c, hpop, htrail⟩ => exact ⟨c, hpop.grow hnames, htrail⟩
    | .cleared _, .inl h => exact .inl h
    | .cleared _, .inr ⟨c, hclear, htrail⟩ => exact .inr ⟨c, hclear.grow hnames, htrail⟩

theorem Explains.exists_call (h : Explains names tasks log) (ht : tasks[t]? = some τ) :
    ∃ call, (calls log)[t]? = some call := by
  have hlt : t < (calls log).length := by
    rw [h.length]
    exact (List.getElem?_eq_some_iff.1 ht).1
  exact ⟨_, List.getElem?_eq_getElem hlt⟩

theorem Explains.grow (hnames : names <+: names') (h : Explains names tasks log) :
    Explains names' tasks log where
  length := h.length
  bounded := h.bounded
  explained ht hcall := (h.explained ht hcall).grow hnames

/-- One task goes on, and everything new in the log is about it. -/
theorem Explains.goto (h : Explains names tasks log) (ht : tasks[t]? = some old)
    (hnew : ∀ x ∈ new, x.task = some t) (hτ : ∀ call, old.Explained names t call (trail t log) →
      τ.Explained names t call (trail t log ++ new)) :
    Explains names (tasks.set t τ) (log ++ new) where
  length := by rw [calls_append, calls_of_task hnew, List.append_nil, List.length_set, h.length]
  bounded := by
    intro x hx u hu
    rw [List.length_set]
    obtain hx | hx := List.mem_append.1 hx
    · exact h.bounded x hx u hu
    · obtain rfl : t = u := Option.some.inj ((hnew x hx).symm.trans hu)
      exact (List.getElem?_eq_some_iff.1 ht).1
  explained := by
    intro u σ call hu hcall
    rw [calls_append, calls_of_task hnew, List.append_nil] at hcall
    rw [trail_append]
    by_cases hut : u = t
    · subst hut
      obtain rfl : τ = σ := by
        rw [List.getElem?_set_self (List.getElem?_eq_some_iff.1 ht).1] at hu
        exact Option.some.inj hu
      rw [trail_of_task hnew]
      exact hτ call (h.explained ht hcall)
    · rw [List.getElem?_set_ne (Ne.symm hut)] at hu
      rw [trail_of_task_ne hnew hut, List.append_nil]
      exact h.explained hu hcall

/-- A task goes on and nothing is recorded. -/
theorem Explains.goto_nil (h : Explains names tasks log) (ht : tasks[t]? = some old)
    (hτ : ∀ call, old.Explained names t call (trail t log) →
      τ.Explained names t call (trail t log)) : Explains names (tasks.set t τ) log := by
  have hgoto : Explains names (tasks.set t τ) (log ++ []) :=
    h.goto ht (fun _ hx => nomatch hx) (by simpa using hτ)
  rwa [List.append_nil] at hgoto

/-- A new call. -/
theorem Explains.start (h : Explains names tasks log) (hnew : ∀ x ∈ new, x.task = some tasks.length)
    (hτ : τ.Explained names tasks.length call new) :
    Explains names (tasks ++ [τ]) (log ++ .called call :: new) where
  length := by
    have hcalls : calls (.called call :: new) = [call] := by
      rw [← calls_of_task hnew]
      rfl
    rw [calls_append, hcalls, List.length_append, List.length_append, h.length]
    rfl
  bounded := by
    intro x hx u hu
    rw [List.length_append]
    obtain hx | hx := List.mem_append.1 hx
    · exact Nat.lt_add_right _ (h.bounded x hx u hu)
    · obtain rfl | hx := List.mem_cons.1 hx
      · cases hu
      · obtain rfl : tasks.length = u := Option.some.inj ((hnew x hx).symm.trans hu)
        exact Nat.lt_succ_self _
  explained := by
    intro u σ called hu hcall
    have hcalls : calls (.called call :: new) = [call] := by
      rw [← calls_of_task hnew]
      rfl
    have htrail : ∀ v, trail v (.called call :: new) = trail v new := fun v => rfl
    rw [calls_append, hcalls] at hcall
    rw [trail_append, htrail]
    by_cases hut : u < tasks.length
    · rw [List.getElem?_append_left hut] at hu
      rw [List.getElem?_append_left (h.length ▸ hut)] at hcall
      rw [trail_of_task_ne hnew (Nat.ne_of_lt hut), List.append_nil]
      exact h.explained hu hcall
    · -- the log said nothing of the new call before it was made
      obtain rfl : u = tasks.length := by
        have hlt := (List.getElem?_eq_some_iff.1 hu).1
        rw [List.length_append, List.length_singleton] at hlt
        omega
      obtain rfl : τ = σ := by simpa using hu
      obtain rfl : call = called := by simpa [← h.length] using hcall
      have hnone : trail tasks.length log = [] := by
        refine List.filter_eq_nil_iff.2 fun x hx htask => ?_
        exact hut (h.bounded x hx _ (by simpa using htask))
      rw [trail_of_task hnew, hnone, List.nil_append]
      exact hτ

/-! ## what a step records -/

theorem record_clear {name : String} (hname : s.names.idxOf? name = some c) :
    record limits s (.clear name) = .called (.clear name) ::
      (s.chans c).queue.map fun job => .removed ⟨s.tasks.length, c, job⟩ := by
  rw [record, hname]

theorem record_clearNothing {name : String} (hname : s.names.idxOf? name = none) :
    record limits s (.clear name) = [.called (.clear name)] := by
  rw [record, hname]

theorem record_full {name : String} {job : Job} (ht : s.tasks[t]? = some (.enqueuing c name job))
    (hfull : limits.channelCapacity ≤ (s.chans c).queue.length) :
    record limits s (.enqueue t) = [] := by
  rw [record, ht]
  exact if_pos hfull

theorem record_enqueue {name : String} {job : Job} (ht : s.tasks[t]? = some (.enqueuing c name job))
    (hroom : (s.chans c).queue.length < limits.channelCapacity) :
    record limits s (.enqueue t) = [.appended ⟨t, c, job⟩] := by
  rw [record, ht]
  exact if_neg (Nat.not_le.2 hroom)

theorem record_take {empty : Task} {job : Job} {rest : List Job} (ht : s.tasks[t]? = some τ)
    (hlook : τ.look? s = some (c, empty)) (hqueue : (s.chans c).queue = job :: rest) :
    record limits s (.look t) = [.removed ⟨t, c, job⟩] := by
  rw [record, ht, Option.bind_some, hlook]
  dsimp only
  rw [hqueue]

theorem record_miss {empty : Task} (ht : s.tasks[t]? = some τ)
    (hlook : τ.look? s = some (c, empty)) (hqueue : (s.chans c).queue = []) :
    record limits s (.look t) = [] := by
  rw [record, ht, Option.bind_some, hlook]
  dsimp only
  rw [hqueue]

/-- A pop that looks into the queue has removed nothing yet. -/
theorem Task.Explained.of_look {empty : Task} (hlook : τ.look? s = some (c, empty))
    (h : τ.Explained names t call log) :
    Popping names call c ∧ log = [] ∧ empty.Explained names t call log := by
  cases τ <;> simp only [Task.look?, Option.some.injEq, Prod.mk.injEq, reduceCtorEq] at hlook
  case fastPath d wait =>
    obtain ⟨rfl, rfl⟩ := hlook
    refine ⟨h.1, h.2, ?_⟩
    split
    · exact h.2
    · exact h
  case created d | woken d =>
    obtain ⟨rfl, rfl⟩ := hlook
    exact ⟨h.1, h.2, h⟩

theorem Call.explained_begin {k : Call} {name : String} (hname : names.idxOf? name = some c)
    (h : call = k.event name ∧ log = []) : (k.begin c name).Explained names t call log := by
  cases k with
  | push payload => exact ⟨⟨name, h.1, hname⟩, h.2⟩
  | pop wait => exact ⟨⟨wait, name, h.1, hname⟩, h.2⟩

theorem Call.explained_refuse {k : Call} (h : log = []) :
    (k.refuse limits).Explained names t call log := by
  subst h
  cases k with
  | push payload => exact fun m => ⟨List.not_mem_nil, List.not_mem_nil⟩
  | pop wait => exact rfl

theorem Explains.notified (h : Explains s.names s.tasks log) (hone : Notified s c s') :
    Explains s'.names s'.tasks log := by
  cases hone with
  | woke hu => exact h.goto_nil hu fun call hparked => hparked
  | stored => exact h

/-- **Step lemma** for what the log says of the calls. -/
theorem explains_step (h : Explains s.names s.tasks log) (hs : Step limits s e s') :
    Explains s'.names s'.tasks (log ++ record limits s e) := by
  have hnil : ∀ {names tasks}, Explains names tasks log → Explains names tasks (log ++ []) := by
    simp
  cases hs with
  | push | pop => exact h.start (fun _ hx => nomatch hx) ⟨rfl, rfl⟩
  | @clear name c hname =>
    rw [record_clear hname]
    refine h.start ?_ (.inr ⟨c, ⟨name, rfl, hname⟩, rfl⟩)
    intro x hx
    obtain ⟨job, -, rfl⟩ := List.mem_map.1 hx
    rfl
  | clearNothing hname =>
    rw [record_clearNothing hname]
    exact h.start (fun _ hx => nomatch hx) (.inl ⟨rfl, rfl⟩)
  | found ht hname | adopt ht hname =>
    exact hnil (h.goto_nil ht fun call => Call.explained_begin hname)
  | insert ht hname =>
    exact hnil ((h.grow (List.prefix_append ..)).goto_nil ht fun call =>
      Call.explained_begin (idxOf?_concat hname))
  | missing ht | count ht => exact hnil (h.goto_nil ht fun call hold => hold)
  | refuse ht => exact hnil (h.goto_nil ht fun call hold => Call.explained_refuse hold.2)
  | fetchId ht =>
    refine h.goto ht (by simp [record, Entry.task]) fun call hold => ?_
    rw [hold.2]
    exact ⟨rfl, hold.1, rfl⟩
  | full ht hfull =>
    rw [record_full ht hfull]
    refine hnil (h.goto_nil ht fun call hold => ?_)
    rw [hold.2.2]
    exact fun m => ⟨by simp, by simp⟩
  | enqueue ht hroom =>
    rw [record_enqueue ht hroom]
    refine h.goto ht (by simp [Entry.task]) fun call hold => ?_
    obtain ⟨rfl, hpush, htrail⟩ := hold
    rw [htrail]
    exact ⟨_, hpush, rfl⟩
  | notify ht hone =>
    refine hnil (Explains.notified ?_ hone)
    refine h.goto_nil ht fun call hold => ?_
    obtain ⟨payload, hpush, htrail⟩ := hold
    exact ⟨_, payload, hpush, htrail⟩
  | take ht hlook hqueue =>
    rw [record_take ht hlook hqueue]
    refine h.goto ht (by simp [Entry.task]) fun call hold => ?_
    obtain ⟨hpop, htrail, -⟩ := hold.of_look hlook
    rw [htrail]
    exact ⟨_, hpop, rfl⟩
  | miss ht hlook hqueue =>
    rw [record_miss ht hlook hqueue]
    exact hnil (h.goto_nil ht fun call hold => (hold.of_look hlook).2.2)
  | expire ht | timeout ht | cancelParked ht =>
    exact hnil (h.goto_nil ht fun call hold => hold.2)
  | create ht | pollPermit ht | park ht | pollWoken ht =>
    exact hnil (h.goto_nil ht fun call hold => hold)
  | cancelWoken ht hone =>
    refine hnil (Explains.notified ?_ hone)
    exact h.goto_nil ht fun call hold => hold.2

/-! ## what a step does to the queues -/

/-- What a step does to the queues and the ids, and what of it is recorded. -/
inductive Effect (limits : Limits) (s s' : State) (new : List Entry) : Prop
  | quiet (hids : ids new = []) (happends : appends new = []) (hremovals : removals new = [])
      (hid : s'.nextId = s.nextId) (hqueues : ∀ c, (s'.chans c).queue = (s.chans c).queue)
  | number {t c : Nat} {name : String} {payload : List UInt8}
      (ht : s.tasks[t]? = some (.numbering c name payload)) (hnew : new = [.numbered t s.nextId])
      (hid : s'.nextId = s.nextId + 1) (hqueues : ∀ c, (s'.chans c).queue = (s.chans c).queue)
  | append {t c : Nat} {name : String} {job : Job}
      (ht : s.tasks[t]? = some (.enqueuing c name job)) (hnew : new = [.appended ⟨t, c, job⟩])
      (hroom : (s.chans c).queue.length < limits.channelCapacity) (hid : s'.nextId = s.nextId)
      (hqueues : ∀ d, (s'.chans d).queue =
        if d = c then (s.chans c).queue ++ [job] else (s.chans d).queue)
  | remove {t c : Nat} {front rest : List Job} (hids : ids new = []) (happends : appends new = [])
      (hremovals : removals new = front.map fun job => ⟨t, c, job⟩)
      (hfront : (s.chans c).queue = front ++ rest) (hid : s'.nextId = s.nextId)
      (hqueues : ∀ d, (s'.chans d).queue = if d = c then rest else (s.chans d).queue)

theorem queue_setChan {chan : Channel} (d : Nat) :
    ((s.setChan c chan).chans d).queue = if d = c then chan.queue else (s.chans d).queue := by
  simp only [State.setChan, Function.update_apply]
  split <;> rfl

/-- `notify_one` changes neither a queue nor the next id. -/
theorem Notified.quiet (hone : Notified s c s') :
    s'.nextId = s.nextId ∧ ∀ d, (s'.chans d).queue = (s.chans d).queue := by
  cases hone with
  | woke hu => exact ⟨rfl, fun d => rfl⟩
  | stored =>
    refine ⟨rfl, fun d => ?_⟩
    rw [queue_setChan]
    split
    · subst d
      rfl
    · rfl

theorem removals_map {t : Nat} (jobs : List Job) :
    removals (jobs.map fun job => .removed ⟨t, c, job⟩) = jobs.map fun job => ⟨t, c, job⟩ := by
  rw [removals, List.filterMap_map]
  exact congrFun List.filterMap_eq_map' jobs

theorem Effect.of_step (hs : Step limits s e s') : Effect limits s s' (record limits s e) := by
  cases hs with
  | push | pop => exact .quiet rfl rfl rfl rfl fun c => rfl
  | @clear name c hname =>
    rw [record_clear hname]
    have hfront : (s.chans c).queue = (s.chans c).queue ++ [] := (List.append_nil _).symm
    refine .remove ?_ ?_ (removals_map _) hfront rfl (queue_setChan ·)
    · simp [ids]
    · simp [appends]
  | clearNothing hname =>
    rw [record_clearNothing hname]
    exact .quiet rfl rfl rfl rfl fun c => rfl
  | fetchId ht => exact .number ht rfl rfl fun c => rfl
  | full ht hfull =>
    rw [record_full ht hfull]
    exact .quiet rfl rfl rfl rfl fun c => rfl
  | enqueue ht hroom => exact .append ht (record_enqueue ht hroom) hroom rfl (queue_setChan ·)
  | @take t c τ empty job rest ht hlook hqueue =>
    rw [record_take ht hlook hqueue]
    have hremovals : removals [.removed ⟨t, c, job⟩] = [job].map fun job => ⟨t, c, job⟩ := rfl
    exact .remove rfl rfl hremovals hqueue rfl (queue_setChan ·)
  | miss ht hlook hqueue =>
    rw [record_miss ht hlook hqueue]
    exact .quiet rfl rfl rfl rfl fun c => rfl
  | notify ht hone | cancelWoken ht hone =>
    exact .quiet rfl rfl rfl hone.quiet.1 hone.quiet.2
  | @pollPermit t c ht hpermit =>
    refine .quiet rfl rfl rfl rfl fun d => ?_
    refine (queue_setChan d).trans ?_
    split
    · subst d
      rfl
    · rfl
  | _ => exact .quiet rfl rfl rfl rfl fun c => rfl

/-- The log is true of the state. -/
structure Recorded (limits : Limits) (s : State) (log : List Entry) : Prop where
  explains : Explains s.names s.tasks log
  numbered : ((ids log).map Prod.fst).Nodup ∧
    (ids log).map Prod.snd = (List.range (ids log).length).map fun k => .ofNat (k + 1)
  nextId : s.nextId = .ofNat ((ids log).length + 1)
  distinct : ((appends log).map (·.job.push)).Nodup
  order : ∀ c, jobsOn c (appends log) = jobsOn c (removals log) ++ (s.chans c).queue
  capacity : ∀ c, (s.chans c).queue.length ≤ limits.channelCapacity

/-- Only a push that has its id appends, and then it is about to return it. -/
theorem Task.Explained.of_appended (h : τ.Explained names t call log) (hm : .appended m ∈ log) :
    m.job.push = t ∧ Pushing names call m.chan m.job.payload ∧ .numbered t m.job.id ∈ log ∧
      (τ = .notifying m.chan m.job.id ∨ τ = .done (.pushed (.ok m.job.id))) := by
  have hnil : log ≠ [] := List.ne_nil_of_mem hm
  cases τ with
  | lookup | counting | inserting | numbering => exact (hnil h.2).elim
  | fastPath | loopTop | created | checked | parked | notified | woken => exact (hnil h.2).elim
  | enqueuing =>
    rw [h.2.2] at hm
    simp at hm
  | notifying c id =>
    obtain ⟨payload, hpush, rfl⟩ := h
    obtain rfl : m = ⟨t, c, ⟨t, id, payload⟩⟩ := by simpa using hm
    exact ⟨rfl, hpush, by simp, .inl rfl⟩
  | done outcome =>
    match outcome, h with
    | .pushed (.ok id), ⟨c, payload, hpush, hlog⟩ =>
      subst hlog
      obtain rfl : m = ⟨t, c, ⟨t, id, payload⟩⟩ := by simpa using hm
      exact ⟨rfl, hpush, by simp, .inr rfl⟩
    | .pushed (.error _), h => exact ((h m).1 hm).elim
    | .popped none, h | .cancelled, h | .cleared _, .inl ⟨_, h⟩ => exact (hnil h).elim
    | .popped (some _), ⟨c, hpop, hlog⟩ =>
      subst hlog
      simp at hm
    | .cleared jobs, .inr ⟨c, hclear, hlog⟩ =>
      subst hlog
      simp at hm

/-- Only a pop and a clear remove jobs; the pop returns the one that it removed. -/
theorem Task.Explained.of_removed (h : τ.Explained names t call log) (hm : .removed m ∈ log) :
    (Popping names call m.chan ∧ τ = .done (.popped (some m.job))) ∨
      (Clearing names call m.chan ∧ ∃ jobs, τ = .done (.cleared jobs) ∧ m.job ∈ jobs) := by
  have hnil : log ≠ [] := List.ne_nil_of_mem hm
  cases τ with
  | lookup | counting | inserting | numbering => exact (hnil h.2).elim
  | fastPath | loopTop | created | checked | parked | notified | woken => exact (hnil h.2).elim
  | enqueuing =>
    rw [h.2.2] at hm
    simp at hm
  | notifying c id =>
    obtain ⟨payload, hpush, rfl⟩ := h
    simp at hm
  | done outcome =>
    match outcome, h with
    | .pushed (.ok id), ⟨c, payload, hpush, hlog⟩ =>
      subst hlog
      simp at hm
    | .pushed (.error _), h => exact ((h m).2 hm).elim
    | .popped none, h | .cancelled, h | .cleared _, .inl ⟨_, h⟩ => exact (hnil h).elim
    | .popped (some job), ⟨c, hpop, hlog⟩ =>
      subst hlog
      obtain rfl : m = ⟨t, c, job⟩ := by simpa using hm
      exact .inl ⟨hpop, rfl⟩
    | .cleared jobs, .inr ⟨c, hclear, hlog⟩ =>
      subst hlog
      obtain ⟨job, hjob, heq⟩ := List.mem_map.1 hm
      cases heq
      exact .inr ⟨hclear, jobs, rfl, hjob⟩

/-- The task of an entry, with what the log says of it. -/
theorem Explains.exists_task {x : Entry} (h : Explains names tasks log) (hx : x ∈ log)
    (ht : x.task = some t) :
    ∃ τ call, tasks[t]? = some τ ∧ (calls log)[t]? = some call ∧
      τ.Explained names t call (trail t log) := by
  have hτ := List.getElem?_eq_getElem (h.bounded x hx t ht)
  obtain ⟨call, hcall⟩ := h.exists_call hτ
  exact ⟨_, call, hτ, hcall, h.explained hτ hcall⟩

theorem Recorded.push_eq (h : Recorded limits s log) (hm : m ∈ appends log) :
    m.job.push = m.task := by
  have hmem := mem_appends.1 hm
  obtain ⟨τ, call, -, -, hτ⟩ := h.explains.exists_task hmem rfl
  exact (hτ.of_appended (mem_trail.2 ⟨hmem, rfl⟩)).1

/-- A push that is about to append has not done so yet. -/
theorem Recorded.fresh (h : Recorded limits s log) {name : String} {job : Job}
    (ht : s.tasks[t]? = some (.enqueuing c name job)) :
    job.push ∉ (appends log).map (·.job.push) := by
  intro hmem
  obtain ⟨m, hm, hpush⟩ := List.mem_map.1 hmem
  obtain ⟨call, hcall⟩ := h.explains.exists_call ht
  obtain ⟨hown, -, htrail⟩ := h.explains.explained ht hcall
  have htask : m.task = t := (h.push_eq hm).symm.trans (hpush.trans hown)
  have hnone : Entry.appended m ∈ trail t log := mem_trail.2 ⟨mem_appends.1 hm, congrArg some htask⟩
  rw [htrail] at hnone
  simp at hnone

theorem Recorded.unnumbered (h : Recorded limits s log) {name : String} {payload : List UInt8}
    (ht : s.tasks[t]? = some (.numbering c name payload)) (id : UInt64) : (t, id) ∉ ids log := by
  intro hid
  obtain ⟨call, hcall⟩ := h.explains.exists_call ht
  have htrail : trail t log = [] := (h.explains.explained ht hcall).2
  have hmem : Entry.numbered t id ∈ trail t log := mem_trail.2 ⟨mem_ids.1 hid, rfl⟩
  rw [htrail] at hmem
  exact List.not_mem_nil hmem

theorem jobsOn_map (d : Nat) (jobs : List Job) :
    jobsOn d (jobs.map fun job => ⟨t, c, job⟩) = if d = c then jobs else [] := by
  rw [jobsOn, List.filter_map, List.map_map]
  split
  case isTrue hd => simp [Function.comp_def, hd]
  case isFalse hd => simp [Function.comp_def, Ne.symm hd]

/-- **Step lemma.** -/
theorem recorded_step (h : Recorded limits s log) (hs : Step limits s e s') :
    Recorded limits s' (log ++ record limits s e) := by
  have hexplains := explains_step h.explains hs
  cases Effect.of_step hs with
  | quiet hids happends hremovals hid hqueues =>
    refine ⟨hexplains, ?_, ?_, ?_, ?_, ?_⟩
    · simpa [hids] using h.numbered
    · simpa [hids, hid] using h.nextId
    · simpa [happends] using h.distinct
    · simpa [happends, hremovals, hqueues] using h.order
    · simpa [hqueues] using h.capacity
  | @number t c name payload ht hnew hid hqueues =>
    rw [hnew] at hexplains ⊢
    have hids : ids [.numbered t s.nextId] = [(t, s.nextId)] := rfl
    have happends : appends [.numbered t s.nextId] = [] := rfl
    have hremovals : removals [.numbered t s.nextId] = [] := rfl
    refine ⟨hexplains, ?_, ?_, ?_, ?_, ?_⟩
    · rw [ids_append, hids, List.map_append, List.map_append]
      refine ⟨List.nodup_append_comm.1 (List.nodup_cons.2 ⟨?_, h.numbered.1⟩), ?_⟩
      · intro hmem
        obtain ⟨⟨u, id⟩, hu, rfl⟩ := List.mem_map.1 hmem
        exact h.unnumbered ht id hu
      · rw [h.numbered.2, h.nextId, List.length_append, List.length_singleton, List.range_succ,
          List.map_append]
        rfl
    · rw [hid, ids_append, hids, h.nextId, List.length_append, List.length_singleton]
      exact (UInt64.ofNat_add _ 1).symm
    · simpa [happends] using h.distinct
    · simpa [happends, hremovals, hqueues] using h.order
    · simpa [hqueues] using h.capacity
  | @append t c name job ht hnew hroom hid hqueues =>
    rw [hnew] at hexplains ⊢
    have hids : ids [.appended ⟨t, c, job⟩] = [] := rfl
    have happends : appends [.appended ⟨t, c, job⟩] = [job].map fun job => ⟨t, c, job⟩ := rfl
    have hremovals : removals [.appended ⟨t, c, job⟩] = [] := rfl
    refine ⟨hexplains, ?_, ?_, ?_, ?_, ?_⟩
    · simpa [hids] using h.numbered
    · simpa [hids, hid] using h.nextId
    · rw [appends_append, List.map_append]
      exact List.nodup_append_comm.1 (List.nodup_cons.2 ⟨h.fresh ht, h.distinct⟩)
    · intro d
      rw [appends_append, jobsOn_append, h.order, hqueues, happends, jobsOn_map, removals_append,
        hremovals, List.append_nil]
      split
      · subst d
        rw [List.append_assoc]
      · rw [List.append_nil]
    · intro d
      rw [hqueues]
      split
      · rw [List.length_append]
        exact hroom
      · exact h.capacity d
  | @remove t c front rest hids happends hremovals hfront hid hqueues =>
    refine ⟨hexplains, ?_, ?_, ?_, ?_, ?_⟩
    · simpa [hids] using h.numbered
    · simpa [hids, hid] using h.nextId
    · simpa [happends] using h.distinct
    · intro d
      rw [appends_append, happends, List.append_nil, h.order, removals_append, jobsOn_append,
        hremovals, jobsOn_map, hqueues]
      split
      · subst d
        rw [hfront, List.append_assoc]
      · simp
    · intro d
      rw [hqueues]
      split
      · have hcap := h.capacity c
        rw [hfront, List.length_append] at hcap
        omega
      · exact h.capacity d

/-- **Run lemma.** -/
theorem recorded_run {es : List Event} (hrun : run (step limits) initial es = some s) :
    Recorded limits s (history limits es) := by
  have hinit : Recorded limits initial [] := by
    refine ⟨⟨rfl, ?_, ?_⟩, ⟨List.nodup_nil, rfl⟩, rfl, List.nodup_nil, fun c => rfl,
      fun c => Nat.zero_le _⟩
    · intro x hx
      cases hx
    · intro t τ call ht
      simp [initial] at ht
  exact invariant_of_trace (fun s log e s' h hs => recorded_step h (.of_step hs)) hinit hrun

/-! ## every job in one place -/

/-- The call that holds the job, if it is no longer queued. -/
def Place.task : Place → Option Nat
  | .queued _ _ => none
  | .returned t => some t
  | .cleared t _ => some t

variable {p q : Place} {job job' : Job}

theorem jobAt_returned (h : s.jobAt (.returned t) = some job) :
    s.tasks[t]? = some (.done (.popped (some job))) := by
  rw [State.jobAt] at h
  split at h
  case h_1 ht => rw [ht, h]
  case h_2 => cases h

theorem jobAt_cleared {i : Nat} (h : s.jobAt (.cleared t i) = some job) :
    ∃ jobs, s.tasks[t]? = some (.done (.cleared jobs)) ∧ jobs[i]? = some job := by
  rw [State.jobAt] at h
  split at h
  case h_1 jobs ht => exact ⟨jobs, ht, h⟩
  case h_2 => cases h

/-- A job that a call holds was removed by it, from the channel it was called with. -/
theorem Recorded.removed (h : Recorded limits s log) (hp : s.jobAt p = some job)
    (ht : p.task = some t) :
    ∃ c, ⟨t, c, job⟩ ∈ removals log ∧
      ∀ name, s.names.idxOf? name = some c → p.channel s log = some name := by
  cases p with
  | queued c i => cases ht
  | returned u =>
    obtain rfl : u = t := Option.some.inj ht
    have hu := jobAt_returned hp
    obtain ⟨call, hcall⟩ := h.explains.exists_call hu
    obtain ⟨c, ⟨wait, name, rfl, hname⟩, htrail⟩ := h.explains.explained hu hcall
    have hmem : Entry.removed ⟨u, c, job⟩ ∈ trail u log := by
      rw [htrail]
      exact List.mem_singleton_self _
    refine ⟨c, mem_removals.2 (mem_trail.1 hmem).1, fun name' hname' => ?_⟩
    rw [Place.channel, hcall, idxOf?_inj hname hname']
  | cleared u i =>
    obtain rfl : u = t := Option.some.inj ht
    obtain ⟨jobs, hu, hi⟩ := jobAt_cleared hp
    have hjob := List.mem_of_getElem? hi
    obtain ⟨call, hcall⟩ := h.explains.exists_call hu
    obtain ⟨rfl, -⟩ | ⟨c, ⟨name, rfl, hname⟩, htrail⟩ := h.explains.explained hu hcall
    · cases hjob
    have hmem : Entry.removed ⟨u, c, job⟩ ∈ trail u log := by
      rw [htrail]
      exact List.mem_map_of_mem hjob
    refine ⟨c, mem_removals.2 (mem_trail.1 hmem).1, fun name' hname' => ?_⟩
    rw [Place.channel, hcall, idxOf?_inj hname hname']

theorem Recorded.nodup_on (h : Recorded limits s log) (c : Nat) :
    ((jobsOn c (removals log) ++ (s.chans c).queue).map (·.push)).Nodup := by
  rw [← h.order, jobsOn, List.map_map]
  exact h.distinct.sublist (List.filter_sublist.map _)

/-- A job in a place was appended to the channel of the place. -/
theorem Recorded.exists_append (h : Recorded limits s log) (hp : s.jobAt p = some job) :
    ∃ m ∈ appends log, m.job = job ∧ (∀ i c, p = .queued c i → m.chan = c) ∧
      (∀ t, p.task = some t → ⟨t, m.chan, job⟩ ∈ removals log) ∧
      ∀ name, s.names.idxOf? name = some m.chan → p.channel s log = some name := by
  have happended : ∀ c, job ∈ jobsOn c (removals log) ++ (s.chans c).queue →
      ∃ m ∈ appends log, m.chan = c ∧ m.job = job := by
    intro c hjob
    rw [← h.order] at hjob
    exact mem_jobsOn.1 hjob
  cases htask : p.task with
  | none =>
    cases p with
    | queued c i =>
      obtain ⟨m, hm, rfl, hjob⟩ := happended c (List.mem_append_right _ (List.mem_of_getElem? hp))
      refine ⟨m, hm, hjob, ?_, by simp, fun name hname => getElem?_of_idxOf? hname⟩
      rintro i c hpc
      cases hpc
      rfl
    | returned t | cleared t i => cases htask
  | some t =>
    obtain ⟨c, hremoved, hchannel⟩ := h.removed hp htask
    obtain ⟨m, hm, rfl, hjob⟩ :=
      happended c (List.mem_append_left _ (mem_jobsOn.2 ⟨_, hremoved, rfl, rfl⟩))
    refine ⟨m, hm, hjob, ?_, ?_, hchannel⟩
    · rintro i c rfl
      cases htask
    · rintro u hu
      cases hu
      exact hremoved

theorem Recorded.exists_place (h : Recorded limits s log) (hm : m ∈ appends log) :
    ∃ p, s.jobAt p = some m.job := by
  have hjob : m.job ∈ jobsOn m.chan (appends log) := mem_jobsOn.2 ⟨m, hm, rfl, rfl⟩
  rw [h.order] at hjob
  obtain hjob | hjob := List.mem_append.1 hjob
  · obtain ⟨r, hr, -, hrjob⟩ := mem_jobsOn.1 hjob
    have hmem := mem_removals.1 hr
    obtain ⟨τ, call, ht, -, hτ⟩ := h.explains.exists_task hmem rfl
    obtain ⟨-, rfl⟩ | ⟨-, jobs, rfl, hcleared⟩ := hτ.of_removed (mem_trail.2 ⟨hmem, rfl⟩)
    · refine ⟨.returned r.task, ?_⟩
      rw [State.jobAt, ht, hrjob]
    · obtain ⟨i, hi⟩ := List.mem_iff_getElem?.1 hcleared
      refine ⟨.cleared r.task i, ?_⟩
      rw [State.jobAt, ht, ← hrjob]
      exact hi
  · obtain ⟨i, hi⟩ := List.mem_iff_getElem?.1 hjob
    exact ⟨.queued m.chan i, hi⟩

theorem Recorded.nodup_cleared (h : Recorded limits s log) {jobs : List Job}
    (ht : s.tasks[t]? = some (.done (.cleared jobs))) : (jobs.map (·.push)).Nodup := by
  obtain ⟨call, hcall⟩ := h.explains.exists_call ht
  obtain ⟨rfl, -⟩ | ⟨c, -, htrail⟩ := h.explains.explained ht hcall
  · exact List.nodup_nil
  have hjobs : jobsOn c (removals (trail t log)) = jobs := by
    rw [htrail, removals_map, jobsOn_map, if_pos rfl]
  have hsub : (jobsOn c (removals (trail t log))).Sublist (jobsOn c (removals log)) :=
    ((List.filter_sublist.filterMap _).filter _).map _
  rw [← hjobs]
  refine (h.nodup_on c).sublist (List.Sublist.map _ ?_)
  exact hsub.trans (List.sublist_append_left ..)

theorem index_eq {jobs : List Job} {i j : Nat} (hnodup : (jobs.map (·.push)).Nodup)
    (hi : jobs[i]? = some job) (hj : jobs[j]? = some job') (hpush : job.push = job'.push) : i = j := by
  have hlt : i < (jobs.map (·.push)).length := by
    rw [List.length_map]
    exact (List.getElem?_eq_some_iff.1 hi).1
  refine (List.getElem?_inj hlt hnodup).1 ?_
  rw [List.getElem?_map, List.getElem?_map, hi, hj]
  exact congrArg some hpush

/-- Two places of one call that hold jobs of one push are the same. -/
theorem Recorded.place_eq_of_task (h : Recorded limits s log) (hp : s.jobAt p = some job)
    (hq : s.jobAt q = some job') (hpush : job.push = job'.push) (hpt : p.task = some t)
    (hqt : q.task = some t) : p = q := by
  cases p with
  | queued => cases hpt
  | returned =>
    obtain rfl := Option.some.inj hpt
    cases q with
    | queued => cases hqt
    | returned => exact congrArg Place.returned (Option.some.inj hqt).symm
    | cleared =>
      obtain rfl := Option.some.inj hqt
      obtain ⟨jobs, hjobs, -⟩ := jobAt_cleared hq
      rw [jobAt_returned hp] at hjobs
      cases hjobs
  | cleared u i =>
    obtain rfl : u = t := Option.some.inj hpt
    obtain ⟨jobs, hu, hi⟩ := jobAt_cleared hp
    cases q with
    | queued => cases hqt
    | returned =>
      obtain rfl := Option.some.inj hqt
      rw [jobAt_returned hq] at hu
      cases hu
    | cleared v j =>
      obtain rfl : v = u := Option.some.inj hqt
      obtain ⟨jobs', hv, hj⟩ := jobAt_cleared hq
      rw [hu] at hv
      cases hv
      rw [index_eq (h.nodup_cleared hu) hi hj hpush]

theorem Recorded.not_removed (h : Recorded limits s log) (hqueued : job ∈ (s.chans c).queue)
    (hremoved : ⟨t, c, job'⟩ ∈ removals log) : job.push ≠ job'.push := by
  have hnodup := h.nodup_on c
  rw [List.map_append, List.nodup_append] at hnodup
  have hjob' : job' ∈ jobsOn c (removals log) := mem_jobsOn.2 ⟨_, hremoved, rfl, rfl⟩
  exact (hnodup.2.2 _ (List.mem_map_of_mem hjob') _ (List.mem_map_of_mem hqueued)).symm

theorem Recorded.removed_once (h : Recorded limits s log) (ht : ⟨t, c, job⟩ ∈ removals log)
    (hu : ⟨u, c, job'⟩ ∈ removals log) (hpush : job.push = job'.push) : t = u := by
  have hnodup : (((removals log).filter (·.chan = c)).map (·.job.push)).Nodup := by
    have hon := h.nodup_on c
    rw [List.map_append, jobsOn, List.map_map] at hon
    exact (List.nodup_append.1 hon).1
  have heq := List.inj_on_of_nodup_map hnodup (List.mem_filter.2 ⟨ht, by simp⟩)
    (List.mem_filter.2 ⟨hu, by simp⟩) hpush
  exact congrArg Move.task heq

/-- No two places hold jobs of one push. -/
theorem Recorded.place_eq (h : Recorded limits s log) (hp : s.jobAt p = some job)
    (hq : s.jobAt q = some job') (hpush : job.push = job'.push) : p = q := by
  obtain ⟨m, hm, hmjob, hpc, hpr, -⟩ := h.exists_append hp
  obtain ⟨m', hm', hmjob', hqc, hqr, -⟩ := h.exists_append hq
  -- one job was appended once, so both places are on its channel
  obtain rfl : m = m' := List.inj_on_of_nodup_map h.distinct hm hm' (by rw [hmjob, hmjob', hpush])
  match p, q, hp, hq with
  | .queued c i, .queued d j, hp, hq =>
    obtain rfl : c = d := (hpc i c rfl).symm.trans (hqc j d rfl)
    have hnodup := h.nodup_on c
    rw [List.map_append, List.nodup_append] at hnodup
    rw [index_eq hnodup.2.1 hp hq hpush]
  | .queued c i, .returned t, hp, _ | .queued c i, .cleared t _, hp, _ =>
    have hremoved := hqr t rfl
    rw [hpc i c rfl] at hremoved
    exact absurd hpush (h.not_removed (List.mem_of_getElem? hp) hremoved)
  | .returned t, .queued c i, _, hq | .cleared t _, .queued c i, _, hq =>
    have hremoved := hpr t rfl
    rw [hqc i c rfl] at hremoved
    exact absurd hpush.symm (h.not_removed (List.mem_of_getElem? hq) hremoved)
  | .returned t, .returned u, hp, hq | .returned t, .cleared u _, hp, hq
  | .cleared t _, .returned u, hp, hq | .cleared t _, .cleared u _, hp, hq =>
    have htu : u = t := h.removed_once (hqr u rfl) (hpr t rfl) hpush.symm
    exact h.place_eq_of_task hp hq hpush rfl (congrArg some htu)

theorem Recorded.pushed (h : Recorded limits s log) (hm : m ∈ appends log) :
    ∃ name, s.names.idxOf? name = some m.chan ∧ Pushed s log m.task name m.job := by
  have hmem := mem_appends.1 hm
  obtain ⟨τ, call, ht, hcall, hτ⟩ := h.explains.exists_task hmem rfl
  obtain ⟨hpush, ⟨name, rfl, hname⟩, hid, hplace⟩ := hτ.of_appended (mem_trail.2 ⟨hmem, rfl⟩)
  refine ⟨name, hname, hpush, hcall, mem_ids.2 (mem_trail.1 hid).1, ?_⟩
  obtain rfl | rfl := hplace
  · exact .inr ⟨_, ht⟩
  · exact .inl ht

/-- Every run of any number of pushes, pops and clears conserves the jobs: each one
whose push succeeded is in one place of its channel, those of failed pushes are
nowhere, and a channel hands its jobs out in the order in which it got them. -/
theorem conserved {es : List Event} (hrun : run (step limits) initial es = some s) :
    Conserved limits s (history limits es) := by
  have h := recorded_run hrun
  refine ⟨h.numbered, ?_, ?_, ?_, h.order, h.capacity⟩
  · intro t name payload id hcall ht
    obtain ⟨c, payload', ⟨name', hpush, hname⟩, htrail⟩ := h.explains.explained ht hcall
    cases hpush
    have hmem : Entry.appended ⟨t, c, ⟨t, id, payload⟩⟩ ∈ trail t (history limits es) := by
      rw [htrail]
      simp
    have hm := mem_appends.2 (mem_trail.1 hmem).1
    obtain ⟨p, hp⟩ := h.exists_place hm
    obtain ⟨m, hm', hjob, -, -, hchannel⟩ := h.exists_append hp
    obtain rfl := List.inj_on_of_nodup_map h.distinct hm' hm (by rw [hjob])
    exact ⟨p, hp, hchannel name hname, fun q job hq hpush => h.place_eq hq hp hpush⟩
  · intro t error ht p job hp hpush
    obtain ⟨m, hm, rfl, -⟩ := h.exists_append hp
    obtain ⟨name, -, hown, -, -, hplace⟩ := h.pushed hm
    rw [← hown, hpush, ht] at hplace
    obtain hplace | ⟨c, hplace⟩ := hplace <;> cases hplace
  · intro p job hp
    obtain ⟨m, hm, rfl, -, -, hchannel⟩ := h.exists_append hp
    obtain ⟨name, hname, hpushed⟩ := h.pushed hm
    exact ⟨m.task, name, hpushed, hchannel name hname⟩

/-- Two pushes to a channel for one job: the second is refused, and the job of the
first is with the pop. -/
def twoPushes : List Event :=
  [.push "mail" [7], .get 0, .count 0, .insert 0, .push "mail" [8], .get 1, .fetchId 1, .fetchId 0,
    .enqueue 0, .enqueue 1, .notify 0 none, .pop "mail" 5, .get 2, .look 2]

theorem conserved_twoPushes :
    ∃ s, run (step ⟨1, 1⟩) initial twoPushes = some s ∧ s.jobAt (.returned 2) = some ⟨0, 2, [7]⟩ ∧
      Conserved ⟨1, 1⟩ s (history ⟨1, 1⟩ twoPushes) := ⟨_, rfl, rfl, conserved rfl⟩

end Turbine.Tasks
