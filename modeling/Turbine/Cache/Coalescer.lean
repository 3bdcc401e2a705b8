import Mathlib.Data.List.Basic
import Mathlib.Logic.Function.Basic
import Turbine.Base.Counting
import Turbine.Base.Runs

/-!
# Turbine.Cache.Coalescer

The request coalescer (crates/turbine-cache/src/coalescer.rs) as a transition
system.  The first request for a key becomes its leader and holds a
`LeaderGuard`; the requests that come while the key is in the in-flight map
become followers and wait on the leader's slot.  Every access to the map, to a
slot's result or to its `Notify` is one `Event`, so a run of events is one
interleaving of any number of requests for any keys.

A `Notified` future completes when `notify_waiters` is called after its
creation; nothing is stored for a future created later.

* `coherent_step`: a slot in the map has not been notified, and whoever leads it
  will remove it before notifying it;
* `noneStranded_step_iff`: the one step that can strand a follower.
-/

namespace Turbine.Cache

open Base

/-! ## model -/

/-- `Slot`.  The `Notify` is the number of `notify_waiters` calls made on it. -/
structure Slot (V : Type) where
  result : Option V := none
  notify : Nat := 0
deriving DecidableEq, Repr

/-- `LeaderGuard`. -/
structure LeaderGuard where
  key : String
  slot : Nat
  published : Bool
deriving DecidableEq, Repr

/-- The two functions that take a key out of the map: `publish`, and the guard's
`drop` when nothing was published. -/
inductive Release
  | publish
  | drop
deriving DecidableEq, Repr

/-- Where a request stands.  A leader that releases its key first removes it from
the map, then notifies the slot; a follower first leaves the map's lock with the
slot, then creates its `Notified` future, which remembers the calls made so far. -/
inductive Task (V : Type)
  | leader (guard : LeaderGuard)
  | releasing (guard : LeaderGuard) (why : Release)
  | notifying (guard : LeaderGuard) (why : Release)
  | follower (slot : Nat)
  | waiting (slot : Nat) (seen : Nat)
  | received (slot : Nat) (value : Option V)
  | finished
deriving DecidableEq, Repr

/-- The coalescer and its callers.  Slots are numbered in the order in which they
are allocated. -/
structure State (V : Type) where
  inflight : String → Option Nat := fun _ => none
  slots : Nat → Slot V := fun _ => {}
  allocated : Nat := 0
  tasks : List (Task V) := []

/-- The atomic actions.  All but `acquire` name the request that takes the step. -/
inductive Event (V : Type)
  | acquire (key : String)
  | publish (t : Nat) (value : V)
  | drop (t : Nat)
  | remove (t : Nat)
  | notify (t : Nat)
  | wait (t : Nat)
  | resume (t : Nat)
deriving DecidableEq, Repr

variable {V : Type}

def State.goto (s : State V) (t : Nat) (τ : Task V) : State V := { s with tasks := s.tasks.set t τ }

def State.start (s : State V) (τ : Task V) : State V := { s with tasks := s.tasks ++ [τ] }

/-- A new slot, in the map under `key`. -/
def State.insert (s : State V) (key : String) : State V :=
  { s with
    inflight := Function.update s.inflight key (some s.allocated)
    slots := Function.update s.slots s.allocated {}
    allocated := s.allocated + 1 }

def State.remove (s : State V) (key : String) : State V :=
  { s with inflight := Function.update s.inflight key none }

def State.setResult (s : State V) (i : Nat) (value : V) : State V :=
  { s with slots := Function.update s.slots i { s.slots i with result := some value } }

def State.notifyWaiters (s : State V) (i : Nat) : State V :=
  { s with slots := Function.update s.slots i { s.slots i with notify := (s.slots i).notify + 1 } }

/-- `Coalescer::acquire`, under the map's lock. -/
def acquire (s : State V) (key : String) : State V :=
  match s.inflight key with
  | some slot => s.start (.follower slot)
  | none => (s.insert key).start (.leader ⟨key, s.allocated, false⟩)

/-- Where the guard's owner stands once the slot is notified.  `publish` sets the
guard's flag first of all, but nobody looks at it before `publish` is over. -/
def Release.next (guard : LeaderGuard) : Release → Task V
  | .publish => .leader { guard with published := true }
  | .drop => .finished

/-- One atomic action; `none` if it is not enabled. -/
def step (s : State V) : Event V → Option (State V)
  | .acquire key => some (acquire s key)
  | .publish t value =>
    match s.tasks[t]? with
    | some (.leader g) =>
      if g.published then some s
      else some ((s.setResult g.slot value).goto t (.releasing g .publish))
    | _ => none
  | .drop t =>
    match s.tasks[t]? with
    | some (.leader g) =>
      if g.published then some (s.goto t .finished) else some (s.goto t (.releasing g .drop))
    -- the follower's request is cancelled
    | some (.follower _) => some (s.goto t .finished)
    | some (.waiting _ _) => some (s.goto t .finished)
    | _ => none
  | .remove t =>
    match s.tasks[t]? with
    | some (.releasing g why) => some ((s.remove g.key).goto t (.notifying g why))
    | _ => none
  | .notify t =>
    match s.tasks[t]? with
    | some (.notifying g why) => some ((s.notifyWaiters g.slot).goto t (why.next g))
    | _ => none
  | .wait t =>
    match s.tasks[t]? with
    | some (.follower i) => some (s.goto t (.waiting i (s.slots i).notify))
    | _ => none
  | .resume t =>
    match s.tasks[t]? with
    | some (.waiting i seen) =>
      if (s.slots i).notify ≠ seen then some (s.goto t (.received i (s.slots i).result)) else none
    | _ => none

/-- A new coalescer. -/
def initial : State V := {}

/-! ## the branches of a step -/

/-- One atomic step, by branch. -/
inductive Step (s : State V) : Event V → State V → Prop
  | follow {key : String} {i : Nat} (hkey : s.inflight key = some i) :
      Step s (.acquire key) (s.start (.follower i))
  | lead {key : String} (hkey : s.inflight key = none) :
      Step s (.acquire key) ((s.insert key).start (.leader ⟨key, s.allocated, false⟩))
  | republish {t : Nat} {value : V} {g : LeaderGuard} (ht : s.tasks[t]? = some (.leader g))
      (hg : g.published = true) : Step s (.publish t value) s
  | publish {t : Nat} {value : V} {g : LeaderGuard} (ht : s.tasks[t]? = some (.leader g))
      (hg : g.published = false) :
      Step s (.publish t value) ((s.setResult g.slot value).goto t (.releasing g .publish))
  | dropPublished {t : Nat} {g : LeaderGuard} (ht : s.tasks[t]? = some (.leader g))
      (hg : g.published = true) : Step s (.drop t) (s.goto t .finished)
  | abort {t : Nat} {g : LeaderGuard} (ht : s.tasks[t]? = some (.leader g))
      (hg : g.published = false) : Step s (.drop t) (s.goto t (.releasing g .drop))
  | cancelFollower {t i : Nat} (ht : s.tasks[t]? = some (.follower i)) :
      Step s (.drop t) (s.goto t .finished)
  | cancelWaiting {t i seen : Nat} (ht : s.tasks[t]? = some (.waiting i seen)) :
      Step s (.drop t) (s.goto t .finished)
  | remove {t : Nat} {g : LeaderGuard} {why : Release}
      (ht : s.tasks[t]? = some (.releasing g why)) :
      Step s (.remove t) ((s.remove g.key).goto t (.notifying g why))
  | notify {t : Nat} {g : LeaderGuard} {why : Release}
      (ht : s.tasks[t]? = some (.notifying g why)) :
      Step s (.notify t) ((s.notifyWaiters g.slot).goto t (why.next g))
  | wait {t i : Nat} (ht : s.tasks[t]? = some (.follower i)) :
      Step s (.wait t) (s.goto t (.waiting i (s.slots i).notify))
  | resume {t i seen : Nat} (ht : s.tasks[t]? = some (.waiting i seen))
      (hseen : (s.slots i).notify ≠ seen) :
      Step s (.resume t) (s.goto t (.received i (s.slots i).result))

/-- **Inversion.**  An enabled event takes one of the branches. -/
theorem Step.of_step {s s' : State V} {e : Event V} (h : step s e = some s') : Step s e s' := by
  cases e with
  | acquire key =>
    simp only [step, acquire, Option.some.injEq] at h
    split at h <;> subst h
    case h_1 i hkey => exact .follow hkey
    case h_2 hkey => exact .lead hkey
  | publish t value =>
    simp only [step] at h
    split at h <;> try contradiction
    case h_1 g ht =>
      split at h <;> cases h
      case isTrue hg => exact .republish ht hg
      case isFalse hg => exact .publish ht (Bool.eq_false_iff.2 hg)
  | drop t =>
    simp only [step] at h
    split at h <;> try contradiction
    case h_1 g ht =>
      split at h <;> cases h
      case isTrue hg => exact .dropPublished ht hg
      case isFalse hg => exact .abort ht (Bool.eq_false_iff.2 hg)
    case h_2 i ht => cases h; exact .cancelFollower ht
    case h_3 i seen ht => cases h; exact .cancelWaiting ht
  | remove t =>
    simp only [step] at h
    split at h <;> cases h
    case h_1 g why ht => exact .remove ht
  | notify t =>
    simp only [step] at h
    split at h <;> cases h
    case h_1 g why ht => exact .notify ht
  | wait t =>
    simp only [step] at h
    split at h <;> cases h
    case h_1 i ht => exact .wait ht
  | resume t =>
    simp only [step] at h
    split at h <;> try contradiction
    case h_1 i seen ht =>
      split at h <;> cases h
      case isTrue hseen => exact .resume ht hseen

/-! ## the in-flight map -/

/-- The key and the slot of a guard that still has its entry in the map. -/
def Task.owned? : Task V → Option (String × Nat)
  | .leader g => if g.published then none else some (g.key, g.slot)
  | .releasing g _ => some (g.key, g.slot)
  | _ => none

/-- The entry held by request `t`. -/
def State.ownedAt (s : State V) (t : Nat) : Option (String × Nat) := s.tasks[t]?.bind Task.owned?

/-- The map and the guards agree. -/
structure State.Coherent (s : State V) : Prop where
  /-- Every guard's entry is in the map. -/
  mapped : ∀ {t : Nat} {k : String} {i : Nat}, s.ownedAt t = some (k, i) → s.inflight k = some i
  /-- No two requests hold one key. -/
  unique : ∀ {t u : Nat} {k : String} {i j : Nat},
    s.ownedAt t = some (k, i) → s.ownedAt u = some (k, j) → t = u
  /-- A slot in the map is allocated and nobody has notified it. -/
  fresh : ∀ {k : String} {i : Nat}, s.inflight k = some i → i < s.allocated ∧ (s.slots i).notify = 0
  /-- No two keys share a slot. -/
  separate : ∀ {k k' : String} {i : Nat},
    s.inflight k = some i → s.inflight k' = some i → k = k'
  /-- A slot about to be notified has left the map. -/
  removed : ∀ {t : Nat} {g : LeaderGuard} {why : Release}, s.tasks[t]? = some (.notifying g why) →
    g.slot < s.allocated ∧ ∀ k, s.inflight k ≠ some g.slot

variable {s s' : State V} {t u i j : Nat} {τ old : Task V} {key k : String} {g : LeaderGuard}
  {why : Release} {value : V}

/-! ## what the updates change -/

@[simp] theorem goto_inflight : (s.goto t τ).inflight = s.inflight := rfl
@[simp] theorem goto_slots : (s.goto t τ).slots = s.slots := rfl
@[simp] theorem goto_allocated : (s.goto t τ).allocated = s.allocated := rfl
@[simp] theorem start_inflight : (s.start τ).inflight = s.inflight := rfl
@[simp] theorem start_slots : (s.start τ).slots = s.slots := rfl
@[simp] theorem start_allocated : (s.start τ).allocated = s.allocated := rfl
@[simp] theorem insert_allocated : (s.insert key).allocated = s.allocated + 1 := rfl

theorem insert_inflight_self : (s.insert key).inflight key = some s.allocated :=
  Function.update_self ..

theorem insert_inflight_of_ne (h : k ≠ key) : (s.insert key).inflight k = s.inflight k :=
  Function.update_of_ne h ..

/-- A free key gets an entry; the others keep theirs. -/
theorem insert_inflight_eq_some (hkey : s.inflight key = none) :
    (s.insert key).inflight k = some i ↔
      k = key ∧ i = s.allocated ∨ s.inflight k = some i := by
  by_cases hk : k = key
  · subst hk
    simp [insert_inflight_self, hkey, eq_comm]
  · simp [insert_inflight_of_ne hk, hk]

theorem remove_inflight_eq_some :
    (s.remove key).inflight k = some i ↔ k ≠ key ∧ s.inflight k = some i := by
  by_cases hk : k = key
  · simp [State.remove, hk]
  · simp [State.remove, hk]

theorem insert_notify :
    ((s.insert key).slots i).notify = if i = s.allocated then 0 else (s.slots i).notify := by
  by_cases hi : i = s.allocated
  · simp [State.insert, hi]
  · simp [State.insert, hi]

theorem setResult_notify : ((s.setResult i value).slots j).notify = (s.slots j).notify := by
  by_cases hij : j = i
  · simp [State.setResult, hij]
  · simp [State.setResult, Function.update_of_ne hij]

theorem notifyWaiters_notify :
    ((s.notifyWaiters i).slots j).notify =
      if j = i then (s.slots j).notify + 1 else (s.slots j).notify := by
  by_cases hij : j = i
  · simp [State.notifyWaiters, hij]
  · simp [State.notifyWaiters, hij]

theorem getElem?_goto (ht : s.tasks[t]? = some old) :
    (s.goto t τ).tasks[u]? = if t = u then some τ else s.tasks[u]? := by
  obtain ⟨hlt, -⟩ := List.getElem?_eq_some_iff.1 ht
  rw [State.goto, List.getElem?_set, if_pos hlt]

theorem getElem?_start :
    (s.start τ).tasks[u]? = if u = s.tasks.length then some τ else s.tasks[u]? := by
  rw [State.start, List.getElem?_append]
  obtain hlt | rfl | hgt := Nat.lt_trichotomy u s.tasks.length
  · rw [if_pos hlt, if_neg (Nat.ne_of_lt hlt)]
  · rw [if_neg (Nat.lt_irrefl _), if_pos rfl, Nat.sub_self, List.getElem?_singleton, if_pos rfl]
  · rw [if_neg (by omega), if_neg (by omega), List.getElem?_singleton, if_neg (by omega),
      List.getElem?_eq_none (by omega)]

theorem ownedAt_of_getElem? (ht : s.tasks[t]? = some τ) : s.ownedAt t = τ.owned? := by
  rw [State.ownedAt, ht, Option.bind_some]

theorem ownedAt_goto (ht : s.tasks[t]? = some old) :
    (s.goto t τ).ownedAt u = if t = u then τ.owned? else s.ownedAt u := by
  rw [State.ownedAt, getElem?_goto ht]
  split <;> rfl

theorem ownedAt_start :
    (s.start τ).ownedAt u = if u = s.tasks.length then τ.owned? else s.ownedAt u := by
  rw [State.ownedAt, getElem?_start]
  split <;> rfl

/-! ## the map and the guards stay in agreement -/

/-- Moving a request to a place with the entry it had, or none. -/
theorem coherent_goto (h : s.Coherent) (ht : s.tasks[t]? = some old)
    (hentry : τ.owned? = old.owned? ∨ τ.owned? = none)
    (hnotifying : ∀ g why, τ ≠ .notifying g why) : (s.goto t τ).Coherent := by
  have hentries : ∀ {u k i}, (s.goto t τ).ownedAt u = some (k, i) → s.ownedAt u = some (k, i) := by
    intro u k i hu
    rw [ownedAt_goto ht] at hu
    split at hu
    case isTrue htu =>
      subst htu
      rw [ownedAt_of_getElem? ht]
      obtain heq | hnone := hentry
      · rw [← heq, hu]
      · rw [hnone] at hu
        contradiction
    case isFalse => exact hu
  refine ⟨fun hu => h.mapped (hentries hu), fun ht hu => h.unique (hentries ht) (hentries hu),
    h.fresh, h.separate, ?_⟩
  intro u g why hu
  rw [getElem?_goto ht] at hu
  split at hu
  · exact absurd (Option.some.inj hu) (hnotifying g why)
  · exact h.removed hu

theorem coherent_follow (h : s.Coherent) : (s.start (.follower i)).Coherent := by
  have hentries : ∀ {u k j}, (s.start (.follower i)).ownedAt u = some (k, j) →
      s.ownedAt u = some (k, j) := by
    intro u k j hu
    rw [ownedAt_start] at hu
    split at hu
    · contradiction
    · exact hu
  refine ⟨fun hu => h.mapped (hentries hu), fun ht hu => h.unique (hentries ht) (hentries hu),
    h.fresh, h.separate, ?_⟩
  intro u g why hu
  rw [getElem?_start] at hu
  split at hu
  · cases hu
  · exact h.removed hu

/-- A new leader: its key was free, its slot is new. -/
theorem coherent_lead (h : s.Coherent) (hkey : s.inflight key = none) :
    ((s.insert key).start (.leader ⟨key, s.allocated, false⟩)).Coherent := by
  have hentry : ∀ {u k i}, ((s.insert key).start (.leader ⟨key, s.allocated, false⟩)).ownedAt u =
      some (k, i) → u = s.tasks.length ∧ k = key ∧ i = s.allocated ∨
        s.ownedAt u = some (k, i) ∧ k ≠ key := by
    intro u k i hu
    rw [ownedAt_start] at hu
    split at hu
    case isTrue hlen =>
      cases hu
      exact .inl ⟨hlen, rfl, rfl⟩
    case isFalse =>
      refine .inr ⟨hu, ?_⟩
      rintro rfl
      have hmapped := h.mapped hu
      rw [hkey] at hmapped
      contradiction
  have hnew : ∀ k, s.inflight k ≠ some s.allocated := fun k hk =>
    Nat.lt_irrefl _ (h.fresh hk).1
  constructor
  case mapped =>
    intro u k i hu
    rw [start_inflight, insert_inflight_eq_some hkey]
    obtain ⟨-, rfl, rfl⟩ | ⟨hu, -⟩ := hentry hu
    · exact .inl ⟨rfl, rfl⟩
    · exact .inr (h.mapped hu)
  case unique =>
    intro u v k i j hu hv
    obtain ⟨rfl, rfl, -⟩ | ⟨hu, hku⟩ := hentry hu <;> obtain ⟨rfl, hkv, -⟩ | ⟨hv, hkv⟩ := hentry hv
    · rfl
    · exact absurd rfl hkv
    · exact absurd hkv hku
    · exact h.unique hu hv
  case fresh =>
    intro k i hk
    rw [start_inflight, insert_inflight_eq_some hkey] at hk
    rw [start_allocated, insert_allocated, start_slots]
    obtain ⟨-, rfl⟩ | hk := hk
    · rw [insert_notify, if_pos rfl]
      exact ⟨Nat.lt_succ_self _, rfl⟩
    · obtain ⟨hlt, hnotify⟩ := h.fresh hk
      rw [insert_notify, if_neg (Nat.ne_of_lt hlt)]
      exact ⟨Nat.lt_succ_of_lt hlt, hnotify⟩
  case separate =>
    intro k k' i hk hk'
    rw [start_inflight, insert_inflight_eq_some hkey] at hk hk'
    obtain ⟨rfl, rfl⟩ | hk := hk <;> obtain ⟨rfl, hi⟩ | hk' := hk'
    · rfl
    · exact absurd hk' (hnew k')
    · exact absurd (hi ▸ hk) (hnew k)
    · exact h.separate hk hk'
  case removed =>
    intro u g why hu
    rw [getElem?_start] at hu
    split at hu
    · cases hu
    · obtain ⟨hlt, hgone⟩ := h.removed hu
      refine ⟨Nat.lt_succ_of_lt hlt, fun k hk => ?_⟩
      rw [start_inflight, insert_inflight_eq_some hkey] at hk
      obtain ⟨-, heq⟩ | hk := hk
      · exact absurd heq (Nat.ne_of_lt hlt)
      · exact hgone k hk

/-- A guard's entry leaves the map, and no other guard's. -/
theorem coherent_remove (h : s.Coherent) (ht : s.tasks[t]? = some (.releasing g why)) :
    ((s.remove g.key).goto t (.notifying g why)).Coherent := by
  have hheld : s.ownedAt t = some (g.key, g.slot) := ownedAt_of_getElem? ht
  have hentry : ∀ {u k i}, ((s.remove g.key).goto t (.notifying g why)).ownedAt u = some (k, i) →
      t ≠ u ∧ s.ownedAt u = some (k, i) := by
    intro u k i hu
    rw [ownedAt_goto (s := s.remove g.key) ht] at hu
    split at hu
    case isTrue => contradiction
    case isFalse htu => exact ⟨htu, hu⟩
  constructor
  case mapped =>
    intro u k i hu
    obtain ⟨htu, hu⟩ := hentry hu
    rw [goto_inflight, remove_inflight_eq_some]
    refine ⟨?_, h.mapped hu⟩
    rintro rfl
    exact htu (h.unique hheld hu)
  case unique => exact fun hu hv => h.unique (hentry hu).2 (hentry hv).2
  case fresh => exact fun hk => h.fresh (remove_inflight_eq_some.1 hk).2
  case separate =>
    exact fun hk hk' =>
      h.separate (remove_inflight_eq_some.1 hk).2 (remove_inflight_eq_some.1 hk').2
  case removed =>
    intro u g' why' hu
    rw [getElem?_goto (s := s.remove g.key) ht] at hu
    split at hu
    · cases hu
      refine ⟨(h.fresh (h.mapped hheld)).1, fun k hk => ?_⟩
      obtain ⟨hkk, hk⟩ := remove_inflight_eq_some.1 hk
      exact hkk (h.separate hk (h.mapped hheld))
    · obtain ⟨hlt, hgone⟩ := h.removed hu
      exact ⟨hlt, fun k hk => hgone k (remove_inflight_eq_some.1 hk).2⟩

theorem coherent_setResult (h : s.Coherent) : (s.setResult i value).Coherent := by
  refine ⟨h.mapped, h.unique, ?_, h.separate, h.removed⟩
  intro k j hk
  rw [setResult_notify]
  exact h.fresh hk

theorem coherent_notifyWaiters (h : s.Coherent) (ht : s.tasks[t]? = some (.notifying g why)) :
    (s.notifyWaiters g.slot).Coherent := by
  refine ⟨h.mapped, h.unique, ?_, h.separate, h.removed⟩
  intro k i hk
  have hi : i ≠ g.slot := by
    rintro rfl
    exact (h.removed ht).2 k hk
  rw [notifyWaiters_notify, if_neg hi]
  exact h.fresh hk

/-- **Step lemma.**  Every step keeps the map and the guards in agreement. -/
theorem coherent_step {e : Event V} (h : s.Coherent) (hs : Step s e s') : s'.Coherent := by
  cases hs with
  | follow hkey => exact coherent_follow h
  | lead hkey => exact coherent_lead h hkey
  | republish ht hg => exact h
  | publish ht hg =>
    exact coherent_goto (coherent_setResult h) ht (.inl (by simp [Task.owned?, hg])) (by simp)
  | dropPublished ht hg => exact coherent_goto h ht (.inr rfl) (by simp)
  | abort ht hg => exact coherent_goto h ht (.inl (by simp [Task.owned?, hg])) (by simp)
  | cancelFollower ht => exact coherent_goto h ht (.inr rfl) (by simp)
  | cancelWaiting ht => exact coherent_goto h ht (.inr rfl) (by simp)
  | remove ht => exact coherent_remove h ht
  | @notify t g why ht =>
    have hnext : (why.next g : Task V).owned? = none ∧
        ∀ g' why', (why.next g : Task V) ≠ .notifying g' why' := by
      cases why <;> simp [Release.next, Task.owned?]
    exact coherent_goto (coherent_notifyWaiters h ht) ht (.inr hnext.1) hnext.2
  | wait ht => exact coherent_goto h ht (.inr rfl) (by simp)
  | resume ht hseen => exact coherent_goto h ht (.inr rfl) (by simp)

theorem coherent_initial : (initial : State V).Coherent := by
  constructor <;> intros <;> contradiction

/-! ## followers -/

/-- A follower that nobody will wake: its slot has been notified, and it has created
its `Notified` future after that, or has yet to create it. -/
def Task.Stranded (s : State V) : Task V → Prop
  | .follower i => 0 < (s.slots i).notify
  | .waiting i seen => 0 < (s.slots i).notify ∧ seen = (s.slots i).notify
  | _ => False

/-- No follower is stranded. -/
def State.NoneStranded (s : State V) : Prop := ∀ τ ∈ s.tasks, ¬ τ.Stranded s

/-- A follower's slot exists, and its future has seen no more calls than were
made on it. -/
def Task.SeenCalls (s : State V) : Task V → Prop
  | .follower i => i < s.allocated
  | .waiting i seen => i < s.allocated ∧ seen ≤ (s.slots i).notify
  | _ => True

def State.SeenCalls (s : State V) : Prop := ∀ τ ∈ s.tasks, τ.SeenCalls s

/-- A slot is notified only when all its followers have created their futures. -/
def FollowersWait (s : State V) : Event V → Prop
  | .notify t =>
    match s.tasks[t]? with
    | some (.notifying g _) => .follower g.slot ∉ s.tasks
    | _ => True
  | _ => True

theorem stranded_iff (h : ∀ i, (s'.slots i).notify = (s.slots i).notify) :
    τ.Stranded s' ↔ τ.Stranded s := by
  cases τ <;> simp only [Task.Stranded, h]

/-- A new slot strands nobody. -/
theorem stranded_of_insert (h : τ.Stranded (s.insert key)) : τ.Stranded s := by
  cases τ with
  | follower i =>
    rw [Task.Stranded, insert_notify] at h
    split at h
    · exact absurd h (Nat.lt_irrefl 0)
    · exact h
  | waiting i seen =>
    rw [Task.Stranded, insert_notify] at h
    split at h
    · exact absurd h.1 (Nat.lt_irrefl 0)
    · exact h
  | _ => exact h

/-- Notifying a slot strands those of its followers that are not waiting yet, and
wakes those that are. -/
theorem stranded_notifyWaiters_iff (hseen : s.SeenCalls) (hnone : s.NoneStranded) (hτ : τ ∈ s.tasks) :
    τ.Stranded (s.notifyWaiters i) ↔ τ = .follower i := by
  have hold := hnone τ hτ
  cases τ with
  | follower j =>
    rw [Task.Stranded] at hold
    rw [Task.Stranded, notifyWaiters_notify, Task.follower.injEq]
    split <;> omega
  | waiting j seen =>
    obtain ⟨-, hle⟩ := hseen _ hτ
    rw [Task.Stranded] at hold
    rw [Task.Stranded, notifyWaiters_notify]
    simp only [reduceCtorEq, iff_false]
    split <;> omega
  | _ => simp [Task.Stranded]

theorem mem_goto {σ : Task V} (h : σ ∈ (s.goto t τ).tasks) : σ ∈ s.tasks ∨ σ = τ :=
  List.mem_or_eq_of_mem_set h

theorem mem_start {σ : Task V} (h : σ ∈ (s.start τ).tasks) : σ ∈ s.tasks ∨ σ = τ := by
  rw [State.start, List.mem_append, List.mem_singleton] at h
  exact h

theorem mem_goto_of_ne {σ : Task V} (ht : s.tasks[t]? = some old) (hσ : σ ∈ s.tasks)
    (hne : σ ≠ old) : σ ∈ (s.goto t τ).tasks := by
  obtain ⟨u, hu⟩ := List.mem_iff_getElem?.1 hσ
  have htu : t ≠ u := by
    rintro rfl
    rw [ht, Option.some.injEq] at hu
    exact hne hu.symm
  refine List.mem_of_getElem? (i := u) ?_
  rw [getElem?_goto ht, if_neg htu, hu]

theorem Task.SeenCalls.mono (h : τ.SeenCalls s) (hallocated : s.allocated ≤ s'.allocated)
    (hnotify : ∀ i < s.allocated, (s.slots i).notify ≤ (s'.slots i).notify) : τ.SeenCalls s' := by
  cases τ with
  | follower i => exact Nat.lt_of_lt_of_le h hallocated
  | waiting i seen =>
    exact ⟨Nat.lt_of_lt_of_le h.1 hallocated, Nat.le_trans h.2 (hnotify i h.1)⟩
  | _ => trivial

theorem seenCalls_goto (h : s.SeenCalls) (hτ : τ.SeenCalls s) : (s.goto t τ).SeenCalls := by
  intro σ hσ
  obtain hσ | rfl := mem_goto hσ
  · exact h σ hσ
  · exact hτ

theorem seenCalls_start (h : s.SeenCalls) (hτ : τ.SeenCalls s) : (s.start τ).SeenCalls := by
  intro σ hσ
  obtain hσ | rfl := mem_start hσ
  · exact h σ hσ
  · exact hτ

/-- **Step lemma.** -/
theorem seenCalls_step {e : Event V} (hcoherent : s.Coherent) (h : s.SeenCalls)
    (hs : Step s e s') : s'.SeenCalls := by
  cases hs with
  | follow hkey => exact seenCalls_start h (hcoherent.fresh hkey).1
  | lead hkey =>
    refine seenCalls_start (fun σ hσ => (h σ hσ).mono (Nat.le_succ _) fun i hi => ?_) trivial
    exact Nat.le_of_eq (insert_notify.trans (if_neg (Nat.ne_of_lt hi))).symm
  | republish ht hg => exact h
  | publish ht hg =>
    exact seenCalls_goto (fun σ hσ => (h σ hσ).mono (Nat.le_refl _) fun i _ =>
      Nat.le_of_eq setResult_notify.symm) trivial
  | remove ht => exact seenCalls_goto (s := s.remove _) h trivial
  | @notify t g why ht =>
    refine seenCalls_goto (fun σ hσ => (h σ hσ).mono (Nat.le_refl _) fun i _ => ?_) ?_
    · rw [notifyWaiters_notify]
      split <;> omega
    · cases why <;> trivial
  | wait ht => exact seenCalls_goto h ⟨h _ (List.mem_of_getElem? ht), Nat.le_refl _⟩
  | dropPublished | abort | cancelFollower | cancelWaiting | resume => exact seenCalls_goto h trivial

theorem noneStranded_goto (h : s.NoneStranded) (hτ : ¬ τ.Stranded s) :
    (s.goto t τ).NoneStranded := by
  intro σ hσ
  obtain hσ | rfl := mem_goto hσ
  · exact h σ hσ
  · exact hτ

theorem noneStranded_start (h : s.NoneStranded) (hτ : ¬ τ.Stranded s) :
    (s.start τ).NoneStranded := by
  intro σ hσ
  obtain hσ | rfl := mem_start hσ
  · exact h σ hσ
  · exact hτ

/-- The step that can strand followers: nobody is stranded by it iff all followers
of the slot wait already. -/
theorem noneStranded_notify_iff (hseen : s.SeenCalls) (hnone : s.NoneStranded)
    (ht : s.tasks[t]? = some (.notifying g why)) :
    ((s.notifyWaiters g.slot).goto t (why.next g)).NoneStranded ↔
      .follower g.slot ∉ s.tasks := by
  constructor
  · intro h hmem
    have hmem' : .follower g.slot ∈ ((s.notifyWaiters g.slot).goto t (why.next g)).tasks :=
      mem_goto_of_ne (s := s.notifyWaiters g.slot) ht hmem (by simp)
    exact h _ hmem' ((stranded_notifyWaiters_iff hseen hnone hmem).2 rfl)
  · intro h
    refine noneStranded_goto (fun σ hσ hstranded => ?_) (by cases why <;> exact id)
    rw [stranded_notifyWaiters_iff hseen hnone hσ] at hstranded
    exact h (hstranded ▸ hσ)

/-- **Step lemma.**  No other step strands a follower. -/
theorem noneStranded_step_iff {e : Event V} (hcoherent : s.Coherent) (hseen : s.SeenCalls)
    (hnone : s.NoneStranded) (hs : Step s e s') : s'.NoneStranded ↔ FollowersWait s e := by
  cases hs with
  | follow hkey =>
    -- a slot in the map has not been notified
    refine iff_of_true (noneStranded_start hnone ?_) trivial
    rw [Task.Stranded, (hcoherent.fresh hkey).2]
    exact Nat.lt_irrefl 0
  | lead hkey =>
    exact iff_of_true
      (noneStranded_start (fun σ hσ h => hnone σ hσ (stranded_of_insert h)) id) trivial
  | republish ht hg => exact iff_of_true hnone trivial
  | publish ht hg =>
    refine iff_of_true (noneStranded_goto (fun σ hσ h => hnone σ hσ ?_) id) trivial
    exact (stranded_iff fun i => setResult_notify).1 h
  | remove ht => exact iff_of_true (noneStranded_goto (s := s.remove _) hnone id) trivial
  | notify ht =>
    rw [noneStranded_notify_iff hseen hnone ht, FollowersWait, ht]
  | wait ht =>
    refine iff_of_true (noneStranded_goto hnone ?_) trivial
    exact fun h => hnone _ (List.mem_of_getElem? ht) h.1
  | dropPublished | abort | cancelFollower | cancelWaiting | resume =>
    exact iff_of_true (noneStranded_goto hnone id) trivial

/-- **Exactly when nobody is stranded.**  In a run of any requests for any keys, no
state has a stranded follower iff each slot is notified only when all its followers
have created their futures. -/
theorem followers_woken_along_iff (es : List (Event V)) :
    Along step (fun _ _ s' => s'.NoneStranded) (initial : State V) es ↔
      Guarded step FollowersWait (initial : State V) es := by
  refine along_iff_guarded
    (I := fun s : State V => s.Coherent ∧ s.SeenCalls ∧ s.NoneStranded) ?_ ?_ ?_
  · rintro s e s' ⟨hcoherent, hseen, hnone⟩ hwait hs
    have hstep := Step.of_step hs
    exact ⟨coherent_step hcoherent hstep, seenCalls_step hcoherent hseen hstep,
      (noneStranded_step_iff hcoherent hseen hnone hstep).2 hwait⟩
  · rintro s e s' ⟨hcoherent, hseen, hnone⟩ hs
    exact noneStranded_step_iff hcoherent hseen hnone (Step.of_step hs)
  · exact ⟨coherent_initial, List.forall_mem_nil _, List.forall_mem_nil _⟩

/-! ## stranded for good -/

/-- The slot a guard will notify yet. -/
def Task.leads? : Task V → Option Nat
  | .leader g => if g.published then none else some g.slot
  | .releasing g _ => some g.slot
  | .notifying g _ => some g.slot
  | _ => none

/-- A slot that no guard will notify. -/
structure State.Retired (s : State V) (i : Nat) : Prop where
  allocated : i < s.allocated
  unled : ∀ τ ∈ s.tasks, τ.leads? ≠ some i

theorem retired_goto (h : s.Retired i) (ht : s.tasks[t]? = some old)
    (hτ : τ.leads? = old.leads? ∨ τ.leads? = none) : (s.goto t τ).Retired i := by
  refine ⟨h.allocated, fun σ hσ => ?_⟩
  obtain hσ | rfl := mem_goto hσ
  · exact h.unled σ hσ
  · obtain heq | hnone := hτ
    · rw [heq]
      exact h.unled old (List.mem_of_getElem? ht)
    · rw [hnone]
      exact nofun

/-- **Step lemma.**  A retired slot stays retired, and is not notified. -/
theorem retired_step {e : Event V} (h : s.Retired i) (hs : Step s e s') :
    s'.Retired i ∧ (s'.slots i).notify = (s.slots i).notify := by
  cases hs with
  | follow hkey =>
    refine ⟨⟨h.allocated, fun σ hσ => ?_⟩, rfl⟩
    obtain hσ | rfl := mem_start hσ
    · exact h.unled σ hσ
    · exact nofun
  | lead hkey =>
    refine ⟨⟨Nat.lt_succ_of_lt h.allocated, fun σ hσ => ?_⟩, ?_⟩
    · obtain hσ | rfl := mem_start hσ
      · exact h.unled σ hσ
      · exact fun heq => Nat.lt_irrefl _ (Option.some.inj heq ▸ h.allocated)
    · rw [start_slots, insert_notify, if_neg (Nat.ne_of_lt h.allocated)]
  | republish ht hg => exact ⟨h, rfl⟩
  | @publish t value g ht hg =>
    have hstored : (s.setResult g.slot value).Retired i := ⟨h.allocated, h.unled⟩
    exact ⟨retired_goto hstored ht (.inl (by simp [Task.leads?, hg])), setResult_notify⟩
  | abort ht hg => exact ⟨retired_goto h ht (.inl (by simp [Task.leads?, hg])), rfl⟩
  | @remove t g why ht =>
    have hremoved : (s.remove g.key).Retired i := ⟨h.allocated, h.unled⟩
    exact ⟨retired_goto hremoved ht (.inl rfl), rfl⟩
  | @notify t g why ht =>
    have hnotified : (s.notifyWaiters g.slot).Retired i := ⟨h.allocated, h.unled⟩
    have hne : i ≠ g.slot := fun heq =>
      h.unled _ (List.mem_of_getElem? ht) (by rw [heq]; rfl)
    refine ⟨retired_goto hnotified ht (.inr (by cases why <;> rfl)), ?_⟩
    rw [goto_slots, notifyWaiters_notify, if_neg hne]
  | dropPublished ht | cancelFollower ht | cancelWaiting ht | wait ht | resume ht =>
    exact ⟨retired_goto h ht (.inr rfl), rfl⟩

/-- The request that takes the step; `acquire` starts a new one. -/
def Event.actor? : Event V → Option Nat
  | .acquire _ => none
  | .publish t _ | .drop t | .remove t | .notify t | .wait t | .resume t => some t

/-- **Frame.**  A step leaves the other requests where they are. -/
theorem getElem?_step {e : Event V} (hs : Step s e s') (ht : s.tasks[t]? = some τ)
    (hactor : e.actor? ≠ some t) : s'.tasks[t]? = some τ := by
  obtain ⟨hlt, -⟩ := List.getElem?_eq_some_iff.1 ht
  have hstart : ∀ {σ : Task V}, (s.tasks ++ [σ])[t]? = some τ := fun {σ} => by
    rw [List.getElem?_append_left hlt, ht]
  have hgoto : ∀ {u : Nat} {σ : Task V}, some u ≠ some t → (s.tasks.set u σ)[t]? = some τ :=
    fun {u σ} hne => by
      rw [List.getElem?_set_ne (fun heq => hne (congrArg some heq)), ht]
  cases hs with
  | follow | lead => exact hstart
  | republish => exact ht
  | _ => exact hgoto hactor

/-- A request that waits on a slot and has seen all its calls, or was cancelled. -/
def State.Hangs (s : State V) (t i : Nat) : Prop :=
  s.tasks[t]? = some (.waiting i (s.slots i).notify) ∨ s.tasks[t]? = some .finished

/-- **Step lemma.**  Nothing but a cancellation moves a request that hangs on a
retired slot. -/
theorem hangs_step {e : Event V} (h : s.Retired i) (ht : s.Hangs t i) (hs : Step s e s') :
    s'.Hangs t i := by
  rw [State.Hangs, (retired_step h hs).2]
  by_cases hactor : e.actor? = some t
  · obtain ht | ht := ht
    · cases hs with
      | cancelWaiting hu =>
        cases hactor
        exact .inr (by rw [getElem?_goto hu, if_pos rfl])
      | resume hu hseen =>
        cases hactor
        rw [ht] at hu
        cases hu
        exact absurd rfl hseen
      -- the other steps are not those of a waiting request
      | _ => cases hactor <;> simp_all
    · cases hs <;> cases hactor <;> simp_all
  · obtain ht | ht := ht
    · exact .inl (getElem?_step hs ht hactor)
    · exact .inr (getElem?_step hs ht hactor)

/-- **Run lemma.**  Once it hangs, it hangs for ever. -/
theorem hangs_run {es : List (Event V)} (h : s.Retired i) (ht : s.Hangs t i)
    (hrun : run step s es = some s') : s'.Hangs t i := by
  refine (invariant_of_run (I := fun s : State V => s.Retired i ∧ s.Hangs t i) ?_ ⟨h, ht⟩ hrun).2
  rintro s e s' ⟨h, ht⟩ hs
  have hstep := Step.of_step hs
  exact ⟨(retired_step h hstep).1, hangs_step h ht hstep⟩

/-- Two requests for one key; the leader publishes and notifies before the follower
has created its future. -/
def lateFollower : List (Event Nat) :=
  [.acquire "GET:/", .acquire "GET:/", .publish 0 7, .remove 0, .notify 0, .wait 1]

/-- The follower waits on a slot that was notified before, and never gets the
value. -/
theorem follower_stranded :
    ∃ s, run step initial lateFollower = some s ∧ ¬ s.NoneStranded ∧
      s.tasks = [.leader ⟨"GET:/", 0, true⟩, .waiting 0 1] ∧
      ∀ es s', run step s es = some s' →
        s'.tasks[1]? = some (.waiting 0 (s'.slots 0).notify) ∨ s'.tasks[1]? = some .finished := by
  obtain ⟨s, hrun, htasks, hnotify, hallocated⟩ : ∃ s, run step initial lateFollower = some s ∧
      s.tasks = [.leader ⟨"GET:/", 0, true⟩, .waiting 0 1] ∧ (s.slots 0).notify = 1 ∧
        s.allocated = 1 := by
    refine ⟨_, rfl, ?_, ?_, ?_⟩ <;> decide
  refine ⟨s, hrun, ?_, htasks, ?_⟩
  · intro hnone
    refine hnone (.waiting 0 1) (by simp [htasks]) ?_
    rw [Task.Stranded, hnotify]
    exact ⟨Nat.one_pos, rfl⟩
  · intro es s' hrun'
    have hretired : s.Retired 0 := by
      refine ⟨by omega, ?_⟩
      rw [htasks]
      decide
    exact hangs_run hretired (.inl (by rw [htasks, hnotify]; rfl)) hrun'

end Turbine.Cache
