import Turbine.Cache.Coalescer

/-!
# Turbine.Cache.Keyed

Every slot of the coalescer belongs to the key it was allocated for, and what is
published to it was published for that key.

* `keyed_step`: every step keeps `State.Keyed`, as long as what is published is right for
  the guard's key.
-/

namespace Turbine.Cache

open Base

variable {V : Type}

/-- The slot of a request. -/
def Task.slot? : Task V → Option Nat
  | .leader g => some g.slot
  | .releasing g _ => some g.slot
  | .notifying g _ => some g.slot
  | .follower i => some i
  | .waiting i _ => some i
  | .received i _ => some i
  | .finished => none

/-- A guard is for its slot's key, and what was received is right for it. -/
def Task.Keyed (κ : Nat → String) (P : String → V → Prop) : Task V → Prop
  | .leader g => κ g.slot = g.key
  | .releasing g _ => κ g.slot = g.key
  | .notifying g _ => κ g.slot = g.key
  | .received i value => ∀ v, value = some v → P (κ i) v
  | _ => True

/-- Slot `i` belongs to the key `κ i`. -/
structure State.Keyed (κ : Nat → String) (P : String → V → Prop) (s : State V) : Prop where
  mapped : ∀ {k : String} {i : Nat}, s.inflight k = some i → i < s.allocated ∧ κ i = k
  held : ∀ {τ : Task V}, τ ∈ s.tasks → τ.Keyed κ P ∧ ∀ i, τ.slot? = some i → i < s.allocated
  results : ∀ {i : Nat} {v : V}, (s.slots i).result = some v → i < s.allocated ∧ P (κ i) v

variable {s s' : State V} {κ : Nat → String} {P Q : String → V → Prop} {τ old : Task V}
  {t : Nat} {key : String}

theorem keyed_initial : (initial : State V).Keyed κ P where
  mapped := nofun
  held := nofun
  results := nofun

theorem Task.Keyed.mono (h : τ.Keyed κ P) (hPQ : ∀ k v, P k v → Q k v) : τ.Keyed κ Q := by
  cases τ with
  | received i value => exact fun v hv => hPQ _ v (h v hv)
  | leader g => exact h
  | releasing g why => exact h
  | notifying g why => exact h
  | follower i => trivial
  | waiting i seen => trivial
  | finished => trivial

/-- The relation may be weakened. -/
theorem State.Keyed.mono (h : s.Keyed κ P) (hPQ : ∀ k v, P k v → Q k v) : s.Keyed κ Q where
  mapped := h.mapped
  held := fun hτ => ⟨(h.held hτ).1.mono hPQ, (h.held hτ).2⟩
  results := fun hv => ⟨(h.results hv).1, hPQ _ _ (h.results hv).2⟩

/-! ## the updates -/

theorem keyed_goto (h : s.Keyed κ P) (hτ : τ.Keyed κ P)
    (hslot : ∀ i, τ.slot? = some i → i < s.allocated) : (s.goto t τ).Keyed κ P where
  mapped := h.mapped
  held := by
    intro σ hσ
    rcases mem_goto hσ with hσ | rfl
    · exact h.held hσ
    · exact ⟨hτ, hslot⟩
  results := h.results

theorem keyed_finish (h : s.Keyed κ P) : (s.goto t .finished).Keyed κ P :=
  keyed_goto h trivial nofun

theorem keyed_start (h : s.Keyed κ P) (hτ : τ.Keyed κ P)
    (hslot : ∀ i, τ.slot? = some i → i < s.allocated) : (s.start τ).Keyed κ P where
  mapped := h.mapped
  held := by
    intro σ hσ
    rcases mem_start hσ with hσ | rfl
    · exact h.held hσ
    · exact ⟨hτ, hslot⟩
  results := h.results

theorem keyed_remove (h : s.Keyed κ P) : (s.remove key).Keyed κ P where
  mapped := fun hk => h.mapped (remove_inflight_eq_some.1 hk).2
  held := h.held
  results := h.results

theorem keyed_notifyWaiters {i : Nat} (h : s.Keyed κ P) : (s.notifyWaiters i).Keyed κ P where
  mapped := h.mapped
  held := h.held
  results := by
    intro j v hv
    refine h.results ?_
    by_cases hj : j = i
    · subst hj
      simpa [State.notifyWaiters] using hv
    · simpa [State.notifyWaiters, Function.update_of_ne hj] using hv

theorem keyed_setResult {i : Nat} {value : V} (h : s.Keyed κ P) (hi : i < s.allocated)
    (hP : P (κ i) value) : (s.setResult i value).Keyed κ P where
  mapped := h.mapped
  held := h.held
  results := by
    intro j v hv
    by_cases hj : j = i
    · subst hj
      have hvalue : value = v := by simpa [State.setResult] using hv
      exact ⟨hi, hvalue ▸ hP⟩
    · exact h.results (by simpa [State.setResult, Function.update_of_ne hj] using hv)

/-- What is known about a request does not depend on slots allocated later. -/
theorem Task.Keyed.update {n : Nat} (h : τ.Keyed κ P) (hslot : ∀ i, τ.slot? = some i → i < n) :
    τ.Keyed (Function.update κ n key) P := by
  have hold : ∀ i, τ.slot? = some i → Function.update κ n key i = κ i :=
    fun i hi => Function.update_of_ne (Nat.ne_of_lt (hslot i hi)) ..
  cases τ with
  | received i value =>
    intro v hv
    rw [hold i rfl]
    exact h v hv
  | leader g => exact (hold g.slot rfl).trans h
  | releasing g why => exact (hold g.slot rfl).trans h
  | notifying g why => exact (hold g.slot rfl).trans h
  | follower i => trivial
  | waiting i seen => trivial
  | finished => trivial

/-- A new slot belongs to the key it is inserted under. -/
theorem keyed_insert (h : s.Keyed κ P) (hkey : s.inflight key = none) :
    (s.insert key).Keyed (Function.update κ s.allocated key) P where
  mapped := by
    intro k i hi
    rcases (insert_inflight_eq_some hkey).1 hi with ⟨rfl, rfl⟩ | hi
    · exact ⟨Nat.lt_succ_self _, Function.update_self ..⟩
    · obtain ⟨hlt, hk⟩ := h.mapped hi
      exact ⟨Nat.lt_succ_of_lt hlt, (Function.update_of_ne (Nat.ne_of_lt hlt) ..).trans hk⟩
  held := by
    intro τ hτ
    obtain ⟨hkeyed, hslot⟩ := h.held hτ
    exact ⟨hkeyed.update hslot, fun i hi => Nat.lt_succ_of_lt (hslot i hi)⟩
  results := by
    intro i v hv
    by_cases hi : i = s.allocated
    · subst hi
      simp [State.insert] at hv
    · obtain ⟨hlt, hP⟩ := h.results (by simpa [State.insert, Function.update_of_ne hi] using hv)
      refine ⟨Nat.lt_succ_of_lt hlt, ?_⟩
      rwa [Function.update_of_ne hi]

/-! ## steps -/

/-- What is published is right for the guard's key. -/
def PublishesFor (P : String → V → Prop) (s : State V) : Event V → Prop
  | .publish t value => ∀ g, s.tasks[t]? = some (.leader g) → P g.key value
  | _ => True

/-- A request that has just acquired a key has a slot of it. -/
theorem acquired_slot (key : String) (h : s.Keyed κ P) :
    ∃ κ' τ, (∀ i < s.allocated, κ' i = κ i) ∧ (acquire s key).Keyed κ' P ∧
      (acquire s key).tasks[s.tasks.length]? = some τ ∧ ∀ i, τ.slot? = some i → κ' i = key := by
  have hnew : ∀ {r : State V} {τ : Task V}, r.tasks = s.tasks →
      (r.start τ).tasks[s.tasks.length]? = some τ := by
    intro r τ hr
    rw [getElem?_start (s := r), hr, if_pos rfl]
  unfold acquire
  cases hkey : s.inflight key with
  | some i =>
    obtain ⟨hlt, hi⟩ := h.mapped hkey
    refine ⟨κ, .follower i, fun _ _ => rfl, keyed_start h trivial ?_, hnew rfl, ?_⟩
    · rintro _ ⟨⟩
      exact hlt
    · rintro _ ⟨⟩
      exact hi
  | none =>
    refine ⟨Function.update κ s.allocated key, .leader ⟨key, s.allocated, false⟩,
      fun i hi => Function.update_of_ne (Nat.ne_of_lt hi) .., ?_, hnew rfl, ?_⟩
    · refine keyed_start (keyed_insert h hkey) (Function.update_self ..) ?_
      rintro _ ⟨⟩
      exact Nat.lt_succ_self _
    · rintro _ ⟨⟩
      exact Function.update_self ..

/-- **Step lemma.**  A step keeps the keys of the slots there are. -/
theorem keyed_step {e : Event V} (h : s.Keyed κ P) (hs : Step s e s') (he : PublishesFor P s e) :
    ∃ κ', (∀ i < s.allocated, κ' i = κ i) ∧ s'.Keyed κ' P := by
  have hat : ∀ {t : Nat} {τ : Task V}, s.tasks[t]? = some τ →
      τ.Keyed κ P ∧ ∀ i, τ.slot? = some i → i < s.allocated :=
    fun ht => h.held (List.mem_of_getElem? ht)
  cases hs with
  | @follow key i hkey =>
    obtain ⟨κ', -, hold, hkeyed, -⟩ := acquired_slot key h
    exact ⟨κ', hold, by simpa [acquire, hkey] using hkeyed⟩
  | @lead key hkey =>
    obtain ⟨κ', -, hold, hkeyed, -⟩ := acquired_slot key h
    exact ⟨κ', hold, by simpa [acquire, hkey] using hkeyed⟩
  | republish ht hg => exact ⟨κ, fun _ _ => rfl, h⟩
  | @publish t value g ht hg =>
    obtain ⟨hkey, hslot⟩ := hat ht
    have hP : P (κ g.slot) value := by
      rw [show κ g.slot = g.key from hkey]
      exact he g ht
    exact ⟨κ, fun _ _ => rfl, keyed_goto (keyed_setResult h (hslot _ rfl) hP) hkey hslot⟩
  | dropPublished ht hg => exact ⟨κ, fun _ _ => rfl, keyed_finish h⟩
  | abort ht hg =>
    obtain ⟨hkey, hslot⟩ := hat ht
    exact ⟨κ, fun _ _ => rfl, keyed_goto h hkey hslot⟩
  | cancelFollower ht => exact ⟨κ, fun _ _ => rfl, keyed_finish h⟩
  | cancelWaiting ht => exact ⟨κ, fun _ _ => rfl, keyed_finish h⟩
  | remove ht =>
    obtain ⟨hkey, hslot⟩ := hat ht
    exact ⟨κ, fun _ _ => rfl, keyed_goto (keyed_remove h) hkey hslot⟩
  | @notify t g why ht =>
    obtain ⟨hkey, hslot⟩ := hat ht
    refine ⟨κ, fun _ _ => rfl, ?_⟩
    cases why with
    | publish => exact keyed_goto (keyed_notifyWaiters h) hkey hslot
    | drop => exact keyed_finish (keyed_notifyWaiters h)
  | wait ht =>
    obtain ⟨-, hslot⟩ := hat ht
    exact ⟨κ, fun _ _ => rfl, keyed_goto h trivial hslot⟩
  | @resume t i seen ht hseen =>
    obtain ⟨-, hslot⟩ := hat ht
    exact ⟨κ, fun _ _ => rfl, keyed_goto h (fun v hv => (h.results hv).2) hslot⟩

theorem slot?_step {e : Event V} (hs : Step s e s') (ht : s.tasks[t]? = some τ) :
    ∃ τ', s'.tasks[t]? = some τ' ∧ ∀ i, τ'.slot? = some i → τ.slot? = some i := by
  -- a step moves at most one request, and it does not give it another slot
  have hgoto : ∀ {r : State V} {u : Nat} {old new : Task V}, r.tasks = s.tasks →
      s.tasks[u]? = some old → (∀ i, new.slot? = some i → old.slot? = some i) →
      ∃ τ', (r.goto u new).tasks[t]? = some τ' ∧ ∀ i, τ'.slot? = some i → τ.slot? = some i := by
    intro r u old new hr hu hnew
    rw [getElem?_goto (s := r) (t := u) (hr ▸ hu), hr]
    by_cases hut : u = t
    · subst hut
      rw [ht] at hu
      cases hu
      exact ⟨new, if_pos rfl, hnew⟩
    · exact ⟨τ, by rw [if_neg hut, ht], fun _ hi => hi⟩
  have hstart : ∀ {r : State V} {new : Task V}, r.tasks = s.tasks →
      ∃ τ', (r.start new).tasks[t]? = some τ' ∧ ∀ i, τ'.slot? = some i → τ.slot? = some i := by
    intro r new hr
    obtain ⟨hlt, -⟩ := List.getElem?_eq_some_iff.1 ht
    refine ⟨τ, ?_, fun _ hi => hi⟩
    rw [getElem?_start (s := r), hr, if_neg (Nat.ne_of_lt hlt), ht]
  cases hs with
  | follow hkey => exact hstart rfl
  | lead hkey => exact hstart rfl
  | republish hu hg => exact ⟨τ, ht, fun _ hi => hi⟩
  | publish hu hg => exact hgoto rfl hu fun _ hi => hi
  | dropPublished hu hg => exact hgoto rfl hu nofun
  | abort hu hg => exact hgoto rfl hu fun _ hi => hi
  | cancelFollower hu => exact hgoto rfl hu nofun
  | cancelWaiting hu => exact hgoto rfl hu nofun
  | remove hu => exact hgoto rfl hu fun _ hi => hi
  | @notify u g why hu =>
    cases why with
    | publish => exact hgoto rfl hu fun _ hi => hi
    | drop => exact hgoto rfl hu nofun
  | wait hu => exact hgoto rfl hu fun _ hi => hi
  | resume hu hseen => exact hgoto rfl hu fun _ hi => hi

end Turbine.Cache
