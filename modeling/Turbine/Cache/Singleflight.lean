import Turbine.Cache.Coalescer

/-!
# Turbine.Cache.Singleflight

What the coalescer promises its callers: one leader for each key in flight, and
for each follower the value of its own leader.

`publish` and the guard's `drop` remove the entry of a key, not of a slot, each
under a lock of its own.  That the entry is the guard's own one rests on the
flag: a guard removes its entry at most once, and as long as it has not, no one
else can lead the key.

* `singleflight`: both, over every run.
-/

namespace Turbine.Cache

open Base

variable {V : Type} {s s' : State V} {e : Event V} {t i : Nat} {τ old : Task V} {key : String}
  {g : LeaderGuard} {why : Release} {log : List (Nat × Option V)}

/-! ## every entry has a guard -/

/-- Every key in flight has a guard that has not removed it. -/
def State.Led (s : State V) : Prop := ∀ k i, s.inflight k = some i → ∃ t, s.ownedAt t = some (k, i)

/-- A request that moves keeps the entry it has. -/
theorem led_goto (h : s.Led) (ht : s.tasks[t]? = some old) (howned : τ.owned? = old.owned?) :
    (s.goto t τ).Led := by
  intro k i hk
  obtain ⟨u, hu⟩ := h k i hk
  have hkept : (s.goto t τ).ownedAt u = s.ownedAt u := by
    rw [ownedAt_goto ht]
    split
    case isTrue htu => rw [← htu, ownedAt_of_getElem? ht, howned]
    case isFalse => rfl
  exact ⟨u, hkept.trans hu⟩

theorem ownedAt_start_of_some {k : String} {u : Nat} (hu : s.ownedAt u = some (k, i)) :
    (s.start τ).ownedAt u = some (k, i) := by
  have hlt : u ≠ s.tasks.length := by
    rintro rfl
    simp [State.ownedAt] at hu
  rw [ownedAt_start, if_neg hlt, hu]

theorem led_lead (h : s.Led) (hkey : s.inflight key = none) :
    ((s.insert key).start (.leader ⟨key, s.allocated, false⟩)).Led := by
  intro k i hk
  rw [start_inflight, insert_inflight_eq_some hkey] at hk
  obtain ⟨rfl, rfl⟩ | hk := hk
  · refine ⟨s.tasks.length, ?_⟩
    have hlen : (s.insert k).tasks.length = s.tasks.length := rfl
    rw [ownedAt_start, if_pos hlen.symm]
    simp [Task.owned?]
  · obtain ⟨u, hu⟩ := h k i hk
    exact ⟨u, ownedAt_start_of_some (s := s.insert key) hu⟩

/-- The guard that removes the entry of its key leaves the entries of the others. -/
theorem led_remove (h : s.Led) (ht : s.tasks[t]? = some (.releasing g why)) :
    ((s.remove g.key).goto t (.notifying g why)).Led := by
  intro k i hk
  obtain ⟨hne, hk⟩ := remove_inflight_eq_some.1 hk
  obtain ⟨u, hu⟩ := h k i hk
  have htu : t ≠ u := by
    rintro rfl
    have hheld : s.ownedAt t = some (g.key, g.slot) := ownedAt_of_getElem? ht
    rw [hheld] at hu
    exact hne (congrArg Prod.fst (Option.some.inj hu)).symm
  refine ⟨u, ?_⟩
  rw [ownedAt_goto (s := s.remove g.key) ht, if_neg htu]
  exact hu

/-- **Step lemma.** -/
theorem led_step (h : s.Led) (hs : Step s e s') : s'.Led := by
  cases hs with
  | follow hkey =>
    intro k i hk
    obtain ⟨u, hu⟩ := h k i hk
    exact ⟨u, ownedAt_start_of_some hu⟩
  | lead hkey => exact led_lead h hkey
  | republish ht hg => exact h
  | @publish t value g ht hg =>
    have hstored : (s.setResult g.slot value).Led := h
    exact led_goto hstored ht (by simp [Task.owned?, hg])
  | dropPublished ht hg => exact led_goto h ht (by simp [Task.owned?, hg])
  | abort ht hg => exact led_goto h ht (by simp [Task.owned?, hg])
  | remove ht => exact led_remove h ht
  | @notify t g why ht =>
    have hnotified : (s.notifyWaiters g.slot).Led := h
    exact led_goto hnotified ht (by cases why <;> simp [Release.next, Task.owned?])
  | cancelFollower ht | cancelWaiting ht | wait ht | resume ht hseen =>
    exact led_goto h ht (by simp [Task.owned?])

theorem inflight_iff (hcoherent : s.Coherent) (h : s.Led) :
    (s.inflight key).isSome = true ↔ ∃! t, ∃ i, s.ownedAt t = some (key, i) := by
  constructor
  · intro hkey
    obtain ⟨i, hi⟩ := Option.isSome_iff_exists.1 hkey
    obtain ⟨t, ht⟩ := h key i hi
    refine ⟨t, ⟨i, ht⟩, ?_⟩
    rintro u ⟨j, hu⟩
    exact hcoherent.unique hu ht
  · rintro ⟨t, ⟨i, ht⟩, -⟩
    rw [hcoherent.mapped ht]
    rfl

/-- An entry that the step takes out of the map is that of the guard that takes it: the
same key, and the slot the guard inserted. -/
def RemovesOwn (s : State V) (e : Event V) (s' : State V) : Prop :=
  ∀ k i, s.inflight k = some i → s'.inflight k = some i ∨
    ∃ t, e = .remove t ∧ s.ownedAt t = some (k, i)

/-- **Step lemma.** -/
theorem entries_step (hcoherent : s.Coherent) (hs : Step s e s') : RemovesOwn s e s' := by
  intro k i hk
  cases hs with
  | lead hkey =>
    rw [start_inflight, insert_inflight_eq_some hkey]
    exact .inl (.inr hk)
  | @remove t g why ht =>
    rw [goto_inflight, remove_inflight_eq_some]
    by_cases hkey : k = g.key
    · have hheld : s.ownedAt t = some (g.key, g.slot) := ownedAt_of_getElem? ht
      have hslot : g.slot = i := by
        have hmapped := hcoherent.mapped hheld
        rw [← hkey, hk] at hmapped
        exact (Option.some.inj hmapped).symm
      rw [hkey, ← hslot]
      exact .inr ⟨t, rfl, hheld⟩
    · exact .inl ⟨hkey, hk⟩
  | _ => exact .inl hk

/-! ## what becomes of a slot -/

/-- What the step does with a slot: its leader publishes a value, or is dropped before it
has published one. -/
def released (s : State V) : Event V → List (Nat × Option V)
  | .publish t value =>
    match s.tasks[t]? with
    | some (.leader g) => if g.published then [] else [(g.slot, some value)]
    | _ => []
  | .drop t =>
    match s.tasks[t]? with
    | some (.leader g) => if g.published then [] else [(g.slot, none)]
    | _ => []
  | _ => []

/-- The slots that a leader has given up. -/
def slotsOf (log : List (Nat × Option V)) : List Nat := log.map Prod.fst

/-- How a request fits what was done with its slot. -/
def Task.Recorded (log : List (Nat × Option V)) : Task V → Prop
  | .leader g => g.published = false → g.slot ∉ slotsOf log
  | .releasing g _ | .notifying g _ => g.slot ∈ slotsOf log
  | .received i value => (i, value) ∈ log
  | .follower _ | .waiting _ _ | .finished => True

/-- The slots hold what the record says. -/
structure State.Recorded (s : State V) (log : List (Nat × Option V)) : Prop where
  nodup : (slotsOf log).Nodup
  allocated : ∀ i ∈ slotsOf log, i < s.allocated
  stored : ∀ i value, (i, value) ∈ log → (s.slots i).result = value
  unset : ∀ i, i ∉ slotsOf log → (s.slots i).result = none
  notified : ∀ i, 0 < (s.slots i).notify → i ∈ slotsOf log
  tasks : ∀ τ ∈ s.tasks, τ.Recorded log

@[simp] theorem mem_slotsOf_append {entry : Nat × Option V} :
    i ∈ slotsOf (log ++ [entry]) ↔ i ∈ slotsOf log ∨ i = entry.1 := by
  simp [slotsOf, eq_comm]

theorem mem_slotsOf {value : Option V} (h : (i, value) ∈ log) : i ∈ slotsOf log :=
  List.mem_map.2 ⟨_, h, rfl⟩

/-- A new entry of the record is none of the business of the others. -/
theorem Task.Recorded.append {entry : Nat × Option V} (h : τ.Recorded log)
    (hleader : ∀ g, τ = .leader g → g.published = false → g.slot ≠ entry.1) :
    τ.Recorded (log ++ [entry]) := by
  cases τ with
  | leader g =>
    intro hg
    have hnot : g.slot ∉ slotsOf log := h hg
    simp [hnot, hleader g rfl hg]
  | releasing g why | notifying g why => exact mem_slotsOf_append.2 (.inl h)
  | received i value => exact List.mem_append_left _ h
  | follower i | waiting i seen | finished => trivial

theorem recorded_goto (h : s.Recorded log) (hτ : τ.Recorded log) : (s.goto t τ).Recorded log := by
  refine ⟨h.nodup, h.allocated, h.stored, h.unset, h.notified, fun σ hσ => ?_⟩
  obtain hσ | rfl := mem_goto hσ
  · exact h.tasks σ hσ
  · exact hτ

theorem recorded_start (h : s.Recorded log) (hτ : τ.Recorded log) : (s.start τ).Recorded log := by
  refine ⟨h.nodup, h.allocated, h.stored, h.unset, h.notified, fun σ hσ => ?_⟩
  obtain hσ | rfl := mem_start hσ
  · exact h.tasks σ hσ
  · exact hτ

theorem recorded_insert (h : s.Recorded log) : (s.insert key).Recorded log := by
  have hslot : ∀ i, (s.insert key).slots i = if i = s.allocated then {} else s.slots i := by
    intro i
    by_cases hi : i = s.allocated <;> simp [State.insert, hi]
  refine ⟨h.nodup, fun i hi => Nat.lt_succ_of_lt (h.allocated i hi), fun i value hi => ?_,
    fun i hi => ?_, fun i hi => ?_, h.tasks⟩
  · have hlt := h.allocated i (mem_slotsOf hi)
    rw [hslot, if_neg (Nat.ne_of_lt hlt)]
    exact h.stored i value hi
  · rw [hslot]
    split
    · rfl
    · exact h.unset i hi
  · rw [hslot] at hi
    split at hi
    · exact absurd hi (Nat.lt_irrefl 0)
    · exact h.notified i hi

theorem State.Coherent.owner_unique {u : Nat} {k k' : String} (h : s.Coherent)
    (ht : s.ownedAt t = some (k, i)) (hu : s.ownedAt u = some (k', i)) : t = u := by
  obtain rfl := h.separate (h.mapped ht) (h.mapped hu)
  exact h.unique ht hu

/-- A leader gives up its slot, with a value or without. -/
theorem recorded_release {r : State V} {value : Option V} (hcoherent : s.Coherent)
    (h : s.Recorded log) (ht : s.tasks[t]? = some (.leader g)) (hg : g.published = false)
    (htasks : r.tasks = s.tasks) (hallocated : r.allocated = s.allocated)
    (hresult : (r.slots g.slot).result = value) (hother : ∀ i ≠ g.slot, r.slots i = s.slots i)
    (hnotify : ∀ i, (r.slots i).notify = (s.slots i).notify) :
    (r.goto t (.releasing g why)).Recorded (log ++ [(g.slot, value)]) := by
  have howned : s.ownedAt t = some (g.key, g.slot) := by
    simp [ownedAt_of_getElem? ht, Task.owned?, hg]
  have hnew : g.slot ∉ slotsOf log := h.tasks _ (List.mem_of_getElem? ht) hg
  constructor
  case nodup =>
    have happend : slotsOf (log ++ [(g.slot, value)]) = slotsOf log ++ [g.slot] := by simp [slotsOf]
    rw [happend, List.nodup_append]
    refine ⟨h.nodup, by simp, fun i hi j hj => ?_⟩
    rw [List.mem_singleton.1 hj]
    rintro rfl
    exact hnew hi
  case allocated =>
    intro i hi
    rw [goto_allocated, hallocated]
    obtain hi | rfl := mem_slotsOf_append.1 hi
    · exact h.allocated i hi
    · exact (hcoherent.fresh (hcoherent.mapped howned)).1
  case stored =>
    intro i v hi
    rw [goto_slots]
    obtain hi | hi := List.mem_append.1 hi
    · have hne : i ≠ g.slot := by
        rintro rfl
        exact hnew (mem_slotsOf hi)
      rw [hother i hne]
      exact h.stored i v hi
    · obtain ⟨rfl, rfl⟩ := Prod.mk.inj (List.mem_singleton.1 hi)
      exact hresult
  case unset =>
    intro i hi
    rw [mem_slotsOf_append, not_or] at hi
    rw [goto_slots, hother i hi.2]
    exact h.unset i hi.1
  case notified =>
    intro i hi
    rw [goto_slots, hnotify] at hi
    exact mem_slotsOf_append.2 (.inl (h.notified i hi))
  case tasks =>
    intro σ hσ
    obtain ⟨u, hu⟩ := List.mem_iff_getElem?.1 hσ
    rw [getElem?_goto (s := r) (htasks ▸ ht), htasks] at hu
    split at hu
    · obtain rfl := Option.some.inj hu
      exact mem_slotsOf_append.2 (.inr rfl)
    case isFalse htu =>
      refine (h.tasks σ (List.mem_of_getElem? hu)).append fun g' hσg hg' hslot => ?_
      -- another leader with the slot would have its entry for it
      have howned' : s.ownedAt u = some (g'.key, g.slot) := by
        simp [ownedAt_of_getElem? hu, hσg, Task.owned?, hg', hslot]
      exact htu (hcoherent.owner_unique howned howned')

theorem recorded_notifyWaiters (h : s.Recorded log) (hi : i ∈ slotsOf log) :
    (s.notifyWaiters i).Recorded log := by
  have hresult : ∀ j, ((s.notifyWaiters i).slots j).result = (s.slots j).result := by
    intro j
    by_cases hj : j = i <;> simp [State.notifyWaiters, hj]
  refine ⟨h.nodup, h.allocated, fun j v hj => ?_, fun j hj => ?_, fun j hj => ?_, h.tasks⟩
  · rw [hresult]
    exact h.stored j v hj
  · rw [hresult]
    exact h.unset j hj
  · rw [notifyWaiters_notify] at hj
    split at hj
    case isTrue heq => exact heq ▸ hi
    case isFalse => exact h.notified j hj

theorem State.Recorded.quiet (hnone : released s e = []) (h : s'.Recorded log) :
    s'.Recorded (log ++ released s e) := by
  rw [hnone, List.append_nil]
  exact h

/-- **Step lemma.**  The slots go on holding what the record says. -/
theorem recorded_step (hcoherent : s.Coherent) (hseen : s.SeenCalls) (h : s.Recorded log)
    (hs : Step s e s') : s'.Recorded (log ++ released s e) := by
  have hat : ∀ {t : Nat} {τ : Task V}, s.tasks[t]? = some τ → τ.Recorded log :=
    fun ht => h.tasks _ (List.mem_of_getElem? ht)
  cases hs with
  | follow hkey => exact .quiet rfl (recorded_start h trivial)
  | lead hkey =>
    have hnew : s.allocated ∉ slotsOf log := fun hmem => Nat.lt_irrefl _ (h.allocated _ hmem)
    exact .quiet rfl (recorded_start (recorded_insert h) fun _ => hnew)
  | republish ht hg => exact .quiet (by simp [released, ht, hg]) h
  | @publish t value g ht hg =>
    have hgiven : released s (.publish t value) = [(g.slot, some value)] := by
      simp [released, ht, hg]
    have hresult : ((s.setResult g.slot value).slots g.slot).result = some value := by
      simp [State.setResult]
    rw [hgiven]
    exact recorded_release (r := s.setResult g.slot value) hcoherent h ht hg rfl rfl hresult
      (fun i hi => Function.update_of_ne hi ..) (fun i => setResult_notify)
  | dropPublished ht hg => exact .quiet (by simp [released, ht, hg]) (recorded_goto h trivial)
  | @abort t g ht hg =>
    have hgiven : released s (.drop t) = [(g.slot, none)] := by simp [released, ht, hg]
    rw [hgiven]
    exact recorded_release hcoherent h ht hg rfl rfl (h.unset _ (hat ht hg)) (fun _ _ => rfl)
      (fun _ => rfl)
  | cancelFollower ht | cancelWaiting ht =>
    exact .quiet (by simp [released, ht]) (recorded_goto h trivial)
  | @remove t g why ht =>
    have hremoved : (s.remove g.key).Recorded log :=
      ⟨h.nodup, h.allocated, h.stored, h.unset, h.notified, h.tasks⟩
    have hslot : g.slot ∈ slotsOf log := hat ht
    exact .quiet rfl (recorded_goto hremoved hslot)
  | @notify t g why ht =>
    have hnext : (why.next g : Task V).Recorded log := by
      cases why <;> simp [Release.next, Task.Recorded]
    exact .quiet rfl (recorded_goto (recorded_notifyWaiters h (hat ht)) hnext)
  | wait ht => exact .quiet rfl (recorded_goto h trivial)
  | @resume t i seen ht hne =>
    -- the call that woke the follower was made after its slot was given up
    have hle : seen ≤ (s.slots i).notify := (hseen _ (List.mem_of_getElem? ht)).2
    have hgiven : i ∈ slotsOf log := h.notified i (by omega)
    obtain ⟨⟨j, value⟩, hmem, hj⟩ := List.mem_map.1 hgiven
    obtain rfl : j = i := hj
    have hreceived : (j, (s.slots j).result) ∈ log := by
      rw [h.stored j value hmem]
      exact hmem
    exact .quiet rfl (recorded_goto h hreceived)

theorem recorded_initial : (initial : State V).Recorded [] := by
  refine ⟨List.nodup_nil, by simp [slotsOf], by simp, by simp [initial], ?_, by simp [initial]⟩
  intro i hi
  exact absurd hi (Nat.lt_irrefl 0)

/-! ## over every run -/

/-- For every run of any requests for any keys: a key is in the map iff there is one
guard for it that has not removed its entry, and there are never two; no step removes an
entry but that of the guard that takes it; each slot is given up at most once, and
whatever a follower receives is what the leader of its slot gave it up with, a value if it
published one and nothing if it was dropped before. -/
theorem singleflight (es : List (Event V)) (s : State V) (hrun : run step initial es = some s) :
    (∀ key, (s.inflight key).isSome = true ↔ ∃! t, ∃ i, s.ownedAt t = some (key, i)) ∧
      (∀ key t u i j, s.ownedAt t = some (key, i) → s.ownedAt u = some (key, j) → t = u) ∧
      Along step RemovesOwn (initial : State V) es ∧
      (slotsOf (trace step released (initial : State V) es)).Nodup ∧
      ∀ i value, Task.received i value ∈ s.tasks →
        (i, value) ∈ trace step released (initial : State V) es := by
  have hinv : s.Coherent ∧ s.Led ∧ s.SeenCalls ∧ s.Recorded (trace step released initial es) := by
    refine invariant_of_trace
      (I := fun s log => s.Coherent ∧ s.Led ∧ s.SeenCalls ∧ s.Recorded log) ?_ ?_ hrun
    · rintro s log e s' ⟨hcoherent, hled, hseen, hrec⟩ hs
      have hstep := Step.of_step hs
      exact ⟨coherent_step hcoherent hstep, led_step hled hstep,
        seenCalls_step hcoherent hseen hstep, recorded_step hcoherent hseen hrec hstep⟩
    · exact ⟨coherent_initial, nofun, List.forall_mem_nil _, recorded_initial⟩
  obtain ⟨hcoherent, hled, -, hrec⟩ := hinv
  have hentries : Along step RemovesOwn (initial : State V) es :=
    along_of_run (fun s e s' hc hs => ⟨coherent_step hc (.of_step hs), entries_step hc (.of_step hs)⟩)
      coherent_initial
  exact ⟨fun key => inflight_iff hcoherent hled, fun key t u i j => hcoherent.unique, hentries,
    hrec.nodup, fun i value hmem => hrec.tasks _ hmem⟩

/-- A leader publishes to its follower and removes its entry; the next request leads
the key anew before the follower is woken; then the first leader publishes again and is
dropped. -/
def ledTwice : List (Event Nat) :=
  [.acquire "k", .acquire "k", .wait 1, .publish 0 7, .remove 0, .acquire "k", .notify 0,
    .publish 0 8, .drop 0, .resume 1]

/-- The follower has the first leader's value, and the second leader its entry. -/
theorem singleflight_ledTwice :
    ∃ s, run step initial ledTwice = some s ∧
      s.tasks = [.finished, .received 0 (some 7), .leader ⟨"k", 1, false⟩] ∧
      s.inflight "k" = some 1 ∧
      (0, some 7) ∈ trace step released (initial : State Nat) ledTwice := by
  have hrun : ((run step initial ledTwice).map fun s => (s.tasks, s.inflight "k")) =
      some ([.finished, .received 0 (some 7), .leader ⟨"k", 1, false⟩], some 1) := by decide
  obtain ⟨s, hs, hstate⟩ := Option.map_eq_some_iff.1 hrun
  obtain ⟨htasks, hkey⟩ := Prod.mk.inj hstate
  obtain ⟨-, -, -, -, hreceived⟩ := singleflight ledTwice s hs
  exact ⟨s, hs, htasks, hkey, hreceived 0 (some 7) (by simp [htasks])⟩

end Turbine.Cache
