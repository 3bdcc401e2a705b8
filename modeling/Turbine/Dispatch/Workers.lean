import Turbine.Dispatch.Inversion

/-!
# Turbine.Dispatch.Workers

Which workers the pool, the fd table and the requests know.  Every spawn
takes a fresh serial number, so a worker that has left the pool never comes
back, and a worker is only ever listed under the slot it was spawned for.

* `renewal_respawn` says which slots a reap gives a new worker: the dead
  slots themselves, or, for native processes, slots past the end;
* `listed_step` says that a step lists no worker but fresh ones anew;
* `numbered_step` is the resulting invariant.
-/

namespace Turbine.Dispatch

open Base

variable {cfg : Config} {s s' : State} {e : Event}

/-! ## new workers of the pool -/

/-- The worker in slot `i` of a pool. -/
def occupantIn (pool : List Occupant) (i : Nat) : Option WorkerId := pool[i]?.map Occupant.id

/-- Exactly the slots in `new` have a new worker, with a fresh serial number. -/
structure Renewal (new : Nat → Prop) (pool : List Occupant) (next : Nat)
    (pool' : List Occupant) (next' : Nat) : Prop where
  le : next ≤ next'
  kept : ∀ i, ¬ new i → occupantIn pool' i = occupantIn pool i
  renewed : ∀ i, new i →
    ∃ serial, occupantIn pool' i = some ⟨i, serial⟩ ∧ next ≤ serial ∧ serial < next'

/-- Slots that get a new worker when the pool respawns the slots in `dead`. -/
def renewedSlots (mode : Mode) (pool : List Occupant) (dead : List Nat) : List Nat :=
  match mode with
  | .nativeProcess => List.range' pool.length dead.length
  | _ => dead

/-- `replace_worker` puts the new worker where the old one was. -/
theorem renewal_replace {mode : Mode} (hm : mode ≠ .nativeProcess) (dead : List Nat)
    (pool : List Occupant) (next : Nat) (hdead : ∀ i ∈ dead, i < pool.length) :
    Renewal (· ∈ dead) pool next (dead.foldl (respawnOne mode) (pool, next)).1
      (dead.foldl (respawnOne mode) (pool, next)).2 := by
  induction dead generalizing pool next with
  | nil => exact ⟨Nat.le_refl _, fun _ _ => rfl, fun _ h => absurd h List.not_mem_nil⟩
  | cons j dead ih =>
    have hone : respawnOne mode (pool, next) j = (pool.set j ⟨⟨j, next⟩, true⟩, next + 1) := by
      cases mode <;> first | rfl | contradiction
    have hj : j < pool.length := hdead j List.mem_cons_self
    have hocc : ∀ i, occupantIn (pool.set j ⟨⟨j, next⟩, true⟩) i =
        if i = j then some ⟨j, next⟩ else occupantIn pool i := by
      intro i
      by_cases hij : i = j
      · subst hij; simp [occupantIn, hj]
      · simp [occupantIn, hij, Ne.symm hij]
    rw [List.foldl_cons, hone]
    obtain ⟨hle, hkept, hnew⟩ := ih (pool.set j ⟨⟨j, next⟩, true⟩) (next + 1)
      (fun i hi => by simpa using hdead i (List.mem_cons_of_mem _ hi))
    refine ⟨by omega, fun i hi => ?_, fun i hi => ?_⟩
    · rw [List.mem_cons, not_or] at hi
      rw [hkept i hi.2, hocc, if_neg hi.1]
    · by_cases hid : i ∈ dead
      · obtain ⟨serial, h1, h2, h3⟩ := hnew i hid
        exact ⟨serial, h1, by omega, h3⟩
      · have hij : i = j := (List.mem_cons.1 hi).resolve_right hid
        refine ⟨next, ?_, Nat.le_refl _, by omega⟩
        rw [hkept i hid, hocc, if_pos hij, hij]

/-- `spawn_one` appends: the dead workers keep their slots. -/
theorem renewal_append (dead : List Nat) (pool : List Occupant) (next : Nat) :
    Renewal (· ∈ List.range' pool.length dead.length) pool next
      (dead.foldl (respawnOne .nativeProcess) (pool, next)).1
      (dead.foldl (respawnOne .nativeProcess) (pool, next)).2 := by
  induction dead generalizing pool next with
  | nil => exact ⟨Nat.le_refl _, fun _ _ => rfl, fun _ h => absurd h (by simp)⟩
  | cons j dead ih =>
    have hocc : ∀ i, occupantIn (pool ++ [⟨⟨pool.length, next⟩, true⟩]) i =
        if i = pool.length then some ⟨pool.length, next⟩ else occupantIn pool i := by
      intro i
      obtain hi | rfl | hi := Nat.lt_trichotomy i pool.length
      · simp [occupantIn, List.getElem?_append_left hi, Nat.ne_of_lt hi]
      · simp [occupantIn]
      · have h1 : pool[i]? = none := by simp; omega
        have h2 : (pool ++ [⟨⟨pool.length, next⟩, true⟩])[i]? = none := by simp; omega
        simp [occupantIn, h1, h2, Nat.ne_of_gt hi]
    rw [List.foldl_cons]
    obtain ⟨hle, hkept, hnew⟩ := ih (pool ++ [⟨⟨pool.length, next⟩, true⟩]) (next + 1)
    simp only [List.mem_range'_1, List.length_append, List.length_cons,
      List.length_nil] at hkept hnew ⊢
    refine ⟨by simp only [respawnOne] at hle ⊢; omega, fun i hi => ?_, fun i hi => ?_⟩
    · refine (hkept i (by omega)).trans ?_
      rw [hocc, if_neg (by omega)]
    · by_cases hlt : pool.length + 1 ≤ i
      · obtain ⟨serial, h1, h2, h3⟩ := hnew i (by omega)
        exact ⟨serial, h1, by omega, h3⟩
      · have hij : i = pool.length := by omega
        refine ⟨next, ?_, Nat.le_refl _, hle⟩
        refine (hkept i (by omega)).trans ?_
        rw [hocc, if_pos hij, hij]

/-- **Respawn.**  A reap gives a new worker to the slots in `renewedSlots`. -/
theorem renewal_respawn (mode : Mode) (pool : List Occupant) (next count : Nat) :
    Renewal (· ∈ renewedSlots mode pool ((deadSlots pool).take count)) pool next
      (respawn mode pool next count).1 (respawn mode pool next count).2 := by
  by_cases hm : mode = .nativeProcess
  · subst hm
    exact renewal_append _ _ _
  · have hslots : renewedSlots mode pool ((deadSlots pool).take count) =
        (deadSlots pool).take count := by
      cases mode <;> first | rfl | contradiction
    rw [hslots]
    refine renewal_replace hm _ _ _ fun i hi => ?_
    have := (List.mem_filter.1 (List.mem_of_mem_take hi)).1
    simpa using this

/-- Workers spawned together take the serial numbers in order. -/
theorem occupantIn_spawnAll {next count i : Nat} :
    occupantIn (spawnAll next count) i =
      if i < count then some ⟨i, next + i⟩ else none := by
  by_cases hi : i < count <;> simp [occupantIn, spawnAll, hi]

/-- Slots that the step gives a new worker. -/
def renewedBy (cfg : Config) (s : State) : Event → List Nat
  | .reap count => renewedSlots cfg.mode s.pool ((deadSlots s.pool).take count)
  | .spawnAdditional => [s.pool.length]
  | _ => []

/-- Unless the file watcher replaces the pool, a step changes the occupants of
the slots in `renewedBy` only. -/
theorem renewal_step (h : Step cfg s e s') (hreload : ∀ count, e ≠ .reload count) :
    Renewal (· ∈ renewedBy cfg s e) s.pool s.nextSerial s'.pool s'.nextSerial := by
  cases h with
  | reap hr => exact renewal_respawn _ _ _ _
  | spawnAdditional => exact renewal_append [0] s.pool s.nextSerial
  | exit =>
    refine ⟨Nat.le_refl _, fun j _ => ?_, fun _ h => absurd h List.not_mem_nil⟩
    simp only [occupantIn, List.getElem?_modify]
    cases s.pool[j]? <;> split <;> rfl
  | reload => exact absurd rfl (hreload _)
  | markDead | poison | mark =>
    exact ⟨by simp [State.goto], fun _ _ => by simp [State.goto],
      fun _ h => absurd h List.not_mem_nil⟩
  | _ => exact ⟨Nat.le_refl _, fun _ _ => rfl, fun _ h => absurd h List.not_mem_nil⟩

/-- The worker was spawned for slot `i` in the step from `s` to `s'`. -/
structure Spawned (s s' : State) (i : Nat) (w : WorkerId) : Prop where
  slot : w.slot = i
  le : s.nextSerial ≤ w.serial
  lt : w.serial < s'.nextSerial

theorem nextSerial_step (h : Step cfg s e s') : s.nextSerial ≤ s'.nextSerial := by
  by_cases hreload : ∀ count, e ≠ .reload count
  · exact (renewal_step h hreload).le
  · obtain ⟨count, rfl⟩ : ∃ count, e = .reload count := by simpa using hreload
    cases h with
    | reload => exact Nat.le_add_right _ _

/-- The occupant of a slot is the old one or freshly spawned. -/
theorem occupant_step (h : Step cfg s e s') {i : Nat} {w : WorkerId}
    (hw : s'.occupant? i = some w) : s.occupant? i = some w ∨ Spawned s s' i w := by
  by_cases hreload : ∀ count, e ≠ .reload count
  · obtain ⟨-, hkept, hnew⟩ := renewal_step h hreload
    by_cases hi : i ∈ renewedBy cfg s e
    · obtain ⟨serial, hocc, hle, hlt⟩ := hnew i hi
      obtain rfl : _ = w := Option.some.inj (hocc.symm.trans hw)
      exact .inr ⟨rfl, hle, hlt⟩
    · exact .inl ((hkept i hi).symm.trans hw)
  · obtain ⟨count, rfl⟩ : ∃ count, e = .reload count := by simpa using hreload
    cases h with
    | reload =>
      have hocc : occupantIn (spawnAll s.nextSerial count) i = some w := hw
      rw [occupantIn_spawnAll] at hocc
      split at hocc
      case isTrue hi =>
        obtain rfl := Option.some.inj hocc
        exact .inr ⟨rfl, Nat.le_add_right _ _, Nat.add_lt_add_left hi _⟩
      case isFalse => contradiction

/-- Worker `w` is listed for slot `i`: by the pool, by the fd table, or by the
fd list that `refresh_fds` is about to install. -/
def State.Listed (s : State) (i : Nat) (w : WorkerId) : Prop :=
  s.occupant? i = some w ∨ s.fds[i]? = some w ∨
    ∃ newFds, s.reaper = .refreshing newFds ∧ newFds[i]? = some w

/-- A step lists no worker anew but freshly spawned ones. -/
theorem listed_step (h : Step cfg s e s') {i : Nat} {w : WorkerId} (hw : s'.Listed i w) :
    s.Listed i w ∨ Spawned s s' i w := by
  obtain hocc | hfds | ⟨newFds, hr', hw⟩ := hw
  · exact (occupant_step h hocc).imp_left .inl
  · left
    cases h with
    | install hr => exact .inr (.inr ⟨_, hr, hfds⟩)
    | markDead | poison | mark => exact .inr (.inl (by simpa [State.goto] using hfds))
    | _ => exact .inr (.inl hfds)
  · cases h with
    | reap hr =>
      obtain rfl := Reaper.refreshing.inj hr'
      rw [List.getElem?_map] at hw
      exact (occupant_step (.reap hr) hw).imp_left .inl
    | tick => dsimp only at hr'; split at hr' <;> cases hr'
    | markDead | poison => exact .inl (.inr (.inr ⟨newFds, by simpa [State.goto] using hr', hw⟩))
    | _ => first | exact .inl (.inr (.inr ⟨newFds, hr', hw⟩)) | cases hr'

/-- A worker is recorded as marked while it occupies a slot whose flag goes up. -/
theorem marked_step (h : Step cfg s e s') {w : WorkerId} (hw : w ∈ s'.marked) :
    w ∈ s.marked ∨ ∃ i < cfg.cap, s.occupant? i = some w ∧ s'.unhealthy i = true := by
  have hmark : ∀ idx, w ∈ (s.markUnhealthy cfg idx).marked →
      w ∈ s.marked ∨ ∃ i < cfg.cap, s.occupant? i = some w ∧
        (s.markUnhealthy cfg idx).unhealthy i = true := by
    intro idx hw
    obtain ⟨hi, hocc⟩ | hw := (s.mem_markUnhealthy_marked cfg idx).1 hw
    · exact .inr ⟨idx, hi, hocc, (s.markUnhealthy_unhealthy cfg idx).2 (.inl ⟨rfl, hi⟩)⟩
    · exact .inl hw
  cases h with
  | markDead ht => exact hmark _ hw
  | poison ht => exact hmark _ hw
  | mark hr => exact hmark _ hw
  | _ => exact .inl hw

/-- A worker is recorded as abandoned when the guard armed with it is dropped
before its request completed; the slot's flag goes up. -/
theorem abandoned_step (h : Step cfg s e s') {w : WorkerId} (hw : w ∈ s'.abandoned) :
    w ∈ s.abandoned ∨
      ∃ t idx, e = .drop t ∧ s.tasks[t]? = some (.guarded ⟨idx, some w, false⟩ .dropping) ∧
        (idx < cfg.cap → s'.unhealthy idx = true) := by
  cases h with
  | @poison t idx v ht =>
    obtain rfl | hw := List.mem_cons.1 hw
    · exact .inr ⟨t, idx, rfl, ht, fun hi => (s.markUnhealthy_unhealthy cfg idx).2 (.inl ⟨rfl, hi⟩)⟩
    · exact .inl hw
  | markDead | mark => exact .inl (by simpa [State.goto] using hw)
  | _ => exact .inl hw

/-- A completion is recorded for the worker that answered the request. -/
theorem completions_step (h : Step cfg s e s') {w : WorkerId} (hw : w ∈ s'.completions) :
    w ∈ s.completions ∨
      ∃ (t : Nat) (g : IdleGuard) (r : Option Reply),
        s.tasks[t]? = some (.guarded g (.replied r)) ∧ w = g.worker := by
  cases h with
  | @record t g r ht =>
    obtain rfl | hw := List.mem_cons.1 hw
    · exact .inr ⟨t, g, r, ht, rfl⟩
    · exact .inl hw
  | markDead | poison | mark => exact .inl (by simpa [State.goto] using hw)
  | _ => exact .inl hw

/-! ## the numbering -/

/-- A request's slot is within the cap, and the worker it was armed with was
spawned for that slot. -/
def Task.Numbered (cfg : Config) (next : Nat) : Task → Prop
  | .checked _ idx => idx < cfg.cap
  | .guarded g _ =>
    g.idx < cfg.cap ∧ ∀ w, g.poisonOnDrop = some w → w.slot = g.idx ∧ w.serial < next
  | _ => True

/-- Every worker anyone knows of has been spawned, and is listed for its own
slot only. -/
structure State.Numbered (cfg : Config) (s : State) : Prop where
  cap_le : cfg.cap ≤ s.nextSerial
  listed : ∀ i w, s.Listed i w → w.slot = i ∧ w.serial < s.nextSerial
  tasks : ∀ τ ∈ s.tasks, τ.Numbered cfg s.nextSerial
  marked : ∀ w ∈ s.marked, w.serial < s.nextSerial
  abandoned : ∀ w ∈ s.abandoned, w.serial < s.nextSerial
  completions : ∀ w ∈ s.completions, w.serial < s.nextSerial

theorem Task.Numbered.mono {τ : Task} {next next' : Nat} (hle : next ≤ next')
    (h : τ.Numbered cfg next) : τ.Numbered cfg next' := by
  cases τ with
  | guarded g st => exact ⟨h.1, fun w hw => ⟨(h.2 w hw).1, Nat.lt_of_lt_of_le (h.2 w hw).2 hle⟩⟩
  | checked k idx => exact h
  | _ => trivial

@[simp] theorem numbered_skip (next k : Nat) : (skip cfg k).Numbered cfg next := by
  unfold skip; split <;> trivial

theorem numbered_guard {t next : Nat} {g : IdleGuard} {st : Stage}
    (hx : ∀ τ ∈ s.tasks, τ.Numbered cfg next) (ht : s.tasks[t]? = some (.guarded g st)) :
    g.idx < cfg.cap ∧ ∀ w, g.poisonOnDrop = some w → w.slot = g.idx ∧ w.serial < next :=
  hx _ (List.mem_of_getElem? ht)

/-- Requests keep to the numbering. -/
theorem numbered_tasks_step (h : Step cfg s e s') (hn : s.Numbered cfg) :
    ∀ τ ∈ s'.tasks, τ.Numbered cfg s.nextSerial := by
  have hx := hn.tasks
  cases h with
  | arrive => exact List.forall_mem_append.2 ⟨hx, List.forall_mem_singleton.2 trivial⟩
  | skipUnhealthy ht h => exact State.forall_goto hx (numbered_skip _ _)
  | skipOverQuota ht h => exact State.forall_goto hx (numbered_skip _ _)
  | check ht hi h => exact State.forall_goto hx hi
  | claim ht h =>
    exact State.forall_goto hx ⟨hx _ (List.mem_of_getElem? ht), fun w hw => by cases hw⟩
  | arm hm ht hw =>
    refine State.forall_goto hx ⟨(numbered_guard hx ht).1, fun w hw' => ?_⟩
    obtain rfl := Option.some.inj hw'
    exact hn.listed _ _ (.inr (.inl hw))
  | record ht => exact State.forall_goto hx ⟨(numbered_guard hx ht).1, (numbered_guard hx ht).2⟩
  | markDead ht =>
    exact State.forall_goto (by simpa using hx) (numbered_guard hx ht)
  | poison ht => exact State.forall_goto (by simpa using hx) trivial
  | mark hr => simpa using hx
  | _ =>
    first
    | exact hx
    | exact State.forall_goto hx trivial
    | exact State.forall_goto hx (numbered_guard hx (‹_› : s.tasks[_]? = some (Task.guarded _ _)))

/-- **Step lemma.**  The numbering is kept. -/
theorem numbered_step (h : Step cfg s e s') (hn : s.Numbered cfg) : s'.Numbered cfg := by
  have hle := nextSerial_step h
  refine ⟨Nat.le_trans hn.cap_le hle, fun i w hw => ?_, fun τ hτ => ?_, fun w hw => ?_,
    fun w hw => ?_, fun w hw => ?_⟩
  · obtain hw | hnew := listed_step h hw
    · exact ⟨(hn.listed i w hw).1, Nat.lt_of_lt_of_le (hn.listed i w hw).2 hle⟩
    · exact ⟨hnew.slot, hnew.lt⟩
  · exact (numbered_tasks_step h hn τ hτ).mono hle
  · obtain hw | ⟨i, -, hocc, -⟩ := marked_step h hw
    · exact Nat.lt_of_lt_of_le (hn.marked w hw) hle
    · exact Nat.lt_of_lt_of_le (hn.listed i w (.inl hocc)).2 hle
  · obtain hw | ⟨t, idx, -, ht, -⟩ := abandoned_step h hw
    · exact Nat.lt_of_lt_of_le (hn.abandoned w hw) hle
    · exact Nat.lt_of_lt_of_le ((numbered_guard hn.tasks ht).2 w rfl).2 hle
  · obtain hw | ⟨t, g, r, ht, rfl⟩ := completions_step h hw
    · exact Nat.lt_of_lt_of_le (hn.completions w hw) hle
    · obtain ⟨hidx, harmed⟩ := numbered_guard hn.tasks ht
      refine Nat.lt_of_lt_of_le ?_ hle
      cases hp : g.poisonOnDrop with
      | none =>
        simp only [IdleGuard.worker, hp, Option.getD_none]
        exact Nat.lt_of_lt_of_le hidx hn.cap_le
      | some w =>
        simp only [IdleGuard.worker, hp, Option.getD_some]
        exact (harmed w hp).2

theorem numbered_initial (cfg : Config) (late : Nat → Bool) : (initial cfg late).Numbered cfg := by
  have hocc : ∀ i w, occupantIn (spawnAll 0 cfg.cap) i = some w →
      w.slot = i ∧ w.serial < cfg.cap := by
    intro i w hw
    rw [occupantIn_spawnAll] at hw
    split at hw
    case isTrue hi =>
      obtain rfl := Option.some.inj hw
      exact ⟨rfl, by simpa using hi⟩
    case isFalse => contradiction
  refine ⟨by simp, fun i w hw => ?_, by simp, by simp, by simp, by simp⟩
  rw [initial_nextSerial]
  obtain hw | hw | ⟨newFds, hr, -⟩ := hw
  · exact hocc i w (by simpa [State.occupant?, occupantIn] using hw)
  · refine hocc i w ?_
    unfold initial at hw
    split at hw
    · simp [spawnChannelWorkers] at hw
    · simpa [new, occupantIn] using hw
  · simp at hr

end Turbine.Dispatch
