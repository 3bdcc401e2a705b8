import Turbine.Base.Runs
import Turbine.Dispatch.Step
import Turbine.Pool.Model

/-!
# Turbine.Pool.Reap

What `reap_and_respawn` does to the size of the pool.  It forks one
replacement for each worker that is not alive, and `spawn_one` appends it; the
dead worker stays in its slot, where every later call finds it dead again,
because its child was already waited for.

* `length_reapAndRespawn`: the pool grows by what the scan found;
* `respawn_refines`: the slots as the dispatch sees them.
-/

namespace Turbine.Pool

open Base

variable {cfg : PoolConfig} {s s' : State} {e : Event} {os : Os} {ws : List Worker}

/-! ## the scan -/

theorem collectDead_of_running (idx : Nat) (h : ∀ w ∈ ws, w.running os = true) :
    collectDead os idx ws = ([], ws, os) := by
  induction ws generalizing idx with
  | nil => rfl
  | cons w ws ih =>
    simp only [List.forall_mem_cons] at h
    simp only [collectDead, isAlive_of_running h.1, ih (idx + 1) h.2, if_true]

theorem running_of_collectDead {idx : Nat} (h : (collectDead os idx ws).1 = []) :
    ∀ w ∈ ws, w.running os = true := by
  induction ws generalizing idx with
  | nil => simp
  | cons w ws ih =>
    cases hw : w.running os with
    | false => simp [collectDead, isAlive_of_not_running hw] at h
    | true =>
      simp only [collectDead, isAlive_of_running hw, if_true] at h
      exact List.forall_mem_cons.2 ⟨hw, ih h⟩

theorem length_collectDead (os : Os) (idx : Nat) (ws : List Worker) :
    (collectDead os idx ws).2.1.length = ws.length := by
  induction ws generalizing os idx with
  | nil => rfl
  | cons w ws ih => simp [collectDead, ih]

theorem length_spawnEach {idxs : List Nat} {forks : List Forked} (h : forks.length = idxs.length) :
    (spawnEach cfg s idxs forks).workers.length = s.workers.length + idxs.length := by
  induction idxs generalizing s forks with
  | nil => simp [spawnEach]
  | cons idx idxs ih =>
    cases forks with
    | nil => simp at h
    | cons f forks =>
      rw [spawnEach, ih (by simpa using h)]
      simp only [spawnOne, List.length_append, List.length_cons, List.length_nil]
      omega

theorem length_spawnWorkers {forks : List Forked} (h : forks.length = cfg.workers) :
    (spawnWorkers cfg forks).workers.length = cfg.workers := by
  rw [spawnWorkers, length_spawnEach (by simpa using h)]
  simp

/-- A call adds one worker for each that it found dead. -/
theorem length_reapAndRespawn {forks : List Forked}
    (h : forks.length = (collectDead s.os 0 s.workers).1.length) :
    (reapAndRespawn cfg s forks).workers.length =
      s.workers.length + (collectDead s.os 0 s.workers).1.length := by
  simp only [reapAndRespawn]
  rw [length_spawnEach h]
  simp only [length_collectDead]

/-! ## whole runs -/

/-- What a call promises for a pool of `n` workers: the size is kept, every slot
whose worker did not run holds a running one of those just forked, and if no
worker died since the last call nothing is spawned. -/
def CallKeepsSize (n : Nat) (s : State) : Event → State → Prop
  | .reap forks, s' =>
    s'.workers.length = n ∧
    (∀ (i : Nat) (w : Worker), s.workers[i]? = some w → w.running s.os = false →
      ∃ w', s'.workers[i]? = some w' ∧ w'.running s'.os = true ∧
        ∃ f ∈ forks, w'.kind = .process f.pid) ∧
    (s.died = false → forks = [] ∧ s'.workers = s.workers)
  | _, _ => True

/-- Reaping happens while every worker runs. -/
def ReapsNobody (s : State) : Event → Prop
  | .reap _ => ∀ w ∈ s.workers, w.running s.os = true
  | _ => True

instance : Decidable (ReapsNobody s e) := by
  unfold ReapsNobody
  split <;> infer_instance

/-- If every worker runs, a call changes nothing. -/
theorem reapAndRespawn_of_running (h : ∀ w ∈ s.workers, w.running s.os = true) :
    reapAndRespawn cfg s [] = s := by
  simp only [reapAndRespawn, collectDead_of_running 0 h, spawnEach]

/-- **Step lemma.**  A call keeps its promise iff every worker runs. -/
theorem callKeepsSize_iff {n : Nat} (hn : s.workers.length = n) (h : step cfg s e = some s') :
    CallKeepsSize n s e s' ↔ ReapsNobody s e := by
  cases e with
  | exit pid code => simp [CallKeepsSize, ReapsNobody]
  | kill pid => simp [CallKeepsSize, ReapsNobody]
  | reap forks =>
    simp only [step] at h
    split at h
    case isFalse => cases h
    case isTrue hforks =>
      cases h
      constructor
      · intro hcall
        have hlen : (reapAndRespawn cfg s forks).workers.length = _ :=
          length_reapAndRespawn hforks.1
        have hcollected : (collectDead s.os 0 s.workers).1.length = 0 := by
          have := hcall.1
          simp only at this
          omega
        exact running_of_collectDead (List.length_eq_zero_iff.1 hcollected)
      · intro hrun
        have hnone : forks = [] := by
          rw [collectDead_of_running 0 hrun] at hforks
          exact List.length_eq_zero_iff.1 hforks.1
        subst hnone
        simp only [CallKeepsSize, reapAndRespawn_of_running hrun]
        refine ⟨hn, fun i w hw hdead => ?_, fun _ => ⟨trivial, trivial⟩⟩
        rw [hrun w (List.mem_of_getElem? hw)] at hdead
        contradiction

theorem length_step (h : step cfg s e = some s') (hg : ReapsNobody s e) :
    s'.workers.length = s.workers.length := by
  cases e with
  | exit pid code | kill pid =>
    simp only [step, State.childEnds] at h
    split_ifs at h
    cases h
    rfl
  | reap forks => exact ((callKeepsSize_iff rfl h).2 hg).1

/-- **The pool's size.**  Over a whole run every call of the process-mode reaper
keeps its promise exactly when every call is made while all workers run. -/
theorem pool_size_along_iff (cfg : PoolConfig) (forks : List Forked)
    (hforks : forks.length = cfg.workers) (es : List Event) :
    Along (step cfg) (CallKeepsSize cfg.workers) (spawnWorkers cfg forks) es ↔
      Guarded (step cfg) ReapsNobody (spawnWorkers cfg forks) es := by
  refine along_iff_guarded (I := fun s => s.workers.length = cfg.workers) ?_ ?_
    (length_spawnWorkers hforks)
  · exact fun s e s' hn hg h => (length_step h hg).trans hn
  · exact fun s e s' hn h => callKeepsSize_iff hn h

/-- One worker, never recycled. -/
def oneWorker : PoolConfig := ⟨1, 0, fun _ _ _ => 0⟩

theorem pool_size_along_iff_quietTicks :
    Along (step oneWorker) (CallKeepsSize 1) (spawnWorkers oneWorker [⟨100, 3, 4⟩])
        [.reap [], .reap [], .kill 100] ↔
      Guarded (step oneWorker) ReapsNobody (spawnWorkers oneWorker [⟨100, 3, 4⟩])
        [.reap [], .reap [], .kill 100] := pool_size_along_iff oneWorker [⟨100, 3, 4⟩] (by decide) _

/-- The one worker exits and is reaped; a second call finds nothing new. -/
def exitThenTwoTicks : List Event := [.exit 100 0, .reap [⟨101, 5, 6⟩], .reap [⟨102, 7, 8⟩]]

/-- The pool of one worker has three, the last of them forked by a call before
which nobody died; the dead worker is still in its slot. -/
theorem pool_outgrows :
    ∃ s₁ s₂, run (step oneWorker) (spawnWorkers oneWorker [⟨100, 3, 4⟩])
        (exitThenTwoTicks.take 2) = some s₁ ∧
      run (step oneWorker) (spawnWorkers oneWorker [⟨100, 3, 4⟩]) exitThenTwoTicks = some s₂ ∧
      s₁.workers.length = 2 ∧ s₁.died = false ∧ s₂.workers.length = 3 ∧
      (∃ w, s₂.workers[0]? = some w ∧ w.running s₂.os = false) ∧
      ¬ Along (step oneWorker) (CallKeepsSize 1) (spawnWorkers oneWorker [⟨100, 3, 4⟩])
        exitThenTwoTicks := by
  have h₁ : (run (step oneWorker) (spawnWorkers oneWorker [⟨100, 3, 4⟩])
      (exitThenTwoTicks.take 2)).map (fun s => (s.workers.length, s.died)) =
        some (2, false) := by decide
  have h₂ : (run (step oneWorker) (spawnWorkers oneWorker [⟨100, 3, 4⟩])
      exitThenTwoTicks).map (fun s => (s.workers.length, s.workers[0]?.map (·.running s.os))) =
        some (3, some false) := by decide
  obtain ⟨s₁, hs₁, hv₁⟩ := Option.map_eq_some_iff.1 h₁
  obtain ⟨s₂, hs₂, hv₂⟩ := Option.map_eq_some_iff.1 h₂
  rw [Prod.mk.injEq] at hv₁ hv₂
  refine ⟨s₁, s₂, hs₁, hs₂, hv₁.1, hv₁.2, hv₂.1, Option.map_eq_some_iff.1 hv₂.2, ?_⟩
  intro halong
  obtain ⟨s₀, hexit, hs₁⟩ := run_cons_eq_some.1 hs₁
  obtain ⟨s₁', hreap, hs₁⟩ := run_cons_eq_some.1 hs₁
  cases hs₁
  have hsize : s₁.workers.length = 1 := ((halong s₀ hexit).2 s₁ hreap).1.1
  omega

/-! ## the slots as the dispatch sees them -/

/-- The pool's slots in the dispatch's terms.  Nothing is ever replaced here, so
the worker in slot `i` is the `i`-th one spawned. -/
def State.slots (s : State) : List Dispatch.Occupant :=
  (s.workers.map Worker.kind).mapIdx fun i kind => ⟨⟨i, i⟩, kind.running s.os⟩

@[simp] theorem length_slots : s.slots.length = s.workers.length := by simp [State.slots]

theorem collectDead_eq (os : Os) (idx : Nat) (ws : List Worker) :
    (collectDead os idx ws).1 =
      ((List.range ws.length).filter fun i => ws[i]?.any fun w => !w.running os).map
        (· + idx) := by
  induction ws generalizing os idx with
  | nil => rfl
  | cons w ws ih =>
    have hrun : ∀ v : Worker, v.running (w.isAlive os).2.2 = v.running os :=
      fun v => running_isAlive v.kind
    have htail : (collectDead (w.isAlive os).2.2 (idx + 1) ws).1 =
        (((List.range ws.length).map Nat.succ).filter fun i =>
          (w :: ws)[i]?.any fun w => !w.running os).map (· + idx) := by
      rw [ih, List.filter_map, List.map_map]
      simp only [hrun, Function.comp_def, List.getElem?_cons_succ]
      exact List.map_congr_left fun i _ => by omega
    rw [List.length_cons, List.range_succ_eq_map, List.filter_cons]
    simp only [collectDead, htail]
    cases hw : w.running os with
    | true => simp [isAlive_of_running hw, hw]
    | false => simp [isAlive_of_not_running hw, hw]

theorem deadSlots_slots : Dispatch.deadSlots s.slots = (collectDead s.os 0 s.workers).1 := by
  rw [collectDead_eq, Dispatch.deadSlots, length_slots]
  simp only [Nat.add_zero, List.map_id']
  refine List.filter_congr fun i _ => ?_
  simp only [State.slots, List.getElem?_mapIdx, List.getElem?_map, Worker.running]
  cases s.workers[i]? <;> rfl

/-- The scan changes neither who is in a slot nor who runs. -/
theorem collectDead_kinds (os : Os) (idx : Nat) (ws : List Worker) :
    (collectDead os idx ws).2.1.map Worker.kind = ws.map Worker.kind ∧
      ∀ kind : WorkerKind, kind.running (collectDead os idx ws).2.2 = kind.running os := by
  induction ws generalizing os idx with
  | nil => exact ⟨rfl, fun _ => rfl⟩
  | cons w ws ih =>
    obtain ⟨hkinds, hrun⟩ := ih (w.isAlive os).2.2 (idx + 1)
    constructor
    · simp only [collectDead, List.map_cons, isAlive_kind, hkinds]
    · intro kind
      simp only [collectDead, hrun, running_isAlive]

/-- A worker forked under a pid that no worker has is one more running slot. -/
theorem slots_spawnOne {f : Forked} (idx : Nat) (hf : ∀ w ∈ s.workers, w.kind ≠ .process f.pid) :
    (spawnOne cfg s idx f).slots =
      s.slots ++ [⟨⟨s.workers.length, s.workers.length⟩, true⟩] := by
  have hold : ∀ w ∈ s.workers, w.kind.running (spawnOne cfg s idx f).os = w.kind.running s.os := by
    intro w hw
    have hne := hf w hw
    cases hk : w.kind with
    | thread id => rfl
    | process pid =>
      have hp : pid ≠ f.pid := fun h => hne (by rw [hk, h])
      simp [WorkerKind.running, spawnOne, hp]
  have hmap : ((s.workers.map Worker.kind).mapIdx fun i kind =>
      (⟨⟨i, i⟩, kind.running (spawnOne cfg s idx f).os⟩ : Dispatch.Occupant)) = s.slots := by
    rw [State.slots, List.mapIdx_eq_mapIdx_iff]
    intro i hi
    rw [List.length_map] at hi
    simp only [List.getElem_map]
    rw [hold _ (List.getElem_mem hi)]
  rw [← hmap, State.slots]
  simp [spawnOne, Worker.new, WorkerKind.running]

/-- The forked pids are distinct, and none of them is a worker's. -/
def FreshPids (ws : List Worker) (forks : List Forked) : Prop :=
  (forks.map Forked.pid).Nodup ∧ ∀ f ∈ forks, ∀ w ∈ ws, w.kind ≠ .process f.pid

/-- Spawning worker after worker is respawning slot after slot. -/
theorem slots_spawnEach {idxs : List Nat} {forks : List Forked}
    (hlen : forks.length = idxs.length) (hfresh : FreshPids s.workers forks) :
    idxs.foldl (Dispatch.respawnOne .nativeProcess) (s.slots, s.workers.length) =
      ((spawnEach cfg s idxs forks).slots, (spawnEach cfg s idxs forks).workers.length) := by
  induction idxs generalizing s forks with
  | nil => rfl
  | cons idx idxs ih =>
    cases forks with
    | nil => simp at hlen
    | cons f forks =>
      obtain ⟨hnd, hnew⟩ := hfresh
      rw [List.map_cons, List.nodup_cons] at hnd
      have hslots : (spawnOne cfg s idx f).slots = _ := slots_spawnOne idx (hnew f (by simp))
      have hrest : FreshPids (spawnOne cfg s idx f).workers forks := by
        refine ⟨hnd.2, fun g hg w hw => ?_⟩
        simp only [spawnOne, List.mem_append, List.mem_singleton] at hw
        obtain hw | rfl := hw
        · exact hnew g (by simp [hg]) w hw
        · intro hk
          have hpid : f.pid = g.pid := by simpa [Worker.new] using hk
          exact hnd.1 (hpid ▸ List.mem_map_of_mem hg)
      rw [List.foldl_cons, spawnEach, ← ih (by simpa using hlen) hrest, hslots]
      simp [Dispatch.respawnOne, spawnOne]

/-- **Refinement.**  As long as pids are not reused, `reap_and_respawn` does to
the slots what the dispatch's model says of a pool of native processes. -/
theorem respawn_refines {forks : List Forked}
    (hlen : forks.length = (collectDead s.os 0 s.workers).1.length)
    (hfresh : FreshPids s.workers forks) :
    Dispatch.respawn .nativeProcess s.slots s.workers.length forks.length =
      ((reapAndRespawn cfg s forks).slots, (reapAndRespawn cfg s forks).workers.length) := by
  obtain ⟨hkinds, hrun⟩ := collectDead_kinds s.os 0 s.workers
  have hscan : State.slots
      { s with
        os := (collectDead s.os 0 s.workers).2.2
        workers := (collectDead s.os 0 s.workers).2.1 } = s.slots := by
    simp only [State.slots, hkinds, hrun]
  have hfresh' : FreshPids (collectDead s.os 0 s.workers).2.1 forks := by
    refine ⟨hfresh.1, fun f hf w hw hk => ?_⟩
    have hmem : w.kind ∈ s.workers.map Worker.kind := hkinds ▸ List.mem_map_of_mem hw
    obtain ⟨v, hv, hvk⟩ := List.mem_map.1 hmem
    exact hfresh.2 f hf v hv (hvk.trans hk)
  rw [Dispatch.respawn, deadSlots_slots, hlen, List.take_length]
  simp only [reapAndRespawn]
  rw [← slots_spawnEach hlen hfresh', hscan]
  simp only [length_collectDead]

theorem respawn_refines_exited :
    let s := { spawnWorkers oneWorker [⟨100, 3, 4⟩] with os := ⟨fun _ => none, fun _ => true⟩ }
    Dispatch.respawn .nativeProcess s.slots 1 1 =
      ((reapAndRespawn oneWorker s [⟨101, 5, 6⟩]).slots, 2) := by
  intro s
  have hfresh : FreshPids s.workers [⟨101, 5, 6⟩] := ⟨by decide, by decide⟩
  exact respawn_refines rfl hfresh

end Turbine.Pool
