import Turbine.Dispatch.Workers

/-!
# Turbine.Dispatch.Table

The length of the fd table.  `get_idle` hands out slot numbers below `cap`, and
`ThreadDispatch::fds` indexes the table with them.  The reaper copies the pool
into the table on every tick, so the table is as long as the pool was then; and
the pool only grows, except when the file watcher replaces it.  It spawns no
worker again if they are persistent, and fewer than before if a spawn fails.

* `covered_step`: a reload that fills all slots keeps the table long enough;
* `claimed_lt_table`: then every slot that `get_idle` returns is in the table.
-/

namespace Turbine.Dispatch

open Base

variable {cfg : Config} {s s' : State} {e : Event}

/-! ## a worker for every slot -/

/-- A reload fills all slots. -/
def ReloadsAll (cfg : Config) (_ : State) : Event → Prop
  | .reload count => cfg.cap ≤ count
  | _ => True

instance : Decidable (ReloadsAll cfg s e) :=
  match e with
  | .reload count => inferInstanceAs (Decidable (cfg.cap ≤ count))
  | .arrive | .acquire _ | .timeout _ | .cancel _ | .pop _ | .restore _ | .loadUnhealthy _
  | .loadServed _ | .arm _ | .respond _ | .fail _ | .send _ | .lock _ | .recv _ | .markDead _
  | .record _ | .drop _ | .addPermit _ | .ready _ | .serve _ | .hangUp _ | .exit _
  | .spawnAdditional | .tick | .reap _ | .reaper => .isTrue trivial

/-- Every slot has a worker in the pool, an entry in the fd table, and one in the
table that the reaper is about to install. -/
structure State.Covered (cfg : Config) (s : State) : Prop where
  pool : cfg.cap ≤ s.pool.length
  table : cfg.cap ≤ s.fds.length
  pending : ∀ newFds, s.reaper = .refreshing newFds → cfg.cap ≤ newFds.length

/-- A reap takes no slot away. -/
theorem length_le_respawn (mode : Mode) (pool : List Occupant) (next count : Nat) :
    pool.length ≤ (respawn mode pool next count).1.length := by
  unfold respawn
  induction (deadSlots pool).take count generalizing pool next with
  | nil => exact Nat.le_refl _
  | cons i dead ih =>
    refine Nat.le_trans ?_ (ih _ _)
    cases mode <;> simp

theorem pool_length_step (h : Step cfg s e s') (hreload : ReloadsAll cfg s e)
    (hpool : cfg.cap ≤ s.pool.length) : cfg.cap ≤ s'.pool.length := by
  cases h with
  | exit => simpa using hpool
  | spawnAdditional =>
    rw [List.length_append]
    exact Nat.le_add_right_of_le hpool
  | reload =>
    rw [spawnAll, List.length_map, List.length_range]
    exact hreload
  | reap hr => exact Nat.le_trans hpool (length_le_respawn _ _ _ _)
  | markDead | poison | mark => simpa [State.goto] using hpool
  | _ => exact hpool

/-- **Step lemma.**  Every slot goes on having its entries. -/
theorem covered_step (h : Step cfg s e s') (hreload : ReloadsAll cfg s e) (hc : s.Covered cfg) :
    s'.Covered cfg := by
  have hpool := pool_length_step h hreload hc.pool
  refine ⟨hpool, ?_, fun newFds hr' => ?_⟩
  · cases h with
    | install hr => exact hc.pending _ hr
    | markDead | poison | mark => simpa [State.goto] using hc.table
    | _ => exact hc.table
  · cases h with
    | reap hr =>
      obtain rfl := Reaper.refreshing.inj hr'
      rw [List.length_map]
      exact hpool
    | tick => dsimp only at hr'; split at hr' <;> cases hr'
    | markDead | poison => exact hc.pending newFds (by simpa [State.goto] using hr')
    | _ => first | exact hc.pending newFds hr' | cases hr'

theorem covered_initial (cfg : Config) (late : Nat → Bool) (hpipes : cfg.mode.hasChannels = false) :
    (initial cfg late).Covered cfg := by
  refine ⟨by simp [spawnAll], ?_, by simp⟩
  rw [initial, if_neg (by simp [hpipes])]
  simp [new, spawnAll]

/-! ## the slots that are handed out -/

/-- Every slot that `get_idle` has returned, and whose fds are still to be read, is in
the fd table. -/
def State.InTable (s : State) : Prop :=
  ∀ g, Task.guarded g .claimed ∈ s.tasks → g.idx < s.fds.length

/-- For every configuration with pipes: in every run in which each reload fills all
slots, every state has the slots that `get_idle` returned in the fd table. -/
theorem claimed_lt_table (cfg : Config) (late : Nat → Bool) (es : List Event) (s : State)
    (hpipes : cfg.mode.hasChannels = false) (hrun : run (step cfg) (initial cfg late) es = some s)
    (hreload : Guarded (step cfg) (ReloadsAll cfg) (initial cfg late) es) : s.InTable := by
  have hinv : s.Numbered cfg ∧ s.Covered cfg :=
    invariant_of_guarded (I := fun s => s.Numbered cfg ∧ s.Covered cfg)
      (fun _ _ _ hi hr hs => ⟨numbered_step (.of_step hs) hi.1, covered_step (.of_step hs) hr hi.2⟩)
      ⟨numbered_initial cfg late, covered_initial cfg late hpipes⟩ hreload hrun
  intro g hg
  have hidx : g.idx < cfg.cap := (hinv.1.tasks _ hg).1
  exact Nat.lt_of_lt_of_le hidx hinv.2.table

/-- One slot, never recycled. -/
def oneSlot (mode : Mode) : Config := ⟨1, 0, fun _ _ _ => 0, mode⟩

/-- The file watcher replaces the pool by `count` workers, and the reaper copies it. -/
def reloadAndRefresh (count : Nat) : List Event := [.reload count, .tick, .reaper, .reap 0, .reaper]

/-- A request up to the return of `get_idle`. -/
def claim (t : Nat) : List Event := [.arrive, .acquire t, .pop t, .loadUnhealthy t, .loadServed t]

/-- Processes that are all spawned again. -/
theorem claimed_lt_table_reloaded :
    ∃ s, run (step (oneSlot .nativeProcess)) (initial (oneSlot .nativeProcess) fun _ => false)
        (reloadAndRefresh 1 ++ claim 0) = some s ∧
      s.tasks = [.guarded (.new 0) .claimed] ∧ s.InTable := by
  have hrun : (run (step (oneSlot .nativeProcess)) (initial (oneSlot .nativeProcess) fun _ => false)
      (reloadAndRefresh 1 ++ claim 0)).map State.tasks = some [.guarded (.new 0) .claimed] := by
    decide
  obtain ⟨s, hs, htasks⟩ := Option.map_eq_some_iff.1 hrun
  exact ⟨s, hs, htasks, claimed_lt_table _ _ _ _ rfl hs (by decide)⟩

/-- Persistent workers: the watcher leaves the pool empty, the reaper empties the table,
and the next request is handed the slot that was idle all along.  Reading its fds
panics. -/
theorem claimed_past_table :
    ∃ s, run (step (oneSlot .persistent)) (initial (oneSlot .persistent) fun _ => false)
        (reloadAndRefresh 0 ++ claim 0) = some s ∧
      s.tasks = [.guarded (.new 0) .claimed] ∧ s.fds = [] ∧ ¬ s.InTable ∧
      (step (oneSlot .persistent) s (.arm 0)).map State.tasks =
        some [.guarded (.new 0) .dropping] := by
  have hrun : ((run (step (oneSlot .persistent)) (initial (oneSlot .persistent) fun _ => false)
      (reloadAndRefresh 0 ++ claim 0)).map fun s => (s.tasks, s.fds)) =
        some ([.guarded (.new 0) .claimed], []) := by
    decide
  obtain ⟨s, hs, hstate⟩ := Option.map_eq_some_iff.1 hrun
  obtain ⟨htasks, hfds⟩ := Prod.mk.inj hstate
  refine ⟨s, hs, htasks, hfds, fun hin => ?_, ?_⟩
  · have hlt := hin (.new 0) (by simp [htasks])
    rw [hfds] at hlt
    exact Nat.not_lt_zero _ hlt
  · simp [step, oneSlot, Mode.hasChannels, htasks, hfds, State.goto]

end Turbine.Dispatch
