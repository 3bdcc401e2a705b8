import Turbine.NamedPool.Model

/-!
# Turbine.NamedPool.Exclusion

Whether two requests can use one worker of a mutex pool.  A request remembers
its worker by the index, and `reap_and_respawn_threaded` puts a new worker
under an index without asking who remembers it; the first request to give the
index back then frees a worker that another one is using.

* `fits_step`: an index stays in the queue or with one request, as long as no
  worker is replaced under an index that is queued or remembered.
-/

namespace Turbine.NamedPool

open Base
open Pool (WorkerKind Worker Forked Spawned collectDead getIdleWorker returnWorker)

variable {cfg : Config} {s s' : State} {e : Event} {p p' : Pool.State} {supply : Supply}
  {idx t : Nat} {w : Worker}

/-- How many unfinished requests remember slot `idx`. -/
def State.uses (s : State) (idx : Nat) : Nat := s.tasks.countP (Task.reads idx)

/-- No unfinished request remembers the slot of a dead worker, and the slot is not
queued.  The handler's own reap comes after a pop that emptied the queue. -/
def ReplacesUnused (cfg : Config) (s : State) : Event → Prop
  | .reap _ =>
    cfg.mode = .thread → ∀ idx ∈ (collectDead s.pool.os 0 s.pool.workers).1,
      idx ∉ s.pool.idleQueue ∧ s.uses idx = 0
  | .dispatch _ _ =>
    cfg.mode = .thread → (getIdleWorker s.pool).1 = none →
      ∀ idx ∈ (collectDead s.pool.os 0 s.pool.workers).1, s.uses idx = 0
  | _ => True

instance : Decidable (ReplacesUnused cfg s e) := by
  unfold ReplacesUnused
  split <;> infer_instance

/-! ## claiming and giving back -/

section

variable {uses : Nat → Nat}

/-- A reap of either kind, if it replaces no worker whose slot is queued or in use. -/
theorem fits_reap (h : p.Fits uses)
    (hfree : cfg.mode = .thread → ∀ idx ∈ (collectDead p.os 0 p.workers).1,
      p.idleQueue.count idx + uses idx = 0) : (reap cfg p supply).Fits uses := by
  unfold reap
  split
  case h_1 => exact h.reapAndRespawn
  case h_2 hmode => exact h.reapAndRespawnThreaded (hfree hmode)

/-- The reap of the handler finds an empty queue. -/
theorem fits_reap_drained (h : p.Fits uses)
    (hfree : cfg.mode = .thread → ∀ idx ∈ (collectDead p.os 0 p.workers).1, uses idx = 0) :
    (reap cfg (drained p) supply).Fits uses :=
  fits_reap h.drain fun hmode idx hidx => by simpa [drained] using hfree hmode idx hidx

/-- The slot chosen for a request is in use. -/
theorem fits_claim_some (h : p.Fits uses) (hfree : cfg.mode = .thread → (getIdleWorker p).1 = none →
      ∀ idx ∈ (collectDead p.os 0 p.workers).1, uses idx = 0)
    (hclaim : claim cfg p supply = (some idx, p')) :
    p'.Fits (fun j => uses j + if idx = j then 1 else 0) := by
  obtain ⟨i, hi, hget⟩ | ⟨hnone, hget⟩ := claim_cases hclaim
  · obtain rfl := Option.some.inj hi
    exact h.take hget
  · exact (fits_reap_drained h fun hmode => hfree hmode hnone).take hget

theorem fits_claim_none (h : p.Fits uses) (hfree : cfg.mode = .thread → (getIdleWorker p).1 = none →
      ∀ idx ∈ (collectDead p.os 0 p.workers).1, uses idx = 0)
    (hclaim : claim cfg p supply = (none, p')) : p'.Fits uses := by
  obtain ⟨i, hi, -⟩ | ⟨hnone, hget⟩ := claim_cases hclaim
  · cases hi
  · obtain rfl := Pool.getIdleWorker_eq_none hget
    exact (fits_reap_drained h fun hmode => hfree hmode hnone).drain

theorem fits_markBusy (idx : Nat) (w : Worker) (h : p.Fits uses) : (markBusy p idx w).Fits uses :=
  h.congr rfl (by simp [markBusy])

end

/-! ## steps -/

/-- Moving request `t` trades the slot it remembered for the one it remembers now. -/
theorem uses_set {τ : Task} (τ' : Task) (ht : s.tasks[t]? = some τ) (idx : Nat) :
    (s.tasks.set t τ').countP (Task.reads idx) + (if τ.reads idx = true then 1 else 0) =
      s.uses idx + (if τ'.reads idx = true then 1 else 0) := countP_set_add (Task.reads idx) ht

/-- A request moves between states without a slot. -/
theorem fits_goto {τ τ' : Task} (h : p.Fits s.uses) (ht : s.tasks[t]? = some τ)
    (hτ : ∀ idx, τ.reads idx = false) (hτ' : ∀ idx, τ'.reads idx = false) :
    p.Fits (fun idx => (s.tasks.set t τ').countP (Task.reads idx)) := by
  refine h.le rfl fun idx => ?_
  have huses := uses_set τ' ht idx
  simp only [hτ, hτ', Bool.false_eq_true, if_false] at huses
  omega

/-- A request without a slot is given one that is in use already. -/
theorem fits_send {τ : Task} {kind : WorkerKind} {fd : Nat}
    (h : p.Fits (fun j => s.uses j + if idx = j then 1 else 0)) (ht : s.tasks[t]? = some τ) :
    p.Fits (fun j => (s.tasks.set t (.reading idx kind fd)).countP (Task.reads j)) := by
  refine h.le rfl fun j => ?_
  have huses := uses_set (.reading idx kind fd) ht j
  simp only [Task.reads, beq_iff_eq] at huses
  omega

/-- A request gives its slot back. -/
theorem fits_giveBack {kind : WorkerKind} {fd : Nat} {a : Answer} (h : s.pool.Fits s.uses)
    (ht : s.tasks[t]? = some (.reading idx kind fd)) :
    (returnWorker s.pool idx).Fits
      (fun j => (s.tasks.set t (.answered a)).countP (Task.reads j)) := by
  refine Pool.State.Fits.returnWorker (h.le rfl fun j => ?_)
  have huses := uses_set (.answered a) ht j
  simp only [Task.reads, Bool.false_eq_true, if_false, beq_iff_eq] at huses
  omega

/-- **Step lemma.**  Every index stays in the queue or with one request, as long as
no worker is replaced under an index that is queued or remembered. -/
theorem fits_step (h : s.pool.Fits s.uses) (hg : ReplacesUnused cfg s e)
    (hstep : step cfg s e = some s') : s'.pool.Fits s'.uses := by
  cases Step.of_step hstep with
  | arrive => exact h.le rfl fun idx => by simp [State.uses, Task.reads]
  | acquire ht hpermit => exact fits_goto h ht (fun _ => rfl) (fun _ => rfl)
  | expire ht => exact fits_goto h ht (fun _ => rfl) (fun _ => rfl)
  | refuse ht hsupply hclaim =>
    exact fits_goto (fits_claim_none h hg hclaim) ht (fun _ => rfl) (fun _ => rfl)
  | @sendFails t idx supply p w ht hsupply hclaim hw hidle hgone =>
    have hbusy := fits_markBusy idx w (fits_claim_some h hg hclaim)
    exact fits_goto hbusy.returnWorker ht (fun _ => rfl) (fun _ => rfl)
  | send ht hsupply hclaim hw hidle hgone =>
    exact fits_send (fits_markBusy _ _ (fits_claim_some h hg hclaim)) ht
  | @finish t idx fd kind r ht hgone =>
    -- the slot goes back to the queue, whatever the reader saw
    cases r with
    | response => exact fits_giveBack h ht
    | workerGone => exact fits_giveBack h ht
    | otherError => exact fits_giveBack h ht
  | reap hsupply =>
    refine fits_reap h fun hmode idx hidx => ?_
    obtain ⟨hqueue, huses⟩ := hg hmode idx hidx
    rw [List.count_eq_zero.2 hqueue, Nat.zero_add]
    exact huses
  | childEnds hc hrunning => exact h.congr rfl rfl
  | threadCloses hid => exact h
  | threadExits hid => exact h.congr rfl rfl

theorem fits_initial (cfg : Config) (supply : Supply) :
    (initial cfg supply).pool.Fits (initial cfg supply).uses := by
  have hempty : (⟨⟨fun _ => none, fun _ => false⟩, [], [], false⟩ : Pool.State).Fits
      (fun _ => 0) := fun idx => by simp
  unfold initial
  cases cfg.mode with
  | process => exact hempty.spawnEach
  | thread => exact hempty.spawnEachThread

/-! ## whole runs -/

/-- Request `t` is unfinished and uses the worker object that slot `idx` holds now. -/
def State.Uses (s : State) (t idx : Nat) : Prop :=
  ∃ w fd, s.pool.workers[idx]? = some w ∧ s.tasks[t]? = some (.reading idx w.kind fd)

/-- At most one unfinished request uses the worker of a slot, and the slot is not
queued meanwhile. -/
def State.Exclusive (s : State) : Prop :=
  (∀ t u idx, s.Uses t idx → s.Uses u idx → t = u) ∧
    ∀ t idx, s.Uses t idx → idx ∉ s.pool.idleQueue

/-- Every slot once is more than exclusive use. -/
theorem exclusive_of_fits (h : s.pool.Fits s.uses) : s.Exclusive := by
  have hone : ∀ idx, s.pool.idleQueue.count idx + s.uses idx ≤ 1 := by
    intro idx
    have hidx := h idx
    split at hidx <;> omega
  constructor
  · rintro t u idx ⟨w, fd, -, ht⟩ ⟨w', fd', -, hu⟩
    have hle : s.tasks.countP (Task.reads idx) ≤ 1 := by
      have := hone idx
      unfold State.uses at this
      omega
    exact eq_of_countP_le_one hle ht (by simp [Task.reads]) hu (by simp [Task.reads])
  · rintro t idx ⟨w, fd, -, ht⟩ hqueue
    have hused : 0 < s.uses idx :=
      List.countP_pos_iff.2 ⟨_, List.mem_of_getElem? ht, by simp [Task.reads]⟩
    have hqueued : 0 < s.pool.idleQueue.count idx := List.count_pos_iff.2 hqueue
    have := hone idx
    omega

/-- If no worker is ever replaced in a slot that is queued or remembered by an
unfinished request, requests use workers exclusively: in every run, in whatever
order requests claim, give back and reap, and whenever workers die. -/
theorem workers_used_exclusively (cfg : Config) (supply : Supply) (es : List Event)
    (hg : Guarded (step cfg) (ReplacesUnused cfg) (initial cfg supply) es) {s : State}
    (hrun : run (step cfg) (initial cfg supply) es = some s) : s.Exclusive :=
  exclusive_of_fits <|
    invariant_of_guarded (I := fun s => s.pool.Fits s.uses)
      (fun _ _ _ h hg hstep => fits_step h hg hstep) (fits_initial cfg supply) hg hrun

/-- Two threads, recycled after two requests. -/
def twoThreads : Config := ⟨⟨2, 2, fun base _ _ => base⟩, .thread⟩

/-- Two threads to start with. -/
def firstThreads : Supply := ⟨[], [⟨0, 10, 11⟩, ⟨1, 12, 13⟩]⟩

def noSupply : Supply := ⟨[], []⟩

/-- Request `t` from its arrival until it has a worker. -/
def enter (t : Nat) (supply : Supply) : List Event := [.arrive, .acquire t, .dispatch t supply]

/-- Four requests use up the quotas of both workers.  Worker 1 exits, and the fifth
request reaps and gets the new worker in its slot. -/
def replacedWhenFree : List Event :=
  enter 0 noSupply ++ enter 1 noSupply ++ [Event.finish 1 .response] ++ enter 2 noSupply ++
    [Event.finish 2 .response, .finish 0 .response] ++ enter 3 noSupply ++
    [Event.finish 3 .response, .threadCloses 1, .threadExits 1] ++ enter 4 ⟨[], [⟨2, 14, 15⟩]⟩

theorem workers_used_exclusively_replacedWhenFree :
    ∃ s, run (step twoThreads) (initial twoThreads firstThreads) replacedWhenFree = some s ∧
      s.Exclusive ∧ s.Uses 4 1 := by
  refine ⟨_, rfl, workers_used_exclusively twoThreads firstThreads replacedWhenFree ?_ rfl, ?_⟩
  · decide
  · exact ⟨_, _, rfl, rfl⟩

/-- Request 0 waits for worker 1 while requests 1 and 2 use up the quota of worker
0.  Worker 1 dies; request 3 finds no idle worker, reaps, and gets the new worker
in slot 1.  Then request 0 notices the end of its own worker. -/
def replacedInUse : List Event :=
  enter 0 noSupply ++ enter 1 noSupply ++ [Event.finish 1 .response] ++ enter 2 noSupply ++
    [Event.finish 2 .response, .threadCloses 1, .threadExits 1] ++ enter 3 ⟨[], [⟨2, 14, 15⟩]⟩ ++
    [Event.finish 0 .workerGone]

/-- The slot request 3 is using goes back to the queue, and request 4 gets the same
worker. -/
theorem worker_shared :
    (∃ s, run (step twoThreads) (initial twoThreads firstThreads) replacedInUse = some s ∧
      s.Uses 3 1 ∧ 1 ∈ s.pool.idleQueue) ∧
    ∃ s, run (step twoThreads) (initial twoThreads firstThreads)
        (replacedInUse ++ enter 4 noSupply) = some s ∧
      s.Uses 3 1 ∧ s.Uses 4 1 ∧ s.tasks[3]? = s.tasks[4]? := by
  refine ⟨⟨_, rfl, ⟨_, _, rfl, rfl⟩, by decide⟩, ⟨_, rfl, ⟨_, _, rfl, rfl⟩, ⟨_, _, rfl, rfl⟩, rfl⟩⟩

end Turbine.NamedPool
