import Turbine.NamedPool.Exclusion

/-!
# Turbine.NamedPool.Failure

What becomes of a worker on which a request failed because it was gone.  Both
error paths give it back through `return_worker`, which queues it as idle again
unless the failed request was the last of its quota; the queue is popped from
the back, so the next request gets the same worker.

* `sealed_step`: a worker that failed on its last request stays spent until it is
  replaced.
-/

namespace Turbine.NamedPool

open Base
open Pool (Os WorkerKind Worker Forked Spawned collectDead getIdleWorker returnWorker)

variable {cfg : Config} {s s' : State} {e : Event} {p p' p'' : Pool.State} {supply : Supply}
  {idx i t n m : Nat} {w w' : Worker} {kind : WorkerKind}

/-- The next `return_worker` recycles the worker. -/
def OnLastRequest (w : Worker) : Prop := 0 < w.maxRequests ∧ w.maxRequests ≤ w.requestsHandled + 1

instance : Decidable (OnLastRequest w) := inferInstanceAs (Decidable (_ ∧ _))

/-- The worker has reached its quota and is not marked idle. -/
def Spent (w : Worker) : Prop :=
  w.state ≠ .idle ∧ 0 < w.maxRequests ∧ w.maxRequests ≤ w.requestsHandled

/-! ## one worker -/

theorem Spent.onLastRequest (h : Spent w) : OnLastRequest w := ⟨h.2.1, Nat.le_succ_of_le h.2.2⟩

theorem spent_terminate (h : OnLastRequest w) : Spent w.markIdle.1.terminate :=
  ⟨by simp [Worker.terminate], h⟩

/-- Asking whether a worker is alive never marks it idle. -/
theorem spent_isAlive {os : Os} (h : Spent w) : Spent (w.isAlive os).2.1 := by
  unfold Worker.isAlive
  split
  · split
    · exact h
    · exact ⟨nofun, h.2⟩
    · exact ⟨nofun, h.2⟩
    · exact ⟨nofun, h.2⟩
  · split
    · exact h
    · exact ⟨nofun, h.2⟩

/-- The worker is left as it is in all that matters here: it stays the same worker
and is not revived. -/
def Keeps (w w' : Worker) : Prop := w'.kind = w.kind ∧ (Spent w → Spent w')

theorem Keeps.refl (w : Worker) : Keeps w w := ⟨rfl, id⟩

/-- A return recycles a spent worker once more. -/
theorem keeps_returned (w : Worker) :
    Keeps w (if w.markIdle.2 = true then w.markIdle.1.terminate else w.markIdle.1) := by
  split
  case isTrue => exact ⟨rfl, fun h => spent_terminate h.onLastRequest⟩
  case isFalse hrecycle =>
    exact ⟨rfl, fun h => absurd (decide_eq_true h.onLastRequest) hrecycle⟩

/-! ## the pool's operations -/

/-- What the operations of a pool do to its workers, if the threads they start have
numbers in `fresh`: a slot keeps its worker or gets a new thread, and slots are
only added. -/
structure Advance (fresh : Nat → Prop) (p p' : Pool.State) : Prop where
  grows : p.workers.length ≤ p'.workers.length
  slot : ∀ {i : Nat} {w' : Worker}, i < p.workers.length → p'.workers[i]? = some w' →
    (∃ w, p.workers[i]? = some w ∧ Keeps w w') ∨ ∃ id, w'.kind = .thread id ∧ fresh id
  kinds : ∀ {w' : Worker}, w' ∈ p'.workers →
    (∃ w ∈ p.workers, w.kind = w'.kind) ∨ (∃ pid, w'.kind = .process pid) ∨
      ∃ id, w'.kind = .thread id ∧ fresh id

section

variable {fresh : Nat → Prop}

/-- An operation that keeps the worker of every slot. -/
theorem Advance.of_keeps (hlen : p'.workers.length = p.workers.length)
    (h : ∀ (i : Nat) (w' : Worker), p'.workers[i]? = some w' →
      ∃ w, p.workers[i]? = some w ∧ Keeps w w') : Advance fresh p p' where
  grows := Nat.le_of_eq hlen.symm
  slot := fun _ hw' => .inl (h _ _ hw')
  kinds := by
    intro w' hw'
    obtain ⟨i, hi⟩ := List.mem_iff_getElem?.1 hw'
    obtain ⟨w, hw, hkeep⟩ := h i w' hi
    exact .inl ⟨w, List.mem_of_getElem? hw, hkeep.1.symm⟩

theorem Advance.of_workers_eq (h : p'.workers = p.workers) : Advance fresh p p' :=
  .of_keeps (by rw [h]) fun i w' hw' => ⟨w', h ▸ hw', Keeps.refl w'⟩

theorem Advance.trans (h : Advance fresh p p') (h' : Advance fresh p' p'') :
    Advance fresh p p'' where
  grows := Nat.le_trans h.grows h'.grows
  slot := by
    intro i w'' hi hw''
    obtain ⟨w', hw', hkeep'⟩ | hnew := h'.slot (Nat.lt_of_lt_of_le hi h.grows) hw''
    · obtain ⟨w, hw, hkeep⟩ | ⟨id, hid, hfresh⟩ := h.slot hi hw'
      · exact .inl ⟨w, hw, hkeep'.1.trans hkeep.1, hkeep'.2 ∘ hkeep.2⟩
      · exact .inr ⟨id, hkeep'.1.trans hid, hfresh⟩
    · exact .inr hnew
  kinds := by
    intro w'' hw''
    obtain ⟨w', hw', hkind⟩ | hnew := h'.kinds hw''
    · rw [← hkind]
      exact h.kinds hw'
    · exact .inr hnew

theorem Advance.set (hw : p.workers[idx]? = some w) (hkeep : Keeps w w')
    (hp' : p'.workers = p.workers.set idx w') : Advance fresh p p' := by
  refine .of_keeps (by rw [hp', List.length_set]) fun i u hu => ?_
  rw [hp', List.getElem?_set] at hu
  split at hu
  case isTrue hi =>
    subst hi
    split at hu
    · obtain rfl := Option.some.inj hu
      exact ⟨w, hw, hkeep⟩
    · cases hu
  case isFalse => exact ⟨u, hu, Keeps.refl u⟩

theorem Advance.replace {id : Nat} (hkind : w'.kind = .thread id) (hid : fresh id) :
    Advance fresh p (Pool.replaceWorker p idx w') := by
  unfold Pool.replaceWorker
  split
  case isFalse => exact .of_workers_eq rfl
  case isTrue hlt =>
    constructor
    case grows => simp
    case slot =>
      intro i u hi hu
      rw [List.getElem?_set] at hu
      split at hu
      case isTrue hidx =>
        simp only [Option.some.injEq] at hu
        exact .inr ⟨id, hu ▸ hkind, hid⟩
      case isFalse => exact .inl ⟨u, hu, Keeps.refl u⟩
    case kinds =>
      intro u hu
      obtain hu | rfl := List.mem_or_eq_of_mem_set hu
      · exact .inl ⟨u, hu, rfl⟩
      · exact .inr (.inr ⟨id, hkind, hid⟩)

/-- Adding a slot at the end. -/
theorem Advance.append (hp' : p'.workers = p.workers ++ [w'])
    (hkind : (∃ pid, w'.kind = .process pid) ∨ ∃ id, w'.kind = .thread id ∧ fresh id) :
    Advance fresh p p' where
  grows := by simp [hp']
  slot := by
    intro i u hi hu
    rw [hp', List.getElem?_append_left hi] at hu
    exact .inl ⟨u, hu, Keeps.refl u⟩
  kinds := by
    intro u hu
    rw [hp', List.mem_append, List.mem_singleton] at hu
    obtain hu | rfl := hu
    · exact .inl ⟨u, hu, rfl⟩
    · exact .inr hkind

theorem advance_spawnEach {idxs : List Nat} {forks : List Forked} :
    Advance fresh p (Pool.spawnEach cfg.pool p idxs forks) := by
  induction idxs generalizing p forks with
  | nil => exact .of_workers_eq rfl
  | cons idx idxs ih =>
    cases forks with
    | nil => exact .of_workers_eq rfl
    | cons f forks => exact (Advance.append rfl (.inl ⟨f.pid, rfl⟩)).trans ih

theorem advance_spawnEachThread {idxs : List Nat} {ths : List Spawned}
    (h : ∀ th ∈ ths, fresh th.threadId) :
    Advance fresh p (Pool.spawnEachThread cfg.pool p idxs ths) := by
  induction idxs generalizing p ths with
  | nil => exact .of_workers_eq rfl
  | cons idx idxs ih =>
    cases ths with
    | nil => exact .of_workers_eq rfl
    | cons th ths =>
      obtain ⟨hth, hths⟩ := List.forall_mem_cons.1 h
      exact (Advance.append rfl (.inr ⟨th.threadId, rfl, hth⟩)).trans (ih hths)

theorem advance_respawnThreaded {idxs : List Nat} {ths : List Spawned}
    (h : ∀ th ∈ ths, fresh th.threadId) :
    Advance fresh p (Pool.respawnThreaded cfg.pool p idxs ths) := by
  induction idxs generalizing p ths with
  | nil => exact .of_workers_eq rfl
  | cons idx idxs ih =>
    cases ths with
    | nil => exact .of_workers_eq rfl
    | cons th ths =>
      obtain ⟨hth, hths⟩ := List.forall_mem_cons.1 h
      have hstart : Advance fresh p { p with os := p.os.start th.threadId } := .of_workers_eq rfl
      exact (hstart.trans (Advance.replace rfl hth)).trans (ih hths)

theorem collectDead_getElem? (os : Os) (n : Nat) (ws : List Worker) (i : Nat) :
    ∃ os', (collectDead os n ws).2.1[i]? = (ws[i]?).map fun w => (w.isAlive os').2.1 := by
  induction ws generalizing os n i with
  | nil => exact ⟨os, by simp [collectDead]⟩
  | cons w ws ih =>
    cases i with
    | zero => exact ⟨os, by simp [collectDead]⟩
    | succ i => simpa [collectDead] using ih (w.isAlive os).2.2 (n + 1) i

theorem advance_scan {os : Os} :
    Advance fresh p { p with os := os, workers := (collectDead p.os 0 p.workers).2.1 } := by
  refine .of_keeps (Pool.length_collectDead p.os 0 p.workers) fun i w' hw' => ?_
  obtain ⟨os', hget⟩ := collectDead_getElem? p.os 0 p.workers i
  rw [hget, Option.map_eq_some_iff] at hw'
  obtain ⟨w, hw, rfl⟩ := hw'
  exact ⟨w, hw, Pool.isAlive_kind, spent_isAlive⟩

theorem advance_reap (h : ∀ th ∈ supply.threads, fresh th.threadId) :
    Advance fresh p (reap cfg p supply) := by
  unfold reap
  split
  · simp only [Pool.reapAndRespawn]
    exact advance_scan.trans advance_spawnEach
  · simp only [Pool.reapAndRespawnThreaded]
    exact advance_scan.trans (advance_respawnThreaded h)

theorem advance_getIdleWorker {r : Option Nat} (h : getIdleWorker p = (r, p')) :
    Advance fresh p p' := by
  cases r with
  | none =>
    obtain rfl := Pool.getIdleWorker_eq_none h
    exact .of_workers_eq rfl
  | some i =>
    obtain ⟨rest, passed, -, rfl, -⟩ := Pool.getIdleWorker_eq_some h
    exact .of_workers_eq rfl

theorem advance_claim {r : Option Nat} (h : ∀ th ∈ supply.threads, fresh th.threadId)
    (hclaim : claim cfg p supply = (r, p')) : Advance fresh p p' := by
  obtain ⟨i, rfl, hget⟩ | ⟨-, hget⟩ := claim_cases hclaim
  · exact advance_getIdleWorker hget
  · have hdrained : Advance fresh p (drained p) := .of_workers_eq rfl
    exact (hdrained.trans (advance_reap h)).trans (advance_getIdleWorker hget)

/-- Only a worker marked idle becomes busy, and such a worker is not spent. -/
theorem advance_markBusy (hw : p.workers[idx]? = some w) (hidle : w.state = .idle) :
    Advance fresh p (markBusy p idx w) := by
  have hkeep : Keeps w w.markBusy := ⟨rfl, fun h => absurd hidle h.1⟩
  exact .set hw hkeep rfl

theorem advance_returnWorker : Advance fresh p (returnWorker p idx) := by
  cases hw : p.workers[idx]? with
  | none => exact .of_workers_eq (by simp only [returnWorker, hw])
  | some w =>
    refine .set hw (keeps_returned w) ?_
    simp only [returnWorker, hw]
    split <;> rfl

theorem returnWorker_getElem? (hw : p.workers[idx]? = some w) (hlast : OnLastRequest w) :
    (returnWorker p idx).workers[idx]? = some w.markIdle.1.terminate := by
  obtain ⟨hlt, -⟩ := List.getElem?_eq_some_iff.1 hw
  have hrecycle : w.markIdle.2 = true := decide_eq_true hlast
  simp only [returnWorker, hw, hrecycle, if_true]
  exact List.getElem?_set_self hlt

end

/-! ## steps -/

/-- A thread number that was drawn already. -/
def Below (n : Nat) : WorkerKind → Prop
  | .process _ => True
  | .thread id => id < n

theorem Below.mono (hnm : n ≤ m) (h : Below n kind) : Below m kind := by
  cases kind with
  | process pid => trivial
  | thread id => exact Nat.lt_of_lt_of_le h hnm

/-- The numbers of a pool, and its failed workers: where one is still in its slot, it
is spent. -/
structure Sealed (failed : List (Nat × WorkerKind)) (n : Nat) (p : Pool.State) : Prop where
  drawn : ∀ {w : Worker}, w ∈ p.workers → Below n w.kind
  failedDrawn : ∀ {f : Nat × WorkerKind}, f ∈ failed → Below n f.2
  inRange : ∀ {f : Nat × WorkerKind}, f ∈ failed → f.1 < p.workers.length
  spent : ∀ {f : Nat × WorkerKind} {w : Worker}, f ∈ failed → p.workers[f.1]? = some w →
    w.kind = f.2 → Spent w

variable {failed : List (Nat × WorkerKind)}

/-- The pool's operations revive no failed worker. -/
theorem Sealed.advance {fresh : Nat → Prop} (h : Sealed failed n p) (hp : Advance fresh p p')
    (hfresh : ∀ id, fresh id → n ≤ id ∧ id < m) (hnm : n ≤ m) : Sealed failed m p' where
  drawn := by
    intro w' hw'
    obtain ⟨w, hw, hkind⟩ | ⟨pid, hpid⟩ | ⟨id, hid, hnew⟩ := hp.kinds hw'
    · exact hkind ▸ (h.drawn hw).mono hnm
    · rw [hpid]
      trivial
    · rw [hid]
      exact (hfresh id hnew).2
  failedDrawn := fun hf => (h.failedDrawn hf).mono hnm
  inRange := fun hf => Nat.lt_of_lt_of_le (h.inRange hf) hp.grows
  spent := by
    intro f w' hf hw' hkind
    obtain ⟨w, hw, hkeep⟩ | ⟨id, hid, hnew⟩ := hp.slot (h.inRange hf) hw'
    · exact hkeep.2 (h.spent hf hw (hkeep.1 ▸ hkind))
    · -- a new thread is none of those that failed before
      have hbelow : Below n (.thread id) := hid ▸ hkind ▸ h.failedDrawn hf
      exact absurd (hfresh id hnew).1 (Nat.not_le.2 hbelow)

theorem Sealed.keep (h : Sealed failed n p) (hp : Advance (fun _ => False) p p') :
    Sealed failed n p' := h.advance hp nofun (Nat.le_refl n)

/-- A worker that is spent may be noted as failed. -/
theorem Sealed.note (h : Sealed failed n p) (hkind : Below n kind) (hidx : idx < p.workers.length)
    (hspent : ∀ w, p.workers[idx]? = some w → w.kind = kind → Spent w) :
    Sealed ((idx, kind) :: failed) n p where
  drawn := h.drawn
  failedDrawn := by
    intro f hf
    obtain rfl | hf := List.mem_cons.1 hf
    · exact hkind
    · exact h.failedDrawn hf
  inRange := by
    intro f hf
    obtain rfl | hf := List.mem_cons.1 hf
    · exact hidx
    · exact h.inRange hf
  spent := by
    intro f w hf hw hfw
    obtain rfl | hf := List.mem_cons.1 hf
    · exact hspent w hw hfw
    · exact h.spent hf hw hfw

theorem le_nextThread (supply : Supply) (n : Nat) :
    n ≤ supply.nextThread n ∧ ∀ th ∈ supply.threads, th.threadId < supply.nextThread n := by
  unfold Supply.nextThread
  induction supply.threads generalizing n with
  | nil => simp
  | cons th ths ih =>
    obtain ⟨hle, hall⟩ := ih (max n (th.threadId + 1))
    rw [List.foldl_cons]
    refine ⟨by omega, List.forall_mem_cons.2 ⟨by omega, hall⟩⟩

/-- The threads of a supply. -/
def Supply.Starts (supply : Supply) (id : Nat) : Prop := ∃ th ∈ supply.threads, th.threadId = id

theorem starts_bounds (h : s.Supplies supply) {id : Nat} (hid : supply.Starts id) :
    s.nextThread ≤ id ∧ id < supply.nextThread s.nextThread := by
  obtain ⟨th, hth, rfl⟩ := hid
  exact ⟨h.2.2 th hth, (le_nextThread supply s.nextThread).2 th hth⟩

/-- A request under way has a worker of a known number and a slot of the pool. -/
def Task.Known (n len : Nat) : Task → Prop
  | .reading idx kind _ => Below n kind ∧ idx < len
  | _ => True

theorem Task.Known.mono {τ : Task} {len len' : Nat} (h : τ.Known n len) (hnm : n ≤ m)
    (hlen : len ≤ len') : τ.Known m len' := by
  cases τ with
  | reading idx kind fd => exact ⟨h.1.mono hnm, Nat.lt_of_lt_of_le h.2 hlen⟩
  | waiting => trivial
  | admitted => trivial
  | answered a => trivial

/-- Every failed worker that is still in its slot is spent. -/
structure State.Sealed (s : State) : Prop where
  pool : NamedPool.Sealed s.failed s.nextThread s.pool
  known : ∀ τ ∈ s.tasks, τ.Known s.nextThread s.pool.workers.length

theorem known_set {τ : Task} {tasks : List Task} {len len' : Nat}
    (h : ∀ τ' ∈ tasks, τ'.Known n len) (hnm : n ≤ m) (hlen : len ≤ len') (hτ : τ.Known m len') :
    ∀ τ' ∈ tasks.set t τ, τ'.Known m len' := by
  intro τ' hmem
  obtain hmem | rfl := List.mem_or_eq_of_mem_set hmem
  · exact (h τ' hmem).mono hnm hlen
  · exact hτ

/-- The worker chosen for a request under `supply`, with its slot. -/
def State.picked (cfg : Config) (s : State) (supply : Supply) : Option (Nat × Worker) :=
  match claim cfg s.pool supply with
  | (some idx, p) => (p.workers[idx]?).map fun w => (idx, w)
  | (none, _) => none

/-- The worker a request has, with its slot. -/
def Task.worker? : Task → Option (Nat × WorkerKind)
  | .reading idx kind _ => some (idx, kind)
  | _ => none

/-- No worker on which a request failed is handed out. -/
def AvoidsFailed (cfg : Config) (s : State) : Event → State → Prop
  | .dispatch _ supply, _ => ∀ c ∈ s.picked cfg supply, (c.1, c.2.kind) ∉ s.failed
  | _, _ => True

/-- A request fails because its worker is gone only if that worker is on its last
request, or was replaced meanwhile. -/
def FailsOnLastRequest (cfg : Config) (s : State) : Event → Prop
  | .dispatch _ supply =>
    ∀ c ∈ s.picked cfg supply,
      gone (claim cfg s.pool supply).2.os s.closed c.2.kind = true → OnLastRequest c.2
  | .finish t .workerGone =>
    ∀ c ∈ (s.tasks[t]?).bind Task.worker?,
      ∀ w ∈ s.pool.workers[c.1]?, w.kind = c.2 → OnLastRequest w
  | _ => True

instance : (e : Event) → Decidable (FailsOnLastRequest cfg s e)
  | .dispatch _ supply => inferInstanceAs (Decidable (∀ c ∈ s.picked cfg supply,
      gone (claim cfg s.pool supply).2.os s.closed c.2.kind = true → OnLastRequest c.2))
  | .finish t .workerGone => inferInstanceAs (Decidable (∀ c ∈ (s.tasks[t]?).bind Task.worker?,
      ∀ w ∈ s.pool.workers[c.1]?, w.kind = c.2 → OnLastRequest w))
  | .finish _ .response | .finish _ .otherError | .arrive | .acquire _ | .expire _ | .reap _
  | .childEnds _ _ | .threadCloses _ | .threadExits _ => instDecidableTrue

instance {s' : State} : (e : Event) → Decidable (AvoidsFailed cfg s e s')
  | .dispatch _ supply => inferInstanceAs (Decidable (∀ c ∈ s.picked cfg supply,
      (c.1, c.2.kind) ∉ s.failed))
  | .finish _ _ | .arrive | .acquire _ | .expire _ | .reap _ | .childEnds _ _
  | .threadCloses _ | .threadExits _ => instDecidableTrue

theorem picked_eq (hclaim : claim cfg s.pool supply = (some idx, p))
    (hw : p.workers[idx]? = some w) : s.picked cfg supply = some (idx, w) := by
  simp only [State.picked, hclaim, hw, Option.map_some]

/-- The pool after the choice of a worker. -/
theorem sealed_claim {r : Option Nat} (h : s.Sealed) (hsupply : s.Supplies supply)
    (hclaim : claim cfg s.pool supply = (r, p)) :
    NamedPool.Sealed s.failed (supply.nextThread s.nextThread) p ∧
      s.pool.workers.length ≤ p.workers.length := by
  have hp : Advance supply.Starts s.pool p := advance_claim (fun th hth => ⟨th, hth, rfl⟩) hclaim
  exact ⟨h.pool.advance hp (fun _ => starts_bounds hsupply) (le_nextThread supply s.nextThread).1,
    hp.grows⟩

/-- A worker marked idle is not spent, so it is not one that failed. -/
theorem avoidsFailed_claim (hp : NamedPool.Sealed s.failed n p)
    (hclaim : claim cfg s.pool supply = (some idx, p)) (hw : p.workers[idx]? = some w)
    (hidle : w.state = .idle) : AvoidsFailed cfg s (.dispatch t supply) s' := by
  intro c hc hfailed
  rw [picked_eq hclaim hw] at hc
  obtain rfl := Option.some.inj hc
  exact (hp.spent hfailed hw rfl).1 hidle

/-- Giving back a worker on its last request lets it be noted as failed. -/
theorem sealed_noteReturned (h : NamedPool.Sealed failed n p) (hkind : Below n kind)
    (hidx : idx < p.workers.length)
    (hlast : ∀ w, p.workers[idx]? = some w → w.kind = kind → OnLastRequest w) :
    NamedPool.Sealed ((idx, kind) :: failed) n (returnWorker p idx) := by
  refine (h.keep advance_returnWorker).note hkind
    (Nat.lt_of_lt_of_le hidx (Nat.le_of_eq Pool.length_returnWorker.symm)) fun w' hw' hw'kind => ?_
  have hw : p.workers[idx]? = some p.workers[idx] := List.getElem?_eq_getElem hidx
  have hsame : w'.kind = p.workers[idx].kind := by
    have hadvance : Advance (fun _ => False) p (returnWorker p idx) := advance_returnWorker
    obtain ⟨w, hw', hkeep⟩ | ⟨id, -, hfalse⟩ := hadvance.slot hidx hw'
    · rw [hkeep.1, Option.some.inj (hw.symm.trans hw')]
    · exact hfalse.elim
  have hone : OnLastRequest p.workers[idx] := hlast _ hw (hsame ▸ hw'kind)
  rw [returnWorker_getElem? hw hone] at hw'
  exact Option.some.inj hw' ▸ spent_terminate hone

/-- **Step lemma.**  If a request fails for want of its worker only on the worker's
last request, failed workers stay spent, and none is handed out. -/
theorem sealed_step (h : s.Sealed) (hg : FailsOnLastRequest cfg s e)
    (hstep : step cfg s e = some s') : s'.Sealed ∧ AvoidsFailed cfg s e s' := by
  cases Step.of_step hstep with
  | arrive =>
    refine ⟨⟨h.pool, fun τ hτ => ?_⟩, trivial⟩
    obtain hτ | hτ := List.mem_append.1 hτ
    · exact h.known τ hτ
    · rw [List.mem_singleton.1 hτ]
      trivial
  | acquire ht hpermit =>
    exact ⟨⟨h.pool, known_set h.known (Nat.le_refl _) (Nat.le_refl _) trivial⟩, trivial⟩
  | expire ht =>
    exact ⟨⟨h.pool, known_set h.known (Nat.le_refl _) (Nat.le_refl _) trivial⟩, trivial⟩
  | @refuse t supply p ht hsupply hclaim =>
    obtain ⟨hp, hgrows⟩ := sealed_claim h hsupply hclaim
    refine ⟨⟨hp, known_set h.known (le_nextThread _ _).1 hgrows trivial⟩, fun c hc => ?_⟩
    simp only [State.picked, hclaim] at hc
    cases hc
  | @sendFails t idx supply p w ht hsupply hclaim hw hidle hgone =>
    obtain ⟨hp, hgrows⟩ := sealed_claim h hsupply hclaim
    have hpicked := picked_eq (s := s) hclaim hw
    have hlast : OnLastRequest w := hg (idx, w) hpicked (by rw [hclaim]; exact hgone)
    obtain ⟨hlt, -⟩ := List.getElem?_eq_some_iff.1 hw
    have hbusy := hp.keep (advance_markBusy hw hidle)
    have hlen : (markBusy p idx w).workers.length = p.workers.length := by simp [markBusy]
    have hbusyAt : (markBusy p idx w).workers[idx]? = some w.markBusy := by simp [markBusy, hlt]
    refine ⟨⟨?_, known_set h.known (le_nextThread _ _).1 ?_ trivial⟩, ?_⟩
    · refine sealed_noteReturned hbusy (hp.drawn (List.mem_of_getElem? hw)) (hlen ▸ hlt)
        fun u hu _ => ?_
      rw [hbusyAt] at hu
      exact Option.some.inj hu ▸ hlast
    · exact Nat.le_trans hgrows (Nat.le_of_eq (hlen.symm.trans Pool.length_returnWorker.symm))
    · exact avoidsFailed_claim hp hclaim hw hidle
  | @send t idx supply p w ht hsupply hclaim hw hidle hgone =>
    obtain ⟨hp, hgrows⟩ := sealed_claim h hsupply hclaim
    obtain ⟨hlt, -⟩ := List.getElem?_eq_some_iff.1 hw
    have hlen : (markBusy p idx w).workers.length = p.workers.length := by simp [markBusy]
    refine ⟨⟨hp.keep (advance_markBusy hw hidle), known_set h.known (le_nextThread _ _).1 ?_ ?_⟩, ?_⟩
    · exact hlen ▸ hgrows
    · exact ⟨hp.drawn (List.mem_of_getElem? hw), hlen ▸ hlt⟩
    · exact avoidsFailed_claim hp hclaim hw hidle
  | @finish t idx fd kind r ht hgone =>
    have hknown : ∀ a : Answer, ∀ τ ∈ s.tasks.set t (.answered a),
        τ.Known s.nextThread (returnWorker s.pool idx).workers.length := fun a =>
      known_set h.known (Nat.le_refl _) (Nat.le_of_eq Pool.length_returnWorker.symm) trivial
    have hreading := h.known _ (List.mem_of_getElem? ht)
    refine ⟨?_, trivial⟩
    cases r with
    | response => exact ⟨h.pool.keep advance_returnWorker, hknown _⟩
    | otherError => exact ⟨h.pool.keep advance_returnWorker, hknown _⟩
    | workerGone =>
      have hlast := hg (idx, kind) (by rw [ht]; rfl)
      exact ⟨sealed_noteReturned h.pool hreading.1 hreading.2 hlast, hknown _⟩
  | @reap supply hsupply =>
    have hp : Advance supply.Starts s.pool (reap cfg s.pool supply) :=
      advance_reap fun th hth => ⟨th, hth, rfl⟩
    have hle := (le_nextThread supply s.nextThread).1
    exact ⟨⟨h.pool.advance hp (fun _ => starts_bounds hsupply) hle,
      fun τ hτ => (h.known τ hτ).mono hle hp.grows⟩, trivial⟩
  | childEnds hc hrunning => exact ⟨⟨h.pool.keep (.of_workers_eq rfl), h.known⟩, trivial⟩
  | threadCloses hid => exact ⟨⟨h.pool, h.known⟩, trivial⟩
  | threadExits hid => exact ⟨⟨h.pool.keep (.of_workers_eq rfl), h.known⟩, trivial⟩

theorem sealed_initial (cfg : Config) (supply : Supply) : (initial cfg supply).Sealed := by
  have hadvance : Advance supply.Starts ⟨⟨fun _ => none, fun _ => false⟩, [], [], false⟩
      (initial cfg supply).pool := by
    unfold initial
    cases cfg.mode with
    | process => exact advance_spawnEach
    | thread => exact advance_spawnEachThread fun th hth => ⟨th, hth, rfl⟩
  have hempty : NamedPool.Sealed [] 0 ⟨⟨fun _ => none, fun _ => false⟩, [], [], false⟩ :=
    ⟨nofun, nofun, nofun, nofun⟩
  have hnew : ∀ id, supply.Starts id → 0 ≤ id ∧ id < supply.nextThread 0 := by
    rintro _ ⟨th, hth, rfl⟩
    exact ⟨Nat.zero_le _, (le_nextThread supply 0).2 th hth⟩
  exact ⟨hempty.advance hadvance hnew (Nat.zero_le _), nofun⟩

/-! ## whole runs -/

/-- If a request fails for want of its worker only on the last request of the
worker's quota, no run hands a failed worker out again before it is replaced. -/
theorem failed_worker_not_reused (cfg : Config) (supply : Supply) (es : List Event)
    (hg : Guarded (step cfg) (FailsOnLastRequest cfg) (initial cfg supply) es) :
    Along (step cfg) (AvoidsFailed cfg) (initial cfg supply) es :=
  along_of_guarded (I := State.Sealed) (G := FailsOnLastRequest cfg) (R := AvoidsFailed cfg)
    (fun _ _ _ h hg hstep => sealed_step h hg hstep) (sealed_initial cfg supply) hg

/-- Two threads that serve one request each. -/
def oneShot : Config := ⟨⟨2, 1, fun base _ _ => base⟩, .thread⟩

/-- The worker at the back of the queue ends. -/
def lastThreadEnds : List Event := [.threadCloses 1, .threadExits 1]

theorem failed_worker_not_reused_oneShot :
    Along (step oneShot) (AvoidsFailed oneShot) (initial oneShot firstThreads)
        (lastThreadEnds ++ enter 0 noSupply ++ enter 1 noSupply) ∧
      ∃ s, run (step oneShot) (initial oneShot firstThreads)
          (lastThreadEnds ++ enter 0 noSupply ++ enter 1 noSupply) = some s ∧
        s.failed = [(1, .thread 1)] ∧ s.Uses 1 0 :=
  ⟨failed_worker_not_reused oneShot firstThreads _ (by decide), _, rfl, rfl, ⟨_, _, rfl, rfl⟩⟩

/-- Two threads without a quota. -/
def unlimited : Config := ⟨⟨2, 0, fun base _ _ => base⟩, .thread⟩

/-- The pool of two threads after `n` requests found thread 1 gone. -/
def starved (n : Nat) : Pool.State :=
  ⟨⟨fun _ => none, Function.update (Function.update (Function.update (fun _ => false) 0 true)
      1 true) 1 false⟩,
    [.newThread 0 0 10 11, { Worker.newThread 1 0 12 13 with requestsHandled := n }], [0, 1], false⟩

/-- The whole state then, with `ts` behind the requests that failed. -/
def starvedState (n permits : Nat) (ts : List Task) : State :=
  ⟨starved n, Function.update (fun _ => false) 1 true, 2, permits,
    List.replicate n (.answered .badGateway) ++ ts, List.replicate n (1, .thread 1)⟩

/-- The request fails and puts the worker to the back of the queue again. -/
theorem dispatch_starved (n : Nat) :
    step unlimited (starvedState n 1 [.admitted]) (.dispatch n noSupply) =
      some (starvedState (n + 1) 2 []) := by
  have hadmitted : (starvedState n 1 [.admitted]).tasks[n]? = some .admitted := by
    simp [starvedState]
  have hsupply : (starvedState n 1 [.admitted]).Supplies noSupply := by
    simp [State.Supplies, noSupply]
  have hreturn : (starvedState n 1 [.admitted]).dispatch unlimited n noSupply =
      { starvedState (n + 1) 2 [] with
        tasks := (starvedState n 1 [.admitted]).tasks.set n (.answered .badGateway) } := rfl
  have htasks : (starvedState n 1 [.admitted]).tasks.set n (.answered .badGateway) =
      (starvedState (n + 1) 2 []).tasks := by simp [starvedState, List.replicate_succ']
  simp only [step, hadmitted, hsupply, if_true, hreturn, htasks]

/-- One more request fails on the same worker. -/
theorem run_starved (n : Nat) :
    run (step unlimited) (starvedState n 2 []) (enter n noSupply) =
      some (starvedState (n + 1) 2 []) := by
  have harrive : step unlimited (starvedState n 2 []) .arrive =
      some (starvedState n 2 [.waiting]) := by simp [step, starvedState]
  have hacquire : step unlimited (starvedState n 2 [.waiting]) (.acquire n) =
      some (starvedState n 1 [.admitted]) := by simp [step, State.goto, starvedState]
  simp only [enter, run, harrive, hacquire, dispatch_starved, Option.bind_some]

/-- `n` requests, one after the other. -/
def requests (n : Nat) : List Event := (List.range n).flatMap fun t => enter t noSupply

/-- **Run lemma.**  Every one of them fails. -/
theorem run_requests (n : Nat) :
    run (step unlimited) (starvedState 0 2 []) (requests n) = some (starvedState n 2 []) := by
  induction n with
  | zero => rfl
  | succ n ih =>
    rw [requests, List.range_succ, List.flatMap_append, run_append]
    rw [requests] at ih
    rw [ih, Option.bind_some, List.flatMap_singleton, run_starved]

/-- Worker 1 ends.  The second request gets the worker the first one failed on, and
however many requests follow, all of them fail, although worker 0 runs and is idle
all the time. -/
theorem failed_worker_reused :
    ¬ Along (step unlimited) (AvoidsFailed unlimited) (initial unlimited firstThreads)
        (lastThreadEnds ++ requests 2) ∧
      ∀ n, ∃ s, run (step unlimited) (initial unlimited firstThreads)
          (lastThreadEnds ++ requests n) = some s ∧
        s.tasks = List.replicate n (.answered .badGateway) ∧
        0 ∈ s.pool.idleQueue ∧
        ∃ w, s.pool.workers[0]? = some w ∧ w.state = .idle ∧ w.running s.pool.os = true := by
  refine ⟨by decide, fun n => ⟨starvedState n 2 [], ?_, ?_, ?_, ?_⟩⟩
  · rw [run_append]
    exact run_requests n
  · simp [starvedState]
  · simp [starvedState, starved]
  · exact ⟨_, rfl, rfl, rfl⟩

end Turbine.NamedPool
