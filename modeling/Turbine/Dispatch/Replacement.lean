import Turbine.Dispatch.Accounting
import Turbine.Dispatch.Exclusion
import Turbine.Dispatch.Workers

/-!
# Turbine.Dispatch.Replacement

A slot that was marked unhealthy must not be dispatched to again before its
worker was replaced.  The flag does keep requests away (`State.AvoidedBy`), so
everything rests on when it goes down.  `refresh_fds` lowers the flags of
all slots on every tick, whether or not the worker behind a slot was
respawned; `ClearsRenewed` is the condition that it lowers a flag only after
the pool put a new worker in and the fd table has its pipes.
-/

namespace Turbine.Dispatch

open Base

variable {cfg : Config} {s s' : State} {e : Event} {i t : Nat} {w : WorkerId} {τ : Task}

/-! ## when flags go down -/

/-- The worker must not serve again: its slot was marked unhealthy while it was
there, or a request to it was abandoned. -/
def State.Tainted (s : State) (w : WorkerId) : Prop := w ∈ s.marked ∨ w ∈ s.abandoned

/-- The pool has an untainted worker in slot `i`, and the fd table its pipes. -/
def State.Renewed (s : State) (i : Nat) : Prop :=
  ∃ w ∈ (s.occupant? i).toList, s.fds[i]? = some w ∧ ¬ s.Tainted w

/-- Slots whose unhealthy flag the step lowers. -/
def clearedBy (cfg : Config) (s : State) : Event → List Nat
  | .reaper =>
    match s.reaper with
    | .swapFlag c i _ => if i < min c.newLen cfg.cap ∧ s.unhealthy i = true then [i] else []
    | _ => []
  | _ => []

/-- The step lowers flags of renewed slots only. -/
def ClearsRenewed (cfg : Config) (s : State) (e : Event) : Prop :=
  ∀ i ∈ clearedBy cfg s e, s.Renewed i

instance : Decidable (s.Tainted w) := inferInstanceAs (Decidable (w ∈ s.marked ∨ w ∈ s.abandoned))

instance : Decidable (s.Renewed i) :=
  inferInstanceAs (Decidable (∃ w ∈ (s.occupant? i).toList, s.fds[i]? = some w ∧ ¬ s.Tainted w))

instance : Decidable (ClearsRenewed cfg s e) :=
  inferInstanceAs (Decidable (∀ i ∈ clearedBy cfg s e, s.Renewed i))

theorem unhealthy_or_cleared (h : Step cfg s e s') (hu : s.unhealthy i = true) :
    s'.unhealthy i = true ∨ i ∈ clearedBy cfg s e := by
  cases h with
  | @swapFlag c j revived hr hj =>
    by_cases hij : i = j
    · subst hij
      exact .inr (by simp only [clearedBy, hr]; rw [if_pos ⟨hj, hu⟩]; simp)
    · exact .inl (by simpa [hij] using hu)
  | markDead | poison | mark => exact .inl ((s.markUnhealthy_unhealthy cfg _).2 (.inr hu))
  | _ => exact .inl hu

theorem not_refreshing_of_cleared (hi : i ∈ clearedBy cfg s e) (newFds : List WorkerId) :
    s.reaper ≠ .refreshing newFds := by
  intro hr
  cases e <;> simp [clearedBy, hr] at hi

/-! ## tainted workers are behind a raised flag -/

/-- Every slot that lists a tainted worker has its flag up. -/
def State.Quarantined (cfg : Config) (s : State) : Prop :=
  ∀ i < cfg.cap, ∀ w, s.Listed i w → s.Tainted w → s.unhealthy i = true

/-- A worker becomes tainted while its slot's flag goes up. -/
theorem tainted_step (h : Step cfg s e s') (hn : s.Numbered cfg) (hw : s'.Tainted w) :
    s.Tainted w ∨ (w.slot < cfg.cap → s'.unhealthy w.slot = true) := by
  obtain hw | hw := hw
  · obtain hw | ⟨i, -, hocc, hu⟩ := marked_step h hw
    · exact .inl (.inl hw)
    · rw [(hn.listed i w (.inl hocc)).1]
      exact .inr fun _ => hu
  · obtain hw | ⟨t, idx, -, ht, hu⟩ := abandoned_step h hw
    · exact .inl (.inr hw)
    · rw [((numbered_guard hn.tasks ht).2 w rfl).1]
      exact .inr hu

theorem tainted_serial_lt (hn : s.Numbered cfg) (hw : s.Tainted w) : w.serial < s.nextSerial := by
  obtain hw | hw := hw
  · exact hn.marked w hw
  · exact hn.abandoned w hw

theorem listed_of_tainted (h : Step cfg s e s') (hn : s.Numbered cfg) (ht : s.Tainted w)
    (hw : s'.Listed i w) : s.Listed i w := by
  obtain hw | hnew := listed_step h hw
  · exact hw
  · have h1 := hnew.le
    have h2 := tainted_serial_lt hn ht
    omega

/-- **Step lemma.**  A step that lowers flags of renewed slots only keeps
tainted workers behind raised ones. -/
theorem quarantined_step (h : Step cfg s e s') (hn : s.Numbered cfg)
    (hc : ClearsRenewed cfg s e) (hq : s.Quarantined cfg) : s'.Quarantined cfg := by
  intro i hi w hw ht
  have hslot : w.slot = i := ((numbered_step h hn).listed i w hw).1
  obtain ht | hup := tainted_step h hn ht
  · have hlisted := listed_of_tainted h hn ht hw
    obtain hu | hclear := unhealthy_or_cleared h (hq i hi w hlisted ht)
    · exact hu
    · obtain ⟨v, hv, hfds, hclean⟩ := hc i hclear
      have hwv : w = v := by
        obtain hocc | hw | ⟨newFds, hr, -⟩ := hlisted
        · simpa [hocc, eq_comm] using hv
        · exact Option.some.inj (hw.symm.trans hfds)
        · exact absurd hr (not_refreshing_of_cleared hclear newFds)
      exact absurd ht (hwv ▸ hclean)
  · rw [← hslot]
    exact hup (hslot ▸ hi)

theorem tainted_mono (h : Step cfg s e s') (hw : s.Tainted w) : s'.Tainted w := by
  cases h with
  | markDead | poison | mark =>
    obtain hw | hw := hw
    · exact .inl ((s.mem_markUnhealthy_marked cfg _).2 (.inr hw))
    · exact .inr (by simp [State.goto, hw])
  | _ => exact hw

/-! ## who gets past a flag -/

/-- The slot whose unhealthy flag the task has found down. -/
def Task.passed? : Task → Option Nat
  | .checked _ idx => some idx
  | .guarded g _ => some g.idx
  | .waiting _ | .acquired _ | .restoring | .popped .. | .returning | .finished _ => none

/-- The worker whose pipes the task is armed with. -/
def Task.armed? : Task → Option WorkerId
  | .guarded g _ => g.poisonOnDrop
  | .waiting _ | .acquired _ | .restoring | .popped .. | .checked .. | .returning
  | .finished _ => none

theorem slot?_of_passed? (h : τ.passed? = some i) : τ.slot? = some i := by
  cases τ with
  | checked | guarded => exact h
  | _ => cases h

theorem passed?_skip (k : Nat) : (skip cfg k).passed? = none := by
  unfold skip; split <;> rfl

/-- Where task `t` that is past the flag of slot `i` after a step comes from: it has just found
the flag down, or it was past it before; and it gets its guard under the quota, and its
worker from the fd table. -/
def State.Admits (cfg : Config) (s : State) (t i : Nat) (τ' : Task) : Prop :=
  (i < cfg.cap ∧ s.unhealthy i = false ∧ (∃ k, s.tasks[t]? = some (.popped k i)) ∧
      τ'.guard? = none ∧ τ'.armed? = none) ∨
    ∃ τ, s.tasks[t]? = some τ ∧ τ.passed? = some i ∧
      (τ.guard? = some i → τ'.guard? = some i) ∧
      (τ'.guard? = some i → τ.guard? = some i ∨ s.overQuota cfg i = false) ∧
      ∀ w, τ'.armed? = some w → τ.armed? = some w ∨ s.fds[i]? = some w

theorem passed_step (h : Step cfg s e s') :
    ∀ u σ, s'.tasks[u]? = some σ → σ.passed? = some i → s.Admits cfg u i σ := by
  have hstay : ∀ u σ, s.tasks[u]? = some σ → σ.passed? = some i → s.Admits cfg u i σ :=
    fun u σ hget hp => .inr ⟨σ, hget, hp, id, .inl, fun w => .inl⟩
  have hset : ∀ {t : Nat} {τ τ' : Task}, s.tasks[t]? = some τ →
      (τ'.passed? = some i → s.Admits cfg t i τ') →
      ∀ u σ, (s.tasks.set t τ')[u]? = some σ → σ.passed? = some i → s.Admits cfg u i σ :=
    fun ht hτ' => forall_getElem?_set hstay ht fun _ => hτ'
  have hkeep : ∀ {t : Nat} {g : IdleGuard} {st : Stage} (st' : Stage),
      s.tasks[t]? = some (.guarded g st) → ∀ u σ, (s.tasks.set t (.guarded g st'))[u]? = some σ →
        σ.passed? = some i → s.Admits cfg u i σ :=
    fun st' ht => hset ht fun hp => .inr ⟨_, ht, hp, id, .inl, fun w => .inl⟩
  cases h with
  | arrive => exact forall_getElem?_concat hstay fun _ hp => by cases hp
  | skipUnhealthy ht h => exact hset ht fun hp => by simp [passed?_skip] at hp
  | skipOverQuota ht h => exact hset ht fun hp => by simp [passed?_skip] at hp
  | check ht hi hu =>
    refine hset ht fun hp => .inl ?_
    obtain rfl := Option.some.inj hp
    exact ⟨hi, hu, ⟨_, ht⟩, rfl, rfl⟩
  | claim ht hq =>
    refine hset ht fun hp => .inr ⟨_, ht, hp, fun _ => hp, fun _ => .inr ?_, fun w hw => ?_⟩
    · obtain rfl := Option.some.inj hp
      exact hq
    · cases hw
  | arm hm ht hw =>
    refine hset ht fun hp => .inr ⟨_, ht, hp, id, .inl, fun v hv => .inr ?_⟩
    obtain rfl := Option.some.inj hp
    exact hw.trans hv
  | record ht => exact hset ht fun hp => .inr ⟨_, ht, hp, id, .inl, fun w => .inl⟩
  | markDead ht =>
    simp only [State.goto, State.markUnhealthy_tasks]
    exact hkeep _ ht
  | poison ht =>
    simp only [State.goto, State.markUnhealthy_tasks]
    exact hset ht fun hp => by cases hp
  | mark hr => simpa using hstay
  | _ =>
    -- the other steps of a request keep its guard, or leave it without a slot
    first
    | exact hstay
    | exact hkeep _ (‹_› : s.tasks[_]? = some (Task.guarded _ _))
    | exact hset (‹_› : s.tasks[_]? = some _) fun hp => by cases hp

/-! ## requests avoid tainted workers -/

/-- The task neither found `w` in its slot when it passed the flag nor is armed with it. -/
def Task.Avoids (s : State) (w : WorkerId) (τ : Task) : Prop :=
  (∀ i, τ.passed? = some i → ¬ s.Listed i w) ∧ τ.armed? ≠ some w

/-- Request `t` avoids `w`. -/
def State.AvoidedBy (s : State) (t : Nat) (w : WorkerId) : Prop :=
  ∀ τ, s.tasks[t]? = some τ → τ.Avoids s w

theorem passed?_of_armed? (h : τ.armed? = some w) : ∃ i, τ.passed? = some i := by
  cases τ with
  | guarded g st => exact ⟨g.idx, rfl⟩
  | _ => cases h

/-- **Step lemma.**  A request that avoids a tainted worker goes on avoiding it: it does not
get past a raised flag. -/
theorem avoid_step (h : Step cfg s e s') (hn : s.Numbered cfg) (hq : s.Quarantined cfg)
    (hw : s.Tainted w) (ha : s.AvoidedBy t w) : s'.AvoidedBy t w := by
  intro σ hget
  have hpassed : ∀ i, σ.passed? = some i → ¬ s.Listed i w := by
    intro i hp hlisted
    obtain ⟨hi, hdown, -⟩ | ⟨τ, hτ, hp, -⟩ := passed_step h t σ hget hp
    · rw [hq i hi w hlisted hw] at hdown
      cases hdown
    · exact (ha τ hτ).1 i hp hlisted
  refine ⟨fun i hp hlisted => hpassed i hp (listed_of_tainted h hn hw hlisted), fun harmed => ?_⟩
  obtain ⟨i, hp⟩ := passed?_of_armed? harmed
  obtain ⟨-, -, -, -, hnone⟩ | ⟨τ, hτ, hp, -, -, hback⟩ := passed_step h t σ hget hp
  · rw [hnone] at harmed
    cases harmed
  · obtain hbefore | hfds := hback w harmed
    · exact (ha τ hτ).2 hbefore
    · exact (ha τ hτ).1 i hp (.inr (.inl hfds))

/-! ## between the flag and the quota -/

/-- The slots that the reaper has found over quota. -/
def Reaper.found : Reaper → List Nat
  | .scanFlag _ out | .scanServed _ out | .marking out => out
  | _ => []

/-- A request that is past the flag when it goes up finds its slot over quota. -/
structure State.Settled (cfg : Config) (s : State) : Prop where
  scanning : ∀ i out, s.reaper = .scanServed i out → 0 < cfg.quotaFor i
  found : ∀ i ∈ s.reaper.found, s.overQuota cfg i = true
  checked : ∀ (t k i : Nat), s.tasks[t]? = some (.checked k i) → s.unhealthy i = true →
    s.overQuota cfg i = true ∧ ∀ c was revived, s.reaper ≠ .swapServed c i was revived

/-- Only `refresh_fds` takes a slot back under its quota. -/
theorem overQuota_kept (h : Step cfg s e s') (hi : s.overQuota cfg i = true)
    (hswap : ∀ c was revived, s.reaper ≠ .swapServed c i was revived) :
    s'.overQuota cfg i = true := by
  obtain hover | ⟨c, was, revived, hr, -⟩ := overQuota_step h hi
  · exact hover
  · exact absurd hr (hswap c was revived)

/-- A flag is raised by the one who holds the slot, or by the reaper if it found the slot over
quota. -/
theorem raised_step (h : Step cfg s e s') (hu : s'.unhealthy i = true) :
    s.unhealthy i = true ∨ i ∈ s.reaper.found ∨
      ∃ (t : Nat) (g : IdleGuard) (st : Stage),
        s.tasks[t]? = some (.guarded g st) ∧ g.idx = i := by
  cases h with
  | markDead ht | poison ht =>
    obtain ⟨rfl, -⟩ | hu := (s.markUnhealthy_unhealthy cfg _).1 hu
    · exact .inr (.inr ⟨_, _, _, ht, rfl⟩)
    · exact .inl hu
  | mark hr =>
    obtain ⟨rfl, -⟩ | hu := (s.markUnhealthy_unhealthy cfg _).1 hu
    · exact .inr (.inl (by simp [hr, Reaper.found]))
    · exact .inl hu
  | @swapFlag c j revived hr hj =>
    by_cases hij : i = j
    · simp [hij] at hu
    · exact .inl (by simpa [hij] using hu)
  | _ => exact .inl hu

/-- A flag is down when its counter is about to be reset. -/
theorem swapServed_step (h : Step cfg s e s') {c : RefreshCall} {was : Bool} {revived : List Nat}
    (hr' : s'.reaper = .swapServed c i was revived) :
    s.reaper = .swapServed c i was revived ∨ s'.unhealthy i = false := by
  cases h with
  | swapFlag hr hj =>
    cases hr'
    exact .inr (Function.update_self ..)
  | tick => dsimp only at hr'; split at hr' <;> cases hr'
  | markDead | poison => exact .inl (by simpa [State.goto] using hr')
  | _ => first | exact .inl hr' | cases hr'

/-- The reaper only adds slots that it finds over quota. -/
theorem found_step (h : Step cfg s e s') (hs : s.Settled cfg) (hi : i ∈ s'.reaper.found) :
    s.overQuota cfg i = true ∧ ∀ c was revived, s.reaper ≠ .swapServed c i was revived := by
  have hkeep : i ∈ s.reaper.found →
      s.overQuota cfg i = true ∧ ∀ c was revived, s.reaper ≠ .swapServed c i was revived := by
    refine fun hi => ⟨hs.found i hi, fun c was revived hr => ?_⟩
    rw [hr] at hi
    cases hi
  cases h with
  | scanOver hr hq =>
    obtain hi | hi := List.mem_append.1 hi
    · exact hkeep (by simpa [hr, Reaper.found] using hi)
    · obtain rfl := List.mem_singleton.1 hi
      exact ⟨by simp [State.overQuota, hs.scanning _ _ hr, hq], by simp [hr]⟩
  | tick => dsimp only at hi; split at hi <;> cases hi
  | markDead | poison => exact hkeep (by simpa [State.goto] using hi)
  | mark hr | scanDone hr | scanSkip hr | scanFlag hr | scanUnder hr =>
    exact hkeep (by simp_all [Reaper.found])
  | _ => first | exact hkeep hi | cases hi

theorem exists_checked (hp : τ.passed? = some i) (hguard : τ.guard? ≠ some i) :
    ∃ k, τ = .checked k i := by
  cases τ with
  | checked k idx => exact ⟨k, by rw [Option.some.inj hp]⟩
  | guarded g st => exact absurd hp hguard
  | _ => cases hp

/-- **Step lemma.**  While slots are exclusive, nobody else is past the flag that a request
raises. -/
theorem settled_step (h : Step cfg s e s') (hex : s.Exclusive) (hs : s.Settled cfg) :
    s'.Settled cfg where
  scanning i out hr' := by
    cases h with
    | scanFlag hr hi hu hq => cases hr'; exact hq
    | tick => dsimp only at hr'; split at hr' <;> cases hr'
    | markDead | poison => exact hs.scanning i out (by simpa [State.goto] using hr')
    | _ => first | exact hs.scanning i out hr' | cases hr'
  found i hi := overQuota_kept h (found_step h hs hi).1 (found_step h hs hi).2
  checked t k i hget hu' := by
    have hbefore : s.overQuota cfg i = true ∧
        ∀ c was revived, s.reaper ≠ .swapServed c i was revived := by
      have hfrom := passed_step h t _ hget rfl
      obtain hu | hfound | ⟨u, g, st, hu, rfl⟩ := raised_step h hu'
      · obtain ⟨-, hdown, -⟩ | ⟨τ, hτ, hp, hguard, -⟩ := hfrom
        · rw [hu] at hdown
          cases hdown
        · obtain ⟨k', rfl⟩ := exists_checked hp fun hg => by cases hguard hg
          exact hs.checked t k' i hτ hu
      · refine ⟨hs.found i hfound, fun c was revived hr => ?_⟩
        rw [hr] at hfound
        cases hfound
      · -- the slot is exclusive, and this request does not hold a guard
        obtain ⟨-, -, ⟨k', hτ⟩, -⟩ | ⟨τ, hτ, hp, hguard, -⟩ := hfrom
        · obtain rfl := hex.taker_unique hu hτ (slot?_guarded g st) (slot?_popped k' _)
          cases hu.symm.trans hτ
        · obtain ⟨k', rfl⟩ := exists_checked hp fun hg => by cases hguard hg
          obtain rfl := hex.taker_unique hu hτ (slot?_guarded g st) (slot?_checked k' _)
          cases hu.symm.trans hτ
    refine ⟨overQuota_kept h hbefore.1 hbefore.2, fun c was revived hr' => ?_⟩
    obtain hr | hdown := swapServed_step h hr'
    · exact hbefore.2 c was revived hr
    · rw [hu'] at hdown
      cases hdown

/-! ## a marked slot is not returned before it is renewed -/

/-- Request `t` does not have slot `i`, as `held?` says which slot a request has. -/
def State.Lacks (s : State) (held? : Task → Option Nat) (t i : Nat) : Prop :=
  ∀ τ, s.tasks[t]? = some τ → held? τ ≠ some i

/-- No request gets past a raised flag. -/
theorem not_passed_step (h : Step cfg s e s') (hu : s.unhealthy i = true)
    (hb : s.Lacks Task.passed? t i) : s'.Lacks Task.passed? t i := by
  intro σ hget hp
  obtain ⟨-, hdown, -⟩ | ⟨τ, hτ, hp, -⟩ := passed_step h t σ hget hp
  · rw [hu] at hdown
    cases hdown
  · exact hb τ hτ hp

/-- Nor does one that was past it before get a guard. -/
theorem not_guarded_step (h : Step cfg s e s') (hs : s.Settled cfg) (hu : s.unhealthy i = true)
    (hb : s.Lacks Task.guard? t i) : s'.Lacks Task.guard? t i := by
  intro σ hget hguard
  have hp : σ.passed? = some i := by
    cases σ with
    | guarded g st => exact hguard
    | _ => cases hguard
  obtain ⟨-, -, -, hnone, -⟩ | ⟨τ, hτ, hp, -, hback, -⟩ := passed_step h t σ hget hp
  · rw [hnone] at hguard
    cases hguard
  · have hquota := (hback hguard).resolve_left (hb τ hτ)
    obtain ⟨k, rfl⟩ := exists_checked hp (hb τ hτ)
    rw [(hs.checked t k i hτ hu).1] at hquota
    cases hquota

/-- Slot `i` has another worker than `w`, and the fd table has its pipes. -/
def Replaced (i : Nat) (w : WorkerId) (s : State) (_ : Event) (_ : State) : Prop :=
  ∃ v ∈ (s.occupant? i).toList, v ≠ w ∧ s.fds[i]? = some v

instance {e : Event} : Decidable (Replaced i w s e s') :=
  inferInstanceAs (Decidable (∃ v ∈ (s.occupant? i).toList, v ≠ w ∧ s.fds[i]? = some v))

/-- **Run lemma.**  Along a run that lowers flags of renewed slots only, a request that does
not have a slot when its flag is up does not get it before the tainted worker was replaced. -/
theorem lacks_or_replaced {held? : Task → Option Nat} {I : State → Prop}
    {G : State → Event → Prop} {es : List Event} (hclears : ∀ s e, G s e → ClearsRenewed cfg s e)
    (hkeep : ∀ s e s', I s → G s e → step cfg s e = some s' → I s')
    (hlacks : ∀ s e s', I s → Step cfg s e s' → s.unhealthy i = true → s.Lacks held? t i →
      s'.Lacks held? t i)
    (hI : I s) (hu : s.unhealthy i = true) (hw : s.Tainted w) (hb : s.Lacks held? t i)
    (hg : Guarded (step cfg) G s es) (hrun : run (step cfg) s es = some s') :
    s'.Lacks held? t i ∨ Sometime (step cfg) (Replaced i w) s es := by
  induction es generalizing s with
  | nil =>
    rw [run_nil, Option.some.injEq] at hrun
    exact .inl (hrun ▸ hb)
  | cons e es ih =>
    obtain ⟨s₁, hs, hrun⟩ := run_cons_eq_some.1 hrun
    obtain ⟨hG, hg⟩ := (guarded_cons hs).1 hg
    have h := Step.of_step hs
    obtain hu' | hclear := unhealthy_or_cleared h hu
    · exact (ih (hkeep s e s₁ hI hG hs) hu' (tainted_mono h hw) (hlacks s e s₁ hI h hu hb) hg
        hrun).imp_right fun hr => ⟨s₁, hs, .inr hr⟩
    · obtain ⟨v, hv, hfds, hclean⟩ := hclears s e hG i hclear
      exact .inr ⟨s₁, hs, .inl ⟨v, hv, fun hvw => hclean (hvw ▸ hw), hfds⟩⟩

/-! ## abandoned responses -/

/-- A request that is not past the flag of the worker's slot avoids it. -/
theorem avoids_of_ne (hn : s.Numbered cfg) (ht : s.tasks[t]? = some τ)
    (hne : τ.passed? ≠ some w.slot) : τ.Avoids s w := by
  refine ⟨fun i hp hlisted => hne ?_, fun harmed => hne ?_⟩
  · rw [hp, (hn.listed i w hlisted).1]
  · cases τ with
    | guarded g st => exact congrArg some ((numbered_guard hn.tasks ht).2 w harmed).1.symm
    | _ => cases harmed

/-- No request is anywhere near a worker that another one abandoned. -/
def State.Untouched (s : State) : Prop := ∀ w ∈ s.abandoned, ∀ t, s.AvoidedBy t w

/-- **Step lemma.**  While slots are exclusive, the worker a request abandons is
no other request's. -/
theorem untouched_step (h : Step cfg s e s') (hn : s.Numbered cfg) (hq : s.Quarantined cfg)
    (hex : s.Exclusive) (hx : s.Untouched) : s'.Untouched := by
  intro w hw u
  obtain hw | ⟨t, idx, rfl, ht, -⟩ := abandoned_step h hw
  · exact avoid_step h hn hq (.inr hw) (hx w hw u)
  · obtain rfl : w.slot = idx := ((numbered_guard hn.tasks ht).2 w rfl).1
    intro σ hget
    refine avoids_of_ne (numbered_step h hn) hget fun hp => ?_
    obtain rfl : u = t := by
      obtain ⟨-, -, ⟨k, hτ⟩, -⟩ | ⟨τ, hτ, hp, -⟩ := passed_step h u σ hget hp
      · exact hex.taker_unique hτ ht (slot?_popped k _) (slot?_guarded _ _)
      · exact hex.taker_unique hτ ht (slot?_of_passed? hp) (slot?_guarded _ _)
    cases h with
    | poison ht' =>
      have hlt := (List.getElem?_eq_some_iff.1 ht).1
      obtain rfl : _ = σ := by simpa [State.goto, hlt] using hget
      cases hp
    | giveBack ht' hg =>
      obtain rfl := Task.guarded.inj (Option.some.inj (ht.symm.trans ht')) |>.1
      simp at hg

/-! ## whole runs -/

/-- What a run promises from the moment `s₁` on, up to `s₂`, to a request that does not have
the slot then (`held?` says which slot a request has): a slot that was marked while its
present worker was there is not returned to it, unless another worker took its place with its
pipes in the table; and it does not read from a worker that was abandoned. -/
structure ReusesReplaced (cfg : Config) (held? : Task → Option Nat) (s₁ : State)
    (es : List Event) (s₂ : State) : Prop where
  returned : ∀ i < cfg.cap, ∀ w, s₁.occupant? i = some w → w ∈ s₁.marked →
    ∀ (t : Nat) (g : IdleGuard) (st : Stage), s₁.Lacks held? t i →
      s₂.tasks[t]? = some (.guarded g st) → g.idx = i → Sometime (step cfg) (Replaced i w) s₁ es
  reads : ∀ w ∈ s₁.abandoned, ∀ (t : Nat) (g : IdleGuard), s₁.Lacks held? t w.slot →
    s₂.tasks[t]? = some (.guarded g .reading) → g.poisonOnDrop ≠ some w

/-- What holds along a run that lowers the flags of renewed slots only. -/
structure State.Kept (cfg : Config) (s : State) : Prop where
  numbered : s.Numbered cfg
  quarantined : s.Quarantined cfg

theorem kept_step (hk : s.Kept cfg) (hc : ClearsRenewed cfg s e) (h : step cfg s e = some s') :
    s'.Kept cfg :=
  ⟨numbered_step (.of_step h) hk.numbered, quarantined_step (.of_step h) hk.numbered hc
    hk.quarantined⟩

theorem kept_initial (cfg : Config) (late : Nat → Bool) : (initial cfg late).Kept cfg :=
  ⟨numbered_initial cfg late, fun i _ w _ hw => by simp [State.Tainted] at hw⟩

/-- What holds if it re-queues free slots only as well. -/
structure State.Apart (cfg : Config) (s : State) : Prop extends s.Kept cfg where
  exclusive : s.Exclusive
  settled : s.Settled cfg
  untouched : s.Untouched

theorem apart_step (ha : s.Apart cfg) (hG : ClearsRenewed cfg s e ∧ ReaddsFree cfg s e)
    (h : step cfg s e = some s') : s'.Apart cfg where
  toKept := kept_step ha.toKept hG.1 h
  exclusive i := occurrences_step (.of_step h) hG.2 (ha.exclusive i)
  settled := settled_step (.of_step h) ha.exclusive ha.settled
  untouched := untouched_step (.of_step h) ha.numbered ha.quarantined ha.exclusive ha.untouched

theorem apart_initial (cfg : Config) (late : Nat → Bool) : (initial cfg late).Apart cfg where
  toKept := kept_initial cfg late
  exclusive := exclusive_initial cfg late
  settled := ⟨by simp, by simp [Reaper.found], by simp⟩
  untouched := fun w hw => by simp at hw

/-- Requests go on avoiding what is abandoned now. -/
theorem avoid_run {es : List Event} (hk : s.Kept cfg) (hw : s.Tainted w) (ha : s.AvoidedBy t w)
    (hg : Guarded (step cfg) (ClearsRenewed cfg) s es)
    (hrun : run (step cfg) s es = some s') : s'.AvoidedBy t w := by
  have hinv := invariant_of_guarded
    (I := fun s => s.Kept cfg ∧ s.Tainted w ∧ s.AvoidedBy t w)
    (fun s e s' ⟨hk, hw, ha⟩ hG h => ⟨kept_step hk hG h, tainted_mono (.of_step h) hw,
      avoid_step (.of_step h) hk.numbered hk.quarantined hw ha⟩)
    ⟨hk, hw, ha⟩ hg hrun
  exact hinv.2.2

/-- **Replacement.**  In every run that lowers the flags of renewed slots only, a marked slot
is dispatched to again only after its worker was replaced: no request gets it that has not
passed its flag when it is marked.  If `refresh_fds` also re-queues free slots only, no
request gets it that does not hold it already, and no request at all reads from a worker that
another request abandoned. -/
theorem replaced_before_reuse (cfg : Config) (late : Nat → Bool) (es₁ es₂ : List Event)
    (s₁ s₂ : State) (hrun₁ : run (step cfg) (initial cfg late) es₁ = some s₁)
    (hrun₂ : run (step cfg) s₁ es₂ = some s₂)
    (hg : Guarded (step cfg) (ClearsRenewed cfg) (initial cfg late) (es₁ ++ es₂)) :
    ReusesReplaced cfg Task.passed? s₁ es₂ s₂ ∧
      (Guarded (step cfg) (ReaddsFree cfg) (initial cfg late) (es₁ ++ es₂) →
        ReusesReplaced cfg Task.guard? s₁ es₂ s₂ ∧
          ∀ w ∈ s₂.abandoned, ∀ (t : Nat) (g : IdleGuard),
            s₂.tasks[t]? = some (.guarded g .reading) → g.poisonOnDrop ≠ some w) := by
  obtain ⟨hg₁, hg₂⟩ := (guarded_append hrun₁).1 hg
  have hk := invariant_of_guarded (fun _ _ _ => kept_step) (kept_initial cfg late) hg₁ hrun₁
  have hup : ∀ i < cfg.cap, ∀ w, s₁.occupant? i = some w → w ∈ s₁.marked → s₁.unhealthy i = true :=
    fun i hi w hocc hw => hk.quarantined i hi w (.inl hocc) (.inl hw)
  refine ⟨⟨?_, ?_⟩, fun hfree => ?_⟩
  · intro i hi w hocc hw t g st hlacks hget hidx
    have hor := lacks_or_replaced (I := State.Kept cfg) (fun _ _ hc => hc)
      (fun _ _ _ => kept_step) (fun _ _ _ _ => not_passed_step) hk (hup i hi w hocc hw) (.inl hw)
      hlacks hg₂ hrun₂
    exact hor.resolve_left fun hlacks => hlacks _ hget (congrArg some hidx)
  · intro w hw t g hlacks hget
    have ha : s₁.AvoidedBy t w := fun τ hτ => avoids_of_ne hk.numbered hτ (hlacks τ hτ)
    exact (avoid_run hk (.inr hw) ha hg₂ hrun₂ _ hget).2
  · have hboth := hg.and hfree
    obtain ⟨hboth₁, hboth₂⟩ := (guarded_append hrun₁).1 hboth
    have ha₁ := invariant_of_guarded (fun _ _ _ => apart_step) (apart_initial cfg late) hboth₁ hrun₁
    have ha₂ := invariant_of_guarded (fun _ _ _ => apart_step) ha₁ hboth₂ hrun₂
    refine ⟨⟨?_, ?_⟩, fun w hw t g hget => (ha₂.untouched w hw t _ hget).2⟩
    · intro i hi w hocc hw t g st hlacks hget hidx
      have hor := lacks_or_replaced (I := State.Apart cfg) (fun _ _ hG => hG.1)
        (fun _ _ _ => apart_step) (fun _ _ _ ha h => not_guarded_step h ha.settled) ha₁
        (hup i hi w hocc hw) (.inl hw) hlacks hboth₂ hrun₂
      exact hor.resolve_left fun hlacks => hlacks _ hget (congrArg some hidx)
    · intro w hw t g _ hget
      exact (avoid_run hk (.inr hw) (ha₁.untouched w hw t) hg₂ hrun₂ _ hget).2

/-- A request is cancelled while the one worker answers. -/
def abandonedResponse : List Event := claimAndArm 0 ++ [Event.cancel 0, .drop 0]

/-- The worker exits, the next tick replaces it, and a second request comes. -/
def replacedThenClaimed : List Event :=
  [Event.exit 0, .tick] ++ List.replicate 3 Event.reaper ++ [Event.reap 1] ++
    List.replicate 7 Event.reaper ++ claimAndArm 1

theorem replaced_before_reuse_replacedThenClaimed :
    ∃ s₁ s₂,
      run (step recycleEach) (initial recycleEach fun _ => false) abandonedResponse = some s₁ ∧
      run (step recycleEach) s₁ replacedThenClaimed = some s₂ ∧
      Guarded (step recycleEach) (ClearsRenewed recycleEach)
        (initial recycleEach fun _ => false) (abandonedResponse ++ replacedThenClaimed) ∧
      Guarded (step recycleEach) (ReaddsFree recycleEach)
        (initial recycleEach fun _ => false) (abandonedResponse ++ replacedThenClaimed) ∧
      ReusesReplaced recycleEach Task.passed? s₁ replacedThenClaimed s₂ ∧
      ReusesReplaced recycleEach Task.guard? s₁ replacedThenClaimed s₂ ∧
      ∀ w ∈ s₂.abandoned, ∀ (t : Nat) (g : IdleGuard),
        s₂.tasks[t]? = some (.guarded g .reading) → g.poisonOnDrop ≠ some w := by
  obtain ⟨s₁, h₁⟩ : ∃ s₁, run (step recycleEach) (initial recycleEach fun _ => false)
      abandonedResponse = some s₁ := Option.isSome_iff_exists.1 (by decide)
  obtain ⟨s₂, h₂⟩ : ∃ s₂, run (step recycleEach) (initial recycleEach fun _ => false)
      (abandonedResponse ++ replacedThenClaimed) = some s₂ :=
    Option.isSome_iff_exists.1 (by decide)
  rw [run_append, h₁, Option.bind_some] at h₂
  have hfree : Guarded (step recycleEach) (ReaddsFree recycleEach)
      (initial recycleEach fun _ => false) (abandonedResponse ++ replacedThenClaimed) := by
    decide
  obtain ⟨hreuse, hreads⟩ := replaced_before_reuse _ _ _ _ _ _ h₁ h₂ (by decide)
  exact ⟨s₁, s₂, h₁, h₂, by decide, hfree, hreuse, hreads hfree⟩

/-- The killed worker has not exited yet when the tick comes: nothing is
respawned, but `refresh_fds` lowers the flag and re-queues the slot. -/
def clearedThenClaimed : List Event :=
  [Event.tick] ++ List.replicate 3 Event.reaper ++ [Event.reap 1] ++
    List.replicate 7 Event.reaper ++ claimAndArm 1

/-- The second request reads from the pipe that still holds the response to the
first one; no worker was spawned in between. -/
theorem stale_response :
    ∃ s₁ s₂,
      run (step recycleEach) (initial recycleEach fun _ => false) abandonedResponse = some s₁ ∧
      run (step recycleEach) s₁ clearedThenClaimed = some s₂ ∧
      s₂.tasks[1]? = some (.guarded ⟨0, some ⟨0, 0⟩, false⟩ .reading) ∧
      ⟨0, 0⟩ ∈ s₁.abandoned ∧ s₂.nextSerial = s₁.nextSerial ∧
      ¬ ReusesReplaced recycleEach Task.passed? s₁ clearedThenClaimed s₂ := by
  have hrun₁ : (run (step recycleEach) (initial recycleEach fun _ => false)
      abandonedResponse).map (fun s => (s.tasks.length, s.abandoned, s.nextSerial)) =
        some (1, [⟨0, 0⟩], 1) := by decide
  have hrun₂ : (run (step recycleEach) (initial recycleEach fun _ => false)
      (abandonedResponse ++ clearedThenClaimed)).map (fun s => (s.tasks[1]?, s.nextSerial)) =
        some (some (.guarded ⟨0, some ⟨0, 0⟩, false⟩ .reading), 1) := by decide
  obtain ⟨s₁, h₁, hv₁⟩ := Option.map_eq_some_iff.1 hrun₁
  obtain ⟨s₂, h₂, hv₂⟩ := Option.map_eq_some_iff.1 hrun₂
  rw [run_append, h₁, Option.bind_some] at h₂
  simp only [Prod.mk.injEq] at hv₁ hv₂
  obtain ⟨hlen, hab, hserial₁⟩ := hv₁
  obtain ⟨htask, hserial₂⟩ := hv₂
  have hmem : (⟨0, 0⟩ : WorkerId) ∈ s₁.abandoned := by simp [hab]
  refine ⟨s₁, s₂, h₁, h₂, htask, hmem, by rw [hserial₁, hserial₂], fun h => ?_⟩
  refine h.reads _ hmem 1 _ (fun τ hτ => ?_) htask rfl
  have hlt := (List.getElem?_eq_some_iff.1 hτ).1
  omega

end Turbine.Dispatch
