import Turbine.Dispatch.Step

/-!
# Turbine.Dispatch.Refresh

`ThreadDispatch::refresh_fds` as one function, with its subtraction on machine
integers: `new_len.min(cap) - prev_len` has no result if it underflows.  The
length before a call is the one the call before it left, and nothing keeps it
below `cap`.

* `runs_refreshFds`: the reaper's steps through a call, uninterrupted, compute
  this function;
* `refreshFds_eq_none_iff`: when a call fails;
* `refreshes_soundly_iff`: when a sequence of calls does not.
-/

namespace Turbine.Dispatch

open Base

/-! ## one call -/

/-- Subtraction of machine integers. -/
def checkedSub (a b : Nat) : Option Nat := if b ≤ a then some (a - b) else none

/-- One slot of the loop that resets flags and counters. -/
def refreshSlot (cfg : Config) (prevLen : Nat) (p : State × List Nat) (i : Nat) :
    State × List Nat :=
  let (s, revived) := p
  let wasUnhealthy := s.unhealthy i
  let wasOverQuota := 0 < cfg.maxRequests && cfg.quotaFor i ≤ s.served i
  ({ s with
      unhealthy := Function.update s.unhealthy i false
      served := Function.update s.served i 0 },
    if i < prevLen ∧ (wasUnhealthy || wasOverQuota) = true then revived ++ [i] else revived)

/-- The loop, over `count` slots from `start` on. -/
def refreshSlots (cfg : Config) (prevLen start count : Nat) (p : State × List Nat) :
    State × List Nat := (List.range' start count).foldl (refreshSlot cfg prevLen) p

/-- The revived slots go to the queue, with their permits. -/
def revive (p : State × List Nat) : State :=
  let (s, revived) := p
  if revived = [] then s
  else { s with queue := requeue s.queue revived, permits := s.permits + revived.length }

/-- What a call leaves, the indices its scale-up branch pushed and the permits that
branch added. -/
structure Refreshed where
  state : State
  pushed : List Nat
  added : Nat

/-- The scale-up branch. -/
def scaleUp (cfg : Config) (prevLen newLen : Nat) (s : State) : Option Refreshed :=
  if newLen ≤ prevLen then some ⟨s, [], 0⟩
  else
    (checkedSub (min newLen cfg.cap) prevLen).map fun growable =>
      if growable = 0 then ⟨s, [], 0⟩
      else
        let pushed := List.range' prevLen growable
        ⟨{ s with queue := s.queue ++ pushed, permits := s.permits + growable }, pushed, growable⟩

/-- `ThreadDispatch::refresh_fds`; `none` if the subtraction underflows. -/
def State.refreshFds (cfg : Config) (s : State) (newFds : List WorkerId) : Option Refreshed :=
  let prevLen := s.fds.length
  let newLen := newFds.length
  let p := refreshSlots cfg prevLen 0 (min newLen cfg.cap) ({ s with fds := newFds }, [])
  scaleUp cfg prevLen newLen (revive p)

/-! ## the reaper's steps -/

/-- The reaper gets from the one state to the other without anybody else moving. -/
def ReaperRuns (cfg : Config) (s s' : State) : Prop :=
  ∃ n, run (step cfg) s (List.replicate n .reaper) = some s'

variable {cfg : Config} {s s₁ s₂ : State} {c : RefreshCall} {revived : List Nat}
  {newFds : List WorkerId}

theorem ReaperRuns.refl (s : State) : ReaperRuns cfg s s := ⟨0, rfl⟩

theorem ReaperRuns.trans (h : ReaperRuns cfg s s₁) (h' : ReaperRuns cfg s₁ s₂) :
    ReaperRuns cfg s s₂ := by
  obtain ⟨n, hn⟩ := h
  obtain ⟨m, hm⟩ := h'
  exact ⟨n + m, by rw [← List.replicate_append_replicate, run_append, hn, Option.bind_some, hm]⟩

/-- One step of the reaper, in front of others. -/
theorem ReaperRuns.head (hstep : reaperStep cfg s = some s₁) (h : ReaperRuns cfg s₁ s₂) :
    ReaperRuns cfg s s₂ := ReaperRuns.trans ⟨1, run_cons_eq_some.2 ⟨s₁, hstep, rfl⟩⟩ h

/-- The state with the reaper at another place. -/
def State.at (s : State) (r : Reaper) : State := { s with reaper := r }

/-- Two steps for one slot of the loop. -/
theorem runs_refreshSlot {i : Nat} (hi : i < min c.newLen cfg.cap) :
    ReaperRuns cfg (s.at (.swapFlag c i revived))
      ((refreshSlot cfg c.prevLen (s, revived) i).1.at
        (.swapFlag c (i + 1) (refreshSlot cfg c.prevLen (s, revived) i).2)) := by
  have hflag : reaperStep cfg (s.at (.swapFlag c i revived)) =
      some ({ s with unhealthy := Function.update s.unhealthy i false }.at
        (.swapServed c i (s.unhealthy i) revived)) := by
    simp only [reaperStep, State.at, if_pos hi]
  refine .head hflag (.head ?_ (.refl _))
  by_cases hrev : i < c.prevLen ∧
      (s.unhealthy i || (0 < cfg.maxRequests && cfg.quotaFor i ≤ s.served i : Bool)) = true
  · rw [refreshSlot]
    dsimp only
    rw [if_pos hrev]
    exact if_pos hrev
  · rw [refreshSlot]
    dsimp only
    rw [if_neg hrev]
    exact if_neg hrev

/-- **Run lemma.**  The loop. -/
theorem runs_refreshSlots {i : Nat} (count : Nat) (hcount : i + count ≤ min c.newLen cfg.cap) :
    ReaperRuns cfg (s.at (.swapFlag c i revived))
      ((refreshSlots cfg c.prevLen i count (s, revived)).1.at
        (.swapFlag c (i + count) (refreshSlots cfg c.prevLen i count (s, revived)).2)) := by
  induction count generalizing s i revived with
  | zero => exact .refl _
  | succ count ih =>
    refine .trans (runs_refreshSlot (by omega)) ?_
    have hnext : i + (count + 1) = i + 1 + count := by omega
    rw [hnext]
    exact ih (by omega)

theorem runs_revive {i : Nat} (hi : min c.newLen cfg.cap ≤ i) :
    ReaperRuns cfg (s.at (.swapFlag c i revived)) ((revive (s, revived)).at (.growing c)) := by
  by_cases hrev : revived = []
  · refine .head ?_ (.refl _)
    simp only [reaperStep, State.at, revive, if_neg (Nat.not_lt.2 hi), if_pos hrev]
  · have hdone : reaperStep cfg (s.at (.swapFlag c i revived)) =
        some (s.at (.requeueing c revived)) := by
      simp only [reaperStep, State.at, if_neg (Nat.not_lt.2 hi), if_neg hrev]
    refine .head hdone (.head rfl (.head rfl ?_))
    simp only [State.at, revive, if_neg hrev]
    exact .refl _

/-- The scale-up branch: its result, or a panic. -/
theorem runs_scaleUp (cfg : Config) (c : RefreshCall) (s : State) :
    ∃ s', ReaperRuns cfg (s.at (.growing c)) s' ∧
      match scaleUp cfg c.prevLen c.newLen s with
      | some r => s' = r.state.at .idle
      | none => s'.reaper = .panicked := by
  by_cases hle : c.newLen ≤ c.prevLen
  · refine ⟨s.at .idle, .head ?_ (.refl _), ?_⟩
    · simp only [reaperStep, State.at, if_pos hle]
    · rw [scaleUp, if_pos hle]
  by_cases hunder : min c.newLen cfg.cap < c.prevLen
  · refine ⟨s.at .panicked, .head ?_ (.refl _), ?_⟩
    · simp only [reaperStep, State.at, if_neg hle, if_pos hunder]
    · rw [scaleUp, if_neg hle, checkedSub, if_neg (Nat.not_le.2 hunder)]
      rfl
  have hsub : checkedSub (min c.newLen cfg.cap) c.prevLen = some (c.growable cfg) := by
    rw [checkedSub, if_pos (Nat.not_lt.1 hunder)]
    rfl
  by_cases hzero : c.growable cfg = 0
  · refine ⟨s.at .idle, .head ?_ (.refl _), ?_⟩
    · simp only [reaperStep, State.at, if_neg hle, if_neg hunder, if_pos hzero]
    · rw [scaleUp, if_neg hle, hsub, Option.map_some, if_pos hzero]
  · have hgrow : reaperStep cfg (s.at (.growing c)) =
        some ({ s with queue := s.queue ++ List.range' c.prevLen (c.growable cfg) }.at
          (.growAdding (c.growable cfg))) := by
      simp only [reaperStep, State.at, if_neg hle, if_neg hunder, if_neg hzero]
    refine ⟨_, .head hgrow (.head rfl (.refl _)), ?_⟩
    rw [scaleUp, if_neg hle, hsub, Option.map_some, if_neg hzero]
    rfl

/-- **Refinement.**  A call of `refresh_fds`, with nobody else moving, leaves what the
function says, or panics if it has no result. -/
theorem runs_refreshFds (hr : s.reaper = .refreshing newFds) :
    ∃ s', ReaperRuns cfg s s' ∧
      match s.refreshFds cfg newFds with
      | some r => s' = r.state.at .idle
      | none => s'.reaper = .panicked := by
  obtain ⟨s', hruns, hs'⟩ := runs_scaleUp cfg ⟨s.fds.length, newFds.length⟩
    (revive (refreshSlots cfg s.fds.length 0 (min newFds.length cfg.cap)
      ({ s with fds := newFds }, [])))
  refine ⟨s', ?_, hs'⟩
  have hinstall : reaperStep cfg s =
      some ({ s with fds := newFds }.at (.swapFlag ⟨s.fds.length, newFds.length⟩ 0 [])) := by
    simp only [reaperStep, hr, State.at]
  refine .head hinstall (.trans (runs_refreshSlots (min newFds.length cfg.cap) ?_) ?_)
  · exact Nat.le_of_eq (Nat.zero_add _)
  · exact .trans (runs_revive (by simp)) hruns

/-- The one worker has been replaced, and its slot is unhealthy. -/
def replacedOne : State :=
  { (new recycleEach).markUnhealthy recycleEach 0 with
    queue := []
    permits := 0
    reaper := .refreshing [⟨0, 1⟩] }

theorem runs_refreshFds_replacedOne :
    ∃ s', ReaperRuns recycleEach replacedOne s' ∧ s'.reaper = .idle ∧ s'.queue = [0] := by
  obtain ⟨_, hruns, rfl⟩ : ∃ s', ReaperRuns recycleEach replacedOne s' ∧ _ := runs_refreshFds rfl
  exact ⟨_, hruns, rfl, rfl⟩

/-! ## sequences of calls -/

/-- No slot of the loop touches the fd table. -/
theorem fds_refreshSlots (cfg : Config) (prevLen start count : Nat) (p : State × List Nat) :
    (refreshSlots cfg prevLen start count p).1.fds = p.1.fds := by
  induction count generalizing start p with
  | zero => rfl
  | succ count ih => exact ih (start + 1) (refreshSlot cfg prevLen p start)

theorem fds_revive (p : State × List Nat) : (revive p).fds = p.1.fds := by
  rw [revive]
  split <;> rfl

/-- A call fails iff the table grows from more than `cap` entries. -/
theorem refreshFds_eq_none_iff :
    s.refreshFds cfg newFds = none ↔ s.fds.length < newFds.length ∧ cfg.cap < s.fds.length := by
  rw [State.refreshFds, scaleUp]
  split
  · simp
    omega
  · rw [Option.map_eq_none_iff, checkedSub, ite_eq_right_iff]
    simp
    omega

/-- A call that does not fail adds as many permits as it pushes indices, and installs
the new table. -/
theorem refreshFds_eq_some {r : Refreshed} (h : s.refreshFds cfg newFds = some r) :
    r.added = r.pushed.length ∧ r.state.fds = newFds := by
  have hfds := fds_refreshSlots cfg s.fds.length 0 (min newFds.length cfg.cap)
    ({ s with fds := newFds }, [])
  rw [← fds_revive] at hfds
  rw [State.refreshFds, scaleUp] at h
  split at h
  · cases h
    exact ⟨rfl, hfds⟩
  · rw [Option.map_eq_some_iff] at h
    obtain ⟨growable, -, rfl⟩ := h
    split
    · exact ⟨rfl, hfds⟩
    · exact ⟨List.length_range'.symm, hfds⟩

/-- None of the calls underflows, and each of them adds as many permits in its scale-up
branch as it pushes indices there. -/
def RefreshesSoundly (cfg : Config) : State → List (List WorkerId) → Prop
  | _, [] => True
  | s, newFds :: calls =>
    ∃ r, s.refreshFds cfg newFds = some r ∧ r.added = r.pushed.length ∧
      RefreshesSoundly cfg r.state calls

/-- The lengths that the calls compare, when the table has `prevLen` entries at first. -/
def refreshCalls (prevLen : Nat) : List (List WorkerId) → List RefreshCall
  | [] => []
  | newFds :: calls => ⟨prevLen, newFds.length⟩ :: refreshCalls newFds.length calls

theorem refreshesSoundly_from (s : State) (calls : List (List WorkerId)) :
    RefreshesSoundly cfg s calls ↔
      ∀ c ∈ refreshCalls s.fds.length calls, c.prevLen < c.newLen → c.prevLen ≤ cfg.cap := by
  induction calls generalizing s with
  | nil => simp [RefreshesSoundly, refreshCalls]
  | cons newFds calls ih =>
    rw [refreshCalls, List.forall_mem_cons, RefreshesSoundly]
    cases hcall : s.refreshFds cfg newFds with
    | none =>
      obtain ⟨hgrows, hover⟩ := refreshFds_eq_none_iff.1 hcall
      constructor
      · rintro ⟨r, hr, -⟩
        cases hr
      · rintro ⟨hle, -⟩
        exact absurd (hle hgrows) (Nat.not_le.2 hover)
    | some r =>
      obtain ⟨hadded, hfds⟩ := refreshFds_eq_some hcall
      have hsome : ¬ (s.fds.length < newFds.length ∧ cfg.cap < s.fds.length) := by
        rw [← refreshFds_eq_none_iff, hcall]
        exact Option.some_ne_none r
      rw [← hfds, ← ih]
      constructor
      · rintro ⟨r', hr', -, hrest⟩
        cases hr'
        rw [hfds]
        exact ⟨fun hlt => Nat.not_lt.1 fun hover => hsome ⟨hlt, hover⟩, hrest⟩
      · rintro ⟨-, hrest⟩
        exact ⟨r, rfl, hadded, hrest⟩

/-- **Arithmetic of `refresh_fds`.**  From start-up on, a sequence of calls never
underflows, and adds a permit for each index it pushes, iff the table never grows from a
length above the number of workers at start-up. -/
theorem refreshes_soundly_iff (cfg : Config) (calls : List (List WorkerId)) :
    RefreshesSoundly cfg (new cfg) calls ↔
      ∀ c ∈ refreshCalls cfg.cap calls, c.prevLen < c.newLen → c.prevLen ≤ cfg.cap := by
  have hlen : (new cfg).fds.length = cfg.cap := by simp [new, spawnAll]
  rw [refreshesSoundly_from, hlen]

/-- One worker at start-up; the pool grows to two, then to three. -/
theorem second_growth_underflows : let cfg : Config := ⟨1, 0, fun _ _ _ => 0, .nativeProcess⟩
    ∃ r, (new cfg).refreshFds cfg [⟨0, 0⟩, ⟨1, 1⟩] = some r ∧
      r.state.refreshFds cfg [⟨0, 0⟩, ⟨1, 1⟩, ⟨2, 2⟩] = none := by
  exact ⟨_, rfl, rfl⟩

end Turbine.Dispatch
