import Turbine.Dispatch.Step

/-!
# Turbine.Dispatch.Inversion

`Step` spells out the branches of `step`, one constructor each, with the
condition under which the branch is taken and the state it leads to.
`Step.of_step` is the inversion lemma: proofs about steps go by cases on
`Step`, so a change to one branch of `step` is a change to one constructor.
-/

namespace Turbine.Dispatch

open Base

/-- One atomic step, by branch. -/
inductive Step (cfg : Config) (s : State) : Event → State → Prop
  | arrive : Step cfg s .arrive { s with tasks := s.tasks ++ [.waiting 0] }
  | acquire {t k : Nat} (ht : s.tasks[t]? = some (.waiting k)) (hp : 0 < s.permits) :
      Step cfg s (.acquire t) ({ s with permits := s.permits - 1 }.goto t (.acquired k))
  | timeout {t k : Nat} (ht : s.tasks[t]? = some (.waiting k)) :
      Step cfg s (.timeout t) (s.goto t (.finished .timedOut))
  | cancelWaiting {t k : Nat} (ht : s.tasks[t]? = some (.waiting k)) :
      Step cfg s (.cancel t) (s.goto t (.finished .cancelled))
  | cancelGuarded {t : Nat} {g : IdleGuard} {st : Stage}
      (ht : s.tasks[t]? = some (.guarded g st))
      (hst : st = .reading ∨ st = .sent ∨ st = .receiving) :
      Step cfg s (.cancel t) (s.goto t (.guarded g .dropping))
  | pop {t k idx : Nat} (ht : s.tasks[t]? = some (.acquired k))
      (hq : s.queue.getLast? = some idx) :
      Step cfg s (.pop t) ({ s with queue := s.queue.dropLast }.goto t (.popped k idx))
  | popEmpty {t k : Nat} (ht : s.tasks[t]? = some (.acquired k)) (hq : s.queue = []) :
      Step cfg s (.pop t) (s.goto t .restoring)
  | restore {t : Nat} (ht : s.tasks[t]? = some .restoring) :
      Step cfg s (.restore t)
        ({ s with permits := s.permits + 1 }.goto t (.finished .queueEmpty))
  | skipUnhealthy {t k idx : Nat} (ht : s.tasks[t]? = some (.popped k idx))
      (h : cfg.cap ≤ idx ∨ s.unhealthy idx = true) :
      Step cfg s (.loadUnhealthy t) (s.goto t (skip cfg k))
  | check {t k idx : Nat} (ht : s.tasks[t]? = some (.popped k idx))
      (hi : idx < cfg.cap) (h : s.unhealthy idx = false) :
      Step cfg s (.loadUnhealthy t) (s.goto t (.checked k idx))
  | skipOverQuota {t k idx : Nat} (ht : s.tasks[t]? = some (.checked k idx))
      (h : s.overQuota cfg idx = true) :
      Step cfg s (.loadServed t) (s.goto t (skip cfg k))
  | claim {t k idx : Nat} (ht : s.tasks[t]? = some (.checked k idx))
      (h : s.overQuota cfg idx = false) :
      Step cfg s (.loadServed t) (s.goto t (.guarded (.new idx) .claimed))
  | arm {t : Nat} {g : IdleGuard} {w : WorkerId} (hm : cfg.mode.hasChannels = false)
      (ht : s.tasks[t]? = some (.guarded g .claimed)) (hw : s.fds[g.idx]? = some w) :
      Step cfg s (.arm t) (s.goto t (.guarded { g with poisonOnDrop := some w } .reading))
  | armPanic {t : Nat} {g : IdleGuard} (hm : cfg.mode.hasChannels = false)
      (ht : s.tasks[t]? = some (.guarded g .claimed)) (hw : s.fds[g.idx]? = none) :
      Step cfg s (.arm t) (s.goto t (.guarded g .dropping))
  | respond {t : Nat} {g : IdleGuard} (ht : s.tasks[t]? = some (.guarded g .reading)) :
      Step cfg s (.respond t) (s.goto t (.guarded g (.replied none)))
  | fail {t : Nat} {g : IdleGuard} (ht : s.tasks[t]? = some (.guarded g .reading)) :
      Step cfg s (.fail t) (s.goto t (.guarded g .dropping))
  | send {t : Nat} {g : IdleGuard} (hm : cfg.mode.hasChannels = true)
      (ht : s.tasks[t]? = some (.guarded g .claimed))
      (ha : (s.channels g.idx).alive = true) :
      Step cfg s (.send t)
        ((s.setChannel g.idx
          { s.channels g.idx with requests := (s.channels g.idx).requests ++ [t] }).goto t
            (.guarded g .sent))
  | sendDead {t : Nat} {g : IdleGuard} (hm : cfg.mode.hasChannels = true)
      (ht : s.tasks[t]? = some (.guarded g .claimed))
      (ha : (s.channels g.idx).alive = false) :
      Step cfg s (.send t) (s.goto t (.guarded g .failing))
  | lock {t : Nat} {g : IdleGuard} (ht : s.tasks[t]? = some (.guarded g .sent))
      (hl : ∀ τ ∈ s.tasks, τ.locked? ≠ some g.idx) :
      Step cfg s (.lock t) (s.goto t (.guarded g .receiving))
  | recv {t : Nat} {g : IdleGuard} {r : Reply} {rest : List Reply}
      (ht : s.tasks[t]? = some (.guarded g .receiving))
      (hr : (s.channels g.idx).responses = r :: rest) :
      Step cfg s (.recv t)
        ((s.setChannel g.idx { s.channels g.idx with responses := rest }).goto t
          (.guarded g (.replied (some r))))
  | recvDead {t : Nat} {g : IdleGuard} (ht : s.tasks[t]? = some (.guarded g .receiving))
      (hr : (s.channels g.idx).responses = []) (ha : (s.channels g.idx).alive = false) :
      Step cfg s (.recv t) (s.goto t (.guarded g .failing))
  | markDead {t : Nat} {g : IdleGuard} (ht : s.tasks[t]? = some (.guarded g .failing)) :
      Step cfg s (.markDead t) ((s.markUnhealthy cfg g.idx).goto t (.guarded g .dropping))
  | record {t : Nat} {g : IdleGuard} {r : Option Reply}
      (ht : s.tasks[t]? = some (.guarded g (.replied r))) :
      Step cfg s (.record t)
        ({ s with
          served := if g.idx < cfg.cap then
              Function.update s.served g.idx (s.served g.idx + 1)
            else s.served
          completions := g.worker :: s.completions }.goto t
            (.guarded { g with completed := true } .dropping))
  | poison {t idx : Nat} {w : WorkerId}
      (ht : s.tasks[t]? = some (.guarded ⟨idx, some w, false⟩ .dropping)) :
      Step cfg s (.drop t)
        ({ s.markUnhealthy cfg idx with abandoned := w :: s.abandoned }.goto t
          (.finished .poisoned))
  | giveBack {t : Nat} {g : IdleGuard} (ht : s.tasks[t]? = some (.guarded g .dropping))
      (hg : g.poisonOnDrop = none ∨ g.completed = true) :
      Step cfg s (.drop t) ({ s with queue := s.queue ++ [g.idx] }.goto t .returning)
  | addPermit {t : Nat} (ht : s.tasks[t]? = some .returning) :
      Step cfg s (.addPermit t)
        ({ s with permits := s.permits + 1 }.goto t (.finished .returned))
  | ready {i : Nat} (ha : (s.channels i).alive = true) (hb : (s.channels i).booting = true) :
      Step cfg s (.ready i)
        (s.setChannel i
          { s.channels i with
            responses := (s.channels i).responses ++ [.ready], booting := false })
  | serve {i t : Nat} {rest : List Nat} (hr : (s.channels i).requests = t :: rest)
      (ha : (s.channels i).alive = true) (hb : (s.channels i).booting = false) :
      Step cfg s (.serve i)
        (s.setChannel i
          { s.channels i with
            requests := rest, responses := (s.channels i).responses ++ [.answer t] })
  | hangUp {i : Nat} :
      Step cfg s (.hangUp i)
        (s.setChannel i
          { s.channels i with requests := [], booting := false, alive := false })
  | exit {i : Nat} :
      Step cfg s (.exit i) { s with pool := s.pool.modify i fun o => { o with alive := false } }
  | spawnAdditional :
      Step cfg s .spawnAdditional
        { s with
          pool := s.pool ++ [⟨⟨s.pool.length, s.nextSerial⟩, true⟩]
          nextSerial := s.nextSerial + 1 }
  | reload {count : Nat} :
      Step cfg s (.reload count)
        { s with
          pool := spawnAll s.nextSerial count
          nextSerial := s.nextSerial + count }
  | tick (hr : s.reaper = .idle) :
      Step cfg s .tick
        { s with reaper := if cfg.maxRequests = 0 then .marking [] else .scanFlag 0 [] }
  | reap {count : Nat} (hr : s.reaper = .reaping) :
      Step cfg s (.reap count)
        { s with
          pool := (respawn cfg.mode s.pool s.nextSerial count).1
          nextSerial := (respawn cfg.mode s.pool s.nextSerial count).2
          reaper := .refreshing ((respawn cfg.mode s.pool s.nextSerial count).1.map
            Occupant.id) }
  | scanDone {i : Nat} {out : List Nat} (hr : s.reaper = .scanFlag i out) (hi : cfg.cap ≤ i) :
      Step cfg s .reaper { s with reaper := .marking out }
  | scanSkip {i : Nat} {out : List Nat} (hr : s.reaper = .scanFlag i out) (hi : i < cfg.cap)
      (h : s.unhealthy i = true ∨ cfg.quotaFor i = 0) :
      Step cfg s .reaper { s with reaper := .scanFlag (i + 1) out }
  | scanFlag {i : Nat} {out : List Nat} (hr : s.reaper = .scanFlag i out) (hi : i < cfg.cap)
      (h : s.unhealthy i = false) (hq : 0 < cfg.quotaFor i) :
      Step cfg s .reaper { s with reaper := .scanServed i out }
  | scanOver {i : Nat} {out : List Nat} (hr : s.reaper = .scanServed i out)
      (h : cfg.quotaFor i ≤ s.served i) :
      Step cfg s .reaper { s with reaper := .scanFlag (i + 1) (out ++ [i]) }
  | scanUnder {i : Nat} {out : List Nat} (hr : s.reaper = .scanServed i out)
      (h : s.served i < cfg.quotaFor i) :
      Step cfg s .reaper { s with reaper := .scanFlag (i + 1) out }
  | markDone (hr : s.reaper = .marking []) : Step cfg s .reaper { s with reaper := .reaping }
  | mark {i : Nat} {todo : List Nat} (hr : s.reaper = .marking (i :: todo)) :
      Step cfg s .reaper { s.markUnhealthy cfg i with reaper := .marking todo }
  | install {newFds : List WorkerId} (hr : s.reaper = .refreshing newFds) :
      Step cfg s .reaper
        { s with
          fds := newFds
          reaper := .swapFlag ⟨s.fds.length, newFds.length⟩ 0 [] }
  | swapFlag {c : RefreshCall} {i : Nat} {revived : List Nat}
      (hr : s.reaper = .swapFlag c i revived) (hi : i < min c.newLen cfg.cap) :
      Step cfg s .reaper
        { s with
          unhealthy := Function.update s.unhealthy i false
          reaper := .swapServed c i (s.unhealthy i) revived }
  | swapDone {c : RefreshCall} {i : Nat} {revived : List Nat}
      (hr : s.reaper = .swapFlag c i revived) (hi : min c.newLen cfg.cap ≤ i)
      (hv : revived ≠ []) :
      Step cfg s .reaper { s with reaper := .requeueing c revived }
  | swapNone {c : RefreshCall} {i : Nat}
      (hr : s.reaper = .swapFlag c i []) (hi : min c.newLen cfg.cap ≤ i) :
      Step cfg s .reaper { s with reaper := .growing c }
  | revive {c : RefreshCall} {i : Nat} {was : Bool} {revived : List Nat}
      (hr : s.reaper = .swapServed c i was revived) (hi : i < c.prevLen)
      (h : was = true ∨ 0 < cfg.maxRequests ∧ cfg.quotaFor i ≤ s.served i) :
      Step cfg s .reaper
        { s with
          served := Function.update s.served i 0
          reaper := .swapFlag c (i + 1) (revived ++ [i]) }
  | keep {c : RefreshCall} {i : Nat} {was : Bool} {revived : List Nat}
      (hr : s.reaper = .swapServed c i was revived)
      (h : i < c.prevLen → was = false ∧ (0 < cfg.maxRequests → s.served i < cfg.quotaFor i)) :
      Step cfg s .reaper
        { s with
          served := Function.update s.served i 0
          reaper := .swapFlag c (i + 1) revived }
  | requeue {c : RefreshCall} {revived : List Nat} (hr : s.reaper = .requeueing c revived) :
      Step cfg s .reaper
        { s with
          queue := Dispatch.requeue s.queue revived
          reaper := .adding c revived.length }
  | addPermits {c : RefreshCall} {count : Nat} (hr : s.reaper = .adding c count) :
      Step cfg s .reaper { s with permits := s.permits + count, reaper := .growing c }
  | growNone {c : RefreshCall} (hr : s.reaper = .growing c)
      (h : c.newLen ≤ c.prevLen ∨ c.prevLen = min c.newLen cfg.cap) :
      Step cfg s .reaper { s with reaper := .idle }
  | growPanic {c : RefreshCall} (hr : s.reaper = .growing c) (h : c.prevLen < c.newLen)
      (hu : min c.newLen cfg.cap < c.prevLen) :
      Step cfg s .reaper { s with reaper := .panicked }
  | grow {c : RefreshCall} (hr : s.reaper = .growing c) (h : 0 < c.growable cfg) :
      Step cfg s .reaper
        { s with
          queue := s.queue ++ List.range' c.prevLen (c.growable cfg)
          reaper := .growAdding (c.growable cfg) }
  | growAdd {n : Nat} (hr : s.reaper = .growAdding n) :
      Step cfg s .reaper { s with permits := s.permits + n, reaper := .idle }

variable {cfg : Config} {s s' : State} {e : Event}

/-- The reaper's branches. -/
theorem Step.of_reaperStep (h : reaperStep cfg s = some s') : Step cfg s .reaper s' := by
  unfold reaperStep at h
  split at h
  case h_1 i out hr =>
    split_ifs at h with hi hu <;> cases h
    · exact .scanDone hr hi
    · exact .scanSkip hr (by omega) hu
    · rw [not_or, Bool.not_eq_true] at hu
      exact .scanFlag hr (by omega) hu.1 (by omega)
  case h_2 i out hr =>
    split_ifs at h with hq <;> cases h
    · exact .scanOver hr hq
    · exact .scanUnder hr (by omega)
  case h_3 hr => cases h; exact .markDone hr
  case h_4 i todo hr => cases h; exact .mark hr
  case h_5 newFds hr => cases h; exact .install hr
  case h_6 c i revived hr =>
    split_ifs at h with hi hv <;> cases h
    · exact .swapFlag hr hi
    · exact .swapNone (hv ▸ hr) (by omega)
    · exact .swapDone hr (by omega) hv
  case h_7 c i was revived hr =>
    dsimp only at h
    split_ifs at h with hw <;> cases h
    · exact .revive hr hw.1 (by simpa using hw.2)
    · exact .keep hr (by grind)
  case h_8 c revived hr => cases h; exact .requeue hr
  case h_9 c count hr => cases h; exact .addPermits hr
  case h_10 c hr =>
    split_ifs at h with hle hlt hg <;> cases h
    · exact .growNone hr (.inl hle)
    · exact .growPanic hr (by omega) hlt
    · exact .growNone hr (.inr (by unfold RefreshCall.growable at hg; omega))
    · exact .grow hr (by omega)
  case h_11 n hr => cases h; exact .growAdd hr
  all_goals cases h

/-- The branches of a step of `get_idle`. -/
theorem Step.of_getIdle {t : Nat}
    (he : e = .acquire t ∨ e = .timeout t ∨ e = .pop t ∨ e = .restore t ∨
      e = .loadUnhealthy t ∨ e = .loadServed t) (h : step cfg s e = some s') : Step cfg s e s' := by
  obtain rfl | rfl | rfl | rfl | rfl | rfl := he
  · simp only [step] at h
    split at h
    case h_1 k ht =>
      split_ifs at h with hp
      cases h
      exact .acquire ht hp
    case h_2 => cases h
  · simp only [step] at h
    split at h
    case h_1 k ht => cases h; exact .timeout ht
    case h_2 => cases h
  · simp only [step] at h
    split at h
    case h_1 k ht =>
      split at h
      case h_1 idx hq => cases h; exact .pop ht hq
      case h_2 hq => cases h; exact .popEmpty ht (List.getLast?_eq_none_iff.1 hq)
    case h_2 => cases h
  · simp only [step] at h
    split at h
    case h_1 ht => cases h; exact .restore ht
    case h_2 => cases h
  · simp only [step] at h
    split at h
    case h_1 k idx ht =>
      split_ifs at h with hu <;> cases h
      · exact .skipUnhealthy ht hu
      · rw [not_or, Bool.not_eq_true] at hu
        exact .check ht (by omega) hu.2
    case h_2 => cases h
  · simp only [step] at h
    split at h
    case h_1 k idx ht =>
      split_ifs at h with hu <;> cases h
      · exact .skipOverQuota ht hu
      · exact .claim ht (by simpa using hu)
    case h_2 => cases h

/-- **Inversion.**  Every step is one of the branches. -/
theorem Step.of_step (h : step cfg s e = some s') : Step cfg s e s' := by
  cases e with
  | arrive => cases h; exact .arrive
  | acquire t => exact .of_getIdle (t := t) (by simp) h
  | timeout t => exact .of_getIdle (t := t) (by simp) h
  | pop t => exact .of_getIdle (t := t) (by simp) h
  | restore t => exact .of_getIdle (t := t) (by simp) h
  | loadUnhealthy t => exact .of_getIdle (t := t) (by simp) h
  | loadServed t => exact .of_getIdle (t := t) (by simp) h
  | cancel t =>
    simp only [step] at h
    split at h
    case h_1 k ht => cases h; exact .cancelWaiting ht
    case h_2 g ht => cases h; exact .cancelGuarded ht (by simp)
    case h_3 g ht => cases h; exact .cancelGuarded ht (by simp)
    case h_4 g ht => cases h; exact .cancelGuarded ht (by simp)
    case h_5 => cases h
  | arm t =>
    simp only [step] at h
    split_ifs at h with hm
    rw [Bool.not_eq_true] at hm
    split at h
    case h_1 g ht =>
      split at h
      case h_1 w hw => cases h; exact .arm hm ht hw
      case h_2 hw => cases h; exact .armPanic hm ht hw
    case h_2 => cases h
  | respond t =>
    simp only [step] at h
    split at h
    case h_1 g ht => cases h; exact .respond ht
    case h_2 => cases h
  | fail t =>
    simp only [step] at h
    split at h
    case h_1 g ht => cases h; exact .fail ht
    case h_2 => cases h
  | send t =>
    simp only [step] at h
    split_ifs at h with hm
    split at h
    case h_1 g ht =>
      split_ifs at h with ha <;> cases h
      · exact .send hm ht ha
      · exact .sendDead hm ht (by simpa using ha)
    case h_2 => cases h
  | lock t =>
    simp only [step] at h
    split at h
    case h_1 g ht =>
      split_ifs at h with hl
      cases h
      exact .lock ht hl
    case h_2 => cases h
  | recv t =>
    simp only [step] at h
    split at h
    case h_1 g ht =>
      split at h
      case h_1 r rest hr => cases h; exact .recv ht hr
      case h_2 hr =>
        split_ifs at h with ha
        cases h
        exact .recvDead ht hr (by simpa using ha)
    case h_2 => cases h
  | markDead t =>
    simp only [step] at h
    split at h
    case h_1 g ht => cases h; exact .markDead ht
    case h_2 => cases h
  | record t =>
    simp only [step] at h
    split at h
    case h_1 g r ht => cases h; exact .record ht
    case h_2 => cases h
  | drop t =>
    simp only [step] at h
    split at h
    case h_1 idx w ht => cases h; exact .poison ht
    case h_2 g hg ht =>
      cases h
      refine .giveBack ht ?_
      obtain ⟨idx, p, c⟩ := g
      cases p <;> cases c <;> simp_all
    case h_3 => cases h
  | addPermit t =>
    simp only [step] at h
    split at h
    case h_1 ht => cases h; exact .addPermit ht
    case h_2 => cases h
  | ready i =>
    simp only [step] at h
    split_ifs at h with ha
    cases h
    exact .ready ha.1 ha.2
  | serve i =>
    simp only [step] at h
    split at h
    case h_1 t rest hr =>
      split_ifs at h with ha
      cases h
      exact .serve hr ha.1 ha.2
    case h_2 => cases h
  | hangUp i => cases h; exact .hangUp
  | exit i => cases h; exact .exit
  | spawnAdditional => cases h; exact .spawnAdditional
  | reload count => cases h; exact .reload
  | tick =>
    simp only [step] at h
    split at h
    case isTrue hr => cases h; exact .tick hr
    case isFalse => cases h
  | reap count =>
    simp only [step] at h
    split_ifs at h with hr
    cases h
    exact .reap hr
  | reaper => exact .of_reaperStep h

end Turbine.Dispatch
