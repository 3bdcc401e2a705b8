import Turbine.Base.Counting
import Turbine.Dispatch.Inversion

/-!
# Turbine.Dispatch.Channel

Which answer a channel-mode request receives.  A channel worker answers its
payloads in order and the responses carry no label, so a request receives its
own answer exactly when nothing else is owed to its slot:

* `Channel.owed`: what the slot's receiver is still to get, in order;
* `Channel.Settled`: the only thing owed is one request's answer, or the
  worker died before it produced one;
* `SendsClear`: a request sends its payload only to a worker that owes nothing.

A request cancelled between its send and its receive returns the slot with its
answer still owed, and so does a ready signal that start-up did not wait for.
-/

namespace Turbine.Dispatch

open Base

variable {cfg : Config} {s s' : State} {e : Event} {ch : Channel} {t : Nat}

/-! ## what a channel owes -/

/-- Everything that the receiver of the channel is still to get, in order. -/
def Channel.owed (ch : Channel) : List Reply :=
  ch.responses ++ (if ch.booting then [.ready] else []) ++ ch.requests.map .answer

/-- Request `t` will get its own answer, or learn that the worker is dead. -/
def Channel.Settled (ch : Channel) (t : Nat) : Prop :=
  ch.owed = [.answer t] ∨ ch.alive = false ∧ ch.owed = []

theorem owed_send (t : Nat) :
    { ch with requests := ch.requests ++ [t] }.owed = ch.owed ++ [.answer t] := by
  simp [Channel.owed]

theorem owed_ready (hb : ch.booting = true) :
    { ch with responses := ch.responses ++ [Reply.ready], booting := false }.owed = ch.owed := by
  simp [Channel.owed, hb]

theorem owed_serve {rest : List Nat} (hr : ch.requests = t :: rest) (hb : ch.booting = false) :
    { ch with requests := rest, responses := ch.responses ++ [Reply.answer t] }.owed =
      ch.owed := by
  simp [Channel.owed, hr, hb]

theorem owed_recv {r : Reply} {rest : List Reply} (hr : ch.responses = r :: rest) :
    ch.owed = r :: { ch with responses := rest }.owed := by
  simp [Channel.owed, hr]

/-- A worker that hangs up leaves the responses it has sent. -/
theorem Channel.Settled.hangUp (h : ch.Settled t) :
    { ch with requests := [], booting := false, alive := false }.Settled t := by
  have howed : { ch with requests := [], booting := false, alive := false }.owed =
      ch.responses := by simp [Channel.owed]
  have hresp : ch.responses <+: ch.owed := ⟨_, (List.append_assoc ..).symm⟩
  rw [Channel.Settled, howed]
  obtain h | ⟨-, h⟩ := h
  · rw [h, List.prefix_cons_iff] at hresp
    obtain hnil | ⟨l, hone, hl⟩ := hresp
    · exact .inr ⟨rfl, hnil⟩
    · rw [List.prefix_nil.1 hl] at hone
      exact .inl hone
  · rw [h, List.prefix_nil] at hresp
    exact .inr ⟨rfl, hresp⟩

/-- What a request receives from a settled channel is its own answer, and it was
all the channel owed. -/
theorem Channel.Settled.recv {r : Reply} {rest : List Reply} (h : ch.Settled t)
    (hr : ch.responses = r :: rest) : r = .answer t ∧ ch.owed = [.answer t] := by
  have howed := owed_recv hr
  obtain h | ⟨-, h⟩ := h
  · rw [h, List.cons.injEq] at howed
    exact ⟨howed.1.symm, h⟩
  · rw [h] at howed
    contradiction

theorem Channel.Settled.unique {u : Nat} (h : ch.Settled t) (ho : ch.owed = [.answer u]) :
    t = u := by
  obtain h | ⟨-, h⟩ := h <;> rw [ho] at h <;> simp_all

/-! ## one step -/

/-- A request that waits for its answer will get its own; one that has an answer
has its own. -/
def Task.Answered (channels : Nat → Channel) (t : Nat) : Task → Prop
  | .guarded g .sent | .guarded g .receiving => (channels g.idx).Settled t
  | .guarded _ (.replied (some r)) => r = .answer t
  | _ => True

def State.Answered (s : State) : Prop :=
  ∀ (t : Nat) (τ : Task), s.tasks[t]? = some τ → τ.Answered s.channels t

/-- The step sends payloads only to workers that owe nothing. -/
def SendsClear (s : State) : Event → Prop
  | .send t =>
    match s.tasks[t]? with
    | some (.guarded g _) => (s.channels g.idx).alive = true → (s.channels g.idx).owed = []
    | _ => True
  | _ => True

instance : Decidable (SendsClear s e) := by
  unfold SendsClear
  split
  · split <;> infer_instance
  · infer_instance

/-- Changing a channel keeps the requests answered if it keeps that channel
settled for whoever it was settled for. -/
theorem Task.Answered.update {channels : Nat → Channel} {i : Nat} {τ : Task}
    (h : τ.Answered channels t) (hch : (channels i).Settled t → ch.Settled t) :
    τ.Answered (Function.update channels i ch) t := by
  have hset : ∀ g : IdleGuard, (channels g.idx).Settled t →
      (Function.update channels i ch g.idx).Settled t := by
    intro g hs
    by_cases hg : g.idx = i
    · rw [hg, Function.update_self]
      exact hch (hg ▸ hs)
    · rwa [Function.update_of_ne hg]
  unfold Task.Answered at h ⊢
  split at h <;> simp_all

theorem answered_skip (channels : Nat → Channel) (t k : Nat) :
    (skip cfg k).Answered channels t := by
  unfold skip
  split <;> trivial

/-- Sending to a worker that owes nothing. -/
theorem answered_send {g : IdleGuard} (ha : s.Answered)
    (ht : s.tasks[t]? = some (.guarded g .claimed))
    (halive : (s.channels g.idx).alive = true) (ho : (s.channels g.idx).owed = []) :
    ((s.setChannel g.idx
      { s.channels g.idx with requests := (s.channels g.idx).requests ++ [t] }).goto t
        (.guarded g .sent)).Answered := by
  -- nobody else waits for the slot, so the new payload disturbs nobody
  have hno : ∀ u, ¬ (s.channels g.idx).Settled u := by simp [Channel.Settled, halive, ho]
  refine forall_getElem?_set (fun u τ hu => (ha u τ hu).update fun hs => absurd hs (hno u)) ht
    fun _ => ?_
  show Channel.Settled (Function.update s.channels g.idx _ g.idx) t
  rw [Function.update_self]
  exact .inl (by rw [owed_send, ho, List.nil_append])

/-- Receiving from a channel that owes one answer. -/
theorem answered_recv {g : IdleGuard} {r : Reply} {rest : List Reply} (ha : s.Answered)
    (ht : s.tasks[t]? = some (.guarded g .receiving))
    (hr : (s.channels g.idx).responses = r :: rest) :
    ((s.setChannel g.idx { s.channels g.idx with responses := rest }).goto t
      (.guarded g (.replied (some r)))).Answered := by
  have hset : (s.channels g.idx).Settled t := ha t _ ht
  obtain ⟨hown, hone⟩ := hset.recv hr
  intro u τ hu
  simp only [State.goto, State.setChannel] at hu ⊢
  by_cases hut : t = u
  · subst hut
    rw [List.getElem?_set_self (List.getElem?_eq_some_iff.1 ht).1, Option.some.injEq] at hu
    subst hu
    exact hown
  · rw [List.getElem?_set_ne hut] at hu
    exact (ha u τ hu).update fun hs => absurd (hs.unique hone).symm hut

/-- **Step lemma.**  Sending to workers that owe nothing keeps every request
answered. -/
theorem answered_step (h : Step cfg s e s') (hg : SendsClear s e) (ha : s.Answered) :
    s'.Answered := by
  cases h with
  | arrive => exact forall_getElem?_concat ha fun _ => trivial
  | skipUnhealthy ht => exact forall_getElem?_set ha ht fun _ => answered_skip _ _ _
  | skipOverQuota ht => exact forall_getElem?_set ha ht fun _ => answered_skip _ _ _
  | lock ht => exact forall_getElem?_set ha ht fun hs => hs
  | send hm ht halive =>
    simp only [SendsClear, ht] at hg
    exact answered_send ha ht halive (hg halive)
  | recv ht hr => exact answered_recv ha ht hr
  | ready halive hb =>
    refine fun u τ hu => (ha u τ hu).update fun hs => ?_
    rwa [Channel.Settled, owed_ready hb]
  | serve hr halive hb =>
    refine fun u τ hu => (ha u τ hu).update fun hs => ?_
    rwa [Channel.Settled, owed_serve hr hb]
  | hangUp => exact fun u τ hu => (ha u τ hu).update Channel.Settled.hangUp
  | markDead | poison =>
    intro u τ hu
    simp only [State.goto, State.markUnhealthy_tasks, State.markUnhealthy_channels] at hu ⊢
    exact forall_getElem?_set ha ‹_› (fun _ => by trivial) u τ hu
  | mark =>
    intro u τ hu
    simp only [State.markUnhealthy_tasks, State.markUnhealthy_channels] at hu ⊢
    exact ha u τ hu
  | _ =>
    first
    | exact ha
    | exact forall_getElem?_set ha (‹_› : s.tasks[_]? = some _) fun _ => trivial

/-! ## whole runs -/

/-- Every response that a request was handed is the one produced for its own
payload. -/
def State.Matched (s : State) : Prop :=
  ∀ (t : Nat) (g : IdleGuard) (r : Reply),
    s.tasks[t]? = some (.guarded g (.replied (some r))) → r = .answer t

/-- **Answers match requests** in every run that sends payloads only to workers
that owe nothing. -/
theorem reply_matches_request (cfg : Config) (late : Nat → Bool) (es : List Event) (s : State)
    (hrun : run (step cfg) (initial cfg late) es = some s)
    (hg : Guarded (step cfg) SendsClear (initial cfg late) es) : s.Matched := by
  have ha : s.Answered := by
    refine invariant_of_guarded (I := State.Answered) ?_ ?_ hg hrun
    · exact fun s e s' ha hG h => answered_step (.of_step h) hG ha
    · intro t τ ht
      simp at ht
  exact fun t g r ht => ha t _ ht

/-- One channel worker, never recycled. -/
def channelWorker : Config := ⟨1, 0, fun _ _ _ => 0, .channel⟩

/-- A channel-mode request up to its send. -/
def claimAndSend (t : Nat) : List Event :=
  [.arrive, .acquire t, .pop t, .loadUnhealthy t, .loadServed t, .send t]

/-- Two requests in turn, the second after the first was answered. -/
def answeredInTurn : List Event :=
  claimAndSend 0 ++ [Event.serve 0, .lock 0, .recv 0, .record 0, .drop 0, .addPermit 0] ++
    claimAndSend 1 ++ [Event.lock 1, .serve 0, .recv 1]

theorem reply_matches_request_answeredInTurn :
    ∃ s, run (step channelWorker) (initial channelWorker fun _ => false) answeredInTurn =
        some s ∧
      s.tasks[1]? = some (.guarded ⟨0, none, false⟩ (.replied (some (.answer 1)))) ∧
      s.Matched := by
  have hrun : (run (step channelWorker) (initial channelWorker fun _ => false)
      answeredInTurn).map (fun s => s.tasks[1]?) =
        some (some (.guarded ⟨0, none, false⟩ (.replied (some (.answer 1))))) := by decide
  obtain ⟨s, hs, h1⟩ := Option.map_eq_some_iff.1 hrun
  exact ⟨s, hs, h1, reply_matches_request _ _ _ _ hs (by decide)⟩

/-- The first request is dropped while it waits for its answer: its guard is
not armed, so the slot goes back to the queue and the second request sends its
payload behind the first one's. -/
def cancelledMidFlight : List Event :=
  claimAndSend 0 ++ [Event.lock 0, .cancel 0, .drop 0, .addPermit 0] ++
    claimAndSend 1 ++ [Event.lock 1, .serve 0, .recv 1]

/-- The second request is handed the first one's response. -/
theorem foreign_response :
    ∃ s, run (step channelWorker) (initial channelWorker fun _ => false) cancelledMidFlight =
        some s ∧
      s.tasks[1]? = some (.guarded ⟨0, none, false⟩ (.replied (some (.answer 0)))) ∧
      ¬ s.Matched := by
  have hrun : (run (step channelWorker) (initial channelWorker fun _ => false)
      cancelledMidFlight).map (fun s => s.tasks[1]?) =
        some (some (.guarded ⟨0, none, false⟩ (.replied (some (.answer 0))))) := by decide
  obtain ⟨s, hs, h1⟩ := Option.map_eq_some_iff.1 hrun
  exact ⟨s, hs, h1, fun hm => absurd (hm 1 _ _ h1) (by decide)⟩

end Turbine.Dispatch
