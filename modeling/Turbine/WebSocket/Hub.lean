import Mathlib.Data.List.Basic
import Turbine.Base.Runs

/-!
# Turbine.WebSocket.Hub

The WebSocket hub (crates/turbine-core/src/websocket.rs) as a transition system: any
number of `publish` and `subscribe` calls on any channel names, and sessions that end.
Every access to the channel map is one `Event`; so is a send, and the subscription to
a sender.

A sender is known by the order in which it was built.  `broadcast::channel` is called
before the entry of the map is taken, so a sender that was just built may lose the
race for its name and be dropped again.  A sent value goes to the receivers that are
subscribed to the sender.

* `coherent_step`: all calls that use a sender use the one in the map;
* `reaching_step`: a publish that started after a subscription reaches it.
-/

namespace Turbine.WebSocket

open Base

/-! ## model -/

/-- `WsConfig`, as far as the hub reads it. -/
structure Config where
  maxChannels : Nat
  channelCapacity : Nat

/-- `broadcast::channel` panics for other capacities: it takes up to `usize::MAX / 2`. -/
def Config.Creates (cfg : Config) : Prop :=
  0 < cfg.channelCapacity ∧ cfg.channelCapacity ≤ 9223372036854775807

instance {cfg : Config} : Decidable cfg.Creates := inferInstanceAs (Decidable (_ ∧ _))

inductive Request
  | publish (payload : List UInt8)
  | subscribe
deriving DecidableEq, Repr

/-- Where a call stands: in `channel` before one of its three accesses to the map, or
with a sender, or returned. -/
inductive Stage
  | lookup
  | counting
  | inserting (fresh : Nat)
  | found (tx : Nat)
  | published (tx : Nat) (count : Nat)
  | subscribed (tx : Nat) (receiver : Nat)
  | refused
  | panicked
deriving DecidableEq, Repr

structure Call where
  name : String
  request : Request
  stage : Stage := .lookup
deriving DecidableEq, Repr

/-- A subscription to a sender.  What was sent to it is kept with the call that sent
it; `live` says that its session has not dropped it. -/
structure Receiver where
  sender : Nat
  inbox : List (Nat × List UInt8) := []
  live : Bool := true
deriving DecidableEq, Repr

/-- `WsHub` and its callers. -/
structure State where
  channels : List (String × Nat) := []
  nextSender : Nat := 0
  receivers : List Receiver := []
  calls : List Call := []
deriving DecidableEq, Repr

/-- The atomic actions. -/
inductive Event
  | call (name : String) (request : Request)
  | get (t : Nat)
  | len (t : Nat)
  | orInsert (t : Nat)
  | send (t : Nat)
  | attach (t : Nat)
  | drop (r : Nat)
deriving DecidableEq, Repr

def State.goto (s : State) (t : Nat) (call : Call) (stage : Stage) : State :=
  { s with calls := s.calls.set t { call with stage } }

/-- Whether the receiver gets what is sent on `tx`. -/
def Receiver.hears (tx : Nat) (R : Receiver) : Bool := R.sender = tx && R.live

def Receiver.deliver (t tx : Nat) (payload : List UInt8) (R : Receiver) : Receiver :=
  if R.hears tx then { R with inbox := R.inbox ++ [(t, payload)] } else R

/-- `Sender::send`: call `t` sends the payload on `tx`. -/
def State.send (s : State) (t tx : Nat) (payload : List UInt8) : State :=
  { s with receivers := s.receivers.map (.deliver t tx payload) }

/-- `Sender::subscribe`. -/
def State.subscribe (s : State) (tx : Nat) : State :=
  { s with receivers := s.receivers ++ [{ sender := tx }] }

/-- One atomic action; `none` if it is not enabled. -/
def step (cfg : Config) (s : State) : Event → Option State
  | .call name request => some { s with calls := s.calls ++ [{ name, request }] }
  | .get t =>
    match s.calls[t]? with
    | some call =>
      if call.stage = .lookup then
        match s.channels.lookup call.name with
        | some tx => some (s.goto t call (.found tx))
        | none => some (s.goto t call .counting)
      else none
    | none => none
  | .len t =>
    match s.calls[t]? with
    | some call =>
      if call.stage = .counting then
        if cfg.maxChannels ≤ s.channels.length then some (s.goto t call .refused)
        else if cfg.Creates then
          some ({ s with nextSender := s.nextSender + 1 }.goto t call (.inserting s.nextSender))
        else some (s.goto t call .panicked)
      else none
    | none => none
  | .orInsert t =>
    match s.calls[t]? with
    | some call =>
      match call.stage with
      | .inserting fresh =>
        match s.channels.lookup call.name with
        | some tx => some (s.goto t call (.found tx))
        | none => some ({ s with channels := s.channels ++ [(call.name, fresh)] }.goto t call
            (.found fresh))
      | _ => none
    | none => none
  | .send t =>
    match s.calls[t]? with
    | some call =>
      match call.stage, call.request with
      | .found tx, .publish payload =>
        some ((s.send t tx payload).goto t call
          (.published tx (s.receivers.countP (Receiver.hears tx))))
      | _, _ => none
    | none => none
  | .attach t =>
    match s.calls[t]? with
    | some call =>
      match call.stage, call.request with
      | .found tx, .subscribe =>
        some ((s.subscribe tx).goto t call (.subscribed tx s.receivers.length))
      | _, _ => none
    | none => none
  | .drop r =>
    match s.receivers[r]? with
    | some R => some { s with receivers := s.receivers.set r { R with live := false } }
    | none => none

/-- A new hub. -/
def initial : State := {}

/-! ## the branches of a step -/

/-- One atomic step, by branch. -/
inductive Step (cfg : Config) (s : State) : Event → State → Prop
  | call {name : String} {request : Request} :
      Step cfg s (.call name request) { s with calls := s.calls ++ [{ name, request }] }
  | found {t tx : Nat} {call : Call} (ht : s.calls[t]? = some call)
      (hstage : call.stage = .lookup ∨ ∃ fresh, call.stage = .inserting fresh)
      (hname : s.channels.lookup call.name = some tx) {e : Event}
      (he : e = .get t ∨ e = .orInsert t) :
      Step cfg s e (s.goto t call (.found tx))
  | missing {t : Nat} {call : Call} (ht : s.calls[t]? = some call) (hstage : call.stage = .lookup)
      (hname : s.channels.lookup call.name = none) :
      Step cfg s (.get t) (s.goto t call .counting)
  | refuse {t : Nat} {call : Call} (ht : s.calls[t]? = some call) (hstage : call.stage = .counting)
      (hmax : cfg.maxChannels ≤ s.channels.length) :
      Step cfg s (.len t) (s.goto t call .refused)
  | build {t : Nat} {call : Call} (ht : s.calls[t]? = some call) (hstage : call.stage = .counting)
      (hcap : cfg.Creates) :
      Step cfg s (.len t)
        ({ s with nextSender := s.nextSender + 1 }.goto t call (.inserting s.nextSender))
  | panic {t : Nat} {call : Call} (ht : s.calls[t]? = some call) (hstage : call.stage = .counting)
      (hcap : ¬cfg.Creates) : Step cfg s (.len t) (s.goto t call .panicked)
  | insert {t fresh : Nat} {call : Call} (ht : s.calls[t]? = some call)
      (hstage : call.stage = .inserting fresh) (hname : s.channels.lookup call.name = none) :
      Step cfg s (.orInsert t)
        ({ s with channels := s.channels ++ [(call.name, fresh)] }.goto t call (.found fresh))
  | send {t tx : Nat} {call : Call} {payload : List UInt8} (ht : s.calls[t]? = some call)
      (hstage : call.stage = .found tx) (hrequest : call.request = .publish payload) :
      Step cfg s (.send t)
        ((s.send t tx payload).goto t call
          (.published tx (s.receivers.countP (Receiver.hears tx))))
  | attach {t tx : Nat} {call : Call} (ht : s.calls[t]? = some call)
      (hstage : call.stage = .found tx) (hrequest : call.request = .subscribe) :
      Step cfg s (.attach t)
        ((s.subscribe tx).goto t call (.subscribed tx s.receivers.length))
  | drop {r : Nat} {R : Receiver} (hr : s.receivers[r]? = some R) :
      Step cfg s (.drop r) { s with receivers := s.receivers.set r { R with live := false } }

/-- **Inversion.**  An enabled event takes one of the branches. -/
theorem Step.of_step {cfg : Config} {s s' : State} {e : Event} (h : step cfg s e = some s') :
    Step cfg s e s' := by
  cases e with
  | call name request => cases h; exact .call
  | get t =>
    simp only [step] at h
    split at h <;> try contradiction
    case h_1 call ht =>
      split at h <;> try contradiction
      case isTrue hstage =>
        split at h <;> cases h
        case h_1 tx hname => exact .found ht (.inl hstage) hname (.inl rfl)
        case h_2 hname => exact .missing ht hstage hname
  | len t =>
    simp only [step] at h
    split at h <;> try contradiction
    case h_1 call ht =>
      split at h <;> try contradiction
      case isTrue hstage =>
        split at h
        case isTrue hmax => cases h; exact .refuse ht hstage hmax
        case isFalse hmax =>
          split at h <;> cases h
          case isTrue hcap => exact .build ht hstage hcap
          case isFalse hcap => exact .panic ht hstage hcap
  | orInsert t =>
    simp only [step] at h
    split at h <;> try contradiction
    case h_1 call ht =>
      split at h <;> try contradiction
      case h_1 fresh hstage =>
        split at h <;> cases h
        case h_1 tx hname => exact .found ht (.inr ⟨fresh, hstage⟩) hname (.inr rfl)
        case h_2 hname => exact .insert ht hstage hname
  | send t =>
    simp only [step] at h
    split at h <;> try contradiction
    case h_1 call ht =>
      split at h <;> cases h
      case h_1 tx payload hstage hrequest => exact .send ht hstage hrequest
  | attach t =>
    simp only [step] at h
    split at h <;> try contradiction
    case h_1 call ht =>
      split at h <;> cases h
      case h_1 tx hstage hrequest => exact .attach ht hstage hrequest
  | drop r =>
    simp only [step] at h
    split at h <;> cases h
    case h_1 R hr => exact .drop hr

/-! ## one sender for each name -/

/-- The sender that a call uses. -/
def Stage.sender? : Stage → Option Nat
  | .found tx => some tx
  | .published tx _ => some tx
  | .subscribed tx _ => some tx
  | _ => none

/-- The sender of a name is the one in the map. -/
structure Coherent (s : State) : Prop where
  used : ∀ call ∈ s.calls, ∀ tx, call.stage.sender? = some tx →
    s.channels.lookup call.name = some tx
  attached : ∀ call ∈ s.calls, ∀ tx r, call.stage = .subscribed tx r →
    ∃ R, s.receivers[r]? = some R ∧ R.sender = tx
  sent : ∀ R ∈ s.receivers, ∀ x ∈ R.inbox, x.1 < s.calls.length

variable {cfg : Config} {s s' : State} {e : Event} {t tx : Nat} {call : Call} {stage : Stage}
  {name : String} {payload : List UInt8}

theorem coherent_initial : Coherent initial := by
  refine ⟨?_, ?_, ?_⟩ <;> exact fun _ h => nomatch h

/-- A sender that is in the map stays there. -/
theorem lookup_append_of_some {l l' : List (String × Nat)} (h : l.lookup name = some tx) :
    (l ++ l').lookup name = some tx := by
  rw [List.lookup_append, h]
  rfl

theorem sender_deliver {u : Nat} (R : Receiver) : (R.deliver u tx payload).sender = R.sender := by
  rw [Receiver.deliver]
  split <;> rfl

/-- A call that goes on, with the sender in the map. -/
theorem Coherent.goto (h : Coherent s)
    (hsender : ∀ tx, stage.sender? = some tx → s.channels.lookup call.name = some tx)
    (hreceiver : ∀ tx r, stage = .subscribed tx r →
      ∃ R, s.receivers[r]? = some R ∧ R.sender = tx) : Coherent (s.goto t call stage) where
  used := by
    intro c hc tx htx
    obtain hc | rfl := List.mem_or_eq_of_mem_set hc
    · exact h.used c hc tx htx
    · exact hsender tx htx
  attached := by
    intro c hc tx r hstage
    obtain hc | rfl := List.mem_or_eq_of_mem_set hc
    · exact h.attached c hc tx r hstage
    · exact hreceiver tx r hstage
  sent := by
    intro R hR x hx
    rw [State.goto, List.length_set]
    exact h.sent R hR x hx

/-- The map and the receivers only grow, and no receiver changes its sender. -/
theorem Coherent.grow (h : Coherent s) {channels : List (String × Nat)} {next : Nat}
    {receivers : List Receiver} (hchannels : s.channels <+: channels)
    (hreceivers : ∀ (r : Nat) (R : Receiver), s.receivers[r]? = some R →
      ∃ R' : Receiver, receivers[r]? = some R' ∧ R'.sender = R.sender)
    (hsent : ∀ R ∈ receivers, ∀ x ∈ R.inbox, x.1 < s.calls.length) :
    Coherent { s with channels := channels, nextSender := next, receivers := receivers } where
  used := by
    intro c hc tx htx
    obtain ⟨l, rfl⟩ := hchannels
    exact lookup_append_of_some (h.used c hc tx htx)
  attached := by
    intro c hc tx r hstage
    obtain ⟨R, hR, htx⟩ := h.attached c hc tx r hstage
    obtain ⟨R', hR', hsender⟩ := hreceivers r R hR
    exact ⟨R', hR', hsender.trans htx⟩
  sent := hsent

theorem coherent_send (h : Coherent s) (ht : t < s.calls.length) :
    Coherent (s.send t tx payload) := by
  refine h.grow (List.prefix_refl _) ?_ ?_
  · intro r R hR
    exact ⟨R.deliver t tx payload, by rw [List.getElem?_map, hR]; rfl, sender_deliver R⟩
  · intro R' hR' x hx
    obtain ⟨R, hR, rfl⟩ := List.mem_map.1 hR'
    rw [Receiver.deliver] at hx
    split at hx
    · obtain hx | hx := List.mem_append.1 hx
      · exact h.sent R hR x hx
      · rw [List.mem_singleton.1 hx]
        exact ht
    · exact h.sent R hR x hx

theorem coherent_subscribe (h : Coherent s) : Coherent (s.subscribe tx) := by
  refine h.grow (List.prefix_refl _) ?_ ?_
  · intro r R hR
    exact ⟨R, by rw [List.getElem?_append_left (List.getElem?_eq_some_iff.1 hR).1, hR], rfl⟩
  · intro R hR x hx
    obtain hR | hR := List.mem_append.1 hR
    · exact h.sent R hR x hx
    · rw [List.mem_singleton.1 hR] at hx
      cases hx

theorem coherent_drop {r : Nat} {R : Receiver} (h : Coherent s) (hr : s.receivers[r]? = some R) :
    Coherent { s with receivers := s.receivers.set r { R with live := false } } := by
  refine h.grow (List.prefix_refl _) ?_ ?_
  · intro r' R' hR'
    by_cases hrr : r' = r
    · subst hrr
      rw [hr] at hR'
      cases hR'
      exact ⟨_, List.getElem?_set_self (List.getElem?_eq_some_iff.1 hr).1, rfl⟩
    · exact ⟨R', by rw [List.getElem?_set_ne (Ne.symm hrr), hR'], rfl⟩
  · intro R' hR' x hx
    obtain hR' | rfl := List.mem_or_eq_of_mem_set hR'
    · exact h.sent R' hR' x hx
    · exact h.sent R (List.mem_of_getElem? hr) x hx

theorem coherent_call {request : Request} (h : Coherent s) :
    Coherent { s with calls := s.calls ++ [{ name, request }] } where
  used := by
    intro c hc tx htx
    obtain hc | hc := List.mem_append.1 hc
    · exact h.used c hc tx htx
    · rw [List.mem_singleton.1 hc] at htx
      cases htx
  attached := by
    intro c hc tx r hstage
    obtain hc | hc := List.mem_append.1 hc
    · exact h.attached c hc tx r hstage
    · rw [List.mem_singleton.1 hc] at hstage
      cases hstage
  sent := by
    intro R hR x hx
    rw [List.length_append]
    exact Nat.lt_add_right _ (h.sent R hR x hx)

/-- **Step lemma.** -/
theorem coherent_step (h : Coherent s) (hs : Step cfg s e s') : Coherent s' := by
  cases hs with
  | call => exact coherent_call h
  | found ht hstage hname =>
    refine h.goto ?_ nofun
    rintro tx ⟨⟩
    exact hname
  | missing | refuse | panic => exact h.goto nofun nofun
  | build =>
    refine Coherent.goto ?_ nofun nofun
    exact h.grow (List.prefix_refl _) (fun r R hR => ⟨R, hR, rfl⟩) h.sent
  | @insert t fresh call ht hstage hname =>
    refine Coherent.goto ?_ ?_ nofun
    · exact h.grow (List.prefix_append ..) (fun r R hR => ⟨R, hR, rfl⟩) h.sent
    · rintro tx ⟨⟩
      rw [List.lookup_append, hname]
      simp
  | send ht hstage hrequest =>
    refine (coherent_send h (List.getElem?_eq_some_iff.1 ht).1).goto ?_ nofun
    rintro tx ⟨⟩
    exact h.used _ (List.mem_of_getElem? ht) _ (by rw [hstage]; rfl)
  | attach ht hstage hrequest =>
    refine (coherent_subscribe h).goto ?_ ?_
    · rintro tx ⟨⟩
      exact h.used _ (List.mem_of_getElem? ht) _ (by rw [hstage]; rfl)
    · rintro tx r ⟨⟩
      exact ⟨_, List.getElem?_concat_length, rfl⟩
  | drop hr => exact coherent_drop h hr

/-- **Run lemma.** -/
theorem coherent_run {es : List Event} (hrun : run (step cfg) initial es = some s) : Coherent s :=
  invariant_of_run (fun _ _ _ h hs => coherent_step h (.of_step hs)) coherent_initial hrun

/-! ## a publish after a subscription -/

/-- What call `t` sent to the receiver. -/
def Receiver.mail (t : Nat) (R : Receiver) : List (List UInt8) :=
  (R.inbox.filter (·.1 = t)).map Prod.snd

/-- How far call `t` has got in publishing the payload to receiver `R` of `tx`: it has
not sent it yet, or has sent it once. -/
def Sending (t tx : Nat) (payload : List UInt8) (R : Receiver) : Stage → Prop
  | .lookup => R.mail t = []
  | .found tx' => tx' = tx ∧ R.mail t = []
  | .published tx' _ => tx' = tx ∧ (R.live = true → R.mail t = [payload])
  | _ => False

/-- Call `t` is a publish to the channel of receiver `r`. -/
structure Reaching (name : String) (payload : List UInt8) (tx r t : Nat) (s : State) : Prop where
  channel : s.channels.lookup name = some tx
  sending : ∃ R stage, s.receivers[r]? = some R ∧ R.sender = tx ∧
    s.calls[t]? = some ⟨name, .publish payload, stage⟩ ∧ Sending t tx payload R stage

/-- Receiver `R` has become `R'`, and call `t` had no part in it. -/
structure Aside (t : Nat) (R R' : Receiver) : Prop where
  sender : R'.sender = R.sender
  live : R'.live = true → R.live = true
  mail : R'.mail t = R.mail t

variable {r u : Nat} {R R' : Receiver}

theorem Aside.refl : Aside t R R := ⟨rfl, id, rfl⟩

theorem live_deliver : (R.deliver t tx payload).live = R.live := by
  rw [Receiver.deliver]
  split <;> rfl

/-- A live receiver of the sender gets the payload. -/
theorem mail_deliver (hsender : R.sender = tx) (hlive : R.live = true) :
    (R.deliver t tx payload).mail t = R.mail t ++ [payload] := by
  have hhears : R.hears tx = true := by simp [Receiver.hears, hsender, hlive]
  rw [Receiver.deliver, if_pos hhears]
  simp [Receiver.mail]

theorem aside_deliver {tx' : Nat} {payload' : List UInt8} (hu : u ≠ t) :
    Aside t R (R.deliver u tx' payload') := by
  rw [Receiver.deliver]
  split
  · refine ⟨rfl, id, ?_⟩
    simp [Receiver.mail, hu]
  · exact .refl

theorem Sending.aside (h : Sending t tx payload R stage) (hR : Aside t R R') :
    Sending t tx payload R' stage := by
  cases stage with
  | lookup => exact hR.mail.trans h
  | found => exact ⟨h.1, hR.mail.trans h.2⟩
  | published => exact ⟨h.1, fun hlive => hR.mail.trans (h.2 (hR.live hlive))⟩
  | _ => exact h

/-- The others go on. -/
theorem Reaching.aside (h : Reaching name payload tx r t s) (hchannels : s.channels <+: s'.channels)
    (hcalls : s'.calls[t]? = s.calls[t]?)
    (hreceiver : ∀ R, s.receivers[r]? = some R → ∃ R', s'.receivers[r]? = some R' ∧ Aside t R R') :
    Reaching name payload tx r t s' := by
  obtain ⟨R, stage, hR, hsender, ht, hsending⟩ := h.sending
  obtain ⟨R', hR', haside⟩ := hreceiver R hR
  obtain ⟨l, hl⟩ := hchannels
  refine ⟨?_, R', stage, hR', haside.sender.trans hsender, hcalls.trans ht, hsending.aside haside⟩
  rw [← hl]
  exact lookup_append_of_some h.channel

theorem Reaching.goto_of_ne (h : Reaching name payload tx r t s) (hu : u ≠ t) :
    Reaching name payload tx r t (s.goto u call stage) :=
  h.aside (List.prefix_refl _) (List.getElem?_set_ne hu) fun R hR => ⟨R, hR, .refl⟩

/-- **Step lemma.** -/
theorem reaching_step (h : Reaching name payload tx r t s) (hs : Step cfg s e s') :
    Reaching name payload tx r t s' := by
  obtain ⟨R, stage, hR, hsender, ht, hsending⟩ := h.sending
  have hlt : t < s.calls.length := (List.getElem?_eq_some_iff.1 ht).1
  cases hs with
  | call =>
    refine h.aside (List.prefix_refl _) (List.getElem?_append_left hlt) ?_
    exact fun R hR => ⟨R, hR, .refl⟩
  | @found u tx' call hu hstage hname =>
    by_cases hut : u = t
    · subst hut
      rw [ht] at hu
      cases hu
      obtain rfl : tx = tx' := Option.some.inj (h.channel.symm.trans hname)
      refine ⟨h.channel, R, .found tx, hR, hsender, List.getElem?_set_self hlt, rfl, ?_⟩
      obtain rfl | ⟨fresh, rfl⟩ := hstage
      · exact hsending
      · exact hsending.elim
    · exact h.goto_of_ne hut
  | @missing u call hu hstage hname =>
    refine h.goto_of_ne ?_
    rintro rfl
    rw [ht] at hu
    cases hu
    rw [h.channel] at hname
    cases hname
  | @refuse u call hu hstage | @panic u call hu hstage =>
    refine h.goto_of_ne ?_
    rintro rfl
    rw [ht] at hu
    cases hu
    cases hstage
    exact hsending
  | @build u call hu hstage =>
    refine Reaching.goto_of_ne (s := { s with nextSender := _ }) ⟨h.channel, h.sending⟩ ?_
    rintro rfl
    rw [ht] at hu
    cases hu
    cases hstage
    exact hsending
  | @insert u fresh call hu hstage hname =>
    have hne : u ≠ t := by
      rintro rfl
      rw [ht] at hu
      cases hu
      cases hstage
      exact hsending
    exact h.aside (List.prefix_append ..) (List.getElem?_set_ne hne) fun R hR => ⟨R, hR, .refl⟩
  | @send u tx' call payload' hu hstage hrequest =>
    by_cases hut : u = t
    · subst hut
      rw [ht] at hu
      cases hu
      cases hstage
      cases hrequest
      obtain ⟨rfl, hmail⟩ := hsending
      refine ⟨h.channel, R.deliver u tx' payload, _, ?_, ?_, List.getElem?_set_self hlt, rfl, ?_⟩
      · exact (List.getElem?_map ..).trans (by rw [hR]; rfl)
      · rw [sender_deliver, hsender]
      · intro hlive
        rw [live_deliver] at hlive
        rw [mail_deliver hsender hlive, hmail]
        rfl
    · refine h.aside (List.prefix_refl _) (List.getElem?_set_ne hut) fun R hR => ?_
      refine ⟨R.deliver u tx' payload', ?_, aside_deliver hut⟩
      exact (List.getElem?_map ..).trans (by rw [hR]; rfl)
  | @attach u tx' call hu hstage hrequest =>
    have hne : u ≠ t := by
      rintro rfl
      rw [ht] at hu
      cases hu
      cases hrequest
    refine h.aside (List.prefix_refl _) (List.getElem?_set_ne hne) fun R hR => ⟨R, ?_, .refl⟩
    exact (List.getElem?_append_left (List.getElem?_eq_some_iff.1 hR).1).trans hR
  | @drop r' R₀ hr =>
    refine h.aside (List.prefix_refl _) rfl fun R hR => ?_
    by_cases hrr : r' = r
    · subst hrr
      rw [hr] at hR
      cases hR
      refine ⟨_, List.getElem?_set_self (List.getElem?_eq_some_iff.1 hr).1, rfl, nofun, rfl⟩
    · exact ⟨R, (List.getElem?_set_ne hrr).trans hR, .refl⟩

/-- A publish that has its sender sends. -/
theorem exists_send (cfg : Config) (ht : s.calls[t]? = some ⟨name, .publish payload, .found tx⟩) :
    ∃ s' n, run (step cfg) s [.send t] = some s' ∧
      s'.calls[t]? = some ⟨name, .publish payload, .published tx n⟩ := by
  have hsend : step cfg s (.send t) = some ((s.send t tx payload).goto t
      ⟨name, .publish payload, .found tx⟩
      (.published tx (s.receivers.countP (Receiver.hears tx)))) := by
    simp only [step, ht]
  exact ⟨_, _, run_cons_eq_some.2 ⟨_, hsend, rfl⟩,
    List.getElem?_set_self (List.getElem?_eq_some_iff.1 ht).1⟩

/-- Nothing keeps the publish from returning: it needs no step but its own. -/
theorem Reaching.exists_published (h : Reaching name payload tx r t s) :
    ∃ es s' n, (∀ e ∈ es, e = .get t ∨ e = .send t) ∧ run (step cfg) s es = some s' ∧
      s'.calls[t]? = some ⟨name, .publish payload, .published tx n⟩ := by
  obtain ⟨R, stage, -, -, ht, hsending⟩ := h.sending
  cases stage with
  | lookup =>
    have hget : step cfg s (.get t) =
        some (s.goto t ⟨name, .publish payload, .lookup⟩ (.found tx)) := by
      simp only [step, ht, h.channel]
      rfl
    have hfound : (s.goto t ⟨name, .publish payload, .lookup⟩ (.found tx)).calls[t]? =
        some ⟨name, .publish payload, .found tx⟩ :=
      List.getElem?_set_self (List.getElem?_eq_some_iff.1 ht).1
    obtain ⟨s', n, hrun, hdone⟩ := exists_send cfg hfound
    refine ⟨[.get t, .send t], s', n, by simp, ?_, hdone⟩
    exact run_cons_eq_some.2 ⟨_, hget, hrun⟩
  | found tx' =>
    obtain ⟨rfl, -⟩ := hsending
    obtain ⟨s', n, hrun, hdone⟩ := exists_send cfg ht
    exact ⟨[.send t], s', n, by simp, hrun, hdone⟩
  | published tx' n =>
    obtain ⟨rfl, -⟩ := hsending
    exact ⟨[], s, n, nofun, rfl, ht⟩
  | _ => exact hsending.elim

/-- A publish that starts on a channel with a subscription. -/
theorem reaching_call (h : Coherent s)
    (hu : s.calls[u]? = some ⟨name, .subscribe, .subscribed tx r⟩) :
    Reaching name payload tx r s.calls.length
      { s with calls := s.calls ++ [{ name, request := .publish payload }] } := by
  have hmem := List.mem_of_getElem? hu
  obtain ⟨R, hR, hsender⟩ := h.attached _ hmem tx r rfl
  refine ⟨h.used _ hmem tx rfl, R, .lookup, hR, hsender, List.getElem?_concat_length, ?_⟩
  refine List.map_eq_nil_iff.2 (List.filter_eq_nil_iff.2 fun x hx heq => ?_)
  exact Nat.ne_of_lt (h.sent R (List.mem_of_getElem? hR) x hx) (by simpa using heq)

/-- In every run, all calls on one name that get a sender get the same one; and a
publish that starts after a subscription on the name has returned is never refused,
returns, and sends its payload once to that receiver. -/
theorem hub_coherent {es : List Event} (hrun : run (step cfg) initial es = some s) :
    (∀ c ∈ s.calls, ∀ d ∈ s.calls, c.name = d.name → ∀ tx tx', c.stage.sender? = some tx →
      d.stage.sender? = some tx' → tx = tx') ∧
    ∀ (u : Nat) name tx r, s.calls[u]? = some ⟨name, .subscribe, .subscribed tx r⟩ →
      ∀ payload fs s', run (step cfg) s (.call name (.publish payload) :: fs) = some s' →
        Reaching name payload tx r s.calls.length s' ∧
        ∃ gs s'' n, (∀ e ∈ gs, e = .get s.calls.length ∨ e = .send s.calls.length) ∧
          run (step cfg) s' gs = some s'' ∧
          s''.calls[s.calls.length]? = some ⟨name, .publish payload, .published tx n⟩ := by
  have h := coherent_run hrun
  refine ⟨?_, ?_⟩
  · intro c hc d hd hname tx tx' htx htx'
    have hc := h.used c hc tx htx
    have hd := h.used d hd tx' htx'
    rw [hname, hd] at hc
    exact (Option.some.inj hc).symm
  · intro u name tx r hu payload fs s' hrun'
    obtain ⟨s₁, hcall, hrun'⟩ := run_cons_eq_some.1 hrun'
    obtain rfl := Option.some.inj hcall
    have hreaching : Reaching name payload tx r s.calls.length s' :=
      invariant_of_run (fun _ _ _ h hs => reaching_step h (.of_step hs)) (reaching_call h hu) hrun'
    exact ⟨hreaching, hreaching.exists_published⟩

/-- Two first uses of a name: the sender that call 1 built is dropped, and it
subscribes to the one in the map. -/
def twoFirstUses : List Event :=
  [.call "news" (.publish [1]), .call "news" .subscribe, .get 0, .get 1, .len 0, .len 1,
    .orInsert 0, .orInsert 1, .attach 1, .send 0]

def afterFirstUses : State where
  channels := [("news", 0)]
  nextSender := 2
  receivers := [⟨0, [(0, [1])], true⟩]
  calls := [⟨"news", .publish [1], .published 0 1⟩, ⟨"news", .subscribe, .subscribed 0 0⟩]

theorem hub_coherent_twoFirstUses :
    run (step ⟨1, 8⟩) initial twoFirstUses = some afterFirstUses ∧
      ∃ s, run (step ⟨1, 8⟩) afterFirstUses [.call "news" (.publish [2])] = some s ∧
        Reaching "news" [2] 0 0 2 s := by
  have hrun : run (step ⟨1, 8⟩) initial twoFirstUses = some afterFirstUses := by decide
  exact ⟨hrun, _, rfl, ((hub_coherent hrun).2 1 "news" 0 0 rfl [2] [] _ rfl).1⟩

end Turbine.WebSocket
