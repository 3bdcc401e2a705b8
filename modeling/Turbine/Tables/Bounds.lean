import Turbine.Base.Counting
import Turbine.Tables.Races
import Turbine.WebSocket.Hub

/-!
# Turbine.Tables.Bounds

How large the shared table and the map of channels grow.  Both check the size and insert
in separate steps, so a caller that has found room may come late.  What has been found
room for and is not inserted yet counts as well.

* `Races.bounded_step`, `WebSocket.bounded_step`: as long as a caller only passes the check
  when its own entry fits in beside those, the bound is kept.
-/

namespace Turbine

open Base

/-! ## the table -/

namespace Tables.Races

open Threads Expiry

variable {shards : Shards} {table table' : SharedTable} {clock maxEntries : Nat} {request : Op}
  {phase phase' : Phase} {key : String} {entry : Entry} {w w' : State} {e : Event}

/-- The calls that have found room and have not inserted their entry. -/
def pending (w : State) : Nat := w.threads.countP fun call => call.phase.isInserting

/-- A call passes the size check only if its entry fits in beside those of the others that have
passed it. -/
def Reserved (shards : Shards) (w : State) : Event → Prop
  | .advance t => ∀ call ∈ w.threads[t]?, ∀ next ∈ (program shards).act w call,
      next.2.isInserting = true → w.shared.size + pending w < w.shared.maxEntries
  | .tick _ | .call _ => True

instance : Decidable (Reserved shards w e) :=
  match e with
  | .advance t => inferInstanceAs (Decidable (∀ call ∈ w.threads[t]?,
      ∀ next ∈ (program shards).act w call, next.2.isInserting = true →
        w.shared.size + pending w < w.shared.maxEntries))
  | .tick _ | .call _ => .isTrue trivial

theorem size_eq_length_keys : table.size = table.map.keys.length := (List.length_map _).symm

theorem size_store_le : (table.store key entry).size ≤ table.size + 1 := by
  rw [size_eq_length_keys, size_eq_length_keys, SharedTable.store, AList.keys_insert,
    List.length_cons]
  exact Nat.succ_le_succ List.length_erase_le

theorem size_store_of_mem (h : key ∈ table.map) : (table.store key entry).size = table.size := by
  have hkey : key ∈ table.map.keys := AList.mem_keys.1 h
  have hpos : 0 < table.map.keys.length := List.length_pos_of_mem hkey
  rw [size_eq_length_keys, size_eq_length_keys, SharedTable.store, AList.keys_insert,
    List.length_cons, List.length_erase_of_mem hkey]
  omega

theorem size_remove_le : (table.remove key).size ≤ table.size := by
  rw [size_eq_length_keys, size_eq_length_keys, SharedTable.remove, AList.keys_erase]
  exact List.length_erase_le

theorem size_retain_le {keep : String → Entry → Bool} : (table.retain keep).size ≤ table.size :=
  List.length_filter_le ..

/-- An access passes the check, or it adds no entry but the one there was room for. -/
theorem Acts.size (h : Acts table clock request phase table' phase') :
    table'.maxEntries = table.maxEntries ∧
      (phase'.isInserting = true ∧ phase.isInserting = false ∧ table' = table ∨
        phase'.isInserting = false ∧
          table'.size ≤ table.size + if phase.isInserting then 1 else 0) := by
  cases h with
  | quiet _ hinserting => exact ⟨rfl, .inr ⟨hinserting.2, Nat.le_add_right ..⟩⟩
  | room => exact ⟨rfl, .inl ⟨rfl, rfl, rfl⟩⟩
  | expired => exact ⟨rfl, .inr ⟨rfl, Nat.le_refl _⟩⟩
  | replace _ hkey => exact ⟨rfl, .inr ⟨rfl, Nat.le_of_eq (size_store_of_mem hkey)⟩⟩
  | insert => exact ⟨rfl, .inr ⟨rfl, size_store_le⟩⟩
  | evict => exact ⟨rfl, .inr ⟨rfl, size_remove_le⟩⟩
  | delete => exact ⟨rfl, .inr ⟨rfl, size_remove_le⟩⟩
  | wipe => exact ⟨rfl, .inr ⟨rfl, size_retain_le⟩⟩
  | sweep => exact ⟨rfl, .inr ⟨rfl, size_retain_le⟩⟩

/-- What is there and what is to come fit in. -/
structure Bounded (maxEntries : Nat) (w : State) : Prop where
  limit : w.shared.maxEntries = maxEntries
  fits : w.shared.size + pending w ≤ maxEntries

/-- **Step lemma.** -/
theorem bounded_step (h : Bounded maxEntries w) (hreserved : Reserved shards w e)
    (hs : (program shards).step w e = some w') : Bounded maxEntries w' := by
  obtain ⟨hlimit, hfits⟩ := h
  cases Program.step_cases hs with
  | tick => exact ⟨hlimit, hfits⟩
  | call =>
    refine ⟨hlimit, ?_⟩
    simpa [pending, program, Phase.isInserting] using hfits
  | @act t call table phase ht hact =>
    have hacts : Acts w.shared w.clock call.request call.phase table phase := .of_act hact
    obtain ⟨hmax, hsize⟩ := hacts.size
    have hcount :
        pending (w.acted t call table phase) + (if call.phase.isInserting then 1 else 0) =
          pending w + if phase.isInserting then 1 else 0 :=
      countP_set_add (fun call : Call => call.phase.isInserting) ht
    refine ⟨hmax.trans hlimit, ?_⟩
    change table.size + pending (w.acted t call table phase) ≤ maxEntries
    obtain ⟨hinserting, hfirst, rfl⟩ | ⟨hinserting, hgrown⟩ := hsize
    · have hroom := hreserved call ht (w.shared, phase) hact hinserting
      rw [hinserting, hfirst] at hcount
      simp only [if_true, Bool.false_eq_true, if_false] at hcount
      omega
    · rw [hinserting] at hcount
      simp only [Bool.false_eq_true, if_false] at hcount
      omega

end Tables.Races

/-! ## the hub -/

namespace WebSocket

variable {cfg : Config} {s s' : State} {e : Event} {t : Nat} {call : Call} {stage : Stage}

def Stage.isInserting : Stage → Bool
  | .inserting _ => true
  | _ => false

/-- The calls that have found room and have not inserted their sender. -/
def pending (s : State) : Nat := s.calls.countP fun call => call.stage.isInserting

/-- A call passes the size check only if its channel fits in beside those of the others that
have passed it. -/
def Reserved (cfg : Config) (s : State) : Event → Prop
  | .len _ => s.channels.length < cfg.maxChannels → s.channels.length + pending s < cfg.maxChannels
  | .call .. | .get _ | .orInsert _ | .send _ | .attach _ | .drop _ => True

instance : Decidable (Reserved cfg s e) :=
  match e with
  | .len _ => inferInstanceAs (Decidable (s.channels.length < cfg.maxChannels →
      s.channels.length + pending s < cfg.maxChannels))
  | .call .. | .get _ | .orInsert _ | .send _ | .attach _ | .drop _ => .isTrue trivial

/-- The channels and those to come fit in. -/
def Bounded (cfg : Config) (s : State) : Prop := s.channels.length + pending s ≤ cfg.maxChannels

theorem pending_goto (stage : Stage) (ht : s.calls[t]? = some call) :
    pending (s.goto t call stage) + (if call.stage.isInserting then 1 else 0) =
      pending s + if stage.isInserting then 1 else 0 :=
  countP_set_add (fun call : Call => call.stage.isInserting) ht

/-- A call goes on that does not pass the check. -/
theorem bounded_goto (h : Bounded cfg s) (ht : s.calls[t]? = some call)
    (hstage : stage.isInserting = false) : Bounded cfg (s.goto t call stage) := by
  have hcount := pending_goto stage ht
  rw [hstage, if_neg Bool.false_ne_true] at hcount
  change s.channels.length + pending (s.goto t call stage) ≤ cfg.maxChannels
  rw [Bounded] at h
  omega

/-- A sender is built when there is room. -/
theorem room_of_build (ht : s.calls[t]? = some call) (hstage : call.stage = .counting)
    (hs : step cfg s (.len t) = some
      ({ s with nextSender := s.nextSender + 1 }.goto t call (.inserting s.nextSender))) :
    s.channels.length < cfg.maxChannels := by
  by_contra hmax
  simp only [step, ht, if_pos hstage, if_pos (Nat.not_lt.1 hmax)] at hs
  have hnext : s.nextSender = s.nextSender + 1 := congrArg State.nextSender (Option.some.inj hs)
  omega

/-- **Step lemma.** -/
theorem bounded_step (h : Bounded cfg s) (hreserved : Reserved cfg s e)
    (hs : step cfg s e = some s') : Bounded cfg s' := by
  cases Step.of_step hs with
  | call => simpa [Bounded, pending, Stage.isInserting] using h
  | found ht => exact bounded_goto h ht rfl
  | missing ht => exact bounded_goto h ht rfl
  | refuse ht => exact bounded_goto h ht rfl
  | panic ht => exact bounded_goto h ht rfl
  | @build t call ht hstage =>
    have hroom : s.channels.length + pending s < cfg.maxChannels :=
      hreserved (room_of_build ht hstage hs)
    have hcount := pending_goto (s := { s with nextSender := s.nextSender + 1 })
      (.inserting s.nextSender) ht
    rw [hstage] at hcount
    change _ + 0 = pending s + 1 at hcount
    change s.channels.length + _ ≤ cfg.maxChannels
    omega
  | @insert t fresh call ht hstage =>
    have hcount := pending_goto (s := { s with channels := s.channels ++ [(call.name, fresh)] })
      (.found fresh) ht
    rw [hstage] at hcount
    change _ + 1 = pending s + 0 at hcount
    change (s.channels ++ [(call.name, fresh)]).length + _ ≤ cfg.maxChannels
    rw [List.length_append, List.length_singleton]
    rw [Bounded] at h
    omega
  | send ht => exact bounded_goto (s := s.send _ _ _) h ht rfl
  | attach ht => exact bounded_goto (s := s.subscribe _) h ht rfl
  | drop => exact h

end WebSocket

/-! ## both -/

/-- **Registry bounds.**  For every interleaving of any calls in which a call that finds room
finds it for all that are about to insert: neither the table nor the hub outgrows its limit. -/
theorem registries_bounded (shards : Tables.Races.Shards) (maxEntries : Nat)
    (es : List Tables.Races.Event) (w : Tables.Races.State) (cfg : WebSocket.Config)
    (fs : List WebSocket.Event) (s : WebSocket.State)
    (hes : run (Tables.Races.program shards).step (Tables.Races.initial maxEntries) es = some w)
    (hentries : Guarded (Tables.Races.program shards).step (Tables.Races.Reserved shards)
      (Tables.Races.initial maxEntries) es)
    (hfs : run (WebSocket.step cfg) WebSocket.initial fs = some s)
    (hchannels : Guarded (WebSocket.step cfg) (WebSocket.Reserved cfg) WebSocket.initial fs) :
    w.shared.size ≤ maxEntries ∧ s.channels.length ≤ cfg.maxChannels := by
  constructor
  · have hbounded : Tables.Races.Bounded maxEntries w :=
      invariant_of_guarded (fun _ _ _ => Tables.Races.bounded_step) ⟨rfl, Nat.zero_le _⟩
        hentries hes
    exact Nat.le_trans (Nat.le_add_right ..) hbounded.fits
  · have hbounded : WebSocket.Bounded cfg s :=
      invariant_of_guarded (fun _ _ _ => WebSocket.bounded_step) (Nat.zero_le _) hchannels hfs
    exact Nat.le_trans (Nat.le_add_right ..) hbounded

/-- Two calls of `set`, the second of which comes when the first has returned. -/
def setsApart : List Tables.Races.Event :=
  [.call (.set "a" [] none), .advance 0, .advance 0, .advance 0, .advance 0, .advance 0,
    .call (.set "b" [] none), .advance 1, .advance 1, .advance 1, .advance 1]

def subscribesApart : List WebSocket.Event :=
  [.call "a" .subscribe, .get 0, .len 0, .orInsert 0, .call "b" .subscribe, .get 1, .len 1]

theorem registries_bounded_apart :
    ∃ w s, run (Tables.Races.program Tables.Races.oneShard).step (Tables.Races.initial 1)
        setsApart = some w ∧
      run (WebSocket.step ⟨1, 16⟩) WebSocket.initial subscribesApart = some s ∧
      w.shared.size ≤ 1 ∧ s.channels.length ≤ 1 :=
  ⟨_, _, rfl, rfl, registries_bounded Tables.Races.oneShard 1 setsApart _ ⟨1, 16⟩ subscribesApart _
    rfl (by decide) rfl (by decide)⟩

/-- Two calls of `set` that both find room before either inserts. -/
def setsTogether : List Tables.Races.Event :=
  [.call (.set "a" [] none), .call (.set "b" [] none), .advance 0, .advance 0, .advance 0,
    .advance 0, .advance 1, .advance 1, .advance 1, .advance 1, .advance 0, .advance 1]

def subscribesTogether : List WebSocket.Event :=
  [.call "a" .subscribe, .call "b" .subscribe, .get 0, .len 0, .get 1, .len 1, .orInsert 0,
    .orInsert 1]

/-- Two entries where there is room for one. -/
theorem registries_overrun :
    (∃ w, run (Tables.Races.program Tables.Races.oneShard).step (Tables.Races.initial 1)
        setsTogether = some w ∧ w.shared.size = 2) ∧
      ∃ s, run (WebSocket.step ⟨1, 16⟩) WebSocket.initial subscribesTogether = some s ∧
        s.channels.length = 2 := ⟨⟨_, rfl, rfl⟩, ⟨_, rfl, rfl⟩⟩

end Turbine
