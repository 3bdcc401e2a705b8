import Mathlib.Data.List.AList
import Turbine.Base.Bytes
import Turbine.Base.Runs

/-!
# Turbine.Tables.Shared

The counters of the shared table (crates/turbine-core/src/shared_table.rs), under
concurrent `incr` calls.  A call takes one lock for the entry it finds, and
otherwise one to count the entries and one more to insert its own, so a run of
`Event`s is one interleaving of any number of calls for any keys.

* `counts_step`: as long as no insertion replaces a counter, the calls that have
  returned did so one after the other;
* `increments_linearized`: hence the whole run is as good as a sequential one.
-/

namespace Turbine.Tables

open Base

/-! ## the table -/

/-- `Entry`.  Moments are numbers. -/
structure Entry where
  value : Bytes
  expiresAt : Option Nat
deriving DecidableEq, Repr

/-- `Entry::is_expired`. -/
def Entry.isExpired (entry : Entry) (now : Nat) : Bool :=
  match entry.expiresAt with
  | some deadline => deadline ≤ now
  | none => false

inductive TableError
  | full (maxEntries : Nat)
  | notACounter (key : String)
deriving DecidableEq, Repr

/-- `SharedTable`. -/
structure SharedTable where
  map : AList fun _ : String => Entry
  maxEntries : Nat

/-- `i64::to_le_bytes`. -/
def toLeBytes (x : Int64) : Bytes := leBytes 8 x.toBitVec.toNat

/-- `i64::from_le_bytes`. -/
def fromLeBytes (bytes : Bytes) : Int64 := Int64.ofBitVec (BitVec.ofNat 64 (leValue bytes))

@[simp] theorem length_toLeBytes (x : Int64) : (toLeBytes x).length = 8 := length_leBytes 8 _

/-- A counter is read as it was written. -/
@[simp] theorem fromLeBytes_toLeBytes (x : Int64) : fromLeBytes (toLeBytes x) = x := by
  have hwidth : x.toBitVec.toNat < 256 ^ 8 := x.toBitVec.isLt
  have hvalue : leValue (toLeBytes x) = x.toBitVec.toNat := by
    rw [toLeBytes, leValue_leBytes, Nat.mod_eq_of_lt hwidth]
  rw [fromLeBytes, hvalue, BitVec.ofNat_toNat, BitVec.setWidth_eq, Int64.ofBitVec_toBitVec]

/-- Store an entry. -/
def SharedTable.store (table : SharedTable) (key : String) (entry : Entry) : SharedTable :=
  { table with map := table.map.insert key entry }

/-- The `get_mut` block of `SharedTable::incr`; `none` if the key is absent. -/
def SharedTable.incrExisting (table : SharedTable) (key : String) (delta : Int64) (now : Nat) :
    Option (SharedTable × Except TableError Int64) :=
  (table.map.lookup key).map fun entry =>
    if entry.isExpired now then (table.store key ⟨toLeBytes delta, none⟩, .ok delta)
    else if entry.value.length ≠ 8 then (table, .error (.notACounter key))
    else
      let new := fromLeBytes entry.value + delta
      (table.store key { entry with value := toLeBytes new }, .ok new)

/-! ## concurrent calls -/

/-- Where a call of `incr` stands. -/
inductive Phase
  | looking
  | counting
  | inserting
  | returned (result : Except TableError Int64)

/-- A call of `incr`, with the time it read first. -/
structure Call where
  key : String
  delta : Int64
  now : Nat
  phase : Phase

structure State where
  table : SharedTable
  calls : List Call := []

/-- The accesses to the map. -/
inductive Event
  | call (key : String) (delta : Int64) (now : Nat)
  | getMut (t : Nat)
  | len (t : Nat)
  | insert (t : Nat)
deriving DecidableEq, Repr

/-- Call `t` goes on to `phase`, leaving the table as `table`. -/
def State.goto (s : State) (t : Nat) (c : Call) (table : SharedTable) (phase : Phase) : State :=
  ⟨table, s.calls.set t { c with phase := phase }⟩

/-- `SharedTable::incr`, access by access. -/
def step (s : State) : Event → Option State
  | .call key delta now => some { s with calls := s.calls ++ [⟨key, delta, now, .looking⟩] }
  | .getMut t =>
    match s.calls[t]? with
    | some ⟨key, delta, now, .looking⟩ =>
      match s.table.incrExisting key delta now with
      | some (table, result) => some (s.goto t ⟨key, delta, now, .looking⟩ table (.returned result))
      | none => some (s.goto t ⟨key, delta, now, .looking⟩ s.table .counting)
    | _ => none
  | .len t =>
    match s.calls[t]? with
    | some ⟨key, delta, now, .counting⟩ =>
      if s.table.maxEntries ≤ s.table.map.entries.length then
        some (s.goto t ⟨key, delta, now, .counting⟩ s.table
          (.returned (.error (.full s.table.maxEntries))))
      else some (s.goto t ⟨key, delta, now, .counting⟩ s.table .inserting)
    | _ => none
  | .insert t =>
    match s.calls[t]? with
    | some ⟨key, delta, now, .inserting⟩ =>
      some (s.goto t ⟨key, delta, now, .inserting⟩ (s.table.store key ⟨toLeBytes delta, none⟩)
        (.returned (.ok delta)))
    | _ => none

/-- One access, by branch. -/
inductive Step (s : State) : Event → State → Prop
  | call {key : String} {delta : Int64} {now : Nat} :
      Step s (.call key delta now) { s with calls := s.calls ++ [⟨key, delta, now, .looking⟩] }
  | hit {t : Nat} {c : Call} {table : SharedTable} {result : Except TableError Int64}
      (ht : s.calls[t]? = some c) (hc : c.phase = .looking)
      (hentry : s.table.incrExisting c.key c.delta c.now = some (table, result)) :
      Step s (.getMut t) (s.goto t c table (.returned result))
  | miss {t : Nat} {c : Call} (ht : s.calls[t]? = some c) (hc : c.phase = .looking) :
      Step s (.getMut t) (s.goto t c s.table .counting)
  | full {t : Nat} {c : Call} (ht : s.calls[t]? = some c) (hc : c.phase = .counting) :
      Step s (.len t) (s.goto t c s.table (.returned (.error (.full s.table.maxEntries))))
  | room {t : Nat} {c : Call} (ht : s.calls[t]? = some c) (hc : c.phase = .counting) :
      Step s (.len t) (s.goto t c s.table .inserting)
  | insert {t : Nat} {c : Call} (ht : s.calls[t]? = some c) (hc : c.phase = .inserting) :
      Step s (.insert t)
        (s.goto t c (s.table.store c.key ⟨toLeBytes c.delta, none⟩) (.returned (.ok c.delta)))

variable {s s' : State} {e : Event} {t u : Nat} {c : Call} {key k : String}

/-- **Inversion.** -/
theorem Step.of_step (h : step s e = some s') : Step s e s' := by
  cases e with
  | call key delta now =>
    obtain rfl := Option.some.inj h
    exact .call
  | getMut t =>
    simp only [step] at h
    split at h
    case h_1 key delta now ht =>
      split at h <;> obtain rfl := Option.some.inj h
      case h_1 table result hentry => exact .hit ht rfl hentry
      case h_2 => exact .miss ht rfl
    case h_2 => cases h
  | len t =>
    simp only [step] at h
    split at h
    case h_1 key delta now ht =>
      split at h <;> obtain rfl := Option.some.inj h
      · exact .full ht rfl
      · exact .room ht rfl
    case h_2 => cases h
  | insert t =>
    simp only [step] at h
    split at h
    case h_1 key delta now ht =>
      obtain rfl := Option.some.inj h
      exact .insert ht rfl
    case h_2 => cases h

/-! ## calls one after the other -/

/-- What calls with these deltas return one after the other, on a counter that stands at
`total`. -/
def sequential (total : Int64) : List Int64 → List Int64
  | [] => []
  | delta :: deltas => (total + delta) :: sequential (total + delta) deltas

theorem sequential_concat (total : Int64) (deltas : List Int64) (delta : Int64) :
    sequential total (deltas ++ [delta]) =
      sequential total deltas ++ [deltas.foldl (· + ·) total + delta] := by
  induction deltas generalizing total with
  | nil => rfl
  | cons d deltas ih => simp [sequential, ih]

/-- A call that succeeded: its number, its delta and what it returned. -/
structure Commit where
  call : Nat
  delta : Int64
  result : Int64
deriving DecidableEq, Repr

/-- The wrapping sum of the deltas. -/
def total (order : List Commit) : Int64 := (order.map Commit.delta).foldl (· + ·) 0

/-- The call has succeeded on `key`. -/
def Call.commit? (key : String) (t : Nat) (c : Call) : Option Commit :=
  if c.key = key then
    match c.phase with
    | .returned (.ok value) => some ⟨t, c.delta, value⟩
    | _ => none
  else none

def State.commitAt (s : State) (key : String) (t : Nat) : Option Commit :=
  s.calls[t]?.bind (Call.commit? key t)

/-- The calls that have succeeded on `key` did so in this order, one after the other, and
the table has their sum. -/
structure State.Counts (key : String) (s : State) (order : List Commit) : Prop where
  distinct : (order.map Commit.call).Nodup
  calls : ∀ o, o ∈ order ↔ s.commitAt key o.call = some o
  results : order.map Commit.result = sequential 0 (order.map Commit.delta)
  stored : s.table.map.lookup key =
    if order = [] then none else some ⟨toLeBytes (total order), none⟩

/-- What the step commits. -/
def committed (key : String) (s : State) : Event → List Commit
  | .call .. => []
  | .getMut t => ((step s (.getMut t)).bind (State.commitAt · key t)).toList
  | .len t => ((step s (.len t)).bind (State.commitAt · key t)).toList
  | .insert t => ((step s (.insert t)).bind (State.commitAt · key t)).toList

/-- An insertion finds the key still absent. -/
def InsertsFresh (key : String) (s : State) : Event → Prop
  | .insert t => ∀ c ∈ s.calls[t]?, c.key = key → s.table.map.lookup key = none
  | _ => True

instance : Decidable (InsertsFresh key s e) :=
  match e with
  | .insert t =>
    inferInstanceAs (Decidable (∀ c ∈ s.calls[t]?, c.key = key → s.table.map.lookup key = none))
  | .call .. | .getMut _ | .len _ => .isTrue trivial

theorem lookup_store (table : SharedTable) (entry : Entry) :
    (table.store key entry).map.lookup k = if k = key then some entry else table.map.lookup k := by
  by_cases hk : k = key
  · subst hk
    simp [SharedTable.store]
  · simp [SharedTable.store, hk]

@[simp] theorem goto_table {table : SharedTable} {phase : Phase} :
    (s.goto t c table phase).table = table := rfl

theorem commitAt_goto {table : SharedTable} {phase : Phase} (ht : s.calls[t]? = some c) :
    (s.goto t c table phase).commitAt key u =
      if t = u then Call.commit? key t { c with phase := phase } else s.commitAt key u := by
  obtain ⟨hlt, -⟩ := List.getElem?_eq_some_iff.1 ht
  by_cases htu : t = u
  · subst htu
    simp [State.commitAt, State.goto, hlt]
  · simp [State.commitAt, State.goto, htu]

theorem commit?_eq_some {o : Commit} (h : Call.commit? key t c = some o) :
    c.key = key ∧ c.delta = o.delta ∧ c.phase = .returned (.ok o.result) := by
  unfold Call.commit? at h
  split at h
  case isTrue hkey =>
    split at h
    case h_1 value hphase =>
      obtain ⟨⟩ := o
      cases h
      exact ⟨hkey, rfl, hphase⟩
    case h_2 => cases h
  case isFalse => cases h

theorem total_concat (order : List Commit) (o : Commit) :
    total (order ++ [o]) = total order + o.delta := by
  simp [total]

section Steps

variable {order : List Commit} {table : SharedTable} {phase : Phase}

/-- A call moves on without success on the key. -/
theorem counts_quiet (h : s.Counts key order) (ht : s.calls[t]? = some c)
    (hold : Call.commit? key t c = none)
    (hnew : Call.commit? key t { c with phase := phase } = none)
    (htable : table.map.lookup key = s.table.map.lookup key) :
    (s.goto t c table phase).Counts key order := by
  have hcommits : ∀ u, (s.goto t c table phase).commitAt key u = s.commitAt key u := by
    intro u
    rw [commitAt_goto ht]
    split
    case isTrue htu => rw [hnew, ← htu, State.commitAt, ht, Option.bind_some, hold]
    case isFalse => rfl
  refine ⟨h.distinct, fun o => ?_, h.results, ?_⟩
  · rw [hcommits]
    exact h.calls o
  · rw [← h.stored]
    exact htable

/-- A call succeeds, with the sum up to its own delta. -/
theorem counts_commit {value : Int64} (h : s.Counts key order) (ht : s.calls[t]? = some c)
    (hold : Call.commit? key t c = none) (hkey : c.key = key)
    (hvalue : value = total order + c.delta)
    (htable : table.map.lookup key = some ⟨toLeBytes value, none⟩) :
    (s.goto t c table (.returned (.ok value))).Counts key (order ++ [⟨t, c.delta, value⟩]) := by
  have hnew : Call.commit? key t { c with phase := .returned (.ok value) } =
      some ⟨t, c.delta, value⟩ := by
    simp [Call.commit?, hkey]
  have hnone : s.commitAt key t = none := by simp [State.commitAt, ht, hold]
  have hfresh : ∀ o ∈ order, o.call ≠ t := by
    rintro o ho rfl
    have hcommit := (h.calls o).1 ho
    rw [hnone] at hcommit
    cases hcommit
  constructor
  case distinct =>
    rw [List.map_append, List.nodup_append]
    refine ⟨h.distinct, by simp, fun u hu v hv => ?_⟩
    obtain ⟨o, ho, rfl⟩ := List.mem_map.1 hu
    obtain rfl : v = t := by simpa using hv
    exact hfresh o ho
  case calls =>
    intro o
    rw [commitAt_goto ht, hnew, List.mem_append, List.mem_singleton, h.calls o]
    split
    case isTrue hto =>
      rw [← hto, hnone]
      simp [eq_comm]
    case isFalse hto =>
      constructor
      · rintro (ho | rfl)
        · exact ho
        · exact absurd rfl hto
      · exact .inl
  case results =>
    have hlast : (order.map Commit.delta).foldl (· + ·) 0 + c.delta = value := hvalue.symm
    simp only [List.map_append, List.map_cons, List.map_nil, sequential_concat, h.results, hlast]
  case stored =>
    have hsum : total (order ++ [⟨t, c.delta, value⟩]) = value := by rw [total_concat, hvalue]
    rw [hsum]
    simpa using htable

theorem commit?_of_unreturned (hphase : ∀ result, c.phase ≠ .returned result) :
    Call.commit? key t c = none := by
  unfold Call.commit?
  split
  · split
    case h_1 hreturned => exact absurd hreturned (hphase _)
    case h_2 => rfl
  · rfl

/-- The entry of a counter is neither expired nor anything but a counter. -/
theorem counts_hit (h : s.Counts key order) {result : Except TableError Int64} (hkey : c.key = key)
    (hentry : s.table.incrExisting c.key c.delta c.now = some (table, result)) :
    result = .ok (total order + c.delta) ∧
      table.map.lookup key = some ⟨toLeBytes (total order + c.delta), none⟩ := by
  have hstored := h.stored
  rw [SharedTable.incrExisting, hkey, hstored] at hentry
  split at hentry
  · cases hentry
  · simp only [Entry.isExpired, length_toLeBytes, fromLeBytes_toLeBytes, Option.map_some,
      Option.some.injEq, Prod.mk.injEq, Bool.false_eq_true, if_false, ne_eq, not_true_eq_false]
      at hentry
    obtain ⟨rfl, rfl⟩ := hentry
    exact ⟨rfl, by rw [lookup_store, if_pos rfl]⟩

theorem lookup_incrExisting {result : Except TableError Int64} {delta : Int64} {now : Nat}
    (hne : k ≠ key) (hentry : s.table.incrExisting k delta now = some (table, result)) :
    table.map.lookup key = s.table.map.lookup key := by
  unfold SharedTable.incrExisting at hentry
  obtain ⟨entry, -, hentry⟩ := Option.map_eq_some_iff.1 hentry
  split at hentry
  · obtain ⟨rfl, -⟩ := Prod.mk.inj hentry
    rw [lookup_store, if_neg hne.symm]
  · split at hentry
    · obtain ⟨rfl, -⟩ := Prod.mk.inj hentry
      rfl
    · obtain ⟨rfl, -⟩ := Prod.mk.inj hentry
      rw [lookup_store, if_neg hne.symm]

/-- A call that moves on commits what it has succeeded with then. -/
theorem committed_goto (ht : s.calls[t]? = some c) (he : e = .getMut t ∨ e = .len t ∨ e = .insert t)
    (hs : step s e = some (s.goto t c table phase)) :
    committed key s e = (Call.commit? key t { c with phase := phase }).toList := by
  obtain rfl | rfl | rfl := he <;>
    rw [committed, hs, Option.bind_some, commitAt_goto ht, if_pos rfl]

end Steps

/-- **Step lemma.**  An access that replaces no counter keeps the calls in order. -/
theorem counts_step {order : List Commit} (h : s.Counts key order) (hfresh : InsertsFresh key s e)
    (hs : step s e = some s') : s'.Counts key (order ++ committed key s e) := by
  have hother : ∀ {t : Nat} {c : Call} (phase : Phase), c.key ≠ key →
      Call.commit? key t { c with phase := phase } = none := by
    intro t c phase hkey
    simp [Call.commit?, hkey]
  cases Step.of_step hs with
  | @call k delta now =>
    have hcommits : ∀ u, State.commitAt { s with calls := s.calls ++ [⟨k, delta, now, .looking⟩] }
        key u = s.commitAt key u := by
      intro u
      obtain hlt | rfl | hgt := Nat.lt_trichotomy u s.calls.length
      · simp [State.commitAt, List.getElem?_append_left hlt]
      · simp [State.commitAt, Call.commit?]
      · have hlen : (s.calls ++ [(⟨k, delta, now, .looking⟩ : Call)]).length ≤ u := by
          rw [List.length_append, List.length_singleton]
          omega
        simp [State.commitAt, List.getElem?_eq_none hlen, List.getElem?_eq_none (Nat.le_of_lt hgt)]
    rw [committed, List.append_nil]
    refine ⟨h.distinct, fun o => ?_, h.results, h.stored⟩
    rw [hcommits]
    exact h.calls o
  | @hit t c table result ht hc hentry =>
    have hold : Call.commit? key t c = none := commit?_of_unreturned (by simp [hc])
    rw [committed_goto ht (.inl rfl) hs]
    by_cases hkey : c.key = key
    · obtain ⟨rfl, htable⟩ := counts_hit h hkey hentry
      simpa [Call.commit?, hkey] using counts_commit h ht hold hkey rfl htable
    · rw [hother _ hkey, Option.toList_none, List.append_nil]
      exact counts_quiet h ht hold (hother _ hkey) (lookup_incrExisting hkey hentry)
  | @miss t c ht hc =>
    have hnew : Call.commit? key t { c with phase := .counting } = none :=
      commit?_of_unreturned (by simp)
    rw [committed_goto ht (.inl rfl) hs, hnew, Option.toList_none, List.append_nil]
    exact counts_quiet h ht (commit?_of_unreturned (by simp [hc])) hnew rfl
  | @full t c ht hc =>
    have hnew : Call.commit? key t
        { c with phase := .returned (.error (.full s.table.maxEntries)) } = none := by
      simp [Call.commit?]
    rw [committed_goto ht (.inr (.inl rfl)) hs, hnew, Option.toList_none, List.append_nil]
    exact counts_quiet h ht (commit?_of_unreturned (by simp [hc])) hnew rfl
  | @room t c ht hc =>
    have hnew : Call.commit? key t { c with phase := .inserting } = none :=
      commit?_of_unreturned (by simp)
    rw [committed_goto ht (.inr (.inl rfl)) hs, hnew, Option.toList_none, List.append_nil]
    exact counts_quiet h ht (commit?_of_unreturned (by simp [hc])) hnew rfl
  | @insert t c ht hc =>
    have hold : Call.commit? key t c = none := commit?_of_unreturned (by simp [hc])
    rw [committed_goto ht (.inr (.inr rfl)) hs]
    by_cases hkey : c.key = key
    · -- the key is absent, so this is the first call that succeeds
      have habsent : s.table.map.lookup key = none := hfresh c ht hkey
      have hfirst : order = [] := by
        by_contra hne
        rw [h.stored, if_neg hne] at habsent
        cases habsent
      have hvalue : c.delta = total order + c.delta := by simp [hfirst, total]
      have htable : (s.table.store c.key ⟨toLeBytes c.delta, none⟩).map.lookup key =
          some ⟨toLeBytes c.delta, none⟩ := by
        rw [hkey, lookup_store, if_pos rfl]
      simpa [Call.commit?, hkey] using counts_commit h ht hold hkey hvalue htable
    · rw [hother _ hkey, Option.toList_none, List.append_nil]
      refine counts_quiet h ht hold (hother _ hkey) ?_
      rw [lookup_store, if_neg (Ne.symm hkey)]

/-- There is an order of all calls for the key in which each returned the sum of the deltas
up to its own, and the table has the sum of them all. -/
structure State.Linearized (key : String) (s : State) (order : List Commit) : Prop where
  distinct : (order.map Commit.call).Nodup
  calls : ∀ t c, s.calls[t]? = some c → c.key = key →
    ∃ value, c.phase = .returned (.ok value) ∧ ⟨t, c.delta, value⟩ ∈ order
  ordered : ∀ o ∈ order, ∃ c, s.calls[o.call]? = some c ∧ c.key = key ∧ c.delta = o.delta ∧
    c.phase = .returned (.ok o.result)
  results : order.map Commit.result = sequential 0 (order.map Commit.delta)
  stored : order ≠ [] → s.table.map.lookup key = some ⟨toLeBytes (total order), none⟩

/-- **Atomic increments.**  For every table without the key, and every interleaving of
calls in which no insertion for it finds it there: if all calls for the key return
`Ok`, they are as good as one after the other. -/
theorem increments_linearized (key : String) (table : SharedTable) (es : List Event) (s : State)
    (habsent : table.map.lookup key = none) (hrun : run step ⟨table, []⟩ es = some s)
    (hfresh : Guarded step (InsertsFresh key) ⟨table, []⟩ es)
    (hok : ∀ c ∈ s.calls, c.key = key → ∃ value, c.phase = .returned (.ok value)) :
    ∃ order, s.Linearized key order := by
  have hstart : State.Counts key ⟨table, []⟩ [] := by
    refine ⟨List.nodup_nil, fun o => ?_, rfl, habsent⟩
    simp [State.commitAt]
  have hcounts : s.Counts key (trace step (committed key) ⟨table, []⟩ es) :=
    invariant_of_guarded_trace (I := fun s order => s.Counts key order)
      (fun _ _ _ _ h hG hs => counts_step h hG hs) hstart hfresh hrun
  refine ⟨_, hcounts.distinct, fun t c ht hkey => ?_, fun o ho => ?_, hcounts.results, fun hne => ?_⟩
  · obtain ⟨value, hphase⟩ := hok c (List.mem_of_getElem? ht) hkey
    refine ⟨value, hphase, (hcounts.calls _).2 ?_⟩
    simp [State.commitAt, ht, Call.commit?, hkey, hphase]
  · have hcommit := (hcounts.calls o).1 ho
    obtain ⟨c, ht, hc⟩ := Option.bind_eq_some_iff.1 hcommit
    exact ⟨c, ht, commit?_eq_some hc⟩
  · rw [hcounts.stored, if_neg hne]

/-- A table with room for ten entries. -/
def emptyTable : SharedTable := ⟨∅, 10⟩

/-- The first call is over before the second begins. -/
def apart : List Event := [.call "n" 1 0, .getMut 0, .len 0, .insert 0, .call "n" 2 0, .getMut 1]

theorem increments_linearized_apart :
    ∃ s, run step ⟨emptyTable, []⟩ apart = some s ∧
      s.calls.map Call.phase = [.returned (.ok 1), .returned (.ok 3)] ∧
      ∃ order, s.Linearized "n" order := by
  have hrun : ((run step ⟨emptyTable, []⟩ apart).map fun s => s.calls) =
      some [⟨"n", 1, 0, .returned (.ok 1)⟩, ⟨"n", 2, 0, .returned (.ok 3)⟩] := rfl
  obtain ⟨s, hs, hcalls⟩ := Option.map_eq_some_iff.1 hrun
  refine ⟨s, hs, by simp [hcalls], increments_linearized "n" emptyTable apart s rfl hs (by decide) ?_⟩
  simp [hcalls]

/-- Two first calls, neither of which finds the other's entry. -/
def together : List Event :=
  [.call "n" 1 0, .call "n" 1 0, .getMut 0, .getMut 1, .len 0, .len 1, .insert 0, .insert 1]

/-- Both return one, and one is what the counter stands at. -/
theorem increment_lost :
    ∃ s, run step ⟨emptyTable, []⟩ together = some s ∧
      s.calls = [⟨"n", 1, 0, .returned (.ok 1)⟩, ⟨"n", 1, 0, .returned (.ok 1)⟩] ∧
      s.table.map.lookup "n" = some ⟨toLeBytes 1, none⟩ ∧
      ¬ ∃ order, s.Linearized "n" order := by
  have hrun : ((run step ⟨emptyTable, []⟩ together).map fun s => (s.calls, s.table.map.lookup "n")) =
      some ([⟨"n", 1, 0, .returned (.ok 1)⟩, ⟨"n", 1, 0, .returned (.ok 1)⟩],
        some ⟨toLeBytes 1, none⟩) := rfl
  obtain ⟨s, hs, hstate⟩ := Option.map_eq_some_iff.1 hrun
  obtain ⟨hcalls, hstored⟩ := Prod.mk.inj hstate
  refine ⟨s, hs, hcalls, hstored, ?_⟩
  rintro ⟨order, hlin⟩
  have hones : ∀ o ∈ order, o.delta = 1 ∧ o.result = 1 := by
    intro o ho
    obtain ⟨c, ht, -, hdelta, hphase⟩ := hlin.ordered o ho
    have hmem := List.mem_of_getElem? ht
    rw [hcalls] at hmem
    obtain rfl : c = ⟨"n", 1, 0, .returned (.ok 1)⟩ := by simpa using hmem
    exact ⟨hdelta.symm, by simpa using hphase.symm⟩
  obtain ⟨value, -, hfirst⟩ := hlin.calls 0 _ (by rw [hcalls]; rfl) rfl
  obtain ⟨value', -, hsecond⟩ := hlin.calls 1 _ (by rw [hcalls]; rfl) rfl
  -- so the second call in the order would have returned two
  have hresults := hlin.results
  match order with
  | [] => cases hfirst
  | [o] =>
    rw [List.mem_singleton] at hfirst hsecond
    rw [← hsecond] at hfirst
    cases hfirst
  | a :: b :: order =>
    obtain ⟨ha, -⟩ := hones a (by simp)
    obtain ⟨hb, hb'⟩ := hones b (by simp)
    simp only [List.map_cons, sequential, ha, hb, hb', List.cons.injEq] at hresults
    exact absurd hresults.2.1 (by decide)

end Turbine.Tables
