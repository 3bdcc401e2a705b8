import Turbine.Base.TtlMap
import Turbine.Tables.Shared

/-!
# Turbine.Tables.Expiry

The operations of the shared table, each when nobody comes in between, over whole
histories of calls at times that never go back.  An entry that is past its deadline
stays in the table until somebody happens to remove it; the table is a map with
deadlines all the same.

* `agree_apply`: as long as there is room, every operation does to the table what it
  does to the map, and returns the same;
* `pruned_apply`: it makes no difference whether entries past their deadline have been
  removed before.
-/

namespace Turbine.Tables

open Base

/-! ## operations -/

/-- `DashMap::len`. -/
def SharedTable.size (table : SharedTable) : Nat := table.map.entries.length

/-- `DashMap::remove`. -/
def SharedTable.remove (table : SharedTable) (key : String) : SharedTable :=
  { table with map := table.map.erase key }

/-- `DashMap::retain`. -/
def SharedTable.retain (table : SharedTable) (keep : String → Entry → Bool) : SharedTable :=
  { table with map :=
      ⟨table.map.entries.filter fun e => keep e.1 e.2,
        table.map.nodupKeys.sublist List.filter_sublist⟩ }

/-- `SharedTable::set`. -/
def SharedTable.set (table : SharedTable) (key : String) (value : Bytes) (ttl : Option Nat)
    (now : Nat) : SharedTable × Except TableError Unit :=
  let deadline := ttl.map (now + ·)
  if (table.map.lookup key).isSome then (table.store key ⟨value, deadline⟩, .ok ())
  else if table.maxEntries ≤ table.size then (table, .error (.full table.maxEntries))
  else (table.store key ⟨value, deadline⟩, .ok ())

/-- `SharedTable::get`. -/
def SharedTable.get (table : SharedTable) (key : String) (now : Nat) : SharedTable × Option Bytes :=
  match table.map.lookup key with
  | none => (table, none)
  | some entry =>
    if !entry.isExpired now then (table, some entry.value) else (table.remove key, none)

/-- `SharedTable::del`. -/
def SharedTable.del (table : SharedTable) (key : String) (now : Nat) : SharedTable × Bool :=
  match table.map.lookup key with
  | some entry => (table.remove key, !entry.isExpired now)
  | none => (table, false)

/-- `SharedTable::exists`. -/
def SharedTable.existsKey (table : SharedTable) (key : String) (now : Nat) : SharedTable × Bool :=
  ((table.get key now).1, (table.get key now).2.isSome)

/-- `SharedTable::incr`. -/
def SharedTable.incr (table : SharedTable) (key : String) (delta : Int64) (now : Nat) :
    SharedTable × Except TableError Int64 :=
  match table.incrExisting key delta now with
  | some outcome => outcome
  | none =>
    if table.maxEntries ≤ table.size then (table, .error (.full table.maxEntries))
    else (table.store key ⟨toLeBytes delta, none⟩, .ok delta)

/-- `SharedTable::clear`. -/
def SharedTable.clear (table : SharedTable) : SharedTable × Nat :=
  ({ table with map := ∅ }, table.size)

/-- `SharedTable::sweep_expired`. -/
def SharedTable.sweepExpired (table : SharedTable) (now : Nat) : SharedTable × Nat :=
  (table.retain fun _ entry => !entry.isExpired now,
    table.map.entries.countP fun e => e.2.isExpired now)

/-! ## histories -/

namespace Expiry

inductive Op
  | set (key : String) (value : Bytes) (ttl : Option Nat)
  | get (key : String)
  | existsKey (key : String)
  | del (key : String)
  | incr (key : String) (delta : Int64)
  | clear
  | sweepExpired
deriving DecidableEq

/-- What `set`, `get`, `exists`, `del` and `incr` return. -/
inductive Reply
  | set (result : Except TableError Unit)
  | get (value : Option Bytes)
  | existsKey (found : Bool)
  | del (found : Bool)
  | incr (result : Except TableError Int64)

/-- A call, and when it is made. -/
structure Event where
  now : Nat
  op : Op
deriving DecidableEq

structure State where
  table : SharedTable
  clock : Nat := 0

/-- What a call does and returns; the numbers that `clear` and `sweep_expired` return are left
out. -/
def Op.apply (table : SharedTable) (now : Nat) : Op → SharedTable × Option Reply
  | .set key value ttl => (table.set key value ttl now).map id (some ∘ .set)
  | .get key => (table.get key now).map id (some ∘ .get)
  | .existsKey key => (table.existsKey key now).map id (some ∘ .existsKey)
  | .del key => (table.del key now).map id (some ∘ .del)
  | .incr key delta => (table.incr key delta now).map id (some ∘ .incr)
  | .clear => (table.clear.1, none)
  | .sweepExpired => ((table.sweepExpired now).1, none)

/-- One call; time does not go back. -/
def step (s : State) (e : Event) : Option State :=
  if s.clock ≤ e.now then some ⟨(e.op.apply s.table e.now).1, e.now⟩ else none

/-- What it returns. -/
def reply (s : State) (e : Event) : List Reply := (e.op.apply s.table e.now).2.toList

/-- `SharedTable::new`. -/
def initial (maxEntries : Nat) : State := { table := ⟨∅, maxEntries⟩ }

/-! ## the specification -/

/-- The operations on a plain map with deadlines. -/
def Op.spec (m : TtlMap String Bytes) (now : Nat) : Op → TtlMap String Bytes × Option Reply
  | .set key value ttl => (m.put key (some ⟨value, ttl.map (now + ·)⟩), some (.set (.ok ())))
  | .get key => (m, some (.get ((m.visible now key).map Timed.value)))
  | .existsKey key => (m, some (.existsKey (m.visible now key).isSome))
  | .del key => (m.put key none, some (.del (m.visible now key).isSome))
  | .incr key delta =>
    match m.visible now key with
    | none => (m.put key (some ⟨toLeBytes delta, none⟩), some (.incr (.ok delta)))
    | some x =>
      if x.value.length ≠ 8 then (m, some (.incr (.error (.notACounter key))))
      else
        let new := fromLeBytes x.value + delta
        (m.put key (some { x with value := toLeBytes new }), some (.incr (.ok new)))
  | .clear => (fun _ => none, none)
  | .sweepExpired => (m, none)

/-- What the calls return, one after the other. -/
def specReplies : TtlMap String Bytes → List Event → List Reply
  | _, [] => []
  | m, e :: es => (e.op.spec m e.now).2.toList ++ specReplies (e.op.spec m e.now).1 es

end Expiry

/-! ## the map a table stands for -/

def Entry.timed (entry : Entry) : Timed Bytes := ⟨entry.value, entry.expiresAt⟩

def SharedTable.view (table : SharedTable) : TtlMap String Bytes :=
  fun key => (table.map.lookup key).map Entry.timed

namespace Expiry

variable {table table' : SharedTable} {key k : String} {entry : Entry} {now after : Nat} {op : Op}
  {m : TtlMap String Bytes}

theorem live_timed : entry.timed.live now = !entry.isExpired now := by
  rw [Timed.live, Entry.isExpired, Entry.timed]
  cases entry.expiresAt with
  | none => rfl
  | some deadline =>
    dsimp only
    rw [← decide_not]
    simp only [Nat.not_le]

/-- The entry, as long as it has not expired. -/
def fresh (now : Nat) (cell : Option Entry) : Option Entry :=
  cell.filter fun entry => !entry.isExpired now

theorem map_fresh (cell : Option Entry) :
    (fresh now cell).map Entry.timed = (cell.map Entry.timed).filter (Timed.live now) := by
  cases cell with
  | none => rfl
  | some entry => cases h : entry.isExpired now <;> simp [fresh, Option.filter, live_timed, h]

theorem fresh_fresh (cell : Option Entry) : fresh now (fresh now cell) = fresh now cell := by
  simp [fresh, Option.filter_filter]

/-- A table shows the entries that have not expired. -/
theorem visible_view :
    table.view.visible now k = (fresh now (table.map.lookup k)).map Entry.timed :=
  (map_fresh _).symm

theorem lookup_remove :
    (table.remove key).map.lookup k = if k = key then none else table.map.lookup k := by
  rw [SharedTable.remove]
  split
  case isTrue hk => rw [hk, AList.lookup_erase]
  case isFalse hk => rw [AList.lookup_erase_ne hk]

theorem lookup_retain {keep : String → Entry → Bool} :
    (table.retain keep).map.lookup k = (table.map.lookup k).filter (keep k) := by
  refine Option.ext fun entry => ?_
  rw [← Option.mem_def, AList.mem_lookup_iff, Option.filter_eq_some_iff, ← Option.mem_def,
    AList.mem_lookup_iff]
  exact List.mem_filter

/-! ## what an operation does to each key -/

/-- What `incr` leaves of the key. -/
def incrCell (delta : Int64) (now : Nat) (cell : Option Entry) : Option Entry :=
  match fresh now cell with
  | none => some ⟨toLeBytes delta, none⟩
  | some entry =>
    if entry.value.length ≠ 8 then some entry
    else some { entry with value := toLeBytes (fromLeBytes entry.value + delta) }

theorem incrCell_of_some {delta : Int64} {cell : Option Entry} (h : fresh now cell = some entry) :
    incrCell delta now cell =
      if entry.value.length ≠ 8 then some entry
      else some { entry with value := toLeBytes (fromLeBytes entry.value + delta) } := by
  rw [incrCell, h]

/-- What the operation leaves of the key `k`, as long as there is room. -/
def Op.cell (now : Nat) (k : String) : Op → Option Entry → Option Entry
  | .set key value ttl, cell => if k = key then some ⟨value, ttl.map (now + ·)⟩ else cell
  | .get key, cell => if k = key then fresh now cell else cell
  | .existsKey key, cell => if k = key then fresh now cell else cell
  | .del key, cell => if k = key then none else cell
  | .incr key delta, cell => if k = key then incrCell delta now cell else cell
  | .clear, _ => none
  | .sweepExpired, cell => fresh now cell

theorem set_of_room (hroom : table.size < table.maxEntries) {value : Bytes} {ttl : Option Nat} :
    table.set key value ttl now = (table.store key ⟨value, ttl.map (now + ·)⟩, .ok ()) := by
  rw [SharedTable.set, if_neg (Nat.not_le.2 hroom), ite_self]

theorem lookup_get :
    (table.get key now).1.map.lookup k =
      if k = key then fresh now (table.map.lookup k) else table.map.lookup k := by
  rw [SharedTable.get]
  by_cases hk : k = key
  · subst hk
    rw [if_pos rfl]
    cases hlookup : table.map.lookup k with
    | none => exact hlookup
    | some entry =>
      cases h : entry.isExpired now with
      | true => simp [fresh, Option.filter, h, lookup_remove]
      | false => simp [fresh, Option.filter, h, hlookup]
  · rw [if_neg hk]
    cases table.map.lookup key with
    | none => rfl
    | some entry =>
      cases h : entry.isExpired now with
      | true => simp [lookup_remove, h, hk]
      | false => simp [h]

theorem lookup_del :
    (table.del key now).1.map.lookup k = if k = key then none else table.map.lookup k := by
  rw [SharedTable.del]
  cases hlookup : table.map.lookup key with
  | none =>
    dsimp only
    split
    case isTrue hk => rw [hk, hlookup]
    case isFalse => rfl
  | some entry => exact lookup_remove

theorem lookup_incr (hroom : table.size < table.maxEntries) {delta : Int64} :
    (table.incr key delta now).1.map.lookup k =
      if k = key then incrCell delta now (table.map.lookup k) else table.map.lookup k := by
  rw [SharedTable.incr, SharedTable.incrExisting]
  cases hlookup : table.map.lookup key with
  | none =>
    dsimp only [Option.map_none]
    rw [if_neg (Nat.not_le.2 hroom), lookup_store]
    split
    case isTrue hk => rw [hk, hlookup]; rfl
    case isFalse => rfl
  | some entry =>
    dsimp only [Option.map_some]
    by_cases hk : k = key
    · subst hk
      rw [if_pos rfl, hlookup, incrCell]
      cases h : entry.isExpired now with
      | true => simp [fresh, Option.filter, h, lookup_store]
      | false =>
        by_cases hlen : entry.value.length = 8
        · simp [fresh, Option.filter, h, hlen, lookup_store]
        · simp [fresh, Option.filter, h, hlen, hlookup]
    · rw [if_neg hk]
      split
      · rw [lookup_store, if_neg hk]
      · split
        · rfl
        · rw [lookup_store, if_neg hk]

/-- **One operation, key by key.** -/
theorem lookup_apply (hroom : table.size < table.maxEntries) :
    (op.apply table now).1.map.lookup k = op.cell now k (table.map.lookup k) := by
  cases op with
  | set key value ttl =>
    rw [Op.apply, set_of_room hroom]
    exact lookup_store ..
  | get key => exact lookup_get
  | existsKey key => exact lookup_get
  | del key => exact lookup_del
  | incr key delta => exact lookup_incr hroom
  | clear => rfl
  | sweepExpired => exact lookup_retain

/-! ## refinement -/

/-- The specification looks at the map only as far as it is visible. -/
theorem spec_congr (op : Op) {m' : TtlMap String Bytes} (h : m.Agree now m') :
    (op.spec m now).2 = (op.spec m' now).2 ∧ (op.spec m now).1.Agree now (op.spec m' now).1 := by
  cases op with
  | set key value ttl => exact ⟨rfl, h.put⟩
  | get key => exact ⟨by simp only [Op.spec, h key], h⟩
  | existsKey key => exact ⟨by simp only [Op.spec, h key], h⟩
  | del key => exact ⟨by simp only [Op.spec, h key], h.put⟩
  | incr key delta =>
    simp only [Op.spec, h key]
    split
    · exact ⟨rfl, h.put⟩
    · split
      · exact ⟨rfl, h⟩
      · exact ⟨rfl, h.put⟩
  | clear => exact ⟨rfl, .refl⟩
  | sweepExpired => exact ⟨rfl, h⟩

theorem get_snd : (table.get key now).2 = (table.view.visible now key).map Timed.value := by
  rw [SharedTable.get, visible_view]
  cases table.map.lookup key with
  | none => rfl
  | some entry => cases h : entry.isExpired now <;> simp [fresh, Option.filter, h, Entry.timed]

theorem del_snd : (table.del key now).2 = (table.view.visible now key).isSome := by
  rw [SharedTable.del, visible_view]
  cases table.map.lookup key with
  | none => rfl
  | some entry => cases h : entry.isExpired now <;> simp [fresh, Option.filter, h]

theorem incr_snd (hroom : table.size < table.maxEntries) {delta : Int64} :
    (table.incr key delta now).2 =
      match fresh now (table.map.lookup key) with
      | none => .ok delta
      | some entry =>
        if entry.value.length ≠ 8 then .error (.notACounter key)
        else .ok (fromLeBytes entry.value + delta) := by
  rw [SharedTable.incr, SharedTable.incrExisting]
  cases table.map.lookup key with
  | none =>
    dsimp only [Option.map_none]
    rw [if_neg (Nat.not_le.2 hroom)]
    rfl
  | some entry =>
    cases h : entry.isExpired now with
    | true => simp [fresh, Option.filter, h]
    | false => by_cases hlen : entry.value.length = 8 <;> simp [fresh, Option.filter, h, hlen]

/-- **Step lemma.**  With room for one entry more, an operation does to the table what it
does to the map the table stands for. -/
theorem apply_spec (op : Op) (now : Nat) (hroom : table.size < table.maxEntries) :
    (op.apply table now).2 = (op.spec table.view now).2 ∧
      (op.apply table now).1.view.Agree now (op.spec table.view now).1 := by
  constructor
  · cases op with
    | set key value ttl => rw [Op.apply, set_of_room hroom]; rfl
    | get key => exact congrArg (some ∘ Reply.get) get_snd
    | existsKey key =>
      have hsome : (table.get key now).2.isSome = (table.view.visible now key).isSome := by
        rw [get_snd, Option.isSome_map]
      exact congrArg (some ∘ Reply.existsKey) hsome
    | del key => exact congrArg (some ∘ Reply.del) del_snd
    | incr key delta =>
      refine (congrArg (some ∘ Reply.incr) (incr_snd hroom)).trans ?_
      rw [Op.spec, visible_view]
      cases fresh now (table.map.lookup key) with
      | none => rfl
      | some entry => by_cases hlen : entry.value.length = 8 <;> simp [Entry.timed, hlen]
    | clear => rfl
    | sweepExpired => rfl
  · intro k
    rw [visible_view, lookup_apply hroom]
    cases op with
    | set key value ttl =>
      rw [Op.cell, Op.spec, TtlMap.visible_put, visible_view]
      split
      · exact map_fresh _
      · rfl
    | get key | existsKey key =>
      rw [Op.cell, Op.spec, visible_view]
      split
      · rw [fresh_fresh]
      · rfl
    | del key =>
      rw [Op.cell, Op.spec, TtlMap.visible_put, visible_view]
      split <;> rfl
    | incr key delta =>
      rw [Op.cell, Op.spec, visible_view]
      cases hfresh : fresh now (table.map.lookup key) with
      | none =>
        rw [Option.map_none, TtlMap.visible_put, visible_view]
        split
        case isTrue hk =>
          rw [hk, incrCell, hfresh]
          exact map_fresh _
        case isFalse => rfl
      | some entry =>
        rw [Option.map_some]
        dsimp only [Entry.timed]
        by_cases hlen : entry.value.length ≠ 8
        · rw [if_pos hlen, visible_view]
          split
          case isTrue hk => rw [hk, incrCell_of_some hfresh, if_pos hlen, ← hfresh, fresh_fresh]
          case isFalse => rfl
        · rw [if_neg hlen, TtlMap.visible_put, visible_view]
          split
          case isTrue hk =>
            rw [hk, incrCell_of_some hfresh, if_neg hlen]
            exact map_fresh _
          case isFalse => rfl
    | clear => rfl
    | sweepExpired =>
      rw [Op.cell, Op.spec, visible_view, fresh_fresh]

/-- What the operation returns, and how it leaves the table, against any map that the table
agrees with. -/
theorem agree_apply (op : Op) (hroom : table.size < table.maxEntries) (h : table.view.Agree now m) :
    (op.apply table now).2 = (op.spec m now).2 ∧
      (op.apply table now).1.view.Agree now (op.spec m now).1 := by
  obtain ⟨hreply, hview⟩ := apply_spec op now hroom
  obtain ⟨hreply', hview'⟩ := spec_congr op h
  exact ⟨hreply.trans hreply', hview.trans hview'⟩

/-- The next entry fits. -/
def HasRoom (s : State) (_ : Event) : Prop := s.table.size < s.table.maxEntries

variable {s s' : State} {e : Event} {es : List Event}

instance : Decidable (HasRoom s e) := inferInstanceAs (Decidable (_ < _))

theorem step_eq_some :
    step s e = some s' ↔ s.clock ≤ e.now ∧ s' = ⟨(e.op.apply s.table e.now).1, e.now⟩ := by
  rw [step, Option.ite_none_right_eq_some, Option.some.injEq, eq_comm (a := s')]

/-- **Run lemma.** -/
theorem replies_eq_spec (hrun : run step s es = some s') (hroom : Guarded step HasRoom s es)
    (h : s.table.view.Agree s.clock m) : trace step reply s es = specReplies m es := by
  induction es generalizing s m with
  | nil => rfl
  | cons e es ih =>
    obtain ⟨s₁, hs, hrun⟩ := run_cons_eq_some.1 hrun
    obtain ⟨hroom₁, hroom⟩ := (guarded_cons hs).1 hroom
    obtain ⟨hclock, rfl⟩ := step_eq_some.1 hs
    obtain ⟨hreply, hview⟩ := agree_apply e.op hroom₁ (h.later hclock)
    rw [trace_cons hs, specReplies, ih hrun hroom hview, reply, hreply]

/-! ## entries past their deadline -/

/-- `table'` is `table` without some of the entries that have expired. -/
structure Pruned (now : Nat) (table' table : SharedTable) : Prop where
  maxEntries : table'.maxEntries = table.maxEntries
  lookup : ∀ k, table'.map.lookup k = table.map.lookup k ∨
    table'.map.lookup k = none ∧ fresh now (table.map.lookup k) = none

theorem fresh_none_later (hle : now ≤ after) {cell : Option Entry} (h : fresh now cell = none) :
    fresh after cell = none := by
  cases cell with
  | none => rfl
  | some entry =>
    simp only [fresh, Option.filter_eq_none_iff, Option.some.injEq, forall_eq', Entry.isExpired,
      Bool.not_eq_true', Bool.not_eq_false] at h ⊢
    split at h
    · simp only [decide_eq_true_eq] at h ⊢
      omega
    · cases h

theorem Pruned.later (h : Pruned now table' table) (hle : now ≤ after) :
    Pruned after table' table :=
  ⟨h.maxEntries, fun k => (h.lookup k).imp_right fun hgone =>
    ⟨hgone.1, fresh_none_later hle hgone.2⟩⟩

theorem Pruned.fresh_eq (h : Pruned now table' table) (k : String) :
    fresh now (table'.map.lookup k) = fresh now (table.map.lookup k) := by
  obtain heq | ⟨hnone, hfresh⟩ := h.lookup k
  · rw [heq]
  · rw [hnone, hfresh]
    rfl

theorem Pruned.agree (h : Pruned now table' table) : table'.view.Agree now table.view := by
  intro k
  rw [visible_view, visible_view, h.fresh_eq]

/-- There is no less room without them. -/
theorem Pruned.size_le (h : Pruned now table' table) : table'.size ≤ table.size := by
  have hsubset : table'.map.keys ⊆ table.map.keys := by
    intro k hk
    rw [← AList.mem_keys, ← AList.lookup_isSome] at hk ⊢
    obtain heq | ⟨hnone, -⟩ := h.lookup k
    · rwa [heq] at hk
    · rw [hnone] at hk
      cases hk
  have hle := (List.subperm_of_subset table'.map.keys_nodup hsubset).length_le
  simpa [AList.keys, List.keys, SharedTable.size] using hle

/-- An operation does not see whether an entry that has expired is still there, or it leaves
the cell alone. -/
theorem cell_cases (now : Nat) (k : String) (op : Op) :
    (∀ cell, op.cell now k (fresh now cell) = op.cell now k cell) ∨
      ∀ cell, op.cell now k cell = cell := by
  cases op with
  | set key | get key | existsKey key | del key | incr key =>
    by_cases hk : k = key
    · exact .inl fun cell => by simp [Op.cell, hk, incrCell, fresh_fresh]
    · exact .inr fun cell => by simp [Op.cell, hk]
  | clear => exact .inl fun _ => rfl
  | sweepExpired => exact .inl fun cell => fresh_fresh cell

theorem maxEntries_apply : (op.apply table now).1.maxEntries = table.maxEntries := by
  cases op with
  | set key =>
    simp only [Op.apply, Prod.map, SharedTable.set]
    split
    · rfl
    · split <;> rfl
  | get key | existsKey key =>
    simp only [Op.apply, Prod.map, SharedTable.existsKey, SharedTable.get]
    split
    · rfl
    · split <;> rfl
  | del key =>
    simp only [Op.apply, Prod.map, SharedTable.del]
    split <;> rfl
  | incr key delta =>
    simp only [Op.apply, Prod.map, SharedTable.incr, SharedTable.incrExisting]
    cases table.map.lookup key with
    | none =>
      dsimp only [Option.map_none]
      split <;> rfl
    | some entry =>
      dsimp only [Option.map_some]
      split
      · rfl
      · split <;> rfl
  | clear => rfl
  | sweepExpired => rfl

/-- **Step lemma.**  An operation on both tables. -/
theorem pruned_apply (h : Pruned now table' table) (hroom : table.size < table.maxEntries) :
    Pruned now (op.apply table' now).1 (op.apply table now).1 := by
  have hroom' : table'.size < table'.maxEntries := by
    rw [h.maxEntries]
    exact Nat.lt_of_le_of_lt h.size_le hroom
  refine ⟨by rw [maxEntries_apply, maxEntries_apply, h.maxEntries], fun k => ?_⟩
  rw [lookup_apply hroom, lookup_apply hroom']
  obtain hfresh | hself := cell_cases now k op
  · rw [← hfresh, ← hfresh (table.map.lookup k), h.fresh_eq]
    exact .inl rfl
  · rw [hself, hself]
    exact h.lookup k

/-- The call only removes entries that have expired. -/
def Op.prunes : Op → Bool
  | .get _ | .existsKey _ | .sweepExpired => true
  | .set .. | .del _ | .incr .. | .clear => false

/-- **Step lemma.**  An operation on the one table that only prunes. -/
theorem pruned_prune (h : Pruned now table' table) (hop : op.prunes = true) :
    Pruned now (op.apply table' now).1 table := by
  have hcell : ∀ k, (op.apply table' now).1.map.lookup k = table'.map.lookup k ∨
      (op.apply table' now).1.map.lookup k = fresh now (table'.map.lookup k) := by
    intro k
    cases op with
    | get key | existsKey key =>
      simp only [Op.apply, Prod.map, SharedTable.existsKey, id, lookup_get]
      split
      · exact .inr rfl
      · exact .inl rfl
    | sweepExpired => exact .inr lookup_retain
    | set | del | incr | clear => cases hop
  refine ⟨maxEntries_apply.trans h.maxEntries, fun k => ?_⟩
  obtain heq | heq := hcell k
  · rw [heq]
    exact h.lookup k
  · rw [heq]
    cases hfresh : fresh now (table'.map.lookup k) with
    | none => exact .inr ⟨rfl, by rw [← h.fresh_eq, hfresh]⟩
    | some entry =>
      have hsome : table'.map.lookup k = some entry := (Option.filter_eq_some_iff.1 hfresh).1
      obtain hlookup | ⟨hnone, -⟩ := h.lookup k
      · exact .inl (by rw [← hlookup, hsome])
      · rw [hnone] at hsome
        cases hsome

/-! ## extra calls -/

/-- A call of a history, or one that has been added to it. -/
structure Marked where
  extra : Bool
  event : Event

/-- The history without what has been added. -/
def plain (ms : List Marked) : List Event := (ms.filter (!·.extra)).map Marked.event

def markedStep (s : State) (m : Marked) : Option State := step s m.event

/-- What the calls of the history return. -/
def markedReply (s : State) (m : Marked) : List Reply := if m.extra then [] else reply s m.event

/-- **Run lemma.**  Calls that only prune make no difference to the others. -/
theorem replies_pruned {ms : List Marked} {s t t' : State}
    (hextra : ∀ m ∈ ms, m.extra = true → m.event.op.prunes = true)
    (h : Pruned t.clock t.table s.table) (hclock : s.clock ≤ t.clock)
    (hroom : Guarded step HasRoom s (plain ms)) (hrun : run markedStep t ms = some t') :
    trace markedStep markedReply t ms = trace step reply s (plain ms) := by
  induction ms generalizing s t with
  | nil => rfl
  | cons m ms ih =>
    obtain ⟨t₁, ht, hrun⟩ := run_cons_eq_some.1 hrun
    obtain ⟨hnow, rfl⟩ := step_eq_some.1 ht
    rw [List.forall_mem_cons] at hextra
    have hpruned := h.later hnow
    rw [trace_cons ht]
    obtain ⟨extra, e⟩ := m
    cases extra with
    | true =>
      exact ih hextra.2 (pruned_prune hpruned (hextra.1 rfl)) (Nat.le_trans hclock hnow) hroom
        hrun
    | false =>
      have hs : step s e = some ⟨(e.op.apply s.table e.now).1, e.now⟩ :=
        step_eq_some.2 ⟨Nat.le_trans hclock hnow, rfl⟩
      obtain ⟨hroom₁, hroom⟩ := (guarded_cons hs).1 hroom
      have hroom' : t.table.size < t.table.maxEntries := by
        rw [h.maxEntries]
        exact Nat.lt_of_le_of_lt h.size_le hroom₁
      have hreply : reply t e = reply s e := by
        rw [reply, reply, (agree_apply e.op hroom' hpruned.agree).1,
          (apply_spec e.op e.now hroom₁).1]
      have htail := ih hextra.2 (pruned_apply hpruned hroom₁) (Nat.le_refl e.now) hroom hrun
      have hplain : plain (⟨false, e⟩ :: ms) = e :: plain ms := rfl
      rw [hplain, trace_cons hs, ← htail, ← hreply]
      rfl

/-- **Refinement.**  In every history of a new table in which the next entry always fits, the
calls return what they would return on a plain map with deadlines; and so they do if any
number of `get`, `exists` and `sweep_expired` calls are added to the history. -/
theorem table_refines (maxEntries : Nat) (es : List Event)
    (hrun : run step (initial maxEntries) es = some s)
    (hroom : Guarded step HasRoom (initial maxEntries) es) :
    trace step reply (initial maxEntries) es = specReplies (fun _ => none) es ∧
      ∀ (ms : List Marked) (s' : State), plain ms = es →
        (∀ m ∈ ms, m.extra = true → m.event.op.prunes = true) →
        run markedStep (initial maxEntries) ms = some s' →
        trace markedStep markedReply (initial maxEntries) ms =
          trace step reply (initial maxEntries) es := by
  refine ⟨replies_eq_spec hrun hroom .refl, ?_⟩
  rintro ms s' rfl hextra hrun'
  exact replies_pruned hextra ⟨rfl, fun k => .inl rfl⟩ (Nat.le_refl _) hroom hrun'

/-- A value expires, is counted up from nothing, and is asked for. -/
def expiring : List Event :=
  [⟨0, .set "a" [1] (some 5)⟩, ⟨3, .get "a"⟩, ⟨5, .incr "a" 2⟩, ⟨9, .del "a"⟩, ⟨9, .existsKey "a"⟩]

theorem table_refines_expiring :
    ∃ s, run step (initial 2) expiring = some s ∧
      trace step reply (initial 2) expiring = specReplies (fun _ => none) expiring := by
  refine ⟨_, rfl, (table_refines 2 expiring rfl ?_).1⟩
  decide

end Expiry

end Turbine.Tables
