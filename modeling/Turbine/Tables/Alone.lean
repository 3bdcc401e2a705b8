import Turbine.Tables.Races

/-!
# Turbine.Tables.Alone

The concurrent calls of `Turbine.Tables.Races`, when they are not concurrent: a call that
nobody comes in between is the operation of `Turbine.Tables.Expiry`.

* `table_call_alone`: what a call does to the table and returns.
-/

namespace Turbine.Tables.Races

open Base Threads Expiry

variable {shards : Shards} {table : SharedTable} {w : State} {op : Op} {now : Nat}
  {keep keep' : String → Entry → Bool}

/-- What a call returns when nobody comes in between. -/
def result (table : SharedTable) (now : Nat) (op : Op) : Result :=
  match (op.apply table now).2 with
  | some reply => .reply reply
  | none => .count (table.size - (op.apply table now).1.size)

/-! ## shards -/

theorem retain_retain : (table.retain keep).retain keep' =
    table.retain fun key entry => keep key entry && keep' key entry := by
  simp only [SharedTable.retain, List.filter_filter, Bool.and_comm]

theorem retain_all (h : ∀ key entry, keep key entry = true) : table.retain keep = table := by
  have hall : table.map.entries.filter (fun e => keep e.1 e.2) = table.map.entries :=
    List.filter_eq_self.2 fun e _ => h e.1 e.2
  simp only [SharedTable.retain, hall]

theorem retain_none (h : ∀ key entry, keep key entry = false) :
    table.retain keep = { table with map := ∅ } := by
  have hnone : table.map.entries.filter (fun e => keep e.1 e.2) = [] :=
    List.filter_eq_nil_iff.2 fun e _ => by simp [h e.1 e.2]
  simp only [SharedTable.retain, hnone]
  rfl

theorem retain_congr (h : ∀ key entry, keep key entry = keep' key entry) :
    table.retain keep = table.retain keep' := by
  have hsame : keep = keep' := funext fun key => funext (h key)
  rw [hsame]

/-- The shards up to the next one, and that one. -/
theorem countP_lt_succ {α : Type} (f : α → Nat) (p : α → Bool) (l : List α) (i : Nat) :
    l.countP (fun x => f x < i + 1 && p x) =
      l.countP (fun x => f x < i && p x) + l.countP fun x => f x = i && p x := by
  induction l with
  | nil => rfl
  | cons x l ih =>
    rw [List.countP_cons, List.countP_cons, List.countP_cons, ih]
    cases p x <;> grind

/-- How many entries the first `i` shards have. -/
def sizeBelow (shards : Shards) (table : SharedTable) (i : Nat) : Nat :=
  table.map.entries.countP fun e => shards.shard e.1 < i && true

theorem sizeBelow_zero : sizeBelow shards table 0 = 0 := by
  simp [sizeBelow]

theorem sizeBelow_succ (i : Nat) :
    sizeBelow shards table (i + 1) = sizeBelow shards table i + shardSize shards table i := by
  have h := countP_lt_succ (fun e : Sigma fun _ : String => Entry => shards.shard e.1)
    (fun _ => true) table.map.entries i
  simpa only [sizeBelow, shardSize, Bool.and_true] using h

theorem sizeBelow_count : sizeBelow shards table shards.count = table.size := by
  rw [sizeBelow, SharedTable.size, List.countP_eq_length]
  intro e _
  simp [shards.shard_lt e.1]

/-- A walk through the shards. -/
theorem alone_walk {P : Program SharedTable Op Phase} (state : Nat → SharedTable × Phase)
    (hnext : ∀ i < shards.count, P.Acts w op (state i) (state (i + 1))) :
    P.Alone w op (state 0) (state shards.count) := by
  have hwalk : ∀ i ≤ shards.count, P.Alone w op (state 0) (state i) := by
    intro i hi
    induction i with
    | zero => exact .refl
    | succ i ih => exact .tail (ih (by omega)) (hnext i hi)
  exact hwalk shards.count (Nat.le_refl _)

/-! ## calls -/

/-- A call takes its next access, and goes on. -/
theorem alone_act {table' : SharedTable} {phase phase' : Phase} {s : SharedTable × Phase}
    (hact : act shards table w.clock op phase = some (table', phase'))
    (hrest : (program shards).Alone w op (table', phase') s) :
    (program shards).Alone w op (table, phase) s := .head hact hrest

/-- The size check adds up to the size. -/
theorem alone_checkSize {full : Result}
    (hact : ∀ next n, act shards table w.clock op (.counting now next n) =
      some (table, checkSize shards table now next n full)) :
    (program shards).Alone w op (table, .counting now 0 0)
      (table, if table.maxEntries ≤ table.size then .returned full else .inserting now) := by
  have hwalk : (program shards).Alone w op (table, .counting now 0 (sizeBelow shards table 0))
      (table, .counting now shards.count (sizeBelow shards table shards.count)) := by
    refine alone_walk (fun i => (table, .counting now i (sizeBelow shards table i)))
      fun i hi => (hact i _).trans ?_
    rw [checkSize, if_pos hi, sizeBelow_succ]
  rw [sizeBelow_zero, sizeBelow_count] at hwalk
  refine hwalk.tail ((hact _ _).trans ?_)
  rw [checkSize, if_neg (Nat.lt_irrefl _)]

/-- With room for it, an entry is stored after the size check. -/
theorem alone_store {full done : Result} {entry : Entry} {key : String} {s : SharedTable × Phase}
    (hsize : ∀ next n, act shards table w.clock op (.counting now next n) =
      some (table, checkSize shards table now next n full))
    (hstore : act shards table w.clock op (.inserting now) =
      some (table.store key entry, .returned done))
    (hs : s = if table.maxEntries ≤ table.size then (table, .returned full)
      else (table.store key entry, .returned done)) :
    (program shards).Alone w op (table, .counting now 0 0) s := by
  have hchecked := alone_checkSize hsize
  split at hchecked
  case isTrue hfull =>
    rw [hs, if_pos hfull]
    exact hchecked
  case isFalse hroom =>
    rw [hs, if_neg hroom]
    exact hchecked.tail hstore

theorem alone_set (key : String) (value : Bytes) (ttl : Option Nat) :
    (program shards).Alone w (.set key value ttl) (w.shared, .start)
      ((w.shared.set key value ttl w.clock).1,
        .returned (.reply (.set (w.shared.set key value ttl w.clock).2))) := by
  refine alone_act rfl ?_
  rw [SharedTable.set]
  by_cases hkey : (w.shared.map.lookup key).isSome
  · rw [if_pos hkey]
    exact alone_act (if_pos hkey) .refl
  · rw [if_neg hkey]
    refine alone_act (if_neg hkey) (alone_store (fun _ _ => rfl) rfl ?_)
    split <;> rfl

theorem alone_get {key : String} (answer : Option Bytes → Reply) (hact : ∀ table phase,
      act shards table w.clock op phase = getAct table w.clock key answer phase) :
    (program shards).Alone w op (w.shared, .start)
      ((w.shared.get key w.clock).1,
        .returned (.reply (answer (w.shared.get key w.clock).2))) := by
  refine alone_act (hact _ _) ?_
  rw [SharedTable.get]
  have hready := hact w.shared (.ready w.clock)
  rw [getAct] at hready
  cases hentry : w.shared.map.lookup key with
  | none => exact alone_act (by rw [hready, hentry]) .refl
  | some entry =>
    cases hexpired : entry.isExpired w.clock with
    | false => exact alone_act (by simp [hready, hentry, hexpired]) .refl
    | true =>
      have hremoving : act shards w.shared w.clock op (.ready w.clock) =
          some (w.shared, .removing w.clock) := by
        simp [hready, hentry, hexpired]
      simp only [hexpired, Bool.not_true, Bool.false_eq_true, if_false]
      exact alone_act hremoving (alone_act (hact _ _) .refl)

theorem alone_del (key : String) :
    (program shards).Alone w (.del key) (w.shared, .start)
      ((w.shared.del key w.clock).1, .returned (.reply (.del (w.shared.del key w.clock).2))) := by
  have hstart : act shards w.shared w.clock (.del key) .start =
    delAct w.shared w.clock key .start := rfl
  rw [delAct] at hstart
  rw [SharedTable.del]
  cases hentry : w.shared.map.lookup key with
  | none => exact alone_act (by rw [hstart, hentry]) .refl
  | some entry => exact alone_act (by rw [hstart, hentry]) (alone_act rfl .refl)

theorem alone_incr (key : String) (delta : Int64) :
    (program shards).Alone w (.incr key delta) (w.shared, .start)
      ((w.shared.incr key delta w.clock).1,
        .returned (.reply (.incr (w.shared.incr key delta w.clock).2))) := by
  have hready : act shards w.shared w.clock (.incr key delta) (.ready w.clock) =
    incrAct shards w.shared w.clock key delta (.ready w.clock) := rfl
  rw [incrAct] at hready
  refine alone_act rfl ?_
  rw [SharedTable.incr]
  cases hexisting : w.shared.incrExisting key delta w.clock with
  | some outcome => exact alone_act (by rw [hready, hexisting]) .refl
  | none =>
    refine alone_act (by rw [hready, hexisting]) (alone_store (fun _ _ => rfl) rfl ?_)
    dsimp only
    split <;> rfl

theorem alone_clear :
    (program shards).Alone w .clear (w.shared, .start)
      (w.shared.clear.1, .returned (.count w.shared.clear.2)) := by
  have hsizing : (program shards).Alone w .clear
      (w.shared, .sizing 0 (sizeBelow shards w.shared 0))
      (w.shared, .sizing shards.count (sizeBelow shards w.shared shards.count)) := by
    refine alone_walk (fun i => (w.shared, .sizing i (sizeBelow shards w.shared i)))
      fun i hi => (if_pos hi).trans ?_
    rw [sizeBelow_succ]
    rfl
  have hclearing : (program shards).Alone w .clear
      (w.shared.retain fun key _ => 0 ≤ shards.shard key, .clearing w.shared.size 0)
      (w.shared.retain fun key _ => shards.count ≤ shards.shard key,
        .clearing w.shared.size shards.count) := by
    refine alone_walk
      (fun i => (w.shared.retain fun key _ => i ≤ shards.shard key, .clearing w.shared.size i))
      fun i hi => (if_pos hi).trans ?_
    have hnext : ∀ key, (decide (i ≤ shards.shard key) && decide (shards.shard key ≠ i)) =
        decide (i + 1 ≤ shards.shard key) := fun key => by grind
    simp only [World.joined, retain_retain, hnext]
  rw [sizeBelow_zero, sizeBelow_count] at hsizing
  rw [retain_all (by simp), retain_none fun key _ => by simp [shards.shard_lt]] at hclearing
  exact alone_act rfl (hsizing.trans (alone_act (if_neg (Nat.lt_irrefl _))
    (hclearing.tail (if_neg (Nat.lt_irrefl _)))))

/-- What a sweep keeps when it has got to shard `i`. -/
def keeps (shards : Shards) (now i : Nat) (key : String) (entry : Entry) : Bool :=
  !(shards.shard key < i && entry.isExpired now)

/-- How many entries it has dropped. -/
def expiredBelow (shards : Shards) (table : SharedTable) (now i : Nat) : Nat :=
  table.map.entries.countP fun e => shards.shard e.1 < i && e.2.isExpired now

/-- A sweep finds the shard as it was. -/
theorem expiredBelow_succ (i : Nat) :
    expiredBelow shards table now (i + 1) = expiredBelow shards table now i +
      (table.retain (keeps shards now i)).map.entries.countP
        fun e => shards.shard e.1 = i && e.2.isExpired now := by
  have hsame : ∀ e : Sigma fun _ : String => Entry,
      (decide (shards.shard e.1 = i) && e.2.isExpired now && keeps shards now i e.1 e.2) =
        (decide (shards.shard e.1 = i) && e.2.isExpired now) := by
    intro e
    rw [keeps]
    cases e.2.isExpired now <;> grind
  simp only [SharedTable.retain, List.countP_filter, hsame]
  exact countP_lt_succ _ _ _ i

theorem alone_sweepExpired :
    (program shards).Alone w .sweepExpired (w.shared, .start)
      ((w.shared.sweepExpired w.clock).1,
        .returned (.count (w.shared.sweepExpired w.clock).2)) := by
  have hsweeping : (program shards).Alone w .sweepExpired
      (w.shared.retain (keeps shards w.clock 0),
        .sweeping w.clock 0 (expiredBelow shards w.shared w.clock 0))
      (w.shared.retain (keeps shards w.clock shards.count),
        .sweeping w.clock shards.count (expiredBelow shards w.shared w.clock shards.count)) := by
    refine alone_walk (fun i => (w.shared.retain (keeps shards w.clock i),
      .sweeping w.clock i (expiredBelow shards w.shared w.clock i)))
      fun i hi => (if_pos hi).trans ?_
    have hnext : ∀ key (entry : Entry), (keeps shards w.clock i key entry &&
        !(decide (shards.shard key = i) && entry.isExpired w.clock)) =
          keeps shards w.clock (i + 1) key entry := by
      intro key entry
      rw [keeps, keeps]
      cases entry.isExpired w.clock <;> grind
    rw [expiredBelow_succ]
    simp only [World.joined, retain_retain, hnext]
  have hstart : expiredBelow shards w.shared w.clock 0 = 0 := by simp [expiredBelow]
  have hend : expiredBelow shards w.shared w.clock shards.count =
      (w.shared.sweepExpired w.clock).2 := by
    simp [expiredBelow, SharedTable.sweepExpired, shards.shard_lt]
  have hkept : w.shared.retain (keeps shards w.clock shards.count) =
      w.shared.retain fun _ entry => !entry.isExpired w.clock :=
    retain_congr fun key entry => by simp [keeps, shards.shard_lt]
  rw [retain_all fun key entry => by simp [keeps], hstart, hend, hkept] at hsweeping
  exact alone_act rfl (hsweeping.tail (if_neg (Nat.lt_irrefl _)))

theorem size_sub_sweepExpired :
    table.size - (table.sweepExpired now).1.size = (table.sweepExpired now).2 := by
  have h := List.length_eq_countP_add_countP (fun e : Sigma fun _ : String => Entry =>
    e.2.isExpired now) (l := table.map.entries)
  simp only [SharedTable.size, SharedTable.sweepExpired, SharedTable.retain,
    ← List.countP_eq_length_filter]
  rw [h]
  simp

theorem alone_apply (shards : Shards) (w : State) (op : Op) :
    (program shards).Alone w op (w.shared, .start)
      ((op.apply w.shared w.clock).1, .returned (result w.shared w.clock op)) := by
  cases op with
  | set key value ttl => exact alone_set key value ttl
  | get key => exact alone_get .get fun _ _ => rfl
  | existsKey key => exact alone_get (fun value => .existsKey value.isSome) fun _ _ => rfl
  | del key => exact alone_del key
  | incr key delta => exact alone_incr key delta
  | clear => exact alone_clear
  | sweepExpired =>
    rw [result]
    dsimp only [Op.apply]
    rw [size_sub_sweepExpired]
    exact alone_sweepExpired

/-- **Connection.**  A call that nobody comes in between does to the table, and returns, what the
operation does and returns. -/
theorem table_call_alone (shards : Shards) (w : State) (op : Op) :
    ∃ n, run (program shards).step w
        (.call op :: List.replicate n (.advance w.threads.length)) =
      some (w.joined op
        ((op.apply w.shared w.clock).1, .returned (result w.shared w.clock op))) :=
  Program.run_alone (alone_apply shards w op)

end Turbine.Tables.Races
