import Mathlib.Data.List.AList
import Mathlib.Data.Set.Function
import Turbine.Base.Patterns
import Turbine.Base.Runs
import Turbine.Security.Guard

/-!
# Turbine.Security.SqlGuard

The SQL guard (crates/turbine-security/src/sql_guard.rs): a list of patterns that depends
on the paranoia level, and a cache of results by the hash of the input.  The cache is
emptied when it is full.

* `SqlGuard.Sound`: the cache agrees with the automaton and keeps to its bound;
* `checks_transparent`: so the calls say what the automaton says.
-/

namespace Turbine.Security

open Base

/-! ## values kept under a hash -/

section Memo

variable {α κ β : Type} [DecidableEq κ] {hash : α → κ} {f : α → β} {used : Set α}
  {table : AList fun _ : κ => β}

/-- What the table has under the hash of an argument in use is the function's value. -/
def Remembers (hash : α → κ) (f : α → β) (used : Set α) (table : AList fun _ : κ => β) : Prop :=
  ∀ a ∈ used, ∀ b, table.lookup (hash a) = some b → b = f a

theorem remembers_empty : Remembers hash f used ∅ := by
  intro a _ b hlookup
  rw [AList.lookup_empty] at hlookup
  cases hlookup

/-- A value that is stored for an argument in use does no harm to the others. -/
theorem Remembers.insert (h : Remembers hash f used table) (hinj : Set.InjOn hash used) {a : α}
    (ha : a ∈ used) : Remembers hash f used (table.insert (hash a) (f a)) := by
  intro a' ha' b hlookup
  by_cases hsame : hash a' = hash a
  · rw [hsame, AList.lookup_insert] at hlookup
    rw [hinj ha' ha hsame]
    exact (Option.some.inj hlookup).symm
  · rw [AList.lookup_insert_ne hsame] at hlookup
    exact h a' ha' b hlookup

theorem length_entries_insert {k : κ} {b : β} (h : table.lookup k = none) :
    (table.insert k b).entries.length = table.entries.length + 1 := by
  rw [AList.entries_insert_of_notMem (AList.lookup_eq_none.1 h), List.length_cons]

end Memo

/-! ## patterns -/

/-- `SQL_PATTERNS_PL1`. -/
def sqlPatternsPl1 : List String :=
  ["union select", "union all select", "' or '1'='1", "' or 1=1", "\" or 1=1", "or 1=1--",
    "or 1=1#", "' or ''='", "sleep(", "benchmark(", "waitfor delay", "pg_sleep(", "load_file(",
    "into outfile", "into dumpfile", "char(0x", "concat(0x", "extractvalue(", "updatexml(",
    "exp(~("]

/-- `SQL_PATTERNS_PL2`. -/
def sqlPatternsPl2 : List String :=
  ["drop table", "drop database", "truncate table", "group_concat(", "/**/", "-- -", "; drop",
    "; delete", "; insert", "; update"]

/-- `SQL_PATTERNS_PL3`. -/
def sqlPatternsPl3 : List String :=
  ["delete from", "insert into", "update set", "information_schema", "table_name", "column_name"]

/-- The patterns of three tiers that a paranoia level loads. -/
def tiers (level : UInt8) (pl1 pl2 pl3 : List String) : List String :=
  (if 1 ≤ level then pl1 else []) ++ (if 2 ≤ level then pl2 else []) ++
    (if 3 ≤ level then pl3 else [])

/-- The patterns that `SqlGuard::with_paranoia` loads. -/
def sqlPatterns (level : UInt8) : List String :=
  tiers level sqlPatternsPl1 sqlPatternsPl2 sqlPatternsPl3

theorem mem_tiers {level : UInt8} {pl1 pl2 pl3 : List String} {p : String}
    (h : p ∈ tiers level pl1 pl2 pl3) : p ∈ pl1 ++ pl2 ++ pl3 := by
  unfold tiers at h
  simp only [List.mem_append, List.mem_ite_nil_right] at h ⊢
  exact h.imp (Or.imp And.right And.right) And.right

/-- Every pattern has four characters at least. -/
theorem four_le_of_mem_sqlPatterns {level : UInt8} {p : String} (h : p ∈ sqlPatterns level) :
    4 ≤ p.toList.length := by
  have hall : ∀ p ∈ sqlPatternsPl1 ++ sqlPatternsPl2 ++ sqlPatternsPl3, 4 ≤ p.toList.length := by
    decide
  exact hall p (mem_tiers h)

theorem sqlPatterns_ne_nil {level : UInt8} : ∀ p ∈ sqlPatterns level, p.toList ≠ [] := by
  intro p hp hnil
  have hfour := four_le_of_mem_sqlPatterns hp
  rw [hnil] at hfour
  cases hfour

/-! ## the guard -/

/-- The verdicts about an input: those of the pattern guards as texts, those of the
behaviour guard by what their texts are made of. -/
inductive InputVerdict
  | allow
  | behaviour (reason : Reason)
  | block (reason : String)
deriving DecidableEq, Repr

/-- `Verdict::is_blocked`. -/
def InputVerdict.isBlocked : InputVerdict → Bool
  | .allow => false
  | .behaviour _ | .block _ => true

/-- `MAX_CACHE_ENTRIES`. -/
def maxCacheEntries : Nat := 8192

/-- `SqlGuard`.  The cache says of a hash whether its input was safe. -/
structure SqlGuard (patterns : List String) where
  automaton : AhoCorasick patterns
  cache : AList fun _ : UInt64 => Bool := ∅

variable {patterns : List String}

namespace SqlGuard

/-- `SqlGuard::with_paranoia`. -/
def withParanoia (level : UInt8) (automaton : AhoCorasick (sqlPatterns level)) :
    SqlGuard (sqlPatterns level) := { automaton }

/-- `cache_size`. -/
def cacheSize (g : SqlGuard patterns) : Nat := g.cache.entries.length

/-- `clear_cache`. -/
def clearCache (g : SqlGuard patterns) : SqlGuard patterns := { g with cache := ∅ }

/-- The cache is purged when it is full. -/
def purged (g : SqlGuard patterns) : SqlGuard patterns :=
  if maxCacheEntries ≤ g.cacheSize then g.clearCache else g

/-- The result for a hash is stored. -/
def remember (g : SqlGuard patterns) (key : UInt64) (safe : Bool) : SqlGuard patterns :=
  { g with cache := g.cache.insert key safe }

/-- `SqlGuard::check`; `hash` is `xxh3_64` of the bytes. -/
def check (hash : String → UInt64) (g : SqlGuard patterns) (input : String) :
    SqlGuard patterns × InputVerdict :=
  if input.isEmpty then (g, .allow)
  else match g.cache.lookup (hash input) with
    | some true => (g, .allow)
    | some false => (g, .block "SQL injection (cached)")
    | none =>
      match g.automaton.find input with
      | some matched =>
        (g.purged.remember (hash input) false, .block ("SQL injection pattern: " ++ matched))
      | none => (g.purged.remember (hash input) true, .allow)

/-- The scan finds nothing in the input. -/
def safe (g : SqlGuard patterns) (input : String) : Bool := (g.automaton.find input).isNone

theorem safe_eq_false_iff {g : SqlGuard patterns} {input : String} :
    g.safe input = false ↔ ∃ p ∈ patterns, Contains input p := by
  rw [← g.automaton.find_isSome_iff, safe]
  cases g.automaton.find input <;> simp

/-- The cache agrees with the scan of the inputs in use and keeps to its bound. -/
structure Sound (hash : String → UInt64) (used : Set String) (g : SqlGuard patterns) : Prop where
  remembers : Remembers hash g.safe used g.cache
  bounded : g.cacheSize ≤ maxCacheEntries

variable {hash : String → UInt64} {used : Set String} {g : SqlGuard patterns} {input : String}

/-! ## one call -/

theorem sound_withParanoia {level : UInt8} {automaton : AhoCorasick (sqlPatterns level)} :
    (withParanoia level automaton).Sound hash used := ⟨remembers_empty, Nat.zero_le _⟩

theorem Sound.clearCache (_ : g.Sound hash used) : g.clearCache.Sound hash used :=
  ⟨remembers_empty, Nat.zero_le _⟩

/-- After the purge there is room, and still nothing under a hash that was not there. -/
theorem Sound.purged (h : g.Sound hash used) {key : UInt64} (hkey : g.cache.lookup key = none) :
    g.purged.Sound hash used ∧ g.purged.cacheSize < maxCacheEntries ∧
      g.purged.cache.lookup key = none := by
  unfold SqlGuard.purged
  split
  case isTrue =>
    have hzero : 0 < maxCacheEntries := by decide
    exact ⟨h.clearCache, hzero, AList.lookup_empty key⟩
  case isFalse hroom => exact ⟨h, by omega, hkey⟩

theorem safe_purged : g.purged.safe = g.safe := by
  unfold SqlGuard.purged
  split <;> rfl

/-- Storing what the scan says of an input that was not in the cache. -/
theorem Sound.remember (h : g.Sound hash used) (hinj : Set.InjOn hash used) (hin : input ∈ used)
    (hnew : g.cache.lookup (hash input) = none) :
    (g.purged.remember (hash input) (g.safe input)).Sound hash used := by
  obtain ⟨hsound, hroom, hnone⟩ := h.purged hnew
  have hstored := hsound.remembers.insert hinj hin
  rw [safe_purged] at hstored
  refine ⟨?_, ?_⟩
  · have hsafe : (g.purged.remember (hash input) (g.safe input)).safe = g.safe := safe_purged
    rw [hsafe]
    exact hstored
  · rw [cacheSize, SqlGuard.remember, length_entries_insert hnone]
    exact hroom

/-- The three ways a call goes: the input is empty, or its result is in the cache, or it is
scanned and the result stored. -/
theorem check_cases (hash : String → UInt64) (g : SqlGuard patterns) (input : String) :
    (input = "" ∧ g.check hash input = (g, .allow)) ∨
      (∃ safe, g.cache.lookup (hash input) = some safe ∧ (g.check hash input).1 = g ∧
        (g.check hash input).2.isBlocked = !safe) ∨
      (g.cache.lookup (hash input) = none ∧
        (g.check hash input).1 = g.purged.remember (hash input) (g.safe input) ∧
        (g.check hash input).2.isBlocked = !g.safe input) := by
  unfold check safe
  split
  case isTrue hempty => exact .inl ⟨String.isEmpty_iff.1 hempty, rfl⟩
  case isFalse =>
    refine .inr ?_
    cases hlookup : g.cache.lookup (hash input) with
    | some safe => cases safe <;> exact .inl ⟨_, rfl, rfl, rfl⟩
    | none => cases g.automaton.find input <;> exact .inr ⟨rfl, rfl, rfl⟩

theorem check_sound (h : g.Sound hash used) (hinj : Set.InjOn hash used) (hin : input ∈ used) :
    (g.check hash input).1.Sound hash used := by
  obtain ⟨-, heq⟩ | ⟨-, -, heq, -⟩ | ⟨hnew, heq, -⟩ := check_cases hash g input
  · rwa [heq]
  · rwa [heq]
  · rw [heq]
    exact h.remember hinj hin hnew

/-- Its verdict is that of a scan, whatever is in the cache. -/
theorem check_isBlocked (hne : ∀ p ∈ patterns, p.toList ≠ []) (h : g.Sound hash used)
    (hin : input ∈ used) :
    (g.check hash input).2.isBlocked = true ↔ ∃ p ∈ patterns, Contains input p := by
  obtain ⟨rfl, heq⟩ | ⟨safe, hcached, -, hblocked⟩ | ⟨-, -, hblocked⟩ := check_cases hash g input
  · rw [heq]
    refine ⟨nofun, ?_⟩
    rintro ⟨p, hp, hcontains⟩
    have hshort := length_le_of_contains hcontains
    exact absurd (List.length_eq_zero_iff.1 (Nat.le_zero.1 hshort)) (hne p hp)
  · rw [hblocked, h.remembers input hin safe hcached, Bool.not_eq_true', safe_eq_false_iff]
  · rw [hblocked, Bool.not_eq_true', safe_eq_false_iff]

/-! ## all calls -/

/-- The calls that touch the cache. -/
inductive Call
  | check (input : String)
  | clearCache
deriving DecidableEq, Repr

/-- The guard after a call. -/
def step (hash : String → UInt64) (g : SqlGuard patterns) : Call → Option (SqlGuard patterns)
  | .check input => some (g.check hash input).1
  | .clearCache => some g.clearCache

/-- The inputs of the calls. -/
def inputs (calls : List Call) : Set String := {input | Call.check input ∈ calls}

/-- A call is on an input in use. -/
def Uses (used : Set String) (call : Call) : Prop := ∀ input, call = .check input → input ∈ used

theorem sound_step {call : Call} {g' : SqlGuard patterns} (hinj : Set.InjOn hash used)
    (h : g.Sound hash used) (huse : Uses used call) (hstep : step hash g call = some g') :
    g'.Sound hash used := by
  cases call with
  | check input =>
    obtain rfl := Option.some.inj hstep
    exact check_sound h hinj (huse input rfl)
  | clearCache =>
    obtain rfl := Option.some.inj hstep
    exact h.clearCache

/-- For every paranoia level, every hash and every sequence of calls no two of whose
inputs share a hash: after every call the cache has 8192 entries at most, and every check
blocks iff its input contains one of the patterns of the level. -/
theorem checks_transparent (level : UInt8) (automaton : AhoCorasick (sqlPatterns level))
    (hash : String → UInt64) (calls : List Call) (hinj : Set.InjOn hash (inputs calls)) :
    Along (step hash)
      (fun g call g' => g'.cacheSize ≤ 8192 ∧ ∀ input, call = .check input →
        ((g.check hash input).2.isBlocked = true ↔ ∃ p ∈ sqlPatterns level, Contains input p))
      (withParanoia level automaton) calls := by
  have huses : Guarded (step hash) (fun _ call => Uses (inputs calls) call)
      (withParanoia level automaton) calls := by
    refine guarded_of_mem fun call hcall input heq => ?_
    rw [heq] at hcall
    exact hcall
  refine along_of_guarded (I := Sound hash (inputs calls)) ?_ sound_withParanoia huses
  intro g call g' hsound huse hstep
  have hsound' := sound_step hinj hsound huse hstep
  exact ⟨hsound', hsound'.bounded,
    fun input heq => check_isBlocked sqlPatterns_ne_nil hsound (huse input heq)⟩

/-- A hash by the length. -/
def lengthHash (input : String) : UInt64 := .ofNat input.length

/-- Twice the same injection, with a wipe and a harmless input in between. -/
def someCalls : List Call :=
  [.check "1 UNION SELECT 2", .check "hello", .clearCache, .check "1 UNION SELECT 2",
    .check "1 UNION SELECT 2"]

theorem injOn_someCalls : Set.InjOn lengthHash (inputs someCalls) := by
  have hinputs : ∀ input ∈ inputs someCalls, input ∈ ["1 UNION SELECT 2", "hello"] := by
    intro input hin
    change Call.check input ∈ someCalls at hin
    simp only [someCalls, List.mem_cons, Call.check.injEq, reduceCtorEq, List.not_mem_nil,
      or_false, false_or] at hin ⊢
    tauto
  have hdistinct : ∀ a ∈ ["1 UNION SELECT 2", "hello"], ∀ b ∈ ["1 UNION SELECT 2", "hello"],
      lengthHash a = lengthHash b → a = b := by decide
  intro a ha b hb hsame
  exact hdistinct a (hinputs a ha) b (hinputs b hb) hsame

theorem checks_transparent_someCalls :
    Set.InjOn lengthHash (inputs someCalls) ∧
      ((withParanoia 1 (.scanner _)).check lengthHash "1 UNION SELECT 2").2.isBlocked = true := by
  refine ⟨injOn_someCalls, ?_⟩
  have halong := checks_transparent 1 (.scanner _) lengthHash someCalls injOn_someCalls
  have hfirst := (halong _ rfl).1.2 _ rfl
  exact hfirst.2 ⟨"union select", by decide, by decide⟩

end SqlGuard

end Turbine.Security
