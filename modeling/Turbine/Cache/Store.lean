import Mathlib.Data.List.Basic

/-!
# Turbine.Cache.Store

The response cache (crates/turbine-cache/src/store.rs).  Entries are found by the
method and the path, and are valid for the source they were produced from until
they are too old.  `get` and `put` access the map more than once, and other
requests may come in between: `peek` and `remove`, `makeRoom` and `insert` are
their atomic parts.

* `ResponseCache.Every`: what holds of every entry, with what keeps it.
-/

namespace Turbine.Cache

/-! ## entries -/

/-- `CacheConfig`. -/
structure CacheConfig where
  ttl : Nat
  maxEntries : Nat
  enabled : Bool
deriving DecidableEq, Repr

/-- `CachedResponse`.  The body is only handed on, so its type is left open. -/
structure CachedResponse (B : Type) where
  body : B
  contentType : String
  status : UInt16
  sourceHash : UInt64
  createdAt : Nat
  ttl : Nat
deriving DecidableEq, Repr

variable {B : Type}

/-- `Instant::elapsed`. -/
def CachedResponse.elapsed (r : CachedResponse B) (now : Nat) : Nat := now - r.createdAt

/-- `CachedResponse::is_valid`. -/
def CachedResponse.isValid (r : CachedResponse B) (currentSourceHash : UInt64) (now : Nat) : Bool :=
  r.sourceHash == currentSourceHash && decide (r.elapsed now < r.ttl)

/-! ## the map -/

/-- `ResponseCache`.  The entries stand in the order in which they are iterated. -/
structure ResponseCache (B : Type) where
  config : CacheConfig
  store : List (String × CachedResponse B) := []
deriving DecidableEq, Repr

/-- `cache_key`. -/
def cacheKey (method path : String) : String := method ++ ":" ++ path

/-- `DashMap::get`. -/
def ResponseCache.find (c : ResponseCache B) (key : String) : Option (CachedResponse B) :=
  (c.store.find? (·.1 == key)).map (·.2)

/-- `DashMap::remove`. -/
def ResponseCache.remove (c : ResponseCache B) (key : String) : ResponseCache B :=
  { c with store := c.store.filter (·.1 != key) }

/-- `DashMap::insert`. -/
def ResponseCache.insert (c : ResponseCache B) (key : String) (r : CachedResponse B) :
    ResponseCache B := { c with store := (c.remove key).store ++ [(key, r)] }

/-- `ResponseCache::clear`. -/
def ResponseCache.clear (c : ResponseCache B) : ResponseCache B := { c with store := [] }

/-- What `get` finds. -/
inductive Peek (B : Type)
  | hit (r : CachedResponse B)
  | stale
  | absent
deriving DecidableEq, Repr

/-- The first access of `get`. -/
def ResponseCache.peek (c : ResponseCache B) (method path : String) (sourceHash : UInt64)
    (now : Nat) : Peek B :=
  if !c.config.enabled then .absent
  else match c.find (cacheKey method path) with
    | some r => if r.isValid sourceHash now then .hit r else .stale
    | none => .absent

/-- `ResponseCache::get`, when nobody comes in between. -/
def ResponseCache.get (c : ResponseCache B) (method path : String) (sourceHash : UInt64)
    (now : Nat) : Option (CachedResponse B) × ResponseCache B :=
  match c.peek method path sourceHash now with
  | .hit r => (some r, c)
  | .stale => (none, c.remove (cacheKey method path))
  | .absent => (none, c)

/-! ## `put` -/

/-- The scan of `evict_oldest`: the greatest age so far, and whose it is. -/
def oldest (now : Nat) :
    List (String × CachedResponse B) → Nat × Option String → Nat × Option String
  | [], acc => acc
  | (key, r) :: rest, acc =>
    oldest now rest (if acc.1 < r.elapsed now then (r.elapsed now, some key) else acc)

/-- `evict_oldest`.  Entries made at this instant are never evicted. -/
def ResponseCache.evictOldest (c : ResponseCache B) (now : Nat) : ResponseCache B :=
  match (oldest now c.store (0, none)).2 with
  | some key => c.remove key
  | none => c

/-- The check of the capacity in `put`. -/
def ResponseCache.makeRoom (c : ResponseCache B) (now : Nat) : ResponseCache B :=
  if c.config.maxEntries ≤ c.store.length then c.evictOldest now else c

/-- Only successful `GET` responses are stored. -/
def ResponseCache.stores (c : ResponseCache B) (method : String) (status : UInt16) : Bool :=
  c.config.enabled && method == "GET" && status == 200

/-- The entry that `put` makes. -/
def ResponseCache.entryFor (c : ResponseCache B) (sourceHash : UInt64) (status : UInt16)
    (contentType : String) (body : B) (now : Nat) : CachedResponse B :=
  ⟨body, contentType, status, sourceHash, now, c.config.ttl⟩

/-- `ResponseCache::put`, when nobody comes in between. -/
def ResponseCache.put (c : ResponseCache B) (method path : String) (sourceHash : UInt64)
    (status : UInt16) (contentType : String) (body : B) (now : Nat) : ResponseCache B :=
  if c.stores method status then
    (c.makeRoom now).insert (cacheKey method path)
      (c.entryFor sourceHash status contentType body now)
  else c

/-- `ResponseCache::put_bytes`: `put`, for a body that need not be copied. -/
def ResponseCache.putBytes (c : ResponseCache B) (method path : String) (sourceHash : UInt64)
    (status : UInt16) (contentType : String) (body : B) (now : Nat) : ResponseCache B :=
  c.put method path sourceHash status contentType body now

/-- `ResponseCache::invalidate`. -/
def ResponseCache.invalidate (c : ResponseCache B) (path : String) : ResponseCache B :=
  c.remove ("GET:" ++ path)

/-- `ResponseCache::purge_expired`: how many entries go, and what is left. -/
def ResponseCache.purgeExpired (c : ResponseCache B) (now : Nat) : Nat × ResponseCache B :=
  (c.store.countP fun e => e.2.ttl ≤ e.2.elapsed now,
    { c with store := c.store.filter fun e => !(e.2.ttl ≤ e.2.elapsed now) })

/-! ## what holds of every entry -/

variable {c : ResponseCache B} {P Q : String → CachedResponse B → Prop} {key method path : String}
  {r : CachedResponse B}

/-- `P` holds of every entry and its key. -/
def ResponseCache.Every (P : String → CachedResponse B → Prop) (c : ResponseCache B) : Prop :=
  ∀ e ∈ c.store, P e.1 e.2

theorem ResponseCache.Every.mono (h : c.Every P) (hPQ : ∀ k r, P k r → Q k r) : c.Every Q :=
  fun e he => hPQ e.1 e.2 (h e he)

theorem ResponseCache.Every.remove (h : c.Every P) : (c.remove key).Every P :=
  fun e he => h e (List.mem_filter.1 he).1

theorem every_clear : c.clear.Every P := fun _ he => absurd he List.not_mem_nil

theorem ResponseCache.Every.insert (h : c.Every P) (hr : P key r) : (c.insert key r).Every P := by
  intro e he
  rcases List.mem_append.1 he with he | he
  · exact h.remove e he
  · rw [List.mem_singleton.1 he]
    exact hr

theorem ResponseCache.Every.makeRoom {now : Nat} (h : c.Every P) : (c.makeRoom now).Every P := by
  unfold ResponseCache.makeRoom ResponseCache.evictOldest
  split
  · split
    · exact h.remove
    · exact h
  · exact h

/-- What is found under a key was stored under it. -/
theorem ResponseCache.Every.find (h : c.Every P) (hr : c.find key = some r) : P key r := by
  obtain ⟨e, he, rfl⟩ := Option.map_eq_some_iff.1 hr
  have hkey : e.1 = key := by simpa using List.find?_some he
  rw [← hkey]
  exact h e (List.mem_of_find?_eq_some he)

theorem ResponseCache.Every.peek {sourceHash : UInt64} {now : Nat} (h : c.Every P)
    (hr : c.peek method path sourceHash now = .hit r) : P (cacheKey method path) r := by
  unfold ResponseCache.peek at hr
  split at hr
  · cases hr
  · split at hr
    case h_1 r' hfind =>
      split at hr <;> cases hr
      exact h.find hfind
    · cases hr

end Turbine.Cache
