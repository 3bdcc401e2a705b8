import Mathlib.Data.List.Dedup
import Turbine.Base.Assoc
import Turbine.Metrics.Histogram

/-!
# Turbine.Metrics.Collector

`MetricsCollector`: counters of 64 bits over all requests, and a map with the counters of
every path.

* `Tracks.record`, `tracks_collect`: the map has the paths of the requests, each with the
  number of its requests.
-/

namespace Turbine.Metrics

open Base

/-! ## recording -/

structure EndpointMetrics where
  requests : UInt64
  errors : UInt64
  bytesOut : UInt64
  latency : LatencyHistogram

def EndpointMetrics.new : EndpointMetrics := ⟨0, 0, 0, .new⟩

/-- What `record_request` does to the entry of the path. -/
def EndpointMetrics.record (status : UInt16) (latencyUs bytes : UInt64) (e : EndpointMetrics) :
    EndpointMetrics where
  requests := e.requests + 1
  errors := if 500 ≤ status then e.errors + 1 else e.errors
  bytesOut := e.bytesOut + bytes
  latency := e.latency.record latencyUs

/-- The map has no key twice; the order of its entries means nothing. -/
structure MetricsCollector where
  totalRequests : UInt64
  totalErrors : UInt64
  totalBytesOut : UInt64
  total2xx : UInt64
  total3xx : UInt64
  total4xx : UInt64
  total5xx : UInt64
  cacheHits : UInt64
  cacheMisses : UInt64
  securityBlocks : UInt64
  latency : LatencyHistogram
  endpoints : List (String × EndpointMetrics)
  distinct : (endpoints.map Prod.fst).Nodup

namespace MetricsCollector

def new : MetricsCollector := ⟨0, 0, 0, 0, 0, 0, 0, 0, 0, 0, .new, [], List.nodup_nil⟩

/-- One more if the condition holds. -/
def bump (p : Prop) [Decidable p] (n : UInt64) : UInt64 := if p then n + 1 else n

/-- `record_request`. -/
def recordRequest (m : MetricsCollector) (path : String) (status : UInt16)
    (latencyUs bytes : UInt64) : MetricsCollector where
  totalRequests := m.totalRequests + 1
  totalErrors := bump (500 ≤ status ∧ status ≤ 599) m.totalErrors
  totalBytesOut := m.totalBytesOut + bytes
  total2xx := bump (200 ≤ status ∧ status ≤ 299) m.total2xx
  total3xx := bump (300 ≤ status ∧ status ≤ 399) m.total3xx
  total4xx := bump (400 ≤ status ∧ status ≤ 499) m.total4xx
  total5xx := bump (500 ≤ status ∧ status ≤ 599) m.total5xx
  cacheHits := m.cacheHits
  cacheMisses := m.cacheMisses
  securityBlocks := m.securityBlocks
  latency := m.latency.record latencyUs
  endpoints := upsert path .new (EndpointMetrics.record status latencyUs bytes) m.endpoints
  distinct := nodup_keys_upsert m.distinct

/-- `record_cache_hit`. -/
def recordCacheHit (m : MetricsCollector) : MetricsCollector :=
  { m with cacheHits := m.cacheHits + 1 }

/-- `record_cache_miss`. -/
def recordCacheMiss (m : MetricsCollector) : MetricsCollector :=
  { m with cacheMisses := m.cacheMisses + 1 }

/-- `record_security_block`. -/
def recordSecurityBlock (m : MetricsCollector) : MetricsCollector :=
  { m with securityBlocks := m.securityBlocks + 1 }

/-- `rps`, after `secs` seconds. -/
def rps (m : MetricsCollector) (secs : UInt64) : Float64 :=
  if secs = 0 then .ofNat m.totalRequests.toNat
  else (Float64.ofNat m.totalRequests.toNat).div (.ofNat secs.toNat)

/-- `cache_hit_ratio`. -/
def cacheHitRatio (m : MetricsCollector) : Float64 :=
  let total := m.cacheHits + m.cacheMisses
  if total = 0 then .ofNat 0
  else (Float64.ofNat m.cacheHits.toNat).div (.ofNat total.toNat)

end MetricsCollector

/-! ## runs -/

inductive Event
  | request (path : String) (status : UInt16) (latencyUs bytes : UInt64)
  | cacheHit
  | cacheMiss
  | securityBlock
deriving DecidableEq, Repr

def MetricsCollector.apply (m : MetricsCollector) : Event → MetricsCollector
  | .request path status latencyUs bytes => m.recordRequest path status latencyUs bytes
  | .cacheHit => m.recordCacheHit
  | .cacheMiss => m.recordCacheMiss
  | .securityBlock => m.recordSecurityBlock

/-- The collector after the events. -/
def collect (events : List Event) : MetricsCollector := events.foldl MetricsCollector.apply .new

/-- The path of a request. -/
def Event.path? : Event → Option String
  | .request path .. => some path
  | _ => none

/-- The paths of the requests, in order. -/
def paths (events : List Event) : List String := events.filterMap Event.path?

/-- The entries are the paths, with the number of requests. -/
structure Tracks (paths : List String) (endpoints : List (String × EndpointMetrics)) : Prop where
  keys : ∀ path, path ∈ endpoints.map Prod.fst ↔ path ∈ paths
  requests : ∀ path e, endpoints.find? (·.1 == path) = some (path, e) →
    e.requests = .ofNat (paths.count path)

section Tracks

variable {paths : List String} {endpoints : List (String × EndpointMetrics)}

/-- The entry of a path, or the one that is made for it. -/
theorem Tracks.requests_getD (h : Tracks paths endpoints) (path : String) :
    ((endpoints.find? (·.1 == path)).map Prod.snd |>.getD .new).requests =
      .ofNat (paths.count path) := by
  cases hentry : endpoints.find? (·.1 == path) with
  | none =>
    have hpath : path ∉ paths := by
      rw [← h.keys]
      intro hmem
      obtain ⟨entry, hentry', rfl⟩ := List.mem_map.1 hmem
      exact absurd (List.find?_eq_none.1 hentry entry hentry') (by simp)
    rw [List.count_eq_zero_of_not_mem hpath]
    rfl
  | some entry =>
    obtain ⟨rfl, -⟩ := mem_of_find? hentry
    exact h.requests _ _ hentry

theorem Tracks.record (h : Tracks paths endpoints) (path : String) (status : UInt16)
    (latencyUs bytes : UInt64) :
    Tracks (paths ++ [path])
      (upsert path .new (EndpointMetrics.record status latencyUs bytes) endpoints) where
  keys other := by rw [mem_keys_upsert, h.keys, List.mem_append, List.mem_singleton, or_comm]
  requests other e hfind := by
    by_cases hother : other = path
    · subst hother
      rw [find?_upsert_self] at hfind
      obtain rfl := (Prod.mk.inj (Option.some.inj hfind)).2
      rw [EndpointMetrics.record, h.requests_getD, List.count_append, List.count_singleton_self,
        UInt64.ofNat_add]
      rfl
    · rw [find?_upsert_ne hother] at hfind
      have hnone : [path].count other = 0 := List.count_eq_zero_of_not_mem (by simpa using hother)
      rw [h.requests other e hfind, List.count_append, hnone, Nat.add_zero]

end Tracks

theorem tracks_collect (events : List Event) :
    Tracks (paths events) (collect events).endpoints := by
  induction events using List.reverseRecOn with
  | nil =>
    exact ⟨by simp [collect, MetricsCollector.new, paths], by simp [collect, MetricsCollector.new]⟩
  | append_singleton events event ih =>
    rw [collect, List.foldl_append, paths, List.filterMap_append]
    cases event with
    | request path status latencyUs bytes => exact ih.record path status latencyUs bytes
    | cacheHit | cacheMiss | securityBlock =>
      rw [List.filterMap_cons_none rfl, List.filterMap_nil, List.append_nil]
      exact ih

theorem perm_keys_collect (events : List Event) :
    ((collect events).endpoints.map Prod.fst).Perm (paths events).dedup := by
  rw [List.perm_ext_iff_of_nodup (collect events).distinct (List.nodup_dedup _)]
  intro path
  rw [(tracks_collect events).keys, List.mem_dedup]

theorem requests_of_mem {events : List Event} {path : String} {e : EndpointMetrics}
    (h : (path, e) ∈ (collect events).endpoints) :
    e.requests = .ofNat ((paths events).count path) :=
  (tracks_collect events).requests path e ((find?_eq_some_iff (collect events).distinct).2 h)

end Turbine.Metrics
