import Mathlib.Algebra.Order.Floor.Semifield
import Mathlib.Data.List.Induction
import Mathlib.Data.Rat.Floor
import Mathlib.Tactic.FieldSimp
import Turbine.Base.Float64
import Turbine.Base.Ranks

/-!
# Turbine.Metrics.Histogram

`LatencyHistogram`: fixed buckets, a sum and a count, all of them counters of 64 bits,
and the percentile that is read off the buckets.

* `Counts.record`, `counts_recordAll`: the counters hold the tally of the latencies, until
  they wrap around;
* `percentile_mono_iff`: percentiles are monotone, except that the mean answers for the
  bucket above all bounds and may be below the bound of another one.
-/

namespace Turbine.Metrics

open Base

/-! ## recording -/

/-- `BUCKETS_US`, in microseconds. -/
def bucketsUs : List UInt64 := [100, 250, 500, 1000, 2500, 5000, 10000, 25000, 50000, 100000]

/-- `NUM_BUCKETS`: the bounded ones, and one for what is above all bounds. -/
def numBuckets : Nat := 11

structure LatencyHistogram where
  buckets : List UInt64
  sumUs : UInt64
  count : UInt64
  size : buckets.length = numBuckets

namespace LatencyHistogram

def new : LatencyHistogram := ⟨List.replicate numBuckets 0, 0, 0, List.length_replicate⟩

/-- The first bucket with room for the latency, or the one above all bounds. -/
def bucketIndex (latencyUs : UInt64) : Nat := bucketsUs.findIdx (latencyUs ≤ ·)

/-- `record`.  `fetch_add` wraps around. -/
def record (h : LatencyHistogram) (latencyUs : UInt64) : LatencyHistogram where
  buckets := h.buckets.modify (bucketIndex latencyUs) (· + 1)
  sumUs := h.sumUs + latencyUs
  count := h.count + 1
  size := by rw [List.length_modify, h.size]

def recordAll (h : LatencyHistogram) (latencies : List UInt64) : LatencyHistogram :=
  latencies.foldl record h

/-! ## reading -/

def meanUs (h : LatencyHistogram) : UInt64 := if h.count = 0 then 0 else h.sumUs / h.count

/-- The loop over the buckets from index `i` on. -/
def percentileLoop (mean target : UInt64) : UInt64 → Nat → List UInt64 → UInt64
  | _, _, [] => mean
  | cumulative, i, bucket :: rest =>
    if target ≤ cumulative + bucket then bucketsUs[i]?.getD mean
    else percentileLoop mean target (cumulative + bucket) (i + 1) rest

/-- `percentile`, with the computation of the target rank from the total. -/
def percentile (h : LatencyHistogram) (rank : UInt64 → UInt64) : UInt64 :=
  if h.count = 0 then 0
  else percentileLoop (h.sumUs / h.count) (rank h.count) 0 0 h.buckets

/-- The rank as it is computed, in double precision. -/
def floatRank (p : Float64) (total : UInt64) : UInt64 := ((Float64.ofNat total.toNat).mul p).ceilU64

/-- The rank without rounding: a conversion to `u64` stops at the largest one. -/
def exactRank (p : ℚ) (total : UInt64) : UInt64 :=
  UInt64.ofNat (min ⌈(total.toNat : ℚ) * p⌉₊ (2 ^ 64 - 1))

/-! ## what the counters hold -/

/-- The bound of the bucket a latency is counted in; `none` above all bounds. -/
def bucketBound (latencyUs : UInt64) : Option UInt64 := bucketsUs[bucketIndex latencyUs]?

/-- How many of the latencies each bucket has. -/
def tally (latencies : List UInt64) : List Nat :=
  (List.range numBuckets).map fun i => latencies.countP (bucketIndex · == i)

theorem bucketIndex_lt (latencyUs : UInt64) : bucketIndex latencyUs < numBuckets :=
  Nat.lt_succ_of_le List.findIdx_le_length

@[simp]
theorem length_tally (latencies : List UInt64) : (tally latencies).length = numBuckets := by
  simp [tally]

theorem getElem?_tally (latencies : List UInt64) (h : i < numBuckets) :
    (tally latencies)[i]? = some (latencies.countP (bucketIndex · == i)) := by
  simp [tally, h]

theorem tally_append (latencies : List UInt64) (l : UInt64) :
    tally (latencies ++ [l]) = (tally latencies).modify (bucketIndex l) (· + 1) := by
  refine List.ext_getElem? fun i => ?_
  by_cases hi : i < numBuckets
  · rw [List.getElem?_modify, getElem?_tally _ hi, getElem?_tally _ hi, List.countP_append]
    by_cases hl : bucketIndex l = i <;> simp [hl]
  · rw [List.getElem?_eq_none (by simpa using hi), List.getElem?_eq_none (by simpa using hi)]

/-- Every latency is counted once. -/
theorem sum_tally (latencies : List UInt64) : (tally latencies).sum = latencies.length := by
  have hcount : ∀ n, ((List.range n).map fun i => latencies.countP (bucketIndex · == i)).sum =
      latencies.countP (bucketIndex · < n) := by
    intro n
    induction n with
    | zero => simp
    | succ n ih =>
      rw [List.range_succ, List.map_append, List.sum_append, ih, List.map_singleton,
        List.sum_singleton]
      clear ih
      induction latencies with
      | nil => rfl
      | cons l latencies ih =>
        simp only [List.countP_cons, decide_eq_true_eq, beq_iff_eq] at ih ⊢
        grind
  rw [tally, hcount, List.countP_eq_length]
  simp [bucketIndex_lt]

/-- As long as the counters do not wrap around. -/
structure Counts (latencies : List UInt64) (h : LatencyHistogram) : Prop where
  buckets : h.buckets.map UInt64.toNat = tally latencies
  sum : h.sumUs.toNat = (latencies.map UInt64.toNat).sum
  count : h.count.toNat = latencies.length

/-- One more latency. -/
theorem Counts.record {latencies : List UInt64} (h : LatencyHistogram) (hc : Counts latencies h)
    (hcount : (latencies ++ [l]).length < 2 ^ 64)
    (hsum : ((latencies ++ [l]).map UInt64.toNat).sum < 2 ^ 64) :
    Counts (latencies ++ [l]) (h.record l) where
  buckets := by
    rw [tally_append, ← hc.buckets]
    refine List.ext_getElem? fun i => ?_
    rw [LatencyHistogram.record, List.getElem?_map, List.getElem?_modify, List.getElem?_modify,
      List.getElem?_map]
    cases hi : h.buckets[i]? with
    | none => rfl
    | some n =>
      -- a bucket has no more than there are latencies
      have hn : n.toNat ≤ latencies.length := by
        have hlt : i < numBuckets := h.size ▸ (List.getElem?_eq_some_iff.1 hi).1
        have hcounted := getElem?_tally latencies hlt
        rw [← hc.buckets, List.getElem?_map, hi] at hcounted
        rw [Option.some.inj hcounted]
        exact List.countP_le_length
      rw [List.length_append, List.length_singleton] at hcount
      by_cases hl : bucketIndex l = i
      · simp [hl, UInt64.toNat_add]
        omega
      · simp [hl]
  sum := by
    rw [List.map_append, List.sum_append, ← hc.sum] at hsum ⊢
    rw [LatencyHistogram.record, UInt64.toNat_add, List.map_singleton, List.sum_singleton] at *
    exact Nat.mod_eq_of_lt hsum
  count := by
    rw [List.length_append, List.length_singleton, ← hc.count] at hcount ⊢
    rw [LatencyHistogram.record, UInt64.toNat_add]
    exact Nat.mod_eq_of_lt hcount

theorem counts_recordAll (latencies : List UInt64) (hcount : latencies.length < 2 ^ 64)
    (hsum : (latencies.map UInt64.toNat).sum < 2 ^ 64) :
    Counts latencies (new.recordAll latencies) := by
  induction latencies using List.reverseRecOn with
  | nil => exact ⟨by decide, rfl, rfl⟩
  | append_singleton latencies l ih =>
    have hlength := hcount
    have htotal := hsum
    rw [List.length_append] at hlength
    rw [List.map_append, List.sum_append] at htotal
    rw [recordAll, List.foldl_append]
    exact (ih (by omega) (by omega)).record _ hcount hsum

/-! ## percentiles -/

/-- The loop finds the bucket where the running sum reaches the rank. -/
theorem percentileLoop_eq (mean target : UInt64) (buckets : List UInt64) :
    ∀ cumulative i, cumulative.toNat + (buckets.map UInt64.toNat).sum < 2 ^ 64 →
      i + buckets.length = numBuckets →
      percentileLoop mean target cumulative i buckets =
        bucketsUs[i + reach (buckets.map UInt64.toNat) (target.toNat - cumulative.toNat)]?.getD
          mean := by
  induction buckets with
  | nil =>
    intro cumulative i _ hi
    obtain rfl : i = numBuckets := hi
    rfl
  | cons bucket rest ih =>
    intro cumulative i hsum hi
    rw [List.map_cons, List.sum_cons] at hsum
    rw [List.length_cons] at hi
    have hnext : (cumulative + bucket).toNat = cumulative.toNat + bucket.toNat := by
      rw [UInt64.toNat_add]
      exact Nat.mod_eq_of_lt (by omega)
    rw [percentileLoop, List.map_cons, reach]
    by_cases hreached : target.toNat ≤ cumulative.toNat + bucket.toNat
    · rw [if_pos (UInt64.le_iff_toNat_le.2 (hnext ▸ hreached)), if_pos (by omega), Nat.add_zero]
    · rw [if_neg (fun h => hreached (hnext ▸ UInt64.le_iff_toNat_le.1 h)), if_neg (by omega),
        ih _ _ (by omega) (by omega), hnext, Nat.sub_add_eq, Nat.add_right_comm, Nat.add_assoc]

theorem toNat_exactRank {p : ℚ} (hp : p ≤ 1) (total : UInt64) :
    (exactRank p total).toNat = ⌈(total.toNat : ℚ) * p⌉₊ := by
  have hle : ⌈(total.toNat : ℚ) * p⌉₊ ≤ total.toNat :=
    Nat.ceil_le.2 (mul_le_of_le_one_right (Nat.cast_nonneg _) hp)
  have hlt := total.toNat_lt
  rw [exactRank, Nat.min_eq_left (by omega), UInt64.toNat_ofNat']
  exact Nat.mod_eq_of_lt (by omega)

section Recorded

variable {latencies : List UInt64} {h : LatencyHistogram}

theorem count_ne_zero (hc : Counts latencies h) (hne : latencies ≠ []) : h.count ≠ 0 := by
  intro hzero
  have hlength := hc.count
  rw [hzero] at hlength
  exact hne (List.length_eq_zero_iff.1 hlength.symm)

theorem toNat_meanUs (hc : Counts latencies h) (hne : latencies ≠ []) :
    h.meanUs.toNat = (latencies.map UInt64.toNat).sum / latencies.length := by
  rw [meanUs, if_neg (count_ne_zero hc hne), UInt64.toNat_div, hc.sum, hc.count]

theorem percentile_eq (hc : Counts latencies h) (hne : latencies ≠ [])
    (hcount : latencies.length < 2 ^ 64) {p : ℚ} (hp : p ≤ 1) :
    h.percentile (exactRank p) =
      bucketsUs[reach (tally latencies) ⌈(latencies.length : ℚ) * p⌉₊]?.getD h.meanUs := by
  have hsum : (0 : UInt64).toNat + (h.buckets.map UInt64.toNat).sum < 2 ^ 64 := by
    rw [hc.buckets, sum_tally]
    simpa using hcount
  rw [percentile, meanUs, if_neg (count_ne_zero hc hne), if_neg (count_ne_zero hc hne),
    percentileLoop_eq _ _ _ _ _ hsum (by rw [h.size, Nat.zero_add]), toNat_exactRank hp, hc.buckets,
    hc.count, UInt64.toNat_zero, Nat.sub_zero, Nat.zero_add]

theorem exists_of_reach {rank : Nat} (hpos : 0 < rank) (hle : rank ≤ latencies.length) :
    ∃ l ∈ latencies, bucketIndex l = reach (tally latencies) rank := by
  have hlt : reach (tally latencies) rank < numBuckets := by
    rw [← length_tally latencies]
    exact reach_lt_length hpos (by rwa [sum_tally])
  have hcounted := pos_of_reach hpos (getElem?_tally latencies hlt)
  obtain ⟨l, hl, hindex⟩ := List.countP_pos_iff.1 hcounted
  exact ⟨l, hl, beq_iff_eq.1 hindex⟩

theorem bucketsUs_le {i j : Nat} {a b : UInt64} (hij : i ≤ j) (ha : bucketsUs[i]? = some a)
    (hb : bucketsUs[j]? = some b) : a ≤ b := by
  have hsorted : bucketsUs.Pairwise (· ≤ ·) := by decide
  obtain ⟨hi, rfl⟩ := List.getElem?_eq_some_iff.1 ha
  obtain ⟨hj, rfl⟩ := List.getElem?_eq_some_iff.1 hb
  obtain rfl | hlt := Nat.eq_or_lt_of_le hij
  · exact UInt64.le_refl _
  · exact List.pairwise_iff_getElem.1 hsorted i j hi hj hlt

theorem lt_of_bucketBound {l : UInt64} (hl : bucketBound l = none) : 100000 < l.toNat := by
  have hindex : bucketIndex l = bucketsUs.length :=
    Nat.le_antisymm List.findIdx_le_length (List.getElem?_eq_none_iff.1 hl)
  have hlast := List.findIdx_eq_length.1 hindex 100000 (by decide)
  simpa [UInt64.le_iff_toNat_le] using hlast

/-- A mean that is not below the bound of any bucket in use is not below the first bound,
which is the answer to rank 0. -/
theorem first_le_mean (hne : latencies ≠ []) (hmean : ∀ l ∈ latencies, ∀ b, bucketBound l = some b →
      b.toNat ≤ (latencies.map UInt64.toNat).sum / latencies.length) :
    100 ≤ (latencies.map UInt64.toNat).sum / latencies.length := by
  by_cases hall : ∀ l ∈ latencies, bucketBound l = none
  · have hsum := List.card_nsmul_le_sum (latencies.map UInt64.toNat) 100 (by
      intro n hn
      obtain ⟨l, hl, rfl⟩ := List.mem_map.1 hn
      have := lt_of_bucketBound (hall l hl)
      omega)
    rw [Nat.le_div_iff_mul_le (List.length_pos_iff.2 hne), Nat.mul_comm]
    simpa using hsum
  · obtain ⟨l, hl, hsome⟩ : ∃ l ∈ latencies, bucketBound l ≠ none := by simpa using hall
    obtain ⟨b, hb⟩ := Option.ne_none_iff_exists'.1 hsome
    have hfirst : (100 : UInt64) ≤ b := bucketsUs_le (Nat.zero_le _) rfl hb
    exact Nat.le_trans (UInt64.le_iff_toNat_le.1 hfirst) (hmean l hl b hb)

/-- Two ranks, if the answer above all bounds is not below the others. -/
theorem answer_le_answer {mean : UInt64} {rank rank' : Nat} (hrank : rank ≤ rank')
    (hlast : rank' ≤ latencies.length) (hmean : (∃ l ∈ latencies, bucketBound l = none) →
      100 ≤ mean ∧ ∀ l ∈ latencies, ∀ b, bucketBound l = some b → b ≤ mean) :
    bucketsUs[reach (tally latencies) rank]?.getD mean ≤
      bucketsUs[reach (tally latencies) rank']?.getD mean := by
  have hreach : reach (tally latencies) rank ≤ reach (tally latencies) rank' := reach_mono hrank
  cases hb' : bucketsUs[reach (tally latencies) rank']? with
  | some b' =>
    have hlt := (List.getElem?_eq_some_iff.1 hb').1
    have hb := List.getElem?_eq_getElem (Nat.lt_of_le_of_lt hreach hlt)
    rw [hb]
    exact bucketsUs_le hreach hb hb'
  | none =>
    have hpos' : 0 < rank' := by
      refine Nat.pos_of_ne_zero fun hzero => ?_
      rw [hzero, reach_zero] at hb'
      exact Option.some_ne_none _ hb'
    obtain ⟨above, habove, hindex⟩ := exists_of_reach hpos' hlast
    obtain ⟨hfirst, hmean⟩ := hmean ⟨above, habove, by rw [bucketBound, hindex, hb']⟩
    cases hb : bucketsUs[reach (tally latencies) rank]? with
    | none => exact UInt64.le_refl _
    | some b =>
      obtain rfl | hpos := Nat.eq_zero_or_pos rank
      · rw [reach_zero] at hb
        obtain rfl : 100 = b := Option.some.inj hb
        exact hfirst
      · obtain ⟨l, hl, hindex⟩ := exists_of_reach hpos (hrank.trans hlast)
        exact hmean l hl b (by rw [bucketBound, hindex, hb])

theorem reach_of_mem {l : UInt64} (hl : l ∈ latencies) :
    ∃ rank ≤ latencies.length, reach (tally latencies) rank = bucketIndex l := by
  have hcounted : 0 < latencies.countP (bucketIndex · == bucketIndex l) :=
    List.countP_pos_iff.2 ⟨l, hl, beq_self_eq_true _⟩
  refine ⟨((tally latencies).take (bucketIndex l + 1)).sum, ?_,
    reach_sum_take (getElem?_tally latencies (bucketIndex_lt l)) hcounted⟩
  rw [← sum_tally latencies]
  exact (List.take_sublist _ _).sum_le_sum fun _ _ => Nat.zero_le _

/-- Of two percentiles, one that shows the bound of `l` and the last. -/
theorem bound_le_mean (hc : Counts latencies h) (hne : latencies ≠ [])
    (hcount : latencies.length < 2 ^ 64) (hmono : ∀ p q : ℚ, 0 ≤ p → p ≤ q → q ≤ 1 →
      h.percentile (exactRank p) ≤ h.percentile (exactRank q))
    {above l b : UInt64} (habove : above ∈ latencies) (hnone : bucketBound above = none)
    (hl : l ∈ latencies) (hb : bucketBound l = some b) : b ≤ h.meanUs := by
  obtain ⟨rank, hrank, hreach⟩ := reach_of_mem hl
  have hlength : (0 : ℚ) < latencies.length := Nat.cast_pos.2 (List.length_pos_iff.2 hne)
  have hp : (rank : ℚ) / latencies.length ≤ 1 := div_le_one_of_le₀ (Nat.cast_le.2 hrank) hlength.le
  have hle := hmono (rank / latencies.length) 1 (by positivity) hp le_rfl
  -- the last rank is reached in the bucket above all bounds
  have hlast : bucketsUs[reach (tally latencies) latencies.length]? = none := by
    obtain ⟨rank', hrank', hreach'⟩ := reach_of_mem habove
    rw [bucketBound, ← hreach', List.getElem?_eq_none_iff] at hnone
    exact List.getElem?_eq_none (hnone.trans (reach_mono hrank'))
  rwa [percentile_eq hc hne hcount hp, percentile_eq hc hne hcount le_rfl,
    mul_div_cancel₀ _ hlength.ne', mul_one, Nat.ceil_natCast, Nat.ceil_natCast, hreach,
    ← bucketBound, hb, hlast] at hle

theorem percentile_le_percentile (hc : Counts latencies h) (hne : latencies ≠ [])
    (hcount : latencies.length < 2 ^ 64) (hmean : (∃ l ∈ latencies, bucketBound l = none) →
      100 ≤ h.meanUs ∧ ∀ l ∈ latencies, ∀ b, bucketBound l = some b → b ≤ h.meanUs)
    {p q : ℚ} (hpq : p ≤ q) (hq : q ≤ 1) :
    h.percentile (exactRank p) ≤ h.percentile (exactRank q) := by
  have hrank : ⌈(latencies.length : ℚ) * p⌉₊ ≤ ⌈(latencies.length : ℚ) * q⌉₊ :=
    Nat.ceil_mono (mul_le_mul_of_nonneg_left hpq (Nat.cast_nonneg _))
  have hlast : ⌈(latencies.length : ℚ) * q⌉₊ ≤ latencies.length :=
    Nat.ceil_le.2 (mul_le_of_le_one_right (Nat.cast_nonneg _) hq)
  rw [percentile_eq hc hne hcount (hpq.trans hq), percentile_eq hc hne hcount hq]
  exact answer_le_answer hrank hlast hmean

end Recorded

/-- Percentiles are monotone unless a latency is above all bounds: the answer for it is the
mean, which may be below the bound of a bucket in use. -/
theorem percentile_mono_iff (latencies : List UInt64) (hcount : latencies.length < 2 ^ 64)
    (hsum : (latencies.map UInt64.toNat).sum < 2 ^ 64) :
    (∀ p q : ℚ, 0 ≤ p → p ≤ q → q ≤ 1 →
      (new.recordAll latencies).percentile (exactRank p) ≤
        (new.recordAll latencies).percentile (exactRank q)) ↔
      ((∃ l ∈ latencies, bucketBound l = none) → ∀ l ∈ latencies, ∀ b, bucketBound l = some b →
        b.toNat ≤ (latencies.map UInt64.toNat).sum / latencies.length) := by
  have hc := counts_recordAll latencies hcount hsum
  by_cases hne : latencies = []
  · subst hne
    simp [recordAll, percentile, new]
  constructor
  · rintro hmono ⟨above, habove, hnone⟩ l hl b hb
    rw [← toNat_meanUs hc hne]
    exact UInt64.le_iff_toNat_le.1 (bound_le_mean hc hne hcount hmono habove hnone hl hb)
  · intro hmean p q _ hpq hq
    refine percentile_le_percentile hc hne hcount (fun habove => ⟨?_, fun l hl b hb => ?_⟩) hpq hq
    · rw [UInt64.le_iff_toNat_le, toNat_meanUs hc hne]
      exact first_le_mean hne (hmean habove)
    · rw [UInt64.le_iff_toNat_le, toNat_meanUs hc hne]
      exact hmean habove l hl b hb

/-- No latency is above all bounds. -/
theorem percentile_mono_iff_bounded :
    (new.recordAll [200, 8000]).percentile (exactRank (1 / 2)) ≤
      (new.recordAll [200, 8000]).percentile (exactRank (9 / 10)) :=
  (percentile_mono_iff [200, 8000] (by decide) (by decide)).2 (by decide) (1 / 2) (9 / 10)
    (by norm_num) (by norm_num) (by norm_num)

/-- Nine latencies of 60 ms and one just above 100 ms. -/
theorem not_percentile_mono : let h := new.recordAll (List.replicate 9 60000 ++ [100001])
    h.percentile (exactRank (9 / 10)) = 100000 ∧ h.percentile (exactRank 1) = 64000 := by
  have hceil : ⌈((UInt64.toNat 10 : ℕ) : ℚ) * (9 / 10)⌉₊ = 9 := by
    rw [show UInt64.toNat 10 = 10 from rfl]
    norm_num
  have hrank : exactRank (9 / 10) 10 = 9 := by
    rw [exactRank, hceil]
    rfl
  have hrank' : exactRank 1 10 = 10 := by
    rw [exactRank, mul_one, Nat.ceil_natCast]
    rfl
  constructor
  · show percentileLoop _ (exactRank (9 / 10) 10) 0 0 _ = _
    rw [hrank]
    decide
  · show percentileLoop _ (exactRank 1 10) 0 0 _ = _
    rw [hrank']
    decide

end LatencyHistogram

end Turbine.Metrics
