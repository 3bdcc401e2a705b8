import Turbine.Base.Assoc
import Turbine.Base.Runs
import Turbine.Base.Str
import Turbine.Cache.Store

/-!
# Turbine.Cache.History

The response cache over whole histories of calls, one after the other, at times that
never go back.  Nothing says in which order the map is iterated, so every `put` comes
with an order of its own.

* `capped_iff`: which puts keep the cache within its capacity and evict what they
  should;
* `latest_step`: every entry is what the last put for its path stored.
-/

namespace Turbine.Cache.History

open Base

/-! ## histories -/

/-- An order in which the map may be iterated. -/
structure Iteration (B : Type) where
  order : List (String × CachedResponse B) → List (String × CachedResponse B)
  perm : ∀ store, (order store).Perm store

/-- The arguments of `put` and `put_bytes`. -/
structure Put (B : Type) where
  method : String
  path : String
  sourceHash : UInt64
  status : UInt16
  contentType : String
  body : B

inductive Op (B : Type)
  | put (iteration : Iteration B) (p : Put B)
  | putBytes (iteration : Iteration B) (p : Put B)
  | get (method path : String) (sourceHash : UInt64)
  | invalidate (path : String)
  | clear
  | purgeExpired

/-- A call, and when it is made. -/
structure Event (B : Type) where
  now : Nat
  op : Op B

structure State (B : Type) where
  cache : ResponseCache B
  clock : Nat := 0

variable {B : Type}

def Put.key (p : Put B) : String := cacheKey p.method p.path

/-- What a call leaves behind. -/
def Op.apply (c : ResponseCache B) (now : Nat) : Op B → ResponseCache B
  | .put iteration p =>
    { c with store := iteration.order c.store }.put p.method p.path p.sourceHash p.status
      p.contentType p.body now
  | .putBytes iteration p =>
    { c with store := iteration.order c.store }.putBytes p.method p.path p.sourceHash p.status
      p.contentType p.body now
  | .get method path sourceHash => (c.get method path sourceHash now).2
  | .invalidate path => c.invalidate path
  | .clear => c.clear
  | .purgeExpired => (c.purgeExpired now).2

/-- One call; time does not go back. -/
def step (s : State B) (e : Event B) : Option (State B) :=
  if s.clock ≤ e.now then some ⟨e.op.apply s.cache e.now, e.now⟩ else none

/-- `ResponseCache::new`. -/
def initial (config : CacheConfig) : State B := { cache := { config } }

variable {s s' : State B} {e : Event B} {c : ResponseCache B} {now : Nat} {k key : String}
  {r : CachedResponse B} {iteration : Iteration B} {p : Put B}

theorem step_eq_some :
    step s e = some s' ↔ s.clock ≤ e.now ∧ s' = ⟨e.op.apply s.cache e.now, e.now⟩ := by
  rw [step, Option.ite_none_right_eq_some, Option.some.injEq, eq_comm (a := s')]

/-! ## the map -/

theorem find_remove : (c.remove key).find k = if k = key then none else c.find k := by
  rw [ResponseCache.find, ResponseCache.remove, ResponseCache.find]
  split
  case isTrue hk => rw [hk, find?_filter_self, Option.map_none]
  case isFalse hk => rw [find?_filter_ne hk]

theorem find_insert : (c.insert key r).find k = if k = key then some r else c.find k := by
  rw [ResponseCache.find, ResponseCache.insert, ResponseCache.remove, List.find?_append]
  split
  case isTrue hk =>
    subst hk
    rw [find?_filter_self]
    simp
  case isFalse hk =>
    have hlast : [(key, r)].find? (·.1 == k) = none := by simpa using Ne.symm hk
    rw [find?_filter_ne hk, hlast, Option.or_none]
    rfl

/-- No key stands in the store twice. -/
def Distinct (c : ResponseCache B) : Prop := (c.store.map Prod.fst).Nodup

theorem find_eq_some (h : Distinct c) : c.find k = some r ↔ (k, r) ∈ c.store := by
  rw [← find?_eq_some_iff h, ResponseCache.find, Option.map_eq_some_iff]
  constructor
  · rintro ⟨e, he, rfl⟩
    obtain ⟨rfl, -⟩ := mem_of_find? he
    exact he
  · intro he
    exact ⟨_, he, rfl⟩

theorem find_eq_none : c.find k = none ↔ k ∉ c.store.map Prod.fst := by
  rw [ResponseCache.find, Option.map_eq_none_iff, List.find?_eq_none, List.mem_map]
  simp only [beq_iff_eq, not_exists, not_and]

theorem distinct_remove (h : Distinct c) : Distinct (c.remove key) := nodup_keys_filter h

theorem distinct_insert (h : Distinct c) : Distinct (c.insert key r) := by
  rw [Distinct, ResponseCache.insert, List.map_append, List.nodup_append]
  refine ⟨distinct_remove h, by simp, ?_⟩
  intro a ha b hb
  have hnone : (c.remove key).find key = none := by rw [find_remove, if_pos rfl]
  obtain rfl : b = key := by simpa using hb
  rintro rfl
  exact find_eq_none.1 hnone ha

theorem length_remove (h : Distinct c) (hk : c.find key ≠ none) :
    (c.remove key).store.length + 1 = c.store.length := by
  refine length_filter_ne h ?_
  by_contra hnot
  exact hk (find_eq_none.2 hnot)

theorem length_remove_le (c : ResponseCache B) (key : String) :
    (c.remove key).store.length ≤ c.store.length := List.length_filter_le ..

theorem remove_of_absent (hk : c.find key = none) : c.remove key = c := by
  have hkeep : c.store.filter (·.1 != key) = c.store := by
    refine List.filter_eq_self.2 fun e he => ?_
    have hne : e.1 ≠ key := fun heq => find_eq_none.1 hk (List.mem_map.2 ⟨e, he, heq⟩)
    simpa using hne
  rw [ResponseCache.remove, hkeep]

theorem length_insert : (c.insert key r).store.length = (c.remove key).store.length + 1 := by
  rw [ResponseCache.insert, List.length_append, List.length_singleton]

/-! ## the scan for the oldest entry -/

/-- The entry is the first one of the greatest age. -/
def Oldest (now : Nat) (l : List (String × CachedResponse B)) (e : String × CachedResponse B) :
    Prop :=
  ∃ before after, l = before ++ e :: after ∧
    (∀ x ∈ before, x.2.elapsed now < e.2.elapsed now) ∧
    ∀ x ∈ after, x.2.elapsed now ≤ e.2.elapsed now

theorem Oldest.mem {l : List (String × CachedResponse B)} {e : String × CachedResponse B}
    (h : Oldest now l e) : e ∈ l := by
  obtain ⟨before, after, rfl, -⟩ := h
  simp

theorem Oldest.le {l : List (String × CachedResponse B)} {e x : String × CachedResponse B}
    (h : Oldest now l e) (hx : x ∈ l) : x.2.elapsed now ≤ e.2.elapsed now := by
  obtain ⟨before, after, rfl, hbefore, hafter⟩ := h
  obtain hx | hx := List.mem_append.1 hx
  · exact Nat.le_of_lt (hbefore x hx)
  · obtain rfl | hx := List.mem_cons.1 hx
    · exact Nat.le_refl _
    · exact hafter x hx

theorem Oldest.unique {l : List (String × CachedResponse B)} {e e' : String × CachedResponse B}
    (h : Oldest now l e) (h' : Oldest now l e') : e = e' := by
  have hle := h'.le h.mem
  have hge := h.le h'.mem
  obtain ⟨before, after, rfl, hbefore, -⟩ := h
  obtain ⟨before', after', heq, hbefore', -⟩ := h'
  -- neither stands before the other
  obtain ⟨between, rfl, hrest⟩ | ⟨between, rfl, hrest⟩ := List.append_eq_append_iff.1 heq
  · cases between with
    | nil => exact (List.cons.inj hrest).1
    | cons x between =>
      obtain ⟨rfl, -⟩ := List.cons.inj hrest
      exact absurd (hbefore' e (by simp)) (Nat.not_lt.2 hge)
  · cases between with
    | nil => exact (List.cons.inj hrest).1.symm
    | cons x between =>
      obtain ⟨rfl, -⟩ := List.cons.inj hrest
      exact absurd (hbefore e' (by simp)) (Nat.not_lt.2 hle)

/-- The scan finds the first entry of the greatest age, unless none is older than what it
began with. -/
theorem oldest_spec (now : Nat) (l : List (String × CachedResponse B)) (acc : Nat × Option String) :
    (oldest now l acc = acc ∧ ∀ x ∈ l, x.2.elapsed now ≤ acc.1) ∨
      ∃ e, Oldest now l e ∧ acc.1 < e.2.elapsed now ∧
        oldest now l acc = (e.2.elapsed now, some e.1) := by
  induction l generalizing acc with
  | nil => exact .inl ⟨rfl, nofun⟩
  | cons e l ih =>
    rw [oldest]
    split
    case isTrue hlt =>
      obtain ⟨heq, hall⟩ | ⟨e', ⟨before, after, rfl, hbefore, hafter⟩, hgt, heq⟩ := ih _
      · exact .inr ⟨e, ⟨[], l, rfl, nofun, hall⟩, hlt, heq⟩
      · refine .inr ⟨e', ⟨e :: before, after, rfl, ?_, hafter⟩, Nat.lt_trans hlt hgt, heq⟩
        exact List.forall_mem_cons.2 ⟨hgt, hbefore⟩
    case isFalse hle =>
      obtain ⟨heq, hall⟩ | ⟨e', ⟨before, after, rfl, hbefore, hafter⟩, hgt, heq⟩ := ih acc
      · exact .inl ⟨heq, List.forall_mem_cons.2 ⟨Nat.not_lt.1 hle, hall⟩⟩
      · refine .inr ⟨e', ⟨e :: before, after, rfl, ?_, hafter⟩, hgt, heq⟩
        exact List.forall_mem_cons.2 ⟨by omega, hbefore⟩

/-- `evict_oldest` removes the first entry of the greatest age, unless that is zero. -/
theorem evictOldest_cases (now : Nat) (c : ResponseCache B) :
    (c.evictOldest now = c ∧ ∀ x ∈ c.store, x.2.elapsed now = 0) ∨
      ∃ e, Oldest now c.store e ∧ 0 < e.2.elapsed now ∧ c.evictOldest now = c.remove e.1 := by
  rw [ResponseCache.evictOldest]
  obtain ⟨heq, hall⟩ | ⟨e, he, hpos, heq⟩ := oldest_spec now c.store (0, none)
  · rw [heq]
    exact .inl ⟨rfl, fun x hx => Nat.le_zero.1 (hall x hx)⟩
  · rw [heq]
    exact .inr ⟨e, he, hpos, rfl⟩

/-! ## what a call leaves of the entries -/

/-- The cache as a `put` iterates it. -/
def arranged (iteration : Iteration B) (c : ResponseCache B) : ResponseCache B :=
  { c with store := iteration.order c.store }

theorem length_arranged : (arranged iteration c).store.length = c.store.length :=
  (iteration.perm c.store).length_eq

theorem distinct_arranged (h : Distinct c) : Distinct (arranged iteration c) :=
  ((iteration.perm c.store).map Prod.fst).nodup_iff.2 h

theorem find_arranged (iteration : Iteration B) (h : Distinct c) :
    (arranged iteration c).find k = c.find k :=
  congrArg (Option.map Prod.snd) (find?_perm h (iteration.perm c.store))

/-- The arguments of a call that puts. -/
def Op.put? : Op B → Option (Iteration B × Put B)
  | .put iteration p => some (iteration, p)
  | .putBytes iteration p => some (iteration, p)
  | _ => none

theorem put?_inj {op : Op B} {iteration' : Iteration B} {p' : Put B}
    (h : op.put? = some (iteration, p)) (h' : op.put? = some (iteration', p')) :
    iteration = iteration' ∧ p = p' := Prod.mk.inj (Option.some.inj (h.symm.trans h'))

/-- The put is accepted. -/
def Put.Accepted (p : Put B) (config : CacheConfig) : Prop :=
  config.enabled = true ∧ p.method = "GET" ∧ p.status = 200

theorem stores_iff : c.stores p.method p.status = true ↔ p.Accepted c.config := by
  simp [ResponseCache.stores, Put.Accepted, and_assoc]

/-- The entry that the put makes. -/
def Put.entry (p : Put B) (config : CacheConfig) (now : Nat) : CachedResponse B :=
  ⟨p.body, p.contentType, p.status, p.sourceHash, now, config.ttl⟩

theorem apply_accepted (now : Nat) {op : Op B} (hop : op.put? = some (iteration, p))
    (hp : p.Accepted c.config) :
    op.apply c now =
      ((arranged iteration c).makeRoom now).insert p.key (p.entry c.config now) := by
  have hstores : (arranged iteration c).stores p.method p.status = true := stores_iff.2 hp
  cases op with
  | put | putBytes =>
    obtain ⟨rfl, rfl⟩ := Prod.mk.inj (Option.some.inj hop)
    exact if_pos hstores
  | get | invalidate | clear | purgeExpired => cases hop

theorem apply_refused {op : Op B} (hop : op.put? = some (iteration, p))
    (hp : ¬p.Accepted c.config) : op.apply c now = arranged iteration c := by
  have hstores : ¬(arranged iteration c).stores p.method p.status = true :=
    fun h => hp (stores_iff.1 h)
  cases op with
  | put | putBytes =>
    obtain ⟨rfl, rfl⟩ := Prod.mk.inj (Option.some.inj hop)
    exact if_neg hstores
  | get | invalidate | clear | purgeExpired => cases hop

/-- The other calls only take entries away. -/
theorem exists_filter_of_put?_none (c : ResponseCache B) (now : Nat) {op : Op B}
    (hop : op.put? = none) : ∃ keep, op.apply c now = { c with store := c.store.filter keep } := by
  have hall : c = { c with store := c.store.filter fun _ => true } := by simp
  cases op with
  | put | putBytes => cases hop
  | get method path sourceHash =>
    simp only [Op.apply, ResponseCache.get]
    split
    · exact ⟨_, hall⟩
    · exact ⟨_, rfl⟩
    · exact ⟨_, hall⟩
  | invalidate path => exact ⟨_, rfl⟩
  | clear => exact ⟨fun _ => false, by simp [Op.apply, ResponseCache.clear]⟩
  | purgeExpired => exact ⟨_, rfl⟩

theorem makeRoom_of_lt (h : c.store.length < c.config.maxEntries) : c.makeRoom now = c :=
  if_neg (Nat.not_le.2 h)

theorem makeRoom_of_le (h : c.config.maxEntries ≤ c.store.length) :
    c.makeRoom now = c.evictOldest now := if_pos h

theorem config_makeRoom : (c.makeRoom now).config = c.config := by
  rw [ResponseCache.makeRoom, ResponseCache.evictOldest]
  split
  · split <;> rfl
  · rfl

theorem config_apply {op : Op B} : (op.apply c now).config = c.config := by
  cases hop : op.put? with
  | none =>
    obtain ⟨keep, heq⟩ := exists_filter_of_put?_none c now hop
    rw [heq]
  | some put =>
    by_cases hp : put.2.Accepted c.config
    · rw [apply_accepted _ hop hp]
      exact config_makeRoom
    · rw [apply_refused hop hp]
      rfl

/-! ## capacity -/

/-- The call keeps to the capacity, and evicts what it should: nothing else for a key
that is there already, and exactly one entry of the greatest age for a new key in a full
cache. -/
structure Capped (s : State B) (e : Event B) (s' : State B) : Prop where
  length_le : s'.cache.store.length ≤ s.cache.config.maxEntries
  replaces : ∀ iteration p, e.op.put? = some (iteration, p) → p.Accepted s.cache.config →
    s.cache.find p.key ≠ none → ∀ k, k ≠ p.key → s'.cache.find k = s.cache.find k
  evicts : ∀ iteration p, e.op.put? = some (iteration, p) → p.Accepted s.cache.config →
    s.cache.find p.key = none → s.cache.config.maxEntries ≤ s.cache.store.length →
    ∃ k r, s.cache.find k = some r ∧
      (∀ k' r', s.cache.find k' = some r' → r'.elapsed e.now ≤ r.elapsed e.now) ∧
      s'.cache.find k = none ∧ ∀ k', k' ≠ k → k' ≠ p.key → s'.cache.find k' = s.cache.find k'

/-- A full cache, visited in this order, makes room for the key at that time: if the key is
new, some entry is older than this instant; if it has an entry, that is the first one of the
greatest age, or no entry is older than this instant. -/
def RoomFor (now : Nat) (c : ResponseCache B) (iteration : Iteration B) (key : String) : Prop :=
  (c.find key = none → ∃ x ∈ c.store, 0 < x.2.elapsed now) ∧
    ∀ r, c.find key = some r →
      Oldest now (iteration.order c.store) (key, r) ∨ ∀ x ∈ c.store, x.2.elapsed now = 0

/-- A put that is accepted into a full cache finds room. -/
def FindsRoom (s : State B) (e : Event B) : Prop :=
  ∀ iteration p, e.op.put? = some (iteration, p) → p.Accepted s.cache.config →
    s.cache.config.maxEntries ≤ s.cache.store.length →
    RoomFor e.now s.cache iteration p.key

/-- What holds as long as the capacity is kept. -/
structure Within (s : State B) : Prop where
  distinct : Distinct s.cache
  length_le : s.cache.store.length ≤ s.cache.config.maxEntries

theorem distinct_makeRoom (h : Distinct c) : Distinct (c.makeRoom now) := by
  rw [ResponseCache.makeRoom, ResponseCache.evictOldest]
  split
  · split
    · exact distinct_remove h
    · exact h
  · exact h

theorem distinct_apply {op : Op B} (h : Distinct c) : Distinct (op.apply c now) := by
  cases hop : op.put? with
  | none =>
    obtain ⟨keep, heq⟩ := exists_filter_of_put?_none c now hop
    rw [heq]
    exact nodup_keys_filter h
  | some put =>
    by_cases hp : put.2.Accepted c.config
    · rw [apply_accepted _ hop hp]
      exact distinct_insert (distinct_makeRoom (distinct_arranged h))
    · rw [apply_refused hop hp]
      exact distinct_arranged h

/-- A call that makes no entry. -/
theorem capped_of_not_accepted (h : Within s) (hs : step s e = some s')
    (hop : ∀ iteration p, e.op.put? = some (iteration, p) → ¬p.Accepted s.cache.config) :
    Capped s e s' := by
  obtain ⟨-, rfl⟩ := step_eq_some.1 hs
  refine ⟨?_, fun it p hp ha => absurd ha (hop it p hp), fun it p hp ha => absurd ha (hop it p hp)⟩
  cases hput : e.op.put? with
  | none =>
    obtain ⟨keep, heq⟩ := exists_filter_of_put?_none s.cache e.now hput
    rw [heq]
    exact Nat.le_trans (List.length_filter_le ..) h.length_le
  | some put =>
    rw [apply_refused hput (hop _ _ hput), length_arranged]
    exact h.length_le

section Accepted

variable (hop : e.op.put? = some (iteration, p)) (h : Within s)
include hop h

/-- Nothing is evicted: the key is there already, or there is room for it. -/
theorem capped_of_insert (heq : s'.cache = (arranged iteration s.cache).insert p.key r)
    (hroom : s.cache.find p.key ≠ none ∨ s.cache.store.length < s.cache.config.maxEntries) :
    Capped s e s' where
  length_le := by
    have hlen : (arranged iteration s.cache).store.length = s.cache.store.length := length_arranged
    rw [heq, length_insert]
    obtain hfind | hlt := hroom
    · rw [← find_arranged iteration h.distinct] at hfind
      rw [length_remove (distinct_arranged h.distinct) hfind, hlen]
      exact h.length_le
    · have hle := length_remove_le (arranged iteration s.cache) p.key
      omega
  replaces := by
    intro it p' hop' _ _ k hk
    obtain ⟨rfl, rfl⟩ := put?_inj hop hop'
    rw [heq, find_insert, if_neg hk, find_arranged iteration h.distinct]
  evicts := by
    intro it p' hop' _ hnone hfull
    obtain ⟨rfl, rfl⟩ := put?_inj hop hop'
    obtain hfind | hlt := hroom
    · exact absurd hnone hfind
    · omega

/-- One entry is evicted: the one that is replaced, or an oldest one. -/
theorem capped_of_evicted {old : String × CachedResponse B}
    (hold : Oldest e.now (iteration.order s.cache.store) old)
    (heq : s'.cache = ((arranged iteration s.cache).remove old.1).insert p.key r)
    (hkey : s.cache.find p.key ≠ none → old.1 = p.key) : Capped s e s' := by
  have hdistinct : Distinct (arranged iteration s.cache) := distinct_arranged h.distinct
  have hpresent : s.cache.find old.1 = some old.2 :=
    (find_eq_some h.distinct).2 ((iteration.perm s.cache.store).mem_iff.1 hold.mem)
  have hfind : ∀ k', s'.cache.find k' =
      if k' = p.key then some r else if k' = old.1 then none else s.cache.find k' := by
    intro k'
    rw [heq, find_insert, find_remove, find_arranged iteration h.distinct]
  refine ⟨?_, ?_, ?_⟩
  · have hlen : (arranged iteration s.cache).store.length = s.cache.store.length := length_arranged
    have hfound : (arranged iteration s.cache).find old.1 ≠ none := by
      rw [find_arranged iteration h.distinct, hpresent]
      exact Option.some_ne_none _
    have hone := length_remove hdistinct hfound
    have hle := length_remove_le ((arranged iteration s.cache).remove old.1) p.key
    have hcap := h.length_le
    rw [heq, length_insert]
    omega
  · intro it p' hop' _ hput k' hk'
    obtain ⟨rfl, rfl⟩ := put?_inj hop hop'
    rw [hfind, if_neg hk', if_neg (hkey hput ▸ hk')]
  · intro it p' hop' _ hnone _
    obtain ⟨rfl, rfl⟩ := put?_inj hop hop'
    have hne : old.1 ≠ p.key := by
      intro heq
      rw [heq, hnone] at hpresent
      cases hpresent
    refine ⟨old.1, old.2, hpresent, fun k' r' hr' => ?_,
      by rw [hfind, if_neg hne, if_pos rfl], fun k' hk hk' => by rw [hfind, if_neg hk', if_neg hk]⟩
    exact hold.le ((iteration.perm s.cache.store).mem_iff.2 ((find_eq_some h.distinct).1 hr'))

/-- Nothing is evicted from a full cache: no entry is older than this instant. -/
theorem capped_insert_iff (hfull : s.cache.config.maxEntries ≤ s.cache.store.length)
    (hnow : ∀ x ∈ s.cache.store, x.2.elapsed e.now = 0)
    (heq : s'.cache = (arranged iteration s.cache).insert p.key r) :
    Capped s e s' ↔ RoomFor e.now s.cache iteration p.key := by
  constructor
  · intro hcapped
    refine ⟨fun hnone => ?_, fun r _ => .inr hnow⟩
    -- a new key would be one entry too many
    have hlen : (arranged iteration s.cache).store.length = s.cache.store.length := length_arranged
    have hle := hcapped.length_le
    rw [← find_arranged iteration h.distinct] at hnone
    rw [heq, length_insert, remove_of_absent hnone, hlen] at hle
    omega
  · rintro ⟨hnew, -⟩
    refine capped_of_insert hop h heq (.inl fun hnone => ?_)
    obtain ⟨x, hx, hage⟩ := hnew hnone
    rw [hnow x hx] at hage
    cases hage

/-- One entry is evicted. -/
theorem capped_evict_iff {old : String × CachedResponse B} (hp : p.Accepted s.cache.config)
    (hold : Oldest e.now (iteration.order s.cache.store) old) (hpos : 0 < old.2.elapsed e.now)
    (heq : s'.cache = ((arranged iteration s.cache).remove old.1).insert p.key r) :
    Capped s e s' ↔ RoomFor e.now s.cache iteration p.key := by
  have hmem : old ∈ s.cache.store := (iteration.perm s.cache.store).mem_iff.1 hold.mem
  have hpresent : s.cache.find old.1 = some old.2 := (find_eq_some h.distinct).2 hmem
  constructor
  · intro hcapped
    refine ⟨fun _ => ⟨old, hmem, hpos⟩, fun r hr => .inl ?_⟩
    by_cases hkey : old.1 = p.key
    · rw [hkey, hr] at hpresent
      rw [← hkey, Option.some.inj hpresent]
      exact hold
    · -- another entry was evicted, which the put should have left
      have hkept := hcapped.replaces iteration p hop hp (by simp [hr]) old.1 hkey
      rw [heq, find_insert, if_neg hkey, find_remove, if_pos rfl, hpresent] at hkept
      cases hkept
  · rintro ⟨-, hown⟩
    refine capped_of_evicted hop h hold heq fun hput => ?_
    obtain ⟨r, hr⟩ := Option.ne_none_iff_exists'.1 hput
    obtain hown | hnow := hown r hr
    · rw [hold.unique hown]
    · exact absurd (hnow old hmem) (by omega)

/-- **Step lemma.**  A put that is accepted. -/
theorem capped_accepted_iff (hp : p.Accepted s.cache.config) (hs : step s e = some s') :
    Capped s e s' ↔ (s.cache.config.maxEntries ≤ s.cache.store.length →
      RoomFor e.now s.cache iteration p.key) := by
  obtain ⟨-, rfl⟩ := step_eq_some.1 hs
  have happly := apply_accepted e.now hop hp
  have hlen : (arranged iteration s.cache).store.length = s.cache.store.length := length_arranged
  by_cases hfull : s.cache.config.maxEntries ≤ s.cache.store.length
  · rw [imp_iff_right hfull]
    rw [makeRoom_of_le (by rw [hlen]; exact hfull)] at happly
    obtain ⟨heq, hzero⟩ | ⟨old, hold, hpos, heq⟩ :=
      evictOldest_cases e.now (arranged iteration s.cache)
    · rw [heq] at happly
      have hnow : ∀ x ∈ s.cache.store, x.2.elapsed e.now = 0 :=
        fun x hx => hzero x ((iteration.perm s.cache.store).mem_iff.2 hx)
      exact capped_insert_iff hop h hfull hnow happly
    · rw [heq] at happly
      exact capped_evict_iff hop h hp hold hpos happly
  · rw [makeRoom_of_lt (by rw [hlen]; exact Nat.not_le.1 hfull)] at happly
    have hcapped : Capped s e ⟨e.op.apply s.cache e.now, e.now⟩ :=
      capped_of_insert hop h happly (.inr (Nat.not_le.1 hfull))
    exact ⟨fun _ hfull' => absurd hfull' hfull, fun _ => hcapped⟩

end Accepted

theorem capped_step_iff (h : Within s) (hs : step s e = some s') :
    Capped s e s' ↔ FindsRoom s e := by
  by_cases hacc : ∃ iteration p, e.op.put? = some (iteration, p) ∧ p.Accepted s.cache.config
  · obtain ⟨iteration, p, hop, hp⟩ := hacc
    rw [capped_accepted_iff hop h hp hs]
    constructor
    · intro hcond it p' hop' _
      obtain ⟨rfl, rfl⟩ := put?_inj hop hop'
      exact hcond
    · intro hroom
      exact hroom iteration p hop hp
  · have hnot : ∀ iteration p, e.op.put? = some (iteration, p) → ¬p.Accepted s.cache.config :=
      fun it p hop hp => hacc ⟨it, p, hop, hp⟩
    refine ⟨fun _ it p hop hp => absurd hp (hnot it p hop), fun _ => ?_⟩
    exact capped_of_not_accepted h hs hnot

theorem within_step (h : Within s) (hcapped : Capped s e s') (hs : step s e = some s') :
    Within s' := by
  obtain ⟨-, rfl⟩ := step_eq_some.1 hs
  refine ⟨distinct_apply h.distinct, ?_⟩
  rw [config_apply]
  exact hcapped.length_le

theorem within_initial (config : CacheConfig) : Within (initial (B := B) config) :=
  ⟨List.nodup_nil, Nat.zero_le _⟩

/-- **Capacity, exactly.**  In every history of a new cache, all calls keep to the capacity
and evict what they should iff every put that is accepted into a full cache finds an entry
older than this instant when its key is new, and when it is not, visits its own entry first
among those of the greatest age, or finds only entries of this instant. -/
theorem capped_iff (config : CacheConfig) (es : List (Event B)) :
    Along step Capped (initial config) es ↔ Guarded step FindsRoom (initial config) es :=
  along_iff_guarded (fun _ _ _ h hG hs => within_step h ((capped_step_iff h hs).2 hG) hs)
    (fun _ _ _ h hs => capped_step_iff h hs) (within_initial config)

/-- Entries are iterated as they were inserted. -/
def inOrder : Iteration B := ⟨id, fun store => .refl store⟩

/-- A `GET` of the path that answered 200. -/
def putPage (path : String) (now : Nat) : Event (List UInt8) :=
  ⟨now, .put inOrder ⟨"GET", path, 7, 200, "text/html", [104, 105]⟩⟩

/-- Two puts at one instant leave two entries in a cache for one; and where there is room for
two, a put for the younger of them evicts the other. -/
theorem full_cache_misjudged :
    (∃ s, run step (initial ⟨30, 1, true⟩) [putPage "/a" 0, putPage "/b" 0] = some s ∧
      s.cache.store.length = 2) ∧
    (∃ s, run step (initial ⟨30, 2, true⟩) [putPage "/a" 0, putPage "/b" 1, putPage "/b" 2] =
        some s ∧ s.cache.find "GET:/a" = none ∧ s.cache.store.length = 1) ∧
    ¬Along step Capped (initial ⟨30, 1, true⟩) [putPage "/a" 0, putPage "/b" 0] ∧
    ¬Along step Capped (initial ⟨30, 2, true⟩)
      [putPage "/a" 0, putPage "/b" 1, putPage "/b" 2] := by
  refine ⟨⟨_, rfl, rfl⟩, ⟨_, rfl, by decide, by decide⟩, fun h => ?_, fun h => ?_⟩
  · have hsecond := ((h _ rfl).2 _ rfl).1
    exact absurd hsecond.length_le (by decide)
  · have hthird := (((h _ rfl).2 _ rfl).2 _ rfl).1
    have hkept := hthird.replaces inOrder _ rfl ⟨rfl, rfl, rfl⟩ (by decide) "GET:/a" (by decide)
    exact absurd hkept (by decide)

/-! ## soundness -/

/-- The call ends what was put for the path before. -/
def Op.Supersedes (config : CacheConfig) (path : String) (op : Op B) : Prop :=
  (∃ iteration p, op.put? = some (iteration, p) ∧ p.Accepted config ∧ p.path = path) ∨
    op = .invalidate path ∨ op = .clear

/-- `r` is what the last put for the path stored, and nothing has ended it. -/
def Latest (config : CacheConfig) (log : List (Event B)) (path : String)
    (r : CachedResponse B) : Prop :=
  ∃ before put after iteration p, log = before ++ put :: after ∧
    put.op.put? = some (iteration, p) ∧ p.Accepted config ∧ p.path = path ∧
    r = p.entry config put.now ∧ ∀ e ∈ after, ¬e.op.Supersedes config path

/-- A method without a colon can be read off the key. -/
theorem cacheKey_inj {method method' path path' : String} (h : ':' ∉ method.toList)
    (h' : ':' ∉ method'.toList) (heq : cacheKey method path = cacheKey method' path') :
    method = method' ∧ path = path' := by
  have hlist := congrArg String.toList heq
  simp only [cacheKey, String.toList_append, List.append_assoc] at hlist
  obtain ⟨hm, hp⟩ := append_cons_inj h h' hlist
  exact ⟨String.toList_inj.1 hm, String.toList_inj.1 hp⟩

theorem get_no_colon : ':' ∉ "GET".toList := by decide

theorem Latest.append {config : CacheConfig} {log : List (Event B)} {path : String}
    (h : Latest config log path r) (he : ¬e.op.Supersedes config path) :
    Latest config (log ++ [e]) path r := by
  obtain ⟨before, put, after, iteration, p, rfl, hop, hp, hpath, hr, hafter⟩ := h
  refine ⟨before, put, after ++ [e], iteration, p, by simp, hop, hp, hpath, hr, ?_⟩
  intro e' he'
  obtain he' | he' := List.mem_append.1 he'
  · exact hafter e' he'
  · exact List.mem_singleton.1 he' ▸ he

/-- What an accepted put for another key, or a refused one, does not end. -/
theorem not_supersedes_of_put? {op : Op B} {config : CacheConfig} {path : String}
    (hop : op.put? = some (iteration, p)) (hp : p.Accepted config → p.path ≠ path) :
    ¬op.Supersedes config path := by
  rintro (⟨iteration', p', hop', hp', hpath⟩ | rfl | rfl)
  · obtain ⟨rfl, rfl⟩ := put?_inj hop hop'
    exact hp hp' hpath
  · cases hop
  · cases hop

/-- What is left of the entries by a call that puts nothing. -/
theorem mem_apply_of_put?_none {op : Op B} (hop : op.put? = none)
    (hmem : (k, r) ∈ (op.apply c now).store) :
    (k, r) ∈ c.store ∧ ∀ path, k = cacheKey "GET" path → ¬op.Supersedes c.config path := by
  constructor
  · obtain ⟨keep, heq⟩ := exists_filter_of_put?_none c now hop
    rw [heq] at hmem
    exact (List.mem_filter.1 hmem).1
  · rintro path rfl (⟨iteration, p, hop', -⟩ | rfl | rfl)
    · rw [hop] at hop'
      cases hop'
    · have hne := (List.mem_filter.1 hmem).2
      simp [cacheKey] at hne
    · cases hmem

/-- An entry is the one that an accepted put has just made, or was there before, and the
call has not ended it. -/
theorem mem_apply {op : Op B} (hmem : (k, r) ∈ (op.apply c now).store) :
    (∃ iteration p, op.put? = some (iteration, p) ∧ p.Accepted c.config ∧ k = p.key ∧
        r = p.entry c.config now) ∨
      ((k, r) ∈ c.store ∧ ∀ path, k = cacheKey "GET" path → ¬op.Supersedes c.config path) := by
  cases hop : op.put? with
  | none => exact .inr (mem_apply_of_put?_none hop hmem)
  | some put =>
    obtain ⟨iteration, p⟩ := put
    have hstore : (arranged iteration c).Every fun k r => (k, r) ∈ c.store :=
      fun e he => (iteration.perm c.store).mem_iff.1 he
    by_cases hp : p.Accepted c.config
    · rw [apply_accepted _ hop hp] at hmem
      obtain hmem | hmem := List.mem_append.1 hmem
      · obtain ⟨hmem, hne⟩ := List.mem_filter.1 hmem
        refine .inr ⟨hstore.makeRoom _ hmem, ?_⟩
        rintro path rfl
        refine not_supersedes_of_put? hop fun _ hpath => ?_
        simp [Put.key, hp.2.1, hpath] at hne
      · obtain ⟨rfl, rfl⟩ := Prod.mk.inj (List.mem_singleton.1 hmem)
        exact .inl ⟨iteration, p, rfl, hp, rfl, rfl⟩
    · rw [apply_refused hop hp] at hmem
      refine .inr ⟨hstore _ hmem, fun path _ => ?_⟩
      exact not_supersedes_of_put? hop fun hp' => absurd hp' hp

/-- Every entry is what the last put for its path stored. -/
structure Sound (config : CacheConfig) (s : State B) (log : List (Event B)) : Prop where
  config_eq : s.cache.config = config
  clock_le : ∀ e ∈ log, e.now ≤ s.clock
  latest : ∀ k r, (k, r) ∈ s.cache.store →
    ∃ path, k = cacheKey "GET" path ∧ Latest config log path r

/-- **Step lemma.** -/
theorem sound_step {config : CacheConfig} {log : List (Event B)} (h : Sound config s log)
    (hs : step s e = some s') : Sound config s' (log ++ [e]) := by
  obtain ⟨hclock, rfl⟩ := step_eq_some.1 hs
  refine ⟨config_apply.trans h.config_eq, ?_, ?_⟩
  · intro e' he'
    obtain he' | he' := List.mem_append.1 he'
    · exact Nat.le_trans (h.clock_le e' he') hclock
    · exact Nat.le_of_eq (by rw [List.mem_singleton.1 he'])
  · intro k r hmem
    obtain ⟨iteration, p, hop, hp, rfl, rfl⟩ | ⟨hmem, hkept⟩ := mem_apply hmem
    · rw [h.config_eq] at hp ⊢
      refine ⟨p.path, by rw [Put.key, hp.2.1], log, e, [], iteration, p, rfl, hop, hp, rfl, rfl, ?_⟩
      exact fun _ he => absurd he List.not_mem_nil
    · obtain ⟨path, hk, hlatest⟩ := h.latest k r hmem
      rw [h.config_eq] at hkept
      exact ⟨path, hk, hlatest.append (hkept path hk)⟩

theorem sound_initial (config : CacheConfig) : Sound (B := B) config (initial config) [] where
  config_eq := rfl
  clock_le := by simp
  latest := by simp [initial]

/-- **Run lemma.** -/
theorem sound_run {config : CacheConfig} {es : List (Event B)}
    (hrun : run step (initial config) es = some s) : Sound config s es := by
  have h : Sound config s (trace step (fun _ e => [e]) (initial config) es) :=
    invariant_of_trace (fun _ _ _ _ h hs => sound_step h hs) (sound_initial config) hrun
  rwa [trace_events hrun] at h

/-- A hit is a valid entry of the key. -/
theorem get_eq_some {method path : String} {sourceHash : UInt64}
    (h : (c.get method path sourceHash now).1 = some r) :
    c.find (cacheKey method path) = some r ∧ r.sourceHash = sourceHash ∧
      r.elapsed now < r.ttl := by
  have hpeek : c.peek method path sourceHash now = .hit r := by
    rw [ResponseCache.get] at h
    split at h
    case h_1 hpeek => rw [hpeek, Option.some.inj h]
    case h_2 => cases h
    case h_3 => cases h
  rw [ResponseCache.peek] at hpeek
  split at hpeek
  · cases hpeek
  · split at hpeek
    case h_1 hfind =>
      split at hpeek
      case isTrue hvalid =>
        cases hpeek
        simp only [CachedResponse.isValid, Bool.and_eq_true, beq_iff_eq, decide_eq_true_eq]
          at hvalid
        exact ⟨hfind, hvalid⟩
      case isFalse => cases hpeek
    case h_2 => cases hpeek

/-- **Soundness.**  After every history of a new cache, `get` with a method without a colon
returns an entry only if the method is `GET`, the last put that was accepted for the path had
the hash asked for, is less than the TTL ago, and was not followed by an `invalidate` of the
path or a `clear`; and the entry has that put's status, content type and body. -/
theorem get_sound (config : CacheConfig) (es : List (Event B))
    (hrun : run step (initial config) es = some s) (now : Nat) (hnow : s.clock ≤ now)
    (method path : String) (hmethod : ':' ∉ method.toList) (sourceHash : UInt64)
    (hget : (s.cache.get method path sourceHash now).1 = some r) :
    method = "GET" ∧ ∃ before put after iteration p, es = before ++ put :: after ∧
      put.op.put? = some (iteration, p) ∧ p.Accepted config ∧ p.path = path ∧
      (∀ e ∈ after, ¬e.op.Supersedes config path) ∧
      p.sourceHash = sourceHash ∧ put.now ≤ now ∧ now - put.now < config.ttl ∧
      r.status = p.status ∧ r.contentType = p.contentType ∧ r.body = p.body := by
  obtain ⟨hfind, hhash, hage⟩ := get_eq_some hget
  have hsound := sound_run hrun
  obtain ⟨e, he, rfl⟩ := Option.map_eq_some_iff.1 hfind
  obtain ⟨hkey, hmem⟩ := mem_of_find? he
  obtain ⟨path', hpath', hlatest⟩ := hsound.latest e.1 e.2 hmem
  obtain ⟨rfl, rfl⟩ := cacheKey_inj hmethod get_no_colon (hkey.symm.trans hpath')
  obtain ⟨before, put, after, iteration, p, hes, hop, hp, hpath, hr, hafter⟩ := hlatest
  have hput : put.now ≤ s.clock := hsound.clock_le put (by simp [hes])
  rw [hr] at hhash hage ⊢
  exact ⟨rfl, before, put, after, iteration, p, hes, hop, hp, hpath, hafter, hhash,
    Nat.le_trans hput hnow, hage, rfl, rfl, rfl⟩

theorem get_sound_page :
    ∃ s, run step (initial ⟨30, 2, true⟩) [putPage "/a" 0, putPage "/a" 1] = some s ∧
      ∃ r, (s.cache.get "GET" "/a" 7 9).1 = some r ∧
        ∃ before put after iteration p,
          [putPage "/a" 0, putPage "/a" 1] = before ++ put :: after ∧
          put.op.put? = some (iteration, p) ∧ 9 - put.now < 30 ∧ r.body = p.body := by
  refine ⟨_, rfl, _, rfl, ?_⟩
  obtain ⟨-, before, put, after, iteration, p, hes, hop, -, -, -, -, -, hage, -, -, hbody⟩ :=
    get_sound ⟨30, 2, true⟩ [putPage "/a" 0, putPage "/a" 1] rfl 9 (by decide) "GET" "/a"
      (by decide) 7 rfl
  exact ⟨before, put, after, iteration, p, hes, hop, hage, hbody⟩

end Turbine.Cache.History
