import Turbine.Base.Threads
import Turbine.Tables.Expiry

/-!
# Turbine.Tables.Races

Any number of concurrent calls on the shared table.  A call reads the clock and accesses
the map in separate steps; `len`, `clear` and `retain` lock one shard of the map after the
other.

* `due_step`: as long as nothing live is stored under a key that somebody is about to
  evict, what is evicted has expired;
* `kept_step`: a stored value then stays until somebody changes it, or it expires.
-/

namespace Turbine.Tables

open Base Threads

/-! ## calls -/

/-- The call stores under the key. -/
def Expiry.Op.stores (key : String) : Expiry.Op → Bool
  | .set k .. | .incr k _ => k = key
  | .get _ | .existsKey _ | .del _ | .clear | .sweepExpired => false

/-- The call reads the key. -/
def Expiry.Op.reads (key : String) : Expiry.Op → Bool
  | .get k | .existsKey k => k = key
  | .set .. | .incr .. | .del _ | .clear | .sweepExpired => false

/-- The call drops the key. -/
def Expiry.Op.drops (key : String) : Expiry.Op → Bool
  | .del k => k = key
  | .clear => true
  | .set .. | .incr .. | .get _ | .existsKey _ | .sweepExpired => false

namespace Races

open Expiry

/-! ## model -/

/-- How the keys are spread over the shards of the map. -/
structure Shards where
  count : Nat
  shard : String → Nat
  shard_lt : ∀ key, shard key < count

/-- What a call returns; `clear` and `sweep_expired` return how many entries they dropped. -/
inductive Result
  | reply (reply : Reply)
  | count (n : Nat)

/-- Where a call stands: it has read the clock (`ready`), has found its key missing and
adds up the sizes of the shards (`counting`), has found room (`inserting`), has found its
entry expired (`removing`), has removed it (`deleted`), is on its way through the shards
(`sizing`, `clearing`, `sweeping`), or has returned. -/
inductive Phase
  | start
  | ready (now : Nat)
  | counting (now : Nat) (next : Nat) (n : Nat)
  | inserting (now : Nat)
  | removing (now : Nat)
  | deleted (entry : Entry)
  | sizing (next : Nat) (n : Nat)
  | clearing (n : Nat) (next : Nat)
  | sweeping (now : Nat) (next : Nat) (removed : Nat)
  | returned (result : Result)

abbrev State := World SharedTable Op Phase

abbrev Call := Thread Op Phase

abbrev Event := Threads.Event Op

/-- How many entries a shard has. -/
def shardSize (shards : Shards) (table : SharedTable) (i : Nat) : Nat :=
  table.map.entries.countP fun e => shards.shard e.1 = i

/-- The size check of `set` and `incr`. -/
def checkSize (shards : Shards) (table : SharedTable) (now next n : Nat) (full : Result) : Phase :=
  if next < shards.count then .counting now (next + 1) (n + shardSize shards table next)
  else if table.maxEntries ≤ n then .returned full
  else .inserting now

/-- `SharedTable::set`.  Without a time to live the reading of the clock is not used. -/
def setAct (shards : Shards) (table : SharedTable) (clock : Nat) (key : String)
    (value : Bytes) (ttl : Option Nat) : Phase → Option (SharedTable × Phase)
  | .start => some (table, .ready clock)
  | .ready now =>
    if (table.map.lookup key).isSome then
      some (table.store key ⟨value, ttl.map (now + ·)⟩, .returned (.reply (.set (.ok ()))))
    else some (table, .counting now 0 0)
  | .counting now next n =>
    some (table, checkSize shards table now next n
      (.reply (.set (.error (.full table.maxEntries)))))
  | .inserting now =>
    some (table.store key ⟨value, ttl.map (now + ·)⟩, .returned (.reply (.set (.ok ()))))
  | _ => none

/-- `SharedTable::get`; `answer` is what the caller makes of the value. -/
def getAct (table : SharedTable) (clock : Nat) (key : String)
    (answer : Option Bytes → Reply) : Phase → Option (SharedTable × Phase)
  | .start => some (table, .ready clock)
  | .ready now =>
    match table.map.lookup key with
    | none => some (table, .returned (.reply (answer none)))
    | some entry =>
      if !entry.isExpired now then some (table, .returned (.reply (answer (some entry.value))))
      else some (table, .removing now)
  | .removing _ => some (table.remove key, .returned (.reply (answer none)))
  | _ => none

/-- `SharedTable::del`, which reads the clock last. -/
def delAct (table : SharedTable) (clock : Nat) (key : String) : Phase → Option (SharedTable × Phase)
  | .start =>
    match table.map.lookup key with
    | some entry => some (table.remove key, .deleted entry)
    | none => some (table, .returned (.reply (.del false)))
  | .deleted entry => some (table, .returned (.reply (.del (!entry.isExpired clock))))
  | _ => none

/-- `SharedTable::incr`. -/
def incrAct (shards : Shards) (table : SharedTable) (clock : Nat) (key : String) (delta : Int64) :
    Phase → Option (SharedTable × Phase)
  | .start => some (table, .ready clock)
  | .ready now =>
    match table.incrExisting key delta now with
    | some (table', result) => some (table', .returned (.reply (.incr result)))
    | none => some (table, .counting now 0 0)
  | .counting now next n =>
    some (table, checkSize shards table now next n
      (.reply (.incr (.error (.full table.maxEntries)))))
  | .inserting _ =>
    some (table.store key ⟨toLeBytes delta, none⟩, .returned (.reply (.incr (.ok delta))))
  | _ => none

/-- `SharedTable::clear`. -/
def clearAct (shards : Shards) (table : SharedTable) : Phase → Option (SharedTable × Phase)
  | .start => some (table, .sizing 0 0)
  | .sizing next n =>
    if next < shards.count then some (table, .sizing (next + 1) (n + shardSize shards table next))
    else some (table, .clearing n 0)
  | .clearing n next =>
    if next < shards.count then
      some (table.retain fun key _ => shards.shard key ≠ next, .clearing n (next + 1))
    else some (table, .returned (.count n))
  | _ => none

/-- `SharedTable::sweep_expired`. -/
def sweepAct (shards : Shards) (table : SharedTable) (clock : Nat) :
    Phase → Option (SharedTable × Phase)
  | .start => some (table, .sweeping clock 0 0)
  | .sweeping now next removed =>
    if next < shards.count then
      some (table.retain fun key entry => !(shards.shard key = next && entry.isExpired now),
        .sweeping now (next + 1) (removed +
          table.map.entries.countP fun e => shards.shard e.1 = next && e.2.isExpired now))
    else some (table, .returned (.count removed))
  | _ => none

/-- The next access of a call; `exists` is a `get`. -/
def act (shards : Shards) (table : SharedTable) (clock : Nat) :
    Op → Phase → Option (SharedTable × Phase)
  | .set key value ttl => setAct shards table clock key value ttl
  | .get key => getAct table clock key .get
  | .existsKey key => getAct table clock key fun value => .existsKey value.isSome
  | .del key => delAct table clock key
  | .incr key delta => incrAct shards table clock key delta
  | .clear => clearAct shards table
  | .sweepExpired => sweepAct shards table clock

def program (shards : Shards) : Program SharedTable Op Phase where
  start := .start
  act w call := act shards w.shared w.clock call.request call.phase

/-- `SharedTable::new`, before any call. -/
def initial (maxEntries : Nat) : State := { shared := ⟨∅, maxEntries⟩ }

/-! ## what one access does -/

/-- When the call read the clock. -/
def Phase.reading? : Phase → Option Nat
  | .ready now | .counting now .. | .inserting now | .removing now | .sweeping now .. => some now
  | .start | .deleted _ | .sizing .. | .clearing .. | .returned _ => none

def Phase.isInserting : Phase → Bool
  | .inserting _ => true
  | _ => false

def Phase.isRemoving : Phase → Bool
  | .removing _ => true
  | _ => false

/-- One access, by what it does to the table. -/
inductive Acts (table : SharedTable) (clock : Nat) :
    Op → Phase → SharedTable → Phase → Prop
  | quiet {request : Op} {phase phase' : Phase}
      (hreading : ∀ now, phase'.reading? = some now → now = clock ∨ phase.reading? = some now)
      (hinserting : phase.isInserting = false ∧ phase'.isInserting = false)
      (hremoving : phase'.isRemoving = false) : Acts table clock request phase table phase'
  | room {request : Op} {now next n : Nat} :
      Acts table clock request (.counting now next n) table (.inserting now)
  | expired {request : Op} {key : String} {now : Nat} {entry : Entry}
      (hrequest : request.reads key = true) (hentry : table.map.lookup key = some entry)
      (hexpired : entry.isExpired now = true) :
      Acts table clock request (.ready now) table (.removing now)
  | replace {request : Op} {key : String} {now : Nat} {entry : Entry} {result : Result}
      (hrequest : request.stores key = true) (hkey : key ∈ table.map) :
      Acts table clock request (.ready now) (table.store key entry) (.returned result)
  | insert {request : Op} {key : String} {now : Nat} {entry : Entry} {result : Result}
      (hrequest : request.stores key = true) :
      Acts table clock request (.inserting now) (table.store key entry) (.returned result)
  | evict {request : Op} {key : String} {now : Nat} {result : Result}
      (hrequest : request.reads key = true) :
      Acts table clock request (.removing now) (table.remove key) (.returned result)
  | delete {key : String} {entry : Entry} :
      Acts table clock (.del key) .start (table.remove key) (.deleted entry)
  | wipe {n next : Nat} {keep : String → Entry → Bool} :
      Acts table clock .clear (.clearing n next) (table.retain keep) (.clearing n (next + 1))
  | sweep {now next removed removed' : Nat} {keep : String → Entry → Bool}
      (hkeep : ∀ key entry, keep key entry = false → entry.isExpired now = true) :
      Acts table clock .sweepExpired (.sweeping now next removed) (table.retain keep)
        (.sweeping now (next + 1) removed')

variable {shards : Shards} {table table' : SharedTable} {clock now : Nat} {request : Op}
  {phase phase' : Phase} {key : String}

theorem acts_checkSize {next n : Nat} {full : Result} :
    Acts table clock request (.counting now next n) table
      (checkSize shards table now next n full) := by
  unfold checkSize
  split
  · exact .quiet (fun _ h => .inr h) ⟨rfl, rfl⟩ rfl
  · split
    · exact .quiet (fun _ h => nomatch h) ⟨rfl, rfl⟩ rfl
    · exact .room

theorem acts_start : Acts table clock request .start table (.ready clock) :=
  .quiet (fun _ h => .inl (Option.some.inj h).symm) ⟨rfl, rfl⟩ rfl

/-- What has no reading has none to account for. -/
theorem acts_quiet (hreading : phase'.reading? = none) (hold : phase.isInserting = false)
    (hnew : phase'.isInserting = false ∧ phase'.isRemoving = false) :
    Acts table clock request phase table phase' := by
  refine .quiet (fun now h => ?_) ⟨hold, hnew.1⟩ hnew.2
  rw [hreading] at h
  cases h

theorem acts_setAct {value : Bytes} {ttl : Option Nat}
    (h : setAct shards table clock key value ttl phase = some (table', phase')) :
    Acts table clock (.set key value ttl) phase table' phase' := by
  have hstores : (Op.set key value ttl).stores key = true := decide_eq_true rfl
  cases phase with
  | start => cases h; exact acts_start
  | ready now =>
    simp only [setAct] at h
    split at h
    case isTrue hkey => cases h; exact .replace hstores (AList.lookup_isSome.1 hkey)
    case isFalse => cases h; exact .quiet (fun _ h => .inr h) ⟨rfl, rfl⟩ rfl
  | counting now next n => cases h; exact acts_checkSize
  | inserting now => cases h; exact .insert hstores
  | removing | deleted | sizing | clearing | sweeping | returned => cases h

theorem acts_getAct {answer : Option Bytes → Reply} (hreads : request.reads key = true)
    (h : getAct table clock key answer phase = some (table', phase')) :
    Acts table clock request phase table' phase' := by
  cases phase with
  | start => cases h; exact acts_start
  | ready now =>
    simp only [getAct] at h
    split at h
    case h_1 => cases h; exact acts_quiet rfl rfl ⟨rfl, rfl⟩
    case h_2 entry hentry =>
      split at h
      case isTrue => cases h; exact acts_quiet rfl rfl ⟨rfl, rfl⟩
      case isFalse hexpired => cases h; exact .expired hreads hentry (by simpa using hexpired)
  | removing now => cases h; exact .evict hreads
  | counting | inserting | deleted | sizing | clearing | sweeping | returned => cases h

theorem acts_delAct (h : delAct table clock key phase = some (table', phase')) :
    Acts table clock (.del key) phase table' phase' := by
  cases phase with
  | start =>
    simp only [delAct] at h
    split at h
    case h_1 => cases h; exact .delete
    case h_2 => cases h; exact acts_quiet rfl rfl ⟨rfl, rfl⟩
  | deleted entry => cases h; exact acts_quiet rfl rfl ⟨rfl, rfl⟩
  | ready | counting | inserting | removing | sizing | clearing | sweeping | returned => cases h

/-- The entry that `incr` finds is replaced, or it is no counter. -/
theorem incrExisting_cases {delta : Int64} {result : Except TableError Int64}
    (h : table.incrExisting key delta now = some (table', result)) :
    table' = table ∨ key ∈ table.map ∧ ∃ entry, table' = table.store key entry := by
  obtain ⟨entry, hentry, h⟩ := Option.map_eq_some_iff.1 h
  have hkey : key ∈ table.map := AList.lookup_isSome.1 (by rw [hentry]; rfl)
  split at h
  · cases h; exact .inr ⟨hkey, _, rfl⟩
  · split at h <;> cases h
    · exact .inl rfl
    · exact .inr ⟨hkey, _, rfl⟩

theorem acts_incrAct {delta : Int64}
    (h : incrAct shards table clock key delta phase = some (table', phase')) :
    Acts table clock (.incr key delta) phase table' phase' := by
  have hstores : (Op.incr key delta).stores key = true := decide_eq_true rfl
  cases phase with
  | start => cases h; exact acts_start
  | ready now =>
    simp only [incrAct] at h
    split at h
    case h_1 hexisting =>
      cases h
      obtain rfl | ⟨hkey, entry, rfl⟩ := incrExisting_cases hexisting
      · exact acts_quiet rfl rfl ⟨rfl, rfl⟩
      · exact .replace hstores hkey
    case h_2 => cases h; exact .quiet (fun _ h => .inr h) ⟨rfl, rfl⟩ rfl
  | counting now next n => cases h; exact acts_checkSize
  | inserting now => cases h; exact .insert hstores
  | removing | deleted | sizing | clearing | sweeping | returned => cases h

theorem acts_clearAct (h : clearAct shards table phase = some (table', phase')) :
    Acts table clock .clear phase table' phase' := by
  cases phase with
  | start => cases h; exact acts_quiet rfl rfl ⟨rfl, rfl⟩
  | sizing next n =>
    simp only [clearAct] at h
    split at h <;> cases h <;> exact acts_quiet rfl rfl ⟨rfl, rfl⟩
  | clearing n next =>
    simp only [clearAct] at h
    split at h <;> cases h
    · exact .wipe
    · exact acts_quiet rfl rfl ⟨rfl, rfl⟩
  | ready | counting | inserting | removing | deleted | sweeping | returned => cases h

theorem acts_sweepAct (h : sweepAct shards table clock phase = some (table', phase')) :
    Acts table clock .sweepExpired phase table' phase' := by
  cases phase with
  | start => cases h; exact .quiet (fun _ h => .inl (Option.some.inj h).symm) ⟨rfl, rfl⟩ rfl
  | sweeping now next removed =>
    simp only [sweepAct] at h
    split at h <;> cases h
    · refine .sweep fun key entry hdropped => ?_
      simp only [Bool.not_eq_false', Bool.and_eq_true] at hdropped
      exact hdropped.2
    · exact acts_quiet rfl rfl ⟨rfl, rfl⟩
  | ready | counting | inserting | removing | deleted | sizing | clearing | returned => cases h

/-- **Inversion.** -/
theorem Acts.of_act (h : act shards table clock request phase = some (table', phase')) :
    Acts table clock request phase table' phase' := by
  cases request with
  | set key value ttl => exact acts_setAct h
  | get key => exact acts_getAct (decide_eq_true rfl) h
  | existsKey key =>
    have h : getAct table clock key (fun value => .existsKey value.isSome) phase =
      some (table', phase') := h
    exact acts_getAct (decide_eq_true rfl) h
  | del key => exact acts_delAct h
  | incr key delta => exact acts_incrAct h
  | clear => exact acts_clearAct h
  | sweepExpired => exact acts_sweepAct h

theorem Acts.reading (h : Acts table clock request phase table' phase')
    (hnow : phase'.reading? = some now) : now = clock ∨ phase.reading? = some now := by
  cases h with
  | quiet hreading => exact hreading now hnow
  | room => exact .inr hnow
  | expired => exact .inr hnow
  | sweep => exact .inr hnow
  | replace | insert | evict | delete | wipe => cases hnow

/-- What becomes of a key: it stays, or a value is stored, or it is gone, for one of three
reasons. -/
theorem Acts.lookup (h : Acts table clock request phase table' phase') :
    table'.map.lookup key = table.map.lookup key ∨ request.stores key = true ∨
      table'.map.lookup key = none ∧
        (request.reads key = true ∧ phase.isRemoving = true ∨ request.drops key = true ∨
          ∃ now, phase.reading? = some now ∧
            ∀ entry, table.map.lookup key = some entry → entry.isExpired now = true) := by
  cases h with
  | quiet => exact .inl rfl
  | room => exact .inl rfl
  | expired => exact .inl rfl
  | @replace _ k _ _ _ hrequest | @insert _ k _ _ _ hrequest =>
    by_cases hk : key = k
    · exact .inr (.inl (hk ▸ hrequest))
    · exact .inl (by rw [lookup_store, if_neg hk])
  | @evict _ k _ _ hrequest =>
    by_cases hk : key = k
    · exact .inr (.inr ⟨by rw [lookup_remove, if_pos hk], .inl ⟨hk ▸ hrequest, rfl⟩⟩)
    · exact .inl (by rw [lookup_remove, if_neg hk])
  | @delete k =>
    by_cases hk : key = k
    · exact .inr (.inr ⟨by rw [lookup_remove, if_pos hk], .inr (.inl (decide_eq_true hk.symm))⟩)
    · exact .inl (by rw [lookup_remove, if_neg hk])
  | @wipe _ _ keep =>
    rw [lookup_retain]
    cases hentry : table.map.lookup key with
    | none => exact .inl rfl
    | some entry =>
      cases hkeep : keep key entry with
      | true => exact .inl (Option.filter_some_pos hkeep)
      | false =>
        exact .inr (.inr ⟨Option.filter_some_neg (by simp [hkeep]), .inr (.inl rfl)⟩)
  | @sweep now _ _ _ keep hkeep =>
    rw [lookup_retain]
    cases hentry : table.map.lookup key with
    | none => exact .inl rfl
    | some entry =>
      cases hkept : keep key entry with
      | true => exact .inl (Option.filter_some_pos hkept)
      | false =>
        refine .inr (.inr ⟨Option.filter_some_neg (by simp [hkept]), .inr (.inr ?_)⟩)
        refine ⟨now, rfl, fun entry' h => ?_⟩
        obtain rfl := Option.some.inj h
        exact hkeep key entry hkept

/-! ## eviction -/

variable {w w' : State} {e : Event} {t : Nat} {call : Call} {entry : Entry}

/-- A call that reads the key has found it expired, and is going to remove it. -/
def Evicting (key : String) (w : State) : Bool :=
  w.threads.any fun call => call.request.reads key && call.phase.isRemoving

/-- Nothing live is stored under the key while a call is going to remove it. -/
def Unraced (shards : Shards) (key : String) (w : State) : Event → Prop
  | .advance t => ∀ call ∈ w.threads[t]?, call.request.stores key = true → Evicting key w = true →
      ∀ next ∈ (program shards).act w call, ∀ entry ∈ next.1.map.lookup key,
        entry.isExpired w.clock = true
  | .tick _ | .call _ => True

instance : Decidable (Unraced shards key w e) :=
  match e with
  | .advance t => inferInstanceAs (Decidable (∀ call ∈ w.threads[t]?,
      call.request.stores key = true → Evicting key w = true →
        ∀ next ∈ (program shards).act w call, ∀ entry ∈ next.1.map.lookup key,
          entry.isExpired w.clock = true))
  | .tick _ | .call _ => .isTrue trivial

/-- Time has been read in the past, and what is going to be removed has expired. -/
structure Due (key : String) (table : SharedTable) (clock : Nat) (call : Call) : Prop where
  reading : ∀ now, call.phase.reading? = some now → now ≤ clock
  expired : call.request.reads key = true → call.phase.isRemoving = true →
    ∀ entry, table.map.lookup key = some entry → entry.isExpired clock = true

theorem isExpired_mono {after : Nat} (hle : now ≤ after) (h : entry.isExpired now = true) :
    entry.isExpired after = true := by
  rw [Entry.isExpired] at h ⊢
  cases hdeadline : entry.expiresAt with
  | none => simp [hdeadline] at h
  | some deadline =>
    simp only [hdeadline, decide_eq_true_eq] at h ⊢
    exact Nat.le_trans h hle

theorem reads_inj {k : String} (hkey : request.reads key = true) (hk : request.reads k = true) :
    key = k := by
  cases request <;> simp_all [Op.reads]

theorem lasting_due : Lasting fun _ => Due key := fun _ _ _ _ _ hle h =>
  ⟨fun now hnow => Nat.le_trans (h.reading now hnow) hle, fun hreads hremoving entry hentry =>
      isExpired_mono hle (h.expired hreads hremoving entry hentry)⟩

theorem due_start : Due key table clock ⟨request, .start⟩ := by
  constructor
  case reading => intro now h; cases h
  case expired => intro _ h; cases h

/-- The call that acts. -/
theorem Acts.due (h : Acts table clock request phase table' phase')
    (hdue : Due key table clock ⟨request, phase⟩) : Due key table' clock ⟨request, phase'⟩ := by
  refine ⟨fun now hnow => ?_, fun hreads hremoving entry hentry => ?_⟩
  · obtain rfl | hold := h.reading hnow
    · exact Nat.le_refl _
    · exact hdue.reading now hold
  · cases h with
    | quiet _ _ hquiet => exact absurd hremoving (by simp [hquiet])
    | @expired _ k now expired hk hexpired hpast =>
      obtain rfl := reads_inj hreads hk
      obtain rfl := Option.some.inj (hexpired.symm.trans hentry)
      exact isExpired_mono (hdue.reading now rfl) hpast
    | room | replace | insert | evict | delete | wipe | sweep => cases hremoving

/-- **Step lemma.** -/
theorem due_step (h : Each (fun _ => Due key) w) (hunraced : Unraced shards key w e)
    (hs : (program shards).step w e = some w') : Each (fun _ => Due key) w' := by
  refine Program.each_step lasting_due (fun _ => due_start)
    (fun t call table phase he ht hact => ?_) h hs
  subst he
  have hacts : Acts w.shared w.clock call.request call.phase table phase := .of_act hact
  refine ⟨hacts.due (h t call ht), fun u other _ hu => ⟨(h u other hu).reading, ?_⟩⟩
  intro hreads hremoving entry hentry
  obtain hsame | hstores | ⟨hnone, -⟩ := hacts.lookup
  · exact (h u other hu).expired hreads hremoving entry (hsame ▸ hentry)
  · have hevicting : Evicting key w = true :=
      List.any_eq_true.2 ⟨other, List.mem_of_getElem? hu, by rw [hreads, hremoving]; rfl⟩
    exact hunraced call ht hstores hevicting (table, phase) hact entry hentry
  · cases hnone.symm.trans hentry

/-- A call of `get` or `exists` removes no live entry from under the key. -/
def Spares (key : String) (w : State) (e : Event) (w' : State) : Prop :=
  ∀ t call k entry, e = .advance t → w.threads[t]? = some call → call.request.reads k = true →
    w.shared.map.lookup key = some entry → w'.shared.map.lookup key = none →
    entry.isExpired w.clock = true

theorem not_reads_of_stores {k : String} (hstores : request.stores key = true) :
    request.reads k = false := by
  cases request <;> first | rfl | cases hstores

theorem not_reads_of_drops {k : String} (hdrops : request.drops key = true) :
    request.reads k = false := by
  cases request <;> first | rfl | cases hdrops

theorem spares_step (h : Each (fun _ => Due key) w) (hs : (program shards).step w e = some w') :
    Spares key w e w' := by
  intro t call k entry he ht hreads hentry hgone
  subst he
  cases Program.step_cases hs with
  | @act _ call' table phase ht' hact =>
    obtain rfl := Option.some.inj (ht.symm.trans ht')
    have hacts : Acts w.shared w.clock call.request call.phase table phase := .of_act hact
    obtain hsame | hstores | ⟨-, ⟨hkey, hremoving⟩ | hdrops | ⟨now, hnow, hexpired⟩⟩ := hacts.lookup
    · cases hentry.symm.trans (hsame.symm.trans hgone)
    · cases hreads.symm.trans (not_reads_of_stores hstores)
    · exact (h t call ht).expired hkey hremoving entry hentry
    · cases hreads.symm.trans (not_reads_of_drops hdrops)
    · exact isExpired_mono ((h t call ht).reading now hnow) (hexpired entry hentry)

/-! ## stored values -/

/-- No `set`, `incr`, `del` or `clear` takes effect on the key. -/
def Leaves (shards : Shards) (key : String) (w : State) : Event → Prop
  | .advance t => ∀ call ∈ w.threads[t]?,
      (call.request.stores key || call.request.drops key) = true →
        ∀ next ∈ (program shards).act w call, next.1.map.lookup key = w.shared.map.lookup key
  | .tick _ | .call _ => True

instance : Decidable (Leaves shards key w e) :=
  match e with
  | .advance t => inferInstanceAs (Decidable (∀ call ∈ w.threads[t]?,
      (call.request.stores key || call.request.drops key) = true →
        ∀ next ∈ (program shards).act w call, next.1.map.lookup key = w.shared.map.lookup key))
  | .tick _ | .call _ => .isTrue trivial

/-- The entry is there, or past its deadline. -/
def Kept (key : String) (entry : Entry) (w : State) : Prop :=
  entry.isExpired w.clock = true ∨ w.shared.map.lookup key = some entry

/-- **Step lemma.** -/
theorem kept_step (hdue : Each (fun _ => Due key) w) (h : Kept key entry w)
    (hleaves : Leaves shards key w e) (hs : (program shards).step w e = some w') :
    Kept key entry w' := by
  obtain hexpired | hentry := h
  · exact .inl (isExpired_mono (Program.clock_le hs) hexpired)
  · cases Program.step_cases hs with
    | tick => exact .inr hentry
    | call => exact .inr hentry
    | @act t call table phase ht hact =>
      have hacts : Acts w.shared w.clock call.request call.phase table phase := .of_act hact
      have hchange : (call.request.stores key || call.request.drops key) = true →
          Kept key entry (w.acted t call table phase) := fun hchanges =>
        .inr ((hleaves call ht hchanges (table, phase) hact).trans hentry)
      obtain hsame | hstores | ⟨-, ⟨hreads, hremoving⟩ | hdrops | ⟨now, hnow, hexpired⟩⟩ :=
        hacts.lookup
      · exact .inr (hsame.trans hentry)
      · exact hchange (by rw [hstores]; rfl)
      · exact .inl ((hdue t call ht).expired hreads hremoving entry hentry)
      · exact hchange (by rw [hdrops, Bool.or_true])
      · exact .inl (isExpired_mono ((hdue t call ht).reading now hnow) (hexpired entry hentry))

/-- A call that has read the clock reads the value. -/
structure Readable (shards : Shards) (key : String) (value : Bytes) (w : State) : Prop where
  get : ∀ u now, w.threads[u]? = some ⟨.get key, .ready now⟩ →
    ∃ w', (program shards).step w (.advance u) = some w' ∧
      w'.threads[u]? = some ⟨.get key, .returned (.reply (.get (some value)))⟩
  existsKey : ∀ u now, w.threads[u]? = some ⟨.existsKey key, .ready now⟩ →
    ∃ w', (program shards).step w (.advance u) = some w' ∧
      w'.threads[u]? = some ⟨.existsKey key, .returned (.reply (.existsKey true))⟩

theorem getAct_live (clock : Nat) (answer : Option Bytes → Reply)
    (hentry : table.map.lookup key = some entry) (hlive : entry.isExpired now = false) :
    getAct table clock key answer (.ready now) =
      some (table, .returned (.reply (answer (some entry.value)))) := by
  simp [getAct, hentry, hlive]

theorem readable_of_live (hdue : Each (fun _ => Due key) w)
    (hentry : w.shared.map.lookup key = some entry) (hlive : entry.isExpired w.clock = false) :
    Readable shards key entry.value w := by
  have hpast : ∀ {u : Nat} {request : Op} {now : Nat},
      w.threads[u]? = some ⟨request, .ready now⟩ → entry.isExpired now = false := by
    intro u request now hu
    have hle : now ≤ w.clock := (hdue u _ hu).reading now rfl
    cases hexpired : entry.isExpired now with
    | false => rfl
    | true => exact (isExpired_mono hle hexpired).symm.trans hlive
  constructor
  case get =>
    intro u now hu
    refine ⟨_, Program.step_advance hu (getAct_live w.clock .get hentry (hpast hu)), ?_⟩
    rw [getElem?_acted hu, if_pos rfl]
  case existsKey =>
    intro u now hu
    refine ⟨_, Program.step_advance hu
      (getAct_live w.clock (fun value => .existsKey value.isSome) hentry (hpast hu)), ?_⟩
    rw [getElem?_acted hu, if_pos rfl]
    rfl

theorem isExpired_of_lt {value : Bytes} {ttl : Option Nat} (h : ∀ d ∈ ttl, clock < now + d) :
    (⟨value, ttl.map (now + ·)⟩ : Entry).isExpired clock = false := by
  cases ttl with
  | none => rfl
  | some d => exact decide_eq_false (Nat.not_le.2 (h d rfl))

/-- The access with which a call returns. -/
theorem returned_step {result : Result} (hs : (program shards).step w (.advance t) = some w')
    (ht : w.threads[t]? = some ⟨request, phase⟩)
    (hreturned : w'.threads[t]? = some ⟨request, .returned result⟩) :
    ∃ table, act shards w.shared w.clock request phase = some (table, .returned result) ∧
      w'.shared = table := by
  cases Program.step_cases hs with
  | @act _ call table phase' ht' hact =>
    obtain rfl := Option.some.inj (ht.symm.trans ht')
    rw [getElem?_acted ht, if_pos rfl] at hreturned
    obtain rfl : phase' = .returned result := by simpa using hreturned
    exact ⟨table, hact, rfl⟩

/-- What a `set` that succeeds stores. -/
theorem setAct_stores {value : Bytes} {ttl : Option Nat}
    (h : setAct shards table clock key value ttl phase =
      some (table', .returned (.reply (.set (.ok ()))))) :
    ∃ now, phase.reading? = some now ∧
      table'.map.lookup key = some ⟨value, ttl.map (now + ·)⟩ := by
  cases phase with
  | ready now =>
    simp only [setAct] at h
    split at h <;> cases h
    exact ⟨now, rfl, by rw [lookup_store, if_pos rfl]⟩
  | counting now next n =>
    simp only [setAct, checkSize] at h
    split at h
    · cases h
    · split at h <;> cases h
  | inserting now =>
    cases h
    exact ⟨now, rfl, by rw [lookup_store, if_pos rfl]⟩
  | start | removing | deleted | sizing | clearing | sweeping | returned => cases h

/-- **Reading never destroys a live value.**  For every key and every interleaving in which
nothing live is stored under it while a `get` or `exists` is going to remove it: no such call
removes a live entry, and what a `set` has stored can be read until its deadline, or until
another call takes effect on it. -/
theorem live_values_kept (shards : Shards) (maxEntries : Nat) (key : String) (es : List Event)
    (hunraced : Guarded (program shards).step (Unraced shards key) (initial maxEntries) es) :
    Along (program shards).step (Spares key) (initial maxEntries) es ∧
      ∀ pre t fs value ttl phase w w₁ w₂, es = pre ++ .advance t :: fs →
        run (program shards).step (initial maxEntries) pre = some w →
        w.threads[t]? = some ⟨.set key value ttl, phase⟩ →
        (program shards).step w (.advance t) = some w₁ →
        w₁.threads[t]? = some ⟨.set key value ttl, .returned (.reply (.set (.ok ())))⟩ →
        run (program shards).step w₁ fs = some w₂ →
        Guarded (program shards).step (Leaves shards key) w₁ fs →
        ∃ now, phase.reading? = some now ∧ now ≤ w.clock ∧
          ((∀ d ∈ ttl, w₂.clock < now + d) → Readable shards key value w₂) := by
  have hstart : Each (fun _ => Due key) (initial maxEntries) := fun t call h => by
    simp [initial] at h
  refine ⟨along_of_guarded (fun _ _ _ hdue hG hs => ⟨due_step hdue hG hs, spares_step hdue hs⟩)
    hstart hunraced, ?_⟩
  rintro pre t fs value ttl phase w w₁ w₂ rfl hpre ht hset hdone hfs hleaves
  obtain ⟨hGpre, hG⟩ := (guarded_append hpre).1 hunraced
  obtain ⟨hGset, hGfs⟩ := (guarded_cons hset).1 hG
  have hdue := invariant_of_guarded (fun _ _ _ => due_step) hstart hGpre hpre
  have hdue₁ := due_step hdue hGset hset
  obtain ⟨table, hact, hstored⟩ := returned_step hset ht hdone
  obtain ⟨now, hnow, hentry⟩ := setAct_stores hact
  refine ⟨now, hnow, (hdue t _ ht).reading now hnow, fun hlive => ?_⟩
  obtain ⟨hdue₂, hkept⟩ := invariant_of_guarded
    (I := fun v => Each (fun _ => Due key) v ∧ Kept key ⟨value, ttl.map (now + ·)⟩ v)
    (fun _ _ _ hI hG hs => ⟨due_step hI.1 hG.1 hs, kept_step hI.1 hI.2 hG.2 hs⟩)
    ⟨hdue₁, .inr (hstored ▸ hentry)⟩ (hGfs.and hleaves) hfs
  have hfresh : (⟨value, ttl.map (now + ·)⟩ : Entry).isExpired w₂.clock = false :=
    isExpired_of_lt hlive
  obtain hexpired | hentry := hkept
  · cases hexpired.symm.trans hfresh
  · exact readable_of_live hdue₂ hentry hfresh

/-- A map of a single shard. -/
def oneShard : Shards := ⟨1, fun _ => 0, fun _ => Nat.zero_lt_one⟩

/-- A `set` of a new key, up to its insertion. -/
def firstSet : List Event :=
  [.call (.set "k" [1] (some 5)), .advance 0, .advance 0, .advance 0, .advance 0]

/-- Time goes by, and a `get` reads the clock. -/
def getLater : List Event := [.tick 3, .call (.get "k"), .advance 1]

theorem live_values_kept_later :
    ∃ w, run (program oneShard).step (initial 4) (firstSet ++ .advance 0 :: getLater) = some w ∧
      w.clock = 3 ∧ Readable oneShard "k" [1] w := by
  obtain ⟨now, hnow, -, hreadable⟩ :=
    (live_values_kept oneShard 4 "k" (firstSet ++ .advance 0 :: getLater) (by decide)).2 firstSet 0
      getLater [1] (some 5) (.inserting 0) _ _ _ rfl rfl rfl rfl rfl rfl (by decide)
  obtain rfl : 0 = now := Option.some.inj hnow
  exact ⟨_, rfl, rfl, hreadable (by decide)⟩

/-- The value expires, and a `get` finds that out; meanwhile a second `set` has come as far as
the map. -/
def expiredGet : List Event :=
  List.flatten [firstSet, [.advance 0, .tick 5, .call (.get "k"), .advance 1, .advance 1,
    .call (.set "k" [2] none), .advance 2]]

/-- The first `get` removes what it finds now, and another one comes. -/
def lateEviction : List Event := [.advance 1, .call (.get "k"), .advance 3]

theorem not_readable_of_absent {value : Bytes} (t now : Nat)
    (ht : w.threads[t]? = some ⟨.get key, .ready now⟩) (habsent : w.shared.map.lookup key = none) :
    ¬ Readable shards key value w := by
  intro h
  obtain ⟨w', hs, hget⟩ := h.get t now ht
  have hact : getAct w.shared w.clock key .get (.ready now) =
      some (w.shared, .returned (.reply (.get none))) := by
    simp [getAct, habsent]
  obtain rfl := Option.some.inj ((Program.step_advance ht hact).symm.trans hs)
  rw [getElem?_acted ht, if_pos rfl] at hget
  cases hget

/-- The second `set` has returned; nobody has touched its value since, which has no deadline, but
it is gone. -/
theorem live_value_evicted :
    ∃ w w₁ w₂, run (program oneShard).step (initial 4) expiredGet = some w ∧
      w.threads[2]? = some ⟨.set "k" [2] none, .ready 5⟩ ∧
      (program oneShard).step w (.advance 2) = some w₁ ∧
      w₁.threads[2]? = some ⟨.set "k" [2] none, .returned (.reply (.set (.ok ())))⟩ ∧
      run (program oneShard).step w₁ lateEviction = some w₂ ∧
      Guarded (program oneShard).step (Leaves oneShard "k") w₁ lateEviction ∧
      w₂.shared.map.lookup "k" = none ∧ ¬ Readable oneShard "k" [2] w₂ ∧
      ¬ Spares "k" w₁ (.advance 1)
        (w₁.acted 1 ⟨.get "k", .removing 5⟩ (w₁.shared.remove "k")
          (.returned (.reply (.get none)))) := by
  refine ⟨_, _, _, rfl, rfl, rfl, rfl, rfl, by decide, rfl, fun hreadable => ?_, fun hspares => ?_⟩
  · exact not_readable_of_absent 3 5 rfl rfl hreadable
  · exact absurd (hspares 1 ⟨.get "k", .removing 5⟩ "k" ⟨[2], none⟩ rfl rfl rfl rfl rfl) (by decide)

end Races

end Turbine.Tables
