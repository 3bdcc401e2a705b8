import Turbine.Base.Runs
import Turbine.Cache.Keyed
import Turbine.Cache.Store
import Turbine.Server.Checks

/-!
# Turbine.Server.Sharing

Responses that requests share: the part of `handle_request_inner` from the lookup
in the response cache to the publication of the result, for any number of
requests at once, as a transition system over the cache and the coalescer.  Each
access to one of the two is one `Event`.

Both find a response by the method and the URI only, so what a request gets may
have been produced for another host or another client.

* `sound_step`: shared responses stay under the key they were produced for;
* `SharesAlike`: the condition under which that is enough.
-/

namespace Turbine.Server.Sharing

open Base Cache Http

/-! ## requests -/

/-- `HeaderValue::to_str`: the text of a value in visible ASCII. -/
def toStr (value : Bytes) : Option String :=
  if value.all (fun b => b = 9 || (32 ≤ b && b < 127)) then
    some (String.ofList (value.map fun b => Char.ofNat b.toNat))
  else none

/-- A request as it comes in, with the bytes of its header values.  `blocked` is the
reason if the input checks block it. -/
structure Asked where
  method : String
  path : String
  query : String
  headers : List (String × Bytes)
  blocked : Option String
deriving DecidableEq, Repr

/-- The values of a header. -/
def Asked.values (a : Asked) (name : String) : List Bytes :=
  (a.headers.filter (·.1 == name)).map (·.2)

/-- What routing reads. -/
def Asked.routed (a : Asked) : Routed := ⟨(a.values "host").head?.bind toStr, a.path, a.blocked⟩

/-- `full_uri_cache`. -/
def Asked.uri (a : Asked) : String := if a.query.isEmpty then a.path else a.path ++ "?" ++ a.query

/-- The key in the cache, and in the coalescer if the method is `GET`. -/
def Asked.key (a : Asked) : String := cacheKey a.method a.uri

/-- Two requests are for one document root and from one client. -/
def Agree (srv : ServerState) (a b : Asked) : Prop :=
  (srv.app a.routed.host).documentRoot = (srv.app b.routed.host).documentRoot ∧
    a.values "cookie" = b.values "cookie" ∧ a.values "authorization" = b.values "authorization"

instance (srv : ServerState) (a b : Asked) : Decidable (Agree srv a b) :=
  inferInstanceAs (Decidable (_ ∧ _ ∧ _))

theorem Agree.refl (srv : ServerState) (a : Asked) : Agree srv a a := ⟨rfl, rfl, rfl⟩

/-! ## responses -/

/-- A response of a worker, after postprocessing. -/
structure Response where
  status : UInt16
  contentType : String
  headers : List (String × String)
  body : Bytes
deriving DecidableEq, Repr

/-- `response_prevents_caching`. -/
def Response.preventsCaching (r : Response) : Bool :=
  r.headers.any fun h =>
    eqIgnoreAsciiCase h.1 "Cache-Control" &&
      (containsStr h.2 "no-store" || containsStr h.2 "no-cache" || containsStr h.2 "private")

/-- A body, with the number of the request that it was produced for. -/
structure Produced where
  bytes : Bytes
  producer : Nat
deriving DecidableEq, Repr

/-- `CoalescedResponse`. -/
structure CoalescedResponse where
  status : UInt16
  contentType : String
  body : Produced
  headers : List (String × String)
deriving DecidableEq, Repr

/-- Where the answer to a request comes from. -/
inductive Answer
  | own (r : Response)
  | cached (r : CachedResponse Produced)
  | coalesced (r : CoalescedResponse)
deriving DecidableEq, Repr

/-- The request whose execution produced a shared answer. -/
def Answer.producer? : Answer → Option Nat
  | .own _ => none
  | .cached r => some r.body.producer
  | .coalesced r => some r.body.producer

/-! ## the handler -/

/-- Where a request stands.  `filling` is before `put` looks at the capacity,
`inserting` before its insertion. -/
inductive Phase
  | looking
  | stale
  | missed
  | following
  | executing
  | filling (r : Response)
  | inserting (r : Response)
  | publishing (r : Response)
  | answered (a : Answer)
  | gone
deriving DecidableEq, Repr

/-- A request that passed the checks.  `ticket` is its number at the coalescer;
`shareable` records that its response does not prevent caching. -/
structure Client where
  asked : Asked
  sourceHash : UInt64
  ticket : Option Nat := none
  shareable : Bool := false
  phase : Phase := .looking
deriving DecidableEq, Repr

def Client.key (c : Client) : String := c.asked.key

/-- Who produced the answer, if it is a shared one. -/
def Client.producer? (c : Client) : Option Nat :=
  match c.phase with
  | .answered a => a.producer?
  | _ => none

structure State where
  cache : ResponseCache Produced
  coalescer : Cache.State CoalescedResponse := initial
  clients : List Client := []

/-- All but `arrive` and `clear`, which is the administrator's, name the request that
takes the step.  `remove` and `notify` are the rest of the guard's `publish` or `drop`;
`leave` is the end of a request, by an error, a cancellation or after its answer. -/
inductive Event
  | arrive (fs : FileSystem) (asked : Asked)
  | clear
  | lookup (c : Nat) (now : Nat)
  | forget (c : Nat)
  | acquire (c : Nat)
  | wait (c : Nat)
  | resume (c : Nat)
  | execute (c : Nat) (r : Response)
  | makeRoom (c : Nat) (now : Nat)
  | insert (c : Nat) (now : Nat)
  | publish (c : Nat)
  | remove (c : Nat)
  | notify (c : Nat)
  | leave (c : Nat)

def State.put (s : State) (c : Nat) (client : Client) : State :=
  { s with clients := s.clients.set c client }

/-- A new request, which has to look into the cache first. -/
def State.enter (s : State) (asked : Asked) (sourceHash : UInt64) : State :=
  { s with clients := s.clients ++ [⟨asked, sourceHash, none, false, .looking⟩] }

def State.withCache (s : State) (cache : ResponseCache Produced) : State := { s with cache }

def State.withCoalescer (s : State) (coalescer : Cache.State CoalescedResponse) : State :=
  { s with coalescer }

/-- What a leader publishes. -/
def Response.coalesced (r : Response) (c : Nat) : CoalescedResponse :=
  ⟨r.status, r.contentType, ⟨r.body, c⟩, r.headers⟩

/-- A step of the request's own at the coalescer. -/
def State.coalesce (s : State) (client : Client) (e : Nat → Cache.Event CoalescedResponse) :
    Option State := client.ticket.bind fun t => (Cache.step s.coalescer (e t)).map s.withCoalescer

/-- What a follower does with what it received. -/
def Client.receive (client : Client) : Cache.Task CoalescedResponse → Option Client
  | .received _ (some r) => some { client with phase := .answered (.coalesced r) }
  -- the leader gave up
  | .received _ none => some { client with phase := .executing, ticket := none }
  | _ => none

/-- A client after its execution. -/
def State.executed (s : State) (client : Client) (r : Response) : Client :=
  if r.preventsCaching then { client with phase := .answered (.own r) }
  else if s.cache.stores client.asked.method r.status then
    { client with shareable := true, phase := .filling r }
  else { client with shareable := true, phase := .publishing r }

/-- One atomic action of the request `client`, whose number is `c`. -/
def State.act (s : State) (c : Nat) (client : Client) : Event → Option State
  | .lookup _ now =>
    if client.phase = .looking then
      match s.cache.peek client.asked.method client.asked.uri client.sourceHash now with
      | .hit r => some (s.put c { client with phase := .answered (.cached r) })
      | .stale => some (s.put c { client with phase := .stale })
      | .absent => some (s.put c { client with phase := .missed })
    else none
  | .forget _ =>
    if client.phase = .stale then
      some ((s.withCache (s.cache.remove client.key)).put c { client with phase := .missed })
    else none
  | .acquire _ =>
    if client.phase = .missed then
      if client.asked.method = "GET" ∧ s.cache.config.enabled = true then
        let key := cacheKey "GET" client.asked.uri
        some ((s.withCoalescer (Cache.acquire s.coalescer key)).put c
          { client with
            ticket := some s.coalescer.tasks.length
            phase := if (s.coalescer.inflight key).isSome then .following else .executing })
      else some (s.put c { client with phase := .executing })
    else none
  | .wait _ => if client.phase = .following then s.coalesce client .wait else none
  | .resume _ =>
    if client.phase = .following then do
      let s' ← s.coalesce client .resume
      let τ ← client.ticket.bind fun t => s'.coalescer.tasks[t]?
      let client' ← client.receive τ
      some (s'.put c client')
    else none
  | .execute _ r =>
    if client.phase = .executing then some (s.put c (s.executed client r)) else none
  | .makeRoom _ now =>
    match client.phase with
    | .filling r => some ((s.withCache (s.cache.makeRoom now)).put c
        { client with phase := .inserting r })
    | _ => none
  | .insert _ now =>
    match client.phase with
    | .inserting r =>
      let fresh := s.cache.entryFor client.sourceHash r.status r.contentType ⟨r.body, c⟩ now
      some ((s.withCache (s.cache.insert client.key fresh)).put c
        { client with phase := .publishing r })
    | _ => none
  | .publish _ =>
    match client.phase with
    | .publishing r =>
      if client.ticket.isSome then
        (s.coalesce client (.publish · (r.coalesced c))).map
          (·.put c { client with phase := .answered (.own r) })
      else some (s.put c { client with phase := .answered (.own r) })
    | _ => none
  | .remove _ => s.coalesce client .remove
  | .notify _ => s.coalesce client .notify
  | .leave _ =>
    let s' := (s.coalesce client .drop).getD s
    match client.phase with
    | .answered _ => some s'
    | _ => some (s'.put c { client with phase := .gone })
  | .arrive _ _ | .clear => none

/-- The request that takes the step. -/
def Event.client? : Event → Option Nat
  | .arrive _ _ | .clear => none
  | .lookup c _ | .forget c | .acquire c | .wait c | .resume c | .execute c _ | .makeRoom c _
  | .insert c _ | .publish c | .remove c | .notify c | .leave c => some c

/-- A request that comes to the cache.  Those that the checks refuse do not, nor do
those of persistent workers. -/
def State.arrive (srv : ServerState) (hashSource : Bytes → UInt64) (s : State)
    (fs : FileSystem) (asked : Asked) : Option State :=
  match srv.admit fs asked.routed with
  | .ok script => script.source.map fun source => s.enter asked (hashSource source)
  | .error _ => none

/-- One atomic action; `none` if it is not enabled. -/
def step (srv : ServerState) (hashSource : Bytes → UInt64) (s : State) (e : Event) : Option State :=
  match e.client? with
  | some c => s.clients[c]?.bind fun client => s.act c client e
  | none =>
    match e with
    | .arrive fs asked => s.arrive srv hashSource fs asked
    | .clear => some (s.withCache s.cache.clear)
    | _ => none

def start (config : CacheConfig) : State := { cache := { config } }

variable {srv : ServerState} {hashSource : Bytes → UInt64} {s s' : State}
  {clients clients' : List Client} {client old new : Client} {c : Nat} {κ : Nat → String}

/-! ## the steps, said once -/

/-- A follower is answered, or executes its script itself. -/
theorem receive_eq_some {τ : Cache.Task CoalescedResponse} (h : client.receive τ = some new) :
    (∃ i r, τ = .received i (some r) ∧ new = { client with phase := .answered (.coalesced r) }) ∨
      new = { client with phase := .executing, ticket := none } := by
  unfold Client.receive at h
  split at h <;> cases h
  · exact .inl ⟨_, _, rfl, rfl⟩
  · exact .inr rfl

/-- What the request `client`, whose number is `c`, can do, and what comes of it. -/
inductive Acts (s : State) (c : Nat) (client : Client) : Event → State → Prop
  | hit {now : Nat} {r : CachedResponse Produced} (hphase : client.phase = .looking)
      (hpeek : s.cache.peek client.asked.method client.asked.uri client.sourceHash now = .hit r) :
      Acts s c client (.lookup c now) (s.put c { client with phase := .answered (.cached r) })
  | stale {now : Nat} (hphase : client.phase = .looking) :
      Acts s c client (.lookup c now) (s.put c { client with phase := .stale })
  | miss {now : Nat} (hphase : client.phase = .looking) :
      Acts s c client (.lookup c now) (s.put c { client with phase := .missed })
  | forget (hphase : client.phase = .stale) :
      Acts s c client (.forget c)
        ((s.withCache (s.cache.remove client.key)).put c { client with phase := .missed })
  | acquire {phase : Phase} (hphase : client.phase = .missed)
      (hnext : phase = .following ∨ phase = .executing) :
      Acts s c client (.acquire c)
        ((s.withCoalescer (Cache.acquire s.coalescer client.key)).put c
          { client with ticket := some s.coalescer.tasks.length, phase })
  | alone (hphase : client.phase = .missed) :
      Acts s c client (.acquire c) (s.put c { client with phase := .executing })
  | wait {s' : State} (hphase : client.phase = .following)
      (hs : s.coalesce client .wait = some s') : Acts s c client (.wait c) s'
  | receive {s₁ : State} {t i : Nat} {r : CoalescedResponse} (hphase : client.phase = .following)
      (hs : s.coalesce client .resume = some s₁) (ht : client.ticket = some t)
      (hτ : s₁.coalescer.tasks[t]? = some (.received i (some r))) :
      Acts s c client (.resume c) (s₁.put c { client with phase := .answered (.coalesced r) })
  | takeOver {s₁ : State} (hphase : client.phase = .following)
      (hs : s.coalesce client .resume = some s₁) :
      Acts s c client (.resume c) (s₁.put c { client with phase := .executing, ticket := none })
  | execute {r : Response} (hphase : client.phase = .executing) :
      Acts s c client (.execute c r) (s.put c (s.executed client r))
  | makeRoom {r : Response} {now : Nat} (hphase : client.phase = .filling r) :
      Acts s c client (.makeRoom c now)
        ((s.withCache (s.cache.makeRoom now)).put c { client with phase := .inserting r })
  | insert {r : Response} {now : Nat} (hphase : client.phase = .inserting r) :
      Acts s c client (.insert c now)
        ((s.withCache (s.cache.insert client.key
          (s.cache.entryFor client.sourceHash r.status r.contentType ⟨r.body, c⟩ now))).put c
          { client with phase := .publishing r })
  | publish {s₁ : State} {r : Response} (hphase : client.phase = .publishing r)
      (hs : s.coalesce client (.publish · (r.coalesced c)) = some s₁) :
      Acts s c client (.publish c) (s₁.put c { client with phase := .answered (.own r) })
  | answer {r : Response} (hphase : client.phase = .publishing r) :
      Acts s c client (.publish c) (s.put c { client with phase := .answered (.own r) })
  | remove {s' : State} (hs : s.coalesce client .remove = some s') :
      Acts s c client (.remove c) s'
  | notify {s' : State} (hs : s.coalesce client .notify = some s') :
      Acts s c client (.notify c) s'
  | leave {a : Answer} (hphase : client.phase = .answered a) :
      Acts s c client (.leave c) ((s.coalesce client .drop).getD s)
  | cancel :
      Acts s c client (.leave c)
        (((s.coalesce client .drop).getD s).put c { client with phase := .gone })

/-- **Inversion.**  Everything that a step of a request can be. -/
theorem Acts.of_act {e : Event} (hclient : e.client? = some c)
    (hs : s.act c client e = some s') : Acts s c client e s' := by
  cases e <;> cases hclient <;> simp only [State.act] at hs
  case lookup now =>
    split at hs
    case isTrue hphase =>
      split at hs <;> cases hs
      case h_1 r hpeek => exact .hit hphase hpeek
      · exact .stale hphase
      · exact .miss hphase
    · cases hs
  case forget =>
    split at hs <;> cases hs
    exact .forget ‹_›
  case acquire =>
    split at hs
    case isTrue hphase =>
      split at hs <;> cases hs
      case isTrue hget =>
        have hkey : client.key = cacheKey "GET" client.asked.uri := by
          rw [Client.key, Asked.key, hget.1]
        rw [← hkey]
        refine .acquire hphase ?_
        split
        · exact .inl rfl
        · exact .inr rfl
      · exact .alone hphase
    · cases hs
  case wait =>
    split at hs
    · exact .wait ‹_› hs
    · cases hs
  case resume =>
    split at hs
    case isTrue hphase =>
      obtain ⟨s₁, hs₁, hs⟩ := Option.bind_eq_some_iff.1 hs
      obtain ⟨τ, hτ, hs⟩ := Option.bind_eq_some_iff.1 hs
      obtain ⟨new, hnew, hs⟩ := Option.bind_eq_some_iff.1 hs
      cases hs
      obtain ⟨t, ht, hτ⟩ := Option.bind_eq_some_iff.1 hτ
      rcases receive_eq_some hnew with ⟨i, r, rfl, rfl⟩ | rfl
      · exact .receive hphase hs₁ ht hτ
      · exact .takeOver hphase hs₁
    · cases hs
  case execute r =>
    split at hs <;> cases hs
    exact .execute ‹_›
  case makeRoom now =>
    split at hs <;> cases hs
    exact .makeRoom ‹_›
  case insert now =>
    split at hs <;> cases hs
    exact .insert ‹_›
  case publish =>
    split at hs
    case h_1 r hphase =>
      split at hs
      · obtain ⟨s₁, hs₁, rfl⟩ := Option.map_eq_some_iff.1 hs
        exact .publish hphase hs₁
      · cases hs
        exact .answer hphase
    · cases hs
  case remove => exact .remove hs
  case notify => exact .notify hs
  case leave =>
    split at hs <;> cases hs
    · exact .leave ‹_›
    · exact .cancel

/-- A step is an arrival, the clearing of the cache or the action of a request. -/
inductive Step (s : State) : Event → State → Prop
  | arrive {fs : FileSystem} {asked : Asked} (hash : UInt64) :
      Step s (.arrive fs asked) (s.enter asked hash)
  | clear : Step s .clear (s.withCache s.cache.clear)
  | act {c : Nat} {client : Client} {e : Event} {s' : State} (hc : s.clients[c]? = some client)
      (hact : Acts s c client e s') : Step s e s'

theorem Step.of_step {e : Event} (hs : step srv hashSource s e = some s') : Step s e s' := by
  unfold step at hs
  split at hs
  case h_1 c hclient =>
    obtain ⟨client, hc, hs⟩ := Option.bind_eq_some_iff.1 hs
    exact .act hc (.of_act hclient hs)
  case h_2 hnone =>
    split at hs
    case h_1 fs asked =>
      unfold State.arrive at hs
      split at hs
      · obtain ⟨source, -, rfl⟩ := Option.map_eq_some_iff.1 hs
        exact .arrive (hashSource source)
      · cases hs
    · cases hs
      exact .clear
    · cases hs

/-! ## who produced what -/

/-- Request `p` has key `k`, and its response may be shared. -/
def Offered (clients : List Client) (k : String) (p : Nat) : Prop :=
  ∃ r, clients[p]? = some r ∧ r.key = k ∧ r.shareable = true

/-- The requests are still there, and what was shareable is. -/
def Grows (clients clients' : List Client) : Prop :=
  ∀ (p : Nat) (r : Client), clients[p]? = some r →
    ∃ r', clients'[p]? = some r' ∧ r'.asked = r.asked ∧ (r.shareable = true → r'.shareable = true)

theorem Offered.mono (hgrows : Grows clients clients') {k : String} {p : Nat}
    (h : Offered clients k p) : Offered clients' k p := by
  obtain ⟨r, hr, hkey, hshare⟩ := h
  obtain ⟨r', hr', hasked, hshare'⟩ := hgrows p r hr
  exact ⟨r', hr', by rw [Client.key, hasked]; exact hkey, hshare' hshare⟩

theorem grows_set (hold : clients[c]? = some old) (hasked : new.asked = old.asked)
    (hshare : old.shareable = true → new.shareable = true) : Grows clients (clients.set c new) := by
  intro p r hr
  by_cases hp : c = p
  · subst hp
    rw [hold] at hr
    cases hr
    obtain ⟨hlt, -⟩ := List.getElem?_eq_some_iff.1 hold
    exact ⟨new, List.getElem?_set_self hlt, hasked, hshare⟩
  · exact ⟨r, by rw [List.getElem?_set_ne hp, hr], rfl, id⟩

theorem grows_concat : Grows clients (clients ++ [new]) := by
  intro p r hr
  obtain ⟨hlt, -⟩ := List.getElem?_eq_some_iff.1 hr
  exact ⟨r, by rw [List.getElem?_append_left hlt, hr], rfl, id⟩

/-! ## what every request knows -/

/-- The response is about to be shared. -/
def Phase.shares : Phase → Bool
  | .filling _ | .inserting _ | .publishing _ => true
  | _ => false

/-- What a request has is of its key, and what it shares may be shared. -/
structure Client.Fair (clients : List Client) (client : Client) : Prop where
  answer : ∀ p, client.producer? = some p → Offered clients client.key p
  shares : client.phase.shares = true → client.shareable = true

/-- The request's slot is one of its key. -/
def Client.Ticketed (κ : Nat → String) (tasks : List (Cache.Task CoalescedResponse))
    (client : Client) : Prop :=
  ∀ t, client.ticket = some t →
    ∃ τ, tasks[t]? = some τ ∧ ∀ i, τ.slot? = some i → κ i = client.key

/-- Whoever has the key of a shareable response agrees with the one who produced it. -/
def Agreed (srv : ServerState) (clients : List Client) : Prop :=
  ∀ r ∈ clients, r.shareable = true → ∀ d ∈ clients, d.key = r.key → Agree srv r.asked d.asked

/-- What is shared stays under the key it was produced for. -/
structure State.Sound (srv : ServerState) (κ : Nat → String) (s : State) : Prop where
  keyed : s.coalescer.Keyed κ fun k v => Offered s.clients k v.body.producer
  cached : s.cache.Every fun k r => Offered s.clients k r.body.producer
  fair : ∀ d ∈ s.clients, d.Fair s.clients
  ticketed : ∀ d ∈ s.clients, d.Ticketed κ s.coalescer.tasks
  agreed : Agreed srv s.clients

theorem sound_start (config : CacheConfig) : (start config).Sound srv κ where
  keyed := keyed_initial
  cached := fun _ he => absurd he List.not_mem_nil
  fair := fun _ hd => absurd hd List.not_mem_nil
  ticketed := fun _ hd => absurd hd List.not_mem_nil
  agreed := fun _ hr => absurd hr List.not_mem_nil

theorem Client.Fair.mono (h : client.Fair clients) (hgrows : Grows clients clients') :
    client.Fair clients' := ⟨fun p hp => (h.answer p hp).mono hgrows, h.shares⟩

/-- A change of the requests alone. -/
theorem State.Sound.regroup (h : s.Sound srv κ) (hgrows : Grows s.clients clients')
    (hfair : ∀ d ∈ clients', d.Fair s.clients ∧ d.Ticketed κ s.coalescer.tasks)
    (hagreed : Agreed srv clients') : ({ s with clients := clients' } : State).Sound srv κ where
  keyed := h.keyed.mono fun _ _ hv => hv.mono hgrows
  cached := h.cached.mono fun _ _ hr => hr.mono hgrows
  fair := fun d hd => (hfair d hd).1.mono hgrows
  ticketed := fun d hd => (hfair d hd).2
  agreed := hagreed

theorem agreed_set (h : Agreed srv clients) (hold : clients[c]? = some old)
    (hasked : new.asked = old.asked) (hshare : new.shareable = true → old.shareable = false →
      ∀ d ∈ clients, d.key = old.key → Agree srv old.asked d.asked) :
    Agreed srv (clients.set c new) := by
  have hmem : old ∈ clients := List.mem_of_getElem? hold
  have hkey : new.key = old.key := by rw [Client.key, hasked, Client.key]
  -- the changed request asks what it asked, so only its own sharing is new
  have hnew : new.shareable = true → ∀ d ∈ clients, d.key = old.key →
      Agree srv old.asked d.asked := by
    intro hs d hd hk
    cases ho : old.shareable with
    | true => exact h old hmem ho d hd hk
    | false => exact hshare hs ho d hd hk
  intro r hr hs d hd hk
  rcases List.mem_or_eq_of_mem_set hr with hr' | hr' <;>
    rcases List.mem_or_eq_of_mem_set hd with hd' | hd'
  · exact h r hr' hs d hd' hk
  · rw [hd', hasked]
    exact h r hr' hs old hmem (hkey ▸ hd' ▸ hk)
  · rw [hr', hasked]
    exact hnew (hr' ▸ hs) d hd' (hk.trans (hr' ▸ hkey))
  · rw [hr', hd']
    exact Agree.refl srv _

/-- A change of one request. -/
theorem State.Sound.put (h : s.Sound srv κ) (hold : s.clients[c]? = some old)
    (hasked : new.asked = old.asked) (hshare : old.shareable = true → new.shareable = true)
    (hagree : new.shareable = true → old.shareable = false →
      ∀ d ∈ s.clients, d.key = old.key → Agree srv old.asked d.asked)
    (hfair : new.Fair s.clients) (hticket : new.Ticketed κ s.coalescer.tasks) :
    (s.put c new).Sound srv κ := by
  refine h.regroup (grows_set hold hasked hshare) ?_ (agreed_set h.agreed hold hasked hagree)
  intro d hd
  rcases List.mem_or_eq_of_mem_set hd with hd' | hd'
  · exact ⟨h.fair d hd', h.ticketed d hd'⟩
  · rw [hd']
    exact ⟨hfair, hticket⟩

/-- A change of one request that does not make its response shareable. -/
theorem State.Sound.move (h : s.Sound srv κ) (hold : s.clients[c]? = some old)
    (hasked : new.asked = old.asked) (hshare : new.shareable = old.shareable)
    (hfair : new.Fair s.clients) (hticket : new.Ticketed κ s.coalescer.tasks) :
    (s.put c new).Sound srv κ := by
  refine h.put hold hasked (fun ho => hshare.trans ho) ?_ hfair hticket
  intro hs ho
  rw [← hshare, hs] at ho
  cases ho

/-- A change of where one request stands. -/
theorem State.Sound.goto {phase : Phase} (h : s.Sound srv κ) (hold : s.clients[c]? = some old)
    (hfair : Client.Fair s.clients { old with phase }) : (s.put c { old with phase }).Sound srv κ :=
  h.move hold rfl rfl hfair (h.ticketed old (List.mem_of_getElem? hold))

/-- A request that neither has a shared answer nor is about to share one. -/
theorem fair_of_plain (hproducer : client.producer? = none) (hshares : client.phase.shares = false) :
    client.Fair clients where
  answer := fun p hp => by rw [hproducer] at hp; cases hp
  shares := fun hs => by rw [hshares] at hs; cases hs

theorem State.Sound.withCache {cache : ResponseCache Produced} (h : s.Sound srv κ)
    (hcache : cache.Every fun k r => Offered s.clients k r.body.producer) :
    (s.withCache cache).Sound srv κ := ⟨h.keyed, hcache, h.fair, h.ticketed, h.agreed⟩

/-! ## steps at the coalescer -/

theorem Client.Ticketed.step {tasks tasks' : List (Cache.Task CoalescedResponse)}
    {κ' : Nat → String} {n : Nat} (h : client.Ticketed κ tasks)
    (hlt : ∀ τ ∈ tasks, ∀ i, τ.slot? = some i → i < n) (hold : ∀ i < n, κ' i = κ i)
    (hkeep : ∀ (t : Nat) (τ : Cache.Task CoalescedResponse), tasks[t]? = some τ →
      ∃ τ', tasks'[t]? = some τ' ∧ ∀ i, τ'.slot? = some i → τ.slot? = some i) :
    client.Ticketed κ' tasks' := by
  intro t ht
  obtain ⟨τ, hτ, hkey⟩ := h t ht
  obtain ⟨τ', hτ', hslot⟩ := hkeep t τ hτ
  refine ⟨τ', hτ', fun i hi => ?_⟩
  rw [hold i (hlt τ (List.mem_of_getElem? hτ) i (hslot i hi))]
  exact hkey i (hslot i hi)

/-- A step at the coalescer that publishes nothing wrong. -/
theorem State.Sound.withCoalescer {e : Cache.Event CoalescedResponse}
    {coalescer : Cache.State CoalescedResponse} (h : s.Sound srv κ)
    (hs : Cache.step s.coalescer e = some coalescer)
    (he : PublishesFor (fun k v => Offered s.clients k v.body.producer) s.coalescer e) :
    ∃ κ', (s.withCoalescer coalescer).Sound srv κ' := by
  have hstep := Cache.Step.of_step hs
  obtain ⟨κ', hold, hkeyed⟩ := keyed_step h.keyed hstep he
  refine ⟨κ', hkeyed, h.cached, h.fair, fun d hd => ?_, h.agreed⟩
  exact (h.ticketed d hd).step (fun τ hτ => (h.keyed.held hτ).2) hold
    fun t τ hτ => slot?_step hstep hτ

theorem coalesce_eq_some {e : Nat → Cache.Event CoalescedResponse}
    (h : s.coalesce client e = some s') :
    ∃ t coalescer, client.ticket = some t ∧ Cache.step s.coalescer (e t) = some coalescer ∧
      s' = s.withCoalescer coalescer := by
  obtain ⟨t, ht, h⟩ := Option.bind_eq_some_iff.1 h
  obtain ⟨coalescer, hs, rfl⟩ := Option.map_eq_some_iff.1 h
  exact ⟨t, coalescer, ht, hs, rfl⟩

/-- A step of a request at the coalescer. -/
theorem State.Sound.coalesce {e : Nat → Cache.Event CoalescedResponse} (h : s.Sound srv κ)
    (hs : s.coalesce client e = some s') (he : ∀ t, client.ticket = some t →
      PublishesFor (fun k v => Offered s.clients k v.body.producer) s.coalescer (e t)) :
    s'.clients = s.clients ∧ ∃ κ', s'.Sound srv κ' := by
  obtain ⟨t, coalescer, ht, hstep, rfl⟩ := coalesce_eq_some hs
  exact ⟨rfl, h.withCoalescer hstep (he t ht)⟩

/-- What a follower receives was produced under its own key. -/
theorem offered_of_received {t i : Nat} {r : CoalescedResponse} (h : s.Sound srv κ)
    (hmem : client ∈ s.clients) (ht : client.ticket = some t)
    (hτ : s.coalescer.tasks[t]? = some (.received i (some r))) :
    Offered s.clients client.key r.body.producer := by
  obtain ⟨τ, hτ', hkey⟩ := h.ticketed client hmem t ht
  rw [hτ] at hτ'
  cases hτ'
  rw [← hkey i rfl]
  exact (h.keyed.held (List.mem_of_getElem? hτ)).1 r rfl

/-- What a leader publishes is its own response, under its own key. -/
theorem publishesFor_own {t : Nat} {r : Response} (h : s.Sound srv κ)
    (hc : s.clients[c]? = some client) (hshare : client.shareable = true)
    (ht : client.ticket = some t) :
    PublishesFor (fun k v => Offered s.clients k v.body.producer) s.coalescer
      (.publish t (r.coalesced c)) := by
  intro g hg
  obtain ⟨τ, hτ, hkey⟩ := h.ticketed client (List.mem_of_getElem? hc) t ht
  rw [hg] at hτ
  cases hτ
  have hguard : κ g.slot = g.key := (h.keyed.held (List.mem_of_getElem? hg)).1
  exact ⟨client, hc, by rw [← hguard, hkey g.slot rfl], hshare⟩

/-! ## the condition -/

/-- Requests of one key agree as soon as a response for it may be shared: those there
are when it is produced, and those that come later. -/
def SharesAlike (srv : ServerState) (s : State) : Event → Prop
  | .arrive _ asked =>
    ∀ r ∈ s.clients, r.shareable = true → r.key = asked.key → Agree srv r.asked asked
  | .execute c r => r.preventsCaching = false → ∀ client ∈ s.clients[c]?,
      ∀ d ∈ s.clients, d.key = client.key → Agree srv client.asked d.asked
  | _ => True

instance (srv : ServerState) (s : State) (e : Event) : Decidable (SharesAlike srv s e) := by
  cases e <;> unfold SharesAlike <;> infer_instance

/-! ## one step -/

/-- A new request has nothing yet. -/
theorem sound_arrive {asked : Asked} {hash : UInt64} (h : s.Sound srv κ)
    (hagree : ∀ r ∈ s.clients, r.shareable = true → r.key = asked.key → Agree srv r.asked asked) :
    (s.enter asked hash).Sound srv κ := by
  refine h.regroup grows_concat ?_ ?_
  · intro d hd
    rcases List.mem_append.1 hd with hd | hd
    · exact ⟨h.fair d hd, h.ticketed d hd⟩
    · rw [List.mem_singleton.1 hd]
      exact ⟨fair_of_plain rfl rfl, nofun⟩
  · intro r hr hs d hd hk
    rcases List.mem_append.1 hr with hr | hr
    · rcases List.mem_append.1 hd with hd | hd
      · exact h.agreed r hr hs d hd hk
      · rw [List.mem_singleton.1 hd] at hk ⊢
        exact hagree r hr hs hk.symm
    · rw [List.mem_singleton.1 hr] at hs
      cases hs

/-- A request that has acquired its key has a slot of it. -/
theorem sound_acquire {phase : Phase} (h : s.Sound srv κ) (hc : s.clients[c]? = some client)
    (hnext : phase = .following ∨ phase = .executing) :
    ∃ κ', ((s.withCoalescer (Cache.acquire s.coalescer client.key)).put c
      { client with ticket := some s.coalescer.tasks.length, phase }).Sound srv κ' := by
  obtain ⟨κ', τ, hold, hkeyed, hnew, hslot⟩ := acquired_slot client.key h.keyed
  have hstep : Cache.step s.coalescer (.acquire client.key) =
      some (Cache.acquire s.coalescer client.key) := rfl
  have hsound : (s.withCoalescer (Cache.acquire s.coalescer client.key)).Sound srv κ' := by
    refine ⟨hkeyed, h.cached, h.fair, fun d hd => ?_, h.agreed⟩
    exact (h.ticketed d hd).step (fun τ hτ => (h.keyed.held hτ).2) hold
      fun t τ hτ => slot?_step (Cache.Step.of_step hstep) hτ
  refine ⟨κ', hsound.move hc rfl rfl ?_ ?_⟩
  · rcases hnext with rfl | rfl
    · exact fair_of_plain rfl rfl
    · exact fair_of_plain rfl rfl
  · rintro _ ⟨⟩
    exact ⟨τ, hnew, hslot⟩

theorem sound_execute {r : Response} (h : s.Sound srv κ) (hc : s.clients[c]? = some client)
    (hagree : SharesAlike srv s (.execute c r)) : (s.put c (s.executed client r)).Sound srv κ := by
  have hticket := h.ticketed client (List.mem_of_getElem? hc)
  unfold State.executed
  split
  · exact h.goto hc (fair_of_plain rfl rfl)
  case isFalse hcacheable =>
    have hagree : ∀ d ∈ s.clients, d.key = client.key → Agree srv client.asked d.asked :=
      hagree (Bool.eq_false_iff.2 hcacheable) client hc
    split
    · exact h.put hc rfl (fun _ => rfl) (fun _ _ => hagree) ⟨nofun, fun _ => rfl⟩ hticket
    · exact h.put hc rfl (fun _ => rfl) (fun _ _ => hagree) ⟨nofun, fun _ => rfl⟩ hticket

theorem shareable_of_phase (h : s.Sound srv κ) (hc : s.clients[c]? = some client)
    (hphase : client.phase.shares = true) : client.shareable = true :=
  (h.fair client (List.mem_of_getElem? hc)).shares hphase

/-- Giving up the guard changes no request. -/
theorem sound_drop (client : Client) (h : s.Sound srv κ) :
    ((s.coalesce client .drop).getD s).clients = s.clients ∧
      ∃ κ', ((s.coalesce client .drop).getD s).Sound srv κ' := by
  cases hs : s.coalesce client .drop with
  | none => exact ⟨rfl, κ, h⟩
  | some s₁ => exact h.coalesce hs fun _ _ => trivial

theorem sound_act {e : Event} (h : s.Sound srv κ) (he : SharesAlike srv s e)
    (hc : s.clients[c]? = some client) (hact : Acts s c client e s') : ∃ κ', s'.Sound srv κ' := by
  cases hact with
  | hit hphase hpeek =>
    refine ⟨κ, h.goto hc ⟨?_, nofun⟩⟩
    rintro _ ⟨⟩
    exact h.cached.peek hpeek
  | stale hphase => exact ⟨κ, h.goto hc (fair_of_plain rfl rfl)⟩
  | miss hphase => exact ⟨κ, h.goto hc (fair_of_plain rfl rfl)⟩
  | forget hphase =>
    exact ⟨κ, (h.withCache h.cached.remove).goto hc (fair_of_plain rfl rfl)⟩
  | acquire hphase hnext => exact sound_acquire h hc hnext
  | alone hphase => exact ⟨κ, h.goto hc (fair_of_plain rfl rfl)⟩
  | wait hphase hs => exact (h.coalesce hs fun _ _ => trivial).2
  | @receive s₁ t i r hphase hs ht hτ =>
    obtain ⟨hclients, κ', h'⟩ := h.coalesce hs fun _ _ => trivial
    have hc' : s₁.clients[c]? = some client := hclients ▸ hc
    have hoffered : Offered s₁.clients client.key r.body.producer :=
      offered_of_received h' (List.mem_of_getElem? hc') ht hτ
    refine ⟨κ', h'.goto hc' ⟨?_, nofun⟩⟩
    rintro _ ⟨⟩
    exact hoffered
  | @takeOver s₁ hphase hs =>
    obtain ⟨hclients, κ', h'⟩ := h.coalesce hs fun _ _ => trivial
    have hc' : s₁.clients[c]? = some client := hclients ▸ hc
    exact ⟨κ', h'.move hc' rfl rfl (fair_of_plain rfl rfl) nofun⟩
  | execute hphase => exact ⟨κ, sound_execute h hc he⟩
  | makeRoom hphase =>
    have hshare := shareable_of_phase h hc (by rw [hphase]; rfl)
    exact ⟨κ, (h.withCache h.cached.makeRoom).goto hc ⟨nofun, fun _ => hshare⟩⟩
  | insert hphase =>
    have hshare := shareable_of_phase h hc (by rw [hphase]; rfl)
    have hoffered : Offered s.clients client.key c := ⟨client, hc, rfl, hshare⟩
    exact ⟨κ, (h.withCache (h.cached.insert hoffered)).goto hc ⟨nofun, fun _ => hshare⟩⟩
  | publish hphase hs =>
    have hshare := shareable_of_phase h hc (by rw [hphase]; rfl)
    obtain ⟨hclients, κ', h'⟩ := h.coalesce hs fun t ht => publishesFor_own h hc hshare ht
    exact ⟨κ', h'.goto (hclients ▸ hc) (fair_of_plain rfl rfl)⟩
  | answer hphase => exact ⟨κ, h.goto hc (fair_of_plain rfl rfl)⟩
  | remove hs => exact (h.coalesce hs fun _ _ => trivial).2
  | notify hs => exact (h.coalesce hs fun _ _ => trivial).2
  | leave hphase => exact (sound_drop client h).2
  | cancel =>
    obtain ⟨hclients, κ', h'⟩ := sound_drop client h
    exact ⟨κ', h'.goto (hclients ▸ hc) (fair_of_plain rfl rfl)⟩

/-- **Step lemma.**  A step that meets the condition keeps what is shared under the key
it was produced for. -/
theorem sound_step {e : Event} (h : s.Sound srv κ) (he : SharesAlike srv s e)
    (hs : step srv hashSource s e = some s') : ∃ κ', s'.Sound srv κ' := by
  cases Step.of_step hs with
  | arrive hash => exact ⟨κ, sound_arrive h he⟩
  | clear => exact ⟨κ, h.withCache every_clear⟩
  | act hc hact => exact sound_act h he hc hact

/-! ## whole runs -/

/-- Every shared answer was produced for the same document root and the same client. -/
def State.Isolated (srv : ServerState) (s : State) : Prop :=
  ∀ d ∈ s.clients, ∀ p, d.producer? = some p →
    ∃ r, s.clients[p]? = some r ∧ Agree srv r.asked d.asked

/-- A shared answer comes from a request of the same key. -/
theorem State.Sound.isolated (h : s.Sound srv κ) : s.Isolated srv := by
  intro d hd p hp
  obtain ⟨r, hr, hkey, hshare⟩ := (h.fair d hd).answer p hp
  exact ⟨r, hr, h.agreed r (List.mem_of_getElem? hr) hshare d hd hkey.symm⟩

/-- **Run lemma.**  In every run in which requests of one key agree once a response for
it may be shared, every shared answer was produced for the same document root and the
same client. -/
theorem shared_answers_isolated (srv : ServerState) (hashSource : Bytes → UInt64)
    (config : CacheConfig) (es : List Event) (s : State)
    (hg : Guarded (step srv hashSource) (SharesAlike srv) (start config) es)
    (hrun : run (step srv hashSource) (start config) es = some s) : s.Isolated srv := by
  have hsound : ∃ κ, s.Sound srv κ :=
    invariant_of_guarded (I := fun s => ∃ κ, s.Sound srv κ)
      (fun _ _ _ ⟨_, h⟩ he hs => sound_step h he hs) ⟨fun _ => "", sound_start config⟩ hg hrun
  obtain ⟨κ, h⟩ := hsound
  exact h.isolated

/-- A request for the start page. -/
def visit (host cookie : String) : Asked :=
  ⟨"GET", "/index.php", "", [("host", utf8 host), ("cookie", utf8 cookie)], none⟩

def page : Response := ⟨200, "text/html", [], utf8 "hello"⟩

def oneMinute : CacheConfig := ⟨60, 1024, true⟩

/-- The two sites of `twoHosts`. -/
def twoTrees : FileSystem := treeOf ["/srv/a/index.php", "/srv/b/index.php"]

/-- The first request misses, is executed, and shares its response. -/
def servedAlone : List Event :=
  [.lookup 0 0, .acquire 0, .execute 0 page, .makeRoom 0 1, .insert 0 1, .publish 0, .remove 0,
    .notify 0, .leave 0]

/-- The first request is executed and its response stored, the second one asks for
it. -/
def storedThenHit (first second : Asked) : List Event :=
  .arrive twoTrees first :: (servedAlone ++ [.arrive twoTrees second, .lookup 1 2])

/-- One client that comes back gets its own page from the cache. -/
theorem shared_answers_isolated_sameClient :
    ∃ s, run (step twoHosts fun _ => 0) (start oneMinute)
        (storedThenHit (visit "a.example" "sid=1") (visit "a.example" "sid=1")) = some s ∧
      s.clients.map Client.producer? = [none, some 0] ∧ s.Isolated twoHosts :=
  ⟨_, rfl, rfl, shared_answers_isolated twoHosts (fun _ => 0) oneMinute
    (storedThenHit (visit "a.example" "sid=1") (visit "a.example" "sid=1")) _ (by decide) rfl⟩

/-- A lookup that finds an entry of the request's key, made from the same source and
not too old, answers the request with it. -/
theorem step_lookup_hit {now : Nat} {r : CachedResponse Produced}
    (hc : s.clients[c]? = some client) (hphase : client.phase = .looking)
    (henabled : s.cache.config.enabled = true) (hfind : s.cache.find client.key = some r)
    (hsource : r.sourceHash = client.sourceHash) (hfresh : r.elapsed now < r.ttl) :
    step srv hashSource s (.lookup c now) =
      some (s.put c { client with phase := .answered (.cached r) }) := by
  have hvalid : r.isValid client.sourceHash now = true := by
    simp [CachedResponse.isValid, hsource, hfresh]
  have hpeek : s.cache.peek client.asked.method client.asked.uri client.sourceHash now = .hit r := by
    have hfind' : s.cache.find (cacheKey client.asked.method client.asked.uri) = some r := hfind
    simp [ResponseCache.peek, henabled, hfind', hvalid]
  change s.clients[c]?.bind (fun client => s.act c client (.lookup c now)) = _
  rw [hc, Option.bind_some]
  simp only [State.act, if_pos hphase, hpeek]

/-- An admitted request starts with a lookup. -/
theorem step_arrive {fs : FileSystem} {asked : Asked} {app : AppStructure} {phpPath : String}
    {source : Bytes} (s : State) (hashSource : Bytes → UInt64)
    (hpassed : srv.admit fs asked.routed = .ok ⟨app, phpPath, some source⟩) :
    step srv hashSource s (.arrive fs asked) = some (s.enter asked (hashSource source)) := by
  change s.arrive srv hashSource fs asked = _
  unfold State.arrive
  rw [hpassed]
  rfl

theorem admit_first : twoHosts.admit twoTrees (visit "a.example" "sid=1").routed =
    .ok ⟨⟨"/srv/a", "index.php", false⟩, "index.php", some []⟩ := rfl

theorem admit_second : twoHosts.admit twoTrees (visit "b.example" "sid=2").routed =
    .ok ⟨⟨"/srv/b", "index.php", false⟩, "index.php", some []⟩ := rfl

/-- The entry that the first request makes, if its source has hash `h`. -/
def storedPage (h : UInt64) : CachedResponse Produced :=
  ⟨⟨page.body, 0⟩, page.contentType, 200, h, 1, 60⟩

/-- The first request when it was served. -/
def firstServed (h : UInt64) : Client :=
  ⟨visit "a.example" "sid=1", h, some 0, true, .answered (.own page)⟩

/-- The second request when it comes, and when it was served. -/
def secondClient (h : UInt64) : Client := ⟨visit "b.example" "sid=2", h, none, false, .looking⟩

def secondServed (h : UInt64) : Client :=
  { secondClient h with phase := .answered (.cached (storedPage h)) }

/-- The first request leaves its page in the cache. -/
theorem run_servedAlone (hashSource : Bytes → UInt64) (h : UInt64) :
    ∃ s, run (step twoHosts hashSource) ((start oneMinute).enter (visit "a.example" "sid=1") h)
        servedAlone = some s ∧
      s.clients = [firstServed h] ∧ s.cache = ⟨oneMinute, [((firstServed h).key, storedPage h)]⟩ :=
  ⟨_, rfl, rfl, rfl⟩

/-- The second request finds it. -/
theorem step_lookup_second {hashSource : Bytes → UInt64} {h : UInt64}
    (hclients : s.clients = [firstServed h, secondClient h])
    (hcache : s.cache = ⟨oneMinute, [((firstServed h).key, storedPage h)]⟩) :
    step twoHosts hashSource s (.lookup 1 2) = some (s.put 1 (secondServed h)) := by
  have hd : s.clients[1]? = some (secondClient h) := by
    rw [hclients]
    rfl
  have henabled : s.cache.config.enabled = true := by
    rw [hcache]
    rfl
  have hfind : s.cache.find (secondClient h).key = some (storedPage h) := by
    rw [hcache]
    rfl
  have hfresh : (storedPage h).elapsed 2 < (storedPage h).ttl := show 1 < 60 by decide
  exact step_lookup_hit hd rfl henabled hfind rfl hfresh

/-- The second request is answered with the page that was made for the first, whatever
the hash function is: the source that is hashed is the same. -/
theorem run_crossed (hashSource : Bytes → UInt64) :
    ∃ s, run (step twoHosts hashSource) (start oneMinute)
        (storedThenHit (visit "a.example" "sid=1") (visit "b.example" "sid=2")) = some s ∧
      s.clients = [firstServed (hashSource []), secondServed (hashSource [])] := by
  have hfirst := step_arrive (start oneMinute) hashSource admit_first
  obtain ⟨s, hrun, hclients, hcache⟩ := run_servedAlone hashSource (hashSource [])
  have hsecond := step_arrive s hashSource admit_second
  have hboth : (s.enter (visit "b.example" "sid=2") (hashSource [])).clients =
      [firstServed (hashSource []), secondClient (hashSource [])] := by
    rw [State.enter, hclients]
    rfl
  have hhit : step twoHosts hashSource (s.enter (visit "b.example" "sid=2") (hashSource []))
      (.lookup 1 2) = some _ := step_lookup_second hboth hcache
  refine ⟨(s.enter (visit "b.example" "sid=2") (hashSource [])).put 1 (secondServed (hashSource [])),
    ?_, ?_⟩
  · refine run_cons_eq_some.2 ⟨_, hfirst, ?_⟩
    rw [run_append, hrun, Option.bind_some]
    exact run_cons_eq_some.2 ⟨_, hsecond, run_cons_eq_some.2 ⟨_, hhit, rfl⟩⟩
  · rw [State.put, hboth]
    rfl

/-- A client of the second host is answered with the page that was made for a client of
the first. -/
theorem page_of_another_client :
    ∃ s r d, run (step twoHosts fun _ => 0) (start oneMinute)
        (storedThenHit (visit "a.example" "sid=1") (visit "b.example" "sid=2")) = some s ∧
      s.clients = [r, d] ∧ d.producer? = some 0 ∧
      (twoHosts.app r.asked.routed.host).documentRoot = "/srv/a" ∧
      (twoHosts.app d.asked.routed.host).documentRoot = "/srv/b" ∧
      r.asked.values "cookie" = [utf8 "sid=1"] ∧ d.asked.values "cookie" = [utf8 "sid=2"] := by
  obtain ⟨s, hrun, hclients⟩ := run_crossed fun _ => 0
  exact ⟨s, _, _, hrun, hclients, rfl, rfl, rfl, rfl, rfl⟩

end Turbine.Server.Sharing
