import Turbine.Http.Response
import Turbine.Server.Sharing

/-!
# Turbine.Server.Replay

What a request is sent that was not executed itself, compared with what was sent for
the one that was.  The run's record says which requests were executed, and with which
response.

* `State.Recorded`: what is shared was produced by an execution of the record, whose
  response does not prevent caching;
* `follower_same_iff`, `hit_same_iff`: when a follower, and a hit in the cache, get what
  the request got that was executed.
-/

namespace Turbine.Server.Sharing

open Base Cache Http

/-! ## what is sent -/

/-- The headers of a script that its own response has.  `build_response` sets the other
two itself. -/
def forwards (field : String × String) : Bool :=
  !eqIgnoreAsciiCase field.1 "Content-Type" && !eqIgnoreAsciiCase field.1 "Content-Length"

/-- The HTTP response for an answer. -/
def Answer.response (rules : HeaderRules) : Answer → HttpResponse
  | .own r => rules.buildResponse r.status r.contentType r.body (r.headers.filter forwards)
  | .cached e => rules.buildResponse e.status e.contentType e.body.bytes []
  | .coalesced v => rules.buildResponse v.status v.contentType v.body.bytes v.headers

/-! ## the record of executions -/

/-- Which request a step executes, and the response. -/
def executions (_ : State) : Event → List (Nat × Response)
  | .execute c r => [(c, r)]
  | _ => []

variable {srv : ServerState} {hashSource : Bytes → UInt64} {s s' : State}
  {client new : Client} {c : Nat} {log log' : List (Nat × Response)} {r : Response}

/-- Request `p` was executed with the response `r`, which does not prevent caching. -/
def Shared (log : List (Nat × Response)) (p : Nat) (r : Response) : Prop :=
  (p, r) ∈ log ∧ r.preventsCaching = false

/-- The published response is that of an execution. -/
def Coalesces (log : List (Nat × Response)) (v : CoalescedResponse) : Prop :=
  ∃ r, Shared log v.body.producer r ∧ v = r.coalesced v.body.producer

/-- The entry keeps the response of an execution. -/
def Keeps (log : List (Nat × Response)) (e : CachedResponse Produced) : Prop :=
  ∃ r, Shared log e.body.producer r ∧
    e.status = r.status ∧ e.contentType = r.contentType ∧ e.body.bytes = r.body

/-- What the record says about a request, by where it stands. -/
def Phase.Recorded (log : List (Nat × Response)) (c : Nat) : Phase → Prop
  | .filling r | .inserting r | .publishing r => Shared log c r
  | .answered (.own r) => (c, r) ∈ log
  | .answered (.cached e) => Keeps log e
  | .answered (.coalesced v) => Coalesces log v
  | .gone => True
  | .looking | .stale | .missed | .following | .executing => ∀ r, (c, r) ∉ log

/-- What is shared was produced by an execution, and no request is executed twice. -/
structure State.Recorded (s : State) (log : List (Nat × Response)) : Prop where
  coalesced : ∃ κ, s.coalescer.Keyed κ fun _ v => Coalesces log v
  cached : s.cache.Every fun _ e => Keeps log e
  phases : ∀ (c : Nat) (client : Client), s.clients[c]? = some client →
    client.phase.Recorded log c
  known : ∀ x ∈ log, x.1 < s.clients.length
  once : (log.map Prod.fst).Nodup

theorem recorded_start (config : CacheConfig) : (start config).Recorded [] where
  coalesced := ⟨fun _ => "", keyed_initial⟩
  cached := fun _ he => absurd he List.not_mem_nil
  phases := fun c client hc => by simp [start] at hc
  known := fun _ hx => absurd hx List.not_mem_nil
  once := List.nodup_nil

/-! ## steps that execute nothing -/

theorem put_getElem? {d : Nat} {e : Client} (hd : (s.put c new).clients[d]? = some e) :
    (d = c ∧ e = new) ∨ (d ≠ c ∧ s.clients[d]? = some e) := by
  by_cases hdc : d = c
  · subst hdc
    have hmem : d < s.clients.length := by
      obtain ⟨hlt, -⟩ := List.getElem?_eq_some_iff.1 hd
      rwa [State.put, List.length_set] at hlt
    rw [State.put, List.getElem?_set_self hmem] at hd
    exact .inl ⟨rfl, (Option.some.inj hd).symm⟩
  · rw [State.put, List.getElem?_set_ne (Ne.symm hdc)] at hd
    exact .inr ⟨hdc, hd⟩

theorem State.Recorded.put (h : s.Recorded log) (hphase : new.phase.Recorded log c) :
    (s.put c new).Recorded log where
  coalesced := h.coalesced
  cached := h.cached
  phases := by
    intro d e hd
    rcases put_getElem? hd with ⟨rfl, rfl⟩ | ⟨-, hd⟩
    · exact hphase
    · exact h.phases d e hd
  known := by
    intro x hx
    rw [State.put, List.length_set]
    exact h.known x hx
  once := h.once

theorem State.Recorded.withCache {cache : ResponseCache Produced} (h : s.Recorded log)
    (hcache : cache.Every fun _ e => Keeps log e) : (s.withCache cache).Recorded log :=
  ⟨h.coalesced, hcache, h.phases, h.known, h.once⟩

/-- A new request was not executed yet. -/
theorem State.Recorded.enter (h : s.Recorded log) (asked : Asked) (hash : UInt64) :
    (s.enter asked hash).Recorded log where
  coalesced := h.coalesced
  cached := h.cached
  phases := by
    intro d e hd
    rw [State.enter, List.getElem?_append] at hd
    split at hd
    · exact h.phases d e hd
    case isFalse hlt =>
      obtain rfl := List.mem_singleton.1 (List.mem_of_getElem? hd)
      intro r hr
      exact hlt (h.known _ hr)
  known := by
    intro x hx
    rw [State.enter, List.length_append]
    exact Nat.lt_add_right _ (h.known x hx)
  once := h.once

theorem State.Recorded.withCoalescer {e : Cache.Event CoalescedResponse}
    {coalescer : Cache.State CoalescedResponse} (h : s.Recorded log)
    (hs : Cache.step s.coalescer e = some coalescer)
    (he : PublishesFor (fun _ v => Coalesces log v) s.coalescer e) :
    (s.withCoalescer coalescer).Recorded log := by
  obtain ⟨κ, hkeyed⟩ := h.coalesced
  obtain ⟨κ', -, hkeyed'⟩ := keyed_step hkeyed (Cache.Step.of_step hs) he
  exact ⟨⟨κ', hkeyed'⟩, h.cached, h.phases, h.known, h.once⟩

/-- A step of a request at the coalescer. -/
theorem State.Recorded.coalesce {e : Nat → Cache.Event CoalescedResponse} (h : s.Recorded log)
    (hs : s.coalesce client e = some s')
    (he : ∀ t, PublishesFor (fun _ v => Coalesces log v) s.coalescer (e t)) : s'.Recorded log := by
  obtain ⟨t, coalescer, -, hstep, rfl⟩ := coalesce_eq_some hs
  exact h.withCoalescer hstep (he t)

theorem State.Recorded.drop (client : Client) (h : s.Recorded log) :
    ((s.coalesce client .drop).getD s).Recorded log := by
  cases hs : s.coalesce client .drop with
  | none => exact h
  | some s₁ => exact h.coalesce hs fun _ => trivial

/-- What a follower receives is the response of an execution. -/
theorem coalesces_of_received {t i : Nat} {v : CoalescedResponse} (h : s.Recorded log)
    (hτ : s.coalescer.tasks[t]? = some (.received i (some v))) : Coalesces log v := by
  obtain ⟨κ, hkeyed⟩ := h.coalesced
  exact (hkeyed.held (List.mem_of_getElem? hτ)).1 v rfl

/-! ## the step that executes -/

theorem Shared.mono (h : Shared log c r) : Shared (log ++ log') c r :=
  ⟨List.mem_append_left _ h.1, h.2⟩

theorem Coalesces.mono {v : CoalescedResponse} (h : Coalesces log v) :
    Coalesces (log ++ log') v := by
  obtain ⟨r, hr, hv⟩ := h
  exact ⟨r, hr.mono, hv⟩

theorem Keeps.mono {e : CachedResponse Produced} (h : Keeps log e) : Keeps (log ++ log') e := by
  obtain ⟨r, hr, he⟩ := h
  exact ⟨r, hr.mono, he⟩

theorem Phase.Recorded.extend {phase : Phase} {d : Nat} (h : phase.Recorded log d) (hne : d ≠ c) :
    phase.Recorded (log ++ [(c, r)]) d := by
  have hfresh : (∀ r', (d, r') ∉ log) → ∀ r', (d, r') ∉ log ++ [(c, r)] := by
    intro hlog r' hr'
    rcases List.mem_append.1 hr' with hr' | hr'
    · exact hlog r' hr'
    · exact hne (Prod.mk.inj (List.mem_singleton.1 hr')).1
  cases phase with
  | looking | stale | missed | following | executing => exact hfresh h
  | filling r' | inserting r' | publishing r' => exact Shared.mono h
  | answered a =>
    cases a with
    | own r' => exact List.mem_append_left _ h
    | cached e => exact Keeps.mono h
    | coalesced v => exact Coalesces.mono h
  | gone => trivial

theorem executed_recorded (hr : (c, r) ∈ log) : (s.executed client r).phase.Recorded log c := by
  unfold State.executed
  split
  · exact hr
  case isFalse hcacheable =>
    have hshared : Shared log c r := ⟨hr, Bool.eq_false_iff.2 hcacheable⟩
    split
    · exact hshared
    · exact hshared

theorem recorded_execute (h : s.Recorded log) (hc : s.clients[c]? = some client)
    (hphase : client.phase = .executing) :
    (s.put c (s.executed client r)).Recorded (log ++ [(c, r)]) := by
  obtain ⟨hlt, -⟩ := List.getElem?_eq_some_iff.1 hc
  have hfresh : ∀ r', (c, r') ∉ log := by
    have hrecorded := h.phases c client hc
    rw [hphase] at hrecorded
    exact hrecorded
  refine ⟨?_, h.cached.mono fun _ _ he => he.mono, ?_, ?_, ?_⟩
  · obtain ⟨κ, hkeyed⟩ := h.coalesced
    exact ⟨κ, hkeyed.mono fun _ _ hv => hv.mono⟩
  · intro d e hd
    rcases put_getElem? hd with ⟨rfl, rfl⟩ | ⟨hdc, hd⟩
    · exact executed_recorded (List.mem_append_right _ (List.mem_singleton_self _))
    · exact (h.phases d e hd).extend hdc
  · intro x hx
    rw [State.put, List.length_set]
    rcases List.mem_append.1 hx with hx | hx
    · exact h.known x hx
    · rw [List.mem_singleton.1 hx]
      exact hlt
  · rw [List.map_append, List.nodup_append]
    refine ⟨h.once, by simp, ?_⟩
    intro d hd p hp hdp
    obtain ⟨⟨d', r'⟩, hlog, rfl⟩ := List.mem_map.1 hd
    obtain rfl : p = c := by simpa using hp
    subst hdp
    exact hfresh r' hlog

/-! ## all steps -/

theorem recorded_of_quiet {e : Event} (hquiet : executions s e = []) (h : s'.Recorded log) :
    s'.Recorded (log ++ executions s e) := by
  rw [hquiet, List.append_nil]
  exact h

theorem recorded_act {e : Event} (h : s.Recorded log) (hc : s.clients[c]? = some client)
    (hact : Acts s c client e s') : s'.Recorded (log ++ executions s e) := by
  have hrecorded := h.phases c client hc
  cases hact
  case execute r hphase => exact recorded_execute h hc hphase
  all_goals refine recorded_of_quiet rfl ?_
  case hit now e hphase hpeek =>
    have hkeeps : Keeps log e := h.cached.peek hpeek
    exact h.put hkeeps
  case stale now hphase =>
    rw [hphase] at hrecorded
    exact h.put hrecorded
  case miss now hphase =>
    rw [hphase] at hrecorded
    exact h.put hrecorded
  case forget hphase =>
    rw [hphase] at hrecorded
    exact (h.withCache h.cached.remove).put hrecorded
  case acquire phase hphase hnext =>
    rw [hphase] at hrecorded
    have h' : (s.withCoalescer (Cache.acquire s.coalescer client.key)).Recorded log :=
      h.withCoalescer (e := .acquire client.key) rfl trivial
    rcases hnext with rfl | rfl
    · exact h'.put hrecorded
    · exact h'.put hrecorded
  case alone hphase =>
    rw [hphase] at hrecorded
    exact h.put hrecorded
  case wait hphase hs => exact h.coalesce hs fun _ => trivial
  case receive s₁ t i v hphase hs ht hτ =>
    have h' := h.coalesce hs fun _ => trivial
    have hcoalesces : Coalesces log v := coalesces_of_received h' hτ
    exact h'.put hcoalesces
  case takeOver s₁ hphase hs =>
    have h' := h.coalesce hs fun _ => trivial
    rw [hphase] at hrecorded
    exact h'.put hrecorded
  case makeRoom r now hphase =>
    rw [hphase] at hrecorded
    exact (h.withCache h.cached.makeRoom).put hrecorded
  case insert r now hphase =>
    rw [hphase] at hrecorded
    have hkeeps : Keeps log
        (s.cache.entryFor client.sourceHash r.status r.contentType ⟨r.body, c⟩ now) :=
      ⟨r, hrecorded, rfl, rfl, rfl⟩
    exact (h.withCache (h.cached.insert hkeeps)).put hrecorded
  case publish s₁ r hphase hs =>
    rw [hphase] at hrecorded
    have h' := h.coalesce hs fun t g hg => ⟨r, hrecorded, rfl⟩
    exact h'.put hrecorded.1
  case answer r hphase =>
    rw [hphase] at hrecorded
    exact h.put hrecorded.1
  case remove hs => exact h.coalesce hs fun _ => trivial
  case notify hs => exact h.coalesce hs fun _ => trivial
  case leave a hphase => exact h.drop client
  case cancel => exact (h.drop client).put trivial

/-- **Step lemma.**  A step is in accord with the record, and with what it adds to it. -/
theorem recorded_step {e : Event} (h : s.Recorded log)
    (hs : step srv hashSource s e = some s') : s'.Recorded (log ++ executions s e) := by
  cases Step.of_step hs with
  | arrive hash => exact recorded_of_quiet rfl (h.enter _ hash)
  | clear => exact recorded_of_quiet rfl (h.withCache every_clear)
  | act hc hact => exact recorded_act h hc hact

/-- **Run lemma.**  A run is in accord with its record. -/
theorem recorded_run {config : CacheConfig} {es : List Event}
    (hrun : run (step srv hashSource) (start config) es = some s) :
    s.Recorded (trace (step srv hashSource) executions (start config) es) :=
  invariant_of_trace (fun _ _ _ _ h hs => recorded_step h hs) (recorded_start config) hrun

/-! ## followers and hits -/

/-- Request `p` was executed once, with the response `r`, and if it was answered then
with that one. -/
def State.RanOnce (s : State) (log : List (Nat × Response)) (p : Nat) (r : Response) : Prop :=
  (∀ r', (p, r') ∈ log ↔ r' = r) ∧
    ∀ leader, s.clients[p]? = some leader → ∀ r', leader.phase = .answered (.own r') → r' = r

theorem State.Recorded.of_mem (h : s.Recorded log) (hclient : client ∈ s.clients) :
    ∃ c, client.phase.Recorded log c := by
  obtain ⟨c, hc⟩ := List.getElem?_of_mem hclient
  exact ⟨c, h.phases c client hc⟩

/-- The record has one response of a request. -/
theorem State.Recorded.ranOnce {p : Nat} (h : s.Recorded log) (hr : (p, r) ∈ log) :
    s.RanOnce log p r := by
  have hone : ∀ r', (p, r') ∈ log → r' = r := by
    intro r' hr'
    have heq : (p, r') = (p, r) := List.inj_on_of_nodup_map h.once hr' hr rfl
    exact (Prod.mk.inj heq).2
  refine ⟨fun r' => ⟨hone r', fun hr' => hr' ▸ hr⟩, fun leader hleader r' hown => hone r' ?_⟩
  have hrecorded := h.phases p leader hleader
  rwa [hown] at hrecorded

/-- A follower is sent what the leader is sent exactly if the leader's script sets no
legal `Content-Type` or `Content-Length` itself, or if the leader is sent an error. -/
theorem follower_same_iff (rules : HeaderRules) (srv : ServerState)
    (hashSource : Bytes → UInt64) (config : CacheConfig) (es : List Event) (s : State)
    (hrun : run (step srv hashSource) (start config) es = some s) (d : Client)
    (hd : d ∈ s.clients) (v : CoalescedResponse) (hanswer : d.phase = .answered (.coalesced v)) :
    ∃ r, s.RanOnce (trace (step srv hashSource) executions (start config) es) v.body.producer r ∧
      (((Answer.coalesced v).response rules).Same ((Answer.own r).response rules) ↔
        rules.build r.contentType r.body (r.headers.filter forwards) = none ∨
          ∀ field ∈ r.headers, rules.accepts field = true → forwards field = true) := by
  have h := recorded_run hrun
  obtain ⟨c, hrecorded⟩ := h.of_mem hd
  rw [hanswer] at hrecorded
  obtain ⟨r, ⟨hr, -⟩, hv⟩ := hrecorded
  refine ⟨r, h.ranOnce hr, ?_⟩
  rw [hv]
  exact same_filter_iff forwards

/-- A response that the cache takes is about to be stored. -/
theorem step_execute_stored (hc : s.clients[c]? = some client) (hphase : client.phase = .executing)
    (hcacheable : r.preventsCaching = false)
    (hstored : s.cache.stores client.asked.method r.status = true) :
    step srv hashSource s (.execute c r) =
      some (s.put c { client with shareable := true, phase := .filling r }) := by
  have hexecuted : s.executed client r = { client with shareable := true, phase := .filling r } := by
    simp [State.executed, hcacheable, hstored]
  change s.clients[c]?.bind (fun client => s.act c client (.execute c r)) = _
  rw [hc, Option.bind_some]
  simp only [State.act, if_pos hphase, hexecuted]

/-- A request for the start page that is being executed, and one that was. -/
def leader : Client := ⟨visit "a.example" "sid=1", 0, some 0, false, .executing⟩

def leaderServed (r : Response) : Client :=
  { leader with shareable := true, phase := .answered (.own r) }

/-- The leader stores its response, and shares it. -/
def sharing : List Event := [.makeRoom 0 1, .insert 0 1, .publish 0, .remove 0, .notify 0]

/-- A second request comes while the first is being executed. -/
def joined : List Event :=
  [.arrive twoTrees (visit "a.example" "sid=1"), .lookup 0 0, .acquire 0,
    .arrive twoTrees (visit "a.example" "sid=1"), .lookup 1 0, .acquire 1, .wait 1]

def followed (r : Response) : List Event :=
  joined ++ Event.execute 0 r :: (sharing ++ [Event.resume 1])

/-- The second request when it was served. -/
def followerServed (r : Response) : Client :=
  ⟨visit "a.example" "sid=1", 0, some 1, false, .answered (.coalesced (r.coalesced 0))⟩

/-- Whatever the check lets through is shared with the follower. -/
theorem run_followed (hcacheable : r.preventsCaching = false) (hstatus : r.status = 200) :
    ∃ s, run (step twoHosts fun _ => 0) (start oneMinute) (followed r) = some s ∧
      s.clients = [leaderServed r, followerServed r] := by
  obtain ⟨s, hjoined, hleader, hstores, hrest⟩ :
      ∃ s, run (step twoHosts fun _ => 0) (start oneMinute) joined = some s ∧
        s.clients[0]? = some leader ∧ s.cache.stores leader.asked.method 200 = true ∧
        ∃ s', run (step twoHosts fun _ => 0)
            (s.put 0 { leader with shareable := true, phase := .filling r })
            (sharing ++ [Event.resume 1]) = some s' ∧
          s'.clients = [leaderServed r, followerServed r] :=
    ⟨_, rfl, rfl, rfl, _, rfl, rfl⟩
  obtain ⟨s', hrun, hclients⟩ := hrest
  refine ⟨s', ?_, hclients⟩
  rw [followed, run_append, hjoined, Option.bind_some]
  rw [← hstatus] at hstores
  exact run_cons_eq_some.2 ⟨_, step_execute_stored hleader rfl hcacheable hstores, hrun⟩

/-- A page without headers is the same for both. -/
theorem follower_same_iff_page :
    ∃ s, run (step twoHosts fun _ => 0) (start oneMinute) (followed page) = some s ∧
      s.clients = [leaderServed page, followerServed page] ∧
      ∃ r, s.RanOnce (trace (step twoHosts fun _ => 0) executions (start oneMinute)
          (followed page)) 0 r ∧
        (((Answer.coalesced (page.coalesced 0)).response httpRules).Same
            ((Answer.own r).response httpRules) ↔
          httpRules.build r.contentType r.body (r.headers.filter forwards) = none ∨
            ∀ field ∈ r.headers, httpRules.accepts field = true → forwards field = true) := by
  obtain ⟨s, hrun, hclients⟩ := run_followed (r := page) rfl rfl
  have hmem : followerServed page ∈ s.clients := by simp [hclients]
  exact ⟨s, hrun, hclients, follower_same_iff httpRules twoHosts (fun _ => 0) oneMinute
    (followed page) s hrun (followerServed page) hmem (page.coalesced 0) rfl⟩

/-- A page for which the script names the type, as PHP does by default. -/
def typedPage : Response := { page with headers := [("Content-Type", "text/html")] }

/-- The follower's response has two content types, the leader's has one. -/
theorem follower_content_type_twice :
    ∃ s, run (step twoHosts fun _ => 0) (start oneMinute) (followed typedPage) = some s ∧
      s.clients = [leaderServed typedPage, followerServed typedPage] ∧
      ((Answer.own typedPage).response httpRules).headers.count ("content-type", "text/html") = 1 ∧
      ((Answer.coalesced (typedPage.coalesced 0)).response httpRules).headers.count
        ("content-type", "text/html") = 2 ∧
      ¬ ((Answer.coalesced (typedPage.coalesced 0)).response httpRules).Same
        ((Answer.own typedPage).response httpRules) := by
  have hown : ((Answer.own typedPage).response httpRules).headers.count
      ("content-type", "text/html") = 1 := by
    rw [Answer.response, buildResponse_of_few (by decide) (by decide) (by decide)]
    decide
  have hshared : ((Answer.coalesced (typedPage.coalesced 0)).response httpRules).headers.count
      ("content-type", "text/html") = 2 := by
    rw [Answer.response, buildResponse_of_few (by decide) (by decide) (by decide)]
    decide
  obtain ⟨s, hrun, hclients⟩ := run_followed (r := typedPage) (by decide) rfl
  refine ⟨s, hrun, hclients, hown, hshared, ?_⟩
  rintro ⟨-, -, hperm⟩
  have hcount := hperm.count_eq ("content-type", "text/html")
  rw [hown, hshared] at hcount
  cases hcount

/-- A hit is sent what the request is sent that filled the entry, as far as the other
end is concerned, exactly if the legal headers of its script are for the next hop only,
or if both are sent an error. -/
theorem hit_same_iff (rules : HeaderRules) (srv : ServerState)
    (hashSource : Bytes → UInt64) (config : CacheConfig) (es : List Event) (s : State)
    (hrun : run (step srv hashSource) (start config) es = some s) (d : Client)
    (hd : d ∈ s.clients) (e : CachedResponse Produced) (hanswer : d.phase = .answered (.cached e)) :
    ∃ r, s.RanOnce (trace (step srv hashSource) executions (start config) es) e.body.producer r ∧
      (((Answer.cached e).response rules).SameEndToEnd ((Answer.own r).response rules) ↔
        rules.standard r.contentType r.body = none ∨
          (rules.build r.contentType r.body (r.headers.filter forwards) ≠ none ∧
            ∀ field ∈ r.headers.filter forwards, rules.accepts field = true →
              isEndToEnd (lowered field) = false)) := by
  have h := recorded_run hrun
  obtain ⟨c, hrecorded⟩ := h.of_mem hd
  rw [hanswer] at hrecorded
  obtain ⟨r, ⟨hr, -⟩, hstatus, htype, hbody⟩ := hrecorded
  refine ⟨r, h.ranOnce hr, ?_⟩
  simp only [Answer.response, hstatus, htype, hbody]
  exact sameEndToEnd_bare_iff

/-- A second request comes after the first was served. -/
def replayed (r : Response) : List Event :=
  [Event.arrive twoTrees (visit "a.example" "sid=1"), .lookup 0 0, .acquire 0] ++
    Event.execute 0 r :: (sharing ++ [Event.arrive twoTrees (visit "a.example" "sid=1"), .lookup 1 2])

/-- The entry that the first request makes. -/
def keptEntry (r : Response) : CachedResponse Produced :=
  ⟨⟨r.body, 0⟩, r.contentType, r.status, 0, 1, 60⟩

/-- The second request when it was served. -/
def hitServed (r : Response) : Client :=
  ⟨visit "a.example" "sid=1", 0, none, false, .answered (.cached (keptEntry r))⟩

/-- Whatever the check lets through is answered from the cache. -/
theorem run_replayed (hcacheable : r.preventsCaching = false) (hstatus : r.status = 200) :
    ∃ s, run (step twoHosts fun _ => 0) (start oneMinute) (replayed r) = some s ∧
      s.clients = [leaderServed r, hitServed r] := by
  obtain ⟨s, hbefore, hleader, hstores, hrest⟩ :
      ∃ s, run (step twoHosts fun _ => 0) (start oneMinute)
          [.arrive twoTrees (visit "a.example" "sid=1"), .lookup 0 0, .acquire 0] = some s ∧
        s.clients[0]? = some leader ∧ s.cache.stores leader.asked.method 200 = true ∧
        ∃ s', run (step twoHosts fun _ => 0)
            (s.put 0 { leader with shareable := true, phase := .filling r })
            (sharing ++ [Event.arrive twoTrees (visit "a.example" "sid=1"), .lookup 1 2]) = some s' ∧
          s'.clients = [leaderServed r, hitServed r] :=
    ⟨_, rfl, rfl, rfl, _, rfl, rfl⟩
  obtain ⟨s', hrun, hclients⟩ := hrest
  refine ⟨s', ?_, hclients⟩
  rw [replayed, run_append, hbefore, Option.bind_some]
  rw [← hstatus] at hstores
  exact run_cons_eq_some.2 ⟨_, step_execute_stored hleader rfl hcacheable hstores, hrun⟩

/-- A page without headers is the same from the cache. -/
theorem hit_same_iff_page :
    ∃ s, run (step twoHosts fun _ => 0) (start oneMinute) (replayed page) = some s ∧
      s.clients = [leaderServed page, hitServed page] ∧
      ∃ r, s.RanOnce (trace (step twoHosts fun _ => 0) executions (start oneMinute)
          (replayed page)) 0 r ∧
        (((Answer.cached (keptEntry page)).response httpRules).SameEndToEnd
            ((Answer.own r).response httpRules) ↔
          httpRules.standard r.contentType r.body = none ∨
            (httpRules.build r.contentType r.body (r.headers.filter forwards) ≠ none ∧
              ∀ field ∈ r.headers.filter forwards, httpRules.accepts field = true →
                isEndToEnd (lowered field) = false)) := by
  obtain ⟨s, hrun, hclients⟩ := run_replayed (r := page) rfl rfl
  have hmem : hitServed page ∈ s.clients := by simp [hclients]
  exact ⟨s, hrun, hclients, hit_same_iff httpRules twoHosts (fun _ => 0) oneMinute
    (replayed page) s hrun (hitServed page) hmem (keptEntry page) rfl⟩

/-- A page that the script has compressed. -/
def gzippedPage : Response :=
  { page with headers := [("Content-Encoding", "gzip")], body := [0x1F, 0x8B, 8] }

/-- The compressed body is sent from the cache without its encoding. -/
theorem hit_loses_encoding :
    ∃ s, run (step twoHosts fun _ => 0) (start oneMinute) (replayed gzippedPage) = some s ∧
      s.clients = [leaderServed gzippedPage, hitServed gzippedPage] ∧
      ((Answer.cached (keptEntry gzippedPage)).response httpRules).body = gzippedPage.body ∧
      ("content-encoding", "gzip") ∈ ((Answer.own gzippedPage).response httpRules).endToEnd ∧
      ("content-encoding", "gzip") ∉
        ((Answer.cached (keptEntry gzippedPage)).response httpRules).endToEnd ∧
      ¬ ((Answer.cached (keptEntry gzippedPage)).response httpRules).SameEndToEnd
        ((Answer.own gzippedPage).response httpRules) := by
  have hown : ("content-encoding", "gzip") ∈
      ((Answer.own gzippedPage).response httpRules).endToEnd := by
    rw [Answer.response, buildResponse_of_few (by decide) (by decide) (by decide)]
    decide
  have hhit : ("content-encoding", "gzip") ∉
      ((Answer.cached (keptEntry gzippedPage)).response httpRules).endToEnd := by
    rw [Answer.response, buildResponse_of_few (by decide) (List.forall_mem_nil _) (by decide)]
    decide
  have hbody : ((Answer.cached (keptEntry gzippedPage)).response httpRules).body =
      gzippedPage.body := by
    rw [Answer.response, buildResponse_of_few (by decide) (List.forall_mem_nil _) (by decide)]
    rfl
  obtain ⟨s, hrun, hclients⟩ := run_replayed (r := gzippedPage) (by decide) rfl
  refine ⟨s, hrun, hclients, hbody, hown, hhit, ?_⟩
  rintro ⟨-, -, hperm⟩
  exact hhit (hperm.mem_iff.2 hown)

/-! ## directives that forbid sharing -/

/-- The elements of a list that is separated by commas.  `quoted` says that the text is
inside a quoted string, where a comma separates nothing. -/
def listElements : (quoted : Bool) → List Char → List (List Char)
  | _, [] => [[]]
  | quoted, '"' :: cs => (listElements (!quoted) cs).modifyHead ('"' :: ·)
  | true, '\\' :: c :: cs => (listElements true cs).modifyHead ('\\' :: c :: ·)
  | quoted, c :: cs =>
    if c = ',' ∧ quoted = false then [] :: listElements quoted cs
    else (listElements quoted cs).modifyHead (c :: ·)

/-- The optional white space around an element. -/
def isOws (c : Char) : Bool := c = ' ' || c = '\t'

/-- The names of the directives in a value of `Cache-Control`: what stands before an
equals sign, without the white space around it. -/
def directives (value : String) : List String :=
  (listElements false value.toList).map fun element =>
    String.ofList
      (((element.takeWhile (· ≠ '=')).dropWhile isOws).reverse.dropWhile isOws).reverse

/-- The directives that forbid a shared cache to store a response or to use it again. -/
def forbidding : List String := ["no-store", "no-cache", "private"]

/-- A `Cache-Control` field of the response has one of the directives, whatever the case
of its letters. -/
def Response.forbidsSharing (r : Response) : Bool :=
  r.headers.any fun h =>
    eqIgnoreAsciiCase h.1 "Cache-Control" &&
      (directives h.2).any fun d => forbidding.any (eqIgnoreAsciiCase d ·)

/-- Where a response has one of the directives, one of them stands in lower case in a
value of `Cache-Control`, which is what the check looks for. -/
def SpellsLower (_ : State) : Event → Prop
  | .execute _ r => r.forbidsSharing = true → r.preventsCaching = true
  | _ => True

instance (s : State) (e : Event) : Decidable (SpellsLower s e) :=
  match e with
  | .execute _ r =>
    inferInstanceAs (Decidable (r.forbidsSharing = true → r.preventsCaching = true))
  | .arrive _ _ | .clear | .lookup _ _ | .forget _ | .acquire _ | .wait _ | .resume _
  | .makeRoom _ _ | .insert _ _ | .publish _ | .remove _ | .notify _ | .leave _ => .isTrue trivial

/-- What is recorded meets the condition. -/
theorem spellsLower_recorded {e : Event}
    (h : ∀ x ∈ log, x.2.forbidsSharing = true → x.2.preventsCaching = true)
    (he : SpellsLower s e) : ∀ x ∈ log ++ executions s e,
      x.2.forbidsSharing = true → x.2.preventsCaching = true := by
  intro x hx
  rcases List.mem_append.1 hx with hx | hx
  · exact h x hx
  · cases e with
    | execute c r =>
      rw [List.mem_singleton.1 hx]
      exact he
    | _ => cases hx

theorem State.Recorded.shared {p : Nat} (h : s.Recorded log) (hclient : client ∈ s.clients)
    (hp : client.producer? = some p) : ∃ r, Shared log p r := by
  obtain ⟨c, hrecorded⟩ := h.of_mem hclient
  unfold Client.producer? at hp
  split at hp
  case h_1 a hphase =>
    rw [hphase] at hrecorded
    cases a with
    | own r => cases hp
    | cached e =>
      obtain ⟨r, hr, -⟩ := hrecorded
      obtain rfl := Option.some.inj hp
      exact ⟨r, hr⟩
    | coalesced v =>
      obtain ⟨r, hr, -⟩ := hrecorded
      obtain rfl := Option.some.inj hp
      exact ⟨r, hr⟩
  · cases hp

/-- In every run in which the directives that forbid sharing are spelled in lower case,
nobody is answered from the cache or by the coalescer with a response that has one. -/
theorem forbidding_never_shared (srv : ServerState) (hashSource : Bytes → UInt64)
    (config : CacheConfig) (es : List Event) (s : State)
    (hg : Guarded (step srv hashSource) SpellsLower (start config) es)
    (hrun : run (step srv hashSource) (start config) es = some s) :
    ∀ d ∈ s.clients, ∀ p, d.producer? = some p →
      ∃ r, s.RanOnce (trace (step srv hashSource) executions (start config) es) p r ∧
        r.forbidsSharing = false := by
  have h : s.Recorded (trace (step srv hashSource) executions (start config) es) ∧
      ∀ x ∈ trace (step srv hashSource) executions (start config) es,
        x.2.forbidsSharing = true → x.2.preventsCaching = true :=
    invariant_of_guarded_trace
      (I := fun s log => s.Recorded log ∧
        ∀ x ∈ log, x.2.forbidsSharing = true → x.2.preventsCaching = true)
      (fun _ _ _ _ h he hs => ⟨recorded_step h.1 hs, spellsLower_recorded h.2 he⟩)
      ⟨recorded_start config, nofun⟩ hg hrun
  intro d hd p hp
  obtain ⟨r, hr, hcacheable⟩ := h.1.shared hd hp
  refine ⟨r, h.1.ranOnce hr, ?_⟩
  rw [← Bool.not_eq_true]
  intro hforbids
  rw [h.2 _ hr hforbids] at hcacheable
  cases hcacheable

/-- A page without directives may be answered from the cache. -/
theorem forbidding_never_shared_page :
    ∃ s, run (step twoHosts fun _ => 0) (start oneMinute) (replayed page) = some s ∧
      ∀ d ∈ s.clients, ∀ p, d.producer? = some p →
        ∃ r, s.RanOnce (trace (step twoHosts fun _ => 0) executions (start oneMinute)
          (replayed page)) p r ∧ r.forbidsSharing = false := by
  obtain ⟨s, hrun, -⟩ := run_replayed (r := page) rfl rfl
  exact ⟨s, hrun, forbidding_never_shared twoHosts (fun _ => 0) oneMinute (replayed page) s
    (by decide) hrun⟩

/-- A page for one user. -/
def privatePage : Response := { page with headers := [("Cache-Control", "Private")] }

/-- A private page is answered from the cache, and by the coalescer. -/
theorem private_page_shared :
    privatePage.forbidsSharing = true ∧
      (∃ s, run (step twoHosts fun _ => 0) (start oneMinute) (replayed privatePage) = some s ∧
        s.clients = [leaderServed privatePage, hitServed privatePage] ∧
        (hitServed privatePage).producer? = some 0) ∧
      ∃ s, run (step twoHosts fun _ => 0) (start oneMinute) (followed privatePage) = some s ∧
        s.clients = [leaderServed privatePage, followerServed privatePage] ∧
        (followerServed privatePage).producer? = some 0 := by
  have hcacheable : privatePage.preventsCaching = false := by decide
  obtain ⟨s, hrun, hclients⟩ := run_replayed hcacheable rfl
  obtain ⟨s', hrun', hclients'⟩ := run_followed hcacheable rfl
  exact ⟨by decide, ⟨s, hrun, hclients, rfl⟩, ⟨s', hrun', hclients', rfl⟩⟩

end Turbine.Server.Sharing
