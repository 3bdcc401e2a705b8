import Turbine.Persistent.Worker

/-!
# Turbine.Persistent.Cleanup

The lightweight lifecycle with a cleanup script.  The handler and the cleanup script act
on the same output capture, and the response is collected after both.  PHP may hold back
what a script echoes, so the handler's bytes may arrive while the cleanup script runs, or
after it.

* `response_alone_iff`: when the response is the handler's.
-/

namespace Turbine.Persistent

open Base Wire Streaming Engine

/-! ## acts -/

/-- Something a script does to the response; the last is a change of PHP's own response
code. -/
inductive Act
  | header (op : Int) (text : Option Bytes)
  | write (bytes : Bytes)
  | flush
  | responseCode (code : Int)
deriving DecidableEq

/-- Who did it.  What PHP does of its own accord it does for the handler as well. -/
inductive Author
  | handler
  | cleanup
deriving DecidableEq

/-- The calls into the capture, when PHP's response code is `code` before them. -/
def sapiCalls : Int → List Act → List SapiCall
  | _, [] => []
  | code, .header op text :: acts => .header op text :: sapiCalls code acts
  | code, .write bytes :: acts => .ubWrite bytes code :: sapiCalls code acts
  | code, .flush :: acts => .flush code :: sapiCalls code acts
  | _, .responseCode code :: acts => sapiCalls code acts

/-- PHP's response code after them. -/
def codeAfter : Int → List Act → Int
  | code, [] => code
  | _, .responseCode code :: acts => codeAfter code acts
  | code, .header .. :: acts | code, .write _ :: acts | code, .flush :: acts => codeAfter code acts

theorem sapiCalls_append (code : Int) (acts acts' : List Act) :
    sapiCalls code (acts ++ acts') =
      sapiCalls code acts ++ sapiCalls (codeAfter code acts) acts' := by
  induction acts generalizing code with
  | nil => rfl
  | cons act acts ih => cases act <;> simp [sapiCalls, codeAfter, ih]

theorem codeAfter_append (code : Int) (acts acts' : List Act) :
    codeAfter code (acts ++ acts') = codeAfter (codeAfter code acts) acts' := by
  induction acts generalizing code with
  | nil => rfl
  | cons act acts ih => cases act <;> simp [codeAfter, ih]

/-! ## requests -/

/-- What happens in a request of the lightweight lifecycle: while the handler runs, while the
cleanup script runs, and while the request is shut down. -/
structure Lifecycle where
  startup : List SapiCall := []
  handler : List Act
  cleanup : List (Author × Act)
  shutdown : List (Author × Act)
  sapiCode : Int := 200
  success : Bool := true

/-- All acts, each with its author. -/
def Lifecycle.acts (l : Lifecycle) : List (Author × Act) :=
  l.handler.map (Author.handler, ·) ++ l.cleanup ++ l.shutdown

/-- The request as the worker's loop sees it. -/
def Lifecycle.execution (l : Lifecycle) : Execution :=
  let afterHandler := codeAfter l.sapiCode l.handler
  let afterCleanup := codeAfter afterHandler (l.cleanup.map Prod.snd)
  { startup := l.startup
    script := sapiCalls l.sapiCode l.handler
    cleanup := sapiCalls afterHandler (l.cleanup.map Prod.snd)
    shutdown := sapiCalls afterCleanup (l.shutdown.map Prod.snd)
    sapiCode := codeAfter afterCleanup (l.shutdown.map Prod.snd)
    success := l.success }

/-- The acts of the handler. -/
def handlersOwn (acts : List (Author × Act)) : List (Author × Act) :=
  acts.filter fun a => a.1 = .handler

/-- The handler alone. -/
def Lifecycle.alone (l : Lifecycle) : Lifecycle :=
  { l with cleanup := handlersOwn l.cleanup, shutdown := handlersOwn l.shutdown }

/-- The bytes an act brings. -/
def Act.data : Act → Bytes
  | .write bytes => bytes
  | .header .. | .flush | .responseCode _ => []

/-- The cleanup script writes nothing. -/
def Lifecycle.Mute (l : Lifecycle) : Prop := ∀ a ∈ l.acts, a.1 = .cleanup → a.2.data = []

instance {l : Lifecycle} : Decidable l.Mute :=
  inferInstanceAs (Decidable (∀ a ∈ l.acts, a.1 = .cleanup → a.2.data = []))

/-! ## what goes out -/

/-- The act makes the headers go out. -/
def Act.sends (head : Head) : Act → Bool
  | .flush => true
  | .write bytes => !bytes.isEmpty && headersRequestStreaming head.headers
  | .header .. | .responseCode _ => false

/-- The headers after an act that does not. -/
def Act.headAfter (rt : Runtime) (head : Head) : Act → Head
  | .header op text => headerHandler rt op text head
  | .write _ | .flush | .responseCode _ => head

/-- The acts before the headers go out: all of them, if they go out at the end. -/
def beforeSending (rt : Runtime) : Head → List Act → List Act
  | _, [] => []
  | head, act :: acts =>
    if act.sends head then [] else act :: beforeSending rt (act.headAfter rt head) acts

/-- The headers that go out. -/
def Lifecycle.sentHead (rt : Runtime) (l : Lifecycle) : Head :=
  (beforeSending rt {} (l.acts.map Prod.snd)).foldl (Act.headAfter rt) {}

/-- The status that goes out with them. -/
def Lifecycle.sentStatus (rt : Runtime) (l : Lifecycle) : UInt16 :=
  (l.sentHead rt).status rt (codeAfter l.sapiCode (beforeSending rt {} (l.acts.map Prod.snd)))

/-- Nobody hears of the cleanup script: it writes nothing, and what it does before the headers
go out, sending them early included, leaves them and the status as the handler has them when
its own go out. -/
def Lifecycle.Unheard (rt : Runtime) (l : Lifecycle) : Prop :=
  l.Mute ∧ (l.sentHead rt).headers = (l.alone.sentHead rt).headers ∧
    closingStatus l.success (l.sentStatus rt) = closingStatus l.success (l.alone.sentStatus rt)

instance {rt : Runtime} {l : Lifecycle} : Decidable (l.Unheard rt) :=
  inferInstanceAs (Decidable (_ ∧ _ ∧ _))

variable {rt : Runtime} {l : Lifecycle}

theorem calls_execution : l.execution.calls = sapiCalls l.sapiCode (l.acts.map Prod.snd) := by
  simp [Execution.calls, Lifecycle.execution, Lifecycle.acts, sapiCalls_append, Function.comp_def]

theorem sapiCode_execution : l.execution.sapiCode = codeAfter l.sapiCode (l.acts.map Prod.snd) := by
  simp [Lifecycle.execution, Lifecycle.acts, codeAfter_append, Function.comp_def]

theorem acts_alone : l.alone.acts = handlersOwn l.acts := by
  have hown : handlersOwn (l.handler.map (Author.handler, ·)) = l.handler.map (Author.handler, ·) :=
    List.filter_eq_self.2 (by simp)
  simp only [Lifecycle.acts, handlersOwn, List.filter_append] at hown ⊢
  rw [hown]
  rfl

theorem calls_alone :
    l.alone.execution.calls = sapiCalls l.sapiCode ((handlersOwn l.acts).map Prod.snd) := by
  rw [← acts_alone]
  exact calls_execution

variable {code : Int} {acts : List (Author × Act)}

theorem writtenBytes_sapiCalls (code : Int) (acts : List Act) :
    writtenBytes (sapiCalls code acts) = acts.flatMap Act.data := by
  induction acts generalizing code with
  | nil => rfl
  | cons act acts ih =>
    cases act <;> simp_all [sapiCalls, writtenBytes, SapiCall.data, Act.data]

/-- What the acts of the cleanup script do not add to. -/
theorem flatMap_handlersOwn {β : Type} {f : Act → List β}
    (h : ∀ a ∈ acts, a.1 = .cleanup → f a.2 = []) :
    (acts.map Prod.snd).flatMap f = ((handlersOwn acts).map Prod.snd).flatMap f := by
  induction acts with
  | nil => rfl
  | cons a acts ih =>
    obtain ⟨author, act⟩ := a
    rw [List.forall_mem_cons] at h
    have ih := ih h.2
    cases author with
    | handler => simpa [handlersOwn] using ih
    | cleanup =>
      have hact : f act = [] := h.1 rfl
      simpa [handlersOwn, hact] using ih

/-! ## headers and status -/

theorem record_sapiCalls (rt : Runtime) (head : Head) (code : Int) (acts : List Act) :
    record rt head (sapiCalls code acts) (codeAfter code acts) =
      (((beforeSending rt head acts).foldl (Act.headAfter rt) head).status rt
          (codeAfter code (beforeSending rt head acts)),
        ((beforeSending rt head acts).foldl (Act.headAfter rt) head).headers) := by
  induction acts generalizing head code with
  | nil => rfl
  | cons act acts ih =>
    cases act with
    | header op text => exact ih (headerHandler rt op text head) code
    | responseCode code => exact ih head code
    | flush => rfl
    | write bytes =>
      rw [sapiCalls, codeAfter, record, SapiCall.optsIn, beforeSending, Act.sends]
      by_cases hsends : (!bytes.isEmpty && headersRequestStreaming head.headers) = true
      · rw [if_pos hsends, if_pos hsends]
        rfl
      · rw [if_neg hsends, if_neg hsends]
        exact ih head code

theorem recorded_execution :
    l.execution.recorded rt = (l.sentStatus rt, (l.sentHead rt).headers) := by
  rw [Execution.recorded, calls_execution, sapiCode_execution]
  exact record_sapiCalls rt {} l.sapiCode (l.acts.map Prod.snd)

/-- Nothing after the headers have gone out counts for them. -/
theorem beforeSending_append {head : Head} {acts : List Act}
    (hsent : beforeSending rt head acts ≠ acts) (more : List Act) :
    beforeSending rt head (acts ++ more) = beforeSending rt head acts := by
  induction acts generalizing head with
  | nil => exact absurd rfl hsent
  | cons act acts ih =>
    rw [List.cons_append, beforeSending, beforeSending]
    rw [beforeSending] at hsent
    split at hsent
    · rw [if_pos ‹_›, if_pos ‹_›]
    · rw [if_neg ‹_›, if_neg ‹_›, ih fun h => hsent (by rw [h])]

/-- If the headers go out while the handler runs, a cleanup script that writes nothing is not
heard. -/
theorem unheard_of_sent (hsent : beforeSending rt {} l.handler ≠ l.handler) (hmute : l.Mute) :
    l.Unheard rt := by
  have hbefore : ∀ l' : Lifecycle, l'.handler = l.handler →
      beforeSending rt {} (l'.acts.map Prod.snd) = beforeSending rt {} l.handler := by
    intro l' h
    rw [← beforeSending_append hsent (l'.cleanup.map Prod.snd ++ l'.shutdown.map Prod.snd), ← h]
    simp [Lifecycle.acts, Function.comp_def]
  have hhead : l.sentHead rt = l.alone.sentHead rt := by
    rw [Lifecycle.sentHead, Lifecycle.sentHead, hbefore l rfl, hbefore l.alone rfl]
  refine ⟨hmute, congrArg Head.headers hhead, congrArg (closingStatus l.success) ?_⟩
  rw [Lifecycle.sentStatus, Lifecycle.sentStatus, hhead, hbefore l rfl, hbefore l.alone rfl]
  rfl

/-! ## the response -/

/-- The response that the calls of a request make up. -/
def Lifecycle.response (rt : Runtime) (l : Lifecycle) : PersistentResponse :=
  ⟨closingStatus l.success (l.execution.recorded rt).1, (l.execution.recorded rt).2,
    writtenBytes l.execution.calls⟩

/-- What is written comes from one of the two. -/
theorem length_flatMap_data (acts : List (Author × Act)) :
    ((acts.map Prod.snd).flatMap Act.data).length =
      (((handlersOwn acts).map Prod.snd).flatMap Act.data).length +
        ((acts.filter fun a => a.1 = .cleanup).flatMap fun a => a.2.data).length := by
  induction acts with
  | nil => rfl
  | cons a acts ih =>
    obtain ⟨author, act⟩ := a
    cases author <;> simp [handlersOwn] at ih ⊢ <;> omega

/-- **Body.**  A cleanup script that writes anything is heard. -/
theorem writtenBytes_alone_iff :
    writtenBytes l.execution.calls = writtenBytes l.alone.execution.calls ↔ l.Mute := by
  rw [calls_execution, calls_alone, writtenBytes_sapiCalls, writtenBytes_sapiCalls]
  refine ⟨fun h a ha hcleanup => ?_, flatMap_handlersOwn⟩
  have hlen := length_flatMap_data l.acts
  rw [h] at hlen
  have hnil : ((l.acts.filter fun a => a.1 = .cleanup).flatMap fun a => a.2.data) = [] :=
    List.length_eq_zero_iff.1 (by omega)
  exact List.flatMap_eq_nil_iff.1 hnil a (List.mem_filter.2 ⟨ha, decide_eq_true hcleanup⟩)

/-- The response is the handler's if and only if the cleanup script is not heard. -/
theorem response_alone_iff : l.response rt = l.alone.response rt ↔ l.Unheard rt := by
  rw [Lifecycle.response, Lifecycle.response, PersistentResponse.mk.injEq, writtenBytes_alone_iff,
    recorded_execution, recorded_execution, Lifecycle.Unheard]
  tauto

/-- **Cleanup output never reaches the client.**  For every activity of a handler and of a
cleanup script whose lengths fit the fields of the frames, the master decodes the request to
the response of the handler alone if and only if the cleanup script is not heard and there are
at most 1024 headers. -/
theorem cleanup_unheard_iff (rt : Runtime) (l : Lifecycle) (s : Output) (hidle : Idle s)
    (hcount : (l.sentHead rt).headers.length < 2 ^ 32)
    (hheaders : ∀ h ∈ (l.sentHead rt).headers, HeaderFits h)
    (hchunks : ∀ chunk ∈ bodyChunks rt {} [] l.execution.calls, chunk.length < 2 ^ 32) :
    ∃ frames, (serve rt l.execution s).pipe = s.pipe ++ frames ∧
      ((∀ rest, decodeResponse (frames ++ rest) = .ok (l.alone.response rt, rest)) ↔
        l.Unheard rt ∧ (l.sentHead rt).headers.length ≤ 1024) := by
  refine ⟨l.execution.frames rt, (serve_pipe rt _ hidle).1, ?_⟩
  by_cases hfew : (l.sentHead rt).headers.length ≤ 1024
  · have hdecode : ∀ rest,
        decodeResponse (l.execution.frames rt ++ rest) = .ok (l.response rt, rest) := by
      intro rest
      rw [Execution.frames, Lifecycle.response, recorded_execution,
        decodeResponse_frames hfew hheaders hchunks, flatten_bodyChunks]
      rfl
    simp only [hdecode, Except.ok.injEq, Prod.mk.injEq, and_true, forall_const,
      response_alone_iff, hfew]
  · rw [Execution.frames, recorded_execution, encodeResponse]
    refine ⟨fun h => ?_, fun h => absurd h.2 hfew⟩
    have hdecode := h []
    rw [List.append_assoc, List.append_assoc,
      decodeResponse_tooManyHeaders (Nat.lt_of_not_le hfew) hcount hheaders] at hdecode
    cases hdecode

/-- A handler that writes and flushes, before the cleanup script sets a header. -/
def flushedHandler : Lifecycle where
  handler := [.write [104, 105], .flush]
  cleanup := [(.cleanup, .header 0 (some (utf8 "X-Id: 7")))]
  shutdown := []

theorem cleanup_unheard_iff_flushed :
    decodeResponse (serve ⟨true, id⟩ flushedHandler.execution {}).pipe =
      .ok (⟨200, [], [104, 105]⟩, []) := by
  obtain ⟨frames, hpipe, hdecode⟩ := cleanup_unheard_iff ⟨true, id⟩ flushedHandler {} ⟨rfl, rfl⟩
    (by decide) (by decide) (by decide)
  have hunheard : flushedHandler.Unheard ⟨true, id⟩ := unheard_of_sent (by decide) (by decide)
  have hframes := hdecode.2 ⟨hunheard, by decide⟩ []
  rw [List.append_nil] at hframes
  rw [hpipe]
  exact hframes

/-- A cleanup script that writes. -/
def loudCleanup : Lifecycle where
  handler := [.write [104, 105]]
  cleanup := [(.cleanup, .write [33])]
  shutdown := []

/-- What the cleanup script writes is part of the body. -/
theorem cleanup_heard : decodeResponse (serve ⟨true, id⟩ loudCleanup.execution {}).pipe =
        .ok (⟨200, [], [104, 105, 33]⟩, []) ∧
      decodeResponse (serve ⟨true, id⟩ loudCleanup.alone.execution {}).pipe =
        .ok (⟨200, [], [104, 105]⟩, []) := ⟨by decide, by decide⟩

end Turbine.Persistent
