import Turbine.Native.Request
import Turbine.Native.Response

/-!
# Turbine.Native.Worker

A native worker and the master that talks to it, over the bytes of their two
pipes.  The worker writes a ready frame, in the format of a response, before
its first command; whether anybody reads it depends on how the worker was
created (`Creation.readsReady`).

The bytes in the response pipe are kept with the request they answer, so that
"the response read is the one produced for the request" is a statement about
which bytes were read, not only about their value.

* `converse_clean_iff`: when a whole conversation goes right.
-/

namespace Turbine.Native

open Base

/-! ## the worker -/

/-- What PHP makes of a request: the script's result, and the output, headers
and status collected after the request's shutdown. -/
structure Execution where
  succeeded : Bool
  status : UInt16
  headers : List (String × String)
  body : Bytes

/-- One call of `write_native_response`. -/
structure Answer where
  status : WorkerResp
  httpStatus : UInt16
  headers : List (String × String)
  body : Bytes

/-- The bytes that the call writes. -/
def Answer.frame (a : Answer) : Bytes := writeNativeResponse a.status a.httpStatus a.headers a.body

/-- The response that the worker means by it. -/
def Answer.response (a : Answer) : NativeResponse :=
  ⟨a.status.success, a.httpStatus, a.headers, a.body⟩

def Answer.Fits (a : Answer) : Prop := ResponseFits a.headers a.body

/-- The ready signal. -/
def readyAnswer : Answer := ⟨.ready, 200, [], []⟩

/-- The worker's answer to the payload of an `ExecuteNative` command. -/
def answerTo (php : NativeRequest → Execution) (payload : Bytes) : Answer :=
  match NativeRequest.decode payload with
  | none => ⟨.error, 500, [], utf8 "Failed to decode native request"⟩
  | some req =>
    let result := php req
    ⟨if result.succeeded then .ok else .error, result.status, result.headers, result.body⟩

/-- What one pass of the event loop ends in: the loop is left, or an answer is
written and the command pipe has the given bytes left. -/
inductive Pass
  | exit
  | answer (a : Answer) (rest : Bytes)

/-- One pass of the loop of `worker_event_loop_native` over the command pipe,
which is closed after the given bytes. -/
def loopPass (php : NativeRequest → Execution) (cmd : Bytes) : Pass :=
  match readNat 1 cmd with
  | none => .exit
  | some (3, cmd) =>
    match readNat 4 cmd with
    | none => .exit
    | some (totalLen, cmd) =>
      match splitOff totalLen cmd with
      | none => .exit
      | some (payload, rest) => .answer (answerTo php payload) rest
  | some (2, _) => .exit
  | some (_, rest) => .answer ⟨.error, 500, [], utf8 "Unknown command"⟩ rest

/-- A request whose payload length fits its field is taken whole. -/
theorem loopPass_encode (php : NativeRequest → Execution) {a : RequestArgs}
    (h : a.payload.length < 2 ^ 32) :
    loopPass php (encodeNativeRequest a) = .answer (answerTo php a.payload) [] := by
  have hcmd : ∀ bytes, readNat 1 (3 :: bytes) = some (3, bytes) := fun bytes =>
    readNat_leBytes 1 3 bytes
  have hlen : a.payload.length % 256 ^ 4 = a.payload.length := Nat.mod_eq_of_lt h
  have hsplit : splitOff a.payload.length a.payload = some (a.payload, []) := by
    rw [← splitOff_append rfl, List.append_nil]
  rw [loopPass, encodeNativeRequest, hcmd]
  simp only [readNat_leBytes, hlen, hsplit]

/-- Every place that starts a worker on `worker_event_loop_native`. -/
inductive Creation
  | spawnWorkers
  | spawnNamedPool
  | reapAndRespawn
  | reapAndRespawnThreaded
  | spawnAdditional
  | spawnAdditionalThread
  | watcherReload
deriving DecidableEq, Repr

/-- The caller reads the ready signal: only `cmd_serve` does, after the initial
spawn of the main pool and of each named pool. -/
def Creation.readsReady : Creation → Bool
  | .spawnWorkers | .spawnNamedPool => true
  | .reapAndRespawn | .reapAndRespawnThreaded | .spawnAdditional | .spawnAdditionalThread
  | .watcherReload => false

/-! ## the two pipes -/

/-- Why the worker wrote a byte: its ready signal, or the answer to request `k`. -/
inductive Origin
  | ready
  | request (k : Nat)
deriving DecidableEq, Repr

/-- The bytes with their origin. -/
def tag (o : Origin) (bytes : Bytes) : List (Origin × UInt8) := bytes.map fun b => (o, b)

@[simp] theorem map_snd_tag (o : Origin) (bytes : Bytes) : (tag o bytes).map Prod.snd = bytes := by
  rw [tag, List.map_map]
  exact List.map_id bytes

@[simp] theorem length_tag (o : Origin) (bytes : Bytes) :
    (tag o bytes).length = bytes.length := List.length_map _

/-- The unread bytes in the command pipe and in the response pipe. -/
structure Pipes where
  cmd : Bytes
  resp : List (Origin × UInt8)

/-- Read one response; what is left behind it stays in the pipe. -/
def takeResponse (resp : List (Origin × UInt8)) :
    Option ((NativeResponse × List (Origin × UInt8)) × List (Origin × UInt8)) :=
  (readNativeResponse (resp.map Prod.snd)).map fun (r, rest) =>
    ((r, resp.take (resp.length - rest.length)), resp.drop (resp.length - rest.length))

/-- The pipes of a new worker once its creator is done with it. -/
def Creation.pipes (c : Creation) : Pipes :=
  let written := tag .ready readyAnswer.frame
  if c.readsReady then ⟨[], (takeResponse written).elim written Prod.snd⟩ else ⟨[], written⟩

/-- One exchange: the master sends request `k`, the worker answers, the master
reads one response.  The reader fills a buffer of its own, which is dropped
with whatever it holds beyond the response: up to `lookAhead` bytes are lost.
`none` means that the worker exits or that the master waits forever. -/
def round (php : NativeRequest → Execution) (lookAhead k : Nat) (p : Pipes)
    (a : RequestArgs) : Option ((NativeResponse × List (Origin × UInt8)) × Pipes) :=
  match loopPass php (p.cmd ++ encodeNativeRequest a) with
  | .exit => none
  | .answer ans rest =>
    (takeResponse (p.resp ++ tag (.request k) ans.frame)).map fun (got, left) =>
      (got, ⟨rest, left.drop lookAhead⟩)

/-- What the master reads in exchange `k`, `k + 1`, … -/
def converse (php : Nat → NativeRequest → Execution) (lookAhead : Nat → Nat) (k : Nat)
    (p : Pipes) : List RequestArgs → List (NativeResponse × List (Origin × UInt8))
  | [] => []
  | a :: as =>
    match round (php k) (lookAhead k) k p a with
    | none => []
    | some (got, p') => got :: converse php lookAhead (k + 1) p' as

/-- The response that the worker produced for request `k`, and its bytes. -/
def answered (php : Nat → NativeRequest → Execution) (k : Nat) (a : RequestArgs) :
    NativeResponse × List (Origin × UInt8) :=
  ((answerTo (php k) a.payload).response, tag (.request k) (answerTo (php k) a.payload).frame)

/-! ## one exchange -/

theorem frame_ne_nil (a : Answer) : a.frame ≠ [] := by
  rw [← List.length_pos_iff, Answer.frame, writeNativeResponse]
  simp only [List.length_append, length_leBytes]
  omega

/-- Of a pipe that holds one answer, that answer is read, and nothing else, iff
it fits. -/
theorem takeResponse_frame_iff {o : Origin} {a : Answer} {left : List (Origin × UInt8)} :
    takeResponse (tag o a.frame) = some ((a.response, tag o a.frame), left) ↔
      a.Fits ∧ left = [] := by
  have hpos := List.length_pos_iff.2 (frame_ne_nil a)
  have hiff : ∀ rest, readNativeResponse a.frame = some (a.response, rest) ↔
      a.Fits ∧ rest = [] := by
    intro rest
    have hwrite : readNativeResponse (a.frame ++ []) = some (a.response, rest) ↔
        a.Fits ∧ rest = [] := readNativeResponse_write_iff
    rwa [List.append_nil] at hwrite
  rw [takeResponse, map_snd_tag, Option.map_eq_some_iff]
  constructor
  · intro ⟨⟨r, rest⟩, hread, heq⟩
    simp only [Prod.mk.injEq, length_tag] at heq
    obtain ⟨⟨hr, htake⟩, hleft⟩ := heq
    have hlen := congrArg List.length htake
    rw [List.length_take, length_tag] at hlen
    have hrest : rest = [] := List.length_eq_zero_iff.1 (by omega)
    subst hr hrest
    have hfits := ((hiff []).1 hread).1
    rw [List.length_nil, Nat.sub_zero, List.drop_of_length_le (Nat.le_of_eq (length_tag _ _))]
      at hleft
    exact ⟨hfits, hleft.symm⟩
  · intro ⟨hfits, hleft⟩
    refine ⟨(a.response, []), (hiff []).2 ⟨hfits, rfl⟩, ?_⟩
    dsimp only
    rw [hleft, List.length_nil, Nat.sub_zero, List.take_length, List.drop_length]

/-- A response that starts with a byte of another origin is not the one asked for. -/
theorem take_tag_ne {o o' : Origin} (ho : o ≠ o') {f g : Bytes} (hf : f ≠ []) (hg : g ≠ [])
    (n : Nat) (l : List (Origin × UInt8)) : (tag o f ++ l).take n ≠ tag o' g := by
  obtain ⟨b, f, rfl⟩ := List.exists_cons_of_ne_nil hf
  obtain ⟨c, g, rfl⟩ := List.exists_cons_of_ne_nil hg
  intro h
  cases n with
  | zero => simp [tag] at h
  | succ n =>
    simp only [tag, List.map_cons, List.cons_append, List.take_succ_cons, List.cons.injEq,
      Prod.mk.injEq] at h
    exact ho h.1.1

variable {lookAhead k : Nat} {a : RequestArgs} {p' : Pipes}

/-- An exchange over empty pipes reads the answer to its request iff the answer
fits, and leaves the pipes empty. -/
theorem round_clean {php : Nat → NativeRequest → Execution} (h : a.payload.length < 2 ^ 32) :
    round (php k) lookAhead k ⟨[], []⟩ a = some (answered php k a, p') ↔
      (answerTo (php k) a.payload).Fits ∧ p' = ⟨[], []⟩ := by
  rw [round, List.nil_append, loopPass_encode (php k) h]
  simp only [List.nil_append, Option.map_eq_some_iff, Prod.exists, Prod.mk.injEq]
  constructor
  · intro ⟨r, bytes, left, htake, hgot, hp⟩
    rw [hgot, answered, takeResponse_frame_iff] at htake
    rw [htake.2, List.drop_nil] at hp
    exact ⟨htake.1, hp.symm⟩
  · intro ⟨hfits, hp⟩
    refine ⟨_, _, [], takeResponse_frame_iff.2 ⟨hfits, rfl⟩, rfl, ?_⟩
    rw [hp, List.drop_nil]

/-- An exchange over a response pipe that still holds the ready signal does not
read the answer to its request. -/
theorem round_stale {php : Nat → NativeRequest → Execution} :
    round (php k) lookAhead k ⟨[], tag .ready readyAnswer.frame⟩ a ≠
      some (answered php k a, p') := by
  rw [round]
  cases loopPass (php k) ([] ++ encodeNativeRequest a) with
  | exit => simp
  | answer ans rest =>
    intro h
    simp only [takeResponse, Option.map_map, Option.map_eq_some_iff, Function.comp_apply,
      Prod.mk.injEq, answered] at h
    obtain ⟨x, -, ⟨-, htake⟩, -⟩ := h
    exact take_tag_ne (by simp) (frame_ne_nil _) (frame_ne_nil _) _ _ htake

/-! ## whole conversations -/

theorem pipes_of_readsReady {c : Creation} (h : c.readsReady = true) : c.pipes = ⟨[], []⟩ := by
  have htake : takeResponse (tag .ready readyAnswer.frame) =
      some ((readyAnswer.response, tag .ready readyAnswer.frame), []) :=
    takeResponse_frame_iff.2 ⟨⟨by decide, by simp [readyAnswer], by decide⟩, rfl⟩
  simp only [Creation.pipes, h, if_true, htake, Option.elim_some]

theorem pipes_of_not_readsReady {c : Creation} (h : c.readsReady = false) :
    c.pipes = ⟨[], tag .ready readyAnswer.frame⟩ := by
  simp only [Creation.pipes, h, Bool.false_eq_true, if_false]

section Conversations

variable {php : Nat → NativeRequest → Execution} {lookAhead : Nat → Nat} {as : List RequestArgs}

/-- The first thing read, and what the conversation goes on with. -/
theorem converse_cons_zero {k : Nat} {p : Pipes} {got : NativeResponse × List (Origin × UInt8)} :
    (converse php lookAhead k p (a :: as))[0]? = some got ↔
      ∃ p', round (php k) (lookAhead k) k p a = some (got, p') := by
  rw [converse]
  cases hround : round (php k) (lookAhead k) k p a with
  | none => simp
  | some x =>
    obtain ⟨got', p'⟩ := x
    simp

theorem converse_cons_succ {k j : Nat} {p p' : Pipes} {got : NativeResponse × List (Origin × UInt8)}
    (h : round (php k) (lookAhead k) k p a = some (got, p')) :
    (converse php lookAhead k p (a :: as))[j + 1]? =
      (converse php lookAhead (k + 1) p' as)[j]? := by
  rw [converse, h, List.getElem?_cons_succ]

/-- **Run lemma.**  Over pipes that are empty at the start, every answer is read
in its turn iff every answer fits. -/
theorem converse_clean_iff {k : Nat} (hpayload : ∀ a ∈ as, a.payload.length < 2 ^ 32) :
    (∀ (j : Nat) (a : RequestArgs), as[j]? = some a →
      (converse php lookAhead k ⟨[], []⟩ as)[j]? = some (answered php (k + j) a)) ↔
    ∀ (j : Nat) (a : RequestArgs), as[j]? = some a →
      (answerTo (php (k + j)) a.payload).Fits := by
  induction as generalizing k with
  | nil => simp
  | cons a as ih =>
    rw [List.forall_mem_cons] at hpayload
    have hshift : ∀ j, k + (j + 1) = k + 1 + j := fun j => by omega
    have hrest := ih (k := k + 1) hpayload.2
    constructor
    · intro h
      have hfirst := h 0 a rfl
      rw [converse_cons_zero] at hfirst
      obtain ⟨p', hround⟩ := hfirst
      obtain ⟨hfits, hp⟩ := (round_clean hpayload.1).1 hround
      subst hp
      have hall := hrest.1 fun j b hb => by
        have hj := h (j + 1) b (by rwa [List.getElem?_cons_succ])
        rwa [converse_cons_succ hround, hshift j] at hj
      intro j b hb
      cases j with
      | zero =>
        rw [List.getElem?_cons_zero, Option.some.injEq] at hb
        exact hb ▸ hfits
      | succ j =>
        rw [hshift j]
        exact hall j b (by rwa [List.getElem?_cons_succ] at hb)
    · intro h
      have hround : round (php k) (lookAhead k) k ⟨[], []⟩ a =
          some (answered php k a, ⟨[], []⟩) := (round_clean hpayload.1).2 ⟨h 0 a rfl, rfl⟩
      have hall := hrest.2 fun j b hb => by
        have hj := h (j + 1) b (by rwa [List.getElem?_cons_succ])
        rwa [hshift j] at hj
      intro j b hb
      cases j with
      | zero =>
        rw [List.getElem?_cons_zero, Option.some.injEq] at hb
        exact hb ▸ converse_cons_zero.2 ⟨_, hround⟩
      | succ j =>
        rw [converse_cons_succ hround, hshift j]
        exact hall j b (by rwa [List.getElem?_cons_succ] at hb)

end Conversations

/-- The `k`-th response that the master reads from a worker is the one that the
worker produced for the `k`-th request, for every `k`. -/
def InStep (c : Creation) (php : Nat → NativeRequest → Execution) (lookAhead : Nat → Nat)
    (as : List RequestArgs) : Prop :=
  ∀ (k : Nat) (a : RequestArgs), as[k]? = some a →
    (converse php lookAhead 0 c.pipes as)[k]? = some (answered php k a)

/-- **In step.**  A worker answers in step exactly when nobody asks it anything,
or its creator read the ready signal and every answer fits the format. -/
theorem answers_in_step_iff (c : Creation) (php : Nat → NativeRequest → Execution)
    (lookAhead : Nat → Nat) (as : List RequestArgs)
    (hpayload : ∀ a ∈ as, a.payload.length < 2 ^ 32) :
    InStep c php lookAhead as ↔
      as = [] ∨ c.readsReady = true ∧
        ∀ (k : Nat) (a : RequestArgs), as[k]? = some a → (answerTo (php k) a.payload).Fits := by
  cases hready : c.readsReady with
  | true =>
    have hclean : (∀ (k : Nat) (a : RequestArgs), as[k]? = some a →
        (converse php lookAhead 0 ⟨[], []⟩ as)[k]? = some (answered php (0 + k) a)) ↔ _ :=
      converse_clean_iff hpayload
    simp only [Nat.zero_add] at hclean
    rw [InStep, pipes_of_readsReady hready, hclean]
    constructor
    · exact fun h => .inr ⟨rfl, h⟩
    · rintro (rfl | h)
      · simp
      · exact h.2
  | false =>
    rw [InStep, pipes_of_not_readsReady hready]
    cases as with
    | nil => simp
    | cons a as =>
      have hstale : ¬ (converse php lookAhead 0 ⟨[], tag .ready readyAnswer.frame⟩
          (a :: as))[0]? = some (answered php 0 a) := by
        rw [converse_cons_zero]
        exact fun ⟨p', h⟩ => round_stale h
      constructor
      · exact fun h => absurd (h 0 a rfl) hstale
      · rintro (h | ⟨h, -⟩)
        · cases h
        · cases h

/-- A page that greets with the number of the request. -/
def greeting (k : Nat) (_ : NativeRequest) : Execution := ⟨true, 200, [], [UInt8.ofNat k]⟩

/-- A request with nothing in it. -/
def emptyRequest : RequestArgs := (cookieRequest .empty).args (-1)

theorem answers_in_step_iff_initialSpawn :
    InStep .spawnWorkers greeting (fun _ => 0) [emptyRequest, emptyRequest] := by
  have hrefusal : ResponseFits [] (utf8 "Failed to decode native request") :=
    ⟨by decide, by simp, by decide⟩
  have hpage : ∀ b : UInt8, ResponseFits [] [b] := fun b => ⟨by decide, by simp, by simp⟩
  refine (answers_in_step_iff .spawnWorkers greeting (fun _ => 0) [emptyRequest, emptyRequest]
    (by decide)).2 (.inr ⟨rfl, fun k a _ => ?_⟩)
  unfold answerTo
  cases NativeRequest.decode a.payload with
  | none => exact hrefusal
  | some req => exact hpage _

/-- A worker that the process-mode reaper forked: the first request is answered
with the ready signal, the second with the first one's answer. -/
theorem ready_signal_shifts :
    converse greeting (fun _ => 0) 0 Creation.reapAndRespawn.pipes [emptyRequest, emptyRequest] =
        [(⟨true, 200, [], []⟩, tag .ready readyAnswer.frame), answered greeting 0 emptyRequest] ∧
      ¬ InStep .reapAndRespawn greeting (fun _ => 0) [emptyRequest, emptyRequest] := by
  have hread : converse greeting (fun _ => 0) 0 Creation.reapAndRespawn.pipes
      [emptyRequest, emptyRequest] =
        [(⟨true, 200, [], []⟩, tag .ready readyAnswer.frame),
          answered greeting 0 emptyRequest] := by decide
  refine ⟨hread, fun h => ?_⟩
  have hfirst := h 0 emptyRequest rfl
  rw [hread] at hfirst
  exact absurd hfirst (by decide)

end Turbine.Native
