import Turbine.Base.Sessions
import Turbine.Persistent.Worker
import Turbine.Streaming.Fetching

/-!
# Turbine.Persistent.Exchange

The master and a persistent worker over real pipes: `decode_response_async` behind a
buffer of 65536 bytes on one side, `worker_event_loop_persistent` behind one of 8192
bytes on the other.  A pipe takes and gives as many bytes at a time as the kernel likes,
calls are interrupted or would block, and the two processes run side by side.  Allocations
succeed, whatever number of headers a frame announces.

* `decoder_comes_to_decodeResponse`: call by call, the decoder comes to what
  `decodeResponse` makes of the bytes there are, whatever they are;
* `commands_answered_over_pipes`: whatever the interleaving, the commands are answered
  one by one, and nobody waits for ever.
-/

namespace Turbine.Persistent

open Base Wire Streaming Engine

/-! ## the decoder, call by call -/

/-- What `decode_response_async` does with what was read: it goes on to the next frame, or
returns. -/
def Assembly.onwards (a : Assembly) : Except IoError (Option Frame) →
    (Nat × (Option Bytes → Assembly × Fetch UInt8 IoError (Option Frame))) ⊕
      Except IoError PersistentResponse
  | .ok (some frame) =>
    match a.take frame with
    | .ok (.inl a) => .inl (1, fun first => (a, fetchOnwards first))
    | .ok (.inr response) => .inr (.ok response)
    | .error e => .inr (.error e)
  | .ok none => .inr (.error pipeClosed)
  | .error e => .inr (.error e)

/-- `decode_response_async`: its variables, and the frame that is being read. -/
def responseDecoder : Decoder UInt8 (Assembly × Fetch UInt8 IoError (Option Frame))
    (Except IoError PersistentResponse) := fetchFrame.decoder {} Assembly.onwards

variable {bytes rest : Bytes}

/-- The decoder returns after this frame. -/
theorem halts_of_onwards {ended : Bool} {a : Assembly} {r : Except IoError (Option Frame)}
    {result : Except IoError PersistentResponse}
    (heval : fetchFrame.eval ended bytes = some (r, rest)) (h : a.onwards r = .inr result) :
    ∃ n, responseDecoder.Halts ended n (a, fetchFrame) bytes (some result) rest :=
  Fetch.halts_of_eval heval (.result rest h)

/-- What the decoder comes to, and the bytes it leaves, for what `decodeResponse` makes of the
stream: where that runs out of bytes, the decoder waits as long as the pipe is open. -/
inductive Comes (ended : Bool) (rest : Bytes) :
    Except IoError (PersistentResponse × Bytes) →
      Option (Except IoError PersistentResponse) → Prop
  | response (response : PersistentResponse) :
      Comes ended rest (.ok (response, rest)) (some (.ok response))
  | error (e : IoError) : Comes ended rest (.error e) (some (.error e))
  | short {e : IoError} (hopen : ended = false) (he : e = earlyEof ∨ e = pipeClosed) :
      Comes ended rest (.error e) none

/-- **Run lemma.**  Frame by frame, the decoder does what `decodeLoop` does. -/
theorem halts_decodeLoop (ended : Bool) {fuel : Nat} (hfuel : bytes.length < fuel) (a : Assembly) :
    ∃ n rest o, responseDecoder.Halts ended n (a, fetchFrame) bytes o rest ∧
      Comes ended rest (decodeLoop fuel a bytes) o := by
  induction fuel generalizing a bytes with
  | zero => omega
  | succ fuel ih =>
    have heval := eval_fetchFrame ended bytes
    cases hread : readFrame bytes with
    | error e =>
      rw [hread, settled] at heval
      rw [decodeLoop_error hread]
      split_ifs at heval with he hended
      · obtain ⟨n, hn⟩ := halts_of_onwards (a := a) heval rfl
        exact ⟨n, _, _, hn, .error e⟩
      · obtain ⟨n, rest, hn⟩ := Fetch.halts_of_eval_none heval
        exact ⟨n, rest, _, hn, .short (eq_false_of_ne_true hended) (.inl he)⟩
      · obtain ⟨n, hn⟩ := halts_of_onwards (a := a) heval rfl
        exact ⟨n, _, _, hn, .error e⟩
    | ok read =>
      cases read with
      | none =>
        have hloop : decodeLoop (fuel + 1) a bytes = .error pipeClosed := by
          simp only [decodeLoop, hread, bind, Except.bind]
        rw [hread, settled] at heval
        rw [hloop]
        split_ifs at heval with hended
        · obtain ⟨n, hn⟩ := halts_of_onwards (a := a) heval rfl
          exact ⟨n, _, _, hn, .error _⟩
        · obtain ⟨n, rest, hn⟩ := Fetch.halts_of_eval_none heval
          exact ⟨n, rest, _, hn, .short (eq_false_of_ne_true hended) (.inr rfl)⟩
      | some read =>
        obtain ⟨frame, rest⟩ := read
        rw [hread, settled] at heval
        have hlt := length_lt_of_readFrame hread
        cases htake : a.take frame with
        | error e =>
          have hloop : decodeLoop (fuel + 1) a bytes = .error e := by
            simp only [decodeLoop, hread, htake, bind, Except.bind]
          have hview : a.onwards (.ok (some frame)) = .inr (.error e) := by
            simp only [Assembly.onwards, htake]
          rw [hloop]
          obtain ⟨n, hn⟩ := halts_of_onwards heval hview
          exact ⟨n, _, _, hn, .error e⟩
        | ok next =>
          cases next with
          | inl a' =>
            rw [decodeLoop_more hread htake]
            obtain ⟨n, rest', o, hhalts, hcomes⟩ := ih (show rest.length < fuel by omega) a'
            have hview : responseDecoder.view (a', fetchFrame) = a.onwards (.ok (some frame)) := by
              simp only [Assembly.onwards, htake]
              rfl
            obtain ⟨m, hm⟩ := Fetch.halts_of_eval heval (hhalts.congr hview)
            exact ⟨m, rest', o, hm, hcomes⟩
          | inr response =>
            have hview : a.onwards (.ok (some frame)) = .inr (.ok response) := by
              simp only [Assembly.onwards, htake]
            rw [decodeLoop_done hread htake]
            obtain ⟨n, hn⟩ := halts_of_onwards heval hview
            exact ⟨n, _, _, hn, .response response⟩

/-- **Call by call.**  Whatever bytes there are in the response pipe, and whether or not it
has ended behind them, the master's decoder comes to the response or the error that
`decodeResponse` gives for the whole of them, and leaves the bytes behind a response; it waits
only if bytes are missing and the pipe is open. -/
theorem decoder_comes_to_decodeResponse (bytes : Bytes) (ended : Bool) :
    ∃ n rest o, responseDecoder.Halts ended n responseDecoder.start bytes o rest ∧
      Comes ended rest (decodeResponse bytes) o :=
  halts_decodeLoop ended (Nat.lt_succ_self bytes.length) {}

/-! ## the worker's loop, call by call -/

/-- The commands that `worker_event_loop_persistent` tells apart. -/
inductive Command
  | handleRequest (payload : Bytes)
  | shutdown
  | unknown
deriving DecidableEq, Repr

/-- A payload behind its length, as commands have it. -/
def fetchPayload : Fetch UInt8 Unit Bytes := do
  let len ← Fetch.nat () 4
  Fetch.exactly () len

theorem eval_fetchPayload {payload : Bytes} (h : payload.length < 2 ^ 32) :
    fetchPayload.eval false (leBytes 4 payload.length ++ payload) = some (.ok payload, []) := by
  have hmod : payload.length % 256 ^ 4 = payload.length := Nat.mod_eq_of_lt h
  have hlen : (Fetch.nat () 4).eval false (leBytes 4 payload.length ++ payload) =
      some (.ok payload.length, payload) := by
    refine (Fetch.reads_nat () 4).eval_of_some ?_
    rw [readNat_leBytes, hmod]
  rw [fetchPayload, Fetch.eval_bind_ok hlen, Fetch.eval_exactly, if_pos (Nat.le_refl _),
    List.take_length, List.drop_length]

/-- The top of the worker's loop: the command byte and, for a request, the payload.  The
loop is left if the pipe ends. -/
def fetchCommand : Fetch UInt8 Unit Command := do
  let code ← Fetch.nat () 1
  if code = 0xFF then pure .shutdown
  else if code ≠ 0x01 then pure .unknown
  else
    let payload ← fetchPayload
    pure (.handleRequest payload)

def commandDecoder : Decoder UInt8 (Unit × Fetch UInt8 Unit Command) (Except Unit Command) :=
  fetchCommand.decoder () fun _ => .inr

/-- The rest of the loop, with PHP's behaviour in the pass of each number: what is written in
answer and the state of the output capture after it, or `none` if the loop is left. -/
def serveCommand (rt : Runtime) (php : Nat → DecodedRequest → Execution) :
    Nat × Output → Except Unit Command → Option (Bytes × (Nat × Output))
  | (k, s), .ok (.handleRequest payload) =>
    match DecodedRequest.decode payload with
    | none => some (failedToDecode, (k + 1, s))
    | some req =>
      let s' := serve rt (php k req) { s with pipe := [] }
      some (s'.pipe, (k + 1, s'))
  | (k, s), .ok .unknown => some (unknownCommand, (k + 1, s))
  | _, .ok .shutdown => none
  | _, .error () => none

theorem commandDecoder_command {payload : Bytes} (h : payload.length < 2 ^ 32) :
    ∃ n, commandDecoder.Yields n commandDecoder.start (command payload)
      (.ok (.handleRequest payload)) := by
  have hcode : (Fetch.nat () 1).eval false (command payload) =
      some (.ok 1, leBytes 4 payload.length ++ payload) := rfl
  refine Fetch.halts_of_eval ?_ (.result [] rfl)
  rw [fetchCommand, Fetch.eval_bind_ok hcode, if_neg (by decide), if_neg (by decide),
    Fetch.eval_bind_ok (eval_fetchPayload h), Fetch.eval_pure]

/-- A command is answered with its frames, and leaves the worker ready for the next. -/
theorem serveCommand_handleRequest (rt : Runtime) (php : Nat → DecodedRequest → Execution)
    (k : Nat) {s : Output} (hidle : Idle s) (payload : Bytes) :
    ∃ s', serveCommand rt php (k, s) (.ok (.handleRequest payload)) =
        some (answerFrames rt (php k) payload, (k + 1, s')) ∧ Idle s' := by
  simp only [serveCommand, answerFrames]
  cases DecodedRequest.decode payload with
  | none => exact ⟨s, rfl, hidle⟩
  | some req =>
    let s' := serve rt (php k req) { s with pipe := [] }
    obtain ⟨hpipe, hidle'⟩ : s'.pipe = [] ++ (php k req).frames rt ∧ Idle s' :=
      serve_pipe rt (php k req) ⟨hidle.disarmed, hidle.notEngaged⟩
    exact ⟨s', congrArg (fun bytes => some (bytes, (k + 1, s'))) hpipe, hidle'⟩

/-- Bytes that decode to a response with nothing left over are taken by the decoder. -/
theorem yields_of_decodeResponse {response : PersistentResponse}
    (h : decodeResponse bytes = .ok (response, [])) :
    ∃ n, responseDecoder.Yields n responseDecoder.start bytes (.ok response) := by
  obtain ⟨n, rest, o, hhalts, hcomes⟩ :=
    halts_decodeLoop false (Nat.lt_succ_self bytes.length) ({} : Assembly)
  change Comes false rest (decodeResponse bytes) o at hcomes
  rw [h] at hcomes
  cases hcomes with
  | response => exact ⟨n, hhalts⟩

/-! ## sessions -/

/-- The master, which sends the next request after a response without an I/O error, and the
worker. -/
def session (rt : Runtime) (php : Nat → DecodedRequest → Execution) :
    Session UInt8 (Assembly × Fetch UInt8 IoError (Option Frame))
      (Except IoError PersistentResponse) (Unit × Fetch UInt8 Unit Command) (Except Unit Command)
      (Nat × Output) where
  dec := responseDecoder
  good := Except.isOk
  cmdDec := commandDecoder
  serve := serveCommand rt php
  reads := ⟨0, _, rfl⟩
  readsCmd := ⟨0, _, rfl⟩

/-- The responses to the commands, from the `k`th pass of the worker on. -/
def responsesFrom (rt : Runtime) (php : Nat → DecodedRequest → Execution) (k : Nat)
    (payloads : List Bytes) : List (Except IoError PersistentResponse) :=
  (payloads.zipIdx k).map fun p => .ok (respond rt php p.2 p.1)

/-- **In step, over pipes.**  Commands are sent to a persistent worker one at a time, over pipes of
any size, and PHP may flush its output whenever it likes.  However writes and reads are
split, interrupted and interleaved, the master gets the responses to the commands, in order,
and nobody waits for ever. -/
theorem commands_answered_over_pipes (rt : Runtime) (php : Nat → DecodedRequest → Execution)
    (payloads : List Bytes) (hlen : ∀ payload ∈ payloads, payload.length < 2 ^ 32)
    (hphp : ∀ p ∈ payloads.zipIdx, ∀ req, DecodedRequest.decode p.1 = some req →
      (php p.2 req).Admissible rt ∧ (php p.2 req).BufferFits rt) (room : Nat) (hroom : 0 < room) :
    (session rt php).Delivers 65536 8192 room (0, {}) (payloads.map command)
      (responsesFrom rt php 0 payloads) (fun t => t.1 = payloads.length) := by
  have hexchange : ∀ p ∈ payloads.zipIdx, ∀ t : Nat × Output, t.1 = p.2 ∧ Idle t.2 → ∃ t',
      (session rt php).Exchanges t (command p.1) (.ok (respond rt php p.2 p.1)) t' ∧
        t'.1 = p.2 + 1 ∧ Idle t'.2 := by
    rintro p hp ⟨_, s⟩ ⟨rfl, hidle⟩
    obtain ⟨s', hserve, hidle'⟩ := serveCommand_handleRequest rt php p.2 hidle p.1
    have hdecode := decodeResponse_answerFrames rt (hphp p hp) []
    rw [List.append_nil] at hdecode
    obtain ⟨m, hcmd⟩ := commandDecoder_command (hlen p.1 (List.fst_mem_of_mem_zipIdx hp))
    obtain ⟨l, hresp⟩ := yields_of_decodeResponse hdecode
    exact ⟨_, ⟨m, l, _, _, hcmd, hserve, hresp, rfl⟩, rfl, hidle'⟩
  obtain ⟨n, t, hserved, ht, -⟩ := (session rt php).served_of_forall payloads _ _
    (fun k t => t.1 = k ∧ Idle t.2) (t := (0, {})) ⟨rfl, rfl, rfl⟩ hexchange
  exact hserved.delivers hroom 65536 8192 (ht.trans (Nat.zero_add _))

theorem commands_answered_over_pipes_flushed :
    (session ⟨true, id⟩ fun _ _ => flushingScript).Delivers 65536 8192 4096 (0, {})
      ([emptyPayload, [7]].map command)
      (responsesFrom ⟨true, id⟩ (fun _ _ => flushingScript) 0 [emptyPayload, [7]])
      (fun t => t.1 = 2) :=
  commands_answered_over_pipes ⟨true, id⟩ (fun _ _ => flushingScript) [emptyPayload, [7]]
    (by decide)
    (fun _ _ _ _ => ⟨⟨by decide, by decide, by decide⟩, by unfold Execution.BufferFits; decide⟩)
    4096 (by decide)

end Turbine.Persistent
