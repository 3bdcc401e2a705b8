import Turbine.Engine.Output
import Turbine.Persistent.Request
import Turbine.Persistent.Response

/-!
# Turbine.Persistent.Worker

The request loop of a persistent worker, `worker_event_loop_persistent`, from the
bytes on its command pipe to the bytes on its response pipe.  PHP is arbitrary:
for every request it makes any sequence of calls into the output capture.

* `eventLoop_pipe`: a sequence of commands leaves their answers in order;
* `decodeResponse_answerFrames`: the master decodes each answer to the response
  the command should get, unless PHP buffers more than one chunk can hold.
-/

namespace Turbine.Persistent

open Base Wire Streaming Engine

/-! ## one request -/

/-- What PHP does with a request: the calls it makes while it starts up, while it
runs the script and the cleanup script, and while it shuts down; its own response
code after that; and whether the script succeeded. -/
structure Execution where
  startup : List SapiCall
  script : List SapiCall
  cleanup : List SapiCall
  shutdown : List SapiCall
  sapiCode : Int
  success : Bool

/-- The calls between `arm_streaming` and `finish_streaming`. -/
def Execution.calls (e : Execution) : List SapiCall := e.script ++ e.cleanup ++ e.shutdown

/-- What the loop writes once PHP is done. -/
def closingBytes (streamed ok : Bool) (status : UInt16) (headers : List (String × String))
    (body : Bytes) : Bytes :=
  if streamed then
    if body.isEmpty then encodeEnd ok
    else encodeBodyChunk body ++ encodeEnd ok
  else if body.isEmpty then encodeHeaders status headers ++ encodeEnd ok
  else encodeHeaders status headers ++ encodeBodyChunkHeader body.length ++ body ++ encodeEnd ok

/-- The end of a request: the capture is read out and the response closed. -/
def finishRequest (rt : Runtime) (sapiCode : Int) (ok : Bool) (s : Output) : Output :=
  let (streamed, s) := finishStreaming s
  let (body, s) := takeOutput s
  let (headers, s) := takeHeaders s
  let (status, s) := takeResponseCode rt sapiCode s
  s.write (closingBytes streamed ok status headers body)

/-- A request whose payload could be decoded.  The lightweight and the full
lifecycle make the same calls into the capture. -/
def serve (rt : Runtime) (e : Execution) (s : Output) : Output :=
  let s := runCalls rt e.startup s
  let s := armStreaming (clearOutputBuffer s)
  let s := runCalls rt e.script s
  let s := runCalls rt e.cleanup s
  let s := runCalls rt e.shutdown s
  finishRequest rt e.sapiCode e.success s

/-! ## the loop -/

/-- `write_ready_signal`. -/
def readySignal : Bytes := 0xAA :: leBytes 4 0

def unknownCommand : Bytes := writeResponse false 500 [] (utf8 "Unknown command")

def failedToDecode : Bytes := writeResponse false 500 [] (utf8 "Failed to decode request")

/-- One pass of the loop: the state after it and the rest of the command pipe, or
`none` if the loop ends. -/
def loopPass (rt : Runtime) (php : DecodedRequest → Execution) (s : Output)
    (cmd : Bytes) : Option (Output × Bytes) := do
  let (code, cmd) ← readNat 1 cmd
  if code = 0xFF then none
  else if code ≠ 0x01 then some (s.write unknownCommand, cmd)
  else
    let (payloadLen, cmd) ← readNat 4 cmd
    let (payload, cmd) ← splitOff payloadLen cmd
    match DecodedRequest.decode payload with
    | none => some (s.write failedToDecode, cmd)
    | some req => some (serve rt (php req) s, cmd)

/-- The loop, with PHP's behaviour in the pass of each number.  A pass takes at
least one byte, so the first argument never runs out when it exceeds the number
of bytes. -/
def eventLoop (rt : Runtime) (php : Nat → DecodedRequest → Execution) :
    Nat → Nat → Output → Bytes → Output
  | 0, _, s, _ => s
  | fuel + 1, k, s, cmd =>
    match loopPass rt (php k) s cmd with
    | none => s
    | some (s, cmd) => eventLoop rt php fuel (k + 1) s cmd

/-- All that the worker writes, given what the command pipe brings until it is
closed. -/
def workerOutput (rt : Runtime) (php : Nat → DecodedRequest → Execution) (cmd : Bytes) : Bytes :=
  (eventLoop rt php (cmd.length + 1) 0 { pipe := readySignal } cmd).pipe

/-! ## what a request leaves on the pipe -/

/-- The status and the headers of the request. -/
def Execution.recorded (rt : Runtime) (e : Execution) : UInt16 × List (String × String) :=
  record rt {} e.calls e.sapiCode

/-- The frames of the request. -/
def Execution.frames (rt : Runtime) (e : Execution) : Bytes :=
  encodeResponse (e.recorded rt).1 (e.recorded rt).2 (bodyChunks rt {} [] e.calls) e.success

/-- The capture between two requests: whatever PHP writes is buffered. -/
structure Idle (s : Output) : Prop where
  disarmed : s.armed = false
  notEngaged : s.engaged = false

theorem finishRequest_engaged (rt : Runtime) (sapiCode : Int) (ok : Bool) {s : Output}
    (hengaged : s.engaged = true) (hbuffer : s.outputBuffer = []) :
    (finishRequest rt sapiCode ok s).pipe = s.pipe ++ encodeEnd ok := by
  simp only [finishRequest, finishStreaming, takeOutput, takeHeaders, takeResponseCode,
    Output.write, closingBytes, hengaged, hbuffer, List.isEmpty_nil, if_true]

/-- The vectored write sends the bytes of `write_response`. -/
theorem closingBytes_buffered (ok : Bool) (status : UInt16) (headers : List (String × String))
    (body : Bytes) :
    closingBytes false ok status headers body = writeResponse ok status headers body := by
  rw [closingBytes, writeResponse, if_neg Bool.false_ne_true]
  split
  · rw [List.append_nil]
  · rw [encodeBodyChunk, List.append_assoc (encodeHeaders status headers)]

theorem finishRequest_buffered (rt : Runtime) (sapiCode : Int) (ok : Bool) {s : Output}
    (hengaged : s.engaged = false) :
    (finishRequest rt sapiCode ok s).pipe = s.pipe ++
      encodeResponse (s.head.status rt sapiCode) s.head.headers (chunksOf s.outputBuffer) ok := by
  rw [← writeResponse_eq, ← closingBytes_buffered, ← takeResponseCode_fst, ← hengaged]
  rfl

/-- **Step lemma.**  A request leaves one response on the pipe, and the worker
ready for the next. -/
theorem serve_pipe (rt : Runtime) (e : Execution) {s : Output} (hidle : Idle s) :
    (serve rt e s).pipe = s.pipe ++ e.frames rt ∧ Idle (serve rt e s) := by
  have hstartup := runCalls_disarmed rt e.startup hidle.disarmed hidle.notEngaged
  have hserve : serve rt e s = finishRequest rt e.sapiCode e.success
      (runCalls rt e.calls (armStreaming (clearOutputBuffer (runCalls rt e.startup s)))) := by
    simp only [serve, Execution.calls, runCalls, List.foldl_append]
  have hrun := runCalls_armed rt e.calls
    (s := armStreaming (clearOutputBuffer (runCalls rt e.startup s))) rfl rfl e.sapiCode
  rw [hserve]
  refine ⟨?_, rfl, rfl⟩
  obtain ⟨hengaged, hbuffer, hpipe⟩ | ⟨hengaged, hhead, hchunks, hpipe⟩ := hrun
  · rw [finishRequest_engaged rt e.sapiCode e.success hengaged hbuffer, hpipe, List.append_assoc,
      List.append_assoc, ← hstartup]
    rfl
  · obtain ⟨hstatus, hheaders⟩ := Prod.ext_iff.1 hhead
    rw [finishRequest_buffered rt e.sapiCode e.success hengaged, hchunks, hpipe, ← hstartup]
    dsimp only at hstatus hheaders
    rw [hstatus, hheaders]
    rfl

/-! ## what a sequence of commands leaves on the pipe -/

/-- A command: its byte, the length of the payload, the payload. -/
def command (payload : Bytes) : Bytes := 0x01 :: (leBytes 4 payload.length ++ payload)

/-- The frames that answer a command. -/
def answerFrames (rt : Runtime) (php : DecodedRequest → Execution) (payload : Bytes) : Bytes :=
  match DecodedRequest.decode payload with
  | none => failedToDecode
  | some req => (php req).frames rt

/-- The command pipe ends the loop: it is closed, or brings the shutdown byte. -/
def EndsLoop (cmd : Bytes) : Prop := cmd = [] ∨ cmd.head? = some 0xFF

variable (rt : Runtime)

theorem loopPass_of_endsLoop {php : DecodedRequest → Execution} {cmd : Bytes}
    (h : EndsLoop cmd) (s : Output) : loopPass rt php s cmd = none := by
  obtain rfl | hhead := h
  · rfl
  · obtain ⟨rest, rfl⟩ := List.head?_eq_some_iff.1 hhead
    rfl

/-- **Step lemma.**  A command is answered in one pass. -/
theorem loopPass_command (php : DecodedRequest → Execution) {payload : Bytes}
    (hlen : payload.length < 2 ^ 32) {s : Output} (hidle : Idle s) (rest : Bytes) :
    ∃ s', loopPass rt php s (command payload ++ rest) = some (s', rest) ∧
      s'.pipe = s.pipe ++ answerFrames rt php payload ∧ Idle s' := by
  have hcode : ∀ bytes, readNat 1 (0x01 :: bytes) = some (1, bytes) := fun bytes => rfl
  have hsplit := splitOff_of_lt hlen rest
  simp only [loopPass, command, List.cons_append, List.append_assoc, hcode, Option.bind_eq_bind,
    Option.bind_some, readNat_leBytes, hsplit, answerFrames]
  cases DecodedRequest.decode payload with
  | none => exact ⟨_, rfl, rfl, hidle.disarmed, hidle.notEngaged⟩
  | some req => exact ⟨_, rfl, serve_pipe rt (php req) hidle⟩

/-- **Run lemma.**  The commands are answered one after the other. -/
theorem eventLoop_pipe (php : Nat → DecodedRequest → Execution) {payloads : List Bytes}
    {cmd : Bytes} (hcmd : EndsLoop cmd) (hlen : ∀ p ∈ payloads, p.length < 2 ^ 32)
    {fuel k : Nat} (hfuel : payloads.length < fuel) {s : Output} (hidle : Idle s) :
    (eventLoop rt php fuel k s (payloads.flatMap command ++ cmd)).pipe =
      s.pipe ++ (payloads.zipIdx k).flatMap fun p => answerFrames rt (php p.2) p.1 := by
  induction payloads generalizing fuel k s with
  | nil =>
    obtain ⟨n, rfl⟩ := Nat.exists_eq_add_one_of_ne_zero (Nat.ne_of_gt hfuel)
    rw [List.flatMap_nil, List.nil_append, eventLoop, loopPass_of_endsLoop rt hcmd,
      List.zipIdx_nil, List.flatMap_nil, List.append_nil]
  | cons payload payloads ih =>
    rw [List.forall_mem_cons] at hlen
    rw [List.length_cons] at hfuel
    obtain ⟨n, rfl⟩ := Nat.exists_eq_add_one_of_ne_zero (show fuel ≠ 0 by omega)
    obtain ⟨s', hpass, hpipe, hidle'⟩ := loopPass_command rt (php k) hlen.1 hidle
      (payloads.flatMap command ++ cmd)
    rw [List.flatMap_cons, List.append_assoc, eventLoop, hpass]
    dsimp only
    rw [ih hlen.2 (show payloads.length < n by omega) hidle', hpipe, List.zipIdx_cons,
      List.flatMap_cons, List.append_assoc]

theorem length_le_length_commands (payloads : List Bytes) :
    payloads.length ≤ (payloads.flatMap command).length := by
  induction payloads with
  | nil => exact Nat.le_refl 0
  | cons payload payloads ih =>
    rw [List.flatMap_cons, List.length_append, command, List.length_cons, List.length_cons]
    omega

/-- The worker's output: the ready signal, then the answers. -/
theorem workerOutput_eq (php : Nat → DecodedRequest → Execution) {payloads : List Bytes}
    {cmd : Bytes} (hcmd : EndsLoop cmd) (hlen : ∀ p ∈ payloads, p.length < 2 ^ 32) :
    workerOutput rt php (payloads.flatMap command ++ cmd) =
      readySignal ++ payloads.zipIdx.flatMap fun p => answerFrames rt (php p.2) p.1 := by
  have hle := length_le_length_commands payloads
  have hfuel : payloads.length < (payloads.flatMap command ++ cmd).length + 1 := by
    rw [List.length_append]
    omega
  exact eventLoop_pipe rt php hcmd hlen hfuel ⟨rfl, rfl⟩

/-! ## decoding what the worker writes -/

/-- The response a command should get. -/
def respond (rt : Runtime) (php : Nat → DecodedRequest → Execution) (k : Nat)
    (payload : Bytes) : PersistentResponse :=
  match DecodedRequest.decode payload with
  | none => ⟨500, [], utf8 "Failed to decode request"⟩
  | some req =>
    let e := php k req
    ⟨closingStatus e.success (e.recorded rt).1, (e.recorded rt).2, writtenBytes e.calls⟩

/-- The limits on what PHP does: at most 1024 headers, with names and values under
65536 bytes, and every write under `2 ^ 32` bytes. -/
structure Execution.Admissible (rt : Runtime) (e : Execution) : Prop where
  count : (e.recorded rt).2.length ≤ 1024
  texts : ∀ h ∈ (e.recorded rt).2, HeaderFits h
  writes : ∀ call ∈ e.calls, call.data.length < 2 ^ 32

/-- The bytes PHP writes before streaming engages fit the length of one chunk. -/
def Execution.BufferFits (rt : Runtime) (e : Execution) : Prop :=
  bufferedLength rt {} e.calls < 2 ^ 32

theorem decodeResponse_frames_of_fits {e : Execution} (hadm : e.Admissible rt)
    (hfits : e.BufferFits rt) (rest : Bytes) :
    decodeResponse (e.frames rt ++ rest) = .ok
      (⟨closingStatus e.success (e.recorded rt).1, (e.recorded rt).2, writtenBytes e.calls⟩,
        rest) := by
  have hbuffered : ([] : Bytes).length + bufferedLength rt {} e.calls < 2 ^ 32 := by
    rw [List.length_nil, Nat.zero_add]
    exact hfits
  have hchunks := length_lt_of_mem_bodyChunks hbuffered hadm.writes
  rw [Execution.frames, decodeResponse_frames hadm.count hadm.texts hchunks, flatten_bodyChunks,
    List.nil_append]

theorem decodeResponse_failedToDecode (rest : Bytes) :
    decodeResponse (failedToDecode ++ rest) =
      .ok (⟨500, [], utf8 "Failed to decode request"⟩, rest) := by
  have hlen : (utf8 "Failed to decode request").length = 24 := by decide
  have hchunks : ∀ chunk ∈ chunksOf (utf8 "Failed to decode request"), chunk.length < 2 ^ 32 := by
    intro chunk hchunk
    rw [eq_of_mem_chunksOf hchunk, hlen]
    omega
  have hstatus : closingStatus false 500 = 500 := by decide
  have hcount : ([] : List (String × String)).length ≤ 1024 := Nat.zero_le 1024
  rw [failedToDecode, writeResponse_eq, decodeResponse_frames hcount (List.forall_mem_nil _)
    hchunks, flatten_chunksOf, hstatus]

/-- Every command that meets the limits is answered by the response it should
get. -/
theorem decodeResponse_answerFrames {php : Nat → DecodedRequest → Execution} {k : Nat}
    {payload : Bytes} (h : ∀ req, DecodedRequest.decode payload = some req →
      (php k req).Admissible rt ∧ (php k req).BufferFits rt) (rest : Bytes) :
    decodeResponse (answerFrames rt (php k) payload ++ rest) =
      .ok (respond rt php k payload, rest) := by
  cases hdecode : DecodedRequest.decode payload with
  | none =>
    simp only [answerFrames, respond, hdecode]
    rw [decodeResponse_failedToDecode]
  | some req =>
    simp only [answerFrames, respond, hdecode]
    rw [decodeResponse_frames_of_fits rt (h req hdecode).1 (h req hdecode).2]

/-- **End to end.**  If no command makes PHP buffer `2 ^ 32` bytes or more, then
repeated decoding of what the worker writes after its ready signal gives one
response for each command, in order, and leaves nothing over. -/
theorem commands_answered_in_order (rt : Runtime) (php : Nat → DecodedRequest → Execution)
    (payloads : List Bytes) (cmd : Bytes) (hcmd : EndsLoop cmd)
    (hlen : ∀ p ∈ payloads, p.length < 2 ^ 32)
    (hadm : ∀ (k : Nat) (payload : Bytes), payloads[k]? = some payload →
      ∀ req, DecodedRequest.decode payload = some req → (php k req).Admissible rt)
    (hfits : ∀ (k : Nat) (payload : Bytes), payloads[k]? = some payload →
      ∀ req, DecodedRequest.decode payload = some req → (php k req).BufferFits rt) :
    decodeResponses payloads.length
        ((workerOutput rt php (payloads.flatMap command ++ cmd)).drop readySignal.length) =
      .ok (payloads.mapIdx (respond rt php), []) := by
  have hall : ∀ p ∈ payloads.zipIdx, ∀ rest,
      decodeResponse (answerFrames rt (php p.2) p.1 ++ rest) =
        .ok (respond rt php p.2 p.1, rest) := by
    intro p hp rest
    have hget := List.mem_zipIdx_iff_getElem?.1 hp
    exact decodeResponse_answerFrames rt (fun req hreq =>
      ⟨hadm p.2 p.1 hget req hreq, hfits p.2 p.1 hget req hreq⟩) rest
  have hdecode := decodeResponses_flatMap
    (fun p : Bytes × Nat => answerFrames rt (php p.2) p.1)
    (fun p => respond rt php p.2 p.1) hall []
  have hmap : payloads.mapIdx (respond rt php) =
      payloads.zipIdx.map fun p => respond rt php p.2 p.1 := List.mapIdx_eq_zipIdx_map
  rw [workerOutput_eq rt php hcmd hlen, List.drop_left, hmap]
  rw [List.length_zipIdx, List.append_nil] at hdecode
  exact hdecode

/-- A payload in which every length is zero: a request of empty strings. -/
def emptyPayload : Bytes := List.replicate 63 0

/-- A script that sets a header, writes, flushes and writes again. -/
def flushingScript : Execution where
  startup := []
  script := [.header 0 (some (utf8 "X-Id: 7")), .ubWrite [104] 200, .flush 200, .ubWrite [105] 200]
  cleanup := []
  shutdown := []
  sapiCode := 200
  success := true

theorem commands_answered_in_order_flushed :
    decodeResponses 2
        ((workerOutput ⟨true, id⟩ (fun _ _ => flushingScript)
          ([emptyPayload, [7]].flatMap command ++ [0xFF])).drop readySignal.length) =
      .ok ([⟨200, [("X-Id", "7")], [104, 105]⟩, ⟨500, [], utf8 "Failed to decode request"⟩],
        []) := by
  have hadm : flushingScript.Admissible ⟨true, id⟩ := ⟨by decide, by decide, by decide⟩
  have hfits : flushingScript.BufferFits ⟨true, id⟩ := by
    unfold Execution.BufferFits
    decide
  have hrespond : [emptyPayload, [7]].mapIdx (respond ⟨true, id⟩ fun _ _ => flushingScript) =
      [⟨200, [("X-Id", "7")], [104, 105]⟩, ⟨500, [], utf8 "Failed to decode request"⟩] := by
    decide
  rw [← hrespond]
  exact commands_answered_in_order ⟨true, id⟩ (fun _ _ => flushingScript) [emptyPayload, [7]]
    [0xFF] (.inr rfl) (by decide) (fun _ _ _ _ _ => hadm) (fun _ _ _ _ _ => hfits)

/-! ## the limits on the headers -/

/-- **Round trip, exactly.**  A response whose body fits one chunk reads back, with
all behind it untouched, iff it has at most 1024 headers and every name and value
is shorter than 65536 bytes; on both paths that write it. -/
theorem decodeResponse_written_iff (ok : Bool) (status : UInt16)
    (headers : List (String × String)) (body : Bytes) (hbody : body.length < 2 ^ 32)
    (rest : Bytes) :
    (decodeResponse (writeResponse ok status headers body ++ rest) =
        .ok (⟨closingStatus ok status, headers, body⟩, rest) ∧
      decodeResponse (closingBytes false ok status headers body ++ rest) =
        .ok (⟨closingStatus ok status, headers, body⟩, rest)) ↔
      headers.length ≤ 1024 ∧ ∀ h ∈ headers, HeaderFits h := by
  have hchunks : ∀ chunk ∈ chunksOf body, chunk.length < 2 ^ 32 := by
    intro chunk hchunk
    rw [eq_of_mem_chunksOf hchunk]
    exact hbody
  rw [closingBytes_buffered, and_self, writeResponse_eq]
  constructor
  · intro h
    rw [encodeResponse, List.append_assoc] at h
    exact headers_of_decodeResponse h
  · rintro ⟨hcount, hheaders⟩
    rw [decodeResponse_frames hcount hheaders hchunks, flatten_chunksOf]

theorem decodeResponse_written_twice :
    decodeResponse (writeResponse false 302 [("Location", "/")] [111, 107] ++
        writeResponse true 200 [] []) =
      .ok (⟨500, [("Location", "/")], [111, 107]⟩, writeResponse true 200 [] []) :=
  ((decodeResponse_written_iff false 302 [("Location", "/")] [111, 107] (by decide)
    (writeResponse true 200 [] [])).2 ⟨by decide, by decide⟩).1

/-- A script that sends one header line any number of times and writes nothing. -/
def headerLines (n : Nat) : Execution where
  startup := []
  script := List.replicate n (.header 1 (some (utf8 "X-Tag: 1")))
  cleanup := []
  shutdown := []
  sapiCode := 200
  success := true

theorem recorded_headerLines (n : Nat) :
    (headerLines n).recorded rt = (Head.status rt 200 {}, List.replicate n ("X-Tag", "1")) := by
  have hrun : ∀ head : Head, record rt head (List.replicate n
      (.header 1 (some (utf8 "X-Tag: 1")))) 200 =
        (head.status rt 200, head.headers ++ List.replicate n ("X-Tag", "1")) := by
    induction n with
    | zero => intro head; simp [record]
    | succ n ih =>
      intro head
      rw [List.replicate_succ, record]
      simp only [SapiCall.optsIn, SapiCall.headAfter, headerHandler_line, ih,
        List.replicate_succ, List.append_assoc, List.cons_append, List.nil_append]
      rfl
  rw [Execution.recorded, Execution.calls]
  simp only [headerLines, List.append_nil]
  exact hrun {}

/-- A script may send 1025 header lines, and both paths write them out, but the
master refuses the response. -/
theorem header_limit_refuses :
    (headerLines 1025).recorded ⟨true, id⟩ = (200, List.replicate 1025 ("X-Tag", "1")) ∧
    decodeResponse (writeResponse true 200 (List.replicate 1025 ("X-Tag", "1")) []) =
      .error (invalidData "invalid header_count=1025 — pipe desynced") ∧
    decodeResponse (closingBytes false true 200 (List.replicate 1025 ("X-Tag", "1")) []) =
      .error (invalidData "invalid header_count=1025 — pipe desynced") := by
  have hrefused : decodeResponse (writeResponse true 200 (List.replicate 1025 ("X-Tag", "1")) []) =
      .error (invalidData "invalid header_count=1025 — pipe desynced") := by
    have hlen : (List.replicate 1025 ("X-Tag", "1")).length = 1025 := List.length_replicate
    have hfits : ∀ h ∈ List.replicate 1025 ("X-Tag", "1"), HeaderFits h := by
      intro h hmem
      rw [List.eq_of_mem_replicate hmem]
      decide
    generalize List.replicate 1025 ("X-Tag", "1") = headers at hlen hfits
    rw [writeResponse_eq, encodeResponse,
      decodeResponse_tooManyHeaders (by omega) (by omega) hfits, hlen]
    rfl
  rw [closingBytes_buffered]
  exact ⟨recorded_headerLines ⟨true, id⟩ 1025, hrefused, hrefused⟩

/-! ## a body of four gigabytes -/

/-- Any number of writes, none of them under a header. -/
def plainWrites (writes : List Bytes) : Execution where
  startup := []
  script := writes.map fun bytes => .ubWrite bytes 200
  cleanup := []
  shutdown := []
  sapiCode := 200
  success := true

theorem calls_plainWrites (writes : List Bytes) :
    (plainWrites writes).calls = writes.map fun bytes => .ubWrite bytes 200 := by
  simp only [Execution.calls, plainWrites, List.append_nil]

theorem optsIn_plainWrite (bytes : Bytes) : (SapiCall.ubWrite bytes 200).optsIn {} = none := by
  simp [SapiCall.optsIn, headersRequestStreaming]

theorem recorded_plainWrites (writes : List Bytes) :
    (plainWrites writes).recorded rt = (Head.status rt 200 {}, []) := by
  rw [Execution.recorded, calls_plainWrites]
  induction writes with
  | nil => rfl
  | cons bytes writes ih =>
    rw [List.map_cons, record, optsIn_plainWrite]
    exact ih

theorem bodyChunks_plainWrites (pending : Bytes) (writes : List Bytes) :
    bodyChunks rt {} pending (plainWrites writes).calls = chunksOf (pending ++ writes.flatten) := by
  rw [calls_plainWrites]
  induction writes generalizing pending with
  | nil => rw [List.map_nil, bodyChunks, List.flatten_nil, List.append_nil]
  | cons bytes writes ih =>
    rw [List.map_cons, bodyChunks, optsIn_plainWrite, List.flatten_cons, ← List.append_assoc]
    exact ih (pending ++ bytes)

/-- Two writes that fill `2 ^ 32` bytes of the buffer with zeros: the chunk's length
is written as zero, and the body is taken for frames. -/
theorem decodeResponse_plainWrites {half : Bytes} (hlen : half.length = 2 ^ 31)
    (hhead : half.head? = some 0) (rest : Bytes) :
    decodeResponse ((plainWrites [half, half]).frames rt ++ rest) =
      .error (unknownDiscriminant 0) := by
  obtain ⟨tail, htail⟩ := List.head?_eq_some_iff.1 hhead
  have hbody : [half, half].flatten = 0 :: (tail ++ half) := by
    simp only [List.flatten_cons, List.flatten_nil, List.append_nil]
    rw [htail, List.cons_append]
  have hwrap : (0 :: (tail ++ half)).length % 2 ^ 32 = 0 := by
    rw [← hbody, List.flatten_cons, List.flatten_cons, List.flatten_nil, List.append_nil,
      List.length_append, hlen]
    decide
  rw [Execution.frames, recorded_plainWrites, bodyChunks_plainWrites, List.nil_append, hbody]
  exact decodeResponse_wrapped hwrap (by decide) true rest

/-- Each write is under `2 ^ 32` bytes, but the response cannot be decoded. -/
theorem long_body_desyncs :
    (plainWrites [List.replicate (2 ^ 31) 0, List.replicate (2 ^ 31) 0]).Admissible ⟨true, id⟩ ∧
    decodeResponses 1
        ((workerOutput ⟨true, id⟩
          (fun _ _ => plainWrites [List.replicate (2 ^ 31) 0, List.replicate (2 ^ 31) 0])
          ([emptyPayload].flatMap command ++ [])).drop readySignal.length) =
      .error (unknownDiscriminant 0) := by
  have hlen : (List.replicate (2 ^ 31) (0 : UInt8)).length = 2 ^ 31 := List.length_replicate
  have hhead : (List.replicate (2 ^ 31) (0 : UInt8)).head? = some 0 := by
    rw [List.head?_replicate, if_neg (by decide)]
  generalize List.replicate (2 ^ 31) (0 : UInt8) = half at hlen hhead
  constructor
  · have hrecorded := recorded_plainWrites ⟨true, id⟩ [half, half]
    refine ⟨by rw [hrecorded]; exact Nat.zero_le 1024, by rw [hrecorded]; simp, ?_⟩
    rw [calls_plainWrites]
    simp only [List.map_cons, List.map_nil, List.forall_mem_cons, SapiCall.data, hlen]
    decide
  · obtain ⟨req, hreq⟩ := Option.isSome_iff_exists.1
      (show (DecodedRequest.decode emptyPayload).isSome by decide)
    rw [workerOutput_eq ⟨true, id⟩ _ (.inl rfl) (by decide), List.drop_left, decodeResponses]
    simp only [List.zipIdx_singleton, List.flatMap_singleton, answerFrames, hreq]
    rw [← List.append_nil (Execution.frames _ _), decodeResponse_plainWrites _ hlen hhead]
    rfl

end Turbine.Persistent
