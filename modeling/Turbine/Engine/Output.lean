import Turbine.Base.Str
import Turbine.Streaming.Frame

/-!
# Turbine.Engine.Output

The output capture of the engine: the callbacks PHP calls to set headers, to
write and to flush, and the thread-locals they share with the worker's loop.
Output stays in a buffer until PHP opts in to streaming, by a flush or by a write
under a header that asks for it; from then on it goes to the response pipe as
frames.

* `runCalls_armed`: what any sequence of calls leaves on the pipe and in the
  buffers.
-/

namespace Turbine.Engine

open Base Streaming

/-! ## state -/

/-- What the callbacks read from outside: whether the engine is up, and Unicode's
lower-casing of strings. -/
structure Runtime where
  isInitialized : Bool
  toLowercase : String → String

/-- `HEADER_BUFFER` and `RESPONSE_CODE`. -/
structure Head where
  headers : List (String × String) := []
  responseCode : UInt16 := 200
deriving DecidableEq, Repr

/-- The thread-locals of the output capture, and all bytes written to the response
pipe.  `STREAM_FD` is armed with that pipe or with nothing. -/
structure Output where
  head : Head := {}
  outputBuffer : Bytes := []
  armed : Bool := false
  engaged : Bool := false
  pipe : Bytes := []
deriving DecidableEq, Repr

/-- `write_all_fd` on the response pipe. -/
def Output.write (s : Output) (bytes : Bytes) : Output := { s with pipe := s.pipe ++ bytes }

/-! ## headers -/

/-- The lines `SAPI_HEADER_REPLACE` and `SAPI_HEADER_ADD` bring. -/
def Head.addLine (head : Head) (replace : Bool) (line : String) : Head :=
  if startsWith line "HTTP/" then
    match (splitWhitespace line)[1]?.bind parseU16 with
    | some code => { head with responseCode := code }
    | none => head
  else match splitOnce line ':' with
    | some (name, value) =>
      let kept := if replace then
          head.headers.filter fun h => !eqIgnoreAsciiCase h.1 (trim name)
        else head.headers
      { head with headers := kept ++ [(trim name, trim value)] }
    | none => head

def Head.deleteLine (rt : Runtime) (head : Head) (line : String) : Head :=
  let name := rt.toLowercase (trim line)
  { head with headers := head.headers.filter fun h => rt.toLowercase h.1 ≠ name }

/-- `turbine_header_handler`.  The header's text is `none` for a null pointer. -/
def headerHandler (rt : Runtime) (op : Int) (text : Option Bytes) (head : Head) : Head :=
  if op = 3 then { head with headers := [] }
  else if op = 4 then head
  else match text.bind fun bytes =>
      if bytes.isEmpty then none else String.fromUTF8? bytes.toByteArray with
    | none => head
    | some line =>
      if op = 2 then head.deleteLine rt line
      else if op = 0 then head.addLine true line
      else if op = 1 then head.addLine false line
      else head

/-- `headers_request_streaming`. -/
def headersRequestStreaming (headers : List (String × String)) : Bool :=
  headers.any fun (k, v) =>
    (eqIgnoreAsciiCase k "Content-Type" &&
      startsWith (toAsciiLowercase (trimStart v)) "text/event-stream") ||
    (eqIgnoreAsciiCase k "X-Accel-Buffering" && eqIgnoreAsciiCase (trim v) "no")

/-! ## output -/

/-- `as u16` on a C integer. -/
def asU16 (code : Int) : UInt16 := .ofNat (code % 65536).toNat

/-- The status `emit_headers_frame` sends, when PHP's own response code is
`sapiCode`. -/
def Head.status (rt : Runtime) (sapiCode : Int) (head : Head) : UInt16 :=
  if head.responseCode ≠ 200 ∨ !rt.isInitialized then head.responseCode
  else if sapiCode > 0 then asU16 sapiCode
  else head.responseCode

/-- `emit_headers_frame`.  The engine has its own copy of the encoder; the bytes
are those of `encode_headers`. -/
def emitHeadersFrame (rt : Runtime) (sapiCode : Int) (s : Output) : Output :=
  { s with head := { s.head with headers := [] } }.write
    (encodeHeaders (s.head.status rt sapiCode) s.head.headers)

/-- `emit_body_chunk_frame`. -/
def emitBodyChunkFrame (chunk : Bytes) (s : Output) : Output :=
  s.write (encodeBodyChunkHeader chunk.length ++ chunk)

/-- `engage_streaming`. -/
def engageStreaming (rt : Runtime) (sapiCode : Int) (s : Output) : Output :=
  if !s.armed then s
  else if s.engaged then s
  else
    let s := emitHeadersFrame rt sapiCode { s with engaged := true }
    let pending := s.outputBuffer
    let s := { s with outputBuffer := [] }
    if pending.isEmpty then s else emitBodyChunkFrame pending s

/-- `turbine_ub_write`. -/
def ubWrite (rt : Runtime) (bytes : Bytes) (sapiCode : Int) (s : Output) : Output :=
  if bytes.isEmpty then s
  else if s.engaged then emitBodyChunkFrame bytes s
  else if s.armed && headersRequestStreaming s.head.headers then
    emitBodyChunkFrame bytes (engageStreaming rt sapiCode s)
  else { s with outputBuffer := s.outputBuffer ++ bytes }

/-- `turbine_sapi_flush`. -/
def sapiFlush (rt : Runtime) (sapiCode : Int) (s : Output) : Output :=
  if !s.armed then s else engageStreaming rt sapiCode s

/-! ## the worker's side -/

/-- `clear_output_buffer`. -/
def clearOutputBuffer (s : Output) : Output := { s with outputBuffer := [], head := {} }

/-- `arm_streaming`, with the response pipe. -/
def armStreaming (s : Output) : Output := { s with armed := true, engaged := false }

/-- `finish_streaming`. -/
def finishStreaming (s : Output) : Bool × Output :=
  (s.engaged, { s with armed := false, engaged := false })

/-- `take_output`. -/
def takeOutput (s : Output) : Bytes × Output := (s.outputBuffer, { s with outputBuffer := [] })

/-- `take_headers`. -/
def takeHeaders (s : Output) : List (String × String) × Output :=
  (s.head.headers, { s with head := { s.head with headers := [] } })

/-- `take_response_code`. -/
def takeResponseCode (rt : Runtime) (sapiCode : Int) (s : Output) : UInt16 × Output :=
  let captured := s.head.responseCode
  let code :=
    if captured ≠ 200 then captured
    else if !rt.isInitialized then captured
    else if sapiCode > 0 ∧ sapiCode ≠ 200 then asU16 sapiCode
    else captured
  (code, { s with head := { s.head with responseCode := 200 } })

/-- Both ends of a request send the same status. -/
theorem takeResponseCode_fst (rt : Runtime) (sapiCode : Int) (s : Output) :
    (takeResponseCode rt sapiCode s).1 = s.head.status rt sapiCode := by
  have h200 : asU16 200 = 200 := rfl
  simp only [takeResponseCode, Head.status]
  grind

/-! ## calls -/

/-- One call of PHP into the capture.  `read_sapi_response_code` may be read during
a write or a flush, so these carry what it would return. -/
inductive SapiCall
  | header (op : Int) (text : Option Bytes)
  | ubWrite (bytes : Bytes) (sapiCode : Int)
  | flush (sapiCode : Int)

def SapiCall.apply (rt : Runtime) (s : Output) : SapiCall → Output
  | .header op text => { s with head := headerHandler rt op text s.head }
  | .ubWrite bytes sapiCode => Engine.ubWrite rt bytes sapiCode s
  | .flush sapiCode => sapiFlush rt sapiCode s

/-- The calls one after the other. -/
def runCalls (rt : Runtime) (calls : List SapiCall) (s : Output) : Output :=
  calls.foldl (SapiCall.apply rt) s

/-- The bytes a call brings. -/
def SapiCall.data : SapiCall → Bytes
  | .ubWrite bytes _ => bytes
  | .header .. | .flush _ => []

/-- The headers and the code after a call. -/
def SapiCall.headAfter (rt : Runtime) (head : Head) : SapiCall → Head
  | .header op text => headerHandler rt op text head
  | .ubWrite .. | .flush _ => head

/-- PHP's own response code at a call that engages streaming. -/
def SapiCall.optsIn (head : Head) : SapiCall → Option Int
  | .header .. => none
  | .ubWrite bytes sapiCode =>
    if !bytes.isEmpty && headersRequestStreaming head.headers then some sapiCode else none
  | .flush sapiCode => some sapiCode

/-! ## what a request's calls amount to -/

/-- The status and the headers of a request: those when streaming engages or,
with `endCode` as PHP's own response code, those at the end. -/
def record (rt : Runtime) : Head → List SapiCall → Int → UInt16 × List (String × String)
  | head, [], endCode => (head.status rt endCode, head.headers)
  | head, call :: calls, endCode =>
    match call.optsIn head with
    | some sapiCode => (head.status rt sapiCode, head.headers)
    | none => record rt (call.headAfter rt head) calls endCode

/-- The number of bytes written before streaming engages, or in all if it never
does. -/
def bufferedLength (rt : Runtime) : Head → List SapiCall → Nat
  | _, [] => 0
  | head, call :: calls =>
    match call.optsIn head with
    | some _ => 0
    | none => call.data.length + bufferedLength rt (call.headAfter rt head) calls

/-- The pieces the body is sent in: the bytes from before streaming engages, then
one piece for each write. -/
def bodyChunks (rt : Runtime) : Head → Bytes → List SapiCall → List Bytes
  | _, pending, [] => chunksOf pending
  | head, pending, call :: calls =>
    match call.optsIn head with
    | some _ => chunksOf pending ++ (call :: calls).flatMap fun call => chunksOf call.data
    | none => bodyChunks rt (call.headAfter rt head) (pending ++ call.data) calls

/-- All that a request writes. -/
def writtenBytes (calls : List SapiCall) : Bytes := calls.flatMap SapiCall.data

/-- The chunks of every write are the writes. -/
theorem flatten_flatMap_chunksOf (calls : List SapiCall) :
    (calls.flatMap fun call => chunksOf call.data).flatten = writtenBytes calls := by
  induction calls with
  | nil => rfl
  | cons call calls ih =>
    rw [List.flatMap_cons, List.flatten_append, flatten_chunksOf, ih, writtenBytes, writtenBytes,
      List.flatMap_cons]

/-- The pieces make up all that was written. -/
theorem flatten_bodyChunks (rt : Runtime) (head : Head) (pending : Bytes) (calls : List SapiCall) :
    (bodyChunks rt head pending calls).flatten = pending ++ writtenBytes calls := by
  induction calls generalizing head pending with
  | nil => rw [bodyChunks, flatten_chunksOf, writtenBytes, List.flatMap_nil, List.append_nil]
  | cons call calls ih =>
    rw [bodyChunks]
    split
    · rw [List.flatten_append, flatten_chunksOf, flatten_flatMap_chunksOf]
    · rw [ih, writtenBytes, writtenBytes, List.flatMap_cons, List.append_assoc]

/-- A bound on what is buffered and on every write bounds every piece. -/
theorem length_lt_of_mem_bodyChunks {rt : Runtime} {head : Head} {pending : Bytes}
    {calls : List SapiCall} {n : Nat}
    (hbuffered : pending.length + bufferedLength rt head calls < n)
    (hwrites : ∀ call ∈ calls, call.data.length < n) :
    ∀ chunk ∈ bodyChunks rt head pending calls, chunk.length < n := by
  induction calls generalizing head pending with
  | nil =>
    intro chunk hchunk
    rw [eq_of_mem_chunksOf hchunk]
    exact hbuffered
  | cons call calls ih =>
    rw [bufferedLength] at hbuffered
    rw [bodyChunks]
    split
    · intro chunk hchunk
      obtain hpending | hwrite := List.mem_append.1 hchunk
      · rw [eq_of_mem_chunksOf hpending]
        omega
      · obtain ⟨call', hcall', hmem⟩ := List.mem_flatMap.1 hwrite
        rw [eq_of_mem_chunksOf hmem]
        exact hwrites call' hcall'
    · next hnone =>
      rw [hnone] at hbuffered
      have hlen : (pending ++ call.data).length +
          bufferedLength rt (call.headAfter rt head) calls < n := by
        rw [List.length_append]
        dsimp only at hbuffered
        omega
      exact ih hlen fun call' hcall' => hwrites call' (List.mem_cons_of_mem call hcall')

/-! ## one call -/

/-- The bytes of a text as body frames. -/
def chunkFrames (bytes : Bytes) : Bytes := (chunksOf bytes).flatMap encodeBodyChunk

/-- A frame for the bytes, unless there are none. -/
theorem emit_unless_empty (bytes : Bytes) (s : Output) :
    (if bytes.isEmpty then s else emitBodyChunkFrame bytes s) = s.write (chunkFrames bytes) := by
  unfold chunkFrames chunksOf
  split
  · rw [List.flatMap_nil, Output.write, List.append_nil]
  · rw [List.flatMap_singleton]
    rfl

theorem write_write (s : Output) (b b' : Bytes) : (s.write b).write b' = s.write (b ++ b') := by
  simp only [Output.write, List.append_assoc]

variable (rt : Runtime) {s : Output} (call : SapiCall) (calls : List SapiCall) {sapiCode : Int}

/-- The thread-locals right after streaming has engaged. -/
def Output.drained (s : Output) : Output :=
  { s with head := { s.head with headers := [] }, outputBuffer := [], engaged := true }

/-- `engage_streaming` on an armed pipe: the headers, then what is pending. -/
theorem engageStreaming_armed (harmed : s.armed = true) (hengaged : s.engaged = false) :
    engageStreaming rt sapiCode s = s.drained.write
      (encodeHeaders (s.head.status rt sapiCode) s.head.headers ++ chunkFrames s.outputBuffer) := by
  rw [engageStreaming, if_neg (by simp [harmed]), if_neg (by simp [hengaged])]
  dsimp only
  rw [emit_unless_empty, ← write_write]
  rfl

theorem engageStreaming_engaged (hengaged : s.engaged = true) :
    engageStreaming rt sapiCode s = s := by
  rw [engageStreaming, if_pos hengaged, ite_self]

/-- **Step lemma.**  While streaming, a call puts its bytes on the pipe. -/
theorem apply_engaged (hengaged : s.engaged = true) :
    call.apply rt s =
      { s with head := call.headAfter rt s.head }.write (chunkFrames call.data) := by
  rw [← emit_unless_empty]
  cases call with
  | header op text => rfl
  | ubWrite bytes sapiCode =>
    rw [SapiCall.apply, ubWrite, if_pos hengaged]
    rfl
  | flush sapiCode =>
    rw [SapiCall.apply, sapiFlush, engageStreaming_engaged rt hengaged, ite_self]
    rfl

/-- **Step lemma.**  A call that opts in sends the headers, what is pending and its
own bytes. -/
theorem apply_optsIn {call : SapiCall} (harmed : s.armed = true) (hengaged : s.engaged = false)
    (hopts : call.optsIn s.head = some sapiCode) :
    call.apply rt s = s.drained.write
      (encodeHeaders (s.head.status rt sapiCode) s.head.headers ++ chunkFrames s.outputBuffer ++
        chunkFrames call.data) := by
  rw [← write_write, ← engageStreaming_armed rt harmed hengaged, ← emit_unless_empty]
  cases call with
  | header op text => contradiction
  | ubWrite bytes code =>
    rw [SapiCall.optsIn, Option.ite_none_right_eq_some, Bool.and_eq_true,
      Bool.not_eq_true'] at hopts
    obtain ⟨⟨hbytes, hrequest⟩, hcode⟩ := hopts
    have hopen : (s.armed && headersRequestStreaming s.head.headers) = true := by
      rw [harmed, hrequest, Bool.and_self]
    have hne : ¬ bytes.isEmpty = true := by rw [hbytes]; decide
    rw [SapiCall.apply, ubWrite, if_neg hne, if_neg (by simp [hengaged]), if_pos hopen,
      Option.some.inj hcode, SapiCall.data, if_neg hne]
  | flush code =>
    rw [SapiCall.apply, sapiFlush, if_neg (by simp [harmed]), Option.some.inj hopts]
    rfl

/-- **Step lemma.**  Any other call is kept in the buffers; so is every call while
the pipe is not armed. -/
theorem apply_buffers (hengaged : s.engaged = false)
    (hopts : s.armed = false ∨ call.optsIn s.head = none) :
    call.apply rt s =
      { s with
        head := call.headAfter rt s.head
        outputBuffer := s.outputBuffer ++ call.data } := by
  cases call with
  | header op text =>
    rw [SapiCall.data, List.append_nil]
    rfl
  | ubWrite bytes code =>
    rw [SapiCall.apply, ubWrite, SapiCall.data]
    by_cases hbytes : bytes.isEmpty
    · rw [if_pos hbytes, List.isEmpty_iff.1 hbytes, List.append_nil]
      rfl
    · have hclosed : ¬ (s.armed && headersRequestStreaming s.head.headers) = true := by
        simp only [SapiCall.optsIn, hbytes] at hopts
        grind
      rw [if_neg hbytes, if_neg (by simp [hengaged]), if_neg hclosed]
      rfl
  | flush code =>
    obtain harmed | hnone := hopts
    · rw [SapiCall.apply, sapiFlush, if_pos (by simp [harmed]), SapiCall.data, List.append_nil]
      rfl
    · contradiction

/-! ## whole runs -/

/-- **Run lemma.**  While streaming, every call's bytes go to the pipe and nothing
is buffered. -/
theorem runCalls_engaged (hengaged : s.engaged = true) :
    (runCalls rt calls s).engaged = true ∧
    (runCalls rt calls s).outputBuffer = s.outputBuffer ∧
    (runCalls rt calls s).pipe =
      s.pipe ++ (calls.flatMap fun call => chunksOf call.data).flatMap encodeBodyChunk := by
  induction calls generalizing s with
  | nil => exact ⟨hengaged, rfl, (List.append_nil _).symm⟩
  | cons call calls ih =>
    have hstep := apply_engaged rt call hengaged
    have htail := ih (s := call.apply rt s) (by rw [hstep]; exact hengaged)
    rw [runCalls, List.foldl_cons]
    refine ⟨htail.1, ?_, ?_⟩
    · rw [← runCalls, htail.2.1, hstep]
      rfl
    · rw [← runCalls, htail.2.2, hstep, List.flatMap_cons, List.flatMap_append, ← List.append_assoc]
      rfl

/-- **Run lemma.**  With nothing armed, nothing reaches the pipe. -/
theorem runCalls_disarmed (harmed : s.armed = false) (hengaged : s.engaged = false) :
    (runCalls rt calls s).pipe = s.pipe := by
  induction calls generalizing s with
  | nil => rfl
  | cons call calls ih =>
    have hstep := apply_buffers rt call hengaged (.inl harmed)
    rw [runCalls, List.foldl_cons, ← runCalls, ih (by rw [hstep]; exact harmed)
      (by rw [hstep]; exact hengaged), hstep]

/-- **Run lemma.**  From an armed pipe, either the calls engage streaming, and
headers and body are on the pipe, or they do not, and both are in the buffers. -/
theorem runCalls_armed (harmed : s.armed = true) (hengaged : s.engaged = false) (endCode : Int) :
    ((runCalls rt calls s).engaged = true ∧
      (runCalls rt calls s).outputBuffer = [] ∧
      (runCalls rt calls s).pipe =
        s.pipe ++ (encodeHeaders (record rt s.head calls endCode).1
            (record rt s.head calls endCode).2 ++
          (bodyChunks rt s.head s.outputBuffer calls).flatMap encodeBodyChunk)) ∨
    ((runCalls rt calls s).engaged = false ∧
      ((runCalls rt calls s).head.status rt endCode, (runCalls rt calls s).head.headers) =
        record rt s.head calls endCode ∧
      chunksOf (runCalls rt calls s).outputBuffer = bodyChunks rt s.head s.outputBuffer calls ∧
      (runCalls rt calls s).pipe = s.pipe) := by
  induction calls generalizing s with
  | nil => exact .inr ⟨hengaged, rfl, rfl, rfl⟩
  | cons call calls ih =>
    rw [runCalls, List.foldl_cons, ← runCalls, record, bodyChunks]
    cases hopts : call.optsIn s.head with
    | some sapiCode =>
      have hstep := apply_optsIn rt harmed hengaged hopts
      obtain ⟨htrue, hbuffer, hpipe⟩ :=
        runCalls_engaged rt calls (s := call.apply rt s) (by rw [hstep]; rfl)
      refine .inl ⟨htrue, by rw [hbuffer, hstep]; rfl, ?_⟩
      rw [hpipe, hstep]
      simp only [Output.write, Output.drained, chunkFrames, List.flatMap_cons,
        List.flatMap_append, List.append_assoc]
    | none =>
      have hstep := apply_buffers rt call hengaged (.inr hopts)
      have htail := ih (s := call.apply rt s) (by rw [hstep]; exact harmed)
        (by rw [hstep]; exact hengaged)
      rw [hstep] at htail ⊢
      exact htail

/-- A line that adds a header. -/
theorem headerHandler_line (head : Head) :
    headerHandler rt 1 (some (utf8 "X-Tag: 1")) head =
      { head with headers := head.headers ++ [("X-Tag", "1")] } := by
  have htext : ((some (utf8 "X-Tag: 1")).bind fun bytes =>
      if bytes.isEmpty then none else String.fromUTF8? bytes.toByteArray) =
        some "X-Tag: 1" := by decide
  have hhttp : startsWith "X-Tag: 1" "HTTP/" = false := by decide
  have hsplit : splitOnce "X-Tag: 1" ':' = some ("X-Tag", " 1") := by decide
  have hname : trim "X-Tag" = "X-Tag" := by decide
  have hvalue : trim " 1" = "1" := by decide
  simp only [headerHandler, htext, Head.addLine, hhttp, hsplit, hname, hvalue]
  rfl

/-- The line, any number of times. -/
theorem runCalls_headerLines (n : Nat) (s : Output) :
    runCalls rt (List.replicate n (.header 1 (some (utf8 "X-Tag: 1")))) s =
      { s with head := { s.head with
          headers := s.head.headers ++ List.replicate n ("X-Tag", "1") } } := by
  induction n generalizing s with
  | zero => simp [runCalls]
  | succ n ih =>
    rw [List.replicate_succ, runCalls, List.foldl_cons, ← runCalls, ih, SapiCall.apply,
      headerHandler_line, List.replicate_succ]
    simp only [List.append_assoc, List.singleton_append]

end Turbine.Engine
