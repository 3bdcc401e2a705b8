import Turbine.Wire.Header

/-!
# Turbine.Streaming.Frame

The frames on a persistent worker's response pipe: `encode_headers`,
`encode_body_chunk`, `encode_end` and `encode_error` on the worker's side,
`read_frame_async` on the master's.  A frame starts with a discriminant byte;
lengths inside it are little-endian and are cut to the width of their field.

* `readFrame_encode`: a frame whose lengths fit is read back, and the reader
  stops right behind it;
* `readFrame_of_unknown`: any other discriminant is refused.
-/

namespace Turbine.Streaming

open Base Wire

/-! ## frames -/

/-- `Frame`. -/
inductive Frame
  | headers (httpStatus : UInt16) (headers : List (String × String))
  | bodyChunk (chunk : Bytes)
  | endFrame (ok : Bool)
  | error (msg : Bytes)
deriving DecidableEq, Repr

def frameHeaders : UInt8 := 0x10
def frameBodyChunk : UInt8 := 0x11
def frameEnd : UInt8 := 0x12
def frameError : UInt8 := 0x13

/-- `encode_headers`. -/
def encodeHeaders (httpStatus : UInt16) (headers : List (String × String)) : Bytes :=
  frameHeaders :: (leBytes 2 httpStatus.toNat ++ leBytes 4 headers.length ++
    headers.flatMap writeHeaderPair)

/-- `encode_body_chunk_header`, and the first five bytes of `encode_body_chunk`. -/
def encodeBodyChunkHeader (chunkLen : Nat) : Bytes := frameBodyChunk :: leBytes 4 chunkLen

/-- `encode_body_chunk`. -/
def encodeBodyChunk (chunk : Bytes) : Bytes := encodeBodyChunkHeader chunk.length ++ chunk

/-- `encode_end`. -/
def encodeEnd (ok : Bool) : Bytes := [frameEnd, if ok then 1 else 0]

/-- `encode_error`. -/
def encodeError (msg : Bytes) : Bytes := frameError :: (leBytes 4 msg.length ++ msg)

/-- A body in one piece makes one chunk, or none if it is empty. -/
def chunksOf (body : Bytes) : List Bytes := if body.isEmpty then [] else [body]

theorem flatten_chunksOf (body : Bytes) : (chunksOf body).flatten = body := by
  cases body <;> simp [chunksOf]

theorem eq_of_mem_chunksOf {body chunk : Bytes} (h : chunk ∈ chunksOf body) : chunk = body := by
  cases body <;> simp_all [chunksOf]

/-! ## reading -/

/-- The kinds of `io::Error` the readers return. -/
inductive ErrorKind
  | unexpectedEof
  | invalidData
deriving DecidableEq, Repr

/-- `io::Error`. -/
structure IoError where
  kind : ErrorKind
  message : String
deriving DecidableEq, Repr

/-- What `read_exact` returns when the bytes end too soon. -/
def earlyEof : IoError := ⟨.unexpectedEof, "early eof"⟩

/-- One `read_exact` of a reader. -/
def readExact {α : Type} (result : Option α) : Except IoError α := result.elim (.error earlyEof) .ok

@[simp] theorem readExact_some {α : Type} (a : α) : readExact (some a) = .ok a := rfl

theorem readExact_some_bind {α β : Type} (a : α) (f : α → Except IoError β) :
    (readExact (some a) >>= f) = f a := rfl

/-- A byte as `{:02x}` prints it. -/
def hexByte (b : UInt8) : String :=
  String.ofList [Nat.digitChar (b.toNat / 16), Nat.digitChar (b.toNat % 16)]

def unknownDiscriminant (other : UInt8) : IoError :=
  ⟨.invalidData, "unknown stream frame discriminant: 0x" ++ hexByte other⟩

/-- `read_frame_async`: the next frame and the bytes behind it; `none` if there
are no bytes at all. -/
def readFrame : Bytes → Except IoError (Option (Frame × Bytes))
  | [] => .ok none
  | discr :: bytes =>
    if discr = frameHeaders then do
      let (status, bytes) ← readExact (readNat 2 bytes)
      let (headerCount, bytes) ← readExact (readNat 4 bytes)
      let (headers, bytes) ← readExact (readMany readHeaderPair headerCount bytes)
      .ok (some (.headers (.ofNat status) headers, bytes))
    else if discr = frameBodyChunk then do
      let (chunkLen, bytes) ← readExact (readNat 4 bytes)
      let (chunk, bytes) ← readExact (splitOff chunkLen bytes)
      .ok (some (.bodyChunk chunk, bytes))
    else if discr = frameEnd then do
      let (ok, bytes) ← readExact (readNat 1 bytes)
      .ok (some (.endFrame (ok != 0), bytes))
    else if discr = frameError then do
      let (msgLen, bytes) ← readExact (readNat 4 bytes)
      let (msg, bytes) ← readExact (splitOff msgLen bytes)
      .ok (some (.error msg, bytes))
    else .error (unknownDiscriminant discr)

/-- What comes after a successful `read_exact`. -/
theorem readExact_bind_eq_ok {α β : Type} {result : Option α} {f : α → Except IoError β} {b : β} :
    readExact result >>= f = .ok b ↔ ∃ a, result = some a ∧ f a = .ok b := by
  cases result with
  | none => simp [readExact, bind, Except.bind]
  | some a => simp [bind, Except.bind]

theorem readFrame_cons_ne_none (discr : UInt8) (bytes : Bytes) :
    readFrame (discr :: bytes) ≠ .ok none := by
  intro h
  rw [readFrame] at h
  split_ifs at h <;> simp [readExact_bind_eq_ok] at h

theorem suffix_of_readFrame {discr : UInt8} {bytes rest : Bytes} {frame : Frame}
    (h : readFrame (discr :: bytes) = .ok (some (frame, rest))) : rest <:+ bytes := by
  rw [readFrame] at h
  split_ifs at h
  · simp only [readExact_bind_eq_ok, Except.ok.injEq, Option.some.injEq, Prod.mk.injEq,
      Prod.exists] at h
    obtain ⟨_, _, hstatus, _, _, hcount, _, _, hheaders, -, rfl⟩ := h
    exact (suffix_of_readMany suffix_of_readHeaderPair hheaders).trans
      ((suffix_of_readNat hcount).trans (suffix_of_readNat hstatus))
  · simp only [readExact_bind_eq_ok, Except.ok.injEq, Option.some.injEq, Prod.mk.injEq,
      Prod.exists] at h
    obtain ⟨_, _, hlen, _, _, hchunk, -, rfl⟩ := h
    exact (suffix_of_splitOff hchunk).trans (suffix_of_readNat hlen)
  · simp only [readExact_bind_eq_ok, Except.ok.injEq, Option.some.injEq, Prod.mk.injEq,
      Prod.exists] at h
    obtain ⟨_, _, hok, -, rfl⟩ := h
    exact suffix_of_readNat hok
  · simp only [readExact_bind_eq_ok, Except.ok.injEq, Option.some.injEq, Prod.mk.injEq,
      Prod.exists] at h
    obtain ⟨_, _, hlen, _, _, hmsg, -, rfl⟩ := h
    exact (suffix_of_splitOff hmsg).trans (suffix_of_readNat hlen)

theorem length_lt_of_readFrame {bytes rest : Bytes} {frame : Frame}
    (h : readFrame bytes = .ok (some (frame, rest))) : rest.length < bytes.length := by
  cases bytes with
  | nil => cases h
  | cons discr bytes => exact Nat.lt_succ_of_le (suffix_of_readFrame h).length_le

/-! ## what reads back -/

/-- The bytes of a frame. -/
def Frame.encode : Frame → Bytes
  | .headers httpStatus hs => encodeHeaders httpStatus hs
  | .bodyChunk chunk => encodeBodyChunk chunk
  | .endFrame ok => encodeEnd ok
  | .error msg => encodeError msg

/-- Every length and count of the frame fits its field. -/
def Frame.Fits : Frame → Prop
  | .headers _ hs => hs.length < 2 ^ 32 ∧ ∀ h ∈ hs, HeaderFits h
  | .bodyChunk chunk => chunk.length < 2 ^ 32
  | .endFrame _ => True
  | .error msg => msg.length < 2 ^ 32

/-- Bytes behind a 32-bit length are read back if the length fits. -/
theorem splitOff_of_lt {bytes : Bytes} (h : bytes.length < 2 ^ 32) (rest : Bytes) :
    splitOff (bytes.length % 256 ^ 4) (bytes ++ rest) = some (bytes, rest) :=
  splitOff_append (Nat.mod_eq_of_lt h).symm

/-- What is read of a headers frame, whatever its counts and lengths: the reader
takes as many headers as the 32-bit count says. -/
theorem readFrame_encodeHeaders_eq (httpStatus : UInt16) (headers : List (String × String))
    (rest : Bytes) :
    readFrame (encodeHeaders httpStatus headers ++ rest) = (do
      let (headers, bytes) ← readExact (readMany readHeaderPair (headers.length % 256 ^ 4)
        (headers.flatMap writeHeaderPair ++ rest))
      .ok (some (.headers httpStatus headers, bytes))) := by
  rw [encodeHeaders, List.cons_append, readFrame, if_pos rfl, List.append_assoc,
    List.append_assoc, readNat_leBytes]
  simp only [readExact_some, readNat_leBytes, uint16_ofNat_mod, bind, Except.bind]

theorem readFrame_encodeHeaders {httpStatus : UInt16} {headers : List (String × String)}
    (hcount : headers.length < 2 ^ 32) (hheaders : ∀ h ∈ headers, HeaderFits h) (rest : Bytes) :
    readFrame (encodeHeaders httpStatus headers ++ rest) =
      .ok (some (.headers httpStatus headers, rest)) := by
  have hread : readMany readHeaderPair (headers.length % 256 ^ 4)
      (headers.flatMap writeHeaderPair ++ rest) = some (headers, rest) :=
    readMany_headerPairs_iff.2 ⟨hcount, hheaders, rfl⟩
  rw [readFrame_encodeHeaders_eq, hread]
  rfl

/-- A headers frame that is read at all is read as a headers frame. -/
theorem readFrame_encodeHeaders_inv {httpStatus : UInt16} {headers : List (String × String)}
    {frame : Frame} {rest rest' : Bytes}
    (h : readFrame (encodeHeaders httpStatus headers ++ rest) = .ok (some (frame, rest'))) :
    ∃ headers', frame = .headers httpStatus headers' ∧
      readMany readHeaderPair (headers.length % 256 ^ 4)
        (headers.flatMap writeHeaderPair ++ rest) = some (headers', rest') := by
  rw [readFrame_encodeHeaders_eq] at h
  cases hread : readMany readHeaderPair (headers.length % 256 ^ 4)
      (headers.flatMap writeHeaderPair ++ rest) with
  | none =>
    rw [hread] at h
    cases h
  | some result =>
    rw [hread] at h
    cases h
    exact ⟨result.1, rfl, rfl⟩

/-- What is read of a chunk, whatever its length: as much as the 32-bit length
says. -/
theorem readFrame_encodeBodyChunk_eq (chunk rest : Bytes) :
    readFrame (encodeBodyChunk chunk ++ rest) = .ok (some
      (.bodyChunk (chunk.take (chunk.length % 2 ^ 32)),
        chunk.drop (chunk.length % 2 ^ 32) ++ rest)) := by
  have hlen : chunk.length % 256 ^ 4 = chunk.length % 2 ^ 32 := rfl
  rw [encodeBodyChunk, encodeBodyChunkHeader, List.cons_append, List.cons_append, readFrame,
    if_neg (by decide), if_pos rfl, List.append_assoc, readNat_leBytes, hlen]
  simp only [readExact_some, splitOff_append_of_le (Nat.mod_le _ _), bind, Except.bind]

theorem readFrame_encodeBodyChunk {chunk : Bytes} (h : chunk.length < 2 ^ 32) (rest : Bytes) :
    readFrame (encodeBodyChunk chunk ++ rest) = .ok (some (.bodyChunk chunk, rest)) := by
  rw [readFrame_encodeBodyChunk_eq, Nat.mod_eq_of_lt h, List.take_length, List.drop_length,
    List.nil_append]

theorem readFrame_encodeEnd (ok : Bool) (rest : Bytes) :
    readFrame (encodeEnd ok ++ rest) = .ok (some (.endFrame ok, rest)) := by
  cases ok <;> rfl

theorem readFrame_encodeError {msg : Bytes} (h : msg.length < 2 ^ 32) (rest : Bytes) :
    readFrame (encodeError msg ++ rest) = .ok (some (.error msg, rest)) := by
  rw [encodeError, List.cons_append, readFrame, if_neg (by decide), if_neg (by decide),
    if_neg (by decide), if_pos rfl, List.append_assoc, readNat_leBytes]
  simp only [readExact_some, splitOff_of_lt h, bind, Except.bind]

/-- **Round trip.**  A frame whose lengths fit is read back, with what follows it
untouched. -/
theorem readFrame_encode {frame : Frame} (h : frame.Fits) (rest : Bytes) :
    readFrame (frame.encode ++ rest) = .ok (some (frame, rest)) := by
  cases frame with
  | headers httpStatus headers => exact readFrame_encodeHeaders h.1 h.2 rest
  | bodyChunk chunk => exact readFrame_encodeBodyChunk h rest
  | endFrame ok => exact readFrame_encodeEnd ok rest
  | error msg => exact readFrame_encodeError h rest

/-- A byte that is no discriminant is refused. -/
theorem readFrame_of_unknown {b : UInt8}
    (h : b ∉ [frameHeaders, frameBodyChunk, frameEnd, frameError]) (bytes : Bytes) :
    readFrame (b :: bytes) = .error (unknownDiscriminant b) := by
  simp only [List.mem_cons, List.not_mem_nil, or_false, not_or] at h
  rw [readFrame, if_neg h.1, if_neg h.2.1, if_neg h.2.2.1, if_neg h.2.2.2]

end Turbine.Streaming
