import Turbine.Streaming.Frame

/-!
# Turbine.Persistent.Response

Responses of a persistent worker: `write_response` puts one together out of
frames, `decode_response_async` takes frames off the pipe until one of them
closes the response.

* `decodeResponse_frames`: a headers frame, any number of chunks and an end frame
  decode to one response, and nothing behind them is touched;
* `decodeResponses_flatMap`: so do any number of responses, one after the other.
-/

namespace Turbine.Persistent

open Base Wire Streaming

/-! ## decoding -/

/-- `PersistentResponse`. -/
structure PersistentResponse where
  status : UInt16
  headers : List (String × String)
  body : Bytes
deriving DecidableEq, Repr

/-- The variables of `decode_response_async`'s loop. -/
structure Assembly where
  status : UInt16 := 0
  headers : List (String × String) := []
  body : Bytes := []
  gotHeaders : Bool := false

/-- The status once the end frame is in: a failed execution turns a 2xx or 3xx
status into 500. -/
def closingStatus (ok : Bool) (status : UInt16) : UInt16 :=
  if !ok && (200 ≤ status && status < 400) then 500 else status

def invalidData (message : String) : IoError := ⟨.invalidData, "decode_response_async: " ++ message⟩

/-- One turn of the loop: the variables after the frame, or the response. -/
def Assembly.take (a : Assembly) : Frame → Except IoError (Assembly ⊕ PersistentResponse)
  | .headers httpStatus hs =>
    if a.gotHeaders then .error (invalidData "duplicate Headers frame")
    else if hs.length > 1024 then
      .error (invalidData
        ("invalid header_count=" ++ toString hs.length ++ " — pipe desynced"))
    else .ok (.inl { a with status := httpStatus, headers := hs, gotHeaders := true })
  | .bodyChunk chunk =>
    if !a.gotHeaders then .error (invalidData "BodyChunk before Headers")
    else .ok (.inl { a with body := a.body ++ chunk })
  | .endFrame ok =>
    if !a.gotHeaders then .error (invalidData "End before Headers")
    else .ok (.inr ⟨closingStatus ok a.status, a.headers, a.body⟩)
  | .error msg => .ok (.inr ⟨500, [], msg⟩)

def pipeClosed : IoError := ⟨.unexpectedEof, "decode_response_async: pipe closed before End frame"⟩

/-- The loop of `decode_response_async`.  A turn takes at least one byte, so the
first argument never runs out when it exceeds the number of bytes. -/
def decodeLoop : Nat → Assembly → Bytes →
    Except IoError (PersistentResponse × Bytes)
  | 0, _, _ => .error pipeClosed
  | fuel + 1, a, bytes => do
    match ← readFrame bytes with
    | none => .error pipeClosed
    | some (frame, bytes) =>
      match ← a.take frame with
      | .inl a => decodeLoop fuel a bytes
      | .inr response => .ok (response, bytes)

/-- `decode_response_async`: a response and the bytes behind it. -/
def decodeResponse (bytes : Bytes) : Except IoError (PersistentResponse × Bytes) :=
  decodeLoop (bytes.length + 1) {} bytes

/-- As many calls of `decode_response_async` in a row. -/
def decodeResponses : Nat → Bytes → Except IoError (List PersistentResponse × Bytes)
  | 0, bytes => .ok ([], bytes)
  | n + 1, bytes => do
    let (response, bytes) ← decodeResponse bytes
    let (responses, bytes) ← decodeResponses n bytes
    .ok (response :: responses, bytes)

/-! ## one turn -/

variable {fuel : Nat} {a a' : Assembly} {frame : Frame} {bytes rest : Bytes}
  {response : PersistentResponse}

/-- A frame that does not close the response. -/
theorem decodeLoop_more (hread : readFrame bytes = .ok (some (frame, rest)))
    (htake : a.take frame = .ok (.inl a')) :
    decodeLoop (fuel + 1) a bytes = decodeLoop fuel a' rest := by
  simp only [decodeLoop, hread, htake, bind, Except.bind]

/-- A frame that does. -/
theorem decodeLoop_done (hread : readFrame bytes = .ok (some (frame, rest)))
    (htake : a.take frame = .ok (.inr response)) :
    decodeLoop (fuel + 1) a bytes = .ok (response, rest) := by
  simp only [decodeLoop, hread, htake, bind, Except.bind]

theorem decodeLoop_error {e : IoError} (hread : readFrame bytes = .error e) :
    decodeLoop (fuel + 1) a bytes = .error e := by
  simp only [decodeLoop, hread, bind, Except.bind]

/-- A loop that returns a response has read a frame and either goes on behind it or
is done. -/
theorem decodeLoop_inv (h : decodeLoop (fuel + 1) a bytes = .ok (response, rest)) :
    ∃ frame bytes', readFrame bytes = .ok (some (frame, bytes')) ∧
      ((∃ a', a.take frame = .ok (.inl a') ∧
          decodeLoop fuel a' bytes' = .ok (response, rest)) ∨
        a.take frame = .ok (.inr response)) := by
  rw [decodeLoop] at h
  cases hread : readFrame bytes with
  | error e =>
    rw [hread] at h
    cases h
  | ok result =>
    rw [hread] at h
    obtain _ | ⟨frame, bytes'⟩ := result
    · cases h
    · refine ⟨frame, bytes', rfl, ?_⟩
      cases htake : a.take frame with
      | error e =>
        simp only [htake, bind, Except.bind] at h
        cases h
      | ok next =>
        simp only [htake, bind, Except.bind] at h
        cases next with
        | inl a' => exact .inl ⟨a', rfl, h⟩
        | inr r =>
          cases h
          exact .inr rfl

theorem take_headers {httpStatus : UInt16} {hs : List (String × String)} (hlen : hs.length ≤ 1024) :
    ({} : Assembly).take (.headers httpStatus hs) =
      .ok (.inl { status := httpStatus, headers := hs, gotHeaders := true }) := by
  rw [Assembly.take, if_neg Bool.false_ne_true, if_neg (Nat.not_lt.2 hlen)]

theorem take_tooManyHeaders {httpStatus : UInt16} {hs : List (String × String)}
    (hlen : 1024 < hs.length) :
    ({} : Assembly).take (.headers httpStatus hs) =
      .error (invalidData
        ("invalid header_count=" ++ toString hs.length ++ " — pipe desynced")) := by
  rw [Assembly.take, if_neg Bool.false_ne_true, if_pos hlen]

theorem take_bodyChunk (h : a.gotHeaders = true) (chunk : Bytes) :
    a.take (.bodyChunk chunk) = .ok (.inl { a with body := a.body ++ chunk }) := by
  simp only [Assembly.take, h, Bool.not_true, Bool.false_eq_true, if_false]

theorem take_endFrame (h : a.gotHeaders = true) (ok : Bool) :
    a.take (.endFrame ok) = .ok (.inr ⟨closingStatus ok a.status, a.headers, a.body⟩) := by
  simp only [Assembly.take, h, Bool.not_true, Bool.false_eq_true, if_false]

/-- **Step lemma.**  Once the headers are in, no frame changes them. -/
theorem take_keeps_headers (ha : a.gotHeaders = true) (h : a.take frame = .ok (.inl a')) :
    a'.gotHeaders = true ∧ a'.headers = a.headers := by
  cases frame with
  | headers httpStatus hs => simp [Assembly.take, ha] at h
  | bodyChunk chunk =>
    rw [take_bodyChunk ha] at h
    cases h
    exact ⟨ha, rfl⟩
  | endFrame ok => simp [Assembly.take, ha] at h
  | error msg => cases h

/-- A closed response has the headers gathered, or none if an error frame closed
it. -/
theorem headers_of_take (ha : a.gotHeaders = true) (h : a.take frame = .ok (.inr response)) :
    response.headers = a.headers ∨ response.headers = [] := by
  cases frame with
  | headers httpStatus hs => simp [Assembly.take, ha] at h
  | bodyChunk chunk => simp [Assembly.take, ha] at h
  | endFrame ok =>
    rw [take_endFrame ha] at h
    cases h
    exact .inl rfl
  | error msg =>
    cases h
    exact .inr rfl

/-- **Run lemma.**  So it is with the whole loop. -/
theorem headers_of_decodeLoop (ha : a.gotHeaders = true)
    (h : decodeLoop fuel a bytes = .ok (response, rest)) :
    response.headers = a.headers ∨ response.headers = [] := by
  induction fuel generalizing a bytes with
  | zero => cases h
  | succ fuel ih =>
    obtain ⟨frame, bytes', -, ⟨a', htake, hloop⟩ | htake⟩ := decodeLoop_inv h
    · obtain ⟨ha', hheaders⟩ := take_keeps_headers ha htake
      rw [← hheaders]
      exact ih ha' hloop
    · exact headers_of_take ha htake

/-! ## whole responses -/

/-- The frames of a response: the headers, the chunks of the body, the end. -/
def encodeResponse (status : UInt16) (headers : List (String × String))
    (chunks : List Bytes) (ok : Bool) : Bytes :=
  encodeHeaders status headers ++ (chunks.flatMap encodeBodyChunk ++ encodeEnd ok)

/-- **Run lemma.**  Behind the headers, the chunks are gathered up to the end
frame. -/
theorem decodeLoop_chunks {chunks : List Bytes} {ok : Bool}
    (hchunks : ∀ chunk ∈ chunks, chunk.length < 2 ^ 32) (hfuel : chunks.length < fuel)
    (ha : a.gotHeaders = true) :
    decodeLoop fuel a (chunks.flatMap encodeBodyChunk ++ (encodeEnd ok ++ rest)) =
      .ok (⟨closingStatus ok a.status, a.headers, a.body ++ chunks.flatten⟩, rest) := by
  induction chunks generalizing a fuel with
  | nil =>
    obtain ⟨n, rfl⟩ := Nat.exists_eq_add_one_of_ne_zero (Nat.ne_of_gt hfuel)
    rw [List.flatMap_nil, List.nil_append, List.flatten_nil, List.append_nil]
    exact decodeLoop_done (readFrame_encodeEnd ok rest) (take_endFrame ha ok)
  | cons chunk chunks ih =>
    rw [List.forall_mem_cons] at hchunks
    rw [List.length_cons] at hfuel
    obtain ⟨n, rfl⟩ := Nat.exists_eq_add_one_of_ne_zero (show fuel ≠ 0 by omega)
    rw [List.flatMap_cons, List.append_assoc,
      decodeLoop_more (readFrame_encodeBodyChunk hchunks.1 _) (take_bodyChunk ha chunk)]
    have htail := ih (a := { a with body := a.body ++ chunk }) hchunks.2
      (show chunks.length < n by omega) ha
    rw [htail, List.flatten_cons, List.append_assoc]

theorem length_le_length_encodeChunks (chunks : List Bytes) :
    chunks.length ≤ (chunks.flatMap encodeBodyChunk).length := by
  induction chunks with
  | nil => exact Nat.le_refl 0
  | cons chunk chunks ih =>
    rw [List.flatMap_cons, List.length_append, encodeBodyChunk, encodeBodyChunkHeader,
      List.length_append, List.length_cons, List.length_cons]
    omega

/-- **Round trip.**  A response whose lengths fit and that has at most 1024
headers decodes to its parts, with what follows it untouched. -/
theorem decodeResponse_frames {status : UInt16} {headers : List (String × String)}
    {chunks : List Bytes} {ok : Bool} (hcount : headers.length ≤ 1024)
    (hheaders : ∀ h ∈ headers, HeaderFits h)
    (hchunks : ∀ chunk ∈ chunks, chunk.length < 2 ^ 32) (rest : Bytes) :
    decodeResponse (encodeResponse status headers chunks ok ++ rest) =
      .ok (⟨closingStatus ok status, headers, chunks.flatten⟩, rest) := by
  have hread : ∀ rest, readFrame (encodeHeaders status headers ++ rest) =
      .ok (some (.headers status headers, rest)) :=
    readFrame_encodeHeaders (show headers.length < 2 ^ 32 by omega) hheaders
  have hle := length_le_length_encodeChunks chunks
  rw [decodeResponse, encodeResponse, List.append_assoc, List.append_assoc,
    decodeLoop_more (hread _) (take_headers hcount)]
  refine decodeLoop_chunks hchunks ?_ rfl
  simp only [encodeHeaders, List.length_append, List.length_cons]
  omega

/-- **Bounds.**  A response that gives back the headers it was written with has at
most 1024 of them, and each of them fits. -/
theorem headers_of_decodeResponse {status status' : UInt16} {headers : List (String × String)}
    {body bytes rest : Bytes} (h : decodeResponse (encodeHeaders status headers ++ bytes) =
      .ok (⟨status', headers, body⟩, rest)) :
    headers.length ≤ 1024 ∧ ∀ h ∈ headers, HeaderFits h := by
  obtain ⟨frame, bytes', hread, hturn⟩ := decodeLoop_inv h
  obtain ⟨headers', rfl, hmany⟩ := readFrame_encodeHeaders_inv hread
  by_cases hcount : headers'.length ≤ 1024
  · rw [take_headers hcount] at hturn
    obtain ⟨a', htake, hloop⟩ | htake := hturn
    · cases htake
      -- an error frame behind the headers would empty them
      obtain hheaders | hheaders := headers_of_decodeLoop rfl hloop
      · dsimp only at hheaders
        subst hheaders
        obtain ⟨-, hfits, -⟩ := readMany_headerPairs_iff.1 hmany
        exact ⟨hcount, hfits⟩
      · dsimp only at hheaders
        subst hheaders
        exact ⟨Nat.zero_le 1024, List.forall_mem_nil _⟩
    · cases htake
  · rw [take_tooManyHeaders (Nat.lt_of_not_le hcount)] at hturn
    obtain ⟨a', htake, -⟩ | htake := hturn <;> cases htake

/-- More than 1024 headers are refused, although they were read. -/
theorem decodeResponse_tooManyHeaders {status : UInt16} {headers : List (String × String)}
    (hmany : 1024 < headers.length) (hcount : headers.length < 2 ^ 32)
    (hheaders : ∀ h ∈ headers, HeaderFits h) (bytes : Bytes) :
    decodeResponse (encodeHeaders status headers ++ bytes) =
      .error (invalidData
        ("invalid header_count=" ++ toString headers.length ++ " — pipe desynced")) := by
  rw [decodeResponse, decodeLoop, readFrame_encodeHeaders hcount hheaders]
  simp only [take_tooManyHeaders hmany, bind, Except.bind]

/-- A body whose length is written as zero: its first byte is taken for the next
frame. -/
theorem decodeResponse_wrapped {status : UInt16} {body : Bytes} {b : UInt8}
    (hlen : (b :: body).length % 2 ^ 32 = 0)
    (hb : b ∉ [frameHeaders, frameBodyChunk, frameEnd, frameError]) (ok : Bool) (rest : Bytes) :
    decodeResponse (encodeResponse status [] [b :: body] ok ++ rest) =
      .error (unknownDiscriminant b) := by
  have hhead : ∀ rest, readFrame (encodeHeaders status [] ++ rest) =
      .ok (some (.headers status [], rest)) :=
    readFrame_encodeHeaders (by simp) (List.forall_mem_nil _)
  have hchunk := readFrame_encodeBodyChunk_eq (b :: body) (encodeEnd ok ++ rest)
  rw [hlen, List.take_zero, List.drop_zero] at hchunk
  -- the loop takes three turns
  have hturns : 2 ≤ (encodeResponse status [] [b :: body] ok ++ rest).length := by
    simp only [encodeResponse, encodeHeaders, encodeEnd, List.length_append, List.length_cons]
    omega
  obtain ⟨n, hn⟩ := Nat.exists_eq_add_of_le' hturns
  rw [decodeResponse, hn, encodeResponse, List.append_assoc, List.flatMap_singleton,
    List.append_assoc, decodeLoop_more (hhead _) (take_headers (Nat.zero_le 1024)),
    decodeLoop_more hchunk (take_bodyChunk rfl [])]
  exact decodeLoop_error (readFrame_of_unknown hb _)

/-- Responses that each decode in front of anything decode one after the other. -/
theorem decodeResponses_flatMap {α : Type} (write : α → Bytes)
    (expected : α → PersistentResponse) {as : List α}
    (h : ∀ x ∈ as, ∀ rest, decodeResponse (write x ++ rest) = .ok (expected x, rest))
    (rest : Bytes) :
    decodeResponses as.length (as.flatMap write ++ rest) = .ok (as.map expected, rest) := by
  induction as with
  | nil => rfl
  | cons x as ih =>
    rw [List.forall_mem_cons] at h
    rw [List.flatMap_cons, List.append_assoc, List.length_cons, decodeResponses, h.1, List.map_cons]
    simp only [bind, Except.bind, ih h.2]

/-- `write_response`. -/
def writeResponse (ok : Bool) (httpStatus : UInt16) (headers : List (String × String))
    (body : Bytes) : Bytes :=
  encodeHeaders httpStatus headers ++
    (if body.isEmpty then [] else encodeBodyChunk body) ++ encodeEnd ok

theorem writeResponse_eq (ok : Bool) (httpStatus : UInt16) (headers : List (String × String))
    (body : Bytes) :
    writeResponse ok httpStatus headers body =
      encodeResponse httpStatus headers (chunksOf body) ok := by
  rw [writeResponse, encodeResponse, chunksOf, List.append_assoc]
  split <;> simp

end Turbine.Persistent
