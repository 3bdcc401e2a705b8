import Turbine.Base.CStr

/-!
# Turbine.Persistent.Request

Requests to a persistent worker, as `encode_request_into` writes them and as the
worker decodes them.  Strings are written with a 32-bit length and a terminating NUL,
the body with a 32-bit length, the headers with a 32-bit count.

* `decode_encodeRequestInto`: a request without NUL bytes in its strings whose payload is
  short enough for the length prefix decodes to itself.
-/

namespace Turbine.Persistent

open Base

/-- `DecodedRequest`. -/
structure DecodedRequest where
  method : CStr
  uri : CStr
  body : Bytes
  clientIp : CStr
  port : UInt16
  isHttps : Bool
  headers : List (CStr × CStr)
  scriptFilename : CStr
  queryString : CStr
  documentRoot : CStr
  contentType : CStr
  cookie : CStr
  pathInfo : CStr
  scriptName : CStr
deriving DecidableEq

/-- The `read_cstr` closure of `DecodedRequest::decode`. -/
def readCstr (data : Bytes) : Option (CStr × Bytes) := readLenCstr 4 data

/-- The `read_bytes` closure of `DecodedRequest::decode`. -/
def readBytes (data : Bytes) : Option (Bytes × Bytes) := do
  let (len, data) ← readNat 4 data
  splitOff len data

/-- One header of the decoder's loop. -/
def readHeader (data : Bytes) : Option ((CStr × CStr) × Bytes) := do
  let (name, data) ← readCstr data
  let (value, data) ← readCstr data
  some ((name, value), data)

/-- `DecodedRequest::decode`.  The port keeps its lower 16 bits, and whatever
follows the last string is dropped. -/
def DecodedRequest.decode (data : Bytes) : Option DecodedRequest := do
  let (method, data) ← readCstr data
  let (uri, data) ← readCstr data
  let (body, data) ← readBytes data
  let (clientIp, data) ← readCstr data
  let (port, data) ← readNat 4 data
  let (isHttps, data) ← readNat 1 data
  let (hdrCount, data) ← readNat 4 data
  let (headers, data) ← readMany readHeader hdrCount data
  let (scriptFilename, data) ← readCstr data
  let (queryString, data) ← readCstr data
  let (documentRoot, data) ← readCstr data
  let (contentType, data) ← readCstr data
  let (cookie, data) ← readCstr data
  let (pathInfo, data) ← readCstr data
  let (scriptName, _) ← readCstr data
  some
    { method, uri, body, clientIp
      port := .ofNat port
      isHttps := isHttps != 0
      headers, scriptFilename, queryString, documentRoot, contentType, cookie, pathInfo
      scriptName }

/-! ## encoding -/

/-- `PersistentRequest`, with the bytes of its strings. -/
structure PersistentRequest where
  method : Bytes
  uri : Bytes
  body : Bytes
  clientIp : Bytes
  port : UInt16
  isHttps : Bool
  headers : List (Bytes × Bytes)
  scriptFilename : Bytes
  queryString : Bytes
  documentRoot : Bytes
  contentType : Bytes
  cookie : Bytes
  pathInfo : Bytes
  scriptName : Bytes
deriving DecidableEq, Repr

/-- `write_str`. -/
def writeStr (s : Bytes) : Bytes := writeLenCstr 4 s

/-- `write_bytes`. -/
def writeBytes (data : Bytes) : Bytes := leBytes 4 data.length ++ data

/-- What `encode_request_into` writes after the length. -/
def PersistentRequest.payload (r : PersistentRequest) : Bytes :=
  writeStr r.method ++ writeStr r.uri ++ writeBytes r.body ++ writeStr r.clientIp ++
    leBytes 4 r.port.toNat ++ leBytes 1 r.isHttps.toNat ++
    leBytes 4 r.headers.length ++ r.headers.flatMap (fun h => writeStr h.1 ++ writeStr h.2) ++
    writeStr r.scriptFilename ++ writeStr r.queryString ++ writeStr r.documentRoot ++
    writeStr r.contentType ++ writeStr r.cookie ++ writeStr r.pathInfo ++ writeStr r.scriptName

/-- `encode_request_into`: the command byte, the payload's length, which the source
patches in at the end, and the payload. -/
def encodeRequest (r : PersistentRequest) : Bytes := 1 :: (leBytes 4 r.payload.length ++ r.payload)

/-- The body is sent as it is. -/
theorem body_infix_encodeRequest (r : PersistentRequest) : r.body <:+: encodeRequest r := by
  refine List.infix_cons ?_
  refine List.IsInfix.trans ?_ (List.suffix_append _ _).isInfix
  unfold PersistentRequest.payload writeBytes
  simp only [List.append_assoc]
  iterate 3 refine List.IsInfix.trans ?_ (List.suffix_append _ _).isInfix
  exact (List.prefix_append _ _).isInfix

/-- `encode_request_into` step by step: the buffer is cleared, the length is a
placeholder until the payload is written. -/
def encodeRequestInto (_buf : Bytes) (r : PersistentRequest) : Bytes :=
  let buf := []
  let buf := buf ++ leBytes 1 1
  let payloadStart := buf.length
  let buf := buf ++ leBytes 4 0
  let buf := buf ++ writeStr r.method
  let buf := buf ++ writeStr r.uri
  let buf := buf ++ writeBytes r.body
  let buf := buf ++ writeStr r.clientIp
  let buf := buf ++ leBytes 4 r.port.toNat
  let buf := buf ++ leBytes 1 r.isHttps.toNat
  let buf := buf ++ leBytes 4 r.headers.length
  let buf := r.headers.foldl (fun buf h => buf ++ writeStr h.1 ++ writeStr h.2) buf
  let buf := buf ++ writeStr r.scriptFilename
  let buf := buf ++ writeStr r.queryString
  let buf := buf ++ writeStr r.documentRoot
  let buf := buf ++ writeStr r.contentType
  let buf := buf ++ writeStr r.cookie
  let buf := buf ++ writeStr r.pathInfo
  let buf := buf ++ writeStr r.scriptName
  let payloadLen := buf.length - payloadStart - 4
  buf.take payloadStart ++ leBytes 4 payloadLen ++ buf.drop (payloadStart + 4)

theorem foldl_writeHeader (headers : List (Bytes × Bytes)) (buf : Bytes) :
    headers.foldl (fun buf h => buf ++ writeStr h.1 ++ writeStr h.2) buf =
      buf ++ headers.flatMap fun h => writeStr h.1 ++ writeStr h.2 := by
  induction headers generalizing buf with
  | nil => rw [List.foldl_nil, List.flatMap_nil, List.append_nil]
  | cons h headers ih =>
    rw [List.foldl_cons, ih, List.flatMap_cons, List.append_assoc, List.append_assoc,
      List.append_assoc]

/-- Patching bytes that are as many as those that were there. -/
theorem patch_append (front back : Bytes) {old new : Bytes} (h : old.length = new.length) :
    (front ++ (old ++ back)).take front.length ++ new ++
        (front ++ (old ++ back)).drop (front.length + new.length) =
      front ++ (new ++ back) := by
  rw [List.take_left, ← h, ← List.drop_drop, List.drop_left, List.drop_left, List.append_assoc]

/-- The buffer before the length is patched in. -/
theorem encodeRequestInto_unpatched (buf : Bytes) (r : PersistentRequest) :
    encodeRequestInto buf r =
      let buf := leBytes 1 1 ++ (leBytes 4 0 ++ r.payload)
      buf.take 1 ++ leBytes 4 (buf.length - 1 - 4) ++ buf.drop (1 + 4) := by
  have hbuf : leBytes 1 1 ++ (leBytes 4 0 ++ r.payload) =
      r.headers.foldl (fun buf h => buf ++ writeStr h.1 ++ writeStr h.2)
        ([] ++ leBytes 1 1 ++ leBytes 4 0 ++ writeStr r.method ++ writeStr r.uri ++
          writeBytes r.body ++ writeStr r.clientIp ++ leBytes 4 r.port.toNat ++
          leBytes 1 r.isHttps.toNat ++ leBytes 4 r.headers.length) ++
        writeStr r.scriptFilename ++ writeStr r.queryString ++ writeStr r.documentRoot ++
        writeStr r.contentType ++ writeStr r.cookie ++ writeStr r.pathInfo ++
        writeStr r.scriptName := by
    rw [foldl_writeHeader, PersistentRequest.payload]
    simp only [List.append_assoc, List.nil_append]
  rw [hbuf]
  rfl

/-- The placeholder does not show. -/
theorem encodeRequestInto_eq (buf : Bytes) (r : PersistentRequest) :
    encodeRequestInto buf r = encodeRequest r := by
  have hfield : (leBytes 4 0).length = (leBytes 4 r.payload.length).length := by simp
  have hpatch := patch_append (leBytes 1 1) r.payload hfield
  have hlen : (leBytes 1 1 ++ (leBytes 4 0 ++ r.payload)).length - 1 - 4 = r.payload.length := by
    simp only [List.length_append, length_leBytes]
    omega
  rw [length_leBytes, length_leBytes] at hpatch
  rw [encodeRequestInto_unpatched]
  dsimp only
  rw [hlen, hpatch]
  rfl

/-! ## requests without NULs -/

/-- The request that a decoded one was written from. -/
def DecodedRequest.source (d : DecodedRequest) : PersistentRequest where
  method := d.method.bytes
  uri := d.uri.bytes
  body := d.body
  clientIp := d.clientIp.bytes
  port := d.port
  isHttps := d.isHttps
  headers := d.headers.map fun h => (h.1.bytes, h.2.bytes)
  scriptFilename := d.scriptFilename.bytes
  queryString := d.queryString.bytes
  documentRoot := d.documentRoot.bytes
  contentType := d.contentType.bytes
  cookie := d.cookie.bytes
  pathInfo := d.pathInfo.bytes
  scriptName := d.scriptName.bytes

/-- All strings of the request, those of the headers last. -/
def PersistentRequest.strings (r : PersistentRequest) : List Bytes :=
  [r.method, r.uri, r.clientIp, r.scriptFilename, r.queryString, r.documentRoot, r.contentType,
    r.cookie, r.pathInfo, r.scriptName] ++ r.headers.flatMap fun h => [h.1, h.2]

/-- No string of the request contains a NUL. -/
def PersistentRequest.NulFree (r : PersistentRequest) : Prop := ∀ s ∈ r.strings, 0 ∉ s

instance (r : PersistentRequest) : Decidable r.NulFree :=
  inferInstanceAs (Decidable (∀ s ∈ r.strings, 0 ∉ s))

theorem exists_headers {headers : List (Bytes × Bytes)}
    (h : ∀ s ∈ headers.flatMap fun h => [h.1, h.2], 0 ∉ s) :
    ∃ hs : List (CStr × CStr), (hs.map fun h => (h.1.bytes, h.2.bytes)) = headers := by
  induction headers with
  | nil => exact ⟨[], rfl⟩
  | cons header headers ih =>
    rw [List.flatMap_cons, List.forall_mem_append] at h
    obtain ⟨hs, hhs⟩ := ih h.2
    exact ⟨(⟨header.1, h.1 _ (by simp)⟩, ⟨header.2, h.1 _ (by simp)⟩) :: hs, by simp [hhs]⟩

/-- A request without NULs is the source of a decoded one. -/
theorem exists_source {r : PersistentRequest} (h : r.NulFree) :
    ∃ d : DecodedRequest, d.source = r := by
  rw [PersistentRequest.NulFree, PersistentRequest.strings, List.forall_mem_append] at h
  obtain ⟨hs, hhs⟩ := exists_headers h.2
  have hstr : ∀ s ∈ [r.method, r.uri, r.clientIp, r.scriptFilename, r.queryString,
      r.documentRoot, r.contentType, r.cookie, r.pathInfo, r.scriptName], 0 ∉ s := h.1
  refine ⟨
    { method := ⟨r.method, hstr _ (by simp)⟩
      uri := ⟨r.uri, hstr _ (by simp)⟩
      body := r.body
      clientIp := ⟨r.clientIp, hstr _ (by simp)⟩
      port := r.port
      isHttps := r.isHttps
      headers := hs
      scriptFilename := ⟨r.scriptFilename, hstr _ (by simp)⟩
      queryString := ⟨r.queryString, hstr _ (by simp)⟩
      documentRoot := ⟨r.documentRoot, hstr _ (by simp)⟩
      contentType := ⟨r.contentType, hstr _ (by simp)⟩
      cookie := ⟨r.cookie, hstr _ (by simp)⟩
      pathInfo := ⟨r.pathInfo, hstr _ (by simp)⟩
      scriptName := ⟨r.scriptName, hstr _ (by simp)⟩ }, ?_⟩
  rw [DecodedRequest.source]
  dsimp only
  rw [hhs]

@[simp] theorem length_writeStr (s : Bytes) : (writeStr s).length = s.length + 5 := by
  rw [writeStr, writeLenCstr, List.length_append, length_leBytes, List.length_append,
    List.length_singleton]
  omega

/-- The headers' strings and their number, in the bytes they are written as. -/
theorem length_le_writeHeaders (headers : List (Bytes × Bytes)) :
    (∀ s ∈ headers.flatMap fun h => [h.1, h.2],
        s.length ≤ (headers.flatMap fun h => writeStr h.1 ++ writeStr h.2).length) ∧
      headers.length ≤ (headers.flatMap fun h => writeStr h.1 ++ writeStr h.2).length := by
  induction headers with
  | nil => exact ⟨List.forall_mem_nil _, Nat.le_refl 0⟩
  | cons h headers ih =>
    simp only [List.flatMap_cons, List.length_append, length_writeStr, List.length_cons]
    refine ⟨fun s hs => ?_, by omega⟩
    rw [List.mem_append] at hs
    obtain hs | hs := hs
    · rw [List.mem_pair] at hs
      obtain rfl | rfl := hs <;> omega
    · have := ih.1 s hs
      omega

theorem length_le_payload (r : PersistentRequest) :
    (∀ s ∈ r.strings, s.length ≤ r.payload.length) ∧ r.body.length ≤ r.payload.length ∧
      r.headers.length ≤ r.payload.length := by
  obtain ⟨hstrings, hcount⟩ := length_le_writeHeaders r.headers
  have hlen : r.payload.length = r.method.length + r.uri.length + r.body.length +
      r.clientIp.length + (r.headers.flatMap fun h => writeStr h.1 ++ writeStr h.2).length +
      r.scriptFilename.length + r.queryString.length + r.documentRoot.length +
      r.contentType.length + r.cookie.length + r.pathInfo.length + r.scriptName.length + 63 := by
    simp only [PersistentRequest.payload, writeBytes, List.length_append, length_writeStr,
      length_leBytes]
    omega
  refine ⟨?_, by omega, by omega⟩
  rw [PersistentRequest.strings, List.forall_mem_append]
  refine ⟨?_, fun s hs => ?_⟩
  · simp only [List.forall_mem_cons]
    refine ⟨?_, ?_, ?_, ?_, ?_, ?_, ?_, ?_, ?_, ?_, List.forall_mem_nil _⟩ <;> omega
  · have := hstrings s hs
    omega

/-! ## decoding what was encoded -/

theorem readCstr_writeStr_bind {β : Type} {s : CStr} (h : s.Fits 4) (rest : Bytes)
    (f : CStr × Bytes → Option β) : (readCstr (writeStr s.bytes ++ rest)).bind f = f (s, rest) := by
  rw [readCstr, writeStr, readLenCstr_writeLenCstr_bind, if_pos h]

theorem readBytes_writeBytes_bind {β : Type} {data : Bytes} (h : data.length < 2 ^ 32)
    (rest : Bytes) (f : Bytes × Bytes → Option β) :
    (readBytes (writeBytes data ++ rest)).bind f = f (data, rest) := by
  have hlen : data.length % 256 ^ 4 = data.length := Nat.mod_eq_of_lt h
  have hsplit : splitOff data.length (data ++ rest) = some (data, rest) := splitOff_append rfl
  rw [readBytes, writeBytes, List.append_assoc, Option.bind_eq_bind, readNat_leBytes_bind, hlen]
  dsimp only
  rw [hsplit, Option.bind_some]

/-- A header reads back iff its name and its value fit. -/
theorem readHeader_write (h : CStr × CStr) (rest : Bytes) :
    readHeader (writeStr h.1.bytes ++ writeStr h.2.bytes ++ rest) =
      if h.1.Fits 4 ∧ h.2.Fits 4 then some (h, rest) else none := by
  simp only [List.append_assoc, readHeader, readCstr, writeStr, Option.bind_eq_bind,
    readLenCstr_writeLenCstr_bind, ite_and]

theorem readMany_headers_bind {β : Type} {headers : List (CStr × CStr)}
    (hcount : headers.length < 2 ^ 32) (hfits : ∀ h ∈ headers, h.1.Fits 4 ∧ h.2.Fits 4)
    (rest : Bytes) (f : List (CStr × CStr) × Bytes → Option β) :
    (readMany readHeader (headers.length % 256 ^ 4)
        ((headers.map fun h => (h.1.bytes, h.2.bytes)).flatMap
          (fun h => writeStr h.1 ++ writeStr h.2) ++ rest)).bind f = f (headers, rest) := by
  have hmod : headers.length % 256 ^ 4 = headers.length := Nat.mod_eq_of_lt hcount
  have hmany := readMany_flatMap readHeader_write headers (Nat.le_refl _) rest
  rw [List.take_length, List.drop_length, if_pos hfits] at hmany
  rw [hmod, List.flatMap_map, hmany]
  rfl

theorem uint16_ofNat_mod_four (x : UInt16) : UInt16.ofNat (x.toNat % 256 ^ 4) = x := by
  have hlt := x.toNat_lt
  have hmod : x.toNat % 256 ^ 4 = x.toNat := Nat.mod_eq_of_lt (by omega)
  rw [hmod, UInt16.ofNat_toNat]

/-- What was written is decoded, if it is short enough for every length in it. -/
theorem decode_payload {d : DecodedRequest} (h : d.source.payload.length < 2 ^ 32) :
    DecodedRequest.decode d.source.payload = some d := by
  obtain ⟨hstrings, hbody, hcount⟩ := length_le_payload d.source
  have hfits : ∀ s : CStr, s.bytes ∈ d.source.strings → s.Fits 4 := fun s hs =>
    Nat.lt_of_le_of_lt (hstrings s.bytes hs) h
  have hheaders : ∀ hd ∈ d.headers, hd.1.Fits 4 ∧ hd.2.Fits 4 := by
    intro hd hmem
    have hsub : ∀ s ∈ [hd.1.bytes, hd.2.bytes], s ∈ d.source.strings := by
      intro s hs
      refine List.mem_append_right _ (List.mem_flatMap.2 ⟨(hd.1.bytes, hd.2.bytes), ?_, hs⟩)
      exact List.mem_map_of_mem hmem
    exact ⟨hfits _ (hsub _ (by simp)), hfits _ (hsub _ (by simp))⟩
  have hbody' : d.body.length < 2 ^ 32 := Nat.lt_of_le_of_lt hbody h
  have hcount' : d.headers.length < 2 ^ 32 := by
    have hlen : d.source.headers.length = d.headers.length := List.length_map _
    omega
  have hhttps : ∀ b : Bool, (b.toNat % 256 ^ 1 != 0) = b := by decide
  have hall : ∀ s ∈ [d.method, d.uri, d.clientIp, d.scriptFilename, d.queryString,
      d.documentRoot, d.contentType, d.cookie, d.pathInfo, d.scriptName], s.Fits 4 :=
    fun s hs => hfits s (List.mem_append_left _ (List.mem_map_of_mem hs))
  simp only [List.forall_mem_cons] at hall
  obtain ⟨h1, h2, h3, h4, h5, h6, h7, h8, h9, h10, -⟩ := hall
  have hlast := readLenCstr_writeLenCstr 4 d.scriptName []
  rw [List.append_nil, if_pos h10] at hlast
  unfold PersistentRequest.payload DecodedRequest.source
  simp only [List.append_assoc, List.length_map]
  unfold DecodedRequest.decode
  -- from the outside in: the reads run in the order of the fields
  simp only [↓Option.bind_eq_bind, ↓readCstr_writeStr_bind h1, ↓readCstr_writeStr_bind h2,
    ↓readBytes_writeBytes_bind hbody', ↓readCstr_writeStr_bind h3, ↓readNat_leBytes_bind,
    ↓readMany_headers_bind hcount' hheaders, ↓readCstr_writeStr_bind h4,
    ↓readCstr_writeStr_bind h5, ↓readCstr_writeStr_bind h6, ↓readCstr_writeStr_bind h7,
    ↓readCstr_writeStr_bind h8, ↓readCstr_writeStr_bind h9]
  rw [readCstr, writeStr, hlast, Option.bind_some, uint16_ofNat_mod_four, hhttps]

/-- **Round trip.**  A request without NULs in its strings whose payload is shorter than
2^32 bytes is encoded as a command byte, a length that is the number of bytes behind it,
and a payload that decodes to the request. -/
theorem decode_encodeRequestInto {r : PersistentRequest} (hnul : r.NulFree)
    (hlen : r.payload.length < 2 ^ 32) (buf : Bytes) :
    ∃ prefixed payload d, readNat 1 (encodeRequestInto buf r) = some (1, prefixed) ∧
      readNat 4 prefixed = some (payload.length, payload) ∧
      DecodedRequest.decode payload = some d ∧ d.source = r := by
  obtain ⟨d, rfl⟩ := exists_source hnul
  have hmod : d.source.payload.length % 256 ^ 4 = d.source.payload.length := Nat.mod_eq_of_lt hlen
  refine ⟨leBytes 4 d.source.payload.length ++ d.source.payload, d.source.payload, d, ?_, ?_,
    decode_payload hlen, rfl⟩
  · rw [encodeRequestInto_eq]
    exact readNat_leBytes 1 1 _
  · rw [readNat_leBytes, hmod]

/-- A form is posted with one header and a body that has a NUL in it. -/
def postRequest : PersistentRequest where
  method := [80, 79, 83, 84]
  uri := [47]
  body := [97, 0, 98]
  clientIp := [58, 58, 49]
  port := 8080
  isHttps := true
  headers := [([72, 111, 115, 116], [97])]
  scriptFilename := [47, 105]
  queryString := []
  documentRoot := [47]
  contentType := []
  cookie := []
  pathInfo := []
  scriptName := [47, 105]

theorem decode_encodeRequestInto_postRequest :
    ∃ prefixed payload d, readNat 1 (encodeRequestInto [7] postRequest) = some (1, prefixed) ∧
      readNat 4 prefixed = some (payload.length, payload) ∧
      DecodedRequest.decode payload = some d ∧ d.source = postRequest :=
  decode_encodeRequestInto (by decide) (by decide) [7]

end Turbine.Persistent
