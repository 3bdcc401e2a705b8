import Turbine.Base.CStr

/-!
# Turbine.Native.Request

The native request format: `encode_native_request_into` on the master's side,
`NativeRequest::decode` on the worker's.  Strings are written with a 16-bit
length and a terminating NUL, the body with a 32-bit length, the headers with a
16-bit count.

* `decode_payload`: what the decoder makes of any encoded request.
-/

namespace Turbine.Native

open Base

/-! ## strings -/

/-- The `write_str` closure of `encode_native_request_into`. -/
def writeStr (s : Bytes) : Bytes := writeLenCstr 2 s

/-- The `read_cstr` closure of `NativeRequest::decode`. -/
def readCstr (data : Bytes) : Option (CStr × Bytes) := readLenCstr 2 data

/-- A string reads back iff its length fits 16 bits. -/
theorem readCstr_writeStr_bind {β : Type} (s : CStr) (rest : Bytes) (f : CStr × Bytes → Option β) :
    (readCstr (writeStr s.bytes ++ rest)).bind f = if s.Fits 2 then f (s, rest) else none :=
  readLenCstr_writeLenCstr_bind 2 s rest f

/-! ## requests -/

/-- `NativeRequest`. -/
structure NativeRequest where
  scriptPath : CStr
  method : CStr
  uri : CStr
  queryString : CStr
  contentType : CStr
  cookie : CStr
  documentRoot : CStr
  remoteAddr : CStr
  remotePort : UInt16
  serverPort : UInt16
  isHttps : Bool
  pathInfo : CStr
  scriptName : CStr
  body : Bytes
  headers : List (CStr × CStr)
deriving DecidableEq

/-- One header of the decoder's loop. -/
def readHeader (data : Bytes) : Option ((CStr × CStr) × Bytes) := do
  let (k, data) ← readCstr data
  let (v, data) ← readCstr data
  some ((k, v), data)

/-- `NativeRequest::decode`.  The content length is read and dropped, and so is
whatever follows the headers. -/
def NativeRequest.decode (data : Bytes) : Option NativeRequest := do
  let (scriptPath, data) ← readCstr data
  let (method, data) ← readCstr data
  let (uri, data) ← readCstr data
  let (queryString, data) ← readCstr data
  let (contentType, data) ← readCstr data
  let (_, data) ← readNat 4 data
  let (cookie, data) ← readCstr data
  let (documentRoot, data) ← readCstr data
  let (remoteAddr, data) ← readCstr data
  let (remotePort, data) ← readNat 2 data
  let (serverPort, data) ← readNat 2 data
  let (isHttps, data) ← readNat 1 data
  let (pathInfo, data) ← readCstr data
  let (scriptName, data) ← readCstr data
  let (bodyLen, data) ← readNat 4 data
  let (body, data) ← splitOff bodyLen data
  let (headerCount, data) ← readNat 2 data
  let (headers, _) ← readMany readHeader headerCount data
  some
    { scriptPath, method, uri, queryString, contentType, cookie, documentRoot, remoteAddr
      remotePort := .ofNat remotePort
      serverPort := .ofNat serverPort
      isHttps := isHttps != 0
      pathInfo, scriptName, body, headers }

/-! ## encoding -/

/-- The arguments of `encode_native_request_into`. -/
structure RequestArgs where
  scriptPath : Bytes
  method : Bytes
  uri : Bytes
  queryString : Bytes
  contentType : Bytes
  contentLength : Int32
  cookie : Bytes
  documentRoot : Bytes
  remoteAddr : Bytes
  remotePort : UInt16
  serverPort : UInt16
  isHttps : Bool
  pathInfo : Bytes
  scriptName : Bytes
  body : Bytes
  headers : List (Bytes × Bytes)

/-- What `encode_native_request_into` writes after the length. -/
def RequestArgs.payload (a : RequestArgs) : Bytes :=
  writeStr a.scriptPath ++ writeStr a.method ++ writeStr a.uri ++ writeStr a.queryString ++
    writeStr a.contentType ++ leBytes 4 a.contentLength.toUInt32.toNat ++
    writeStr a.cookie ++ writeStr a.documentRoot ++ writeStr a.remoteAddr ++
    leBytes 2 a.remotePort.toNat ++ leBytes 2 a.serverPort.toNat ++
    leBytes 1 a.isHttps.toNat ++ writeStr a.pathInfo ++ writeStr a.scriptName ++
    leBytes 4 a.body.length ++ a.body ++
    leBytes 2 a.headers.length ++ a.headers.flatMap (fun h => writeStr h.1 ++ writeStr h.2)

/-- `encode_native_request_into`: the command byte, the payload's length, which
the source patches in at the end, and the payload. -/
def encodeNativeRequest (a : RequestArgs) : Bytes := 3 :: (leBytes 4 a.payload.length ++ a.payload)

/-- The body is sent as it is. -/
theorem body_infix_encodeNativeRequest (a : RequestArgs) : a.body <:+: encodeNativeRequest a := by
  refine List.infix_cons ?_
  refine List.IsInfix.trans ?_ (List.suffix_append _ _).isInfix
  unfold RequestArgs.payload
  refine List.IsInfix.trans ?_ (List.prefix_append _ _).isInfix
  refine List.IsInfix.trans ?_ (List.prefix_append _ _).isInfix
  exact (List.suffix_append _ _).isInfix

/-- The arguments that describe `r`. -/
def NativeRequest.args (r : NativeRequest) (contentLength : Int32) : RequestArgs where
  scriptPath := r.scriptPath.bytes
  method := r.method.bytes
  uri := r.uri.bytes
  queryString := r.queryString.bytes
  contentType := r.contentType.bytes
  contentLength := contentLength
  cookie := r.cookie.bytes
  documentRoot := r.documentRoot.bytes
  remoteAddr := r.remoteAddr.bytes
  remotePort := r.remotePort
  serverPort := r.serverPort
  isHttps := r.isHttps
  pathInfo := r.pathInfo.bytes
  scriptName := r.scriptName.bytes
  body := r.body
  headers := r.headers.map fun h => (h.1.bytes, h.2.bytes)

/-! ## decoding what was encoded -/

/-- The strings of the request apart from its headers. -/
def NativeRequest.strings (r : NativeRequest) : List CStr :=
  [r.scriptPath, r.method, r.uri, r.queryString, r.contentType, r.cookie, r.documentRoot,
    r.remoteAddr, r.pathInfo, r.scriptName]

/-- Every string the decoder comes to fits; it stops after as many headers as the
16-bit count says. -/
def NativeRequest.Readable (r : NativeRequest) : Prop :=
  (∀ s ∈ r.strings, s.Fits 2) ∧
    ∀ h ∈ r.headers.take (r.headers.length % 65536), h.1.Fits 2 ∧ h.2.Fits 2

instance (r : NativeRequest) : Decidable r.Readable := by
  unfold NativeRequest.Readable
  infer_instance

/-- A header reads back iff its name and its value fit. -/
theorem readHeader_write (h : CStr × CStr) (rest : Bytes) :
    readHeader (writeStr h.1.bytes ++ writeStr h.2.bytes ++ rest) =
      if h.1.Fits 2 ∧ h.2.Fits 2 then some (h, rest) else none := by
  simp only [List.append_assoc, readHeader, Option.bind_eq_bind, readCstr_writeStr_bind, ite_and]

/-- The decoder's header loop, on the headers that were written.  It runs as
often as the 16-bit count says. -/
theorem readMany_headers (headers : List (CStr × CStr)) :
    readMany readHeader (headers.length % 65536)
        ((headers.map fun h => (h.1.bytes, h.2.bytes)).flatMap
          fun h => writeStr h.1 ++ writeStr h.2) =
      if ∀ h ∈ headers.take (headers.length % 65536), h.1.Fits 2 ∧ h.2.Fits 2 then
        some (headers.take (headers.length % 65536),
          (headers.drop (headers.length % 65536)).flatMap
            fun h => writeStr h.1.bytes ++ writeStr h.2.bytes)
      else none := by
  have hmany := readMany_flatMap readHeader_write headers (Nat.mod_le headers.length 65536) []
  rw [List.append_nil, List.append_nil] at hmany
  rw [List.flatMap_map]
  exact hmany

/-- What the decoder makes of an encoded request: it refuses a string that does
not fit, and keeps the headers up to the count it was told. -/
theorem decode_payload (r : NativeRequest) (contentLength : Int32)
    (hbody : r.body.length < 2 ^ 32) :
    NativeRequest.decode (r.args contentLength).payload =
      if r.Readable then some { r with headers := r.headers.take (r.headers.length % 65536) }
      else none := by
  have hlen : r.body.length % 256 ^ 4 = r.body.length := Nat.mod_eq_of_lt hbody
  have hhttps : ∀ b : Bool, (b.toNat % 256 ^ 1 != 0) = b := by decide
  have hbind : ∀ rest (f : Bytes × Bytes → Option NativeRequest),
      (splitOff (r.body.length % 256 ^ 4) (r.body ++ rest)).bind f = f (r.body, rest) := by
    intro rest f
    rw [hlen, splitOff_append rfl, Option.bind_some]
  unfold RequestArgs.payload NativeRequest.args
  simp only [List.append_assoc, List.length_map]
  unfold NativeRequest.decode
  -- from the outside in: the reads run in the order of the fields
  simp only [↓Option.bind_eq_bind, ↓readCstr_writeStr_bind, ↓readNat_leBytes_bind, ↓hbind]
  have hcount : r.headers.length % 256 ^ 2 = r.headers.length % 65536 := rfl
  rw [hcount, readMany_headers]
  by_cases hr : r.Readable
  · have hall := hr
    simp only [NativeRequest.Readable, NativeRequest.strings, List.forall_mem_cons] at hall
    obtain ⟨⟨h1, h2, h3, h4, h5, h6, h7, h8, h9, h10, -⟩, hheaders⟩ := hall
    rw [if_pos hr]
    simp only [h1, h2, h3, h4, h5, h6, h7, h8, h9, h10, if_true, if_pos hheaders,
      Option.bind_some, uint16_ofNat_mod, hhttps]
  · have hsome : ¬ _ := hr
    simp only [NativeRequest.Readable, NativeRequest.strings, List.forall_mem_cons,
      List.not_mem_nil, false_imp_iff, implies_true, and_true] at hsome
    rw [if_neg hr]
    grind

/-- Every length and count of the request fits its 16-bit field. -/
def NativeRequest.Fits (r : NativeRequest) : Prop :=
  (∀ s ∈ r.strings, s.Fits 2) ∧ r.headers.length < 65536 ∧
    ∀ h ∈ r.headers, h.1.Fits 2 ∧ h.2.Fits 2

instance (r : NativeRequest) : Decidable r.Fits := by
  unfold NativeRequest.Fits
  infer_instance

/-- The count keeps all headers iff it fits. -/
theorem take_count_eq_self {α : Type} (l : List α) :
    l.take (l.length % 65536) = l ↔ l.length < 65536 := by
  constructor
  · intro h
    have hlen := congrArg List.length h
    rw [List.length_take] at hlen
    omega
  · intro h
    rw [Nat.mod_eq_of_lt h, List.take_length]

theorem length_body_le_payload (a : RequestArgs) : a.body.length ≤ a.payload.length := by
  unfold RequestArgs.payload
  simp only [List.length_append]
  omega

theorem drop_encodeNativeRequest (a : RequestArgs) :
    (encodeNativeRequest a).drop 5 = a.payload := by
  rw [encodeNativeRequest, List.drop_succ_cons]
  exact List.drop_left' (length_leBytes 4 _)

/-- **Round trip.**  Decoding the payload of an encoded request gives the request
back exactly when every length and count fits its field. -/
theorem decode_encode_iff (r : NativeRequest) (contentLength : Int32)
    (hpayload : (r.args contentLength).payload.length < 2 ^ 32) :
    NativeRequest.decode ((encodeNativeRequest (r.args contentLength)).drop 5) = some r ↔
      r.Fits := by
  have hbody : r.body.length < 2 ^ 32 :=
    Nat.lt_of_le_of_lt (length_body_le_payload (r.args contentLength)) hpayload
  rw [drop_encodeNativeRequest, decode_payload r contentLength hbody]
  constructor
  · intro h
    rw [Option.ite_none_right_eq_some] at h
    obtain ⟨⟨hstrings, hheaders⟩, heq⟩ := h
    have htake : r.headers.take (r.headers.length % 65536) = r.headers :=
      congrArg NativeRequest.headers (Option.some.inj heq)
    rw [htake] at hheaders
    exact ⟨hstrings, (take_count_eq_self r.headers).1 htake, hheaders⟩
  · intro ⟨hstrings, hcount, hheaders⟩
    have htake := (take_count_eq_self r.headers).2 hcount
    have hr : r.Readable := ⟨hstrings, by rwa [htake]⟩
    rw [if_pos hr, htake]

/-- A request with the given cookie and nothing else. -/
def cookieRequest (cookie : CStr) : NativeRequest where
  scriptPath := .empty
  method := .empty
  uri := .empty
  queryString := .empty
  contentType := .empty
  cookie := cookie
  documentRoot := .empty
  remoteAddr := .empty
  remotePort := 0
  serverPort := 0
  isHttps := false
  pathInfo := .empty
  scriptName := .empty
  body := []
  headers := []

theorem decode_encode_iff_shortCookie :
    NativeRequest.decode
        ((encodeNativeRequest ((cookieRequest ⟨[97], by decide⟩).args (-1))).drop 5) =
      some (cookieRequest ⟨[97], by decide⟩) :=
  (decode_encode_iff (cookieRequest ⟨[97], by decide⟩) (-1) (by decide)).2 (by decide)

/-- A cookie that is too long makes the decoder refuse the request. -/
theorem decode_cookieRequest {s : CStr} (h : ¬ s.Fits 2) (contentLength : Int32) :
    NativeRequest.decode ((cookieRequest s).args contentLength).payload = none := by
  have hno : ¬ (cookieRequest s).Readable := by
    intro hr
    exact h (hr.1 s (by simp [NativeRequest.strings, cookieRequest]))
  rw [decode_payload _ _ (by simp [cookieRequest]), if_neg hno]

theorem length_payload_cookieRequest (s : CStr) (contentLength : Int32) :
    ((cookieRequest s).args contentLength).payload.length = s.bytes.length + 45 := by
  unfold RequestArgs.payload
  simp [NativeRequest.args, cookieRequest, writeStr, writeLenCstr, CStr.empty]
  omega

/-- A cookie of 65536 bytes. -/
def longCookie : CStr where
  bytes := List.replicate 65536 97
  nulFree h := absurd (List.eq_of_mem_replicate h) (by decide)

theorem length_longCookie : longCookie.bytes.length = 65536 := List.length_replicate

/-- Its length is written as zero, and the decoder refuses the request. -/
theorem long_cookie_refused :
    ((cookieRequest longCookie).args (-1)).payload.length < 2 ^ 32 ∧
    NativeRequest.decode ((encodeNativeRequest ((cookieRequest longCookie).args (-1))).drop 5) =
      none := by
  have hfits : ¬ longCookie.Fits 2 := by
    rw [CStr.Fits, length_longCookie]
    omega
  rw [length_payload_cookieRequest, length_longCookie, drop_encodeNativeRequest]
  exact ⟨by omega, decode_cookieRequest hfits (-1)⟩

end Turbine.Native
