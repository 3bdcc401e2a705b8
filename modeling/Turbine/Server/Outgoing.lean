import Turbine.Server.Compression

/-!
# Turbine.Server.Outgoing

`handle_request`: what is done to every response on its way out.  A preflight is
answered at once; to any other response `Strict-Transport-Security` and the CORS fields
are added, and its body is compressed.

* `compress_keeps`: compression keeps the status and all fields but three, and the
  length it states is that of the new body;
* `handleRequest_transparent_iff`: what was listed in `Vary` is lost, so the step is
  transparent iff nothing else was listed there.
-/

namespace Turbine.Http

open Base

/-! ## header maps -/

/-- `HeaderMap::get`: the first value of a name. -/
def HeaderMap.get (m : HeaderMap) (name : String) : Option String :=
  (m.find? fun field => field.1 = toAsciiLowercase name).map Prod.snd

/-- `HeaderMap::contains_key`. -/
def HeaderMap.containsKey (m : HeaderMap) (name : String) : Bool :=
  m.any fun field => field.1 = toAsciiLowercase name

/-- `HeaderMap::insert`, which takes the place of all values of the name; `none` is the
panic of a map that has no room for another name. -/
def HeaderMap.insert (rules : HeaderRules) (m : HeaderMap) (name value : String) :
    Option HeaderMap :=
  if nameCount m < rules.maxNames then
    some (m.filter (fun field => field.1 ≠ toAsciiLowercase name) ++ [lowered (name, value)])
  else none

/-- `HeaderValue::to_str`: visible ASCII characters only. -/
def toStr (value : String) : Option String :=
  if value.toList.all fun c => c = '\t' || (32 ≤ c.toNat && c.toNat < 127) then some value else none

/-- The first value of a name, as a text. -/
def HeaderMap.getStr (m : HeaderMap) (name : String) : Option String := (m.get name).bind toStr

/-- The fields of a name. -/
def HeaderMap.fields (m : HeaderMap) (name : String) : HeaderMap := m.filter (·.1 = name)

section Insert

variable {rules : HeaderRules} {m m' : HeaderMap} {name key other value : String}

/-- The fields of other names stay. -/
theorem filter_insert (keep : String → Bool) (h : HeaderMap.insert rules m name value = some m')
    (hkey : toAsciiLowercase name = key) (hkeep : keep key = false) :
    m'.filter (fun field => keep field.1) = m.filter (fun field => keep field.1) := by
  rw [HeaderMap.insert, Option.ite_none_right_eq_some] at h
  obtain ⟨-, hm'⟩ := h
  rw [← Option.some.inj hm', List.filter_append, List.filter_filter, lowered, hkey,
    List.filter_cons_of_neg (by simp [hkeep]), List.filter_nil, List.append_nil]
  refine List.filter_congr fun field _ => ?_
  by_cases hfield : field.1 = key
  · simp [hfield, hkeep]
  · simp [hfield]

theorem fields_insert (h : HeaderMap.insert rules m name value = some m')
    (hkey : toAsciiLowercase name = key) : m'.fields key = [(key, value)] := by
  rw [HeaderMap.insert, Option.ite_none_right_eq_some] at h
  obtain ⟨-, hm'⟩ := h
  rw [← Option.some.inj hm', HeaderMap.fields, List.filter_append, List.filter_filter, lowered,
    hkey]
  simp

theorem fields_insert_of_ne (h : HeaderMap.insert rules m name value = some m')
    (hkey : toAsciiLowercase name = key) (hne : key ≠ other) : m'.fields other = m.fields other :=
  filter_insert (fun n => n = other) h hkey (by simpa using hne)

end Insert

end Turbine.Http

namespace Turbine.Server

open Base Http

structure CorsConfig where
  enabled : Bool
  allowOrigins : List String
  allowCredentials : Bool
  allowMethods : List String
  allowHeaders : List String
  exposeHeaders : List String
  maxAge : Nat

/-- What `handle_request` reads of the server's state. -/
structure EdgeConfig where
  isTls : Bool
  cors : CorsConfig
  compressionEnabled : Bool
  compressionMinSize : Nat
  compressionLevel : Nat
  compressionAlgorithms : List String

/-- What it reads of a request. -/
structure EdgeRequest where
  method : String
  headers : HeaderMap

/-! ## CORS -/

/-- `cors_origin_allowed`. -/
def corsOriginAllowed (cors : CorsConfig) (origin : String) : Bool :=
  cors.allowOrigins.any fun o => o = "*" || o = origin

/-- A field is left out if its value is not legal. -/
def insertLegal (rules : HeaderRules) (m : HeaderMap) (name value : String) : Option HeaderMap :=
  if rules.validValue value then HeaderMap.insert rules m name value else some m

/-- `apply_cors_headers`. -/
def applyCorsHeaders (rules : HeaderRules) (cors : CorsConfig) (origin : String) (m : HeaderMap) :
    Option HeaderMap := do
  let originValue :=
    if cors.allowOrigins.any (· = "*") ∧ !cors.allowCredentials then "*" else origin
  let m ← insertLegal rules m "Access-Control-Allow-Origin" originValue
  let m ← if cors.allowCredentials then
      HeaderMap.insert rules m "Access-Control-Allow-Credentials" "true"
    else some m
  let m ← insertLegal rules m "Access-Control-Allow-Methods" (", ".intercalate cors.allowMethods)
  let m ← insertLegal rules m "Access-Control-Allow-Headers" (", ".intercalate cors.allowHeaders)
  let m ← if cors.exposeHeaders.isEmpty then some m
    else insertLegal rules m "Access-Control-Expose-Headers" (", ".intercalate cors.exposeHeaders)
  if 0 < cors.maxAge then
    HeaderMap.insert rules m "Access-Control-Max-Age" (toString cors.maxAge)
  else some m

/-- The origin of the request, if CORS is enabled and the origin is allowed. -/
def allowedOrigin (cfg : EdgeConfig) (req : EdgeRequest) : Option String :=
  if cfg.cors.enabled then
    (req.headers.getStr "origin").filter (corsOriginAllowed cfg.cors)
  else none

/-! ## compression -/

/-- `is_compressible_content_type`. -/
def isCompressibleContentType (contentType : String) : Bool :=
  containsStr contentType "text/" || containsStr contentType "application/json" ||
    containsStr contentType "application/javascript" ||
    containsStr contentType "application/xml" || containsStr contentType "image/svg+xml" ||
    containsStr contentType "application/manifest+json"

/-- The coding and the body that take the place of a response's body. -/
def negotiated (cfg : EdgeConfig) (codecs : Codecs) (acceptEncoding : String)
    (resp : HttpResponse) : Option (String × Bytes) :=
  if cfg.compressionEnabled ∧ acceptEncoding ≠ "" then
    let ct := (resp.headers.getStr "Content-Type").getD ""
    if resp.headers.containsKey "Content-Encoding" = false ∧ isCompressibleContentType ct then
      if cfg.compressionMinSize ≤ resp.body.length then
        codecs.negotiateCompression acceptEncoding resp.body cfg.compressionLevel
          cfg.compressionAlgorithms
      else none
    else none
  else none

/-- The compression step. -/
def compress (rules : HeaderRules) (cfg : EdgeConfig) (codecs : Codecs) (acceptEncoding : String)
    (resp : HttpResponse) : Option HttpResponse :=
  match negotiated cfg codecs acceptEncoding resp with
  | none => some resp
  | some (encoding, compressed) => do
      let m ← HeaderMap.insert rules resp.headers "Content-Encoding" encoding
      let m ← HeaderMap.insert rules m "Vary" "Accept-Encoding"
      let m ← HeaderMap.insert rules m "Content-Length" (toString compressed.length)
      some ⟨resp.status, m, compressed⟩

/-! ## a request -/

def acceptEncoding (req : EdgeRequest) : String := (req.headers.getStr "accept-encoding").getD ""

/-- The request is answered here. -/
def isAllowedPreflight (cfg : EdgeConfig) (req : EdgeRequest) : Bool :=
  req.method = "OPTIONS" && (allowedOrigin cfg req).isSome

/-- The answer to an allowed preflight. -/
def preflightResponse (rules : HeaderRules) (cfg : EdgeConfig) (req : EdgeRequest) :
    Option HttpResponse := do
  let resp := rules.buildResponse 204 "text/plain" [] []
  let m ← applyCorsHeaders rules cfg.cors ((allowedOrigin cfg req).getD "") resp.headers
  some ⟨resp.status, m, resp.body⟩

/-- The response of `handle_request_inner` with the fields of the connection and CORS. -/
def withEdgeFields (rules : HeaderRules) (cfg : EdgeConfig) (req : EdgeRequest)
    (inner : HttpResponse) : Option HttpResponse := do
  let m ← if cfg.isTls then
      HeaderMap.insert rules inner.headers "Strict-Transport-Security"
        "max-age=63072000; includeSubDomains; preload"
    else some inner.headers
  let m ← match allowedOrigin cfg req with
    | some origin => applyCorsHeaders rules cfg.cors origin m
    | none => some m
  some ⟨inner.status, m, inner.body⟩

/-- `handle_request`, with the response that `handle_request_inner` gives. -/
def handleRequest (rules : HeaderRules) (cfg : EdgeConfig) (codecs : Codecs) (req : EdgeRequest)
    (inner : HttpResponse) : Option HttpResponse :=
  if isAllowedPreflight cfg req then preflightResponse rules cfg req
  else (withEdgeFields rules cfg req inner).bind
    (compress rules cfg codecs (acceptEncoding req))

/-- The response before compression. -/
def beforeCompression (rules : HeaderRules) (cfg : EdgeConfig) (req : EdgeRequest)
    (inner : HttpResponse) : Option HttpResponse :=
  if isAllowedPreflight cfg req then preflightResponse rules cfg req
  else withEdgeFields rules cfg req inner

/-! ## transparency -/

/-- The fields that compression is free to change. -/
def changing : List String := ["content-encoding", "vary", "content-length"]

/-- The other fields. -/
def others (m : HeaderMap) : HeaderMap := m.filter fun field => !changing.contains field.1

/-- The values in a list that is separated by commas, in lower case. -/
def listed (value : String) : List String :=
  ((value.toList.splitOnP fun c => c = ',' || c = ' ' || c = '\t').filter (· ≠ [])).map fun cs =>
    String.ofList (cs.map Char.toLower)

/-- The values listed in the `Vary` fields. -/
def varyValues (m : HeaderMap) : List String :=
  (m.fields "vary").flatMap fun field => listed field.2

/-- The library of a coding. -/
def Codecs.library (codecs : Codecs) (coding : String) : Bytes → Nat → Option Bytes :=
  if coding = "br" then codecs.brotli else if coding = "zstd" then codecs.zstd else codecs.gzip

/-- The response is the same, or another encoding of it. -/
def Transparent (codecs : Codecs) (input output : HttpResponse) : Prop :=
  output = input ∨
    output.status = input.status ∧ others output.headers = others input.headers ∧
      (∃ coding ∈ supported,
        output.headers.fields "content-encoding" = [("content-encoding", coding)] ∧
        ∃ level, codecs.library coding input.body level = some output.body) ∧
      output.headers.fields "content-length" =
        [("content-length", toString output.body.length)] ∧
      (∀ v ∈ varyValues input.headers, v ∈ varyValues output.headers) ∧
      (∀ v ∈ varyValues output.headers, v ∈ varyValues input.headers ∨ v = "accept-encoding") ∧
      "accept-encoding" ∈ varyValues output.headers

/-- No library fails. -/
def Codecs.Succeed (codecs : Codecs) : Prop :=
  ∀ coding data level, (codecs.library coding data level).isSome = true

section Compression

variable {rules : HeaderRules} {cfg : EdgeConfig} {codecs : Codecs} {accept : String}
  {resp out : HttpResponse} {coding : String} {body : Bytes}

theorem encode_of_succeed (h : codecs.Succeed) (data : Bytes) (level : Nat)
    (hcoding : coding ∈ supported) :
    ∃ level', codecs.library coding data level' = some (codecs.encode data level coding) := by
  obtain rfl | rfl | rfl : coding = "br" ∨ coding = "zstd" ∨ coding = "gzip" := by
    simpa [supported] using hcoding
  · obtain ⟨encoded, hencoded⟩ := Option.isSome_iff_exists.1 (h "br" data (min level 11))
    have hlibrary : codecs.brotli data (min level 11) = some encoded := hencoded
    exact ⟨_, hencoded.trans (by simp [Codecs.encode, Codecs.brotliCompress, hlibrary])⟩
  · obtain ⟨encoded, hencoded⟩ := Option.isSome_iff_exists.1 (h "zstd" data (min level 19))
    have hlibrary : codecs.zstd data (min level 19) = some encoded := hencoded
    exact ⟨_, hencoded.trans (by simp [Codecs.encode, Codecs.zstdCompress, hlibrary])⟩
  · obtain ⟨encoded, hencoded⟩ := Option.isSome_iff_exists.1 (h "gzip" data level)
    have hlibrary : codecs.gzip data level = some encoded := hencoded
    exact ⟨_, hencoded.trans (by simp [Codecs.encode, Codecs.gzipCompress, hlibrary])⟩

theorem negotiated_eq_some (h : negotiated cfg codecs accept resp = some (coding, body)) :
    resp.headers.containsKey "Content-Encoding" = false ∧ coding ∈ supported ∧
      body = codecs.encode resp.body cfg.compressionLevel coding := by
  rw [negotiated, Option.ite_none_right_eq_some, Option.ite_none_right_eq_some,
    Option.ite_none_right_eq_some] at h
  obtain ⟨-, ⟨hkey, -⟩, -, hout⟩ := h
  obtain ⟨hcoding, -, hbody⟩ := negotiateCompression_eq_some hout
  exact ⟨hkey, hcoding, hbody⟩

theorem others_insert {m m' : HeaderMap} {name key value : String}
    (h : HeaderMap.insert rules m name value = some m') (hkey : toAsciiLowercase name = key)
    (hmem : changing.contains key = true) : others m' = others m :=
  filter_insert (fun n => !changing.contains n) h hkey (by rw [hmem]; rfl)

/-- What compression does to a response. -/
theorem compress_keeps (hneg : negotiated cfg codecs accept resp = some (coding, body))
    (h : compress rules cfg codecs accept resp = some out) :
    out.status = resp.status ∧ out.body = body ∧ others out.headers = others resp.headers ∧
      out.headers.fields "content-encoding" = [("content-encoding", coding)] ∧
      out.headers.fields "vary" = [("vary", "Accept-Encoding")] ∧
      out.headers.fields "content-length" = [("content-length", toString body.length)] := by
  rw [compress, hneg] at h
  obtain ⟨m₁, h₁, h⟩ := Option.bind_eq_some_iff.1 h
  obtain ⟨m₂, h₂, h⟩ := Option.bind_eq_some_iff.1 h
  obtain ⟨m₃, h₃, h⟩ := Option.bind_eq_some_iff.1 h
  obtain rfl := Option.some.inj h
  have hencoding : toAsciiLowercase "Content-Encoding" = "content-encoding" := by decide
  have hvary : toAsciiLowercase "Vary" = "vary" := by decide
  have hlength : toAsciiLowercase "Content-Length" = "content-length" := by decide
  refine ⟨rfl, rfl, ?_, ?_, ?_, fields_insert h₃ hlength⟩
  · rw [others_insert h₃ hlength (by decide), others_insert h₂ hvary (by decide),
      others_insert h₁ hencoding (by decide)]
  · rw [fields_insert_of_ne h₃ hlength (by decide), fields_insert_of_ne h₂ hvary (by decide),
      fields_insert h₁ hencoding]
  · rw [fields_insert_of_ne h₃ hlength (by decide), fields_insert h₂ hvary]

/-- The response that is compressed did not have the coding's field before. -/
theorem ne_of_negotiated (hneg : negotiated cfg codecs accept resp = some (coding, body))
    (h : compress rules cfg codecs accept resp = some out) : out ≠ resp := by
  rintro rfl
  have hkey := (negotiated_eq_some hneg).1
  have hfield : ("content-encoding", coding) ∈ out.headers.fields "content-encoding" := by
    rw [(compress_keeps hneg h).2.2.2.1]
    exact List.mem_singleton_self _
  have hname : "content-encoding" = toAsciiLowercase "Content-Encoding" := by decide
  rw [HeaderMap.containsKey, List.any_eq_false] at hkey
  exact hkey _ (List.mem_filter.1 hfield).1 (decide_eq_true hname)

theorem varyValues_of_compress (hneg : negotiated cfg codecs accept resp = some (coding, body))
    (h : compress rules cfg codecs accept resp = some out) :
    varyValues out.headers = ["accept-encoding"] := by
  rw [varyValues, (compress_keeps hneg h).2.2.2.2.1]
  decide

theorem transparent_compress_iff (hcodecs : codecs.Succeed)
    (h : compress rules cfg codecs accept resp = some out) :
    Transparent codecs resp out ↔
      negotiated cfg codecs accept resp = none ∨
        ∀ v ∈ varyValues resp.headers, v = "accept-encoding" := by
  cases hneg : negotiated cfg codecs accept resp with
  | none =>
    rw [compress, hneg] at h
    simp [Transparent, Option.some.inj h]
  | some encoded =>
    obtain ⟨coding, body⟩ := encoded
    obtain ⟨-, hcoding, hbody⟩ := negotiated_eq_some hneg
    obtain ⟨hstatus, hout, hothers, hencoding, -, hlength⟩ := compress_keeps hneg h
    rw [Transparent, varyValues_of_compress hneg h]
    constructor
    · rintro (hsame | ⟨-, -, -, -, hkept, -⟩)
      · exact absurd hsame (ne_of_negotiated hneg h)
      · exact .inr fun v hv => List.mem_singleton.1 (hkept v hv)
    · rintro (hnone | hvary)
      · exact absurd hnone (Option.some_ne_none _)
      · obtain ⟨level, hlevel⟩ := encode_of_succeed hcodecs resp.body cfg.compressionLevel hcoding
        refine .inr ⟨hstatus, hothers, ⟨coding, hcoding, hencoding, level, ?_⟩, ?_, ?_, ?_, ?_⟩
        · rw [hlevel, hout, hbody]
        · rw [hlength, hout]
        · exact fun v hv => List.mem_singleton.2 (hvary v hv)
        · exact fun v hv => .inr (List.mem_singleton.1 hv)
        · exact List.mem_singleton_self _

end Compression

/-- Whatever the response and the header of the request: the step is transparent iff it
leaves the response as it is or nothing but `Accept-Encoding` was listed in `Vary`. -/
theorem handleRequest_transparent_iff (rules : HeaderRules) (cfg : EdgeConfig) (codecs : Codecs)
    (hcodecs : codecs.Succeed) (req : EdgeRequest) (inner resp out : HttpResponse)
    (hresp : beforeCompression rules cfg req inner = some resp)
    (hout : handleRequest rules cfg codecs req inner = some out) :
    Transparent codecs resp out ↔
      isAllowedPreflight cfg req = true ∨
        negotiated cfg codecs (acceptEncoding req) resp = none ∨
        ∀ v ∈ varyValues resp.headers, v = "accept-encoding" := by
  rw [handleRequest] at hout
  rw [beforeCompression] at hresp
  by_cases hreq : isAllowedPreflight cfg req = true
  · rw [if_pos hreq] at hout hresp
    have hsame : out = resp := Option.some.inj (hout.symm.trans hresp)
    exact iff_of_true (.inl hsame) (.inl hreq)
  · rw [if_neg hreq] at hout hresp
    rw [hresp] at hout
    exact (transparent_compress_iff hcodecs hout).trans (or_iff_right hreq).symm

/-- A server with compression and nothing else. -/
def compressing : EdgeConfig where
  isTls := false
  cors := ⟨false, [], false, [], [], [], 0⟩
  compressionEnabled := true
  compressionMinSize := 4
  compressionLevel := 6
  compressionAlgorithms := ["gzip"]

def gzipClient : EdgeRequest := ⟨"GET", [("accept-encoding", "gzip")]⟩

/-- A response of a script with one more field. -/
def scriptResponse (field : String × String) : HttpResponse :=
  ⟨200, [("content-type", "text/html"), ("content-length", "5"), field], utf8 "hello"⟩

theorem storing_succeed : storing.Succeed := by
  intro coding data level
  rw [Codecs.library]
  split
  · rfl
  · split <;> rfl

theorem handleRequest_transparent_iff_plain :
    Transparent storing (scriptResponse ("vary", "Accept-Encoding"))
      ⟨200, [("content-type", "text/html"), ("content-encoding", "gzip"),
        ("vary", "Accept-Encoding"), ("content-length", "5")], utf8 "hello"⟩ := by
  exact (handleRequest_transparent_iff httpRules compressing storing storing_succeed gzipClient
    (scriptResponse ("vary", "Accept-Encoding")) _ _ (by decide) (by decide)).2
    (.inr (.inr (by decide)))

/-- A script that answers by the cookies of the request says so in `Vary`, and the cache
of the client does not learn of it. -/
theorem handleRequest_drops_vary :
    ∃ out, beforeCompression httpRules compressing gzipClient (scriptResponse ("vary", "Cookie")) =
        some (scriptResponse ("vary", "Cookie")) ∧
      handleRequest httpRules compressing storing gzipClient
        (scriptResponse ("vary", "Cookie")) = some out ∧
      varyValues (scriptResponse ("vary", "Cookie")).headers = ["cookie"] ∧
      varyValues out.headers = ["accept-encoding"] ∧
      ¬Transparent storing (scriptResponse ("vary", "Cookie")) out := by
  refine ⟨⟨200, [("content-type", "text/html"), ("content-encoding", "gzip"),
    ("vary", "Accept-Encoding"), ("content-length", "5")], utf8 "hello"⟩,
    by decide, by decide, by decide, by decide, ?_⟩
  have hstep : compress httpRules compressing storing "gzip" (scriptResponse ("vary", "Cookie")) =
      some ⟨200, [("content-type", "text/html"), ("content-encoding", "gzip"),
        ("vary", "Accept-Encoding"), ("content-length", "5")], utf8 "hello"⟩ := by decide
  rw [transparent_compress_iff storing_succeed hstep]
  decide

end Turbine.Server
