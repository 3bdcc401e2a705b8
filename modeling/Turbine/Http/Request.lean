import Turbine.Http.Multipart

/-!
# Turbine.Http.Request

`FullHttpRequest::from_hyper`: the request as the handler has it, with its body
in full and, for `multipart/form-data`, the uploads parsed from it.
-/

namespace Turbine.Http

open Base

/-- `FullHttpRequest`.  The entries of the two hash maps stand in the order in which
they are iterated. -/
structure FullHttpRequest where
  method : String
  path : String
  queryString : String
  httpVersion : String
  headers : List (String × String)
  cookies : List (String × String)
  body : Bytes
  contentType : Option String
  contentLength : Option Nat
  files : List UploadedFile
  multipartPostParams : List (String × String)
deriving DecidableEq, Repr

inductive RequestBuildError
  | badRequest
  | payloadTooLarge
deriving DecidableEq, Repr

/-- A frame of the incoming body. -/
inductive BodyFrame
  | data (bytes : Bytes)
  | trailers
  | failed
deriving DecidableEq, Repr

/-- The request as `hyper` hands it over. -/
structure Incoming where
  method : String
  path : String
  query : Option String
  version : String
  headers : List (String × Bytes)
  frames : List BodyFrame

/-- `HeaderValue::to_str`, which gives a text if all bytes are visible ASCII. -/
def valueToStr (value : Bytes) : Option String :=
  if value.all fun b => (32 ≤ b && b < 127) || b = 9 then
    some (String.ofList (value.map fun b => Char.ofNat b.toNat))
  else none

/-- The loop that reads the body. -/
def readBody (limit : Option Nat) (acc : Bytes) : List BodyFrame → Except RequestBuildError Bytes
  | [] => .ok acc
  | .data bytes :: frames =>
    if limit.any (fun max => max < acc.length + bytes.length) then .error .payloadTooLarge
    else readBody limit (acc ++ bytes) frames
  | .trailers :: frames => readBody limit acc frames
  | .failed :: _ => .error .badRequest

/-- The parts that `multer` reads from a body, given the content type. -/
abbrev Multer := String → Bytes → List Field

/-- `FullHttpRequest::from_hyper`.  Header names are lower-case ASCII already. -/
def FullHttpRequest.fromHyper (cfg : UploadConfig) (multer : Multer) (maxBody : Option Nat)
    (req : Incoming) : Except RequestBuildError FullHttpRequest :=
  let headers := collectEntries (req.headers.filterMap fun h =>
    (valueToStr h.2).map fun value => (toAsciiLowercase h.1, value))
  let contentType := lookupEntry "content-type" headers
  let contentLength := (lookupEntry "content-length" headers).bind parseUsize
  if (contentLength.any fun len => maxBody.any fun max => decide (max < len)) then
    .error .payloadTooLarge
  else do
    let body ← readBody maxBody [] req.frames
    let collected := match contentType with
      | some ct =>
        if startsWith ct "multipart/form-data" then parseMultipart cfg (multer ct body)
        else ⟨[], []⟩
      | none => ⟨[], []⟩
    return {
      method := req.method
      path := req.path
      queryString := req.query.getD ""
      httpVersion := req.version
      headers
      cookies := ((lookupEntry "cookie" headers).map parseCookieHeader).getD []
      body
      contentType
      contentLength
      files := collected.files
      multipartPostParams := collected.texts }

/-- `get_params`. -/
def FullHttpRequest.getParams (r : FullHttpRequest) : List (String × String) :=
  parseUrlencoded r.queryString

/-- `post_params`. -/
def FullHttpRequest.postParams (r : FullHttpRequest) : List (String × String) :=
  if r.method != "POST" && r.method != "PUT" && r.method != "PATCH" then []
  else if !r.multipartPostParams.isEmpty then r.multipartPostParams
  else if r.contentType.any (startsWith · "application/x-www-form-urlencoded") then
    parseUrlencoded (fromUtf8Lossy r.body)
  else []

/-- The uploads of a multipart request are what the parser makes of its parts. -/
theorem files_of_fromHyper {cfg : UploadConfig} {multer : Multer} {maxBody : Option Nat}
    {req : Incoming} {r : FullHttpRequest} {ct : String}
    (h : FullHttpRequest.fromHyper cfg multer maxBody req = .ok r) (hct : r.contentType = some ct)
    (hmultipart : startsWith ct "multipart/form-data" = true) :
    r.files = (parseMultipart cfg (multer ct r.body)).files := by
  unfold FullHttpRequest.fromHyper at h
  dsimp only at h
  split at h
  · cases h
  · cases hbody : readBody maxBody [] req.frames with
    | error e =>
      rw [hbody] at h
      cases h
    | ok body =>
      rw [hbody] at h
      cases h
      simp only at hct
      simp only [hct, hmultipart, if_true]

end Turbine.Http
