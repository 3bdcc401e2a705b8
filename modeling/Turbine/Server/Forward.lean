import Turbine.Http.Superglobals
import Turbine.Native.Request
import Turbine.Persistent.Request
import Turbine.Server.Scripts

/-!
# Turbine.Server.Forward

What the handler sends to the PHP side, for each way it has to dispatch a
request, and what becomes of the parts of a `multipart/form-data` body there.

* `part_forwarded`: every part of the body is sent, whatever the checks on uploads said.
-/

namespace Turbine.Server

open Base Http

/-! ## the data sent -/

/-- The settings that the dispatch reads. -/
structure DispatchConfig where
  listen : String
  isTls : Bool
  sessionAutoStart : Bool
  phpBootstrap : String
  currentDir : String
deriving DecidableEq, Repr

/-- `server_port`. -/
def DispatchConfig.serverPort (cfg : DispatchConfig) : UInt16 :=
  ((split cfg.listen ':').getLast?.bind parseU16).getD 8080

/-- `PhpRequest`, for the executor in the server's own process. -/
structure PhpRequest where
  code : String
  uploadedFiles : List String
deriving DecidableEq, Repr

/-- A request that is to be dispatched. -/
structure Ready where
  script : Script
  request : FullHttpRequest
  clientIp : String
deriving DecidableEq, Repr

/-- `abs_php_path`. -/
def Ready.absPhpPath (q : Ready) : String := joinPath q.script.app.documentRoot q.script.phpPath

/-- The `Cookie` header. -/
def Ready.cookieHeader (q : Ready) : String := (lookupEntry "cookie" q.request.headers).getD ""

/-- `headers_vec`, in bytes. -/
def Ready.headersVec (q : Ready) : List (Bytes × Bytes) :=
  q.request.headers.map fun h => (utf8 h.1, utf8 h.2)

/-- The code and the temp files for the executor. -/
def Ready.phpRequest (cfg : DispatchConfig) (q : Ready) : PhpRequest where
  code :=
    q.request.phpSuperglobalsCode cfg.currentDir q.script.phpPath q.clientIp cfg.serverPort
        cfg.isTls ++
      ((if cfg.sessionAutoStart then "session_start(); " else "") ++ cfg.phpBootstrap ++
        "include '" ++ replaceChar q.absPhpPath '\'' "\\'" ++ "';")
  uploadedFiles := q.request.files.map (·.tmpPath)

/-- The arguments of `encode_native_request`. -/
def Ready.nativeArgs (cfg : DispatchConfig) (q : Ready) : Native.RequestArgs where
  scriptPath := utf8 q.absPhpPath
  method := utf8 q.request.method
  uri := utf8 q.request.fullUri
  queryString := utf8 q.request.queryString
  contentType := utf8 (q.request.contentType.getD "")
  contentLength := if q.request.body.isEmpty then -1 else Int32.ofNat q.request.body.length
  cookie := utf8 q.cookieHeader
  documentRoot := utf8 q.script.app.documentRoot
  remoteAddr := utf8 q.clientIp
  remotePort := 0
  serverPort := cfg.serverPort
  isHttps := cfg.isTls
  pathInfo := utf8 q.request.path
  scriptName := utf8 ("/" ++ q.script.phpPath)
  body := q.request.body
  headers := q.headersVec

/-- The request to a persistent worker. -/
def Ready.persistentRequest (cfg : DispatchConfig) (q : Ready) (scriptFilename : String) :
    Persistent.PersistentRequest where
  method := utf8 q.request.method
  uri := utf8 q.request.fullUri
  body := q.request.body
  clientIp := utf8 q.clientIp
  port := cfg.serverPort
  isHttps := cfg.isTls
  headers := q.headersVec
  scriptFilename := utf8 scriptFilename
  queryString := utf8 q.request.queryString
  documentRoot := utf8 q.script.app.documentRoot
  contentType := utf8 (q.request.contentType.getD "")
  cookie := utf8 q.cookieHeader
  pathInfo := utf8 q.request.path
  scriptName := utf8 ("/" ++ q.script.phpPath)

/-- How a request is dispatched.  The last two go through a named pool. -/
inductive Dispatch
  | single
  | nativePipe
  | nativeChannel
  | persistent
  | poolNative
  | poolPersistent
deriving DecidableEq, Repr

/-- What the PHP side is sent. -/
inductive Payload
  | code (req : PhpRequest)
  | wire (bytes : Bytes)

/-- The data that `handle_request_inner` sends. -/
def Dispatch.payload (cfg : DispatchConfig) (q : Ready) : Dispatch → Payload
  | .single => .code (q.phpRequest cfg)
  | .nativePipe | .nativeChannel | .poolNative =>
    .wire (Native.encodeNativeRequest (q.nativeArgs cfg))
  | .persistent =>
    .wire (Persistent.encodeRequest (q.persistentRequest cfg
      (q.script.app.documentRoot ++ "/" ++ q.script.phpPath)))
  | .poolPersistent =>
    .wire (Persistent.encodeRequest (q.persistentRequest cfg q.absPhpPath))

/-- The payload in bytes. -/
def Payload.bytes : Payload → Bytes
  | .code req => utf8 req.code
  | .wire bytes => bytes

/-- The uploads that are sent as a list. -/
def Dispatch.fileList (q : Ready) : Dispatch → List UploadedFile
  | .single => q.request.files
  | _ => []

/-- How bytes of the body look in the payload. -/
def Dispatch.image (bytes : Bytes) : Dispatch → Bytes
  | .single => literal bytes
  | _ => bytes

/-! ## parts of a body -/

/-- A part of a `multipart/form-data` body: its text, and what `multer` reads from it.
`padding` may follow the boundary before it. -/
structure Part where
  padding : Bytes
  head : Bytes
  name : Option String
  fileName : Option String
  contentType : Option String
  data : Bytes
deriving DecidableEq, Repr

def crlf : Bytes := [0x0D, 0x0A]

/-- The headers, a blank line, the data. -/
def Part.bytes (p : Part) : Bytes := p.head ++ crlf ++ p.data

def Part.field (p : Part) : Field := ⟨p.name, p.fileName, p.contentType, some p.data⟩

/-- A `multipart/form-data` body. -/
structure MultipartBody where
  preamble : Bytes
  boundary : Bytes
  parts : List Part
  epilogue : Bytes
deriving DecidableEq, Repr

/-- The line in front of a part, the part, and the line break after it. -/
def MultipartBody.delimited (m : MultipartBody) (p : Part) : Bytes :=
  utf8 "--" ++ m.boundary ++ p.padding ++ crlf ++ p.bytes ++ crlf

def MultipartBody.bytes (m : MultipartBody) : Bytes :=
  m.preamble ++ m.parts.flatMap m.delimited ++
    (utf8 "--" ++ m.boundary ++ utf8 "--" ++ m.epilogue)

/-- A part stands between a newline and a carriage return. -/
theorem exists_bytes_eq {m : MultipartBody} {p : Part} (hp : p ∈ m.parts) :
    ∃ front back, m.bytes = front ++ 0x0A :: (p.bytes ++ 0x0D :: back) := by
  obtain ⟨before, after, hparts⟩ := List.append_of_mem hp
  refine ⟨m.preamble ++ before.flatMap m.delimited ++
      (utf8 "--" ++ m.boundary ++ p.padding ++ [0x0D]),
    0x0A :: (after.flatMap m.delimited ++
      (utf8 "--" ++ m.boundary ++ utf8 "--" ++ m.epilogue)), ?_⟩
  unfold MultipartBody.bytes
  rw [hparts, List.flatMap_append, List.flatMap_cons]
  simp only [MultipartBody.delimited, crlf, List.append_assoc, List.cons_append, List.nil_append]

/-! ## what is forwarded -/

variable {cfg : DispatchConfig} {q : Ready} {m : MultipartBody} {p : Part}

theorem body_infix_payload {d : Dispatch} (hd : d ≠ .single) :
    q.request.body <:+: (d.payload cfg q).bytes := by
  cases d with
  | single => exact absurd rfl hd
  | nativePipe | nativeChannel | poolNative =>
    exact Native.body_infix_encodeNativeRequest (q.nativeArgs cfg)
  | persistent =>
    exact Persistent.body_infix_encodeRequest (q.persistentRequest cfg
      (q.script.app.documentRoot ++ "/" ++ q.script.phpPath))
  | poolPersistent =>
    exact Persistent.body_infix_encodeRequest (q.persistentRequest cfg q.absPhpPath)

theorem literal_infix_payload (hbody : q.request.body ≠ []) :
    literal q.request.body <:+: (Dispatch.payload cfg q .single).bytes := by
  refine (literal_infix_phpSuperglobalsCode q.request cfg.currentDir q.script.phpPath q.clientIp
    cfg.serverPort cfg.isTls hbody).trans ?_
  rw [Dispatch.payload, Payload.bytes, Ready.phpRequest, utf8_append]
  exact (List.prefix_append _ _).isInfix

theorem image_of_ne_single {d : Dispatch} {bytes : Bytes} (hd : d ≠ .single) :
    d.image bytes = bytes := by
  cases d with
  | single => exact absurd rfl hd
  | nativePipe | nativeChannel | persistent | poolNative | poolPersistent => rfl

/-- Every part of the body is in what is sent, in every mode. -/
theorem part_forwarded (cfg : DispatchConfig) (d : Dispatch) (hbody : q.request.body = m.bytes)
    (hp : p ∈ m.parts) : d.image p.bytes <:+: (d.payload cfg q).bytes := by
  obtain ⟨front, back, hsplit⟩ := exists_bytes_eq hp
  have hline : q.request.body = front ++ 0x0A :: (p.bytes ++ 0x0D :: back) := hbody.trans hsplit
  by_cases hd : d = .single
  · subst hd
    have hne : q.request.body ≠ [] := by simp [hline]
    have hliteral := literal_line front p.bytes back
    rw [← hline] at hliteral
    exact hliteral.trans (literal_infix_payload hne)
  · rw [image_of_ne_single hd]
    refine List.IsInfix.trans ?_ (body_infix_payload hd)
    rw [hline]
    exact ⟨front ++ [0x0A], 0x0D :: back, by simp⟩

/-- The part is in the data that the PHP side is sent: in the file list or in the
body. -/
def Dispatch.Contains (cfg : DispatchConfig) (q : Ready) (d : Dispatch) (p : Part) : Prop :=
  (∃ e ∈ d.fileList q, p.field.fileName = some e.fileName ∧ p.field.data = some e.data) ∨
    d.image p.bytes <:+: (d.payload cfg q).bytes

/-- The file list is clean: a rejected part is not in it. -/
theorem fileList_clean {ucfg : UploadConfig} {multer : Multer} {maxBody : Option Nat}
    {inc : Incoming} {ct : String}
    (hreq : FullHttpRequest.fromHyper ucfg multer maxBody inc = .ok q.request)
    (hct : q.request.contentType = some ct) (hform : startsWith ct "multipart/form-data" = true)
    (d : Dispatch) (h : p.field.rejected ucfg.security = true) :
    ∀ e ∈ d.fileList q, ¬ (p.field.fileName = some e.fileName ∧ p.field.data = some e.data) := by
  intro e he
  cases d with
  | single =>
    have hfiles : q.request.files = (parseMultipart ucfg (multer ct q.request.body)).files :=
      files_of_fromHyper hreq hct hform
    rw [Dispatch.fileList, hfiles] at he
    exact not_mem_files_of_rejected h e he
  | nativePipe | nativeChannel | persistent | poolNative | poolPersistent => cases he

/-- For every multipart request, upload configuration and way to dispatch: the parts
that are rejected are kept from the PHP side iff there are none.  The file list never
has one, and the body always has them all. -/
theorem rejected_withheld_iff (cfg : DispatchConfig) (d : Dispatch) (ucfg : UploadConfig)
    (multer : Multer) (maxBody : Option Nat) (inc : Incoming) (q : Ready) (ct : String)
    (m : MultipartBody) (hreq : FullHttpRequest.fromHyper ucfg multer maxBody inc = .ok q.request)
    (hct : q.request.contentType = some ct) (hform : startsWith ct "multipart/form-data" = true)
    (hbody : q.request.body = m.bytes) (hmulter : multer ct m.bytes = m.parts.map Part.field) :
    ((∀ f ∈ multer ct m.bytes, f.rejected ucfg.security = true →
        ∀ e ∈ d.fileList q, ¬ (f.fileName = some e.fileName ∧ f.data = some e.data)) ∧
      ((∀ p ∈ m.parts, p.field.rejected ucfg.security = true → ¬ d.Contains cfg q p) ↔
        ∀ p ∈ m.parts, p.field.rejected ucfg.security = false)) := by
  refine ⟨?_, ?_, ?_⟩
  · intro f hf hrejected
    rw [hmulter] at hf
    obtain ⟨p, -, rfl⟩ := List.mem_map.1 hf
    exact fileList_clean hreq hct hform d hrejected
  · intro hwithheld p hp
    by_contra hrejected
    rw [Bool.not_eq_false] at hrejected
    exact hwithheld p hp hrejected (.inr (part_forwarded cfg d hbody hp))
  · intro hnone p hp hrejected
    rw [hnone p hp] at hrejected
    cases hrejected

/-! ## a script that is uploaded -/

/-- A file part, `shell.php`. -/
def shellPart : Part where
  padding := []
  head := utf8 "Content-Disposition: form-data; name=\"f\"; filename=\"shell.php\"" ++ crlf
  name := some "f"
  fileName := some "shell.php"
  contentType := none
  data := utf8 "<?php"

def shellBody : MultipartBody := ⟨[], utf8 "b", [shellPart], crlf⟩

/-- The upload that holds it. -/
def shellIncoming : Incoming where
  method := "POST"
  path := "/upload.php"
  query := none
  version := "HTTP/1.1"
  headers := [("content-type", utf8 "multipart/form-data; boundary=b")]
  frames := [.data shellBody.bytes]

/-- The default checks, in part. -/
def phpBlocked : UploadConfig := ⟨⟨[".php"], true, toAsciiLowercase⟩, "/tmp", 1⟩

def shellMulter : Multer := fun _ _ => [shellPart.field]

/-- What the handler has of it. -/
def shellReady : Ready where
  script := ⟨⟨"/srv", "index.php", false⟩, "upload.php", none⟩
  request :=
    { method := "POST"
      path := "/upload.php"
      queryString := ""
      httpVersion := "HTTP/1.1"
      headers := [("content-type", "multipart/form-data; boundary=b")]
      cookies := []
      body := shellBody.bytes
      contentType := some "multipart/form-data; boundary=b"
      contentLength := none
      files := []
      multipartPostParams := [] }
  clientIp := "127.0.0.1"

def plainDispatch : DispatchConfig := ⟨"127.0.0.1:8080", false, false, "", "/srv"⟩

theorem shellReady_eq :
    FullHttpRequest.fromHyper phpBlocked shellMulter none shellIncoming = .ok shellReady.request :=
  rfl

/-- The part is rejected, and in every mode it is sent all the same. -/
theorem rejected_upload_sent :
    FullHttpRequest.fromHyper phpBlocked shellMulter none shellIncoming = .ok shellReady.request ∧
      shellReady.request.body = shellBody.bytes ∧ shellPart ∈ shellBody.parts ∧
      shellPart.field.rejected phpBlocked.security = true ∧
      ∀ d : Dispatch, d.Contains plainDispatch shellReady shellPart :=
  have hmem : shellPart ∈ shellBody.parts := List.mem_singleton.2 rfl
  ⟨shellReady_eq, rfl, hmem, by decide, fun d => .inr (part_forwarded plainDispatch d rfl hmem)⟩

/-- So the equivalence is not empty: the upload is not withheld. -/
theorem rejected_upload_not_withheld :
    FullHttpRequest.fromHyper phpBlocked shellMulter none shellIncoming = .ok shellReady.request ∧
      ¬ ∀ p ∈ shellBody.parts, p.field.rejected phpBlocked.security = true →
        ¬ Dispatch.persistent.Contains plainDispatch shellReady p := by
  refine ⟨shellReady_eq, fun hwithheld => ?_⟩
  have hiff := rejected_withheld_iff plainDispatch .persistent phpBlocked shellMulter none
    shellIncoming shellReady "multipart/form-data; boundary=b" shellBody shellReady_eq rfl rfl rfl
    rfl
  have haccepted := hiff.2.1 hwithheld shellPart (List.mem_singleton.2 rfl)
  exact absurd haccepted (by decide)

end Turbine.Server
