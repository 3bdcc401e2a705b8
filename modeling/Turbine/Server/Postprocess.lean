import Turbine.Features.Logs
import Turbine.Features.Sendfile
import Turbine.Server.Sharing

/-!
# Turbine.Server.Postprocess

`postprocess_php_response` (crates/turbine-core/src/response.rs): what is done to a script's
response before it is sent.  Early hints change nothing: the headers are sent as they are.

* `sendfile_headers_iff`: when no header that names a file is left, and what the body can be.
-/

namespace Turbine.Server

open Base Features Sharing

/-- The settings of the features. -/
structure FeatureConfig where
  structuredLoggingEnabled : Bool
  earlyHintsEnabled : Bool
  xSendfileEnabled : Bool
  xSendfileRoot : Option Path
deriving DecidableEq, Repr

/-- The log lines are taken out, if there are entries for them; the entries are logged. -/
def processLogs (cfg : FeatureConfig) (r : Response) : Response × List PhpLogEntry :=
  if cfg.structuredLoggingEnabled then
    let extracted := extractStructuredLogs r.body
    if extracted.2.isEmpty then (r, []) else ({ r with body := extracted.1 }, extracted.2)
  else (r, [])

/-- The file that a header names. -/
def findSendfile (cfg : FeatureConfig) (fs : Files) (headers : List (String × String)) :
    Option (String × Bytes) :=
  (checkXSendfile headers).bind fun sendfilePath =>
    cfg.xSendfileRoot.bind fun root =>
      (resolveSendfilePath fs.disk sendfilePath root).bind (serveSendfile fs)

/-- It takes the place of the body.  Only then are the headers removed. -/
def processSendfile (cfg : FeatureConfig) (fs : Files) (r : Response) : Response :=
  if cfg.xSendfileEnabled then
    match findSendfile cfg fs r.headers with
    | some (fileType, fileBody) =>
      { status := 200
        contentType := fileType
        headers := r.headers.filter fun field => !isSendfile field
        body := fileBody }
    | none => r
  else r

/-- `postprocess_php_response`, with the entries that are logged. -/
def postprocessPhpResponse (cfg : FeatureConfig) (fs : Files) (r : Response) :
    Response × List PhpLogEntry :=
  let logged := processLogs cfg r
  (processSendfile cfg fs logged.1, logged.2)

variable {cfg : FeatureConfig} {fs : Files} {r : Response}

/-! ## logs -/

@[simp] theorem headers_processLogs : (processLogs cfg r).1.headers = r.headers := by
  unfold processLogs
  dsimp only
  split_ifs <;> rfl

/-! ## files -/

/-- A header that names a file. -/
def NamesFile (headers : List (String × String)) : Prop :=
  ∃ field ∈ headers, isSendfile field = true

instance {headers : List (String × String)} : Decidable (NamesFile headers) :=
  inferInstanceAs (Decidable (∃ field ∈ headers, _))

/-- The first header that names a file names a readable one under the root. -/
def Served (cfg : FeatureConfig) (fs : Files) (headers : List (String × String))
    (content : Bytes) : Prop :=
  ∃ root sendfilePath, cfg.xSendfileRoot = some root ∧
    checkXSendfile headers = some sendfilePath ∧ Serves fs root sendfilePath content

theorem findSendfile_iff {headers : List (String × String)} {content : Bytes} :
    (∃ contentType, findSendfile cfg fs headers = some (contentType, content)) ↔
      Served cfg fs headers content := by
  constructor
  · rintro ⟨contentType, h⟩
    obtain ⟨sendfilePath, hpath, h⟩ := Option.bind_eq_some_iff.1 h
    obtain ⟨root, hroot, h⟩ := Option.bind_eq_some_iff.1 h
    exact ⟨root, sendfilePath, hroot, hpath, serve_iff.1 ⟨contentType, h⟩⟩
  · rintro ⟨root, sendfilePath, hroot, hpath, hserves⟩
    obtain ⟨contentType, h⟩ := serve_iff.2 hserves
    exact ⟨contentType, by rw [findSendfile, hpath, Option.bind_some, hroot, Option.bind_some, h]⟩

/-- With the feature on, no header that names a file is left iff there was none or its file
is served.  The body is left as it was, or it is that of a file under the root. -/
theorem sendfile_headers_iff (cfg : FeatureConfig) (fs : Files) (r : Response)
    (henabled : cfg.xSendfileEnabled = true) :
    (¬ NamesFile (postprocessPhpResponse cfg fs r).1.headers ↔
        ¬ NamesFile r.headers ∨ ∃ content, Served cfg fs r.headers content) ∧
      ((postprocessPhpResponse cfg fs r).1.body = (processLogs cfg r).1.body ∨
        Served cfg fs r.headers (postprocessPhpResponse cfg fs r).1.body) := by
  rw [postprocessPhpResponse]
  dsimp only
  rw [processSendfile, if_pos henabled, headers_processLogs]
  cases hfind : findSendfile cfg fs r.headers with
  | none =>
    have hnot : ¬ ∃ content, Served cfg fs r.headers content := by
      rintro ⟨content, hserved⟩
      obtain ⟨contentType, hsome⟩ := findSendfile_iff.2 hserved
      rw [hfind] at hsome
      cases hsome
    exact ⟨by simp [hnot], .inl rfl⟩
  | some file =>
    have hserved : Served cfg fs r.headers file.2 := findSendfile_iff.1 ⟨file.1, hfind⟩
    refine ⟨iff_of_true ?_ (.inr ⟨_, hserved⟩), .inr hserved⟩
    rintro ⟨field, hfield, hnames⟩
    have hkept := (List.mem_filter.1 hfield).2
    rw [hnames] at hkept
    cases hkept

/-- A root with one file in it. -/
def oneFile : Files where
  disk := .ofEntries
    [(["files"], .dir), (["files", "a.txt"], .file (utf8 "hi"))] (by decide)
  readable := fun _ => true

/-- Only files, under `/files`. -/
def filesOnly : FeatureConfig := ⟨false, false, true, some (.ofText "/files")⟩

/-- A response that names a file. -/
def naming (name : String) : Response := ⟨200, "text/html", [("X-Sendfile", name)], []⟩

/-- The file is there, and the header is removed. -/
theorem sendfile_headers_iff_oneFile :
    ¬ NamesFile (postprocessPhpResponse filesOnly oneFile (naming "/a.txt")).1.headers :=
  (sendfile_headers_iff filesOnly oneFile (naming "/a.txt") rfl).1.2
    (.inr ⟨utf8 "hi", .ofText "/files", "/a.txt", rfl, rfl, ["files"], ["files", "a.txt"], rfl, rfl,
      ⟨["a.txt"], rfl⟩, rfl, rfl⟩)

/-- The file is missing, and the header is sent. -/
theorem missing_file_header_left :
    (postprocessPhpResponse filesOnly oneFile (naming "/b.txt")).1 = naming "/b.txt" ∧
      NamesFile (naming "/b.txt").headers := by
  have hnone : findSendfile filesOnly oneFile (naming "/b.txt").headers = none := rfl
  have hlogs : processLogs filesOnly (naming "/b.txt") = (naming "/b.txt", []) := rfl
  refine ⟨?_, by decide⟩
  rw [postprocessPhpResponse, hlogs, processSendfile, hnone]
  rfl

end Turbine.Server
