import Turbine.Base.Literals
import Turbine.Http.Superglobals

/-!
# Turbine.Http.Injection

`php_superglobals_code` as a program: its text is printed from pieces, fixed code and
literals, and read with PHP's rules for single-quoted strings it is these pieces again.
So nothing in a request can end a literal and continue as code.

* `superglobals_read_back`: what the program is read as, and what its statements look like.
-/

namespace Turbine.Http

open Base

/-! ## escaping -/

theorem escapePhp_eq (s : String) : escapePhp s = String.ofList (escape s.toList) := by
  have hchar : ∀ c : Char,
      (if c = '\\' then "\\\\".toList else [c]).flatMap
          (fun x => if x = '\'' then "\\'".toList else [x]) =
        if c = '\\' ∨ c = '\'' then ['\\', c] else [c] := by
    intro c
    by_cases hbackslash : c = '\\'
    · subst hbackslash
      decide
    · by_cases hquote : c = '\''
      · subst hquote
        decide
      · simp [hbackslash, hquote]
  have hinner : (replaceChar s '\\' "\\\\").toList =
      s.toList.flatMap fun c => if c = '\\' then "\\\\".toList else [c] := String.toList_ofList
  rw [escapePhp, replaceChar, hinner, List.flatMap_assoc, escape]
  simp only [hchar]

/-! ## the program -/

/-- All that the program is made from: the values that end up in its literals. -/
structure Superglobals where
  method : String
  requestUri : String
  queryString : String
  scriptName : String
  scriptFilename : String
  documentRoot : String
  serverPort : UInt16
  isTls : Bool
  remoteAddr : String
  pathInfo : String
  /-- With the keys that they have in `$_SERVER`. -/
  headers : List (String × String)
  contentType : Option String
  contentLength : Option Nat
  get : List (String × String)
  post : List (String × String)
  cookies : List (String × String)
  files : List UploadedFile
  body : Option String

/-- The values for a request. -/
def FullHttpRequest.superglobals (r : FullHttpRequest) (appRoot scriptPath clientIp : String)
    (serverPort : UInt16) (isTls : Bool) : Superglobals where
  method := r.method
  requestUri := r.fullUri
  queryString := r.queryString
  scriptName := "/" ++ scriptPath
  scriptFilename := joinPath appRoot scriptPath
  documentRoot := appRoot
  serverPort
  isTls
  remoteAddr := clientIp
  pathInfo := r.path
  headers := r.headers.map fun h =>
    ("HTTP_" ++ toAsciiUppercase (replaceChar h.1 '-' "_"), h.2)
  contentType := r.contentType
  contentLength := r.contentLength
  get := r.getParams
  post := r.postParams
  cookies := r.cookies
  files := r.files
  body := if r.body.isEmpty then none else some (fromUtf8Lossy r.body)

/-- `$_SERVER['key'] = 'value'; `. -/
def assignPieces (key value : Piece) : List Piece :=
  [.code "$_SERVER[", key, .code "] = ", value, .code "; "]

/-- `'key' => 'value', `. -/
def entryPieces (p : String × String) : List Piece :=
  [.quoted p.1, .code " => ", .quoted p.2, .code ", "]

/-- An array of parameters. -/
def arrayPieces (name : String) (params : List (String × String)) : List Piece :=
  if params.isEmpty then [.code (name ++ " = []; ")]
  else [.code (name ++ " = [")] ++ params.flatMap entryPieces ++ [.code "]; "]

/-- An entry of `$_FILES`. -/
def filePieces (file : UploadedFile) : List Piece :=
  [.quoted file.fieldName, .code " => ['name' => ", .quoted file.fileName, .code ", 'type' => ",
    .quoted file.contentType, .code ", 'tmp_name' => ", .quoted file.tmpPath,
    .code ", 'error' => 0, 'size' => ", .number file.data.length ']', .code ", "]

/-- An entry of the list of temp files. -/
def tmpPieces (file : UploadedFile) : List Piece := [.quoted file.tmpPath, .code " => true, "]

namespace Superglobals

def serverPieces (g : Superglobals) : List Piece :=
  assignPieces (.plain "REQUEST_METHOD") (.quoted g.method) ++
    assignPieces (.plain "REQUEST_URI") (.quoted g.requestUri) ++
    assignPieces (.plain "QUERY_STRING") (.quoted g.queryString) ++
    assignPieces (.plain "SCRIPT_NAME") (.quoted g.scriptName) ++
    assignPieces (.plain "SCRIPT_FILENAME") (.quoted g.scriptFilename) ++
    assignPieces (.plain "DOCUMENT_ROOT") (.quoted g.documentRoot) ++
    assignPieces (.plain "SERVER_SOFTWARE") (.plain "Turbine/0.1.0") ++
    assignPieces (.plain "SERVER_PROTOCOL") (.plain "HTTP/1.1") ++
    assignPieces (.plain "SERVER_PORT") (.plain (toString g.serverPort.toNat)) ++
    assignPieces (.plain "SERVER_NAME") (.plain "localhost") ++
    (if g.isTls then assignPieces (.plain "HTTPS") (.plain "on") ++
        assignPieces (.plain "REQUEST_SCHEME") (.plain "https")
      else assignPieces (.plain "REQUEST_SCHEME") (.plain "http")) ++
    assignPieces (.plain "REMOTE_ADDR") (.quoted g.remoteAddr) ++
    assignPieces (.plain "REMOTE_PORT") (.plain "0") ++
    assignPieces (.plain "PATH_INFO") (.quoted g.pathInfo)

def headerPieces (g : Superglobals) : List Piece :=
  g.headers.flatMap (fun h => assignPieces (.quoted h.1) (.quoted h.2)) ++
    (g.contentType.map fun ct => assignPieces (.plain "CONTENT_TYPE") (.quoted ct)).getD [] ++
    (g.contentLength.map fun cl =>
      assignPieces (.plain "CONTENT_LENGTH") (.plain (toString cl))).getD []

def filesPieces (g : Superglobals) : List Piece :=
  if g.files.isEmpty then [.code "$_FILES = []; "]
  else [.code "$_FILES = ["] ++ g.files.flatMap filePieces ++
    [.code "]; $GLOBALS['__turbine_uploaded_files'] = ["] ++ g.files.flatMap tmpPieces ++
    [.code "]; "]

def bodyPieces (g : Superglobals) : List Piece :=
  (g.body.map fun body =>
    [.code "$GLOBALS['__turbine_raw_body'] = ", .quoted body, .code "; ",
      .code inputStreamCode]).getD []

/-- The program. -/
def program (g : Superglobals) : List Piece :=
  g.serverPieces ++ g.headerPieces ++ arrayPieces "$_GET" g.get ++ arrayPieces "$_POST" g.post ++
    arrayPieces "$_COOKIE" g.cookies ++
    [.code "$_REQUEST = array_merge($_GET, $_POST, $_COOKIE); "] ++ g.filesPieces ++ g.bodyPieces

end Superglobals

/-! ## its text -/

theorem printAll_append (ps qs : List Piece) :
    printAll (ps ++ qs) = printAll ps ++ printAll qs := by
  rw [← String.toList_inj]
  simp [printAll, String.toList_join]

theorem printAll_flatMap {α : Type} (l : List α) (f : α → List Piece) :
    printAll (l.flatMap f) = String.join (l.map fun a => printAll (f a)) := by
  rw [← String.toList_inj]
  simp [printAll, String.toList_join, List.map_flatMap, List.flatMap_map, List.flatMap_assoc]

theorem print_plain (text : String) : (Piece.plain text).print = "'" ++ text ++ "'" := by
  rw [← String.toList_inj]
  simp [Piece.print]

theorem print_quoted (text : String) :
    (Piece.quoted text).print = "'" ++ escapePhp text ++ "'" := by
  rw [← String.toList_inj]
  simp [Piece.print, escapePhp_eq]

/-- An assignment, by what stands between the quotes of its literals. -/
theorem printAll_assign {key value : Piece} {keyText valueText : String}
    (hkey : key.print = "'" ++ keyText ++ "'") (hvalue : value.print = "'" ++ valueText ++ "'") :
    printAll (assignPieces key value) = assignServer keyText valueText := by
  have hcode : ∀ text, (Piece.code text).print = text := fun _ => rfl
  unfold assignServer
  rw [← String.toList_inj]
  simp [printAll, assignPieces, hkey, hvalue, hcode]

theorem printAll_plain (key value : String) :
    printAll (assignPieces (.plain key) (.plain value)) = assignServer key value :=
  printAll_assign (print_plain key) (print_plain value)

theorem printAll_quoted (key value : String) :
    printAll (assignPieces (.plain key) (.quoted value)) = assignServer key (escapePhp value) :=
  printAll_assign (print_plain key) (print_quoted value)

theorem printAll_header (key value : String) :
    printAll (assignPieces (.quoted key) (.quoted value)) =
      assignServer (escapePhp key) (escapePhp value) :=
  printAll_assign (print_quoted key) (print_quoted value)

theorem printAll_code (text : String) : printAll [.code text] = text := by
  simp [printAll, Piece.print, String.join]

theorem printAll_array (name : String) (params : List (String × String)) :
    printAll (arrayPieces name params) = assignArray name params := by
  have hentry : ∀ p, printAll (entryPieces p) =
      "'" ++ escapePhp p.1 ++ "' => '" ++ escapePhp p.2 ++ "', " := by
    intro p
    rw [← String.toList_inj]
    simp [printAll, entryPieces, Piece.print, escapePhp_eq]
  rw [arrayPieces, assignArray]
  split
  · exact printAll_code _
  · rw [printAll_append, printAll_append, printAll_flatMap, printAll_code, printAll_code]
    simp only [hentry]

section Text

variable (r : FullHttpRequest) (appRoot scriptPath clientIp : String) (serverPort : UInt16)
  (isTls : Bool)

theorem printAll_serverPieces :
    printAll (r.superglobals appRoot scriptPath clientIp serverPort isTls).serverPieces =
      r.serverCode appRoot scriptPath clientIp serverPort isTls := by
  have hslash : escapePhp ("/" ++ scriptPath) = "/" ++ escapePhp scriptPath := by
    rw [escapePhp_eq, escapePhp_eq, String.toList_append, escape_append, String.ofList_append]
    rfl
  unfold Superglobals.serverPieces FullHttpRequest.serverCode FullHttpRequest.superglobals
  cases isTls <;>
    simp only [printAll_append, printAll_plain, printAll_quoted, hslash, if_true,
      Bool.false_eq_true, if_false]

theorem printAll_headerPieces :
    printAll (r.superglobals appRoot scriptPath clientIp serverPort isTls).headerPieces =
      r.headerCode := by
  unfold Superglobals.headerPieces FullHttpRequest.headerCode FullHttpRequest.superglobals
  have hnil : printAll [] = "" := rfl
  cases r.contentType <;> cases r.contentLength <;>
    simp only [printAll_append, printAll_flatMap, printAll_header, printAll_plain, printAll_quoted,
      List.map_map, Option.map_some, Option.map_none, Option.getD_some, Option.getD_none, hnil,
      Function.comp_def]

theorem printAll_filesPieces :
    printAll (r.superglobals appRoot scriptPath clientIp serverPort isTls).filesPieces =
      r.filesCode := by
  have hfile : ∀ file : UploadedFile, printAll (filePieces file) =
      "'" ++ escapePhp file.fieldName ++ "' => ['name' => '" ++ escapePhp file.fileName ++
        "', 'type' => '" ++ escapePhp file.contentType ++ "', 'tmp_name' => '" ++
        escapePhp file.tmpPath ++ "', 'error' => 0, 'size' => " ++ toString file.data.length ++
        "], " := by
    intro file
    rw [← String.toList_inj]
    simp [printAll, filePieces, Piece.print, escapePhp_eq]
  have htmp : ∀ file : UploadedFile, printAll (tmpPieces file) =
      "'" ++ escapePhp file.tmpPath ++ "' => true, " := by
    intro file
    rw [← String.toList_inj]
    simp [printAll, tmpPieces, Piece.print, escapePhp_eq]
  unfold Superglobals.filesPieces FullHttpRequest.filesCode FullHttpRequest.superglobals
  dsimp only
  split
  · exact printAll_code _
  · simp only [printAll_append, printAll_flatMap, printAll_code, hfile, htmp]
    rw [← String.toList_inj]
    simp

theorem printAll_bodyPieces :
    printAll (r.superglobals appRoot scriptPath clientIp serverPort isTls).bodyPieces =
      rawBodyCode r.body := by
  unfold Superglobals.bodyPieces FullHttpRequest.superglobals rawBodyCode
  dsimp only
  split
  · rfl
  · rw [← String.toList_inj]
    simp [printAll, Piece.print, escapePhp_eq]

/-- The code is the text of the program. -/
theorem phpSuperglobalsCode_eq :
    r.phpSuperglobalsCode appRoot scriptPath clientIp serverPort isTls =
      printAll (r.superglobals appRoot scriptPath clientIp serverPort isTls).program := by
  rw [FullHttpRequest.phpSuperglobalsCode, Superglobals.program]
  simp only [printAll_append, printAll_serverPieces, printAll_headerPieces, printAll_array,
    printAll_code, printAll_filesPieces, printAll_bodyPieces]
  rfl

end Text

/-! ## what it is read as -/

theorem plain_toString (n : Nat) : Plain (toString n).toList := by
  intro c hc
  rw [Nat.toString_eq_repr, Nat.toList_repr] at hc
  have hdigit : c.isDigit = true := Nat.isDigit_of_mem_toDigits (by decide) (by decide) hc
  constructor <;> rintro rfl <;> exact absurd hdigit (by decide)

theorem ok_assignPieces {key value : Piece} (hkey : key.Ok) (hvalue : value.Ok) :
    ∀ p ∈ assignPieces key value, p.Ok := by
  have hopen : Closed "$_SERVER[" := closed_ofList rfl
  have heq : Closed "] = " := closed_ofList rfl
  have hend : Closed "; " := closed_ofList rfl
  simp only [assignPieces, List.forall_mem_cons]
  exact ⟨hopen, hkey, heq, hvalue, hend, by simp⟩

theorem closed_inputStreamCode : Closed inputStreamCode := by
  refine closed_join ?_
  simp only [List.forall_mem_cons]
  and_intros
  all_goals first | exact closed_ofList rfl | simp

theorem ok_arrayPieces {name : String} {params : List (String × String)} (hname : Closed name) :
    ∀ p ∈ arrayPieces name params, p.Ok := by
  have hentry : ∀ entry : String × String, ∀ p ∈ entryPieces entry, p.Ok := by
    intro entry
    have harrow : Closed " => " := closed_ofList rfl
    have hcomma : Closed ", " := closed_ofList rfl
    simp only [entryPieces, List.forall_mem_cons]
    exact ⟨trivial, harrow, trivial, hcomma, by simp⟩
  have hempty : Closed (name ++ " = []; ") := hname.append (closed_ofList rfl)
  have hopen : Closed (name ++ " = [") := hname.append (closed_ofList rfl)
  have hclose : Closed "]; " := closed_ofList rfl
  rw [arrayPieces]
  split
  · exact List.forall_mem_singleton.2 hempty
  · simp only [List.forall_mem_append, List.forall_mem_singleton, List.forall_mem_flatMap]
    exact ⟨⟨hopen, fun entry _ => hentry entry⟩, hclose⟩

theorem ok_filesPieces (g : Superglobals) : ∀ p ∈ g.filesPieces, p.Ok := by
  have hfile : ∀ file : UploadedFile, ∀ p ∈ filePieces file, p.Ok := by
    intro file
    have hname : Closed " => ['name' => " := closed_ofList rfl
    have htype : Closed ", 'type' => " := closed_ofList rfl
    have htmp : Closed ", 'tmp_name' => " := closed_ofList rfl
    have hsize : Closed ", 'error' => 0, 'size' => " := closed_ofList rfl
    have hcomma : Closed ", " := closed_ofList rfl
    have hbracket : ']'.isDigit = false ∧ ']' ≠ '\'' := by decide
    simp only [filePieces, List.forall_mem_cons]
    exact ⟨trivial, hname, trivial, htype, trivial, htmp, trivial, hsize, hbracket, hcomma, by simp⟩
  have htmp : ∀ file : UploadedFile, ∀ p ∈ tmpPieces file, p.Ok := by
    intro file
    have htrue : Closed " => true, " := closed_ofList rfl
    simp only [tmpPieces, List.forall_mem_cons]
    exact ⟨trivial, htrue, by simp⟩
  have hempty : Closed "$_FILES = []; " := closed_ofList rfl
  have hopen : Closed "$_FILES = [" := closed_ofList rfl
  have hnext : Closed "]; $GLOBALS['__turbine_uploaded_files'] = [" := closed_ofList rfl
  have hclose : Closed "]; " := closed_ofList rfl
  rw [Superglobals.filesPieces]
  split
  · exact List.forall_mem_singleton.2 hempty
  · simp only [List.forall_mem_append, List.forall_mem_singleton, List.forall_mem_flatMap]
    exact ⟨⟨⟨⟨hopen, fun file _ => hfile file⟩, hnext⟩, fun file _ => htmp file⟩, hclose⟩

theorem ok_serverPieces (g : Superglobals) : ∀ p ∈ g.serverPieces, p.Ok := by
  have hvalue : ∀ {key : List Char} {value : String}, Plain key →
      ∀ p ∈ assignPieces (.plain (String.ofList key)) (.quoted value), p.Ok :=
    fun h => ok_assignPieces (plain_ofList h) trivial
  have hfixed : ∀ {key value : List Char}, Plain key → Plain value →
      ∀ p ∈ assignPieces (.plain (String.ofList key)) (.plain (String.ofList value)), p.Ok :=
    fun h h' => ok_assignPieces (plain_ofList h) (plain_ofList h')
  have hscheme : ∀ p ∈ (if g.isTls then assignPieces (.plain "HTTPS") (.plain "on") ++
      assignPieces (.plain "REQUEST_SCHEME") (.plain "https")
      else assignPieces (.plain "REQUEST_SCHEME") (.plain "http")), p.Ok := by
    split
    · exact List.forall_mem_append.2
        ⟨hfixed (by decide) (by decide), hfixed (by decide) (by decide)⟩
    · exact hfixed (by decide) (by decide)
  have hport : ∀ p ∈ assignPieces (.plain "SERVER_PORT") (.plain (toString g.serverPort.toNat)),
      p.Ok := ok_assignPieces (plain_ofList (by decide)) (plain_toString _)
  simp only [Superglobals.serverPieces, List.forall_mem_append]
  and_intros
  exacts [hvalue (by decide), hvalue (by decide), hvalue (by decide), hvalue (by decide),
    hvalue (by decide), hvalue (by decide), hfixed (by decide) (by decide),
    hfixed (by decide) (by decide), hport, hfixed (by decide) (by decide), hscheme,
    hvalue (by decide), hfixed (by decide) (by decide), hvalue (by decide)]

theorem ok_headerPieces (g : Superglobals) : ∀ p ∈ g.headerPieces, p.Ok := by
  have htype : ∀ p ∈ (g.contentType.map fun ct =>
      assignPieces (.plain "CONTENT_TYPE") (.quoted ct)).getD [], p.Ok := by
    cases g.contentType with
    | none => exact List.forall_mem_nil _
    | some ct => exact ok_assignPieces (plain_ofList (by decide)) trivial
  have hlength : ∀ p ∈ (g.contentLength.map fun cl =>
      assignPieces (.plain "CONTENT_LENGTH") (.plain (toString cl))).getD [], p.Ok := by
    cases g.contentLength with
    | none => exact List.forall_mem_nil _
    | some cl => exact ok_assignPieces (plain_ofList (by decide)) (plain_toString cl)
  simp only [Superglobals.headerPieces, List.forall_mem_append, List.forall_mem_flatMap]
  exact ⟨⟨fun h _ => ok_assignPieces trivial trivial, htype⟩, hlength⟩

theorem ok_bodyPieces (g : Superglobals) : ∀ p ∈ g.bodyPieces, p.Ok := by
  rw [Superglobals.bodyPieces]
  cases g.body with
  | none => exact List.forall_mem_nil _
  | some body =>
    have hopen : Closed "$GLOBALS['__turbine_raw_body'] = " := closed_ofList rfl
    have hend : Closed "; " := closed_ofList rfl
    simp only [Option.map_some, Option.getD_some, List.forall_mem_cons]
    exact ⟨hopen, trivial, hend, closed_inputStreamCode, by simp⟩

/-- The fixed parts of the program are closed, and the literals that are written as they
are need no escapes. -/
theorem ok_program (g : Superglobals) : ∀ p ∈ g.program, p.Ok := by
  have hget : Closed "$_GET" := closed_ofList rfl
  have hpost : Closed "$_POST" := closed_ofList rfl
  have hcookie : Closed "$_COOKIE" := closed_ofList rfl
  have hrequest : Closed "$_REQUEST = array_merge($_GET, $_POST, $_COOKIE); " := closed_ofList rfl
  simp only [Superglobals.program, List.forall_mem_append, List.forall_mem_singleton]
  and_intros
  exacts [ok_serverPieces g, ok_headerPieces g, ok_arrayPieces hget, ok_arrayPieces hpost,
    ok_arrayPieces hcookie, hrequest, ok_filesPieces g, ok_bodyPieces g]

/-! ## what its statements look like -/

/-- What the shape of the program depends on. -/
structure Layout where
  isTls : Bool
  hasContentType : Bool
  hasContentLength : Bool
  hasBody : Bool
  headers : Nat
  get : Nat
  post : Nat
  cookies : Nat
  files : Nat
deriving DecidableEq, Repr

def FullHttpRequest.layout (r : FullHttpRequest) (isTls : Bool) : Layout where
  isTls
  hasContentType := r.contentType.isSome
  hasContentLength := r.contentLength.isSome
  hasBody := !r.body.isEmpty
  headers := r.headers.length
  get := r.getParams.length
  post := r.postParams.length
  cookies := r.cookies.length
  files := r.files.length

namespace Superglobals

def layout (g : Superglobals) : Layout where
  isTls := g.isTls
  hasContentType := g.contentType.isSome
  hasContentLength := g.contentLength.isSome
  hasBody := g.body.isSome
  headers := g.headers.length
  get := g.get.length
  post := g.post.length
  cookies := g.cookies.length
  files := g.files.length

end Superglobals

/-- A program of this layout, in which all literals are empty. -/
def Layout.blank (l : Layout) : Superglobals where
  method := ""
  requestUri := ""
  queryString := ""
  scriptName := ""
  scriptFilename := ""
  documentRoot := ""
  serverPort := 0
  isTls := l.isTls
  remoteAddr := ""
  pathInfo := ""
  headers := List.replicate l.headers ("", "")
  contentType := if l.hasContentType then some "" else none
  contentLength := if l.hasContentLength then some 0 else none
  get := List.replicate l.get ("", "")
  post := List.replicate l.post ("", "")
  cookies := List.replicate l.cookies ("", "")
  files := List.replicate l.files ⟨⟨"", "", "", []⟩, ""⟩
  body := if l.hasBody then some "" else none

/-- The shapes of the statements of all programs of this layout. -/
def Layout.shapes (l : Layout) : List (List Kind) := Base.shapes (allTokens l.blank.program)

theorem layout_superglobals (r : FullHttpRequest) (appRoot scriptPath clientIp : String)
    (serverPort : UInt16) (isTls : Bool) :
    (r.superglobals appRoot scriptPath clientIp serverPort isTls).layout = r.layout isTls := by
  cases hbody : r.body with
  | nil | cons =>
    simp [Superglobals.layout, FullHttpRequest.superglobals, FullHttpRequest.layout, hbody]

theorem layout_blank (l : Layout) : l.blank.layout = l := by
  obtain ⟨isTls, hasType, hasLength, hasBody, headers, get, post, cookies, files⟩ := l
  cases hasType <;> cases hasLength <;> cases hasBody <;>
    simp [Superglobals.layout, Layout.blank]

@[simp] theorem kinds_assignPieces (key value : Piece) :
    kinds (assignPieces key value) = (Piece.code "$_SERVER[").kinds ++ (key.kinds ++
      ((Piece.code "] = ").kinds ++ (value.kinds ++ ((Piece.code "; ").kinds ++ [])))) := by
  simp only [assignPieces, kinds_cons, kinds_nil]

theorem isEmpty_eq_of_length {α : Type} {l l' : List α} (h : l.length = l'.length) :
    l.isEmpty = l'.isEmpty := by
  rw [Bool.eq_iff_iff, List.isEmpty_iff_length_eq_zero, List.isEmpty_iff_length_eq_zero, h]

theorem kinds_arrayPieces (name : String) {params params' : List (String × String)}
    (h : params.length = params'.length) :
    kinds (arrayPieces name params) = kinds (arrayPieces name params') := by
  have hentries : kinds (params.flatMap entryPieces) = kinds (params'.flatMap entryPieces) :=
    kinds_flatMap (fun _ _ => by simp [entryPieces]) h
  rw [arrayPieces, arrayPieces, isEmpty_eq_of_length h]
  split
  · rfl
  · simp only [kinds_append, hentries]

variable {g g' : Superglobals}

theorem kinds_serverPieces (h : g.isTls = g'.isTls) :
    kinds g.serverPieces = kinds g'.serverPieces := by
  rw [Superglobals.serverPieces, Superglobals.serverPieces, h]
  simp only [kinds_append, kinds_assignPieces, Piece.kinds_quoted, Piece.kinds_plain]

theorem kinds_headerPieces (hheaders : g.headers.length = g'.headers.length)
    (htype : g.contentType.isSome = g'.contentType.isSome)
    (hlength : g.contentLength.isSome = g'.contentLength.isSome) :
    kinds g.headerPieces = kinds g'.headerPieces := by
  have hassigns : kinds (g.headers.flatMap fun h => assignPieces (.quoted h.1) (.quoted h.2)) =
      kinds (g'.headers.flatMap fun h => assignPieces (.quoted h.1) (.quoted h.2)) :=
    kinds_flatMap (fun _ _ => by simp) hheaders
  rw [Superglobals.headerPieces, Superglobals.headerPieces]
  cases ht : g.contentType <;> cases ht' : g'.contentType <;> cases hl : g.contentLength <;>
    cases hl' : g'.contentLength <;> simp_all [kinds_append]

theorem kinds_filesPieces (h : g.files.length = g'.files.length) :
    kinds g.filesPieces = kinds g'.filesPieces := by
  have hfiles : kinds (g.files.flatMap filePieces) = kinds (g'.files.flatMap filePieces) :=
    kinds_flatMap (fun _ _ => by simp [filePieces]) h
  have htmp : kinds (g.files.flatMap tmpPieces) = kinds (g'.files.flatMap tmpPieces) :=
    kinds_flatMap (fun _ _ => by simp [tmpPieces]) h
  rw [Superglobals.filesPieces, Superglobals.filesPieces, isEmpty_eq_of_length h]
  split
  · rfl
  · simp only [kinds_append, hfiles, htmp]

theorem kinds_bodyPieces (h : g.body.isSome = g'.body.isSome) :
    kinds g.bodyPieces = kinds g'.bodyPieces := by
  rw [Superglobals.bodyPieces, Superglobals.bodyPieces]
  cases hbody : g.body <;> cases hbody' : g'.body <;> simp_all

/-- Nothing but the layout has a say in the kinds of the tokens. -/
theorem kinds_program (h : g.layout = g'.layout) : kinds g.program = kinds g'.program := by
  simp only [Superglobals.layout, Layout.mk.injEq] at h
  obtain ⟨htls, htype, hlength, hbody, hheaders, hget, hpost, hcookies, hfiles⟩ := h
  simp only [Superglobals.program, kinds_append, kinds_serverPieces htls,
    kinds_headerPieces hheaders htype hlength, kinds_arrayPieces _ hget, kinds_arrayPieces _ hpost,
    kinds_arrayPieces _ hcookies, kinds_filesPieces hfiles, kinds_bodyPieces hbody]

/-- The code is read as the program, in which each literal denotes what was given to
`escape_php`, with the fixed text around it.  The shapes of its statements depend on the
layout only. -/
theorem superglobals_read_back (r : FullHttpRequest) (appRoot scriptPath clientIp : String)
    (serverPort : UInt16) (isTls : Bool) :
    let tokens := allTokens (r.superglobals appRoot scriptPath clientIp serverPort isTls).program
    lex (r.phpSuperglobalsCode appRoot scriptPath clientIp serverPort isTls) = some tokens ∧
      shapes tokens = (r.layout isTls).shapes := by
  intro tokens
  refine ⟨?_, ?_⟩
  · rw [phpSuperglobalsCode_eq]
    exact lex_printAll (ok_program _)
  · have hlayout : (r.superglobals appRoot scriptPath clientIp serverPort isTls).layout =
        (r.layout isTls).blank.layout := by
      rw [layout_superglobals, layout_blank]
    exact shapes_of_kinds (kinds_program hlayout)

end Turbine.Http
