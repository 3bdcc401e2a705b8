import Turbine.Http.Path
import Turbine.Http.Request

/-!
# Turbine.Http.Superglobals

`php_superglobals_code`: the PHP code that hands a request to a script in the
server's own process.  Every value stands in a single-quoted literal.

* `literal_infix_phpSuperglobalsCode`: so does that of the body.
-/

namespace Turbine.Http

open Base

/-- `escape_php`. -/
def escapePhp (s : String) : String := replaceChar (replaceChar s '\\' "\\\\") '\'' "\\'"

/-- `$_SERVER['key'] = 'value'; `. -/
def assignServer (key value : String) : String := "$_SERVER['" ++ key ++ "'] = '" ++ value ++ "'; "

/-- An array of parameters. -/
def assignArray (name : String) (params : List (String × String)) : String :=
  if params.isEmpty then name ++ " = []; "
  else name ++ " = [" ++
    String.join (params.map fun p => "'" ++ escapePhp p.1 ++ "' => '" ++ escapePhp p.2 ++ "', ") ++
    "]; "

/-- The path with the query string. -/
def FullHttpRequest.fullUri (r : FullHttpRequest) : String :=
  if r.queryString.isEmpty then r.path else r.path ++ "?" ++ r.queryString

/-- `$_SERVER`, up to the headers. -/
def FullHttpRequest.serverCode (r : FullHttpRequest) (appRoot scriptPath clientIp : String)
    (serverPort : UInt16) (isTls : Bool) : String :=
  assignServer "REQUEST_METHOD" (escapePhp r.method) ++
    assignServer "REQUEST_URI" (escapePhp r.fullUri) ++
    assignServer "QUERY_STRING" (escapePhp r.queryString) ++
    assignServer "SCRIPT_NAME" ("/" ++ escapePhp scriptPath) ++
    assignServer "SCRIPT_FILENAME" (escapePhp (joinPath appRoot scriptPath)) ++
    assignServer "DOCUMENT_ROOT" (escapePhp appRoot) ++
    assignServer "SERVER_SOFTWARE" "Turbine/0.1.0" ++
    assignServer "SERVER_PROTOCOL" "HTTP/1.1" ++
    assignServer "SERVER_PORT" (toString serverPort.toNat) ++
    assignServer "SERVER_NAME" "localhost" ++
    (if isTls then assignServer "HTTPS" "on" ++ assignServer "REQUEST_SCHEME" "https"
      else assignServer "REQUEST_SCHEME" "http") ++
    assignServer "REMOTE_ADDR" (escapePhp clientIp) ++
    assignServer "REMOTE_PORT" "0" ++
    assignServer "PATH_INFO" (escapePhp r.path)

/-- The headers in `$_SERVER`.  Their names are ASCII. -/
def FullHttpRequest.headerCode (r : FullHttpRequest) : String :=
  String.join (r.headers.map fun h =>
    assignServer (escapePhp ("HTTP_" ++ toAsciiUppercase (replaceChar h.1 '-' "_")))
      (escapePhp h.2)) ++
    (r.contentType.map fun ct => assignServer "CONTENT_TYPE" (escapePhp ct)).getD "" ++
    (r.contentLength.map fun cl => assignServer "CONTENT_LENGTH" (toString cl)).getD ""

/-- `$_FILES`, and the list of the temp files. -/
def FullHttpRequest.filesCode (r : FullHttpRequest) : String :=
  if r.files.isEmpty then "$_FILES = []; "
  else
    "$_FILES = [" ++ String.join (r.files.map fun file =>
      "'" ++ escapePhp file.fieldName ++ "' => ['name' => '" ++ escapePhp file.fileName ++
        "', 'type' => '" ++ escapePhp file.contentType ++ "', 'tmp_name' => '" ++
        escapePhp file.tmpPath ++ "', 'error' => 0, 'size' => " ++ toString file.data.length ++
        "], ") ++ "]; " ++
    "$GLOBALS['__turbine_uploaded_files'] = [" ++
      String.join (r.files.map fun file => "'" ++ escapePhp file.tmpPath ++ "' => true, ") ++ "]; "

/-- The stream wrapper that serves `php://input`. -/
def inputStreamCode : String := String.join
  ["if (!class_exists('TurbineInputStream')) \x7b ", "class TurbineInputStream \x7b ",
    "private $pos = 0; ", "private $data; ",
    "public function stream_open($path, $mode, $options, &$opened_path) \x7b ",
    "$this->data = $GLOBALS['__turbine_raw_body'] ?? ''; ", "return true; ", "\x7d ",
    "public function stream_read($count) \x7b ",
    "$chunk = substr($this->data, $this->pos, $count); ", "$this->pos += strlen($chunk); ",
    "return $chunk; ", "\x7d ",
    "public function stream_eof() \x7b return $this->pos >= strlen($this->data); \x7d ",
    "public function stream_stat() \x7b return ['size' => strlen($this->data)]; \x7d ",
    "public function stream_seek($offset, $whence) \x7b ",
    "if ($whence === SEEK_SET) \x7b $this->pos = $offset; \x7d ",
    "elseif ($whence === SEEK_CUR) \x7b $this->pos += $offset; \x7d ",
    "elseif ($whence === SEEK_END) \x7b $this->pos = strlen($this->data) + $offset; \x7d ",
    "return true; ", "\x7d ", "public function stream_tell() \x7b return $this->pos; \x7d ",
    "\x7d ", "stream_wrapper_unregister('php'); ",
    "stream_wrapper_register('php', 'TurbineInputStream'); ", "\x7d "]

/-- The body, for `php://input`. -/
def rawBodyCode (body : Bytes) : String :=
  if body.isEmpty then ""
  else "$GLOBALS['__turbine_raw_body'] = '" ++ escapePhp (fromUtf8Lossy body) ++ "'; " ++
    inputStreamCode

/-- `php_superglobals_code`. -/
def FullHttpRequest.phpSuperglobalsCode (r : FullHttpRequest)
    (appRoot scriptPath clientIp : String) (serverPort : UInt16) (isTls : Bool) : String :=
  r.serverCode appRoot scriptPath clientIp serverPort isTls ++ r.headerCode ++
    assignArray "$_GET" r.getParams ++ assignArray "$_POST" r.postParams ++
    assignArray "$_COOKIE" r.cookies ++
    "$_REQUEST = array_merge($_GET, $_POST, $_COOKIE); " ++ r.filesCode ++ rawBodyCode r.body

/-! ## the body in the code -/

/-- The characters of an escaped text. -/
def escapeChars (cs : List Char) : List Char := (escapePhp (String.ofList cs)).toList

theorem toList_escapePhp (s : String) : (escapePhp s).toList = escapeChars s.toList := by
  rw [escapeChars, String.ofList_toList]

theorem escapeChars_append (cs ds : List Char) :
    escapeChars (cs ++ ds) = escapeChars cs ++ escapeChars ds := by
  simp only [escapeChars, escapePhp, replaceChar, String.toList_ofList, List.flatMap_append]

/-- A text within another. -/
theorem utf8_infix (s t u : String) : utf8 t <:+: utf8 (s ++ t ++ u) := by
  rw [utf8_append, utf8_append]
  exact List.infix_append _ _ _

/-- What the PHP literal of `bytes` holds. -/
def literal (bytes : Bytes) : Bytes := utf8 (escapePhp (fromUtf8Lossy bytes))

theorem literal_eq (bytes : Bytes) :
    literal bytes = encodeChars (escapeChars (lossyChars bytes)) := by
  rw [literal, utf8, toList_escapePhp, fromUtf8Lossy, String.toList_ofList]

/-- A line of the body is a stretch of the body's literal. -/
theorem literal_line (front line back : Bytes) :
    literal line <:+: literal (front ++ 0x0A :: (line ++ 0x0D :: back)) := by
  have hcons : ∀ cs : List Char, '\n' :: cs = ['\n'] ++ cs := fun _ => rfl
  rw [literal_eq, literal_eq, lossyChars_line, hcons]
  simp only [escapeChars_append, encodeChars_append]
  rw [← List.append_assoc]
  exact List.infix_append' _ _ _

/-- The code holds the literal of a body that is not empty. -/
theorem literal_infix_phpSuperglobalsCode (r : FullHttpRequest)
    (appRoot scriptPath clientIp : String) (serverPort : UInt16) (isTls : Bool)
    (hbody : r.body ≠ []) :
    literal r.body <:+:
      utf8 (r.phpSuperglobalsCode appRoot scriptPath clientIp serverPort isTls) := by
  have hraw : literal r.body <:+: utf8 (rawBodyCode r.body) := by
    have hne : ¬ r.body.isEmpty = true := by simpa using hbody
    rw [rawBodyCode, if_neg hne, String.append_assoc, literal]
    exact utf8_infix _ _ _
  refine hraw.trans ?_
  rw [FullHttpRequest.phpSuperglobalsCode, utf8_append _ (rawBodyCode r.body)]
  exact (List.suffix_append _ _).isInfix

end Turbine.Http
