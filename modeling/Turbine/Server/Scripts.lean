import Turbine.Base.Utf8
import Turbine.Http.Path

/-!
# Turbine.Server.Scripts

From a request to the script that answers it: the choice of the virtual host, the
static files, `AppStructure::resolve_path`, the execution whitelist, the data
directories, `RequestGuard`, and the path the worker is told to execute.

The file system is read by components: an empty segment or `.` in the middle of
a path does not count, and a path whose last segment is one of these, or `..`,
names a directory.
-/

namespace Turbine.Server

open Base Http

/-! ## the file system -/

/-- The regular files, by the components of their absolute paths, and what reading
one gives.  `leaves root path`: symbolic links lead from `path` out of `root`. -/
structure FileSystem where
  file : List (List Char) → Bool
  contents : List (List Char) → Except String Bytes
  leaves : List (List Char) → List (List Char) → Bool

/-- The path can only name a directory. -/
def namesDirectory (path : String) : Bool :=
  match (segments path).getLast? with
  | some last => !counts last || last = ['.', '.']
  | none => true

/-- `Path::is_file`. -/
def FileSystem.isFile (fs : FileSystem) (path : String) : Bool :=
  !namesDirectory path && fs.file (components path)

/-- `std::fs::read`. -/
def FileSystem.read (fs : FileSystem) (path : String) : Except String Bytes :=
  if namesDirectory path then .error "Not a directory (os error 20)"
  else fs.contents (components path)

/-! ## resolving a path -/

/-- `AppStructure`, as far as requests are concerned.  `document_root_str` is the text
of `document_root`. -/
structure AppStructure where
  documentRoot : String
  entryPoint : String
  frontController : Bool
deriving DecidableEq, Repr

/-- `AppStructure::resolve_path`. -/
def AppStructure.resolvePath (app : AppStructure) (fs : FileSystem) (uriPath : String) : String :=
  let clean := (split uriPath '?').headD uriPath
  let relative := trimStartMatches clean '/'
  let trimmed := trimEndMatches relative '/'
  let dirIndex := trimmed ++ "/index.php"
  if endsWith clean ".php" && !relative.isEmpty &&
      fs.isFile (joinPath app.documentRoot relative) then relative
  else if !relative.isEmpty && !endsWith clean ".php" &&
      fs.isFile (joinPath app.documentRoot relative) then relative
  else if !trimmed.isEmpty && fs.isFile (joinPath app.documentRoot dirIndex) then dirIndex
  else if app.frontController || clean == "/" || relative.isEmpty then app.entryPoint
  else relative

/-- `try_serve_static`: the file that is served as it is. -/
def AppStructure.serveStatic (app : AppStructure) (fs : FileSystem) (uriPath : String) :
    Option Bytes :=
  let clean := (split uriPath '?').headD uriPath
  let relative := trimStartMatches clean '/'
  let path := joinPath app.documentRoot relative
  if endsWith clean ".php" || clean == "/" then none
  else if relative.isEmpty || containsStr relative ".." then none
  else if fs.leaves (components app.documentRoot) (components path) then none
  else if fs.isFile path then (fs.read path).toOption
  else none

/-! ## the request guard -/

inductive PathGuardError
  | pathTraversal (path : String)
  | nullByte (path : String)
  | blockedPath (path : String)
deriving DecidableEq, Repr

def PathGuardError.display : PathGuardError → String
  | .pathTraversal path => "Path traversal detected: " ++ path
  | .nullByte path => "Null byte in path: " ++ path
  | .blockedPath path => "Access to blocked system path: " ++ path

/-- `BLOCKED_PATHS`. -/
def blockedPaths : List String :=
  ["/etc", "/var", "/home", "/root", "/proc", "/sys", "/dev", "/tmp", "/usr/sbin", "/usr/bin",
    "/sbin", "/bin"]

/-- `RequestGuard`.  `lower` is `str::to_lowercase`. -/
structure RequestGuard where
  root : String
  lower : String → String

/-- `normalize_path`. -/
def normalizePath (path : String) : Except PathGuardError (List (List Char)) :=
  if (components path).contains ['.', '.'] then .error (.pathTraversal path)
  else .ok (components path)

/-- `check_blocked_path`. -/
def RequestGuard.checkBlockedPath (guard : RequestGuard) (path : String) :
    Except PathGuardError Unit :=
  if blockedPaths.any (fun blocked => startsWith (guard.lower path) blocked) then
    .error (.blockedPath path)
  else if containsStr (guard.lower path) "c:\\" || containsStr (guard.lower path) "c:/" then
    .error (.blockedPath path)
  else .ok ()

/-- `RequestGuard::validate`. -/
def RequestGuard.validate (guard : RequestGuard) (path : String) :
    Except PathGuardError (List (List Char)) :=
  if path.toList.contains '\x00' then .error (.nullByte path)
  else do
    let normalized ← normalizePath path
    guard.checkBlockedPath path
    return normalized

/-- `RequestGuard::exists`.  Joining nothing to the root names the root directory. -/
def RequestGuard.exists (guard : RequestGuard) (fs : FileSystem) (path : String) : Bool :=
  if path.toList.contains '\x00' then false
  else match normalizePath path with
    | .error _ => false
    | .ok normalized => !normalized.isEmpty && fs.file (components guard.root ++ normalized)

/-! ## the handler up to the dispatch -/

structure ServerState where
  appStructure : AppStructure
  /-- By domain, in lower case. -/
  virtualHosts : List (String × AppStructure)
  executionWhitelist : List String
  dataDirectories : List String
  persistentWorkers : Bool
  lower : String → String

/-- The guard is built once, for the root of the default application. -/
def ServerState.requestGuard (srv : ServerState) : RequestGuard :=
  ⟨srv.appStructure.documentRoot, srv.lower⟩

/-- What routing reads of a request: the first `Host` field, if it is text, the path
of the URI, and the reason if the input checks block it. -/
structure Routed where
  host : Option String
  path : String
  blocked : Option String
deriving DecidableEq, Repr

/-- The application of the virtual host, or the default one. -/
def ServerState.app (srv : ServerState) (host : Option String) : AppStructure :=
  let found := if srv.virtualHosts.isEmpty then none
    else host.bind fun h =>
      let domain := srv.lower ((split h ':').headD h)
      (srv.virtualHosts.find? (fun entry => entry.1 == domain)).map (·.2)
  found.getD srv.appStructure

/-- The script path, relative to the document root of the application. -/
def ServerState.phpPath (srv : ServerState) (fs : FileSystem) (req : Routed) : String :=
  (srv.app req.host).resolvePath fs req.path

/-- The execution whitelist lets the path through. -/
def ServerState.whitelisted (srv : ServerState) (phpPath : String) : Bool :=
  srv.executionWhitelist.isEmpty || srv.executionWhitelist.contains phpPath

/-- The loop over the data directories finds a match. -/
def inDataDirectory (dirs : List String) (phpPath : String) : Bool :=
  dirs.any fun dir => startsWith phpPath (trimEndMatches dir '/')

/-- Why a request is not dispatched. -/
inductive Refusal
  | static (body : Bytes)
  | notWhitelisted
  | dataDirectory
  | blocked (reason : String)
  | notFound (phpPath : String)
  | invalid (e : PathGuardError)
  | unreadable (e : String)
deriving DecidableEq, Repr

/-- The status and the body then, for a client that does not have the static file yet
and a server without an error page of its own. -/
def Refusal.response : Refusal → Nat × Bytes
  | .static body => (200, body)
  | .notWhitelisted => (403, utf8 "403 Forbidden: file not in execution whitelist")
  | .dataDirectory => (403, utf8 "403 Forbidden: execution denied in data directory")
  | .blocked reason => (403, utf8 ("403 Forbidden: " ++ reason))
  | .notFound phpPath => (404, utf8 ("File not found: " ++ phpPath))
  | .invalid e => (403, utf8 ("403 Forbidden: " ++ e.display))
  | .unreadable e => (500, utf8 ("File read error: " ++ e))

/-- A script that passed the checks.  Its source is read for the cache, which
persistent workers do without. -/
structure Script where
  app : AppStructure
  phpPath : String
  source : Option Bytes
deriving DecidableEq, Repr

/-- Where the guard's root has the script. -/
def ServerState.sourcePath (srv : ServerState) (phpPath : String) : String :=
  joinPath srv.requestGuard.root phpPath

/-- The checks after the whitelist and the data directories. -/
def ServerState.admitRest (srv : ServerState) (fs : FileSystem) (req : Routed) (phpPath : String) :
    Except Refusal Script :=
  match req.blocked with
  | some reason => .error (.blocked reason)
  | none =>
    if !srv.requestGuard.exists fs phpPath then .error (.notFound phpPath)
    else if srv.persistentWorkers then .ok ⟨srv.app req.host, phpPath, none⟩
    else match srv.requestGuard.validate phpPath with
      | .error e => .error (.invalid e)
      | .ok _ =>
        match fs.read (srv.sourcePath phpPath) with
        | .error e => .error (.unreadable e)
        | .ok source => .ok ⟨srv.app req.host, phpPath, some source⟩

/-- `handle_request_inner` up to the lookup in the cache, or up to the dispatch for
persistent workers. -/
def ServerState.admit (srv : ServerState) (fs : FileSystem) (req : Routed) :
    Except Refusal Script :=
  match (srv.app req.host).serveStatic fs req.path with
  | some body => .error (.static body)
  | none =>
    if !srv.whitelisted (srv.phpPath fs req) then .error .notWhitelisted
    else if inDataDirectory srv.dataDirectories (srv.phpPath fs req) then .error .dataDirectory
    else srv.admitRest fs req (srv.phpPath fs req)

/-- The path the worker is told to execute: `script_filename` for persistent workers,
`abs_php_path` otherwise. -/
def ServerState.executedPath (srv : ServerState) (script : Script) : String :=
  if srv.persistentWorkers then script.app.documentRoot ++ "/" ++ script.phpPath
  else joinPath script.app.documentRoot script.phpPath

/-! ## what an admitted script has passed -/

variable {srv : ServerState} {fs : FileSystem} {req : Routed} {script : Script} {phpPath : String}

/-- A script that exists is a file below the guard's root. -/
theorem file_of_exists {guard : RequestGuard} {path : String} (h : guard.exists fs path = true) :
    fs.file (components guard.root ++ components path) = true := by
  unfold RequestGuard.exists normalizePath at h
  split at h
  · cases h
  · split at h
    · cases h
    case h_2 normalized hnormalized =>
      split at hnormalized
      · cases hnormalized
      · cases hnormalized
        exact (Bool.and_eq_true_iff.1 h).2

theorem contents_of_read {path : String} {source : Bytes} (h : fs.read path = .ok source) :
    fs.contents (components path) = .ok source := by
  unfold FileSystem.read at h
  split at h
  · cases h
  · exact h

/-- What the last checks leave: a script that exists, and whose source was read if it
is there. -/
theorem admitRest_eq_ok (h : srv.admitRest fs req phpPath = .ok script) :
    script.app = srv.app req.host ∧ script.phpPath = phpPath ∧
      srv.requestGuard.exists fs phpPath = true ∧
      ∀ source, script.source = some source → fs.read (srv.sourcePath phpPath) = .ok source := by
  unfold ServerState.admitRest at h
  split at h
  · cases h
  · split at h
    · cases h
    case isFalse hexists =>
      have hexists : srv.requestGuard.exists fs phpPath = true := by simpa using hexists
      split at h
      · cases h
        exact ⟨rfl, rfl, hexists, nofun⟩
      · split at h
        · cases h
        · split at h
          · cases h
          case h_2 source hread =>
            cases h
            refine ⟨rfl, rfl, hexists, ?_⟩
            rintro _ ⟨⟩
            exact hread

theorem admitRest_ne_dataDirectory : srv.admitRest fs req phpPath ≠ .error .dataDirectory := by
  unfold ServerState.admitRest
  split
  · nofun
  · split
    · nofun
    · split
      · nofun
      · split
        · nofun
        · split <;> nofun

/-- The request comes to the check of the data directories. -/
def ServerState.Reaches (srv : ServerState) (fs : FileSystem) (req : Routed) : Prop :=
  (srv.app req.host).serveStatic fs req.path = none ∧
    srv.whitelisted (srv.phpPath fs req) = true

/-- An admitted request came past the data directories. -/
theorem admit_eq_ok_iff : srv.admit fs req = .ok script ↔
    srv.Reaches fs req ∧ inDataDirectory srv.dataDirectories (srv.phpPath fs req) = false ∧
      srv.admitRest fs req (srv.phpPath fs req) = .ok script := by
  unfold ServerState.admit ServerState.Reaches
  cases (srv.app req.host).serveStatic fs req.path with
  | some body => simp
  | none =>
    cases srv.whitelisted (srv.phpPath fs req) with
    | false => simp
    | true => cases inDataDirectory srv.dataDirectories (srv.phpPath fs req) <;> simp

theorem admit_eq_dataDirectory_iff : srv.admit fs req = .error .dataDirectory ↔
    srv.Reaches fs req ∧ inDataDirectory srv.dataDirectories (srv.phpPath fs req) = true := by
  unfold ServerState.admit ServerState.Reaches
  cases (srv.app req.host).serveStatic fs req.path with
  | some body => simp
  | none =>
    cases srv.whitelisted (srv.phpPath fs req) with
    | false => simp
    | true =>
      cases inDataDirectory srv.dataDirectories (srv.phpPath fs req) with
      | true => simp
      | false => simpa using admitRest_ne_dataDirectory

end Turbine.Server
