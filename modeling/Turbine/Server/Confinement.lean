import Turbine.Server.Checks
import Turbine.Server.Forward

/-!
# Turbine.Server.Confinement

Where the scripts that are dispatched lie.

`resolve_path` builds the script path from the text of the URI and leaves `..`
in it; only `RequestGuard::exists` refuses such a path.  The path that passes
is then joined to the document root of the host, by `Path::join` or with a slash,
depending on the way the request is dispatched.

* `dispatched_confined`: what is dispatched lies under the root.
-/

namespace Turbine.Server

open Base Http

/-! ## paths read lexically -/

/-- The components of a path, the root directory as an empty name. -/
def lexical (path : String) : List (List Char) :=
  (if startsWith path "/" then [[]] else []) ++ components path

/-- Read component by component, the path goes down from the root and never up again. -/
def Under (root path : String) : Prop :=
  ∃ rest, lexical path = lexical root ++ rest ∧ ['.', '.'] ∉ rest

theorem startsWith_slash_ofList_cons (c : Char) (l : List Char) :
    startsWith (String.ofList (c :: l)) "/" = ('/' == c) := by
  simp [startsWith, List.isPrefixOf]

/-- What follows a text that is not empty has no say in how it starts. -/
theorem startsWith_slash_append {a : String} (b : String) (h : a.isEmpty = false) :
    startsWith (a ++ b) "/" = startsWith a "/" := by
  obtain ⟨c, l, hcons⟩ : ∃ c l, a.toList = c :: l :=
    List.exists_cons_of_ne_nil fun hnil => by simp_all
  simp [startsWith, hcons, List.isPrefixOf]

theorem lexical_of_relative {path : String} (h : startsWith path "/" = false) :
    lexical path = components path := by
  rw [lexical, h]
  rfl

/-- A path below a root that is not empty is absolute iff the root is. -/
theorem lexical_append {root path : String} (b : String) (hroot : root.isEmpty = false)
    (h : path = root ++ b) {rest : List (List Char)}
    (hcomp : components path = components root ++ rest) : lexical path = lexical root ++ rest := by
  have hstart : startsWith path "/" = startsWith root "/" := by
    rw [h]
    exact startsWith_slash_append b hroot
  rw [lexical, lexical, hstart, hcomp, List.append_assoc]

theorem lexical_joinPath {root rel : String} (hrel : startsWith rel "/" = false) :
    lexical (joinPath root rel) = lexical root ++ components rel := by
  have hcomp : components (joinPath root rel) = components root ++ components rel :=
    components_joinPath hrel
  cases hroot : root.isEmpty with
  | true =>
    rw [String.isEmpty_iff.1 hroot] at hcomp ⊢
    have hjoin : joinPath "" rel = rel := by simp [joinPath, hrel]
    rw [hjoin, lexical_of_relative hrel]
    rfl
  | false =>
    by_cases hends : endsWith root "/" = true
    · exact lexical_append rel hroot (by simp [joinPath, hrel, hends]) hcomp
    · exact lexical_append ("/" ++ rel) hroot
        (by simp [joinPath, hrel, hends, hroot, String.append_assoc]) hcomp

/-- So does a slash between the two.  Under the empty root it leads to the root
directory. -/
theorem lexical_slash (root rel : String) :
    lexical (root ++ "/" ++ rel) =
      lexical root ++ ((if root.isEmpty then [[]] else []) ++ components rel) := by
  have hcomp := components_append_slash root rel
  cases hroot : root.isEmpty with
  | true =>
    rw [String.isEmpty_iff.1 hroot] at hcomp ⊢
    have hstart : startsWith ("" ++ "/" ++ rel) "/" = true := by simp [startsWith]
    rw [lexical, hstart, hcomp]
    rfl
  | false =>
    rw [String.append_assoc] at hcomp ⊢
    exact lexical_append ("/" ++ rel) hroot rfl hcomp

/-! ## the script path -/

variable {srv : ServerState} {fs : FileSystem} {req : Routed} {script : Script}

theorem relative_trimStartMatches (s : String) :
    startsWith (trimStartMatches s '/') "/" = false := by
  unfold trimStartMatches
  cases hrest : s.toList.dropWhile (· == '/') with
  | nil => rfl
  | cons c l =>
    have hhead := List.head?_dropWhile_not (· == '/') s.toList
    rw [hrest] at hhead
    rw [startsWith_slash_ofList_cons, Bool.beq_comm]
    simpa using hhead

theorem relative_trimEndMatches {s : String} (h : startsWith s "/" = false) :
    startsWith (trimEndMatches s '/') "/" = false := by
  have hfront : (trimEndMatches s '/').toList <+: s.toList := by
    rw [trimEndMatches, String.toList_ofList, ← List.reverse_suffix, List.reverse_reverse]
    exact List.dropWhile_suffix _
  refine Bool.eq_false_iff.2 fun hstart => Bool.eq_false_iff.1 h ?_
  exact List.isPrefixOf_iff_prefix.2 ((List.isPrefixOf_iff_prefix.1 hstart).trans hfront)

theorem relative_resolvePath {app : AppStructure} (h : startsWith app.entryPoint "/" = false)
    (uriPath : String) : startsWith (app.resolvePath fs uriPath) "/" = false := by
  have hrelative := relative_trimStartMatches ((split uriPath '?').headD uriPath)
  unfold AppStructure.resolvePath
  dsimp only
  split
  · exact hrelative
  · split
    · exact hrelative
    · split
      case isTrue hindex =>
        have hne := (Bool.and_eq_true_iff.1 hindex).1
        rw [Bool.not_eq_true'] at hne
        rw [startsWith_slash_append _ hne]
        exact relative_trimEndMatches hrelative
      case isFalse =>
        split
        · exact h
        · exact hrelative

theorem noParent_of_exists {guard : RequestGuard} {path : String}
    (h : guard.exists fs path = true) : ['.', '.'] ∉ components path := by
  intro hmem
  have hnormal : normalizePath path = .error (.pathTraversal path) := by
    rw [normalizePath, if_pos (List.contains_iff_mem.2 hmem)]
  unfold RequestGuard.exists at h
  rw [hnormal] at h
  split at h <;> cases h

/-! ## the path that is dispatched -/

/-- The absolute path of the script, as it is sent. -/
def Dispatch.scriptPath (q : Ready) : Dispatch → String
  | .persistent => q.script.app.documentRoot ++ "/" ++ q.script.phpPath
  | .single | .nativePipe | .nativeChannel | .poolNative | .poolPersistent => q.absPhpPath

/-- The data sent to have the script at `path` executed. -/
def Dispatch.payloadFor (cfg : DispatchConfig) (q : Ready) (path : String) : Dispatch → Payload
  | .single => .code { q.phpRequest cfg with
      code :=
        q.request.phpSuperglobalsCode cfg.currentDir q.script.phpPath q.clientIp cfg.serverPort
            cfg.isTls ++
          ((if cfg.sessionAutoStart then "session_start(); " else "") ++ cfg.phpBootstrap ++
            "include '" ++ replaceChar path '\'' "\\'" ++ "';") }
  | .nativePipe | .nativeChannel | .poolNative =>
    .wire (Native.encodeNativeRequest { q.nativeArgs cfg with scriptPath := utf8 path })
  | .persistent | .poolPersistent =>
    .wire (Persistent.encodeRequest (q.persistentRequest cfg path))

theorem payload_eq_payloadFor (cfg : DispatchConfig) (q : Ready) (d : Dispatch) :
    d.payload cfg q = d.payloadFor cfg q (d.scriptPath q) := by
  cases d <;> rfl

/-- The script path is relative, without `..`. -/
theorem phpPath_of_admit (hentry : startsWith (srv.app req.host).entryPoint "/" = false)
    (h : srv.admit fs req = .ok script) :
    startsWith script.phpPath "/" = false ∧ ['.', '.'] ∉ components script.phpPath := by
  obtain ⟨-, -, hrest⟩ := admit_eq_ok_iff.1 h
  obtain ⟨-, hpath, hexists, -⟩ := admitRest_eq_ok hrest
  rw [hpath]
  exact ⟨relative_resolvePath hentry req.path, noParent_of_exists hexists⟩

/-- A relative path without `..` stays under the root it is joined to, in every mode. -/
theorem under_scriptPath {q : Ready} (hrel : startsWith q.script.phpPath "/" = false)
    (hparent : ['.', '.'] ∉ components q.script.phpPath) (d : Dispatch) :
    Under q.script.app.documentRoot (d.scriptPath q) := by
  have hjoin : Under q.script.app.documentRoot q.absPhpPath := ⟨_, lexical_joinPath hrel, hparent⟩
  cases d with
  | single | nativePipe | nativeChannel | poolNative | poolPersistent => exact hjoin
  | persistent =>
    refine ⟨_, lexical_slash _ _, ?_⟩
    split <;> simpa using hparent

/-- For every server, file system and request: if the application that answers has a
relative entry point and the script is dispatched, in whatever mode, its path has no
`..`, and the absolute path that is sent lies under the document root. -/
theorem dispatched_confined (srv : ServerState) (fs : FileSystem) (req : Routed) (q : Ready)
    (hentry : startsWith (srv.app req.host).entryPoint "/" = false)
    (hadmitted : srv.admit fs req = .ok q.script) (cfg : DispatchConfig) (d : Dispatch) :
    ['.', '.'] ∉ components q.script.phpPath ∧
      d.payload cfg q = d.payloadFor cfg q (d.scriptPath q) ∧
      Under q.script.app.documentRoot (d.scriptPath q) := by
  obtain ⟨hrel, hparent⟩ := phpPath_of_admit hentry hadmitted
  exact ⟨hparent, payload_eq_payloadFor cfg q d, under_scriptPath hrel hparent d⟩

/-- The second of two hosts: its script is checked under the first host's root and
lies under its own. -/
theorem second_host_confined :
    twoHosts.admit (treeOf ["/srv/a/index.php", "/srv/b/index.php"])
        ⟨some "b.example:8080", "/index.php", none⟩ =
      .ok ⟨⟨"/srv/b", "index.php", false⟩, "index.php", some []⟩ ∧
    Under "/srv/b" "/srv/b/index.php" :=
  ⟨rfl, (dispatched_confined twoHosts (treeOf ["/srv/a/index.php", "/srv/b/index.php"])
    ⟨some "b.example:8080", "/index.php", none⟩
    ⟨⟨⟨"/srv/b", "index.php", false⟩, "index.php", some []⟩, shellReady.request, "127.0.0.1"⟩
    rfl rfl plainDispatch .persistent).2.2⟩

end Turbine.Server
