import Turbine.Base.Occurrences
import Turbine.Base.Quotes
import Turbine.Server.Checks
import Turbine.Server.Forward

/-!
# Turbine.Server.Include

The program for the executor in the server's own process, as the executor takes it
apart: the setup is evaluated first, and the include with its output captured.

* `split_include_iff`: when the program is split before its include;
* `lex_includeCode_iff`: when the literal of the include denotes the script;
* `include_exact_iff`: both.
-/

namespace Turbine.Server

open Base Http

/-! ## the executor -/

/-- `PhpResponse`. -/
structure PhpResponse where
  body : Bytes
  headers : List (String × String)
  statusCode : UInt16
deriving DecidableEq, Repr

/-- The engine, by what the executor calls. -/
structure PhpEngine (σ : Type) where
  registerUploadedFile : String → σ → σ
  eval : String → σ → Except String Unit × σ
  evalCaptureFull : String → σ → Except String PhpResponse × σ
  resetRequest : σ → σ

/-- The setup and the include: `rsplit_once`, with the text it was split at given back. -/
def PhpRequest.parts (req : PhpRequest) : Option (String × String) :=
  (cutLast req.code.toList "include '".toList).map fun p =>
    (String.ofList p.1, "include '" ++ String.ofList p.2)

/-- A request in `php_executor_loop`. -/
def execute {σ : Type} (engine : PhpEngine σ) (req : PhpRequest) (s : σ) :
    Except String PhpResponse × σ :=
  let s := req.uploadedFiles.foldl (fun s path => engine.registerUploadedFile path s) s
  match req.parts with
  | some (setup, includeCode) =>
    match engine.eval setup s with
    | (.ok (), s) =>
      let r := engine.evalCaptureFull includeCode s
      (r.1, engine.resetRequest r.2)
    | (.error e, s) => (.error e, engine.resetRequest s)
  | none =>
    -- no include: the whole program
    let r := engine.evalCaptureFull req.code s
    (r.1, engine.resetRequest r.2)

/-- An engine that accepts all code and keeps it. -/
def recorder : PhpEngine (List String) where
  registerUploadedFile _ s := s
  eval code s := (.ok (), s ++ [code])
  evalCaptureFull code s := (.ok ⟨[], [], 200⟩, s ++ [code])
  resetRequest s := s

/-- The code that is evaluated for a request, in order. -/
def PhpRequest.evaluated (req : PhpRequest) : List String := (execute recorder req []).2

theorem evaluated_eq_iff {req : PhpRequest} {setup code : String} :
    req.evaluated = [setup, code] ↔ req.parts = some (setup, code) := by
  have hfiles : req.uploadedFiles.foldl (fun s path => recorder.registerUploadedFile path s) [] =
      [] := List.foldl_fixed _
  rw [PhpRequest.evaluated, execute, hfiles]
  cases req.parts with
  | none => simp [recorder]
  | some p => simp [recorder, Prod.ext_iff]

/-! ## the program -/

/-- The program up to the include. -/
def Ready.setupCode (cfg : DispatchConfig) (q : Ready) : String :=
  q.request.phpSuperglobalsCode cfg.currentDir q.script.phpPath q.clientIp cfg.serverPort
      cfg.isTls ++
    ((if cfg.sessionAutoStart then "session_start(); " else "") ++ cfg.phpBootstrap)

/-- The include of a script. -/
def includeCode (path : String) : String := "include '" ++ replaceChar path '\'' "\\'" ++ "';"

theorem code_phpRequest (cfg : DispatchConfig) (q : Ready) :
    (q.phpRequest cfg).code = q.setupCode cfg ++ includeCode q.absPhpPath := by
  simp only [Ready.phpRequest, Ready.setupCode, includeCode, String.append_assoc]

theorem replaceChar_quote (path : String) :
    (replaceChar path '\'' "\\'").toList = escapeQuotes path.toList := String.toList_ofList

/-! ## the split -/

/-- A text without quotes that ends another one stands behind all its quotes. -/
theorem suffix_of_suffix_append_cons {w front back : List Char} (hquote : '\'' ∉ w)
    (h : w <:+ front ++ '\'' :: back) : w <:+ back := by
  rcases List.suffix_or_suffix_of_suffix h (List.suffix_append front ('\'' :: back)) with h | h
  · rcases List.suffix_cons_iff.1 h with rfl | h
    · simp at hquote
    · exact h
  · exact absurd (h.subset List.mem_cons_self) hquote

/-- A quote behind the opening one, with `include ` before it, is the closing one: the
others stand behind a backslash. -/
theorem suffix_of_quote {path front back : List Char}
    (h : escapeQuotes path ++ ['\'', ';'] = front ++ '\'' :: back)
    (hfront : "include ".toList <:+ front) : "include ".toList <:+ path := by
  have hquote : '\'' ∉ "include ".toList := by decide
  have hbackslash : '\\' ∉ "include ".toList := by decide
  rcases List.append_eq_append_iff.1 h with ⟨rest, rfl, hrest⟩ | ⟨rest, hpath, hrest⟩
  · cases rest with
    | nil =>
      rw [List.append_nil] at hfront
      exact (suffix_escapeQuotes_iff hquote hbackslash).1 hfront
    | cons c rest =>
      -- no quote stands behind the closing one
      have hmem : '\'' ∈ [';'] := by
        rw [(List.cons.inj hrest).2]
        simp
      exact absurd hmem (by decide)
  · cases rest with
    | nil =>
      rw [List.append_nil] at hpath
      rw [← hpath] at hfront
      exact (suffix_escapeQuotes_iff hquote hbackslash).1 hfront
    | cons c rest =>
      obtain rfl := (List.cons.inj hrest).1
      have hlast : ['\\'] <:+ "include ".toList := by
        rcases List.suffix_or_suffix_of_suffix (backslash_suffix hpath) hfront with hs | hs
        · exact hs
        · exact absurd hs.length_le (by decide)
      exact absurd (hlast.subset List.mem_cons_self) hbackslash

/-- Behind the include there is no other one, unless the path ends like one. -/
theorem length_le_of_include {path front front' back' : List Char}
    (hpath : ¬ "include ".toList <:+ path)
    (h : front ++ "include '".toList ++ (escapeQuotes path ++ ['\'', ';']) =
      front' ++ "include '".toList ++ back') :
    (escapeQuotes path ++ ['\'', ';']).length ≤ back'.length := by
  have hquote : '\'' ∉ "include ".toList := by decide
  have hpat : "include '".toList = "include ".toList ++ ['\''] := by decide
  have hcons : ∀ front back : List Char, front ++ "include '".toList ++ back =
      (front ++ "include ".toList) ++ '\'' :: back := by
    intro front back
    rw [hpat]
    simp
  rw [hcons, hcons] at h
  rcases List.append_eq_append_iff.1 h with ⟨rest, hfront, hrest⟩ | ⟨rest, hfront, hrest⟩
  · cases rest with
    | nil => rw [(List.cons.inj hrest).2]
    | cons c rest =>
      obtain ⟨rfl, hback⟩ := List.cons.inj hrest
      have hsuffix : "include ".toList <:+ front ++ "include ".toList ++ '\'' :: rest := by
        rw [← hfront]
        exact List.suffix_append _ _
      exact absurd (suffix_of_quote hback (suffix_of_suffix_append_cons hquote hsuffix)) hpath
  · have hlength := congrArg List.length hrest
    simp only [List.length_cons, List.length_append] at hlength ⊢
    omega

theorem toList_includeCode (path : String) :
    (includeCode path).toList =
      "include '".toList ++ (escapeQuotes path.toList ++ ['\'', ';']) := by
  rw [includeCode, ← replaceChar_quote]
  simp

theorem parts_eq_some_iff {req : PhpRequest} {setup : String} {rest : List Char} :
    req.parts = some (setup, "include '" ++ String.ofList rest) ↔
      cutLast req.code.toList "include '".toList = some (setup.toList, rest) := by
  rw [PhpRequest.parts]
  cases cutLast req.code.toList "include '".toList with
  | none => simp
  | some p =>
    rw [Option.map_some, Option.some_inj, Option.some_inj, Prod.ext_iff, Prod.ext_iff,
      ← String.toList_inj, String.toList_ofList, String.append_right_inj, String.ofList_inj]

/-- The program is split before its include iff the path does not end like an include. -/
theorem split_include_iff (cfg : DispatchConfig) (q : Ready) :
    (q.phpRequest cfg).parts = some (q.setupCode cfg, includeCode q.absPhpPath) ↔
      ¬ "include ".toList <:+ q.absPhpPath.toList := by
  have hcode : (q.phpRequest cfg).code.toList =
      (q.setupCode cfg).toList ++ "include '".toList ++
        (escapeQuotes q.absPhpPath.toList ++ ['\'', ';']) := by
    rw [code_phpRequest, String.toList_append, toList_includeCode, List.append_assoc]
  have hinclude : includeCode q.absPhpPath =
      "include '" ++ String.ofList (escapeQuotes q.absPhpPath.toList ++ ['\'', ';']) := by
    rw [← String.toList_inj, toList_includeCode, String.toList_append,
      String.toList_ofList (l := escapeQuotes q.absPhpPath.toList ++ _)]
  rw [hinclude, parts_eq_some_iff, cutLast_eq_some_iff, hcode]
  constructor
  · rintro ⟨-, hlast⟩ ⟨front, hpath⟩
    -- the end of the path and the closing quote are an occurrence
    have hend : (q.setupCode cfg).toList ++ "include '".toList ++
        (escapeQuotes q.absPhpPath.toList ++ ['\'', ';']) =
          (q.setupCode cfg).toList ++ "include '".toList ++ escapeQuotes front ++
            "include '".toList ++ [';'] := by
      have hword : escapeQuotes "include ".toList = "include ".toList := by decide
      rw [← hpath, escapeQuotes_append, hword]
      simp
    have hle := hlast _ _ hend
    simp at hle
  · intro hpath
    exact ⟨rfl, fun front' back' h => length_le_of_include hpath h⟩

theorem lex_includeCode_iff (path : String) :
    lex (includeCode path) = some (codeTokens "include " ++ [.quoted path.toList, .mark ';']) ↔
      Quotable path.toList := by
  have hclosed : Closed "include " := closed_ofList rfl
  have hcode : includeCode path =
      "include " ++ "'" ++ String.ofList (escapeQuotes path.toList) ++ "';" := by
    rw [includeCode, ← replaceChar_quote, String.ofList_toList]
    rfl
  rw [hcode]
  exact lex_literal_iff hclosed

/-! ## both -/

/-- The executor evaluates the setup and then the include, and the include's literal
denotes the script and ends at its closing quote. -/
def RunsScript (cfg : DispatchConfig) (q : Ready) : Prop :=
  (q.phpRequest cfg).evaluated = [q.setupCode cfg, includeCode q.absPhpPath] ∧
    lex (includeCode q.absPhpPath) =
      some (codeTokens "include " ++ [.quoted q.absPhpPath.toList, .mark ';'])

/-- Whatever the request and the settings are, only the path of the script decides: in it
no backslash may stand before a backslash, a quote or the end, and it may not end with
`include `. -/
theorem include_exact_iff (cfg : DispatchConfig) (q : Ready) :
    RunsScript cfg q ↔
      Quotable q.absPhpPath.toList ∧ ¬ "include ".toList <:+ q.absPhpPath.toList := by
  rw [RunsScript, evaluated_eq_iff, split_include_iff, lex_includeCode_iff, and_comm]

/-- A request for a script with two backslashes in its name. -/
def backslashReady : Ready where
  script := ⟨⟨"/srv/a", "index.php", false⟩, "a\\\\b.php", some []⟩
  request :=
    { method := "GET"
      path := "/a\\\\b.php"
      queryString := ""
      httpVersion := "HTTP/1.1"
      headers := []
      cookies := []
      body := []
      contentType := none
      contentLength := none
      files := []
      multipartPostParams := [] }
  clientIp := "127.0.0.1"

/-- The script exists and is admitted, and the include names another file. -/
theorem other_script_included :
    twoHosts.admit (treeOf ["/srv/a/a\\\\b.php"]) ⟨some "a.example", "/a\\\\b.php", none⟩ =
        .ok backslashReady.script ∧
      backslashReady.absPhpPath = "/srv/a/a\\\\b.php" ∧
      lex (includeCode backslashReady.absPhpPath) =
        some (codeTokens "include " ++ [.quoted "/srv/a/a\\b.php".toList, .mark ';']) ∧
      ¬ RunsScript plainDispatch backslashReady := by
  have hpath : backslashReady.absPhpPath = "/srv/a/a\\\\b.php" := rfl
  have hread : lex (includeCode "/srv/a/a\\\\b.php") =
      some (codeTokens "include " ++ [.quoted "/srv/a/a\\b.php".toList, .mark ';']) := by
    rw [lex, toList_includeCode]
    decide
  refine ⟨rfl, hpath, by rw [hpath, hread], fun h => ?_⟩
  have hother : "/srv/a/a\\b.php".toList ≠ "/srv/a/a\\\\b.php".toList := by decide
  rw [RunsScript, hpath, hread] at h
  exact hother (by simpa using h.2)

end Turbine.Server
