import Turbine.Server.Scripts

/-!
# Turbine.Server.Checks

What the handler's checks say about the script that is executed.

The data directories are compared with the text of the script path, the file
system reads the same path by components.  A path can lie in a directory
without spelling its name (`./uploads/a.php`), and a text can begin with the
directory's without lying in it (`uploads.php`).

* `inDataDirectory_iff`: the comparison, segment by segment.
-/

namespace Turbine.Server

open Base Http

variable {srv : ServerState} {fs : FileSystem} {req : Routed} {script : Script} {phpPath : String}

/-! ## data directories -/

/-- The path is written with the name of the directory, or with that name as the
beginning of a longer one. -/
def Written (dir p : String) : Prop :=
  Spells (trimEndMatches dir '/') p ∨ Extends (trimEndMatches dir '/') p

theorem inDataDirectory_iff {dirs : List String} :
    inDataDirectory dirs phpPath = true ↔ ∃ dir ∈ dirs, Written dir phpPath := by
  simp only [inDataDirectory, List.any_eq_true, startsWith_iff, Written]

/-- A path that spells the directory's name lies in it. -/
theorem inside_of_spells {dir p : String} (h : Spells (trimEndMatches dir '/') p) :
    Inside dir p := by
  have hinside := h.inside
  rwa [Inside, components_trimEndMatches] at hinside

/-- What the directories are for: no script inside one is executed, and no path
outside all of them is refused on their account. -/
def GuardsDirectories (srv : ServerState) (fs : FileSystem) (req : Routed) : Prop :=
  (∀ script, srv.admit fs req = .ok script →
    ∀ dir ∈ srv.dataDirectories, ¬ Inside dir script.phpPath) ∧
  ((∀ dir ∈ srv.dataDirectories, ¬ Inside dir (srv.phpPath fs req)) →
    srv.admit fs req ≠ .error .dataDirectory)

/-- The server without data directories. -/
def ServerState.unguarded (srv : ServerState) : ServerState := { srv with dataDirectories := [] }

/-- If a script that would be executed without the directories lies in one, its path
is written with the name of one; and if the path of a request that comes to the
check only extends the name of one, it lies in one all the same. -/
def PlainlyWritten (srv : ServerState) (fs : FileSystem) (req : Routed) : Prop :=
  (∀ script, srv.unguarded.admit fs req = .ok script →
    (∃ dir ∈ srv.dataDirectories, Inside dir script.phpPath) →
      ∃ dir ∈ srv.dataDirectories, Written dir script.phpPath) ∧
  (srv.Reaches fs req →
    (∃ dir ∈ srv.dataDirectories, Extends (trimEndMatches dir '/') (srv.phpPath fs req)) →
      ∃ dir ∈ srv.dataDirectories, Inside dir (srv.phpPath fs req))

/-- Without directories the other checks remain. -/
theorem unguarded_admit_iff : srv.unguarded.admit fs req = .ok script ↔
    srv.Reaches fs req ∧ srv.admitRest fs req (srv.phpPath fs req) = .ok script := by
  have hpath : srv.unguarded.phpPath fs req = srv.phpPath fs req := rfl
  have hreaches : srv.unguarded.Reaches fs req ↔ srv.Reaches fs req := Iff.rfl
  have hrest : srv.unguarded.admitRest fs req = srv.admitRest fs req := rfl
  have hdirs : ∀ p, inDataDirectory srv.unguarded.dataDirectories p = false := fun _ => rfl
  rw [admit_eq_ok_iff, hreaches, hpath, hrest, hdirs]
  exact ⟨fun h => ⟨h.1, h.2.2⟩, fun h => ⟨h.1, rfl, h.2⟩⟩

/-- For every configuration, file system and request, the directories do what they
are for iff their names are written plainly in the path. -/
theorem guardsDirectories_iff (srv : ServerState) (fs : FileSystem) (req : Routed) :
    GuardsDirectories srv fs req ↔ PlainlyWritten srv fs req := by
  have hpath : ∀ {script : Script}, srv.admitRest fs req (srv.phpPath fs req) = .ok script →
      script.phpPath = srv.phpPath fs req := fun h => (admitRest_eq_ok h).2.1
  constructor
  · rintro ⟨hexec, hrefuse⟩
    constructor
    · intro script hadmit ⟨dir, hdir, hinside⟩
      obtain ⟨hreach, hrest⟩ := unguarded_admit_iff.1 hadmit
      rw [hpath hrest] at hinside ⊢
      by_contra hwritten
      have hpass : inDataDirectory srv.dataDirectories (srv.phpPath fs req) = false :=
        Bool.eq_false_iff.2 fun h => hwritten (inDataDirectory_iff.1 h)
      have hok := admit_eq_ok_iff.2 ⟨hreach, hpass, hrest⟩
      exact hexec script hok dir hdir (hpath hrest ▸ hinside)
    · rintro hreach ⟨dir, hdir, hextends⟩
      by_contra houtside
      refine hrefuse (fun d hd hinside => houtside ⟨d, hd, hinside⟩) ?_
      exact admit_eq_dataDirectory_iff.2
        ⟨hreach, inDataDirectory_iff.2 ⟨dir, hdir, .inr hextends⟩⟩
  · rintro ⟨hwritten, hextends⟩
    constructor
    · intro script hok dir hdir hinside
      obtain ⟨hreach, hpass, hrest⟩ := admit_eq_ok_iff.1 hok
      have hname := hwritten script (unguarded_admit_iff.2 ⟨hreach, hrest⟩) ⟨dir, hdir, hinside⟩
      rw [hpath hrest] at hname
      rw [inDataDirectory_iff.2 hname] at hpass
      cases hpass
    · intro houtside hrefused
      obtain ⟨hreach, hin⟩ := admit_eq_dataDirectory_iff.1 hrefused
      obtain ⟨dir, hdir, hspells | hlonger⟩ := inDataDirectory_iff.1 hin
      · exact houtside dir hdir (inside_of_spells hspells)
      · obtain ⟨d, hd, hinside⟩ := hextends hreach ⟨dir, hdir, hlonger⟩
        exact houtside d hd hinside

/-- A plain site with one data directory. -/
def uploadSite : ServerState where
  appStructure := ⟨"/srv", "index.php", false⟩
  virtualHosts := []
  executionWhitelist := []
  dataDirectories := ["uploads/"]
  persistentWorkers := false
  lower := toAsciiLowercase

/-- A tree of empty files without links. -/
def treeOf (files : List String) : FileSystem :=
  ⟨fun p => (files.map components).contains p, fun _ => .ok [], fun _ _ => false⟩

/-- A script inside the directory is executed when its path is written with a dot, and
a script beside it is refused because its name begins the same way. -/
theorem data_directory_missed : let fs := treeOf ["/srv/uploads/shell.php", "/srv/uploads.php"]
    uploadSite.admit fs ⟨none, "/./uploads/shell.php", none⟩ =
        .ok ⟨uploadSite.appStructure, "./uploads/shell.php", some []⟩ ∧
      Inside "uploads/" "./uploads/shell.php" ∧
      uploadSite.admit fs ⟨none, "/uploads.php", none⟩ = .error .dataDirectory ∧
      ¬ Inside "uploads/" "uploads.php" :=
  ⟨rfl, by decide, rfl, by decide⟩

/-! ## the script that was checked -/

/-- The file whose existence is checked, and whose path is validated. -/
def ServerState.checkedFile (srv : ServerState) (phpPath : String) : List (List Char) :=
  components srv.requestGuard.root ++ components phpPath

/-- The file whose contents are hashed for the cache. -/
def ServerState.hashedFile (srv : ServerState) (phpPath : String) : List (List Char) :=
  components (srv.sourcePath phpPath)

/-- The files the handler looks at on behalf of a script. -/
def ServerState.consulted (srv : ServerState) (phpPath : String) : List (List (List Char)) :=
  srv.checkedFile phpPath :: if srv.persistentWorkers then [] else [srv.hashedFile phpPath]

/-- These are the files that `exists` and `read` ask for. -/
theorem consulted_of_admit (h : srv.admit fs req = .ok script) :
    fs.file (srv.checkedFile script.phpPath) = true ∧
      ∀ source, script.source = some source →
        fs.contents (srv.hashedFile script.phpPath) = .ok source := by
  obtain ⟨-, -, hrest⟩ := admit_eq_ok_iff.1 h
  obtain ⟨-, hpath, hexists, hread⟩ := admitRest_eq_ok hrest
  rw [hpath]
  exact ⟨file_of_exists hexists, fun source hsource => contents_of_read (hread source hsource)⟩

/-- The document root of the script's host is that of the guard.  An absolute script
path, which only an absolute entry point gives, replaces the root when it is joined:
it needs the root to be that of the file system. -/
def SameRoot (srv : ServerState) (script : Script) : Prop :=
  if srv.persistentWorkers || !startsWith script.phpPath "/" then
    components script.app.documentRoot = components srv.requestGuard.root
  else components srv.requestGuard.root = []

instance : Decidable (SameRoot srv script) := by
  unfold SameRoot
  infer_instance

/-- The script the worker executes. -/
theorem components_executedPath : components (srv.executedPath script) =
    if srv.persistentWorkers || !startsWith script.phpPath "/" then
      components script.app.documentRoot ++ components script.phpPath
    else components script.phpPath := by
  unfold ServerState.executedPath
  cases srv.persistentWorkers with
  | true => simpa using components_append_slash _ _
  | false =>
    cases hrel : startsWith script.phpPath "/" with
    | false => simpa using components_joinPath hrel
    | true => simp [joinPath_absolute hrel]

/-- For every configuration, file system and request, the files that are looked at are
the one that is executed iff the script's host has the guard's document root; and they are
those that were there and that were read. -/
theorem checked_is_executed_iff (srv : ServerState) (fs : FileSystem) (req : Routed) :
    ((∀ script, srv.admit fs req = .ok script →
        ∀ f ∈ srv.consulted script.phpPath, f = components (srv.executedPath script)) ↔
      ∀ script, srv.admit fs req = .ok script → SameRoot srv script) ∧
    ∀ script, srv.admit fs req = .ok script →
      fs.file (srv.checkedFile script.phpPath) = true ∧
        ∀ source, script.source = some source →
          fs.contents (srv.hashedFile script.phpPath) = .ok source := by
  refine ⟨forall₂_congr fun script _ => ?_, fun script hadmit => consulted_of_admit hadmit⟩
  rw [components_executedPath]
  unfold ServerState.consulted SameRoot ServerState.checkedFile ServerState.hashedFile
    ServerState.sourcePath
  cases srv.persistentWorkers with
  | true =>
    simp only [Bool.true_or, if_true, List.forall_mem_singleton, List.append_left_inj]
    exact eq_comm
  | false =>
    cases hrel : startsWith script.phpPath "/" with
    | false =>
      simp only [Bool.false_or, Bool.not_false, if_true, Bool.false_eq_true, if_false,
        List.forall_mem_cons, List.not_mem_nil, false_implies, implies_true, and_true,
        components_joinPath hrel, List.append_left_inj, and_self]
      exact eq_comm
    | true =>
      simp [joinPath_absolute hrel]

/-- Two sites on one server. -/
def twoHosts : ServerState where
  appStructure := ⟨"/srv/a", "index.php", false⟩
  virtualHosts := [("b.example", ⟨"/srv/b", "index.php", false⟩)]
  executionWhitelist := []
  dataDirectories := []
  persistentWorkers := false
  lower := toAsciiLowercase

/-- The second host's script is executed on the strength of the first host's. -/
theorem other_host_checked : let fs := treeOf ["/srv/a/index.php", "/srv/b/index.php"]
    let script : Script := ⟨⟨"/srv/b", "index.php", false⟩, "index.php", some []⟩
    twoHosts.admit fs ⟨some "b.example:8080", "/index.php", none⟩ = .ok script ∧
      twoHosts.consulted script.phpPath =
        [components "/srv/a/index.php", components "/srv/a/index.php"] ∧
      twoHosts.executedPath script = "/srv/b/index.php" ∧
      components "/srv/b/index.php" ≠ components "/srv/a/index.php" :=
  ⟨rfl, by decide, by decide, by decide⟩

end Turbine.Server
