import Mathlib.Data.List.DropRight
import Mathlib.Logic.Function.Basic
import Turbine.Base.Str

/-!
# Turbine.Base.Disk

A file system of directories, files and symbolic links, and the calls that resolve a
path in it.  A path is a list of segments, the pieces of its text between slashes; a
place is the list of names that lead to it from the root.

A path is walked segment by segment: an empty segment and `.` stay, `..` goes up, a
name goes down, and each of them needs a directory to start from.  A link is replaced
by its target, and a walk takes at most `maxLinks` of them.  With `create`, the last
name may be missing: this is how a file is opened that may have to be created.

* `Disk`: only trees in which every entry lies in a directory can be built;
* `Disk.real_of_resolve`: what a path resolves to has no link on the way to it;
* `Disk.resolve_ofPlace`: so its own path leads back to it, whatever opens it.
-/

namespace Turbine.Base

/-! ## paths -/

/-- A path, by the segments of its text. -/
structure Path where
  segments : List String
deriving DecidableEq, Repr

namespace Path

def ofText (s : String) : Path := ⟨split s '/'⟩

/-- The empty text. -/
def empty : Path := ⟨[""]⟩

def isEmpty (p : Path) : Bool := p.segments = [] || p.segments = [""]

/-- The path of a place. -/
def ofPlace (place : List String) : Path := ⟨"" :: if place = [] then [""] else place⟩

/-- `Path::is_absolute`. -/
def isAbsolute (p : Path) : Bool := 1 < p.segments.length && p.segments.head? = some ""

/-- A segment that does not count. -/
def stays (seg : String) : Bool := seg = "" || seg = "."

/-- The components of the path that are not its root and not `.`. -/
def names (p : Path) : List String := p.segments.filter fun seg => !stays seg

/-- `Path::file_name`. -/
def fileName (p : Path) : Option String := p.names.getLast?.filter (· ≠ "..")

/-- `Path::parent`: what stands before the last name, down to the root or a leading
`.`. -/
def parent (p : Path) : Option Path :=
  let dot := p.segments.head? = some "."
  if p.names = [] then if dot then some empty else none
  else
    match ((p.segments.rdropWhile stays).dropLast).rdropWhile stays with
    | [] => some (if p.isAbsolute then ofPlace [] else if dot then ⟨["."]⟩ else empty)
    | segs => some ⟨segs⟩

/-- `Path::join`. -/
def join (p q : Path) : Path :=
  if q.isAbsolute then q
  else if p.segments.getLast? = some "" then ⟨p.segments.dropLast ++ q.segments⟩
  else ⟨p.segments ++ q.segments⟩

/-- `Path::starts_with`, of paths without a leading `.`. -/
def startsWith (p base : Path) : Bool :=
  p.isAbsolute == base.isAbsolute && base.names.isPrefixOf p.names

/-- Where the path is walked from. -/
def start (p : Path) (cwd : List String) : List String := if p.isAbsolute then [] else cwd

end Path

/-! ## trees -/

/-- A name that an entry of a directory can have. -/
def IsName (s : String) : Prop := s ≠ "" ∧ s ≠ "." ∧ s ≠ ".." ∧ '/' ∉ s.toList ∧ '\x00' ∉ s.toList

instance {s : String} : Decidable (IsName s) := inferInstanceAs (Decidable (_ ∧ _ ∧ _ ∧ _ ∧ _))

inductive Node
  | dir
  | file (content : List UInt8)
  | link (target : Path)
deriving DecidableEq, Repr

/-- A file system, with the working directory of the process. -/
structure Disk where
  node : List String → Option Node
  cwd : List String
  node_root : node [] = some .dir
  node_cwd : node cwd = some .dir
  /-- Every entry has a name, and lies in a directory. -/
  closed : ∀ dir name, node (dir ++ [name]) ≠ none → node dir = some .dir ∧ IsName name

inductive Errno
  | notFound
  | notADirectory
  | isADirectory
  | alreadyExists
  | loop
  | invalidInput
deriving DecidableEq, Repr

/-- Whether a file or an entry can be put at the place: it lies in a directory, and is
none itself. -/
def Disk.Holds (disk : Disk) (place : List String) : Prop :=
  place ≠ [] ∧ disk.node place.dropLast = some .dir ∧ (∀ name ∈ place.getLast?, IsName name) ∧
    disk.node place ≠ some .dir

instance {disk : Disk} {place : List String} : Decidable (disk.Holds place) :=
  inferInstanceAs (Decidable (_ ∧ _ ∧ _ ∧ _))

/-- Put something at a place that can hold it. -/
def Disk.put (disk : Disk) (place : List String) (n : Node) (h : disk.Holds place) : Disk where
  node := Function.update disk.node place (some n)
  cwd := disk.cwd
  node_root := by
    rw [Function.update_of_ne h.1.symm]
    exact disk.node_root
  node_cwd := by
    rw [Function.update_of_ne]
    · exact disk.node_cwd
    · rintro rfl
      exact h.2.2.2 disk.node_cwd
  closed := by
    intro dir name hnode
    have hdir : disk.node dir = some .dir → dir ≠ place := by
      rintro hdir rfl
      exact h.2.2.2 hdir
    by_cases hplace : dir ++ [name] = place
    · subst hplace
      have hparent : disk.node dir = some .dir := by simpa using h.2.1
      rw [Function.update_of_ne (hdir hparent)]
      exact ⟨hparent, h.2.2.1 name (by simp)⟩
    · rw [Function.update_of_ne hplace] at hnode
      obtain ⟨hparent, hname⟩ := disk.closed dir name hnode
      rw [Function.update_of_ne (hdir hparent)]
      exact ⟨hparent, hname⟩

/-- The tree of the listed entries, below the root. -/
def Disk.ofEntries (entries : List (List String × Node))
    (h : ∀ e ∈ entries, e.1 ≠ [] ∧ (∀ name ∈ e.1.getLast?, IsName name) ∧
      (e.1.dropLast = [] ∨ entries.lookup e.1.dropLast = some .dir)) : Disk where
  node place := if place = [] then some .dir else entries.lookup place
  cwd := []
  node_root := if_pos rfl
  node_cwd := if_pos rfl
  closed := by
    intro dir name hnode
    rw [if_neg (by simp)] at hnode
    obtain ⟨n, hn⟩ := Option.ne_none_iff_exists'.1 hnode
    obtain ⟨l, l', rfl, -⟩ := List.lookup_eq_some_iff.1 hn
    obtain ⟨-, hname, hdir⟩ := h (dir ++ [name], n) (by simp)
    rw [List.dropLast_concat] at hdir
    refine ⟨?_, hname name (by simp)⟩
    split
    · rfl
    · next hne => exact hdir.resolve_left hne

/-! ## walking a path -/

/-- How many links a walk may take. -/
def maxLinks : Nat := 40

/-- Walk the segments from a place; `follow` walks on behind a link. -/
def Disk.walkWith (disk : Disk) (create : Bool)
    (follow : List String → List String → Except Errno (List String)) :
    List String → List String → Except Errno (List String)
  | place, [] => .ok place
  | place, seg :: segs =>
    if disk.node place ≠ some .dir then .error .notADirectory
    else if seg = "" ∨ seg = "." then disk.walkWith create follow place segs
    else if seg = ".." then disk.walkWith create follow place.dropLast segs
    else
      match disk.node (place ++ [seg]) with
      | some (.link target) => follow (target.start place) (target.segments ++ segs)
      | some _ => disk.walkWith create follow (place ++ [seg]) segs
      | none =>
        if create ∧ segs = [] ∧ IsName seg then .ok (place ++ [seg]) else .error .notFound

/-- Walk the segments from a place, with at most so many links. -/
def Disk.walk (disk : Disk) (create : Bool) :
    Nat → List String → List String → Except Errno (List String)
  | 0 => disk.walkWith create fun _ _ => .error .loop
  | links + 1 => disk.walkWith create (disk.walk create links)

/-- A text with a NUL never reaches the system. -/
def Path.HasNul (p : Path) : Prop := ∃ s ∈ p.segments, '\x00' ∈ s.toList

instance {p : Path} : Decidable p.HasNul := inferInstanceAs (Decidable (∃ s ∈ p.segments, _))

/-- The place a path leads to. -/
def Disk.resolve (disk : Disk) (create : Bool) (p : Path) : Except Errno (List String) :=
  if p.HasNul then .error .invalidInput
  else if p.isEmpty then .error .notFound
  else disk.walk create maxLinks (p.start disk.cwd) p.segments

/-- `fs::canonicalize`. -/
def Disk.canonicalize (disk : Disk) (p : Path) : Except Errno Path :=
  (disk.resolve false p).map .ofPlace

/-- `Path::is_dir`. -/
def Disk.isDir (disk : Disk) (p : Path) : Bool :=
  match disk.resolve false p with
  | .ok place => disk.node place = some .dir
  | .error _ => false

/-- The content of a file after a write that appends to it or truncates it first. -/
def Disk.contentAfter (disk : Disk) (place : List String) (data : List UInt8) (append : Bool) :
    List UInt8 :=
  match disk.node place with
  | some (.file content) => if append then content ++ data else data
  | _ => data

/-- Open a file for writing, creating it if it is missing, and write to it; with the
place of the file. -/
def Disk.writeFile (disk : Disk) (p : Path) (data : List UInt8) (append : Bool) :
    Except Errno (Disk × List String) :=
  match disk.resolve true p with
  | .error e => .error e
  | .ok place =>
    if h : disk.Holds place then
      .ok (disk.put place (.file (disk.contentAfter place data append)) h, place)
    else .error .isADirectory

/-! ## places -/

variable {disk : Disk} {place dir segs : List String} {seg name : String} {create : Bool}
  {follow : List String → List String → Except Errno (List String)} {p : Path} {links : Nat}

theorem Disk.node_put {n : Node} (h : disk.Holds place) (place' : List String) :
    (disk.put place n h).node place' = if place' = place then some n else disk.node place' :=
  Function.update_apply ..

/-- What lies on the way to an entry is a directory. -/
theorem Disk.node_of_prefix {rest : List String} (hrest : rest ≠ [])
    (h : disk.node (place ++ rest) ≠ none) : disk.node place = some .dir := by
  induction rest using List.reverseRecOn with
  | nil => exact absurd rfl hrest
  | append_singleton rest name ih =>
    rw [← List.append_assoc] at h
    have hdir := (disk.closed _ _ h).1
    by_cases hnil : rest = []
    · rwa [hnil, List.append_nil] at hdir
    · exact ih hnil (by rw [hdir]; exact Option.some_ne_none _)

theorem Disk.node_dropLast (h : disk.node place = some .dir) :
    disk.node place.dropLast = some .dir := by
  induction place using List.reverseRecOn with
  | nil => exact disk.node_root
  | append_singleton dir name =>
    rw [List.dropLast_concat]
    exact (disk.closed dir name (by rw [h]; exact Option.some_ne_none _)).1

/-- There is something at the place, and it is no link. -/
def Disk.Real (disk : Disk) (place : List String) : Prop :=
  ∃ n, disk.node place = some n ∧ ∀ target, n ≠ .link target

theorem Disk.real_of_dir (h : disk.node place = some .dir) : disk.Real place := ⟨.dir, h, nofun⟩

theorem Disk.Real.node_ne_none (h : disk.Real place) : disk.node place ≠ none := by
  obtain ⟨n, hn, -⟩ := h
  rw [hn]
  exact Option.some_ne_none n

/-! ## one segment -/

theorem Disk.walkWith_stay (hdir : disk.node place = some .dir) (hseg : seg = "" ∨ seg = ".") :
    disk.walkWith create follow place (seg :: segs) = disk.walkWith create follow place segs := by
  rw [Disk.walkWith, if_neg (not_not_intro hdir), if_pos hseg]

theorem Disk.walkWith_up (hdir : disk.node place = some .dir) :
    disk.walkWith create follow place (".." :: segs) =
      disk.walkWith create follow place.dropLast segs := by
  rw [Disk.walkWith, if_neg (not_not_intro hdir), if_neg (by decide), if_pos rfl]

theorem Disk.walkWith_name (hdir : disk.node place = some .dir) (hname : IsName seg) :
    disk.walkWith create follow place (seg :: segs) =
      match disk.node (place ++ [seg]) with
      | some (.link target) => follow (target.start place) (target.segments ++ segs)
      | some _ => disk.walkWith create follow (place ++ [seg]) segs
      | none => if create ∧ segs = [] then .ok (place ++ [seg]) else .error .notFound := by
  have hstay : ¬(seg = "" ∨ seg = ".") := fun h => h.elim hname.1 hname.2.1
  rw [Disk.walkWith, if_neg (not_not_intro hdir), if_neg hstay, if_neg hname.2.2.1]
  simp only [hname, and_true]

theorem Disk.walk_nil : disk.walk create links place [] = .ok place := by
  cases links <;> rfl

/-- A segment that stays where it is. -/
theorem Disk.walk_stay (hdir : disk.node place = some .dir) (hseg : seg = "" ∨ seg = ".") :
    disk.walk create links place (seg :: segs) = disk.walk create links place segs := by
  cases links <;> exact disk.walkWith_stay hdir hseg

theorem Disk.walk_up (hdir : disk.node place = some .dir) :
    disk.walk create links place (".." :: segs) = disk.walk create links place.dropLast segs := by
  cases links <;> exact disk.walkWith_up hdir

/-- A name that is not that of a link. -/
theorem Disk.walk_real (h : disk.Real (place ++ [seg])) :
    disk.walk create links place (seg :: segs) =
      disk.walk create links (place ++ [seg]) segs := by
  obtain ⟨hdir, hname⟩ := disk.closed place seg h.node_ne_none
  obtain ⟨n, hn, hlink⟩ := h
  cases links <;>
  · rw [Disk.walk, Disk.walkWith_name hdir hname, hn]
    cases n with
    | link target => exact absurd rfl (hlink target)
    | dir | file => rfl

/-- The name of a link. -/
theorem Disk.walk_link {target : Path} (h : disk.node (place ++ [seg]) = some (.link target)) :
    disk.walk create (links + 1) place (seg :: segs) =
      disk.walk create links (target.start place) (target.segments ++ segs) := by
  obtain ⟨hdir, hname⟩ := disk.closed place seg (by rw [h]; exact Option.some_ne_none _)
  rw [Disk.walk, Disk.walkWith_name hdir hname, h]

/-- A name that is missing. -/
theorem Disk.walk_missing (hdir : disk.node place = some .dir) (hname : IsName seg)
    (h : disk.node (place ++ [seg]) = none) :
    disk.walk create links place (seg :: segs) =
      if create ∧ segs = [] then .ok (place ++ [seg]) else .error .notFound := by
  cases links <;> rw [Disk.walk, Disk.walkWith_name hdir hname, h]

/-! ## walks that arrive -/

/-- The segments lead from one place to another, over at most so many links. -/
inductive Disk.Walks (disk : Disk) : Nat → List String → List String → List String → Prop
  | nil {links : Nat} {place : List String} : Walks disk links place [] place
  | stay {links : Nat} {place place' segs : List String} {seg : String}
      (hdir : disk.node place = some .dir) (hseg : seg = "" ∨ seg = ".")
      (h : Walks disk links place segs place') : Walks disk links place (seg :: segs) place'
  | up {links : Nat} {place place' segs : List String} (hdir : disk.node place = some .dir)
      (h : Walks disk links place.dropLast segs place') :
      Walks disk links place (".." :: segs) place'
  | name {links : Nat} {place place' segs : List String} {seg : String}
      (hreal : disk.Real (place ++ [seg])) (h : Walks disk links (place ++ [seg]) segs place') :
      Walks disk links place (seg :: segs) place'
  | link {links : Nat} {place place' segs : List String} {seg : String} {target : Path}
      (hlink : disk.node (place ++ [seg]) = some (.link target))
      (h : Walks disk links (target.start place) (target.segments ++ segs) place') :
      Walks disk (links + 1) place (seg :: segs) place'

theorem Disk.walks_of_walkWith {place' : List String}
    (hfollow : ∀ {a segs b}, follow a segs = .ok b → ∃ n, links = n + 1 ∧ disk.Walks n a segs b)
    (h : disk.walkWith false follow place segs = .ok place') :
    disk.Walks links place segs place' := by
  induction segs generalizing place with
  | nil =>
    cases h
    exact .nil
  | cons seg segs ih =>
    rw [Disk.walkWith] at h
    split at h
    · cases h
    case isFalse hdir =>
      have hdir : disk.node place = some .dir := Decidable.not_not.1 hdir
      split at h
      case isTrue hseg => exact .stay hdir hseg (ih h)
      case isFalse hstay =>
        split at h
        case isTrue hup => exact hup ▸ .up hdir (ih h)
        case isFalse hup =>
          split at h
          case h_1 target hlink =>
            obtain ⟨n, rfl, hwalks⟩ := hfollow h
            exact .link hlink hwalks
          case h_2 n hn hnode => exact .name ⟨n, hnode, fun target heq => hn target heq⟩ (ih h)
          case h_3 =>
            rw [if_neg (fun hcreate => Bool.false_ne_true hcreate.1)] at h
            cases h

/-- **Inversion.**  A walk that arrives takes these steps. -/
theorem Disk.walks_of_walk {place' : List String}
    (h : disk.walk false links place segs = .ok place') : disk.Walks links place segs place' := by
  induction links generalizing place place' segs with
  | zero =>
    refine disk.walks_of_walkWith ?_ h
    intro a segs b hloop
    cases hloop
  | succ links ih => exact disk.walks_of_walkWith (fun h => ⟨links, rfl, ih h⟩) h

theorem Disk.Walks.real {place' : List String} (h : disk.Walks links place segs place')
    (hplace : disk.Real place) : disk.Real place' := by
  induction h with
  | nil => exact hplace
  | stay hdir hseg h ih => exact ih hplace
  | up hdir h ih => exact ih (disk.real_of_dir (disk.node_dropLast hdir))
  | name hreal h ih => exact ih hreal
  | @link links place place' segs seg target hlink h ih =>
    have hdir := (disk.closed place seg (by rw [hlink]; exact Option.some_ne_none _)).1
    refine ih (disk.real_of_dir ?_)
    rw [Path.start]
    split
    · exact disk.node_root
    · exact hdir

/-- What the first segments lead to, and how many links are left: the other segments
are walked from there. -/
theorem Disk.Walks.exists_walk {place' : List String} (h : disk.Walks links place segs place') :
    ∃ links' ≤ links, ∀ create rest,
      disk.walk create links place (segs ++ rest) = disk.walk create links' place' rest := by
  induction h with
  | nil => exact ⟨_, Nat.le_refl _, fun create rest => rfl⟩
  | stay hdir hseg h ih =>
    obtain ⟨links', hle, hwalk⟩ := ih
    refine ⟨links', hle, fun create rest => ?_⟩
    rw [List.cons_append, disk.walk_stay hdir hseg, hwalk]
  | up hdir h ih =>
    obtain ⟨links', hle, hwalk⟩ := ih
    refine ⟨links', hle, fun create rest => ?_⟩
    rw [List.cons_append, disk.walk_up hdir, hwalk]
  | name hreal h ih =>
    obtain ⟨links', hle, hwalk⟩ := ih
    refine ⟨links', hle, fun create rest => ?_⟩
    rw [List.cons_append, disk.walk_real hreal, hwalk]
  | link hlink h ih =>
    obtain ⟨links', hle, hwalk⟩ := ih
    refine ⟨links', Nat.le_succ_of_le hle, fun create rest => ?_⟩
    rw [List.cons_append, disk.walk_link hlink, ← List.append_assoc, hwalk]

theorem Disk.Walks.walk_eq {place' : List String} (h : disk.Walks links place segs place') :
    disk.walk create links place segs = .ok place' := by
  obtain ⟨links', -, hwalk⟩ := h.exists_walk
  have hend := hwalk create []
  rwa [List.append_nil, disk.walk_nil] at hend

theorem Disk.node_start (p : Path) : disk.node (p.start disk.cwd) = some .dir := by
  rw [Path.start]
  split
  · exact disk.node_root
  · exact disk.node_cwd

theorem Disk.real_of_resolve (h : disk.resolve false p = .ok place) : disk.Real place := by
  rw [Disk.resolve] at h
  split at h
  · cases h
  · split at h
    · cases h
    · exact (disk.walks_of_walk h).real (disk.real_of_dir (disk.node_start p))

theorem Disk.canonicalize_eq_ok {target : Path} (h : disk.canonicalize p = .ok target) :
    ∃ place, disk.resolve false p = .ok place ∧ target = .ofPlace place := by
  rw [Disk.canonicalize] at h
  cases hp : disk.resolve false p with
  | error e =>
    rw [hp] at h
    cases h
  | ok place =>
    rw [hp] at h
    cases h
    exact ⟨place, rfl, rfl⟩

theorem Disk.real_of_prefix {rest : List String} (h : disk.Real (place ++ rest)) :
    disk.Real place := by
  by_cases hrest : rest = []
  · rwa [hrest, List.append_nil] at h
  · exact disk.real_of_dir (disk.node_of_prefix hrest h.node_ne_none)

/-- Names that lead to a real place are followed one by one. -/
theorem Disk.walk_append {names : List String} (h : disk.Real (place ++ names)) :
    disk.walk create links place (names ++ segs) =
      disk.walk create links (place ++ names) segs := by
  induction names generalizing place with
  | nil => rw [List.append_nil, List.nil_append]
  | cons name names ih =>
    have hsplit : place ++ name :: names = place ++ [name] ++ names := by simp
    rw [hsplit] at h
    rw [List.cons_append, disk.walk_real (disk.real_of_prefix h), ih h, hsplit]

theorem Disk.isName_of_mem (h : disk.node place ≠ none) (hname : name ∈ place) : IsName name := by
  obtain ⟨front, rest, rfl⟩ := List.append_of_mem hname
  have hsplit : front ++ name :: rest = front ++ [name] ++ rest := by simp
  rw [hsplit] at h
  by_cases hrest : rest = []
  · rw [hrest, List.append_nil] at h
    exact (disk.closed front name h).2
  · have hdir := disk.node_of_prefix hrest h
    exact (disk.closed front name (by rw [hdir]; exact Option.some_ne_none _)).2

/-! ## paths of places -/

theorem Path.isAbsolute_ofPlace : (Path.ofPlace place).isAbsolute = true := by
  cases place <;> rfl

theorem Path.isEmpty_ofPlace : (Path.ofPlace place).isEmpty = false := by
  cases place <;> rfl

theorem Path.not_hasNul_ofPlace (h : ∀ name ∈ place, IsName name) :
    ¬(Path.ofPlace place).HasNul := by
  rintro ⟨s, hs, hnul⟩
  rw [Path.ofPlace, List.mem_cons] at hs
  obtain rfl | hs := hs
  · exact absurd hnul (by decide)
  · split at hs
    · rw [List.mem_singleton.1 hs] at hnul
      exact absurd hnul (by decide)
    · exact (h s hs).2.2.2.2 hnul

theorem Path.names_ofPlace (h : ∀ name ∈ place, IsName name) :
    (Path.ofPlace place).names = place := by
  have hall : place.filter (fun seg => !Path.stays seg) = place :=
    List.filter_eq_self.2 fun s hs => by simp [Path.stays, (h s hs).1, (h s hs).2.1]
  rw [Path.names, Path.ofPlace]
  split
  case isTrue hnil =>
    subst hnil
    rfl
  case isFalse => exact hall

theorem Path.join_ofPlace (h : ∀ name ∈ place, IsName name) :
    (Path.ofPlace place).join ⟨[name]⟩ = .ofPlace (place ++ [name]) := by
  have hrel : (Path.mk [name]).isAbsolute = false := rfl
  rw [Path.join, hrel, if_neg Bool.false_ne_true]
  by_cases hnil : place = []
  · subst hnil
    rfl
  · have hlast : (Path.ofPlace place).segments.getLast? ≠ some "" := by
      intro hlast
      rw [Path.ofPlace, if_neg hnil, List.getLast?_cons,
        List.getLast?_eq_some_getLast hnil] at hlast
      exact (h _ (List.getLast_mem hnil)).1 (Option.some.inj hlast)
    rw [if_neg hlast, Path.ofPlace, if_neg hnil, Path.ofPlace, if_neg (by simp)]
    rfl

theorem Disk.resolve_ofPlace_eq (hnames : ∀ name ∈ place, IsName name) :
    disk.resolve create (.ofPlace place) = disk.walk create maxLinks [] place := by
  rw [Disk.resolve, if_neg (Path.not_hasNul_ofPlace hnames),
    if_neg (Bool.eq_false_iff.1 Path.isEmpty_ofPlace), Path.start,
    if_pos Path.isAbsolute_ofPlace, Path.ofPlace, disk.walk_stay disk.node_root (.inl rfl)]
  split
  case isTrue hnil =>
    rw [hnil, disk.walk_stay disk.node_root (.inl rfl)]
  case isFalse => rfl

theorem Disk.resolve_ofPlace (h : disk.Real place) :
    disk.resolve create (.ofPlace place) = .ok place := by
  rw [disk.resolve_ofPlace_eq fun name hname => disk.isName_of_mem h.node_ne_none hname]
  have hwalk : disk.walk create maxLinks [] (place ++ []) =
      disk.walk create maxLinks ([] ++ place) [] :=
    disk.walk_append (by rwa [List.nil_append])
  rw [List.append_nil] at hwalk
  rw [hwalk, disk.walk_nil, List.nil_append]

/-- The path of an entry of a real place leads to the entry, unless this is a link. -/
theorem Disk.resolve_ofPlace_entry (hdir : disk.Real dir)
    (hname : name ≠ "" ∧ name ≠ "." ∧ name ≠ "..")
    (h : disk.resolve true (.ofPlace (dir ++ [name])) = .ok place) :
    (∃ target, disk.node (dir ++ [name]) = some (.link target)) ∨ place = dir ++ [name] := by
  have hsegs : (Path.ofPlace (dir ++ [name])).segments = "" :: (dir ++ [name]) := by
    rw [Path.ofPlace, if_neg (by simp)]
  have hwalk : disk.walk true maxLinks dir [name] = .ok place := by
    rw [Disk.resolve] at h
    split at h
    · cases h
    · rw [if_neg (Bool.eq_false_iff.1 Path.isEmpty_ofPlace), Path.start,
        if_pos Path.isAbsolute_ofPlace, hsegs, disk.walk_stay disk.node_root (.inl rfl),
        disk.walk_append (by rwa [List.nil_append]), List.nil_append] at h
      exact h
  have hstay : ¬(name = "" ∨ name = ".") := fun h => h.elim hname.1 hname.2.1
  rw [maxLinks, Disk.walk, Disk.walkWith, if_neg hstay, if_neg hname.2.2] at hwalk
  split at hwalk
  · cases hwalk
  · split at hwalk
    case h_1 target hlink => exact .inl ⟨target, hlink⟩
    case h_2 =>
      cases hwalk
      exact .inr rfl
    case h_3 =>
      split at hwalk <;> cases hwalk
      exact .inr rfl

theorem Disk.writeFile_eq {data : List UInt8} {append : Bool}
    (hplace : disk.resolve true p = .ok place) (h : disk.Holds place) :
    disk.writeFile p data append =
      .ok (disk.put place (.file (disk.contentAfter place data append)) h, place) := by
  rw [Disk.writeFile, hplace]
  dsimp only
  rw [dif_pos h]

theorem Disk.writeFile_eq_ok {disk' : Disk} {data : List UInt8} {append : Bool}
    (h : disk.writeFile p data append = .ok (disk', place)) :
    disk.resolve true p = .ok place ∧ ∃ hholds : disk.Holds place,
      disk' = disk.put place (.file (disk.contentAfter place data append)) hholds := by
  rw [Disk.writeFile] at h
  split at h
  · cases h
  case h_2 place hplace =>
    split at h <;> cases h
    case isTrue hholds => exact ⟨hplace, hholds, rfl⟩

theorem Disk.Holds.isName (h : disk.Holds place) (hname : name ∈ place) : IsName name := by
  obtain ⟨hne, hdir, hlast, -⟩ := h
  rw [← List.dropLast_append_getLast hne, List.mem_append, List.mem_singleton] at hname
  obtain hname | rfl := hname
  · exact disk.isName_of_mem (by rw [hdir]; exact Option.some_ne_none _) hname
  · exact hlast _ (List.getLast?_eq_some_getLast hne)

end Turbine.Base
