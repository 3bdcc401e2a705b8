import Turbine.Base.Loops
import Turbine.Embed.Archive

/-!
# Turbine.Embed.Extract

The extraction of an embedded application (crates/turbine-core/src/embed.rs), and the
round trip through the archive that the build script makes.

The loop takes a header and its content at every turn.  What it makes of them is decided
by the name that the header holds, which is cut at 100 bytes: a tree all of whose paths
fit comes out as it went in, and a file with a longer path comes out under another name.

* `extract_packTarGz`: the round trip.
-/

namespace Turbine.Embed

open Base

/-! ## one entry -/

/-- The directories above a target are made; a failure is ignored. -/
def makeParent (disk : Disk) (target : Path) : Disk :=
  match target.parent with
  | none => disk
  | some parent => (disk.createDirAll parent).1

/-- The canonical path of a target, or that of its parent with the name of the file. -/
def canonicalTarget (disk : Disk) (target : Path) : Option Path :=
  match disk.canonicalize target with
  | .ok p => some p
  | .error _ =>
    match target.parent with
    | none => none
    | some parent =>
      match disk.canonicalize parent with
      | .error _ => none
      | .ok p => some (p.join ⟨[target.fileName.getD ""]⟩)

/-- The check against path traversal: whether the entry is skipped, with the disk on
which the parent of the target has been made. -/
def traverses (disk : Disk) (dest target : Path) : Disk × Bool :=
  match disk.canonicalize dest with
  | .error _ => (disk, false)
  | .ok canonicalDest =>
    let disk := makeParent disk target
    match canonicalTarget disk target with
    | none => (disk, false)
    | some p => (disk, !p.startsWith canonicalDest)

/-- What is made at the target, from the bytes behind the header. -/
def makeEntry (disk : Disk) (count : Nat) (target : Path) (size : Nat) (typeFlag : UInt8)
    (body : Bytes) : Disk × Nat :=
  if typeFlag = 53 ∨ typeFlag = 47 then ((disk.createDirAll target).1, count)
  else if typeFlag = 48 ∨ typeFlag = 0 then
    if size ≤ body.length then
      let disk := makeParent disk target
      match disk.writeFile target (body.take size) false with
      | .ok (disk, _) => (disk, count + 1)
      | .error _ => (disk, count)
    else (disk, count)
  -- links and other special entries
  else (disk, count)

/-- An entry, with the number of files so far. -/
def extractEntry (dest : Path) (s : Disk × Nat) (name : String) (size : Nat) (typeFlag : UInt8)
    (body : Bytes) : Disk × Nat :=
  if name = "" ∨ name = "." then s
  else
    let target := dest.join (.ofText name)
    match traverses s.1 dest target with
    | (disk, true) => (disk, s.2)
    | (disk, false) => makeEntry disk s.2 target size typeFlag body

/-! ## the loop -/

/-- A content with its padding. -/
def padded (size : Nat) : Nat := (size + 511) / 512 * 512

/-- A turn of the loop, on what is left of the archive. -/
def extractTurn (dest : Path) (s : Disk × Nat) (archive : Bytes) :
    ((Disk × Nat) × Bytes) ⊕ (Disk × Nat) :=
  if archive.length < 512 then .inr s
  else
    let header := archive.take 512
    let body := archive.drop 512
    if header.all (· = 0) then .inr s
    else
      let size := readSize header
      .inl (extractEntry dest s (readName header) size (readFlag header) body,
        body.drop (padded size))

/-- The loop of `extract_tar_gz`. -/
def extractLoop (dest : Path) : Loop UInt8 (Disk × Nat) (Disk × Nat) where
  turn := extractTurn dest
  shorter := by
    intro s archive s' rest h
    rw [extractTurn] at h
    split at h
    case isTrue => cases h
    case isFalse hlen =>
      dsimp only at h
      split at h
      case isTrue => cases h
      case isFalse =>
        cases h
        rw [List.length_drop, List.length_drop]
        omega

/-- `extract_tar_gz`: the disk it leaves, and the number of files. -/
def extractTarGz (gz : Gzip) (disk : Disk) (data : Bytes) (dest : Path) :
    Except String (Disk × Nat) :=
  match gz.decompress data with
  | .error e => .error ("Gzip decompress failed: " ++ e)
  | .ok archive => .ok ((extractLoop dest).run (disk, 0) archive)

variable {disk disk' : Disk} {dest : Path} {stem dir pre trail : List String} {name text : String}
  {content header tail : Bytes} {count size : Nat} {typeFlag : UInt8} {s : Disk × Nat}

/-- A header that is not all zeros is taken, with what it announces. -/
theorem run_of_reads (h : Reads header text size typeFlag) (hflag : typeFlag ≠ 0) :
    (extractLoop dest).run s (header ++ tail) =
      (extractLoop dest).run (extractEntry dest s text size typeFlag tail)
        (tail.drop (padded size)) := by
  refine Loop.run_more ?_
  have hlen : ¬(header ++ tail).length < 512 := by
    rw [List.length_append, h.length]
    omega
  have hsome : header.all (· = 0) = false := by
    refine List.all_eq_false.2 ⟨header.getD 156 0, ?_, ?_⟩
    · have hlt : 156 < header.length := by
        rw [h.length]
        decide
      rw [List.getD_eq_getElem?_getD, List.getElem?_eq_getElem hlt, Option.getD_some]
      exact List.getElem_mem hlt
    · rw [decide_eq_true_iff]
      exact fun hzero => hflag (h.typeFlag.symm.trans hzero)
  change extractTurn dest s (header ++ tail) = _
  rw [extractTurn, if_neg hlen, List.take_left' h.length, List.drop_left' h.length]
  dsimp only
  rw [hsome, if_neg Bool.false_ne_true, h.name, h.size, h.typeFlag]

theorem run_zeros (n : Nat) : (extractLoop dest).run s (List.replicate n 0) = s := by
  refine Loop.run_done ?_
  change extractTurn dest s (List.replicate n 0) = _
  rw [extractTurn]
  split
  · rfl
  · rw [if_pos]
    simp

theorem length_padding (content : Bytes) :
    content.length + (padding content).length = padded content.length := by
  rw [padding, List.length_replicate, padded]
  omega

/-! ## entries below the destination -/

/-- The text of a path below the destination, name by name. -/
theorem join_ofText (h : disk.Opens dest stem dir) (hpre : ∀ n ∈ pre, IsName n)
    (hname : IsName name) (htext : split text '/' = pre ++ name :: trail) :
    text ≠ "" ∧ text ≠ "." ∧ dest.join (.ofText text) = ⟨stem ++ pre ++ name :: trail⟩ := by
  have hhead : ∃ n rest, IsName n ∧ pre ++ name :: trail = n :: rest := by
    cases pre with
    | nil => exact ⟨name, trail, hname, rfl⟩
    | cons n pre => exact ⟨n, _, hpre n List.mem_cons_self, rfl⟩
  obtain ⟨n, rest, hn, hsegs⟩ := hhead
  have hfirst : (split text '/').head? = some n := by rw [htext, hsegs, List.head?_cons]
  refine ⟨?_, ?_, ?_⟩
  · rintro rfl
    exact hn.1 (Option.some.inj hfirst).symm
  · rintro rfl
    exact hn.2.1 (Option.some.inj hfirst).symm
  · rw [Path.ofText, h.join, htext, List.append_assoc]
    rw [Path.isAbsolute, hfirst]
    simp [hn.1]

section Missing

variable (hopens : disk.Opens dest stem dir) (hdir : disk.node (dir ++ pre) = some .dir)
  (hname : IsName name) (hnone : disk.node (dir ++ pre ++ [name]) = none)
  (htrail : ∀ seg ∈ trail, seg = "")
include hopens hdir hname

theorem makeParent_eq (htrail : ∀ seg ∈ trail, seg = "") :
    makeParent disk ⟨stem ++ pre ++ name :: trail⟩ = disk := by
  obtain ⟨parent, hparent, hresolve⟩ :=
    hopens.isStem.exists_parent (disk.real_of_dir hdir) hname htrail
  rw [makeParent, hparent]
  dsimp only
  rw [disk.createDirAll_of_isDir hresolve hdir]

include hnone htrail

theorem traverses_eq : traverses disk dest ⟨stem ++ pre ++ name :: trail⟩ = (disk, false) := by
  have hreal := disk.real_of_dir hdir
  have hnames : ∀ n ∈ dir ++ pre, IsName n := fun n hn => disk.isName_of_mem hreal.node_ne_none hn
  have hcanonical : canonicalTarget disk ⟨stem ++ pre ++ name :: trail⟩ =
      some (.ofPlace (dir ++ pre ++ [name])) := by
    obtain ⟨parent, hparent, hresolve⟩ := hopens.isStem.exists_parent hreal hname htrail
    have hmissing : disk.resolve false ⟨stem ++ pre ++ name :: trail⟩ = .error .notFound := by
      rw [hopens.isStem.resolve_missing hdir hname htrail hnone, if_neg (by simp)]
    rw [canonicalTarget, Disk.canonicalize, hmissing]
    dsimp only [Except.map]
    rw [hparent]
    dsimp only
    rw [Disk.canonicalize, hresolve]
    dsimp only [Except.map]
    rw [Path.fileName_concat hname htrail, Option.getD_some, Path.join_ofPlace hnames]
  have hbelow : (Path.ofPlace (dir ++ pre ++ [name])).startsWith (.ofPlace dir) = true := by
    have hplace : ∀ n ∈ dir ++ pre ++ [name], IsName n := by
      intro n hn
      obtain hn | hn := List.mem_append.1 hn
      · exact hnames n hn
      · exact List.mem_singleton.1 hn ▸ hname
    rw [Path.startsWith, Path.isAbsolute_ofPlace, Path.isAbsolute_ofPlace,
      Path.names_ofPlace hplace,
      Path.names_ofPlace fun n hn => hnames n (List.mem_append_left _ hn), Bool.and_eq_true,
      List.isPrefixOf_iff_prefix, List.append_assoc]
    exact ⟨rfl, List.prefix_append _ _⟩
  rw [traverses, Disk.canonicalize, hopens.resolve]
  dsimp only [Except.map]
  rw [makeParent_eq hopens hdir hname htrail, hcanonical]
  dsimp only
  rw [hbelow, Bool.not_true]

/-- So the entry is made. -/
theorem extractEntry_eq (htext : split text '/' = pre ++ name :: trail) (body : Bytes) :
    extractEntry dest (disk, count) text size typeFlag body =
      makeEntry disk count ⟨stem ++ pre ++ name :: trail⟩ size typeFlag body := by
  obtain ⟨hempty, hdot, hjoin⟩ := join_ofText hopens (disk.isName_below hdir) hname htext
  rw [extractEntry, if_neg (not_or.2 ⟨hempty, hdot⟩), hjoin]
  dsimp only
  rw [traverses_eq hopens hdir hname hnone htrail]

theorem makeEntry_dir (body : Bytes) :
    makeEntry disk count ⟨stem ++ pre ++ name :: trail⟩ size 53 body =
      (disk.put (dir ++ pre ++ [name]) .dir (disk.holds_of_missing hdir hname hnone), count) := by
  have hempty : (Base.Path.mk (stem ++ pre ++ name :: trail)).isEmpty = false := by
    rw [List.append_assoc]
    obtain ⟨seg, rest, hstem⟩ := List.exists_cons_of_ne_nil hopens.isStem.ne_nil
    simp [Path.isEmpty, hstem]
  rw [makeEntry, if_pos (.inl rfl), disk.createDirAll_of_mkdir hempty
    (hopens.isStem.mkdir hdir hname htrail hnone)]

omit htrail in
theorem makeEntry_file :
    makeEntry disk count ⟨stem ++ pre ++ [name]⟩ content.length 48 (content ++ tail) =
      (disk.put (dir ++ pre ++ [name]) (.file content) (disk.holds_of_missing hdir hname hnone),
        count + 1) := by
  have htrail : ∀ seg ∈ ([] : List String), seg = "" := fun _ hseg => nomatch hseg
  have hresolve : disk.resolve true ⟨stem ++ pre ++ [name]⟩ = .ok (dir ++ pre ++ [name]) := by
    rw [hopens.isStem.resolve_missing hdir hname htrail hnone, if_pos ⟨rfl, rfl⟩]
  have hcontent : disk.contentAfter (dir ++ pre ++ [name]) content false = content := by
    rw [Disk.contentAfter, hnone]
  have hlen : content.length ≤ (content ++ tail).length := by
    rw [List.length_append]
    omega
  rw [makeEntry, if_neg (by decide), if_pos (.inl rfl), if_pos hlen, List.take_left,
    makeParent_eq hopens hdir hname htrail]
  dsimp only
  rw [disk.writeFile_eq hresolve (disk.holds_of_missing hdir hname hnone)]
  dsimp only
  rw [hcontent]

omit htrail in
/-- **The turn of a file**: it is written under the name that the header holds. -/
theorem run_file (count : Nat) (tail : Bytes) (htext : split text '/' = pre ++ [name])
    (hreads : Reads header text content.length 48) :
    (extractLoop dest).run (disk, count) (header ++ (content ++ padding content ++ tail)) =
      (extractLoop dest).run
        (disk.put (dir ++ pre ++ [name]) (.file content) (disk.holds_of_missing hdir hname hnone),
          count + 1) tail := by
  have htrail : ∀ seg ∈ ([] : List String), seg = "" := fun _ hseg => nomatch hseg
  have hrest : (content ++ padding content ++ tail).drop (padded content.length) = tail := by
    refine List.drop_left' ?_
    rw [List.length_append, length_padding]
  rw [run_of_reads hreads (by decide), hrest, extractEntry_eq hopens hdir hname hnone htrail htext,
    List.append_assoc content, makeEntry_file hopens hdir hname hnone]

/-- **The turn of a directory.** -/
theorem run_dir (count : Nat) (tail : Bytes)
    (htext : split text '/' = pre ++ name :: trail) (hreads : Reads header text 0 53) :
    (extractLoop dest).run (disk, count) (header ++ tail) =
      (extractLoop dest).run
        (disk.put (dir ++ pre ++ [name]) .dir (disk.holds_of_missing hdir hname hnone), count)
        tail := by
  have hrest : tail.drop (padded 0) = tail := rfl
  rw [run_of_reads hreads (by decide), hrest, extractEntry_eq hopens hdir hname hnone htrail htext,
    makeEntry_dir hopens hdir hname hnone htrail]

end Missing

/-! ## the path of a directory -/

/-- The text of the path that leads over the names. -/
structure Spells (rel : String) (pre : List String) : Prop where
  segments : rel = "" ∧ pre = [] ∨ rel ≠ "" ∧ split rel '/' = pre
  noNul : '\x00' ∉ rel.toList

theorem spells_root : Spells "" [] := ⟨.inl ⟨rfl, rfl⟩, by simp⟩

variable {rel : String}

theorem Spells.split_relative (h : Spells rel pre) (hname : IsName name) :
    split (relative rel name) '/' = pre ++ [name] := by
  have hsingle := split_of_not_mem hname.2.2.2.1
  rw [relative]
  obtain ⟨rfl, rfl⟩ | ⟨hrel, hsegs⟩ := h.segments
  · rw [if_pos rfl, hsingle, List.nil_append]
  · rw [if_neg hrel, split_slash, hsegs, hsingle]

theorem Spells.relative (h : Spells rel pre) (hname : IsName name) :
    Spells (relative rel name) (pre ++ [name]) := by
  have hsplit := h.split_relative hname
  refine ⟨.inr ⟨?_, hsplit⟩, ?_⟩
  · intro hempty
    rw [hempty] at hsplit
    have hlast := congrArg List.getLast? hsplit
    rw [List.getLast?_concat] at hlast
    exact hname.1 (Option.some.inj hlast).symm
  · rw [Embed.relative]
    split
    · exact hname.noNul
    · simp [h.noNul, hname.noNul]

/-- The path of a directory reads back with or without its slash. -/
theorem Spells.split_cutName (h : Spells rel pre) (hrel : rel ≠ "") (hfits : cutName rel = rel) :
    ∃ trail, (∀ seg ∈ trail, seg = "") ∧ split (cutName (rel ++ "/")) '/' = pre ++ trail := by
  have hsegs : split rel '/' = pre := by
    obtain ⟨hempty, -⟩ | ⟨-, hsegs⟩ := h.segments
    · exact absurd hempty hrel
    · exact hsegs
  obtain hcut | hcut := cutName_slash hfits
  · refine ⟨[""], by simp, ?_⟩
    have hslash := split_slash rel ""
    rw [String.append_empty] at hslash
    rw [hcut, hslash, hsegs]
    rfl
  · exact ⟨[], by simp, by rw [hcut, hsegs, List.append_nil]⟩

/-! ## trees on the disk -/

theorem Forest.node_nil {f : Forest} : f.node [] = none := by
  cases f <;> rfl

theorem Forest.node_of_not_mem {f : Forest} {place : List String} (h : name ∉ f.names) :
    f.node (name :: place) = none := by
  induction f with
  | nil => rfl
  | file name' content rest ih =>
    rw [Forest.names, List.mem_cons, not_or] at h
    rw [Forest.node, if_neg h.1, ih h.2]
  | dir name' inside rest _ ih =>
    rw [Forest.names, List.mem_cons, not_or] at h
    rw [Forest.node, if_neg h.1, ih h.2]

/-- The disk has grown by the tree, at a place. -/
structure Grown (f : Forest) (place : List String) (disk disk' : Disk) : Prop where
  grows : disk.Extends disk'
  inside : ∀ below, disk'.node (place ++ below) = (f.node below).or (disk.node (place ++ below))
  outside : ∀ other, ¬place <+: other → disk'.node other = disk.node other

variable {place : List String} {disk₁ disk₂ disk₃ : Disk}

theorem grown_nil : Grown .nil place disk disk := ⟨Disk.Extends.refl, fun _ => rfl, fun _ _ => rfl⟩

/-- Behind a file, the rest of its directory. -/
theorem Grown.behindFile {rest : Forest} {hholds : disk.Holds (place ++ [name])}
    (hnone : disk.node (place ++ [name]) = none) (hname : name ∉ rest.names)
    (h : Grown rest place (disk.put (place ++ [name]) (.file content) hholds) disk') :
    Grown (.file name content rest) place disk disk' := by
  refine ⟨(disk.extends_put hholds hnone).trans h.grows, ?_, ?_⟩
  · intro below
    rw [h.inside, Disk.node_put]
    cases below with
    | nil => rw [Forest.node_nil, Forest.node_nil, if_neg (by simp)]
    | cons n below =>
      rw [Forest.node]
      by_cases hn : n = name
      · subst hn
        rw [Forest.node_of_not_mem hname, if_pos rfl, Option.none_or]
        by_cases hbelow : below = []
        · rw [if_pos (by rw [hbelow]), if_pos hbelow, Option.some_or]
        · rw [if_neg (by simpa using hbelow), if_neg hbelow, Option.none_or]
      · rw [if_neg hn, if_neg (by simp [hn])]
  · intro other hother
    rw [h.outside other hother, Disk.node_put, if_neg]
    rintro rfl
    exact hother (List.prefix_append _ _)

/-- Behind a directory, what is in it and then the rest of its own directory. -/
theorem Grown.behindDir {inside rest : Forest} {hholds : disk.Holds (place ++ [name])}
    (hnone : disk.node (place ++ [name]) = none) (hname : name ∉ rest.names)
    (hinside : Grown inside (place ++ [name]) (disk.put (place ++ [name]) .dir hholds) disk')
    (hrest : Grown rest place disk' disk₂) : Grown (.dir name inside rest) place disk disk₂ := by
  refine ⟨((disk.extends_put hholds hnone).trans hinside.grows).trans hrest.grows, ?_, ?_⟩
  · intro below
    rw [hrest.inside]
    cases below with
    | nil =>
      have habove : ¬place ++ [name] <+: place ++ [] := fun hbegins => by
        simpa using hbegins.length_le
      rw [Forest.node_nil, Forest.node_nil, hinside.outside _ habove, Disk.node_put,
        if_neg (by simp)]
    | cons n below =>
      rw [Forest.node]
      by_cases hn : n = name
      · subst hn
        have hplace : place ++ n :: below = place ++ [n] ++ below := by simp
        rw [Forest.node_of_not_mem hname, if_pos rfl, Option.none_or, hplace, hinside.inside,
          Disk.node_put]
        by_cases hbelow : below = []
        · rw [hbelow, Forest.node_nil, List.append_nil, if_pos rfl, if_pos rfl, Option.none_or,
            Option.some_or]
        · rw [if_neg (by simpa using hbelow), if_neg hbelow]
      · have hother : ¬place ++ [name] <+: place ++ n :: below := by
          rw [List.prefix_append_right_inj, List.cons_prefix_cons]
          exact fun hbegins => hn hbegins.1.symm
        rw [if_neg hn, hinside.outside _ hother, Disk.node_put, if_neg (by simp [hn])]
  · intro other hother
    have hbelow : ¬place ++ [name] <+: other := fun hbegins =>
      hother ((List.prefix_append _ _).trans hbegins)
    rw [hrest.outside other hother, hinside.outside other hbelow, Disk.node_put, if_neg]
    rintro rfl
    exact hother (List.prefix_append _ _)

/-! ## the turns of a directory -/

/-- The bytes make the disk grow by the tree, wherever none of its entries is yet. -/
def Unpacks (dest : Path) (stem dir pre : List String) (f : Forest) (bytes : Bytes) : Prop :=
  ∀ disk count tail, disk.Opens dest stem dir → disk.node (dir ++ pre) = some .dir →
    (∀ n ∈ f.names, disk.node (dir ++ pre ++ [n]) = none) →
    ∃ disk', (extractLoop dest).run (disk, count) (bytes ++ tail) =
        (extractLoop dest).run (disk', count + f.count) tail ∧
      Grown f (dir ++ pre) disk disk'

variable {inside rest : Forest} {bytes bytesRest : Bytes}

theorem unpacks_nil : Unpacks dest stem dir pre .nil [] :=
  fun disk _ _ _ _ _ => ⟨disk, rfl, grown_nil⟩

theorem Unpacks.consFile (h : Unpacks dest stem dir pre rest bytes) (hname : IsName name)
    (hother : name ∉ rest.names) (htext : split text '/' = pre ++ [name])
    (hreads : Reads header text content.length 48) :
    Unpacks dest stem dir pre (.file name content rest)
      (header ++ (content ++ padding content) ++ bytes) := by
  intro disk count tail hopens hdir hnone
  have hmissing := hnone name List.mem_cons_self
  have hholds := disk.holds_of_missing hdir hname hmissing
  have hgrows := disk.extends_put (n := .file content) hholds hmissing
  have hnone' : ∀ n ∈ rest.names,
      (disk.put (dir ++ pre ++ [name]) (.file content) hholds).node (dir ++ pre ++ [n]) =
        none := by
    intro n hn
    have hdiff : n ≠ name := by
      rintro rfl
      exact hother hn
    rw [Disk.node_put, if_neg (by simpa using hdiff)]
    exact hnone n (List.mem_cons_of_mem _ hn)
  obtain ⟨disk', hrun, hgrown⟩ :=
    h _ (count + 1) tail (hopens.extends hgrows) (hgrows.node hdir) hnone'
  refine ⟨disk', ?_, hgrown.behindFile hmissing hother⟩
  have hturn := run_file hopens hdir hname hmissing count (bytes ++ tail) htext hreads
  rw [List.append_assoc, List.append_assoc header, hturn, hrun, Forest.count, Nat.add_assoc,
    Nat.add_comm 1]

theorem Unpacks.consDir (h : Unpacks dest stem dir (pre ++ [name]) inside bytes)
    (hrest : Unpacks dest stem dir pre rest bytesRest) (hname : IsName name)
    (hother : name ∉ rest.names) (htrail : ∀ seg ∈ trail, seg = "")
    (htext : split text '/' = pre ++ name :: trail) (hreads : Reads header text 0 53) :
    Unpacks dest stem dir pre (.dir name inside rest) (header ++ bytes ++ bytesRest) := by
  intro disk count tail hopens hdir hnone
  have hmissing := hnone name List.mem_cons_self
  have hholds := disk.holds_of_missing hdir hname hmissing
  have hgrows := disk.extends_put (n := .dir) hholds hmissing
  have hmade : (disk.put (dir ++ pre ++ [name]) .dir hholds).node (dir ++ (pre ++ [name])) =
      some .dir := by
    rw [Disk.node_put, if_pos (List.append_assoc ..).symm]
  -- a missing entry has nothing below it
  have hnoneInside : ∀ n ∈ inside.names,
      (disk.put (dir ++ pre ++ [name]) .dir hholds).node (dir ++ (pre ++ [name]) ++ [n]) =
        none := by
    intro n hn
    rw [Disk.node_put, if_neg (by simp), ← List.append_assoc]
    by_contra hsome
    rw [(disk.closed _ _ hsome).1] at hmissing
    cases hmissing
  obtain ⟨disk₁, hrun₁, hgrown₁⟩ :=
    h _ count (bytesRest ++ tail) (hopens.extends hgrows) hmade hnoneInside
  rw [← List.append_assoc] at hgrown₁
  have hnoneRest : ∀ n ∈ rest.names, disk₁.node (dir ++ pre ++ [n]) = none := by
    intro n hn
    have hdiff : n ≠ name := by
      rintro rfl
      exact hother hn
    rw [hgrown₁.outside _ (by simpa using hdiff.symm), Disk.node_put, if_neg (by simpa using hdiff)]
    exact hnone n (List.mem_cons_of_mem _ hn)
  have hgrows₁ := hgrows.trans hgrown₁.grows
  obtain ⟨disk₂, hrun₂, hgrown₂⟩ := hrest disk₁ (count + inside.count) tail
    (hopens.extends hgrows₁) (hgrows₁.node hdir) hnoneRest
  refine ⟨disk₂, ?_, hgrown₁.behindDir hmissing hother hgrown₂⟩
  have hturn := run_dir hopens hdir hname hmissing htrail count (bytes ++ (bytesRest ++ tail))
    htext hreads
  rw [List.append_assoc, List.append_assoc, hturn, hrun₁, hrun₂, Forest.count, Nat.add_assoc]

/-- The entry is packed, its size fits its field, and its path reads back from its own. -/
def Fits (path : String) (size : Nat) : Prop :=
  skips path = false ∧ size < 8 ^ 11 ∧ cutName path = path

/-- **The turns of a directory.**  What `pack_directory` writes for the entries makes the
disk grow by them. -/
theorem unpacks_packDirectory (dest : Path) (stem dir : List String) {now : Nat → Nat} {f : Forest}
    {data data' : Bytes} (hnamed : f.WellNamed) (hfits : f.All Fits rel)
    (hrel : Spells rel pre) (hpack : packDirectory now rel f data = some data') :
    ∃ bytes, data' = data ++ bytes ∧ Unpacks dest stem dir pre f bytes := by
  induction f generalizing rel pre data data' with
  | nil =>
    cases hpack
    exact ⟨[], (List.append_nil _).symm, unpacks_nil⟩
  | file name content rest ih =>
    obtain ⟨hname, hother, hnamed⟩ := hnamed
    obtain ⟨⟨hskips, hsize, hpath⟩, hfits⟩ := hfits
    rw [packDirectory, hskips, if_neg Bool.false_ne_true] at hpack
    split at hpack
    · cases hpack
    case h_2 header hheader =>
      have hreads := reads_writeTarHeader (hrel.relative hname).noNul hsize hheader
      rw [hpath] at hreads
      obtain ⟨bytes, rfl, hrest⟩ := ih hnamed hfits hrel hpack
      exact ⟨header ++ (content ++ padding content) ++ bytes, by simp only [List.append_assoc],
        hrest.consFile hname hother (hrel.split_relative hname) hreads⟩
  | dir name inside rest ihInside ihRest =>
    obtain ⟨hname, hother, hnamed, hnamedRest⟩ := hnamed
    obtain ⟨⟨hskips, -, hpath⟩, hfits, hfitsRest⟩ := hfits
    rw [packDirectory, hskips, if_neg Bool.false_ne_true] at hpack
    split at hpack
    · cases hpack
    case h_2 header hheader =>
      split at hpack
      · cases hpack
      case h_2 data' hinside =>
        have hspells := hrel.relative hname
        have hnoNul : '\x00' ∉ (relative rel name ++ "/").toList := by simp [hspells.noNul]
        have hreads := reads_writeTarHeader hnoNul (by decide) hheader
        obtain ⟨hne, -⟩ := hspells.segments.resolve_left (by simp)
        obtain ⟨trail, htrail, htext⟩ := hspells.split_cutName hne hpath
        rw [List.append_assoc, List.singleton_append] at htext
        obtain ⟨bytes, rfl, hunpacks⟩ := ihInside hnamed hfits hspells hinside
        obtain ⟨bytesRest, rfl, hrest⟩ := ihRest hnamedRest hfitsRest hrel hpack
        exact ⟨header ++ bytes ++ bytesRest, by simp only [List.append_assoc],
          hunpacks.consDir hrest hname hother htrail htext hreads⟩

/-! ## the round trip -/

/-- Into an empty directory, the tree is all that comes. -/
theorem Unpacks.exists_run {f : Forest} (h : Unpacks dest stem dir [] f bytes)
    (hopens : disk.Opens dest stem dir) (hdir : disk.node dir = some .dir)
    (hempty : ∀ below, below ≠ [] → disk.node (dir ++ below) = none) :
    ∃ disk', (extractLoop dest).run (disk, 0) (bytes ++ List.replicate 1024 0) =
        (disk', f.count) ∧
      (∀ below, below ≠ [] → disk'.node (dir ++ below) = f.node below) ∧
      ∀ other, ¬dir <+: other → disk'.node other = disk.node other := by
  rw [Unpacks, List.append_nil] at h
  obtain ⟨disk', hrun, hgrown⟩ := h disk 0 (List.replicate 1024 0) hopens hdir
    fun n _ => hempty [n] (by simp)
  refine ⟨disk', ?_, fun below hbelow => ?_, hgrown.outside⟩
  · rw [hrun, run_zeros, Nat.zero_add]
  · rw [hgrown.inside, hempty below hbelow, Option.or_none]

theorem Forest.All.imp₂ {P Q R : String → Nat → Prop} {f : Forest}
    (himp : ∀ path size, P path size → Q path size → R path size) (hP : f.All P rel)
    (hQ : f.All Q rel) : f.All R rel := by
  induction f generalizing rel with
  | nil => trivial
  | file name content rest ih => exact ⟨himp _ _ hP.1 hQ.1, ih hP.2 hQ.2⟩
  | dir name inside rest ihInside ihRest =>
    exact ⟨himp _ _ hP.1 hQ.1, ihInside hP.2.1 hQ.2.1, ihRest hP.2.2 hQ.2.2⟩

/-- A directory of files below 8 GiB and of directories, with nothing in it that packing
leaves out. -/
structure App where
  entries : Forest
  wellNamed : entries.WellNamed
  packed : entries.All (fun path size => skips path = false ∧ size < 8 ^ 11) ""

theorem exists_packTarGz (gz : Gzip) {now : Nat → Nat} (app : App) (hnow : ∀ n, now n < 8 ^ 11) :
    ∃ archive, packTarGz gz now app.entries = some archive := by
  obtain ⟨data, hdata⟩ := exists_packDirectory hnow
    (app.packed.imp₂ (fun _ _ h _ => h.2) app.packed) []
  rw [packTarGz, packTar, hdata]
  exact ⟨_, rfl⟩

/-- **Round trip.**  While the clock fits its field, an application is packed.  If every path
of it reads back from the name field, as all paths of at most 100 bytes do (`cutName_eq`),
extracting the archive into an empty directory gives the same tree there, changes nothing
elsewhere, and counts the files. -/
theorem extract_packTarGz (gz : Gzip) (now : Nat → Nat) (app : App)
    (hpaths : app.entries.All (fun path _ => cutName path = path) "")
    (hdest : disk.resolve false dest = .ok dir) (hdir : disk.node dir = some .dir)
    (hempty : ∀ below, below ≠ [] → disk.node (dir ++ below) = none) :
    ((∀ n, now n < 8 ^ 11) → ∃ archive, packTarGz gz now app.entries = some archive) ∧
    ∀ archive, packTarGz gz now app.entries = some archive →
      ∃ disk', extractTarGz gz disk archive dest = .ok (disk', app.entries.count) ∧
        (∀ below, below ≠ [] → disk'.node (dir ++ below) = app.entries.node below) ∧
        ∀ other, ¬dir <+: other → disk'.node other = disk.node other := by
  refine ⟨exists_packTarGz gz app, fun archive hpack => ?_⟩
  obtain ⟨tar, htar, rfl⟩ := Option.map_eq_some_iff.1 hpack
  obtain ⟨data, hdata, rfl⟩ := Option.map_eq_some_iff.1 htar
  obtain ⟨stem, hopens⟩ := disk.exists_opens hdest
  have hfits : app.entries.All Fits "" :=
    app.packed.imp₂ (fun _ _ hpacked hpath => ⟨hpacked.1, hpacked.2, hpath⟩) hpaths
  obtain ⟨bytes, rfl, hunpacks⟩ :=
    unpacks_packDirectory dest stem dir app.wellNamed hfits spells_root hdata
  obtain ⟨disk', hrun, hinside, houtside⟩ := hunpacks.exists_run hopens hdir hempty
  refine ⟨disk', ?_, hinside, houtside⟩
  rw [extractTarGz, gz.inverse]
  dsimp only
  rw [hrun]

/-- A compression that leaves the bytes as they are. -/
def stored : Gzip := ⟨id, .ok, fun _ => rfl⟩

/-- A disk with an empty directory `/srv`. -/
def srvDisk : Disk := .ofEntries [(["srv"], .dir)] (by decide)

theorem srvDisk_empty (below : List String) (h : below ≠ []) :
    srvDisk.node (["srv"] ++ below) = none := by
  have hne : ["srv"] ++ below ≠ ["srv"] := by simpa using h
  change (if ["srv"] ++ below = [] then some Node.dir
    else List.lookup (["srv"] ++ below) [(["srv"], Node.dir)]) = none
  rw [if_neg (by simp), List.lookup_cons, beq_false_of_ne hne]
  rfl

theorem extract_packTarGz_twoFiles :
    ∃ archive disk', packTarGz stored (fun _ => 0)
        (.file "index.php" [60, 63] (.dir "src" (.file "a.php" [] .nil) .nil)) = some archive ∧
      extractTarGz stored srvDisk archive (.ofText "/srv") = .ok (disk', 2) ∧
      disk'.node ["srv", "index.php"] = some (.file [60, 63]) ∧
      disk'.node ["srv", "src", "a.php"] = some (.file []) := by
  have hround := extract_packTarGz stored (fun _ => 0)
    ⟨.file "index.php" [60, 63] (.dir "src" (.file "a.php" [] .nil) .nil),
      ⟨by decide, by decide, by decide, by decide, ⟨by decide, by decide, trivial⟩, trivial⟩,
      ⟨by decide, by decide, ⟨by decide, trivial⟩, trivial⟩⟩
    ⟨cutName_eq (by decide), cutName_eq (by decide), ⟨cutName_eq (by decide), trivial⟩, trivial⟩
    (show srvDisk.resolve false (.ofText "/srv") = .ok ["srv"] by rfl) rfl srvDisk_empty
  obtain ⟨archive, hpack⟩ := hround.1 fun _ => by decide
  obtain ⟨disk', hextract, hinside, -⟩ := hround.2 archive hpack
  exact ⟨archive, disk', hpack, hextract, hinside ["index.php"] (by simp),
    hinside ["src", "a.php"] (by simp)⟩

theorem ofList_replicate_ne {n : Nat} {s : String} (h : ∃ c ∈ s.toList, c ≠ 'a') :
    String.ofList (List.replicate n 'a') ≠ s := by
  rintro rfl
  obtain ⟨c, hc, hne⟩ := h
  rw [String.toList_ofList] at hc
  exact hne (List.eq_of_mem_replicate hc)

theorem isName_replicate {n : Nat} (h : 0 < n) : IsName (String.ofList (List.replicate n 'a')) := by
  have hletter : ∀ c ∈ (String.ofList (List.replicate n 'a')).toList, c = 'a' := by
    rw [String.toList_ofList]
    exact fun c => List.eq_of_mem_replicate
  refine ⟨?_, ofList_replicate_ne ⟨'.', by decide, by decide⟩,
    ofList_replicate_ne ⟨'.', by decide, by decide⟩, ?_, ?_⟩
  · intro hempty
    have hlen := congrArg (fun s => s.toList.length) hempty
    simp at hlen
    omega
  · exact fun hmem => absurd (hletter _ hmem) (by decide)
  · exact fun hmem => absurd (hletter _ hmem) (by decide)

theorem utf8_replicate (n : Nat) :
    utf8 (String.ofList (List.replicate n 'a')) = List.replicate n 97 := by
  rw [utf8, String.toList_ofList]
  induction n with
  | zero => rfl
  | succ n ih =>
    rw [List.replicate_succ, encodeChars_cons, ih, List.replicate_succ]
    rfl

/-- A name of 101 bytes, and the 100 of them that the header holds. -/
def longName : String := String.ofList (List.replicate 101 'a')

def shortName : String := String.ofList (List.replicate 100 'a')

/-- A file with a name of 101 bytes comes out under another name. -/
theorem long_name_is_cut :
    ∃ app : App, app.entries = .file longName [1] .nil ∧
    ∃ archive disk', packTarGz stored (fun _ => 0) app.entries = some archive ∧
      extractTarGz stored srvDisk archive (.ofText "/srv") = .ok (disk', 1) ∧
      disk'.node ["srv", longName] = none ∧ app.entries.node [longName] = some (.file [1]) ∧
      disk'.node ["srv", shortName] = some (.file [1]) := by
  have hname : IsName longName := isName_replicate (by decide)
  have hshort : IsName shortName := isName_replicate (by decide)
  have hdiff : longName ≠ shortName := by
    intro heq
    have hlen := congrArg (fun s => s.toList.length) heq
    unfold longName shortName at hlen
    rw [String.toList_ofList, String.toList_ofList, List.length_replicate,
      List.length_replicate] at hlen
    cases hlen
  have hcut : cutName longName = shortName := by
    have htake : (utf8 longName).take 100 = utf8 shortName := by
      unfold longName shortName
      rw [utf8_replicate, utf8_replicate, List.take_replicate, Nat.min_eq_left (by decide)]
    rw [cutName, htake, fromUtf8Lossy_utf8]
  have hkept : skips longName = false := by
    have hlist : longName.toList = List.replicate 101 'a' := String.toList_ofList
    have hmodules : longName ≠ "node_modules" := by
      have hletter : ∃ c ∈ "node_modules".toList, c ≠ 'a' := ⟨'n', by decide, by decide⟩
      exact ofList_replicate_ne hletter
    have hgit : longName ≠ ".git" := by
      have hletter : ∃ c ∈ ".git".toList, c ≠ 'a' := ⟨'.', by decide, by decide⟩
      exact ofList_replicate_ne hletter
    rw [skips, beq_false_of_ne hmodules, beq_false_of_ne hgit, startsWith, containsStr, startsWith,
      startsWith, hlist]
    decide
  refine ⟨⟨.file longName [1] .nil, ⟨hname, by simp [Forest.names], trivial⟩,
    ⟨⟨hkept, by decide⟩, trivial⟩⟩, rfl, ?_⟩
  -- the header is that of a file with the short name
  obtain ⟨header, hheader⟩ := exists_writeTarHeader longName 48 (show 1 < 8 ^ 11 by decide)
    (show 0 < 8 ^ 11 by decide)
  have hreads := reads_writeTarHeader hname.noNul (by decide) hheader
  rw [hcut] at hreads
  have hdest : srvDisk.resolve false (.ofText "/srv") = .ok ["srv"] := rfl
  obtain ⟨stem, hopens⟩ := srvDisk.exists_opens hdest
  have hunpacks : Unpacks (.ofText "/srv") stem ["srv"] [] (.file shortName [1] .nil)
      (header ++ ([1] ++ padding [1]) ++ []) :=
    unpacks_nil.consFile hshort (by simp [Forest.names]) (split_of_not_mem hshort.2.2.2.1) hreads
  obtain ⟨disk', hrun, hinside, -⟩ := hunpacks.exists_run hopens rfl srvDisk_empty
  refine ⟨header ++ ([1] ++ padding [1]) ++ [] ++ List.replicate 1024 0, disk', ?_, ?_, ?_, ?_, ?_⟩
  · have hpath : relative "" longName = longName := rfl
    rw [packTarGz, packTar, packDirectory, hpath, hkept, if_neg Bool.false_ne_true]
    dsimp only [List.length_nil, List.length_singleton]
    rw [hheader]
    dsimp only
    rw [packDirectory, List.nil_append, List.append_nil, Option.map_some, Option.map_some]
    rfl
  · exact congrArg Except.ok hrun
  · have hnone := hinside [longName] (by simp)
    rw [Forest.node, if_neg hdiff] at hnone
    exact hnone
  · simp [Forest.node]
  · have hsome := hinside [shortName] (by simp)
    rw [Forest.node, if_pos rfl, if_pos rfl] at hsome
    exact hsome

end Turbine.Embed
