import Turbine.Base.Disk

/-!
# Turbine.Base.Directories

Making directories, and paths below one that is there.

* `Disk.Stem.exists_walk`: behind the place that the first segments lead to, the others
  are walked on their own;
* `Disk.Opens.extends`: a path that resolves still does when entries are added.
-/

namespace Turbine.Base

/-! ## making directories -/

/-- `fs::create_dir`: slashes at the end do not count. -/
def Disk.mkdir (disk : Disk) (p : Path) : Except Errno Disk :=
  if p.HasNul then .error .invalidInput
  else if p.isEmpty then .error .notFound
  else
    let segs := p.segments.rdropWhile (· = "")
    match segs.getLast? with
    | none => .error .alreadyExists
    | some last =>
      match disk.walk false maxLinks (p.start disk.cwd) segs.dropLast with
      | .error e => .error e
      | .ok dir =>
        if disk.node dir ≠ some .dir then .error .notADirectory
        else if last = "." ∨ last = ".." ∨ disk.node (dir ++ [last]) ≠ none then
          .error .alreadyExists
        else if h : disk.Holds (dir ++ [last]) then .ok (disk.put (dir ++ [last]) .dir h)
        else .error .invalidInput

/-- `fs::create_dir_all`, for a path with fewer names than the bound; whether it
succeeds. -/
def Disk.createDirs (disk : Disk) : Nat → Path → Disk × Bool
  | 0, _ => (disk, false)
  | n + 1, p =>
    if p.isEmpty then (disk, true)
    else
      match disk.mkdir p with
      | .ok disk' => (disk', true)
      | .error .notFound =>
        match p.parent with
        | none => (disk, false)
        | some parent =>
          let (disk', made) := disk.createDirs n parent
          if made then
            match disk'.mkdir p with
            | .ok disk'' => (disk'', true)
            | .error _ => (disk', disk'.isDir p)
          else (disk', false)
      | .error _ => (disk, disk.isDir p)

/-- `fs::create_dir_all`. -/
def Disk.createDirAll (disk : Disk) (p : Path) : Disk × Bool :=
  disk.createDirs (p.names.length + 2) p

variable {disk disk' : Disk} {place place' dir segs names : List String} {seg name : String}
  {create : Bool} {p q : Path} {links : Nat}

/-! ## walking on -/

/-- A walk along two lists of segments is two walks. -/
theorem Disk.Walks.split {a b : List String} (h : disk.Walks links place (a ++ b) place') :
    ∃ mid links', disk.Walks links place a mid ∧ disk.Walks links' mid b place' := by
  generalize hsegs : a ++ b = segs at h
  induction h generalizing a with
  | nil =>
    obtain ⟨rfl, rfl⟩ := List.append_eq_nil_iff.1 hsegs
    exact ⟨_, links, .nil, .nil⟩
  | @stay links place place' segs seg hdir hseg h ih =>
    cases a with
    | nil =>
      obtain rfl : b = seg :: segs := hsegs
      exact ⟨_, links, .nil, .stay hdir hseg h⟩
    | cons seg' a =>
      obtain ⟨rfl, rfl⟩ := List.cons.inj hsegs
      obtain ⟨mid, links', hfirst, hlast⟩ := ih rfl
      exact ⟨mid, links', .stay hdir hseg hfirst, hlast⟩
  | @up links place place' segs hdir h ih =>
    cases a with
    | nil =>
      obtain rfl : b = ".." :: segs := hsegs
      exact ⟨_, links, .nil, .up hdir h⟩
    | cons seg' a =>
      obtain ⟨rfl, rfl⟩ := List.cons.inj hsegs
      obtain ⟨mid, links', hfirst, hlast⟩ := ih rfl
      exact ⟨mid, links', .up hdir hfirst, hlast⟩
  | @name links place place' segs seg hreal h ih =>
    cases a with
    | nil =>
      obtain rfl : b = seg :: segs := hsegs
      exact ⟨_, links, .nil, .name hreal h⟩
    | cons seg' a =>
      obtain ⟨rfl, rfl⟩ := List.cons.inj hsegs
      obtain ⟨mid, links', hfirst, hlast⟩ := ih rfl
      exact ⟨mid, links', .name hreal hfirst, hlast⟩
  | @link links place place' segs seg target hlink h ih =>
    cases a with
    | nil =>
      obtain rfl : b = seg :: segs := hsegs
      exact ⟨_, links + 1, .nil, .link hlink h⟩
    | cons seg' a =>
      obtain ⟨rfl, rfl⟩ := List.cons.inj hsegs
      obtain ⟨mid, links', hfirst, hlast⟩ := ih (List.append_assoc ..)
      exact ⟨mid, links', .link hlink hfirst, hlast⟩

theorem IsName.not_stays (h : IsName seg) : Path.stays seg = false := by
  simp [Path.stays, h.1, h.2.1]

theorem Disk.Walks.eq_of_stays (h : disk.Walks links place segs place')
    (hsegs : ∀ seg ∈ segs, Path.stays seg = true) : place' = place := by
  induction h with
  | nil => rfl
  | stay hdir hseg h ih => exact ih fun seg hmem => hsegs seg (List.mem_cons_of_mem _ hmem)
  | up hdir h ih => exact absurd (hsegs ".." List.mem_cons_self) (by decide)
  | @name links place place' segs seg hreal h ih =>
    have hname := (disk.closed place seg hreal.node_ne_none).2
    have hstays := hsegs seg List.mem_cons_self
    rw [hname.not_stays] at hstays
    cases hstays
  | @link links place place' segs seg target hlink h ih =>
    have hname := (disk.closed place seg (by rw [hlink]; exact Option.some_ne_none _)).2
    have hstays := hsegs seg List.mem_cons_self
    rw [hname.not_stays] at hstays
    cases hstays

/-- Without the segments at the end that do not count, a path leads to the same
place. -/
theorem Disk.Walks.rdropWhile (h : disk.Walks links place segs place') :
    disk.Walks links place (segs.rdropWhile Path.stays) place' := by
  rw [← List.rdropWhile_append_rtakeWhile (p := Path.stays) (l := segs)] at h
  obtain ⟨mid, links', hfirst, hlast⟩ := h.split
  obtain rfl := hlast.eq_of_stays fun seg hmem => List.mem_rtakeWhile_imp hmem
  exact hfirst

theorem Disk.walks_names (h : disk.Real (place ++ names)) :
    disk.Walks links place names (place ++ names) := by
  induction names generalizing place with
  | nil =>
    rw [List.append_nil]
    exact .nil
  | cons name names ih =>
    have hsplit : place ++ name :: names = place ++ [name] ++ names := by simp
    rw [hsplit] at h ⊢
    exact .name (disk.real_of_prefix h) (ih h)

/-- Names behind a walk. -/
theorem Disk.Walks.append_names (h : disk.Walks links place segs place')
    (hreal : disk.Real (place' ++ names)) :
    disk.Walks links place (segs ++ names) (place' ++ names) := by
  induction h with
  | nil => exact disk.walks_names hreal
  | stay hdir hseg h ih => exact .stay hdir hseg (ih hreal)
  | up hdir h ih => exact .up hdir (ih hreal)
  | name hname h ih => exact .name hname (ih hreal)
  | link hlink h ih =>
    have hrest := ih hreal
    rw [List.append_assoc] at hrest
    exact .link hlink hrest

/-! ## adding entries -/

/-- The second disk has all that the first has. -/
structure Disk.Extends (disk disk' : Disk) : Prop where
  cwd : disk'.cwd = disk.cwd
  node : ∀ {place n}, disk.node place = some n → disk'.node place = some n

theorem Disk.Extends.refl : disk.Extends disk := ⟨rfl, id⟩

theorem Disk.Extends.trans {disk'' : Disk} (h : disk.Extends disk') (h' : disk'.Extends disk'') :
    disk.Extends disk'' := ⟨h'.cwd.trans h.cwd, fun hn => h'.node (h.node hn)⟩

theorem Disk.extends_put {n : Node} (h : disk.Holds place) (hnone : disk.node place = none) :
    disk.Extends (disk.put place n h) := by
  refine ⟨rfl, fun {place' n'} hn => ?_⟩
  rw [Disk.node_put, if_neg]
  · exact hn
  · rintro rfl
    rw [hnone] at hn
    cases hn

theorem Disk.Extends.real (h : disk.Extends disk') (hreal : disk.Real place) :
    disk'.Real place := by
  obtain ⟨n, hn, hlink⟩ := hreal
  exact ⟨n, h.node hn, hlink⟩

/-- What arrives still does. -/
theorem Disk.Extends.walks (h : disk.Extends disk') (hwalks : disk.Walks links place segs place') :
    disk'.Walks links place segs place' := by
  induction hwalks with
  | nil => exact .nil
  | stay hdir hseg _ ih => exact .stay (h.node hdir) hseg ih
  | up hdir _ ih => exact .up (h.node hdir) ih
  | name hreal _ ih => exact .name (h.real hreal) ih
  | link hlink _ ih => exact .link (h.node hlink) ih

/-! ## paths below a directory -/

theorem Disk.resolve_eq_ok_iff : disk.resolve false p = .ok place ↔
    ¬p.HasNul ∧ p.isEmpty = false ∧ disk.Walks maxLinks (p.start disk.cwd) p.segments place := by
  rw [Disk.resolve]
  constructor
  · intro h
    split at h
    · cases h
    case isFalse hnul =>
      split at h
      · cases h
      case isFalse hempty => exact ⟨hnul, Bool.eq_false_iff.2 hempty, disk.walks_of_walk h⟩
  · rintro ⟨hnul, hempty, hwalks⟩
    rw [if_neg hnul, if_neg (Bool.eq_false_iff.1 hempty)]
    exact hwalks.walk_eq

/-- Where segments are walked from. -/
def Disk.origin (disk : Disk) (segs : List String) : List String :=
  if segs.head? = some "" then [] else disk.cwd

theorem Disk.start_eq (h : p.isEmpty = false) : p.start disk.cwd = disk.origin p.segments := by
  rw [Path.start, Disk.origin]
  congr 1
  rw [Path.isAbsolute]
  cases hsegs : p.segments with
  | nil => simp [Path.isEmpty, hsegs] at h
  | cons seg segs =>
    cases segs with
    | nil =>
      have hseg : seg ≠ "" := by simpa [Path.isEmpty, hsegs] using h
      simp [hseg]
    | cons seg' segs => simp

theorem Disk.node_origin (segs : List String) : disk.node (disk.origin segs) = some .dir := by
  rw [Disk.origin]
  split
  · exact disk.node_root
  · exact disk.node_cwd

/-- The segments that paths below a directory begin with. -/
structure Disk.Stem (disk : Disk) (stem dir : List String) : Prop where
  ne_nil : stem ≠ []
  noNul : ∀ seg ∈ stem, '\x00' ∉ seg.toList
  walks : disk.Walks maxLinks (disk.origin stem) stem dir

/-- The path of a directory, with names joined to it. -/
theorem Disk.exists_stem (h : disk.resolve false p = .ok dir) :
    ∃ stem, disk.Stem stem dir ∧
      ∀ segs, (Path.mk segs).isAbsolute = false → p.join ⟨segs⟩ = ⟨stem ++ segs⟩ := by
  obtain ⟨hnul, hempty, hwalks⟩ := disk.resolve_eq_ok_iff.1 h
  rw [disk.start_eq hempty] at hwalks
  have hnil : p.segments ≠ [] := by
    rintro hnil
    simp [Path.isEmpty, hnil] at hempty
  have hnoNul : ∀ seg ∈ p.segments, '\x00' ∉ seg.toList := by
    intro seg hseg hmem
    exact hnul ⟨seg, hseg, hmem⟩
  by_cases hlast : p.segments.getLast? = some ""
  · -- a slash at the end is the one between the path and the names
    obtain ⟨stem, hstem⟩ : ∃ stem, p.segments = stem ++ [""] := by
      obtain ⟨stem, hstem⟩ := List.getLast?_eq_some_iff.1 hlast
      exact ⟨stem, hstem⟩
    have hne : stem ≠ [] := by
      rintro rfl
      simp [Path.isEmpty, hstem] at hempty
    refine ⟨stem, ⟨hne, ?_, ?_⟩, ?_⟩
    · intro seg hseg
      exact hnoNul seg (by rw [hstem]; exact List.mem_append_left _ hseg)
    · have horigin : disk.origin p.segments = disk.origin stem := by
        rw [Disk.origin, Disk.origin, hstem, List.head?_append_of_ne_nil _ hne]
      rw [horigin, hstem] at hwalks
      obtain ⟨mid, links', hfirst, hrest⟩ := hwalks.split
      obtain rfl := hrest.eq_of_stays (by simp [Path.stays])
      exact hfirst
    · intro segs hsegs
      rw [Path.join, hsegs, if_neg Bool.false_ne_true, if_pos hlast, hstem, List.dropLast_concat]
  · refine ⟨p.segments, ⟨hnil, hnoNul, hwalks⟩, ?_⟩
    intro segs hsegs
    rw [Path.join, hsegs, if_neg Bool.false_ne_true, if_neg hlast]

variable {stem pre trail : List String}

/-- A path that begins with the stem is walked from where the stem is. -/
theorem Disk.Stem.usable (h : disk.Stem stem dir) (hsegs : segs ≠ [])
    (hnul : ∀ seg ∈ segs, '\x00' ∉ seg.toList) :
    ¬(Path.mk (stem ++ segs)).HasNul ∧ (Path.mk (stem ++ segs)).isEmpty = false ∧
      (Path.mk (stem ++ segs)).start disk.cwd = disk.origin stem := by
  have hempty : (Path.mk (stem ++ segs)).isEmpty = false := by
    obtain ⟨seg, stem', rfl⟩ := List.exists_cons_of_ne_nil h.ne_nil
    simp [Path.isEmpty, hsegs]
  refine ⟨?_, hempty, ?_⟩
  · rintro ⟨seg, hseg, hmem⟩
    obtain hseg | hseg := List.mem_append.1 hseg
    · exact h.noNul seg hseg hmem
    · exact hnul seg hseg hmem
  · rw [disk.start_eq hempty, Disk.origin, Disk.origin, List.head?_append_of_ne_nil _ h.ne_nil]

/-- Behind the stem, the segments are walked from the directory. -/
theorem Disk.Stem.exists_walk (h : disk.Stem stem dir) :
    ∃ links, ∀ segs, segs ≠ [] → (∀ seg ∈ segs, '\x00' ∉ seg.toList) → ∀ create,
      disk.resolve create ⟨stem ++ segs⟩ = disk.walk create links dir segs := by
  obtain ⟨links, -, hwalk⟩ := h.walks.exists_walk
  refine ⟨links, fun segs hsegs hnul create => ?_⟩
  obtain ⟨hnul, hempty, hstart⟩ := h.usable hsegs hnul
  rw [Disk.resolve, if_neg hnul, if_neg (Bool.eq_false_iff.1 hempty), hstart]
  exact hwalk create segs

theorem Disk.Stem.extends (h : disk.Stem stem dir) (hext : disk.Extends disk') :
    disk'.Stem stem dir := by
  refine ⟨h.ne_nil, h.noNul, ?_⟩
  rw [Disk.origin, hext.cwd]
  exact hext.walks h.walks

theorem IsName.noNul (h : IsName name) : '\x00' ∉ name.toList := h.2.2.2.2

/-- The last name, without the slash behind it. -/
theorem rdropWhile_trail {f : String → Bool} (hname : f name = false)
    (htrail : ∀ seg ∈ trail, f seg = true) :
    (segs ++ name :: trail).rdropWhile f = segs ++ [name] := by
  induction trail using List.reverseRecOn with
  | nil => exact List.rdropWhile_concat_neg _ _ _ (Bool.eq_false_iff.1 hname)
  | append_singleton trail seg ih =>
    have hsplit : segs ++ name :: (trail ++ [seg]) = segs ++ name :: trail ++ [seg] := by simp
    rw [hsplit, List.rdropWhile_concat_pos _ _ _ (htrail seg (by simp))]
    exact ih fun seg hseg => htrail seg (List.mem_append_left _ hseg)

theorem stays_trail (htrail : ∀ seg ∈ trail, seg = "") : ∀ seg ∈ trail, Path.stays seg = true := by
  intro seg hseg
  rw [htrail seg hseg]
  rfl

theorem Path.names_concat (hname : IsName name) (htrail : ∀ seg ∈ trail, seg = "") :
    (Path.mk (segs ++ name :: trail)).names = (Path.mk segs).names ++ [name] := by
  have hnone : trail.filter (fun seg => !Path.stays seg) = [] :=
    List.filter_eq_nil_iff.2 fun seg hseg => by simp [stays_trail htrail seg hseg]
  simp [Path.names, hname.not_stays, hnone]

theorem Path.fileName_concat (hname : IsName name) (htrail : ∀ seg ∈ trail, seg = "") :
    (Path.mk (segs ++ name :: trail)).fileName = some name := by
  rw [Path.fileName, Path.names_concat hname htrail, List.getLast?_concat, Option.filter_some,
    if_pos (by simpa using hname.2.2.1)]

/-- A path that ends in a name resolves when the segments before it lead somewhere. -/
theorem Disk.resolve_of_walks (hsegs : segs ≠ []) (hlast : ∀ seg ∈ segs.getLast?, seg ≠ "")
    (hnul : ∀ seg ∈ segs, '\x00' ∉ seg.toList)
    (h : disk.Walks maxLinks (disk.origin segs) segs place) :
    disk.resolve false ⟨segs⟩ = .ok place := by
  have hempty : (Path.mk segs).isEmpty = false := by
    have hne : segs ≠ [""] := by
      rintro rfl
      exact hlast "" rfl rfl
    simp [Path.isEmpty, hsegs, hne]
  refine disk.resolve_eq_ok_iff.2 ⟨?_, hempty, ?_⟩
  · rintro ⟨seg, hseg, hmem⟩
    exact hnul seg hseg hmem
  · rw [disk.start_eq hempty]
    exact h

/-- The parent of a path below a directory. -/
theorem Disk.Stem.exists_parent (h : disk.Stem stem dir) (hpre : disk.Real (dir ++ pre))
    (hname : IsName name) (htrail : ∀ seg ∈ trail, seg = "") :
    ∃ parent, (Path.mk (stem ++ pre ++ name :: trail)).parent = some parent ∧
      disk.resolve false parent = .ok (dir ++ pre) := by
  have hnames : (Path.mk (stem ++ pre ++ name :: trail)).names ≠ [] := by
    rw [Path.names_concat hname htrail]
    simp
  have hhead : (stem ++ pre ++ name :: trail).head? = stem.head? := by
    rw [List.append_assoc, List.head?_append_of_ne_nil _ h.ne_nil]
  have hwalks := (h.walks.append_names hpre).rdropWhile
  rw [Path.parent, if_neg hnames, rdropWhile_trail hname.not_stays (stays_trail htrail),
    List.dropLast_concat]
  split
  case h_1 hnil =>
    -- only the root or dots are left, and the directory is where the walk starts
    have hstays := List.rdropWhile_eq_nil_iff.1 hnil
    have hplace : dir ++ pre = disk.origin stem := by
      rw [hnil] at hwalks
      exact hwalks.eq_of_stays (fun _ hseg => nomatch hseg)
    refine ⟨_, rfl, ?_⟩
    obtain ⟨seg, stem', hstem⟩ := List.exists_cons_of_ne_nil h.ne_nil
    have hseg : seg = "" ∨ seg = "." := by simpa [Path.stays] using hstays seg (by simp [hstem])
    have hlen : 1 < (stem ++ pre ++ name :: trail).length := by
      rw [List.length_append, List.length_append, hstem, List.length_cons, List.length_cons]
      omega
    rw [hplace, Path.isAbsolute, decide_eq_true hlen, hhead, hstem]
    obtain rfl | rfl := hseg
    · rw [if_pos (by simp)]
      exact disk.resolve_ofPlace (disk.real_of_dir disk.node_root)
    · rw [if_neg (by simp), if_pos (by simp)]
      refine disk.resolve_of_walks (by simp) (by simp) (by simp) ?_
      exact .stay (disk.node_origin _) (.inr rfl) .nil
  case h_2 segs hne =>
    refine ⟨_, rfl, ?_⟩
    have hbegins := List.rdropWhile_prefix Path.stays (stem ++ pre)
    generalize hsegs : (stem ++ pre).rdropWhile Path.stays = segs at *
    have hhead' : segs.head? = stem.head? := by
      obtain ⟨rest, hrest⟩ := hbegins
      have hboth := congrArg List.head? hrest
      rwa [List.head?_append_of_ne_nil _ hne, List.head?_append_of_ne_nil _ h.ne_nil] at hboth
    have horigin : disk.origin segs = disk.origin stem := by rw [Disk.origin, Disk.origin, hhead']
    refine disk.resolve_of_walks hne ?_ ?_ (horigin ▸ hwalks)
    · intro seg hseg hempty
      have hlast : segs.getLast hne = seg := by
        rw [List.getLast?_eq_some_getLast hne] at hseg
        exact Option.some.inj hseg
      subst hsegs
      exact List.rdropWhile_last_not _ _ hne (by rw [hlast, hempty]; rfl)
    · intro seg hseg
      obtain hseg | hseg := List.mem_append.1 (hbegins.subset hseg)
      · exact h.noNul seg hseg
      · exact (disk.isName_of_mem hpre.node_ne_none (List.mem_append_right _ hseg)).noNul

/-! ## making one directory -/

theorem Disk.mkdir_of_resolve (h : disk.resolve false p = .ok place) :
    disk.mkdir p = .error .alreadyExists := by
  obtain ⟨hnul, hempty, hwalks⟩ := disk.resolve_eq_ok_iff.1 h
  rw [Disk.mkdir, if_neg hnul, if_neg (Bool.eq_false_iff.1 hempty)]
  dsimp only
  split
  · rfl
  case h_2 last hlast =>
    obtain ⟨init, hinit⟩ := List.getLast?_eq_some_iff.1 hlast
    have hlastne : last ≠ "" := by
      have hne : p.segments.rdropWhile (· = "") ≠ [] := by
        rw [hinit]
        simp
      have hnot := List.rdropWhile_last_not _ _ hne
      simpa [hinit] using hnot
    rw [← List.rdropWhile_append_rtakeWhile (p := fun seg => decide (seg = "")) (l := p.segments),
      hinit, List.append_assoc] at hwalks
    obtain ⟨mid, links', hfirst, hrest⟩ := hwalks.split
    rw [hinit, List.dropLast_concat, hfirst.walk_eq]
    dsimp only
    -- the walk goes on from a directory, so the last name is there
    have hstep : disk.node mid = some .dir ∧
        (last = "." ∨ last = ".." ∨ disk.node (mid ++ [last]) ≠ none) := by
      cases hrest with
      | stay hdir hseg h => exact ⟨hdir, .inl (hseg.resolve_left hlastne)⟩
      | up hdir h => exact ⟨hdir, .inr (.inl rfl)⟩
      | name hreal h =>
        exact ⟨(disk.closed mid last hreal.node_ne_none).1, .inr (.inr hreal.node_ne_none)⟩
      | link hlink h =>
        have hne : disk.node (mid ++ [last]) ≠ none := by
          rw [hlink]
          exact Option.some_ne_none _
        exact ⟨(disk.closed mid last hne).1, .inr (.inr hne)⟩
    rw [if_neg (not_not_intro hstep.1), if_pos hstep.2]

theorem Disk.createDirAll_of_isDir (h : disk.resolve false p = .ok place)
    (hdir : disk.node place = some .dir) : disk.createDirAll p = (disk, true) := by
  obtain ⟨-, hempty, -⟩ := disk.resolve_eq_ok_iff.1 h
  rw [Disk.createDirAll, Disk.createDirs, if_neg (Bool.eq_false_iff.1 hempty),
    disk.mkdir_of_resolve h]
  dsimp only
  rw [Disk.isDir, h]
  simp [hdir]

theorem Disk.holds_of_missing (hdir : disk.node dir = some .dir) (hname : IsName name)
    (h : disk.node (dir ++ [name]) = none) : disk.Holds (dir ++ [name]) := by
  refine ⟨by simp, ?_, ?_, ?_⟩
  · rwa [List.dropLast_concat]
  · simpa using hname
  · rw [h]
    exact Option.some_ne_none _ ∘ Eq.symm

theorem noNul_names (hpre : ∀ n ∈ pre, IsName n) (hname : IsName name)
    (htrail : ∀ seg ∈ trail, seg = "") : ∀ seg ∈ pre ++ name :: trail, '\x00' ∉ seg.toList := by
  intro seg hseg
  obtain hseg | hseg := List.mem_append.1 hseg
  · exact (hpre seg hseg).noNul
  · obtain rfl | hseg := List.mem_cons.1 hseg
    · exact hname.noNul
    · rw [htrail seg hseg]
      simp

theorem Disk.isName_below (h : disk.node (dir ++ pre) = some .dir) : ∀ n ∈ pre, IsName n := by
  intro n hn
  exact disk.isName_of_mem (disk.real_of_dir h).node_ne_none (List.mem_append_right _ hn)

/-- A missing entry of a directory is made. -/
theorem Disk.Stem.mkdir (h : disk.Stem stem dir) (hdir : disk.node (dir ++ pre) = some .dir)
    (hname : IsName name) (htrail : ∀ seg ∈ trail, seg = "")
    (hnone : disk.node (dir ++ pre ++ [name]) = none) :
    disk.mkdir ⟨stem ++ pre ++ name :: trail⟩ =
      .ok (disk.put (dir ++ pre ++ [name]) .dir (disk.holds_of_missing hdir hname hnone)) := by
  have hreal := disk.real_of_dir hdir
  obtain ⟨hnul, hempty, hstart⟩ :=
    h.usable (by simp) (noNul_names (disk.isName_below hdir) hname htrail)
  rw [← List.append_assoc] at hnul hempty hstart
  have hsegs : (stem ++ pre ++ name :: trail).rdropWhile (· = "") = stem ++ pre ++ [name] :=
    rdropWhile_trail (by simpa using hname.1) (by simpa using htrail)
  rw [Disk.mkdir, if_neg hnul, if_neg (Bool.eq_false_iff.1 hempty), hstart]
  dsimp only
  rw [hsegs, List.getLast?_concat, List.dropLast_concat, (h.walks.append_names hreal).walk_eq]
  dsimp only
  rw [if_neg (not_not_intro hdir), if_neg, dif_pos (disk.holds_of_missing hdir hname hnone)]
  rintro (hdot | hup | hsome)
  · exact hname.2.1 hdot
  · exact hname.2.2.1 hup
  · exact hsome hnone

theorem Disk.createDirAll_of_mkdir (hempty : p.isEmpty = false) (h : disk.mkdir p = .ok disk') :
    disk.createDirAll p = (disk', true) := by
  rw [Disk.createDirAll, Disk.createDirs, if_neg (Bool.eq_false_iff.1 hempty), h]

/-- A missing entry of a directory, which only opening a file can lead to. -/
theorem Disk.Stem.resolve_missing (h : disk.Stem stem dir)
    (hdir : disk.node (dir ++ pre) = some .dir) (hname : IsName name)
    (htrail : ∀ seg ∈ trail, seg = "") (hnone : disk.node (dir ++ pre ++ [name]) = none) :
    disk.resolve create ⟨stem ++ pre ++ name :: trail⟩ =
      if create ∧ trail = [] then .ok (dir ++ pre ++ [name]) else .error .notFound := by
  obtain ⟨links, hwalk⟩ := h.exists_walk
  rw [List.append_assoc, hwalk _ (by simp) (noNul_names (disk.isName_below hdir) hname htrail),
    disk.walk_append (disk.real_of_dir hdir), disk.walk_missing hdir hname hnone]

/-- The path of a directory, and the segments that paths joined to it begin with. -/
structure Disk.Opens (disk : Disk) (p : Path) (stem dir : List String) : Prop where
  isStem : disk.Stem stem dir
  resolve : disk.resolve false p = .ok dir
  join : ∀ segs, (Path.mk segs).isAbsolute = false → p.join ⟨segs⟩ = ⟨stem ++ segs⟩

theorem Disk.exists_opens (h : disk.resolve false p = .ok dir) : ∃ stem, disk.Opens p stem dir := by
  obtain ⟨stem, hstem, hjoin⟩ := disk.exists_stem h
  exact ⟨stem, hstem, h, hjoin⟩

theorem Disk.Opens.extends (h : disk.Opens p stem dir) (hext : disk.Extends disk') :
    disk'.Opens p stem dir := by
  refine ⟨h.isStem.extends hext, ?_, h.join⟩
  obtain ⟨hnul, hempty, hwalks⟩ := disk.resolve_eq_ok_iff.1 h.resolve
  refine disk'.resolve_eq_ok_iff.2 ⟨hnul, hempty, ?_⟩
  rw [hext.cwd]
  exact hext.walks hwalks

theorem split_slash (s t : String) : split (s ++ "/" ++ t) '/' = split s '/' ++ split t '/' := by
  have htext : (s ++ "/" ++ t).toList = s.toList ++ '/' :: t.toList := by simp
  rw [split, htext, List.splitOn, List.splitOnP_append_cons _ _ (by decide), List.map_append]
  rfl

theorem split_of_not_mem {s : String} (h : '/' ∉ s.toList) : split s '/' = [s] := by
  have hsingle : s.toList.splitOn '/' = [s.toList] := by
    refine List.splitOnP_eq_singleton fun c hc => beq_false_of_ne ?_
    rintro rfl
    exact h hc
  rw [split, hsingle, List.map_singleton, String.ofList_toList]

end Turbine.Base
