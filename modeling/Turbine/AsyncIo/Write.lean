import Turbine.Base.Disk

/-!
# Turbine.AsyncIo.Write

Writing files for PHP code (crates/turbine-core/src/async_io.rs), over a file system
with symbolic links.  A path is resolved once to be checked and once more when the
file is opened.

* `AsyncIo.write_confined_iff`: a write stays under the allowed roots unless it opens
  a link that could not be resolved before.
-/

namespace Turbine

open Base

/-! ## model -/

/-- `AsyncIoError`, as far as files are concerned. -/
inductive AsyncIoError
  | pathNotAllowed
  | tooLarge (maxIoBytes : Nat)
  | io (e : Errno)
deriving DecidableEq, Repr

/-- `AsyncIo`, without its timers and counters. -/
structure AsyncIo where
  allowedRoots : List Path
  maxIoBytes : Nat
deriving DecidableEq, Repr

/-- What a successful write returns, the file system it leaves behind, and the place
of the file that was created or changed. -/
structure Written where
  count : Nat
  disk : Disk
  place : List String

namespace AsyncIo

/-- `AsyncIo::new`: roots that cannot be resolved are dropped. -/
def new (disk : Disk) (allowedRoots : List String) (maxIoBytes : Nat) : AsyncIo where
  allowedRoots := allowedRoots.filterMap fun root => (disk.canonicalize (.ofText root)).toOption
  maxIoBytes := maxIoBytes

/-- The path that `resolve` checks. -/
def canon (disk : Disk) (p : Path) (allowCreate : Bool) : Except AsyncIoError Path :=
  match disk.canonicalize p with
  | .ok c => .ok c
  | .error _ =>
    if allowCreate then
      match p.parent, p.fileName with
      | some parent, some fileName =>
        match disk.canonicalize parent with
        | .ok parentCanon => .ok (parentCanon.join ⟨[fileName]⟩)
        | .error _ => .error .pathNotAllowed
      | _, _ => .error .pathNotAllowed
    else .error .pathNotAllowed

/-- `AsyncIo::resolve`. -/
def resolve (io : AsyncIo) (disk : Disk) (path : String) (allowCreate : Bool) :
    Except AsyncIoError Path :=
  if io.allowedRoots.isEmpty then .error .pathNotAllowed
  else
    match canon disk (.ofText path) allowCreate with
    | .error e => .error e
    | .ok canon =>
      if io.allowedRoots.any canon.startsWith then .ok canon else .error .pathNotAllowed

/-- `AsyncIo::write`. -/
def write (io : AsyncIo) (disk : Disk) (path : String) (data : List UInt8) (append : Bool) :
    Except AsyncIoError Written :=
  if io.maxIoBytes < data.length then .error (.tooLarge io.maxIoBytes)
  else
    match io.resolve disk path true with
    | .error e => .error e
    | .ok target =>
      match disk.writeFile target data append with
      | .error e => .error (.io e)
      | .ok (disk', place) => .ok ⟨data.length, disk', place⟩

/-! ## what is allowed -/

/-- The place lies under one of the allowed roots. -/
def Under (io : AsyncIo) (place : List String) : Prop :=
  ∃ root ∈ io.allowedRoots, root.names <+: place

/-- The path cannot be resolved, so only the directory of its last name is; but there
is a link of that name, and opening it leads out of the roots. -/
def LinkOut (io : AsyncIo) (disk : Disk) (path : String) : Prop :=
  ∃ entry target place, (∀ c, disk.canonicalize (.ofText path) ≠ .ok c) ∧
    io.resolve disk path true = .ok (.ofPlace entry) ∧ disk.node entry = some (.link target) ∧
    disk.resolve true (.ofPlace entry) = .ok place ∧ disk.Holds place ∧ ¬io.Under place

variable {io : AsyncIo} {disk : Disk} {path : String} {data : List UInt8} {append : Bool}
  {done : Written} {p target : Path} {place : List String}

/-- The checked path is that of a real place, or of an entry of one that may be
missing. -/
theorem of_canon (h : canon disk p true = .ok target) :
    (∃ place, disk.Real place ∧ disk.canonicalize p = .ok target ∧ target = .ofPlace place) ∨
      ((∀ c, disk.canonicalize p ≠ .ok c) ∧
        ∃ dir name, disk.Real dir ∧ p.fileName = some name ∧
          target = .ofPlace (dir ++ [name])) := by
  rw [canon] at h
  split at h
  case h_1 c hc =>
    cases h
    obtain ⟨place, hplace, rfl⟩ := Disk.canonicalize_eq_ok hc
    exact .inl ⟨place, disk.real_of_resolve hplace, hc, rfl⟩
  case h_2 e hc =>
    rw [if_pos rfl] at h
    split at h
    case h_2 => cases h
    case h_1 parent name hparent hname =>
      split at h
      case h_2 => cases h
      case h_1 parentCanon hcanon =>
        cases h
        obtain ⟨dir, hdir, rfl⟩ := Disk.canonicalize_eq_ok hcanon
        have hreal := disk.real_of_resolve hdir
        refine .inr ⟨fun c hc' => ?_, dir, name, hreal, hname, ?_⟩
        · rw [hc] at hc'
          cases hc'
        · exact Path.join_ofPlace fun n hn => disk.isName_of_mem hreal.node_ne_none hn

/-- `resolve` accepts a path that starts with a root. -/
theorem of_resolve (h : io.resolve disk path true = .ok target) :
    canon disk (.ofText path) true = .ok target ∧
      ∃ root ∈ io.allowedRoots, target.startsWith root = true := by
  rw [resolve] at h
  split at h
  · cases h
  · split at h
    · cases h
    case h_2 c hc =>
      split at h <;> cases h
      case isTrue hany => exact ⟨hc, List.any_eq_true.1 hany⟩

theorem under_of_startsWith (hnames : ∀ name ∈ place, IsName name)
    (h : ∃ root ∈ io.allowedRoots, (Path.ofPlace place).startsWith root = true) :
    io.Under place := by
  obtain ⟨root, hroot, hstarts⟩ := h
  rw [Path.startsWith, Bool.and_eq_true, Path.names_ofPlace hnames] at hstarts
  exact ⟨root, hroot, List.isPrefixOf_iff_prefix.1 hstarts.2⟩

theorem write_eq_ok (h : io.write disk path data append = .ok done) :
    data.length ≤ io.maxIoBytes ∧ ∃ target, io.resolve disk path true = .ok target ∧
      disk.writeFile target data append = .ok (done.disk, done.place) := by
  rw [write] at h
  split at h
  · cases h
  case isFalse hsize =>
    split at h
    · cases h
    case h_2 target htarget =>
      split at h
      · cases h
      case h_2 disk' place hwrite =>
        cases h
        exact ⟨Nat.not_lt.1 hsize, target, htarget, hwrite⟩

theorem write_eq (append : Bool) (hsize : data.length ≤ io.maxIoBytes)
    (hresolve : io.resolve disk path true = .ok target)
    (hplace : disk.resolve true target = .ok place) (hholds : disk.Holds place) :
    io.write disk path data append = .ok ⟨data.length,
      disk.put place (.file (disk.contentAfter place data append)) hholds, place⟩ := by
  rw [write, if_neg (Nat.not_lt.2 hsize), hresolve]
  dsimp only
  rw [Disk.writeFile_eq hplace hholds]

/-- Nothing changes but the file at the place of the write. -/
theorem node_write (h : io.write disk path data append = .ok done) (place : List String) :
    done.disk.node place =
      if place = done.place then some (.file (disk.contentAfter place data append))
      else disk.node place := by
  obtain ⟨-, target, -, hwrite⟩ := write_eq_ok h
  obtain ⟨-, hholds, hdisk⟩ := Disk.writeFile_eq_ok hwrite
  rw [hdisk, Disk.node_put]
  split
  case isTrue heq => rw [heq]
  case isFalse => rfl

theorem fileName_ne {name : String} (h : p.fileName = some name) :
    name ≠ "" ∧ name ≠ "." ∧ name ≠ ".." := by
  obtain ⟨hlast, hup⟩ := Option.filter_eq_some_iff.1 h
  have hname := List.mem_of_getLast? hlast
  rw [Path.names, List.mem_filter] at hname
  simpa [Path.stays, and_assoc] using And.intro hname.2 hup

/-- A successful write went to a place under the roots, or through a link. -/
theorem under_or_link (h : io.write disk path data append = .ok done) :
    io.Under done.place ∨ ((∀ c, disk.canonicalize (.ofText path) ≠ .ok c) ∧
      ∃ entry target, io.resolve disk path true = .ok (.ofPlace entry) ∧
        disk.node entry = some (.link target)) := by
  obtain ⟨-, target, htarget, hwrite⟩ := write_eq_ok h
  obtain ⟨hplace, hholds, -⟩ := Disk.writeFile_eq_ok hwrite
  obtain ⟨hcanon, hroot⟩ := of_resolve htarget
  obtain ⟨place, hreal, -, rfl⟩ | ⟨hfails, dir, name, hdir, hname, rfl⟩ := of_canon hcanon
  · rw [disk.resolve_ofPlace hreal] at hplace
    cases hplace
    exact .inl (under_of_startsWith (fun _ hname => hholds.isName hname) hroot)
  · obtain ⟨link, hlink⟩ | hentry := disk.resolve_ofPlace_entry hdir (fileName_ne hname) hplace
    · exact .inr ⟨hfails, _, link, htarget, hlink⟩
    · rw [hentry] at hholds ⊢
      exact .inl (under_of_startsWith (fun _ hname => hholds.isName hname) hroot)

/-- Writes of a path stay under the allowed roots, unless the path cannot be resolved
because of a link that leads out of them; and nothing changes but the file at the place of
the write. -/
theorem write_confined_iff (io : AsyncIo) (disk : Disk) (path : String) (data : List UInt8)
    (append : Bool) :
    ((∀ done, io.write disk path data append = .ok done → io.Under done.place) ↔
      ¬(data.length ≤ io.maxIoBytes ∧ io.LinkOut disk path)) ∧
    ∀ done, io.write disk path data append = .ok done → ∀ place, done.disk.node place =
      if place = done.place then some (.file (disk.contentAfter place data append))
      else disk.node place := by
  refine ⟨⟨?_, ?_⟩, fun done hdone => node_write hdone⟩
  · rintro h ⟨hsize, entry, target, place, -, hresolve, -, hplace, hholds, hout⟩
    exact hout (h _ (write_eq append hsize hresolve hplace hholds))
  · intro h done hdone
    obtain hunder | ⟨hfails, entry, link, hresolve, hlink⟩ := under_or_link hdone
    · exact hunder
    · by_contra hout
      obtain ⟨hsize, target, htarget, hwrite⟩ := write_eq_ok hdone
      obtain ⟨hplace, hholds, -⟩ := Disk.writeFile_eq_ok hwrite
      obtain rfl : target = .ofPlace entry := Except.ok.inj (htarget.symm.trans hresolve)
      exact h ⟨hsize, entry, link, done.place, hfails, hresolve, hlink, hplace, hholds, hout⟩

/-- A directory for uploads with a link to a file that does not exist. -/
def uploads : Disk :=
  .ofEntries [(["etc"], .dir), (["srv"], .dir), (["srv", "log"], .link (.ofText "/etc/cron"))]
    (by decide)

/-- The link is dangling, so only its directory is checked; opening it then creates
the file outside. -/
theorem dangling_link_leads_out :
    ∃ done, (AsyncIo.new uploads ["/srv"] 1024).write uploads "/srv/log" [42] false = .ok done ∧
      done.place = ["etc", "cron"] ∧ uploads.node ["etc", "cron"] = none ∧
      done.disk.node ["etc", "cron"] = some (.file [42]) ∧
      ¬(AsyncIo.new uploads ["/srv"] 1024).Under done.place := by
  have hnew : AsyncIo.new uploads ["/srv"] 1024 = ⟨[⟨["", "srv"]⟩], 1024⟩ := by decide
  have hresolve : (AsyncIo.mk [⟨["", "srv"]⟩] 1024).resolve uploads "/srv/log" true =
      .ok ⟨["", "srv", "log"]⟩ := by decide +kernel
  have hplace : uploads.resolve true ⟨["", "srv", "log"]⟩ = .ok ["etc", "cron"] := by decide +kernel
  have hholds : uploads.Holds ["etc", "cron"] := by decide
  rw [hnew]
  refine ⟨_, write_eq false (by decide) hresolve hplace hholds, rfl, by decide, ?_, ?_⟩
  · rw [Disk.node_put, if_pos rfl]
    decide
  · rintro ⟨root, hroot, hbegins⟩
    rw [List.mem_singleton.1 hroot] at hbegins
    have hout : ¬(Base.Path.mk ["", "srv"]).names <+: ["etc", "cron"] := by decide
    exact hout hbegins

end AsyncIo

end Turbine
