import Turbine.Base.Disk
import Turbine.Base.Occurrences
import Turbine.Base.Str

/-!
# Turbine.Features.Sendfile

`X-Sendfile` and `X-Accel-Redirect` (crates/turbine-core/src/features.rs): a script names a
file under a root, and the server answers with it.

* `serve_iff`: what is served is a readable file whose place lies under the root's.
-/

namespace Turbine.Features

open Base

/-- The file system: the tree, and which of its files can be read. -/
structure Files where
  disk : Disk
  readable : List String → Bool

/-- `std::fs::read`, or `none` for an error. -/
def Files.read (fs : Files) (p : Path) : Option (List UInt8) :=
  match fs.disk.resolve false p with
  | .error _ => none
  | .ok place =>
    match fs.disk.node place with
    | some (.file content) => if fs.readable place then some content else none
    | _ => none

/-- A header that names a file. -/
def isSendfile (field : String × String) : Bool :=
  eqIgnoreAsciiCase field.1 "X-Accel-Redirect" || eqIgnoreAsciiCase field.1 "X-Sendfile"

/-- `check_x_sendfile`. -/
def checkXSendfile (headers : List (String × String)) : Option String :=
  (headers.find? isSendfile).map Prod.snd

/-- `target`: leading slashes do not count. -/
def sendfileTarget (filePath : String) (sendfileRoot : Path) : Path :=
  if startsWith filePath "/" then sendfileRoot.join (.ofText (trimStartMatches filePath '/'))
  else sendfileRoot.join (.ofText filePath)

/-- `resolve_sendfile_path`. -/
def resolveSendfilePath (disk : Disk) (filePath : String) (sendfileRoot : Path) : Option Path :=
  match disk.canonicalize (sendfileTarget filePath sendfileRoot) with
  | .error _ => none
  | .ok resolved =>
    match disk.canonicalize sendfileRoot with
    | .error _ => none
    | .ok rootCanonical => if resolved.startsWith rootCanonical then some resolved else none

/-- `Path::extension`: behind the last dot of the file name, unless the name begins with it. -/
def pathExtension (p : Path) : Option String :=
  (p.fileName.bind fun name => cutLast name.toList ['.']).bind fun cut =>
    if cut.1 = [] then none else some (String.ofList cut.2)

/-- The types that `mime_for_sendfile` knows. -/
def sendfileTypes : List (String × String) :=
  [("pdf", "application/pdf"), ("zip", "application/zip"), ("gz", "application/gzip"),
   ("tgz", "application/gzip"), ("tar", "application/x-tar"), ("csv", "text/csv"),
   ("xlsx", "application/vnd.openxmlformats-officedocument.spreadsheetml.sheet"),
   ("docx", "application/vnd.openxmlformats-officedocument.wordprocessingml.document"),
   ("png", "image/png"), ("jpg", "image/jpeg"), ("jpeg", "image/jpeg"), ("gif", "image/gif"),
   ("webp", "image/webp"), ("svg", "image/svg+xml"), ("mp4", "video/mp4"), ("mp3", "audio/mpeg"),
   ("txt", "text/plain"), ("html", "text/html"), ("htm", "text/html"), ("json", "application/json"),
   ("xml", "application/xml")]

/-- `mime_for_sendfile`. -/
def mimeForSendfile (p : Path) : String :=
  (sendfileTypes.lookup ((pathExtension p).getD "")).getD "application/octet-stream"

/-- `serve_sendfile`. -/
def serveSendfile (fs : Files) (p : Path) : Option (String × List UInt8) :=
  (fs.read p).map fun body => (mimeForSendfile p, body)

/-! ## what is served -/

variable {disk : Disk} {filePath : String} {root resolved : Path} {fs : Files}
  {place rootPlace : List String} {content : List UInt8}

theorem canonicalize_of_resolve {p : Path} (h : disk.resolve false p = .ok place) :
    disk.canonicalize p = .ok (.ofPlace place) := by
  rw [Disk.canonicalize, h]
  rfl

/-- For real places, a path begins with another iff the places do. -/
theorem startsWith_ofPlace_iff (h : disk.Real place) (hroot : disk.Real rootPlace) :
    (Path.ofPlace place).startsWith (.ofPlace rootPlace) = true ↔ rootPlace <+: place := by
  rw [Path.startsWith, Path.isAbsolute_ofPlace, Path.isAbsolute_ofPlace, beq_self_eq_true,
    Bool.true_and, Path.names_ofPlace fun name => disk.isName_of_mem hroot.node_ne_none,
    Path.names_ofPlace fun name => disk.isName_of_mem h.node_ne_none, List.isPrefixOf_iff_prefix]

/-- A path is resolved to that of a place under the root's. -/
theorem resolveSendfilePath_eq_some_iff :
    resolveSendfilePath disk filePath root = some resolved ↔
      ∃ rootPlace place, disk.resolve false root = .ok rootPlace ∧
        disk.resolve false (sendfileTarget filePath root) = .ok place ∧ rootPlace <+: place ∧
        resolved = .ofPlace place := by
  constructor
  · intro h
    unfold resolveSendfilePath at h
    split at h
    case h_1 => cases h
    case h_2 target htarget =>
      split at h
      case h_1 => cases h
      case h_2 rootCanonical hroot =>
        split at h
        case isFalse => cases h
        case isTrue hunder =>
          obtain rfl := Option.some.inj h
          obtain ⟨place, hplace, rfl⟩ := Disk.canonicalize_eq_ok htarget
          obtain ⟨rootPlace, hrootPlace, rfl⟩ := Disk.canonicalize_eq_ok hroot
          refine ⟨rootPlace, place, hrootPlace, hplace, ?_, rfl⟩
          exact (startsWith_ofPlace_iff (disk.real_of_resolve hplace)
            (disk.real_of_resolve hrootPlace)).1 hunder
  · rintro ⟨rootPlace, place, hroot, hplace, hunder, rfl⟩
    have hstarts := (startsWith_ofPlace_iff (disk.real_of_resolve hplace)
      (disk.real_of_resolve hroot)).2 hunder
    rw [resolveSendfilePath, canonicalize_of_resolve hplace, canonicalize_of_resolve hroot]
    dsimp only
    rw [if_pos hstarts]

/-- What is read at a real place. -/
theorem read_ofPlace_iff (h : fs.disk.Real place) :
    fs.read (.ofPlace place) = some content ↔
      fs.disk.node place = some (.file content) ∧ fs.readable place = true := by
  rw [Files.read, fs.disk.resolve_ofPlace h]
  dsimp only
  split
  case h_1 content' hnode => simp [hnode, and_comm]
  case h_2 hnode =>
    refine iff_of_false (by simp) ?_
    rintro ⟨hfile, -⟩
    exact hnode content hfile

/-- A readable file under the root, with its content. -/
def Serves (fs : Files) (root : Path) (filePath : String) (content : List UInt8) : Prop :=
  ∃ rootPlace place, fs.disk.resolve false root = .ok rootPlace ∧
    fs.disk.resolve false (sendfileTarget filePath root) = .ok place ∧ rootPlace <+: place ∧
    fs.disk.node place = some (.file content) ∧ fs.readable place = true

/-- What is served is the content of such a file. -/
theorem serve_iff : (∃ contentType, (resolveSendfilePath fs.disk filePath root).bind
      (serveSendfile fs) = some (contentType, content)) ↔ Serves fs root filePath content := by
  constructor
  · rintro ⟨contentType, h⟩
    obtain ⟨resolved, hresolved, hserve⟩ := Option.bind_eq_some_iff.1 h
    obtain ⟨rootPlace, place, hroot, hplace, hunder, rfl⟩ :=
      resolveSendfilePath_eq_some_iff.1 hresolved
    obtain ⟨body, hbody, hpair⟩ := Option.map_eq_some_iff.1 hserve
    obtain ⟨-, rfl⟩ := Prod.mk.inj hpair
    obtain ⟨hfile, hreadable⟩ := (read_ofPlace_iff (fs.disk.real_of_resolve hplace)).1 hbody
    exact ⟨rootPlace, place, hroot, hplace, hunder, hfile, hreadable⟩
  · rintro ⟨rootPlace, place, hroot, hplace, hunder, hfile, hreadable⟩
    have hresolved := resolveSendfilePath_eq_some_iff.2
      ⟨rootPlace, place, hroot, hplace, hunder, rfl⟩
    have hread := (read_ofPlace_iff (fs.disk.real_of_resolve hplace)).2 ⟨hfile, hreadable⟩
    exact ⟨mimeForSendfile (.ofPlace place),
      by rw [hresolved, Option.bind_some, serveSendfile, hread, Option.map_some]⟩

end Turbine.Features
