import Turbine.Base.Directories
import Turbine.Base.Octal

/-!
# Turbine.Embed.Archive

The archive of an embedded application: how the build script packs a directory
(crates/turbine-core/build.rs) and how the server reads one entry of it
(crates/turbine-core/src/embed.rs).  An entry is a header of 512 bytes and the
content, padded to a multiple of 512.

The clock is a function of the position in the archive, since it is read anew for
every header.

* `reads_writeTarHeader`: what is read of a header that was written;
* `exists_packDirectory`: a directory whose sizes fit is packed.
-/

namespace Turbine.Embed

open Base

/-! ## directories -/

/-- The entries of a directory, in the order in which `read_dir` gives them. -/
inductive Forest
  | nil
  | file (name : String) (content : Bytes) (rest : Forest)
  | dir (name : String) (inside rest : Forest)
deriving DecidableEq, Repr

namespace Forest

def names : Forest → List String
  | .nil => []
  | .file name _ rest => name :: rest.names
  | .dir name _ rest => name :: rest.names

/-- What is at a place below the directory. -/
def node : Forest → List String → Option Node
  | .nil, _ => none
  | .file _ _ _, [] => none
  | .file name content rest, n :: place =>
    if n = name then if place = [] then some (.file content) else none else rest.node (n :: place)
  | .dir _ _ _, [] => none
  | .dir name inside rest, n :: place =>
    if n = name then if place = [] then some .dir else inside.node place
    else rest.node (n :: place)

/-- The number of files. -/
def count : Forest → Nat
  | .nil => 0
  | .file _ _ rest => rest.count + 1
  | .dir _ inside rest => inside.count + rest.count

/-- Every entry has a name, and no two entries of a directory have the same. -/
def WellNamed : Forest → Prop
  | .nil => True
  | .file name _ rest => IsName name ∧ name ∉ rest.names ∧ rest.WellNamed
  | .dir name inside rest =>
    IsName name ∧ name ∉ rest.names ∧ inside.WellNamed ∧ rest.WellNamed

end Forest

/-- The path of an entry, from the one of its directory. -/
def relative (rel name : String) : String := if rel = "" then name else rel ++ "/" ++ name

/-- A property of the path and the size of every entry; directories have none. -/
def Forest.All (P : String → Nat → Prop) : String → Forest → Prop
  | _, .nil => True
  | rel, .file name content rest => P (relative rel name) content.length ∧ rest.All P rel
  | rel, .dir name inside rest =>
    P (relative rel name) 0 ∧ inside.All P (relative rel name) ∧ rest.All P rel

/-! ## packing -/

/-- The entries that are left out. -/
def skips (path : String) : Bool :=
  startsWith path "." || containsStr path "/." ||
  path == "node_modules" || startsWith path "node_modules/" ||
  path == ".git" || startsWith path ".git/"

/-- The sum of the bytes. -/
def checksum (header : Bytes) : Nat := (header.map UInt8.toNat).sum

/-- The header, around its checksum field. -/
def headerWith (name mode size mtime : Bytes) (typeFlag : UInt8) (cksum : Bytes) : Bytes :=
  name ++ List.replicate (100 - name.length) 0 ++ (mode ++ (utf8 "0001000\x00" ++
    (utf8 "0001000\x00" ++ (size ++ (mtime ++ (cksum ++ (typeFlag :: (List.replicate 100 0 ++
      (utf8 "ustar\x00" ++ (utf8 "00" ++ List.replicate 247 0))))))))))

/-- `write_tar_header`: the header, unless a number does not fit its field and
`copy_from_slice` panics. -/
def writeTarHeader (mtime : Nat) (name : String) (size : Nat) (typeFlag : UInt8) : Option Bytes :=
  let nameField := (utf8 name).take 100
  let mode := utf8 (if typeFlag = 53 then "0000755\x00" else "0000644\x00")
  let sizeField := utf8 (octalText 11 size ++ "\x00")
  let mtimeField := utf8 (octalText 11 mtime ++ "\x00")
  let blank := headerWith nameField mode sizeField mtimeField typeFlag (utf8 "        ")
  let cksumField := utf8 (octalText 6 (checksum blank) ++ "\x00 ")
  if sizeField.length = 12 ∧ mtimeField.length = 12 ∧ cksumField.length = 8 then
    some (headerWith nameField mode sizeField mtimeField typeFlag cksumField)
  else none

/-- The zeros behind a content. -/
def padding (content : Bytes) : Bytes := List.replicate ((512 - content.length % 512) % 512) 0

/-- `pack_directory`, behind what is already packed. -/
def packDirectory (now : Nat → Nat) : String → Forest → Bytes → Option Bytes
  | _, .nil, data => some data
  | rel, .file name content rest, data =>
    let path := relative rel name
    if skips path then packDirectory now rel rest data
    else
      match writeTarHeader (now data.length) path content.length 48 with
      | none => none
      | some header => packDirectory now rel rest (data ++ (header ++ (content ++ padding content)))
  | rel, .dir name inside rest, data =>
    let path := relative rel name
    if skips path then packDirectory now rel rest data
    else
      match writeTarHeader (now data.length) (path ++ "/") 0 53 with
      | none => none
      | some header =>
        match packDirectory now path inside (data ++ header) with
        | none => none
        | some data => packDirectory now rel rest data

/-- A compression and its inverse. -/
structure Gzip where
  compress : Bytes → Bytes
  decompress : Bytes → Except String Bytes
  inverse : ∀ data, decompress (compress data) = .ok data

/-- What `pack_tar_gz` compresses. -/
def packTar (now : Nat → Nat) (entries : Forest) : Option Bytes :=
  (packDirectory now "" entries []).map (· ++ List.replicate 1024 0)

/-- `pack_tar_gz`: the bytes it writes, unless it panics. -/
def packTarGz (gz : Gzip) (now : Nat → Nat) (entries : Forest) : Option Bytes :=
  (packTar now entries).map gz.compress

/-! ## reading a header -/

/-- The name in a header. -/
def readName (header : Bytes) : String :=
  let nameEnd := ((header.take 100).findIdx? (· = 0)).getD 100
  fromUtf8Lossy (header.take nameEnd)

/-- `str::trim_matches`, of a character. -/
def trimMatches (s : String) (c : Char) : String := trimEndMatches (trimStartMatches s c) c

/-- The size in a header. -/
def readSize (header : Bytes) : Nat :=
  let text := trimMatches (trim (fromUtf8Lossy ((header.drop 124).take 12))) '\x00'
  (parseOctal text).getD 0

/-- The type flag in a header. -/
def readFlag (header : Bytes) : UInt8 := header.getD 156 0

/-! ## the fields of a header -/

section Fields

variable {name mode size mtime cksum : Bytes} {typeFlag : UInt8}

theorem length_headerWith (hname : name.length ≤ 100) (hmode : mode.length = 8)
    (hsize : size.length = 12) (hmtime : mtime.length = 12) (hcksum : cksum.length = 8) :
    (headerWith name mode size mtime typeFlag cksum).length = 512 := by
  have hid : (utf8 "0001000\x00").length = 8 := by decide
  have hmagic : (utf8 "ustar\x00").length = 6 := by decide
  have hversion : (utf8 "00").length = 2 := by decide
  simp only [headerWith, List.length_append, List.length_replicate, List.length_cons, hmode, hsize,
    hmtime, hcksum, hid, hmagic, hversion]
  omega

/-- The name ends at the first zero, or with its field. -/
theorem readName_headerWith (hname : name.length ≤ 100) (hzero : 0 ∉ name) :
    readName (headerWith name mode size mtime typeFlag cksum) = fromUtf8Lossy name := by
  have hfield : (name ++ List.replicate (100 - name.length) (0 : UInt8)).length = 100 := by
    rw [List.length_append, List.length_replicate]
    omega
  have hnone : name.findIdx? (· = 0) = none := by
    refine List.findIdx?_eq_none_iff.2 fun b hb => decide_eq_false ?_
    rintro rfl
    exact hzero hb
  have hend : ((name ++ List.replicate (100 - name.length) (0 : UInt8)).findIdx?
      (· = 0)).getD 100 = name.length := by
    rw [List.findIdx?_append, hnone, Option.none_or]
    cases hrest : 100 - name.length with
    | zero =>
      have hfull : name.length = 100 := by omega
      simp [hfull]
    | succ n => simp [List.replicate_succ, List.findIdx?_cons]
  rw [readName, headerWith, List.take_left' hfield, hend, List.append_assoc, List.take_left]

theorem sizeField_headerWith (hname : name.length ≤ 100) (hmode : mode.length = 8)
    (hsize : size.length = 12) :
    ((headerWith name mode size mtime typeFlag cksum).drop 124).take 12 = size := by
  have hid : (utf8 "0001000\x00").length = 8 := by decide
  have hfront : (name ++ List.replicate (100 - name.length) 0 ++ (mode ++ (utf8 "0001000\x00" ++
      utf8 "0001000\x00"))).length = 124 := by
    simp only [List.length_append, List.length_replicate, hmode, hid]
    omega
  have hheader : headerWith name mode size mtime typeFlag cksum =
      name ++ List.replicate (100 - name.length) 0 ++ (mode ++ (utf8 "0001000\x00" ++
        utf8 "0001000\x00")) ++ (size ++ (mtime ++ (cksum ++ (typeFlag ::
          (List.replicate 100 0 ++ (utf8 "ustar\x00" ++ (utf8 "00" ++
            List.replicate 247 0))))))) := by
    simp only [headerWith, List.append_assoc]
  rw [hheader, List.drop_left' hfront, List.take_left' hsize]

theorem readFlag_headerWith (hname : name.length ≤ 100) (hmode : mode.length = 8)
    (hsize : size.length = 12) (hmtime : mtime.length = 12) (hcksum : cksum.length = 8) :
    readFlag (headerWith name mode size mtime typeFlag cksum) = typeFlag := by
  have hid : (utf8 "0001000\x00").length = 8 := by decide
  have hfront : (name ++ List.replicate (100 - name.length) 0 ++ (mode ++ (utf8 "0001000\x00" ++
      (utf8 "0001000\x00" ++ (size ++ (mtime ++ cksum)))))).length = 156 := by
    simp only [List.length_append, List.length_replicate, hmode, hid, hsize, hmtime, hcksum]
    omega
  have hheader : headerWith name mode size mtime typeFlag cksum =
      name ++ List.replicate (100 - name.length) 0 ++ (mode ++ (utf8 "0001000\x00" ++
        (utf8 "0001000\x00" ++ (size ++ (mtime ++ cksum))))) ++ (typeFlag ::
          (List.replicate 100 0 ++ (utf8 "ustar\x00" ++ (utf8 "00" ++ List.replicate 247 0)))) := by
    simp only [headerWith, List.append_assoc]
  rw [readFlag, hheader, List.getD_eq_getElem?_getD, List.getElem?_append_right (by omega), hfront]
  rfl

end Fields

/-! ## the size -/

theorem isWhitespace_of_isOctal {c : Char} (h : isOctal c = true) : isWhitespace c = false := by
  rw [isOctal, Bool.and_eq_true, decide_eq_true_iff, decide_eq_true_iff, Char.le_def, Char.le_def,
    UInt32.le_iff_toNat_le, UInt32.le_iff_toNat_le] at h
  have hlow : 48 ≤ c.toNat := h.1
  have hhigh : c.toNat ≤ 55 := h.2
  simp only [isWhitespace]
  simp
  omega

theorem trim_of_all {s : String} (h : ∀ c ∈ s.toList, isWhitespace c = false) : trim s = s := by
  have hkeep : ∀ cs : List Char, (∀ c ∈ cs, isWhitespace c = false) →
      cs.dropWhile isWhitespace = cs := by
    intro cs hcs
    cases cs with
    | nil => rfl
    | cons c cs => rw [List.dropWhile_cons_of_neg (by simp [hcs c List.mem_cons_self])]
  rw [trim, trimStart, hkeep _ h, String.ofList_toList, trimEnd,
    hkeep _ fun c hc => h c (List.mem_reverse.1 hc), List.reverse_reverse, String.ofList_toList]

theorem trimMatches_append {s t : String} {c : Char} (hs : s ≠ "") (h : c ∉ s.toList)
    (ht : t.toList = [c]) : trimMatches (s ++ t) c = s := by
  have hkeep : ∀ cs : List Char, c ∉ cs → cs.dropWhile (· == c) = cs := by
    intro cs hcs
    cases cs with
    | nil => rfl
    | cons d cs =>
      refine List.dropWhile_cons_of_neg ?_
      rw [beq_iff_eq]
      rintro rfl
      exact hcs List.mem_cons_self
  have hstart : (s.toList ++ [c]).dropWhile (· == c) = s.toList ++ [c] := by
    cases hlist : s.toList with
    | nil => exact absurd (String.toList_eq_nil_iff.1 hlist) hs
    | cons d cs =>
      rw [hlist] at h
      refine List.dropWhile_cons_of_neg ?_
      rw [beq_iff_eq]
      rintro rfl
      exact h List.mem_cons_self
  rw [trimMatches, trimStartMatches, String.toList_append, ht, hstart,
    trimEndMatches, String.toList_ofList, List.reverse_append, List.reverse_singleton,
    List.singleton_append, List.dropWhile_cons_of_pos (by simp),
    hkeep _ fun hc => h (List.mem_reverse.1 hc), List.reverse_reverse, String.ofList_toList]

/-- The size of a file reads back. -/
theorem readSize_eq {header : Bytes} {size : Nat} (hsize : size < 8 ^ 11)
    (h : (header.drop 124).take 12 = utf8 (octalText 11 size ++ "\x00")) :
    readSize header = size := by
  have hnul : '\x00' ∉ (octalText 11 size).toList :=
    fun hmem => absurd (isOctal_of_mem hmem) (by decide)
  have hne : octalText 11 size ≠ "" := by
    intro hempty
    have hlen := length_octalText hsize
    rw [hempty] at hlen
    cases hlen
  have hplain : ∀ c ∈ (octalText 11 size ++ "\x00").toList, isWhitespace c = false := by
    intro c hc
    rw [String.toList_append, List.mem_append] at hc
    obtain hc | hc := hc
    · exact isWhitespace_of_isOctal (isOctal_of_mem hc)
    · obtain rfl : c = '\x00' := List.mem_singleton.1 hc
      rfl
  have hmark : "\x00".toList = ['\x00'] := by decide
  rw [readSize, h, fromUtf8Lossy_utf8, trim_of_all hplain, trimMatches_append hne hnul hmark,
    parseOctal_octalText (by decide) hsize (by omega), Option.getD_some]

/-! ## headers -/

/-- What is read of a header. -/
structure Reads (header : Bytes) (name : String) (size : Nat) (typeFlag : UInt8) : Prop where
  length : header.length = 512
  name : readName header = name
  size : readSize header = size
  typeFlag : readFlag header = typeFlag

/-- The text that the name field of a header holds. -/
def cutName (name : String) : String := fromUtf8Lossy ((utf8 name).take 100)

theorem cutName_eq {name : String} (h : (utf8 name).length ≤ 100) : cutName name = name := by
  rw [cutName, List.take_of_length_le h, fromUtf8Lossy_utf8]

variable {mtime size : Nat} {name : String} {typeFlag : UInt8} {header : Bytes}

theorem length_mode :
    (utf8 (if typeFlag = 53 then "0000755\x00" else "0000644\x00")).length = 8 := by
  split <;> decide

theorem length_number {width n : Nat} (h : n < 8 ^ width) (mark : String) :
    (utf8 (octalText width n ++ mark)).length = width + (utf8 mark).length := by
  rw [utf8_append, List.length_append, length_utf8_octalText h]

/-- **What is read of a header that was written**: the size and the type, and the front of
the name. -/
theorem reads_writeTarHeader (hname : '\x00' ∉ name.toList) (hsize : size < 8 ^ 11)
    (h : writeTarHeader mtime name size typeFlag = some header) :
    Reads header (cutName name) size typeFlag := by
  have hcut : ((utf8 name).take 100).length ≤ 100 := List.length_take_le ..
  have hzero : 0 ∉ (utf8 name).take 100 := fun hmem =>
    zero_not_mem_utf8 hname (List.mem_of_mem_take hmem)
  rw [writeTarHeader] at h
  obtain ⟨⟨hsizeField, hmtime, hcksum⟩, hheader⟩ := Option.ite_none_right_eq_some.1 h
  rw [← Option.some.inj hheader]
  exact {
    length := length_headerWith hcut length_mode hsizeField hmtime hcksum
    name := readName_headerWith hcut hzero
    size := readSize_eq hsize (sizeField_headerWith hcut length_mode hsizeField)
    typeFlag := readFlag_headerWith hcut length_mode hsizeField hmtime hcksum }

theorem checksum_le (bytes : Bytes) : checksum bytes ≤ 255 * bytes.length := by
  induction bytes with
  | nil => exact Nat.le_refl 0
  | cons b bytes ih =>
    have hb := b.toNat_lt
    rw [checksum] at ih ⊢
    rw [List.map_cons, List.sum_cons, List.length_cons]
    omega

/-- A header is written when its numbers fit; the checksum always does. -/
theorem exists_writeTarHeader (name : String) (typeFlag : UInt8) (hsize : size < 8 ^ 11)
    (hmtime : mtime < 8 ^ 11) :
    ∃ header, writeTarHeader mtime name size typeFlag = some header := by
  have hcut : ((utf8 name).take 100).length ≤ 100 := List.length_take_le ..
  have hsizeField : (utf8 (octalText 11 size ++ "\x00")).length = 12 := length_number hsize _
  have hmtimeField : (utf8 (octalText 11 mtime ++ "\x00")).length = 12 := length_number hmtime _
  have hspaces : (utf8 "        ").length = 8 := by decide
  rw [writeTarHeader]
  generalize hblank : headerWith _ _ _ _ _ _ = blank
  have hlen : blank.length = 512 := by
    rw [← hblank]
    exact length_headerWith hcut length_mode hsizeField hmtimeField hspaces
  have hsum : checksum blank < 8 ^ 6 := by
    have hle := checksum_le blank
    omega
  have hcksum : (utf8 (octalText 6 (checksum blank) ++ "\x00 ")).length = 8 := length_number hsum _
  rw [if_pos ⟨hsizeField, hmtimeField, hcksum⟩]
  exact ⟨_, rfl⟩

/-- What the names field cuts off of a directory's path is at most the slash. -/
theorem cutName_slash (h : cutName name = name) :
    cutName (name ++ "/") = name ++ "/" ∨ cutName (name ++ "/") = name := by
  have hbytes : utf8 (name ++ "/") = utf8 name ++ [47] := utf8_append name "/"
  by_cases hfull : 100 ≤ (utf8 name).length
  · right
    rw [cutName, hbytes, List.take_append_of_le_length hfull, ← cutName, h]
  · left
    refine cutName_eq ?_
    rw [hbytes, List.length_append, List.length_singleton]
    omega

variable {now : Nat → Nat} {rel : String}

theorem exists_packDirectory (hnow : ∀ n, now n < 8 ^ 11) {entries : Forest}
    (h : entries.All (fun _ size => size < 8 ^ 11) rel) (data : Bytes) :
    ∃ data', packDirectory now rel entries data = some data' := by
  induction entries generalizing rel data with
  | nil => exact ⟨data, rfl⟩
  | file name content rest ih =>
    rw [packDirectory]
    split
    · exact ih h.2 data
    · obtain ⟨header, hheader⟩ := exists_writeTarHeader (relative rel name) 48 h.1
        (hnow data.length)
      rw [hheader]
      exact ih h.2 _
  | dir name inside rest ihInside ihRest =>
    rw [packDirectory]
    split
    · exact ihRest h.2.2 data
    · obtain ⟨header, hheader⟩ := exists_writeTarHeader (relative rel name ++ "/") 53
        (show 0 < 8 ^ 11 by decide) (hnow data.length)
      obtain ⟨data', hdata'⟩ := ihInside h.2.1 (data ++ header)
      rw [hheader]
      dsimp only
      rw [hdata']
      exact ihRest h.2.2 data'

end Turbine.Embed
