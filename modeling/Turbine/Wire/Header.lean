import Turbine.Base.Bytes
import Turbine.Base.Utf8

/-!
# Turbine.Wire.Header

Response headers on the worker's pipe.  The native format and the framed one
write a header in the same way, each text behind a 16-bit length, and read it
with a lossy decoding; they differ in the width of the header count.

* `readText_writeText_iff`: a text reads back iff its length fits 16 bits;
* `readMany_headerPairs_iff`: a list of headers reads back iff the count fits
  its field and every header does.
-/

namespace Turbine.Wire

open Base

/-! ## the two sides -/

/-- A header name or value, with its length. -/
def writeText (s : String) : Bytes := leBytes 2 (utf8 s).length ++ utf8 s

/-- A header: the name, then the value. -/
def writeHeaderPair (h : String × String) : Bytes := writeText h.1 ++ writeText h.2

/-- A header name or value as the reader takes it. -/
def readText (bytes : Bytes) : Option (String × Bytes) := do
  let (len, bytes) ← readNat 2 bytes
  let (text, bytes) ← splitOff len bytes
  some (fromUtf8Lossy text, bytes)

def readHeaderPair (bytes : Bytes) : Option ((String × String) × Bytes) := do
  let (key, bytes) ← readText bytes
  let (val, bytes) ← readText bytes
  some ((key, val), bytes)

theorem suffix_of_readText {bytes rest : Bytes} {s : String}
    (h : readText bytes = some (s, rest)) : rest <:+ bytes := by
  simp only [readText, Option.bind_eq_bind, Option.bind_eq_some_iff, Option.some.injEq,
    Prod.mk.injEq, Prod.exists] at h
  obtain ⟨len, bytes', hlen, text, rest', htext, -, hrest⟩ := h
  exact hrest ▸ (suffix_of_splitOff htext).trans (suffix_of_readNat hlen)

theorem suffix_of_readHeaderPair {bytes rest : Bytes} {h : String × String}
    (hread : readHeaderPair bytes = some (h, rest)) : rest <:+ bytes := by
  simp only [readHeaderPair, Option.bind_eq_bind, Option.bind_eq_some_iff, Option.some.injEq,
    Prod.mk.injEq, Prod.exists] at hread
  obtain ⟨key, bytes', hkey, val, rest', hval, -, hrest⟩ := hread
  exact hrest ▸ (suffix_of_readText hval).trans (suffix_of_readText hkey)

/-! ## what reads back -/

/-- The length of the text fits its 16-bit field. -/
def TextFits (s : String) : Prop := (utf8 s).length < 65536

instance (s : String) : Decidable (TextFits s) :=
  inferInstanceAs (Decidable ((utf8 s).length < 65536))

/-- A text is read back iff its length fits: of a longer one the reader takes a
front part, too short to become the text even when decoded lossily. -/
theorem readText_writeText_iff {s : String} {rest rest' : Bytes} :
    readText (writeText s ++ rest) = some (s, rest') ↔ TextFits s ∧ rest' = rest := by
  have hread : readText (writeText s ++ rest) = some
      (fromUtf8Lossy ((utf8 s).take ((utf8 s).length % 256 ^ 2)),
        (utf8 s).drop ((utf8 s).length % 256 ^ 2) ++ rest) := by
    rw [readText, writeText, List.append_assoc, readNat_leBytes]
    simp only [Option.bind_eq_bind, Option.bind_some, splitOff_append_of_le (Nat.mod_le _ _)]
  rw [hread, Option.some.injEq, Prod.mk.injEq]
  by_cases hfits : TextFits s
  · have hmod : (utf8 s).length % 256 ^ 2 = (utf8 s).length := Nat.mod_eq_of_lt hfits
    rw [hmod, List.take_length, List.drop_length, fromUtf8Lossy_utf8, List.nil_append]
    simp [hfits, eq_comm]
  · have hne : fromUtf8Lossy ((utf8 s).take ((utf8 s).length % 256 ^ 2)) ≠ s := by
      intro heq
      have hle := length_utf8_lossy_take_le s ((utf8 s).length % 256 ^ 2)
      rw [heq] at hle
      unfold TextFits at hfits
      have hpow : 256 ^ 2 = 65536 := rfl
      omega
    exact ⟨fun h => absurd h.1 hne, fun h => absurd h.1 hfits⟩

/-- Both texts of the header fit. -/
def HeaderFits (h : String × String) : Prop := TextFits h.1 ∧ TextFits h.2

instance (h : String × String) : Decidable (HeaderFits h) :=
  inferInstanceAs (Decidable (TextFits h.1 ∧ TextFits h.2))

theorem readHeaderPair_write_iff (h : String × String) (rest rest' : Bytes) :
    readHeaderPair (writeHeaderPair h ++ rest) = some (h, rest') ↔
      HeaderFits h ∧ rest' = rest := by
  obtain ⟨key, val⟩ := h
  simp only [readHeaderPair, writeHeaderPair, List.append_assoc, Option.bind_eq_bind,
    Option.bind_eq_some_iff, Option.some.injEq, Prod.mk.injEq, Prod.exists]
  constructor
  · intro ⟨key', bytes, hkey, val', bytes', hval, ⟨hk, hv⟩, hrest⟩
    subst hk hv hrest
    obtain ⟨hkfits, hbytes⟩ := readText_writeText_iff.1 hkey
    rw [hbytes] at hval
    obtain ⟨hvfits, hrest⟩ := readText_writeText_iff.1 hval
    exact ⟨⟨hkfits, hvfits⟩, hrest⟩
  · intro ⟨⟨hkfits, hvfits⟩, hrest⟩
    exact ⟨key, _, readText_writeText_iff.2 ⟨hkfits, rfl⟩, val, _,
      readText_writeText_iff.2 ⟨hvfits, hrest⟩, ⟨rfl, rfl⟩, rfl⟩

/-- Reading as many headers as a count of `k` bytes says gives all of them back
iff the count fits and every header does. -/
theorem readMany_headerPairs_iff {k : Nat} {headers : List (String × String)} {rest rest' : Bytes} :
    readMany readHeaderPair (headers.length % 256 ^ k)
        (headers.flatMap writeHeaderPair ++ rest) = some (headers, rest') ↔
      headers.length < 256 ^ k ∧ (∀ h ∈ headers, HeaderFits h) ∧ rest' = rest := by
  by_cases hcount : headers.length < 256 ^ k
  · have hmod : headers.length % 256 ^ k = headers.length := Nat.mod_eq_of_lt hcount
    have hmany : readMany readHeaderPair headers.length _ = some (headers.take _, rest') ↔ _ :=
      readMany_flatMap_iff readHeaderPair_write_iff headers (Nat.le_refl _) rest
    rw [List.take_length, List.drop_length] at hmany
    rw [hmod, hmany]
    simp [hcount]
  · constructor
    · intro h
      have hlen := length_of_readMany h
      have hlt := Nat.mod_lt headers.length (Nat.pow_pos (n := k) (show 0 < 256 by decide))
      omega
    · intro h
      exact absurd h.1 hcount

end Turbine.Wire
