import Turbine.Base.Bytes

/-!
# Turbine.Base.CStr

NUL-terminated strings behind a length field of `k` bytes.  The terminator is
not counted by the length, but the reader insists on it: a string whose length
does not fit the field is refused, since the reader then stops inside the
string, at a byte that is not NUL.

* `readLenCstr_writeLenCstr`: a string reads back iff its length fits.
-/

namespace Turbine.Base

/-- A NUL-terminated string, without its terminator. -/
structure CStr where
  bytes : Bytes
  nulFree : 0 ∉ bytes
deriving DecidableEq

/-- The empty string. -/
def CStr.empty : CStr := ⟨[], List.not_mem_nil⟩

/-- The string in a slice whose only NUL is its last byte. -/
def CStr.fromBytesWithNul (slice : Bytes) : Option CStr :=
  if h : 0 ∉ slice.dropLast ∧ slice.getLast? = some 0 then some ⟨slice.dropLast, h.1⟩ else none

theorem fromBytesWithNul_concat (s : CStr) : CStr.fromBytesWithNul (s.bytes ++ [0]) = some s := by
  have hs := s.nulFree
  simp [CStr.fromBytesWithNul, hs]

/-- A slice without a NUL is refused. -/
theorem fromBytesWithNul_of_nulFree {slice : Bytes} (h : 0 ∉ slice) :
    CStr.fromBytesWithNul slice = none := by
  have hlast : slice.getLast? ≠ some 0 := fun hl => h (List.mem_of_getLast? hl)
  simp [CStr.fromBytesWithNul, hlast]

/-- The length in `k` bytes, the bytes, the terminator. -/
def writeLenCstr (k : Nat) (s : Bytes) : Bytes := leBytes k s.length ++ (s ++ [0])

/-- Read a string with a length of `k` bytes. -/
def readLenCstr (k : Nat) (data : Bytes) : Option (CStr × Bytes) := do
  let (len, data) ← readNat k data
  let (slice, data) ← splitOff (len + 1) data
  let s ← CStr.fromBytesWithNul slice
  some (s, data)

/-- The length fits a field of `k` bytes. -/
def CStr.Fits (k : Nat) (s : CStr) : Prop := s.bytes.length < 256 ^ k

instance (k : Nat) (s : CStr) : Decidable (s.Fits k) :=
  inferInstanceAs (Decidable (s.bytes.length < 256 ^ k))

/-- A string reads back iff its length fits. -/
theorem readLenCstr_writeLenCstr (k : Nat) (s : CStr) (rest : Bytes) :
    readLenCstr k (writeLenCstr k s.bytes ++ rest) = if s.Fits k then some (s, rest) else none := by
  rw [readLenCstr, writeLenCstr, List.append_assoc, readNat_leBytes]
  by_cases hfits : s.Fits k
  · have hlen : s.bytes.length % 256 ^ k = s.bytes.length := Nat.mod_eq_of_lt hfits
    have hsplit : splitOff (s.bytes.length + 1) (s.bytes ++ [0] ++ rest) =
        some (s.bytes ++ [0], rest) := splitOff_append (by simp)
    rw [if_pos hfits, hlen]
    simp only [Option.bind_eq_bind, Option.bind_some, hsplit, fromBytesWithNul_concat]
  · have hlt : s.bytes.length % 256 ^ k + 1 ≤ s.bytes.length := by
      unfold CStr.Fits at hfits
      have := Nat.mod_lt s.bytes.length (Nat.pow_pos (n := k) (show 0 < 256 by decide))
      omega
    have hslice : 0 ∉ s.bytes.take (s.bytes.length % 256 ^ k + 1) :=
      fun h => s.nulFree (List.mem_of_mem_take h)
    rw [if_neg hfits, List.append_assoc]
    simp only [Option.bind_eq_bind, Option.bind_some, splitOff_append_of_le hlt,
      fromBytesWithNul_of_nulFree hslice, Option.bind_none]

/-- The same, in front of whatever is done with the string. -/
theorem readLenCstr_writeLenCstr_bind {β : Type} (k : Nat) (s : CStr) (rest : Bytes)
    (f : CStr × Bytes → Option β) :
    (readLenCstr k (writeLenCstr k s.bytes ++ rest)).bind f =
      if s.Fits k then f (s, rest) else none := by
  rw [readLenCstr_writeLenCstr]
  split <;> rfl

end Turbine.Base
