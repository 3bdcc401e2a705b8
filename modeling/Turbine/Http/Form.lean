import Mathlib.Data.List.Induction
import Turbine.Base.Str
import Turbine.Base.Utf8

/-!
# Turbine.Http.Form

The decoders for the text forms of a request: percent-decoding, form data and
the `Cookie` header, as `compat.rs` has them.

* `lookupEntry_collectEntries`: in a map that is collected, the last pair of a key counts.
-/

namespace Turbine.Http

open Base

/-- `hex_digit`. -/
def hexDigit (b : UInt8) : Option UInt8 :=
  if 0x30 ≤ b ∧ b ≤ 0x39 then some (b - 0x30)
  else if 0x61 ≤ b ∧ b ≤ 0x66 then some (b - 0x61 + 10)
  else if 0x41 ≤ b ∧ b ≤ 0x46 then some (b - 0x41 + 10)
  else none

/-- The loop of `url_decode`.  A percent sign without two hexadecimal digits after
it stands for itself. -/
def urlDecodeBytes : Bytes → Bytes
  | [] => []
  | 0x25 :: hi :: lo :: rest =>
    match hexDigit hi, hexDigit lo with
    | some h, some l => (h <<< 4 ||| l) :: urlDecodeBytes rest
    | _, _ => 0x25 :: urlDecodeBytes (hi :: lo :: rest)
  | b :: rest => (if b = 0x2B then 0x20 else b) :: urlDecodeBytes rest

/-- `url_decode`. -/
def urlDecode (s : String) : String := fromUtf8Lossy (urlDecodeBytes (utf8 s))

/-- `parse_urlencoded`. -/
def parseUrlencoded (s : String) : List (String × String) :=
  if s.isEmpty then []
  else (split s '&').filterMap fun pair =>
    let (k, v) := (splitOnce pair '=').getD (pair, "")
    if k.isEmpty then none else some (urlDecode k, urlDecode v)

/-- A hash map by its entries: `insert` overwrites the value of a key that is
present. -/
def insertEntry (k v : String) : List (String × String) → List (String × String)
  | [] => [(k, v)]
  | (k', v') :: entries =>
    if k' = k then (k, v) :: entries else (k', v') :: insertEntry k v entries

/-- Collecting pairs into a hash map. -/
def collectEntries (pairs : List (String × String)) : List (String × String) :=
  pairs.foldl (fun entries p => insertEntry p.1 p.2 entries) []

/-- `HashMap::get`. -/
def lookupEntry (k : String) (entries : List (String × String)) : Option String :=
  (entries.find? (·.1 = k)).map (·.2)

/-- A new key comes last. -/
theorem insertEntry_of_not_mem {k v : String} {entries : List (String × String)}
    (h : k ∉ entries.map Prod.fst) : insertEntry k v entries = entries ++ [(k, v)] := by
  induction entries with
  | nil => rfl
  | cons e entries ih =>
    obtain ⟨hne, hrest⟩ := List.ne_and_not_mem_of_not_mem_cons h
    rw [insertEntry, if_neg hne.symm, ih hrest, List.cons_append]

theorem lookupEntry_insertEntry (k k' v : String) (entries : List (String × String)) :
    lookupEntry k (insertEntry k' v entries) = if k' = k then some v else lookupEntry k entries := by
  induction entries with
  | nil => by_cases h : k' = k <;> simp [insertEntry, lookupEntry, h]
  | cons e entries ih =>
    rw [insertEntry]
    split
    case isTrue hsame =>
      -- the key is found here, or else the entry does not matter
      by_cases h : k' = k <;> simp [lookupEntry, h, hsame]
    case isFalse hother =>
      by_cases he : e.1 = k
      · have hk : k' ≠ k := fun h => hother (he.trans h.symm)
        simp [lookupEntry, he, hk]
      · simpa [lookupEntry, he] using ih

/-- The value of the last pair with the key. -/
def lastValue (k : String) (pairs : List (String × String)) : Option String :=
  (pairs.filter (·.1 = k)).getLast?.map (·.2)

theorem lastValue_append (k : String) (pairs more : List (String × String)) :
    lastValue k (pairs ++ more) = (lastValue k more).or (lastValue k pairs) := by
  rw [lastValue, List.filter_append, List.getLast?_append, Option.map_or]
  rfl

theorem lastValue_eq_none_iff {k : String} {pairs : List (String × String)} :
    lastValue k pairs = none ↔ ∀ p ∈ pairs, p.1 ≠ k := by
  rw [lastValue, Option.map_eq_none_iff, List.getLast?_eq_none_iff, List.filter_eq_nil_iff]
  simp

/-- A collected map has the last value of every key. -/
theorem lookupEntry_collectEntries (k : String) (pairs : List (String × String)) :
    lookupEntry k (collectEntries pairs) = lastValue k pairs := by
  induction pairs using List.reverseRecOn with
  | nil => rfl
  | append_singleton pairs p ih =>
    rw [lastValue_append, collectEntries, List.foldl_concat, ← collectEntries,
      lookupEntry_insertEntry, ih]
    by_cases h : p.1 = k <;> simp [lastValue, h]

/-- `parse_cookie_header`. -/
def parseCookieHeader (header : String) : List (String × String) :=
  collectEntries ((split header ';').filterMap fun pair =>
    (splitOnce (trim pair) '=').map fun (k, v) => (urlDecode (trim k), urlDecode (trim v)))

end Turbine.Http
