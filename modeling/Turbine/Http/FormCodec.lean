import Turbine.Base.Separators
import Turbine.Http.Form

/-!
# Turbine.Http.FormCodec

Form data as clients write it.  An encoder has some freedom: a space may be written in two
ways, hexadecimal digits in either case, and any byte may be escaped.  So encoding is a
relation.

* `parseUrlencoded_of_encodesForm`: a form that was encoded is parsed as what it was.
-/

namespace Turbine.Http

open Base

/-! ## encoding -/

/-- The two ways to write a hexadecimal digit. -/
def hexChars (n : Nat) : List Char := [Nat.digitChar n, (Nat.digitChar n).toUpper]

/-- The characters that may not stand for themselves. -/
def reserved : List Char := ['%', '&', '=', '+', ' ']

/-- The texts for a byte. -/
inductive EncodesByte : UInt8 → List Char → Prop
  | plain (c : Char) (hascii : c.toNat < 0x80) (hfree : c ∉ reserved) :
      EncodesByte (.ofNat c.toNat) [c]
  | plus : EncodesByte 0x20 ['+']
  | escaped {b : UInt8} {hi lo : Char} (hhi : hi ∈ hexChars (b.toNat / 16))
      (hlo : lo ∈ hexChars (b.toNat % 16)) : EncodesByte b ['%', hi, lo]

/-- The texts for a list of bytes. -/
inductive Encodes : Bytes → List Char → Prop
  | nil : Encodes [] []
  | cons {b : UInt8} {bytes : Bytes} {cs text : List Char} (hb : EncodesByte b cs)
      (hbytes : Encodes bytes text) : Encodes (b :: bytes) (cs ++ text)

/-- The texts for a pair. -/
def EncodesPair (pair : String × String) (text : List Char) : Prop :=
  ∃ key value, Encodes (utf8 pair.1) key ∧ Encodes (utf8 pair.2) value ∧
    text = key ++ '=' :: value

/-- The texts for a form. -/
def EncodesForm (pairs : List (String × String)) (text : String) : Prop :=
  ∃ parts, List.Forall₂ EncodesPair pairs parts ∧
    text = String.ofList (['&'].intercalate parts)

variable {b : UInt8} {bytes rest : Bytes} {cs text : List Char} {c : Char}

/-! ## bytes -/

theorem urlDecodeBytes_cons (h : b ≠ 0x25) :
    urlDecodeBytes (b :: rest) = (if b = 0x2B then 0x20 else b) :: urlDecodeBytes rest := by
  match rest with
  | [] | [_] | _ :: _ :: _ => simp [urlDecodeBytes, h]

theorem reserved_ascii : ∀ c ∈ reserved, c.toNat < 0x80 := by
  simp [reserved]

/-- A digit is read as its value. -/
theorem hexDigit_of_mem {n : Nat} (hn : n < 16) (h : c ∈ hexChars n) :
    c.toNat < 0x80 ∧ hexDigit (.ofNat c.toNat) = some (.ofNat n) ∧ c ≠ '&' ∧ c ≠ '=' := by
  have hall : ∀ n < 16, (hexChars n).all (fun c => decide (c.toNat < 0x80 ∧
      hexDigit (.ofNat c.toNat) = some (.ofNat n) ∧ c ≠ '&' ∧ c ≠ '=')) = true := by decide
  exact of_decide_eq_true (List.all_eq_true.1 (hall n hn) c h)

theorem digits_eq (b : UInt8) :
    UInt8.ofNat (b.toNat / 16) <<< 4 ||| UInt8.ofNat (b.toNat % 16) = b := by
  have hall : ∀ n < 256, UInt8.ofNat (n / 16) <<< 4 ||| UInt8.ofNat (n % 16) = UInt8.ofNat n := by
    decide +kernel
  rw [hall b.toNat b.toNat_lt, UInt8.ofNat_toNat]

theorem urlDecodeBytes_of_encodesByte (h : EncodesByte b cs) (rest : Bytes) :
    urlDecodeBytes (encodeChars cs ++ rest) = b :: urlDecodeBytes rest := by
  cases h with
  | plain c hascii hfree =>
    have hbyte : ∀ d ∈ reserved, UInt8.ofNat c.toNat ≠ UInt8.ofNat d.toNat := by
      intro d hd hsame
      have hd' : d.toNat < 0x80 := reserved_ascii d hd
      have hnat := congrArg UInt8.toNat hsame
      rw [UInt8.toNat_ofNat_of_lt' (hascii.trans (by decide)),
        UInt8.toNat_ofNat_of_lt' (hd'.trans (by decide))] at hnat
      exact hfree (Char.toNat_inj.1 hnat ▸ hd)
    have hpercent : UInt8.ofNat c.toNat ≠ 0x25 := hbyte '%' (by decide)
    have hplus : UInt8.ofNat c.toNat ≠ 0x2B := hbyte '+' (by decide)
    rw [encodeChars_cons, utf8EncodeChar_of_ascii hascii, encodeChars_nil, List.append_nil,
      List.singleton_append, urlDecodeBytes_cons hpercent, if_neg hplus]
  | plus =>
    have hplus : encodeChars ['+'] = [0x2B] := by decide
    rw [hplus, List.singleton_append, urlDecodeBytes_cons (by decide), if_pos rfl]
  | @escaped _ hi lo hhi hlo =>
    obtain ⟨hhiAscii, hhiDigit, -⟩ := hexDigit_of_mem (by have := b.toNat_lt; omega) hhi
    obtain ⟨hloAscii, hloDigit, -⟩ := hexDigit_of_mem (Nat.mod_lt _ (by decide)) hlo
    have hchars : encodeChars ['%', hi, lo] ++ rest =
        0x25 :: .ofNat hi.toNat :: .ofNat lo.toNat :: rest := by
      rw [encodeChars_cons, encodeChars_cons, encodeChars_cons, encodeChars_nil,
        utf8EncodeChar_of_ascii hhiAscii, utf8EncodeChar_of_ascii hloAscii]
      rfl
    rw [hchars, urlDecodeBytes, hhiDigit, hloDigit]
    dsimp only
    rw [digits_eq]

theorem urlDecodeBytes_of_encodes (h : Encodes bytes text) :
    urlDecodeBytes (encodeChars text) = bytes := by
  induction h with
  | nil => rfl
  | cons hb _ ih => rw [encodeChars_append, urlDecodeBytes_of_encodesByte hb, ih]

theorem urlDecode_of_encodes {s : String} (h : Encodes (utf8 s) text) :
    urlDecode (String.ofList text) = s := by
  rw [urlDecode, utf8, String.toList_ofList, urlDecodeBytes_of_encodes h, fromUtf8Lossy_utf8]

theorem separators_not_mem (h : Encodes bytes text) : '&' ∉ text ∧ '=' ∉ text := by
  induction h with
  | nil => simp
  | @cons b _ cs _ hb _ ih =>
    have hcs : '&' ∉ cs ∧ '=' ∉ cs := by
      cases hb with
      | plain c _ hfree =>
        simp only [reserved, List.mem_cons, List.not_mem_nil, or_false, not_or] at hfree
        simp [Ne.symm hfree.2.1, Ne.symm hfree.2.2.1]
      | plus => decide
      | escaped hhi hlo =>
        obtain ⟨-, -, hhi⟩ := hexDigit_of_mem (by have := b.toNat_lt; omega) hhi
        obtain ⟨-, -, hlo⟩ := hexDigit_of_mem (Nat.mod_lt _ (by decide)) hlo
        simp [hhi.1.symm, hhi.2.symm, hlo.1.symm, hlo.2.symm]
    simp [hcs, ih]

theorem Encodes.ne_nil (h : Encodes bytes text) (hne : bytes ≠ []) : text ≠ [] := by
  cases h with
  | nil => exact absurd rfl hne
  | cons hb _ => cases hb <;> simp

/-! ## pairs -/

theorem utf8_ne_nil {s : String} (h : s ≠ "") : utf8 s ≠ [] := by
  intro hnil
  have hs := fromUtf8Lossy_utf8 s
  rw [hnil, fromUtf8Lossy, lossyChars_nil] at hs
  exact h hs.symm

/-- A pair that was encoded is cut at its equals sign. -/
theorem parsePair_of_encodesPair {pair : String × String} (h : EncodesPair pair text)
    (hkey : pair.1 ≠ "") :
    (let (k, v) := (splitOnce (String.ofList text) '=').getD (String.ofList text, "")
     if k.isEmpty then none else some (urlDecode k, urlDecode v)) = some pair := by
  obtain ⟨key, value, hk, hv, rfl⟩ := h
  have hne : key ≠ [] := hk.ne_nil (utf8_ne_nil hkey)
  have hcut : splitOnce (String.ofList (key ++ '=' :: value)) '=' =
      some (String.ofList key, String.ofList value) := by
    rw [splitOnce_eq, String.toList_ofList, cutOnce_append (separators_not_mem hk).2]
    rfl
  rw [hcut]
  simp [hne, urlDecode_of_encodes hk, urlDecode_of_encodes hv]

theorem plain_of_encodesPair {pair : String × String} (h : EncodesPair pair text) :
    '&' ∉ text ∧ text ≠ [] := by
  obtain ⟨key, value, hk, hv, rfl⟩ := h
  simp [(separators_not_mem hk).1, (separators_not_mem hv).1]

section Parts

variable {pairs : List (String × String)} {parts : List (List Char)}

theorem plain_of_encodesPairs (h : List.Forall₂ EncodesPair pairs parts) :
    ∀ part ∈ parts, '&' ∉ part ∧ part ≠ [] := by
  induction h with
  | nil => exact List.forall_mem_nil _
  | cons hpart _ ih => exact List.forall_mem_cons.2 ⟨plain_of_encodesPair hpart, ih⟩

theorem parsePairs_of_encodesPairs (h : List.Forall₂ EncodesPair pairs parts)
    (hkeys : ∀ pair ∈ pairs, pair.1 ≠ "") :
    (parts.map String.ofList).filterMap (fun pair =>
      let (k, v) := (splitOnce pair '=').getD (pair, "")
      if k.isEmpty then none else some (urlDecode k, urlDecode v)) = pairs := by
  induction h with
  | nil => rfl
  | cons hpart _ ih =>
    obtain ⟨hkey, hkeys⟩ := List.forall_mem_cons.1 hkeys
    rw [List.map_cons, List.filterMap_cons, parsePair_of_encodesPair hpart hkey]
    dsimp only
    rw [ih hkeys]

end Parts

/-- For every list of pairs whose keys are not empty, and every way to encode them. -/
theorem parseUrlencoded_of_encodesForm (pairs : List (String × String))
    (hkeys : ∀ pair ∈ pairs, pair.1 ≠ "") (text : String) (h : EncodesForm pairs text) :
    parseUrlencoded text = pairs := by
  obtain ⟨parts, hparts, rfl⟩ := h
  have hfree := plain_of_encodesPairs hparts
  have hparsed := parsePairs_of_encodesPairs hparts hkeys
  cases parts with
  | nil => exact hparsed
  | cons part parts =>
    have hsplit : (['&'].intercalate (part :: parts)).splitOn '&' = part :: parts :=
      List.splitOn_intercalate _ (fun part hpart => (hfree part hpart).1) (List.cons_ne_nil _ _)
    have hne : ['&'].intercalate (part :: parts) ≠ [] := by
      intro hnil
      rw [hnil, List.splitOn_nil] at hsplit
      exact (hfree part List.mem_cons_self).2 (List.cons.inj hsplit).1.symm
    rw [parseUrlencoded, if_neg (by simpa using hne), split, String.toList_ofList, hsplit, hparsed]

/-- A form with equals signs in a value, a space, and digits of both cases. -/
theorem parseUrlencoded_of_encodesForm_query :
    parseUrlencoded "a+b=%3d%3D&c=" = [("a b", "=="), ("c", "")] := by
  have hkey : Encodes (utf8 "a b") "a+b".toList :=
    .cons (.plain 'a' (by decide) (by decide)) (.cons .plus
      (.cons (.plain 'b' (by decide) (by decide)) .nil))
  have hvalue : Encodes (utf8 "==") "%3d%3D".toList :=
    .cons (.escaped (by decide) (by decide)) (.cons (.escaped (by decide) (by decide)) .nil)
  have hlast : Encodes (utf8 "c") "c".toList := .cons (.plain 'c' (by decide) (by decide)) .nil
  exact parseUrlencoded_of_encodesForm [("a b", "=="), ("c", "")] (by decide) _
    ⟨["a+b=%3d%3D".toList, "c=".toList],
      .cons ⟨_, _, hkey, hvalue, rfl⟩ (.cons ⟨_, _, hlast, .nil, rfl⟩ .nil), rfl⟩

end Turbine.Http
