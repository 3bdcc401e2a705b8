import Mathlib.Data.Nat.Digits.Lemmas
import Turbine.Base.Str
import Turbine.Base.Utf8

/-!
# Turbine.Base.Octal

Octal numbers as text, as Rust formats and reads them.

* `parseOctal_octalText`: what is formatted reads back;
* `length_utf8_octalText`: a number that fits a field fills it.
-/

namespace Turbine.Base

/-- `format!("{:0width$o}")`, for a positive width. -/
def octalText (width n : Nat) : String :=
  String.ofList (((Nat.digits 8 n).reverse.map Nat.digitChar).leftpad width '0')

def isOctal (c : Char) : Bool := '0' ≤ c && c ≤ '7'

/-- The digits behind an optional plus sign. -/
def unsigned : List Char → List Char
  | '+' :: c :: cs => c :: cs
  | cs => cs

/-- `usize::from_str_radix`, to the base of eight. -/
def parseOctal (s : String) : Option Nat :=
  let digits := unsigned s.toList
  if digits.isEmpty || !digits.all isOctal then none
  else
    let n := digits.foldl (fun n c => 8 * n + (c.toNat - '0'.toNat)) 0
    if n < 18446744073709551616 then some n else none

variable {n width d : Nat} {c : Char}

theorem isOctal_digitChar (h : d < 8) : isOctal (Nat.digitChar d) = true := by
  have hall : ∀ d < 8, isOctal (Nat.digitChar d) = true := by decide
  exact hall d h

theorem utf8Size_of_isOctal (h : isOctal c = true) : c.utf8Size = 1 := by
  have hle : c ≤ '7' := by
    rw [isOctal, Bool.and_eq_true] at h
    exact of_decide_eq_true h.2
  have hval : c.val ≤ 127 := UInt32.le_trans (Char.le_def.1 hle) (by decide)
  rw [Char.utf8Size]
  exact if_pos hval

theorem unsigned_cons {cs : List Char} (h : c ≠ '+') : unsigned (c :: cs) = c :: cs := by
  rw [unsigned]
  intro c' cs' heq
  exact h (List.cons.inj heq).1

theorem isOctal_of_mem (h : c ∈ (octalText width n).toList) : isOctal c = true := by
  rw [octalText, String.toList_ofList, List.leftpad, List.mem_append] at h
  obtain h | h := h
  · rw [List.eq_of_mem_replicate h]
    rfl
  · obtain ⟨d, hd, rfl⟩ := List.mem_map.1 h
    exact isOctal_digitChar (Nat.digits_lt_base (by decide) (List.mem_reverse.1 hd))

/-- The digits spell the number. -/
theorem foldl_digitChar {l : List Nat} (h : ∀ d ∈ l, d < 8) :
    (l.reverse.map Nat.digitChar).foldl (fun n c => 8 * n + (c.toNat - '0'.toNat)) 0 =
      Nat.ofDigits 8 l := by
  induction l with
  | nil => rfl
  | cons d l ih =>
    have hd : (Nat.digitChar d).toNat = '0'.toNat + d := by
      have hall : ∀ d < 8, (Nat.digitChar d).toNat = '0'.toNat + d := by decide
      exact hall d (h d List.mem_cons_self)
    rw [List.reverse_cons, List.map_append, List.foldl_append,
      ih fun d hd => h d (List.mem_cons_of_mem _ hd), Nat.ofDigits_cons]
    simp only [List.map_cons, List.map_nil, List.foldl_cons, List.foldl_nil, hd]
    omega

/-- Zeros in front do not count. -/
theorem foldl_zeros (k : Nat) (cs : List Char) :
    (List.replicate k '0' ++ cs).foldl (fun n c => 8 * n + (c.toNat - '0'.toNat)) 0 =
      cs.foldl (fun n c => 8 * n + (c.toNat - '0'.toNat)) 0 := by
  induction k with
  | zero => rfl
  | succ k ih => exact ih

theorem length_octalText (h : n < 8 ^ width) : (octalText width n).toList.length = width := by
  have hdigits : (Nat.digits 8 n).length ≤ width := (Nat.digits_length_le_iff (by decide) n).2 h
  rw [octalText, String.toList_ofList, List.length_leftpad, List.length_map, List.length_reverse]
  omega

theorem parseOctal_octalText (hwidth : 0 < width) (h : n < 8 ^ width)
    (hn : n < 18446744073709551616) : parseOctal (octalText width n) = some n := by
  have hchars : ∀ c ∈ (octalText width n).toList, isOctal c = true := fun c => isOctal_of_mem
  have hlen := length_octalText h
  have hvalue : (octalText width n).toList.foldl (fun n c => 8 * n + (c.toNat - '0'.toNat)) 0 =
      n := by
    rw [octalText, String.toList_ofList, List.leftpad, foldl_zeros,
      foldl_digitChar fun d hd => Nat.digits_lt_base (by decide) hd, Nat.ofDigits_digits]
  -- the text begins with a digit, so there is no sign to take off
  obtain ⟨c, cs, hcs⟩ : ∃ c cs, (octalText width n).toList = c :: cs :=
    List.exists_cons_of_length_pos (by omega)
  rw [hcs] at hchars hvalue
  have hsign : c ≠ '+' := by
    rintro rfl
    exact absurd (hchars '+' List.mem_cons_self) (by decide)
  have hall : (c :: cs).all isOctal = true := List.all_eq_true.2 hchars
  rw [parseOctal, hcs, unsigned_cons hsign]
  dsimp only
  rw [hvalue, hall, if_neg (by simp), if_pos hn]

theorem length_utf8_octalText (h : n < 8 ^ width) : (utf8 (octalText width n)).length = width := by
  have hone : ∀ cs : List Char, (∀ c ∈ cs, isOctal c = true) →
      (encodeChars cs).length = cs.length := by
    intro cs hcs
    induction cs with
    | nil => rfl
    | cons c cs ih =>
      rw [encodeChars_cons, List.length_append, String.length_utf8EncodeChar,
        utf8Size_of_isOctal (hcs c List.mem_cons_self),
        ih fun c hc => hcs c (List.mem_cons_of_mem _ hc), List.length_cons, Nat.add_comm]
  rw [utf8, hone _ fun c => isOctal_of_mem, length_octalText h]

end Turbine.Base
