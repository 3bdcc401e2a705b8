/-!
# Turbine.Base.Str

The operations of Rust's `str` that the server's header and text handling uses,
on Lean strings.  `Char.toLower` changes ASCII letters only, as
`to_ascii_lowercase` does.
-/

namespace Turbine.Base

/-- `char::is_whitespace`: Unicode's `White_Space`. -/
def isWhitespace (c : Char) : Bool :=
  let n := c.toNat
  (9 ≤ n && n ≤ 13) || n == 0x20 || n == 0x85 || n == 0xA0 || n == 0x1680 ||
    (0x2000 ≤ n && n ≤ 0x200A) || n == 0x2028 || n == 0x2029 || n == 0x202F || n == 0x205F ||
    n == 0x3000

/-- `str::trim_start`. -/
def trimStart (s : String) : String := String.ofList (s.toList.dropWhile isWhitespace)

/-- `str::trim_end`. -/
def trimEnd (s : String) : String := String.ofList (s.toList.reverse.dropWhile isWhitespace).reverse

/-- `str::trim`. -/
def trim (s : String) : String := trimEnd (trimStart s)

/-- `str::to_ascii_lowercase`. -/
def toAsciiLowercase (s : String) : String := String.ofList (s.toList.map Char.toLower)

/-- `str::eq_ignore_ascii_case`. -/
def eqIgnoreAsciiCase (s t : String) : Bool := toAsciiLowercase s == toAsciiLowercase t

/-- `str::starts_with`. -/
def startsWith (s front : String) : Bool := front.toList.isPrefixOf s.toList

/-- `str::ends_with`. -/
def endsWith (s back : String) : Bool := back.toList.isSuffixOf s.toList

/-- Some stretch of the list is `sub`. -/
def occursIn {α : Type} [BEq α] (sub : List α) : List α → Bool
  | [] => sub.isEmpty
  | a :: l => sub.isPrefixOf (a :: l) || occursIn sub l

/-- `str::contains`, of a text. -/
def containsStr (s sub : String) : Bool := occursIn sub.toList s.toList

/-- `str::trim_start_matches`, of a character. -/
def trimStartMatches (s : String) (c : Char) : String := String.ofList (s.toList.dropWhile (· == c))

/-- `str::trim_end_matches`, of a character. -/
def trimEndMatches (s : String) (c : Char) : String :=
  String.ofList (s.toList.reverse.dropWhile (· == c)).reverse

/-- `str::split`, at a character. -/
def split (s : String) (sep : Char) : List String := (s.toList.splitOn sep).map String.ofList

/-- `str::replace`, of a character. -/
def replaceChar (s : String) (c : Char) (by_ : String) : String :=
  String.ofList (s.toList.flatMap fun x => if x = c then by_.toList else [x])

/-- `str::split_once`, at a character. -/
def splitOnce (s : String) (sep : Char) : Option (String × String) :=
  match s.toList.span (· != sep) with
  | (_, []) => none
  | (front, _ :: back) => some (String.ofList front, String.ofList back)

/-- `str::split_whitespace`: the maximal runs without whitespace. -/
def splitWhitespace (s : String) : List String :=
  let word := fun (c : Char) (words : List (List Char)) =>
    if isWhitespace c then [] :: words
    else match words with
      | [] => [[c]]
      | w :: words => (c :: w) :: words
  ((s.toList.foldr word []).filter (· ≠ [])).map String.ofList

/-- `str::parse::<u16>`: digits, after an optional plus sign. -/
def parseU16 (s : String) : Option UInt16 :=
  let digits := match s.toList with
    | '+' :: c :: cs => c :: cs
    | cs => cs
  if digits.isEmpty || !digits.all Char.isDigit then none
  else
    let n := digits.foldl (fun n c => 10 * n + (c.toNat - '0'.toNat)) 0
    if n < 65536 then some (.ofNat n) else none

/-- `str::parse::<usize>`: digits, after an optional plus sign. -/
def parseUsize (s : String) : Option Nat :=
  let digits := match s.toList with
    | '+' :: c :: cs => c :: cs
    | cs => cs
  if digits.isEmpty || !digits.all Char.isDigit then none
  else
    let n := digits.foldl (fun n c => 10 * n + (c.toNat - '0'.toNat)) 0
    if n < 18446744073709551616 then some n else none

/-- `str::to_ascii_uppercase`. -/
def toAsciiUppercase (s : String) : String := String.ofList (s.toList.map Char.toUpper)

/-- `str::strip_prefix`. -/
def stripPrefix (s front : String) : Option String :=
  (front.toList.isPrefixOf? s.toList).map String.ofList

/-- Trimming, on the characters of a text. -/
def trimChars (cs : List Char) : List Char :=
  ((cs.dropWhile isWhitespace).reverse.dropWhile isWhitespace).reverse

theorem trim_eq (s : String) : trim s = String.ofList (trimChars s.toList) := by
  simp only [trim, trimEnd, trimStart, String.toList_ofList, trimChars]

/-- Nothing is trimmed from a text with no whitespace at its ends. -/
theorem trimChars_eq {c d : Char} (hc : isWhitespace c = false) (hd : isWhitespace d = false)
    (cs : List Char) : trimChars (c :: (cs ++ [d])) = c :: (cs ++ [d]) := by
  simp [trimChars, hc, hd]

/-- A list is cut at the first separator in one way only. -/
theorem append_cons_inj {α : Type} {sep : α} {front front' back back' : List α}
    (h : sep ∉ front) (h' : sep ∉ front')
    (heq : front ++ sep :: back = front' ++ sep :: back') : front = front' ∧ back = back' := by
  induction front generalizing front' with
  | nil =>
    cases front' with
    | nil => exact ⟨rfl, (List.cons.inj heq).2⟩
    | cons a front' => exact absurd List.mem_cons_self ((List.cons.inj heq).1 ▸ h')
  | cons a front ih =>
    cases front' with
    | nil => exact absurd List.mem_cons_self ((List.cons.inj heq).1 ▸ h)
    | cons a' front' =>
      obtain ⟨rfl, htail⟩ := List.cons.inj heq
      obtain ⟨rfl, hback⟩ := ih (fun hm => h (List.mem_cons_of_mem _ hm))
        (fun hm => h' (List.mem_cons_of_mem _ hm)) htail
      exact ⟨rfl, hback⟩

end Turbine.Base
