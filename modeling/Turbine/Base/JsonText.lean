import Mathlib.Data.List.Forall2
import Mathlib.Data.List.TakeWhile

/-!
# Turbine.Base.JsonText

JSON texts (RFC 8259), read in two steps: a lexer that goes over the characters and
decodes the strings, and the grammar of the tokens, which is given by the tokens of every
value.

* `Denotes`: the text is a JSON document with this value;
* `denotes_unique`: a text has one value at most;
* `reads_string`, `reads_number`: strings of characters that stand for themselves, and the
  numbers that are printed without an exponent.
-/

namespace Turbine.Base.JsonText

/-! ## strings -/

/-- A part of a string: a character, or a unit of UTF-16 that was escaped. -/
inductive Part
  | char (c : Char)
  | unit (n : Nat)
deriving DecidableEq, Repr

def isHigh (n : Nat) : Bool := 0xD800 ≤ n && n < 0xDC00

def isLow (n : Nat) : Bool := 0xDC00 ≤ n && n < 0xE000

/-- A surrogate that has no partner. -/
def lone : Option Nat → List Char
  | none => []
  | some _ => ['�']

/-- A low surrogate with its partner, if it has one. -/
def paired (low : Nat) : Option Nat → Char
  | none => '�'
  | some high => Char.ofNat (0x10000 + (high - 0xD800) * 0x400 + (low - 0xDC00))

/-- The characters of a string.  `high` is a surrogate that waits for its partner. -/
def decode (high : Option Nat) : List Part → List Char
  | [] => lone high
  | .char c :: parts => lone high ++ c :: decode none parts
  | .unit n :: parts =>
    if isHigh n then lone high ++ decode (some n) parts
    else if isLow n then paired n high :: decode none parts
    else lone high ++ Char.ofNat n :: decode none parts

/-- The character behind a backslash. -/
def escaped (c : Char) : Option Char :=
  if c = '"' ∨ c = '\\' ∨ c = '/' then some c
  else if c = 'b' then some '\x08'
  else if c = 'f' then some '\x0c'
  else if c = 'n' then some '\n'
  else if c = 'r' then some '\r'
  else if c = 't' then some '\t'
  else none

def hexValue (c : Char) : Option Nat :=
  if c.isDigit then some (c.toNat - 48)
  else if 'a' ≤ c ∧ c ≤ 'f' then some (c.toNat - 87)
  else if 'A' ≤ c ∧ c ≤ 'F' then some (c.toNat - 55)
  else none

/-! ## numbers -/

/-- A digit at least, and then what `rest` allows. -/
def digitsThen (rest : List Char → Bool) : List Char → Bool
  | [] => false
  | c :: cs => c.isDigit && rest (cs.dropWhile Char.isDigit)

def isExponent : List Char → Bool
  | [] => true
  | c :: cs =>
    let signed := cs.head? = some '+' ∨ cs.head? = some '-'
    (c = 'e' || c = 'E') && digitsThen List.isEmpty (if signed then cs.tail else cs)

def isFraction : List Char → Bool
  | [] => true
  | c :: cs => if c = '.' then digitsThen isExponent cs else isExponent (c :: cs)

/-- No zero stands in front of other digits. -/
def isUnsigned : List Char → Bool
  | [] => false
  | c :: cs => if c = '0' then isFraction cs else digitsThen isFraction (c :: cs)

def isNumber : List Char → Bool
  | [] => false
  | c :: cs => if c = '-' then isUnsigned cs else isUnsigned (c :: cs)

/-! ## tokens -/

inductive Token
  | lbrace
  | rbrace
  | lbracket
  | rbracket
  | colon
  | comma
  | null
  | bool (b : Bool)
  | num (text : List Char)
  | str (text : List Char)
deriving DecidableEq, Repr

/-- Where in the text the lexer is. -/
inductive Mode
  | outside
  | word (text : List Char)
  | string (parts : List Part)
  | escape (parts : List Part)
  | unicode (parts : List Part) (digits : List Nat)
deriving DecidableEq, Repr

def isBlank (c : Char) : Bool := c = ' ' || c = '\t' || c = '\n' || c = '\r'

def mark (c : Char) : Option Token :=
  if c = '\x7b' then some .lbrace
  else if c = '\x7d' then some .rbrace
  else if c = '[' then some .lbracket
  else if c = ']' then some .rbracket
  else if c = ':' then some .colon
  else if c = ',' then some .comma
  else none

/-- A character of a number or of a literal name. -/
def isWordChar (c : Char) : Bool := c ≠ '"' && !isBlank c && (mark c).isNone

/-- What a word is. -/
def classify (text : List Char) : Option Token :=
  if text = ['n', 'u', 'l', 'l'] then some .null
  else if text = ['t', 'r', 'u', 'e'] then some (.bool true)
  else if text = ['f', 'a', 'l', 's', 'e'] then some (.bool false)
  else if isNumber text then some (.num text)
  else none

/-- Tokens, and the mode behind them. -/
abbrev Result := Mode × List Token

def Result.behind (tokens : List Token) (r : Result) : Result := (r.1, tokens ++ r.2)

def stepOutside (c : Char) : Result :=
  if c = '"' then (.string [], [])
  else if isBlank c then (.outside, [])
  else match mark c with
    | some token => (.outside, [token])
    | none => (.word [c], [])

def step (mode : Mode) (c : Char) : Option Result :=
  match mode with
  | .outside => some (stepOutside c)
  | .word text =>
    if isWordChar c then some (.word (text ++ [c]), [])
    else (classify text).map fun token => (stepOutside c).behind [token]
  | .string parts =>
    if c = '"' then some (.outside, [.str (decode none parts)])
    else if c = '\\' then some (.escape parts, [])
    else if c.toNat < 0x20 then none
    else some (.string (parts ++ [.char c]), [])
  | .escape parts =>
    if c = 'u' then some (.unicode parts [], [])
    else (escaped c).map fun d => (.string (parts ++ [.char d]), [])
  | .unicode parts digits =>
    (hexValue c).map fun d =>
      if digits.length = 3 then
        (.string (parts ++ [.unit ((digits ++ [d]).foldl (fun n d => 16 * n + d) 0)]), [])
      else (.unicode parts (digits ++ [d]), [])

def run (mode : Mode) : List Char → Option Result
  | [] => some (mode, [])
  | c :: cs => (step mode c).bind fun r => (run r.1 cs).map (Result.behind r.2)

/-- At the end of the text. -/
def finish : Mode → Option (List Token)
  | .outside => some []
  | .word text => (classify text).map ([·])
  | _ => none

def lex (cs : List Char) : Option (List Token) :=
  (run .outside cs).bind fun r => (finish r.1).map (r.2 ++ ·)

/-! ## values -/

inductive Value
  | null
  | bool (b : Bool)
  | num (text : List Char)
  | str (text : List Char)
  | arr (values : List Value)
  | obj (members : List (List Char × Value))

namespace Value

mutual

/-- The tokens of a value. -/
def tokens : Value → List Token
  | .null => [.null]
  | .bool b => [.bool b]
  | .num text => [.num text]
  | .str text => [.str text]
  | .arr values => .lbracket :: (elementTokens true values ++ [.rbracket])
  | .obj members => .lbrace :: (memberTokens true members ++ [.rbrace])

/-- The elements of an array, with a comma in front of each but the first. -/
def elementTokens (first : Bool) : List Value → List Token
  | [] => []
  | v :: vs => (if first then [] else [.comma]) ++ (v.tokens ++ elementTokens false vs)

/-- The members of an object, with a comma in front of each but the first. -/
def memberTokens (first : Bool) : List (List Char × Value) → List Token
  | [] => []
  | (key, v) :: ms =>
    (if first then [] else [.comma]) ++
      (.str key :: .colon :: (v.tokens ++ memberTokens false ms))

end

theorem memberTokens_append (first : Bool) (ms ns : List (List Char × Value)) :
    memberTokens first (ms ++ ns) =
      memberTokens first ms ++ memberTokens (first && ms.isEmpty) ns := by
  induction ms generalizing first with
  | nil => simp [memberTokens]
  | cons member ms ih => simp [memberTokens, ih]

/-- The values of a key. -/
def valuesOf (key : List Char) : Value → List Value
  | .obj members => (members.filter (·.1 = key)).map Prod.snd
  | _ => []

end Value

/-- The text is a JSON document that has this value. -/
def Denotes (text : String) (v : Value) : Prop := lex text.toList = some v.tokens

/-! ## reading -/

variable {m m' : Mode} {c : Char} {cs ds : List Char} {ts us : List Token} {r : Result}

@[simp] theorem Result.behind_nil : r.behind [] = r := rfl

@[simp] theorem Result.behind_mk : Result.behind ts (m, us) = (m, ts ++ us) := rfl

theorem run_append : run m (cs ++ ds) =
    (run m cs).bind fun r => (run r.1 ds).map (Result.behind r.2) := by
  induction cs generalizing m with
  | nil =>
    rw [List.nil_append, run, Option.bind_some]
    cases run m ds <;> rfl
  | cons c cs ih =>
    rw [List.cons_append, run, run]
    cases step m c with
    | none => rfl
    | some r =>
      simp only [Option.bind_some, ih]
      cases run r.1 cs with
      | none => rfl
      | some q =>
        simp only [Option.bind_some, Option.map_some, Result.behind]
        cases run q.1 ds <;> simp [Result.behind]

theorem run_cons_of_step (h : step m c = some (m', ts)) :
    run m (c :: cs) = (run m' cs).map (Result.behind ts) := by
  rw [run, h, Option.bind_some]

theorem run_cons_eq_some : run m (c :: cs) = some r ↔
    ∃ m' ts q, step m c = some (m', ts) ∧ run m' cs = some q ∧ r = q.behind ts := by
  rw [run, Option.bind_eq_some_iff]
  constructor
  · rintro ⟨⟨m', ts⟩, hstep, hmap⟩
    obtain ⟨q, hq, rfl⟩ := Option.map_eq_some_iff.1 hmap
    exact ⟨m', ts, q, hstep, hq, rfl⟩
  · rintro ⟨m', ts, q, hstep, hq, rfl⟩
    exact ⟨(m', ts), hstep, by rw [hq, Option.map_some]⟩

/-- The parts of a run over two stretches. -/
theorem run_append_eq_some : run m (cs ++ ds) = some r ↔
    ∃ m' ts q, run m cs = some (m', ts) ∧ run m' ds = some q ∧ r = q.behind ts := by
  rw [run_append, Option.bind_eq_some_iff]
  constructor
  · rintro ⟨⟨m', ts⟩, hrun, hmap⟩
    obtain ⟨q, hq, rfl⟩ := Option.map_eq_some_iff.1 hmap
    exact ⟨m', ts, q, hrun, hq, rfl⟩
  · rintro ⟨m', ts, q, hrun, hq, rfl⟩
    exact ⟨(m', ts), hrun, by rw [hq, Option.map_some]⟩

/-- Outside of strings and words, before and behind. -/
def Reads (cs : List Char) (ts : List Token) : Prop := run .outside cs = some (.outside, ts)

instance : Decidable (Reads cs ts) := inferInstanceAs (Decidable (_ = _))

theorem reads_nil : Reads [] [] := rfl

theorem Reads.append (h : Reads cs ts) (h' : Reads ds us) : Reads (cs ++ ds) (ts ++ us) := by
  rw [Reads, run_append, h, Option.bind_some, h', Option.map_some, Result.behind_mk]

theorem Reads.lex (h : Reads cs ts) : lex cs = some ts := by
  rw [JsonText.lex, h, Option.bind_some, finish, Option.map_some, List.append_nil]

theorem reads_blank (h : cs.all isBlank = true) : Reads cs [] := by
  induction cs with
  | nil => exact reads_nil
  | cons c cs ih =>
    rw [List.all_cons, Bool.and_eq_true] at h
    have hquote : c ≠ '"' := by
      rintro rfl
      exact absurd h.1 (by decide)
    have hstep : step .outside c = some (.outside, []) := by
      rw [step, stepOutside, if_neg hquote, if_pos h.1]
    rw [Reads, run_cons_of_step hstep, ih h.2, Option.map_some, Result.behind_nil]

/-! ### words -/

theorem run_word {text : List Char} (h : ∀ c ∈ cs, isWordChar c = true) :
    run (.word text) cs = some (.word (text ++ cs), []) := by
  induction cs generalizing text with
  | nil => rw [run, List.append_nil]
  | cons c cs ih =>
    obtain ⟨hc, hcs⟩ := List.forall_mem_cons.1 h
    have hstep : step (.word text) c = some (.word (text ++ [c]), []) := by rw [step, if_pos hc]
    rw [run_cons_of_step hstep, ih hcs, List.append_assoc, List.singleton_append,
      Option.map_some, Result.behind_nil]

theorem stepOutside_word (h : isWordChar c = true) : stepOutside c = (.word [c], []) := by
  simp only [isWordChar, Bool.and_eq_true, Bool.not_eq_true', decide_eq_true_eq,
    Option.isNone_iff_eq_none] at h
  obtain ⟨⟨hquote, hblank⟩, hmark⟩ := h
  rw [stepOutside, if_neg hquote, if_neg (by simp [hblank]), hmark]

/-- The text of a number. -/
structure Numeral (text : List Char) : Prop where
  ne : text ≠ []
  word : ∀ c ∈ text, isWordChar c = true
  number : classify text = some (.num text)

/-- A number in front of a character that is in no word. -/
theorem reads_number {text : List Char} (hnum : Numeral text) (hc : isWordChar c = false)
    (h : Reads (c :: cs) ts) : Reads (text ++ c :: cs) (.num text :: ts) := by
  cases text with
  | nil => exact absurd rfl hnum.ne
  | cons d text =>
    obtain ⟨hd, htext⟩ := List.forall_mem_cons.1 hnum.word
    have hopen : step .outside d = some (.word [d], []) := by rw [step, stepOutside_word hd]
    have hclose : step (.word (d :: text)) c =
        some ((stepOutside c).behind [.num (d :: text)]) := by
      rw [step, if_neg (by simp [hc]), hnum.number, Option.map_some]
    have hrest : run .outside (c :: cs) = (run (stepOutside c).1 cs).map
        (Result.behind (stepOutside c).2) := run_cons_of_step rfl
    rw [Reads, hrest, Option.map_eq_some_iff] at h
    obtain ⟨q, hq, hts⟩ := h
    rw [Reads, List.cons_append, run_cons_of_step hopen, run_append, run_word htext,
      Option.bind_some, List.singleton_append]
    simp only [run, hclose, Option.bind_some, Result.behind, hq, Option.map_some]
    rw [Result.behind, Prod.mk.injEq] at hts
    simp [hts.1, ← hts.2]

theorem ne_of_isDigit (h : c.isDigit = true) {d : Char} (hd : d.isDigit = false) : c ≠ d := by
  rintro rfl
  exact Bool.noConfusion (h.symm.trans hd)

theorem isWordChar_of_isDigit (h : c.isDigit = true) : isWordChar c = true := by
  have hne : ∀ {d : Char}, d.isDigit = false → c ≠ d := ne_of_isDigit h
  simp [isWordChar, isBlank, mark, hne (d := '"') rfl, hne (d := ' ') rfl, hne (d := '\t') rfl,
    hne (d := '\n') rfl, hne (d := '\r') rfl, hne (d := '\x7b') rfl, hne (d := '\x7d') rfl,
    hne (d := '[') rfl, hne (d := ']') rfl, hne (d := ':') rfl, hne (d := ',') rfl]

theorem classify_of_isDigit (hc : c.isDigit = true) (h : isNumber (c :: cs) = true) :
    classify (c :: cs) = some (.num (c :: cs)) := by
  have hne : ∀ {d : Char}, d.isDigit = false → c ≠ d := ne_of_isDigit hc
  simp [classify, h, hne (d := 'n') rfl, hne (d := 't') rfl, hne (d := 'f') rfl]

/-- The digits of a natural number do not begin with a zero, unless it is zero. -/
theorem toDigits_head (n : Nat) (hn : n ≠ 0) : ∃ c cs, Nat.toDigits 10 n = c :: cs ∧ c ≠ '0' := by
  induction n using Nat.strongRecOn with
  | _ n ih =>
    by_cases hlt : n < 10
    · refine ⟨Nat.digitChar n, [], Nat.toDigits_of_lt_base hlt, ?_⟩
      have hdigits : ∀ m < 10, m ≠ 0 → Nat.digitChar m ≠ '0' := by decide
      exact hdigits n hlt hn
    · obtain ⟨c, cs, hhead, hc⟩ := ih (n / 10) (by omega) (by omega)
      refine ⟨c, cs ++ [Nat.digitChar (n % 10)], ?_, hc⟩
      rw [Nat.toDigits_of_base_le (by decide) (by omega), hhead, List.cons_append]

theorem isNumber_toDigits (n : Nat) (hrest : isFraction cs = true)
    (hhead : ∀ c ∈ cs.head?, c.isDigit = false) : isNumber (Nat.toDigits 10 n ++ cs) = true := by
  have hdigits : ∀ d ∈ Nat.toDigits 10 n, d.isDigit = true := fun d hd =>
    Nat.isDigit_of_mem_toDigits (by decide) (by decide) hd
  have hdrop : cs.dropWhile Char.isDigit = cs := by
    cases cs with
    | nil => rfl
    | cons c cs => rw [List.dropWhile_cons_of_neg (by simp [hhead c rfl])]
  by_cases hn : n = 0
  · subst hn
    rw [Nat.toDigits_zero]
    simp [isNumber, isUnsigned, hrest]
  · obtain ⟨d, ds, hds, hzero⟩ := toDigits_head n hn
    rw [hds] at hdigits ⊢
    obtain ⟨hd, hmore⟩ := List.forall_mem_cons.1 hdigits
    rw [List.cons_append, isNumber, if_neg (ne_of_isDigit hd rfl), isUnsigned, if_neg hzero,
      digitsThen, hd, List.dropWhile_append_of_pos hmore, hdrop, hrest]
    rfl

theorem numeral_of_digits (n : Nat) {cs : List Char} (hrest : isFraction cs = true)
    (hhead : ∀ c ∈ cs.head?, c.isDigit = false) (hword : ∀ c ∈ cs, isWordChar c = true) :
    Numeral (Nat.toDigits 10 n ++ cs) where
  ne := by simp [Nat.toDigits_ne_nil]
  word := by
    rw [List.forall_mem_append]
    exact ⟨fun d hd =>
      isWordChar_of_isDigit (Nat.isDigit_of_mem_toDigits (by decide) (by decide) hd), hword⟩
  number := by
    have hnumber := isNumber_toDigits n hrest hhead
    obtain ⟨d, ds, hds⟩ := List.exists_cons_of_ne_nil (Nat.toDigits_ne_nil (n := n) (b := 10))
    have hd : d.isDigit = true :=
      Nat.isDigit_of_mem_toDigits (by decide) (by decide) (hds ▸ List.mem_cons_self)
    rw [hds] at hnumber ⊢
    exact classify_of_isDigit hd hnumber

theorem numeral_toString (n : Nat) : Numeral (toString n).toList := by
  have hnone : isFraction [] = true := rfl
  have hnum := numeral_of_digits n hnone (by simp) (by simp)
  rwa [List.append_nil, ← Nat.toList_repr, ← Nat.toString_eq_repr] at hnum

theorem toString_toList_inj {n k : Nat} (h : (toString n).toList = (toString k).toList) :
    n = k := by
  rw [Nat.toString_eq_repr, Nat.toString_eq_repr, Nat.toList_repr, Nat.toList_repr] at h
  have hvalue := congrArg (fun digits => Nat.ofDigitChars 10 digits 0) h
  simpa [Nat.ofDigitChars_ten_toDigits] using hvalue

/-- A number with digits behind a point. -/
theorem numeral_fraction (n : Nat) {digits : List Char} (hne : digits ≠ [])
    (hdigits : ∀ c ∈ digits, c.isDigit = true) :
    Numeral ((toString n).toList ++ '.' :: digits) := by
  rw [Nat.toString_eq_repr, Nat.toList_repr]
  refine numeral_of_digits n ?_ (by simp) ?_
  · obtain ⟨d, ds, rfl⟩ := List.exists_cons_of_ne_nil hne
    obtain ⟨hd, hds⟩ := List.forall_mem_cons.1 hdigits
    rw [isFraction, if_pos rfl, digitsThen, hd, List.dropWhile_eq_nil_iff.2 hds]
    rfl
  · rw [List.forall_mem_cons]
    exact ⟨by decide, fun c hc => isWordChar_of_isDigit (hdigits c hc)⟩

/-! ### strings -/

/-- A character that stands for itself in a string. -/
def Bare (c : Char) : Prop := c ≠ '"' ∧ c ≠ '\\' ∧ 0x20 ≤ c.toNat

instance : Decidable (Bare c) := inferInstanceAs (Decidable (_ ∧ _ ∧ _))

theorem decode_char : decode none (cs.map Part.char) = cs := by
  induction cs with
  | nil => rfl
  | cons c cs ih => rw [List.map_cons, decode, ih, lone, List.nil_append]

theorem run_bare {parts : List Part} (h : ∀ c ∈ cs, Bare c) :
    run (.string parts) cs = some (.string (parts ++ cs.map Part.char), []) := by
  induction cs generalizing parts with
  | nil => rw [run, List.map_nil, List.append_nil]
  | cons c cs ih =>
    obtain ⟨⟨hquote, hbackslash, hcontrol⟩, hcs⟩ := List.forall_mem_cons.1 h
    have hstep : step (.string parts) c = some (.string (parts ++ [.char c]), []) := by
      rw [step, if_neg hquote, if_neg hbackslash, if_neg (by omega)]
    rw [run_cons_of_step hstep, ih hcs, List.map_cons, List.append_assoc, List.singleton_append,
      Option.map_some, Result.behind_nil]

theorem reads_string (h : ∀ c ∈ cs, Bare c) : Reads ('"' :: (cs ++ ['"'])) [.str cs] := by
  have hopen : step .outside '"' = some (.string [], []) := rfl
  have hclose : run (.string (cs.map Part.char)) ['"'] = some (.outside, [.str cs]) := by
    rw [run, step, if_pos rfl, decode_char]
    rfl
  rw [Reads, run_cons_of_step hopen, run_append, run_bare h, Option.bind_some, List.nil_append,
    hclose]
  rfl

/-! ### texts in pieces -/

/-- A piece of a text that is read on its own. -/
def Prints (s : String) (ts : List Token) : Prop := Reads s.toList ts

instance {s : String} : Decidable (Prints s ts) := inferInstanceAs (Decidable (Reads _ _))

theorem prints_join {pieces : List String} {tokens : List (List Token)}
    (h : List.Forall₂ Prints pieces tokens) : Prints (String.join pieces) tokens.flatten := by
  induction h with
  | nil => exact reads_nil
  | cons hpiece _ ih =>
    rw [Prints, String.join_cons, String.toList_append, List.flatten_cons]
    exact hpiece.append ih

theorem prints_append {s t : String} (h : Prints s ts) (h' : Prints t us) :
    Prints (s ++ t) (ts ++ us) := by
  rw [Prints, String.toList_append]
  exact h.append h'

/-! ## one value -/

/-- The tokens that begin no value. -/
def Closing (t : Token) : Prop := t = .rbracket ∨ t = .rbrace ∨ t = .comma ∨ t = .colon

theorem Value.tokens_head (v : Value) : ∃ t ts, v.tokens = t :: ts ∧ ¬ Closing t := by
  cases v <;> exact ⟨_, _, rfl, by simp [Closing]⟩

namespace Value

mutual

theorem tokens_inj : ∀ (v w : Value) {ts us : List Token},
    v.tokens ++ ts = w.tokens ++ us → v = w ∧ ts = us
  | .null, w, ts, us, h => by cases w <;> simp_all [tokens]
  | .bool b, w, ts, us, h => by cases w <;> simp_all [tokens]
  | .num text, w, ts, us, h => by cases w <;> simp_all [tokens]
  | .str text, w, ts, us, h => by cases w <;> simp_all [tokens]
  | .arr values, w, ts, us, h => by
    cases w with
    | arr values' =>
      simp only [tokens, List.cons_append, List.append_assoc, List.cons.injEq, true_and] at h
      obtain ⟨rfl, hrest⟩ := elementTokens_inj true values values' h
      exact ⟨rfl, by simpa using hrest⟩
    | _ => simp [tokens] at h
  | .obj members, w, ts, us, h => by
    cases w with
    | obj members' =>
      simp only [tokens, List.cons_append, List.append_assoc, List.cons.injEq, true_and] at h
      obtain ⟨rfl, hrest⟩ := memberTokens_inj true members members' h
      exact ⟨rfl, by simpa using hrest⟩
    | _ => simp [tokens] at h

theorem elementTokens_inj : ∀ (first : Bool) (vs ws : List Value) {ts us : List Token},
    elementTokens first vs ++ (.rbracket :: ts) = elementTokens first ws ++ (.rbracket :: us) →
      vs = ws ∧ ts = us
  | _, [], [], ts, us, h => by simpa [elementTokens] using h
  | first, [], w :: ws, ts, us, h => by
    obtain ⟨t, rest, hw, ht⟩ := w.tokens_head
    cases first <;> simp_all [elementTokens, Closing]
  | first, v :: vs, [], ts, us, h => by
    obtain ⟨t, rest, hv, ht⟩ := v.tokens_head
    cases first <;> simp_all [elementTokens, Closing]
  | first, v :: vs, w :: ws, ts, us, h => by
    simp only [elementTokens, List.append_assoc, List.append_cancel_left_eq] at h
    obtain ⟨rfl, hrest⟩ := tokens_inj v w h
    obtain ⟨rfl, hlast⟩ := elementTokens_inj false vs ws hrest
    exact ⟨rfl, hlast⟩

theorem memberTokens_inj : ∀ (first : Bool) (ms ns : List (List Char × Value)) {ts us : List Token},
    memberTokens first ms ++ (.rbrace :: ts) = memberTokens first ns ++ (.rbrace :: us) →
      ms = ns ∧ ts = us
  | _, [], [], ts, us, h => by simpa [memberTokens] using h
  | first, [], (key, w) :: ns, ts, us, h => by cases first <;> simp [memberTokens] at h
  | first, (key, v) :: ms, [], ts, us, h => by cases first <;> simp [memberTokens] at h
  | first, (key, v) :: ms, (key', w) :: ns, ts, us, h => by
    simp only [memberTokens, List.append_assoc, List.append_cancel_left_eq, List.cons_append,
      List.cons.injEq, Token.str.injEq, true_and] at h
    obtain ⟨rfl, h⟩ := h
    obtain ⟨rfl, hrest⟩ := tokens_inj v w h
    obtain ⟨rfl, hlast⟩ := memberTokens_inj false ms ns hrest
    exact ⟨rfl, hlast⟩

end

end Value

theorem denotes_unique {text : String} {v w : Value} (hv : Denotes text v) (hw : Denotes text w) :
    v = w := by
  have htokens : v.tokens = w.tokens := Option.some.inj (hv.symm.trans hw)
  exact (v.tokens_inj w (congrArg (· ++ []) htokens)).1

end Turbine.Base.JsonText
