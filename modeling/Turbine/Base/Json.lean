import Mathlib.Data.List.Basic

/-!
# Turbine.Base.Json

JSON objects of strings as PHP's `json_encode` writes them: control characters and all that
is not ASCII are escaped, slashes are not.

* `encodeChar_cases`: a character stands for itself, or there is a backslash;
* `encodeText_eq_iff`: when a text stands for itself.
-/

namespace Turbine.Base.Json

variable {c : Char} {cs : List Char}

/-! ## characters -/

/-- The characters that have an escape of their own. -/
def shortEscape (c : Char) : Option Char :=
  if c = '"' then some '"'
  else if c = '\\' then some '\\'
  else if c = '\x08' then some 'b'
  else if c = '\x0c' then some 'f'
  else if c = '\n' then some 'n'
  else if c = '\r' then some 'r'
  else if c = '\t' then some 't'
  else none

/-- A character in UTF-16. -/
def utf16 (c : Char) : List Nat :=
  if c.toNat < 0x10000 then [c.toNat]
  else [0xD800 + (c.toNat - 0x10000) / 0x400, 0xDC00 + (c.toNat - 0x10000) % 0x400]

/-- A code unit, in four hexadecimal digits. -/
def unicodeEscape (n : Nat) : List Char :=
  '\\' :: 'u' :: [n / 4096 % 16, n / 256 % 16, n / 16 % 16, n % 16].map Nat.digitChar

/-- A character in a string. -/
def encodeChar (c : Char) : List Char :=
  match shortEscape c with
  | some d => ['\\', d]
  | none => if 0x20 ≤ c.toNat ∧ c.toNat < 0x80 then [c] else (utf16 c).flatMap unicodeEscape

/-- The text of a string between its quotes. -/
def encodeText (cs : List Char) : List Char := cs.flatMap encodeChar

/-- A character that stands for itself. -/
def IsPlain (c : Char) : Prop := 0x20 ≤ c.toNat ∧ c.toNat < 0x80 ∧ c ≠ '"' ∧ c ≠ '\\'

instance {c : Char} : Decidable (IsPlain c) := inferInstanceAs (Decidable (_ ∧ _ ∧ _ ∧ _))

/-- A backslash with letters, digits and maybe other backslashes behind it. -/
def IsEscape (cs : List Char) : Prop :=
  ∃ rest last, cs = '\\' :: (rest ++ [last]) ∧ (∀ d ∈ rest, d = '\\' ∨ d.isAlphanum = true) ∧
    last.isAlphanum = true

theorem IsEscape.append {ds : List Char} (h : IsEscape cs) (h' : IsEscape ds) :
    IsEscape (cs ++ ds) := by
  obtain ⟨rest, last, rfl, hrest, hlast⟩ := h
  obtain ⟨rest', last', rfl, hrest', hlast'⟩ := h'
  refine ⟨rest ++ [last] ++ '\\' :: rest', last', by simp, ?_, hlast'⟩
  rw [List.forall_mem_append, List.forall_mem_append, List.forall_mem_singleton,
    List.forall_mem_cons]
  exact ⟨⟨hrest, .inr hlast⟩, .inl rfl, hrest'⟩

theorem isEscape_unicodeEscape (n : Nat) : IsEscape (unicodeEscape n) := by
  have hdigit : ∀ m < 16, (Nat.digitChar m).isAlphanum = true := by decide
  have hmod : ∀ m, (Nat.digitChar (m % 16)).isAlphanum = true :=
    fun m => hdigit _ (Nat.mod_lt _ (by decide))
  refine ⟨'u' :: [n / 4096 % 16, n / 256 % 16, n / 16 % 16].map Nat.digitChar, _, rfl, ?_, hmod n⟩
  simp [hmod]

theorem isEscape_utf16 (c : Char) : IsEscape ((utf16 c).flatMap unicodeEscape) := by
  rw [utf16]
  split
  · simpa using isEscape_unicodeEscape c.toNat
  · simpa using (isEscape_unicodeEscape _).append (isEscape_unicodeEscape _)

theorem shortEscape_eq_none (h : shortEscape c = none) : c ≠ '"' ∧ c ≠ '\\' := by
  constructor <;> rintro rfl <;> cases h

/-- An escape of its own is for a quote, for a backslash, or a letter. -/
theorem shortEscape_eq_some {d : Char} (h : shortEscape c = some d) :
    ¬ IsPlain c ∧ (c = '"' ∧ d = '"' ∨ c = '\\' ∧ d = '\\' ∨
      (c ≠ '"' ∧ c ≠ '\\') ∧ d.isAlphanum = true) := by
  unfold shortEscape at h
  split_ifs at h with h₁ h₂ h₃ h₄ h₅ h₆ h₇
  all_goals
    obtain rfl := Option.some.inj h
    subst c
    decide

/-- A character stands for itself, or it is escaped. -/
theorem encodeChar_cases (c : Char) :
    IsPlain c ∧ encodeChar c = [c] ∨ c = '"' ∧ encodeChar c = ['\\', '"'] ∨
      c = '\\' ∧ encodeChar c = ['\\', '\\'] ∨
      (¬ IsPlain c ∧ c ≠ '"' ∧ c ≠ '\\') ∧ IsEscape (encodeChar c) := by
  unfold encodeChar
  cases hshort : shortEscape c with
  | some d =>
    obtain ⟨hplain, ⟨rfl, rfl⟩ | ⟨rfl, rfl⟩ | ⟨⟨hquote, hbackslash⟩, hletter⟩⟩ :=
      shortEscape_eq_some hshort
    · simp
    · simp
    · exact .inr (.inr (.inr ⟨⟨hplain, hquote, hbackslash⟩, [], d, rfl, by simp, hletter⟩))
  | none =>
    obtain ⟨hquote, hbackslash⟩ := shortEscape_eq_none hshort
    dsimp only
    split
    case isTrue hascii => exact .inl ⟨⟨hascii.1, hascii.2, hquote, hbackslash⟩, rfl⟩
    case isFalse hascii =>
      have hplain : ¬ IsPlain c := fun h => hascii ⟨h.1, h.2.1⟩
      exact .inr (.inr (.inr ⟨⟨hplain, hquote, hbackslash⟩, isEscape_utf16 c⟩))

/-! ## texts -/

@[simp] theorem encodeText_nil : encodeText [] = [] := rfl

theorem encodeText_cons : encodeText (c :: cs) = encodeChar c ++ encodeText cs := List.flatMap_cons

theorem encodeText_append {ds : List Char} :
    encodeText (cs ++ ds) = encodeText cs ++ encodeText ds := List.flatMap_append

/-- Only plain characters, quotes, backslashes, letters and digits are written. -/
theorem mem_encodeChar {d : Char} (h : d ∈ encodeChar c) :
    IsPlain d ∧ d = c ∨ d = '"' ∨ d = '\\' ∨ d.isAlphanum = true := by
  rcases encodeChar_cases c with
    ⟨hplain, hc⟩ | ⟨-, hc⟩ | ⟨-, hc⟩ | ⟨-, rest, last, hc, hrest, hlast⟩
  · rw [hc, List.mem_singleton] at h
    exact .inl ⟨h ▸ hplain, h⟩
  · simp only [hc, List.mem_cons, List.not_mem_nil, or_false] at h
    tauto
  · simp only [hc, List.mem_cons, List.not_mem_nil, or_false] at h
    tauto
  · rw [hc, List.mem_cons, List.mem_append, List.mem_singleton] at h
    rcases h with rfl | h | rfl
    · exact .inr (.inr (.inl rfl))
    · exact .inr (.inr (hrest d h))
    · exact .inr (.inr (.inr hlast))

theorem encodeChar_of_plain (h : IsPlain c) : encodeChar c = [c] := by
  rcases encodeChar_cases c with ⟨-, hc⟩ | ⟨rfl, -⟩ | ⟨rfl, -⟩ | ⟨⟨hplain, -⟩, -⟩
  · exact hc
  · exact absurd rfl h.2.2.1
  · exact absurd rfl h.2.2.2
  · exact absurd h hplain

theorem two_le_length_encodeChar (h : ¬ IsPlain c) : 2 ≤ (encodeChar c).length := by
  rcases encodeChar_cases c with ⟨hplain, -⟩ | ⟨-, hc⟩ | ⟨-, hc⟩ | ⟨-, rest, last, hc, -⟩
  · exact absurd hplain h
  all_goals simp [hc]

theorem encodeChar_ne_nil (c : Char) : encodeChar c ≠ [] := by
  rcases encodeChar_cases c with ⟨-, hc⟩ | ⟨-, hc⟩ | ⟨-, hc⟩ | ⟨-, rest, last, hc, -⟩
  all_goals simp [hc]

theorem not_control_of_mem_encodeText {d : Char} (h : d ∈ encodeText cs) : 0x20 ≤ d.toNat := by
  obtain ⟨c, -, hd⟩ := List.mem_flatMap.1 h
  rcases mem_encodeChar hd with ⟨hplain, -⟩ | rfl | rfl | hletter
  · exact hplain.1
  · decide
  · decide
  · have hlow : ∀ n < 0x20, (Char.ofNat n).isAlphanum = false := by decide
    by_contra hcontrol
    have hfalse := hlow d.toNat (Nat.not_le.1 hcontrol)
    rw [Char.ofNat_toNat, hletter] at hfalse
    cases hfalse

/-- A character is not lost and not made up, unless escapes are made of it. -/
theorem count_encodeText {d : Char} (hplain : IsPlain d) (hd : d.isAlphanum = false) :
    (encodeText cs).count d = cs.count d := by
  have hchar : ∀ c, (encodeChar c).count d = [c].count d := by
    intro c
    by_cases hc : IsPlain c
    · rw [encodeChar_of_plain hc]
    · have hne : d ∉ [c] := by
        rintro hmem
        exact hc (List.mem_singleton.1 hmem ▸ hplain)
      have hnone : d ∉ encodeChar c := by
        intro hmem
        rcases mem_encodeChar hmem with ⟨-, rfl⟩ | rfl | rfl | hletter
        · exact hc hplain
        · exact absurd rfl hplain.2.2.1
        · exact absurd rfl hplain.2.2.2
        · simp [hd] at hletter
      rw [List.count_eq_zero_of_not_mem hne, List.count_eq_zero_of_not_mem hnone]
  induction cs with
  | nil => rfl
  | cons c cs ih =>
    rw [encodeText_cons, List.count_append, hchar, ih, ← List.count_append, List.singleton_append]

theorem length_le_encodeText (cs : List Char) : cs.length ≤ (encodeText cs).length := by
  induction cs with
  | nil => exact Nat.le_refl _
  | cons c cs ih =>
    have hone : 1 ≤ (encodeChar c).length := by
      by_cases hplain : IsPlain c
      · simp [encodeChar_of_plain hplain]
      · exact Nat.le_of_succ_le (two_le_length_encodeChar hplain)
    rw [encodeText_cons, List.length_append, List.length_cons]
    omega

theorem length_lt_encodeText (h : c ∈ cs) (hc : ¬ IsPlain c) :
    cs.length < (encodeText cs).length := by
  obtain ⟨front, back, rfl⟩ := List.append_of_mem h
  have hfront := length_le_encodeText front
  have hback := length_le_encodeText back
  have htwo := two_le_length_encodeChar hc
  simp only [encodeText_append, encodeText_cons, List.length_append, List.length_cons]
  omega

theorem encodeText_eq_iff : encodeText cs = cs ↔ ∀ c ∈ cs, IsPlain c := by
  constructor
  · intro h c hc
    by_contra hplain
    have hlt := length_lt_encodeText hc hplain
    rw [h] at hlt
    exact Nat.lt_irrefl _ hlt
  · intro h
    induction cs with
    | nil => rfl
    | cons c cs ih =>
      obtain ⟨hc, hcs⟩ := List.forall_mem_cons.1 h
      rw [encodeText_cons, encodeChar_of_plain hc, ih hcs, List.singleton_append]

/-- A quote or a backslash at the end stays there. -/
theorem getLast?_encodeText_iff {d : Char} (hd : d = '"' ∨ d = '\\') :
    (encodeText cs).getLast? = some d ↔ cs.getLast? = some d := by
  have hchar : ∀ c, (encodeChar c).getLast? = some d ↔ c = d := by
    intro c
    rcases encodeChar_cases c with
      ⟨-, hc⟩ | ⟨rfl, hc⟩ | ⟨rfl, hc⟩ | ⟨⟨-, hquote, hbackslash⟩, rest, last, hc, -, hlast⟩
    · simp [hc]
    · simp [hc]
    · simp [hc]
    · have hne : c ≠ d := by rcases hd with rfl | rfl <;> assumption
      have hlast' : last ≠ d := by
        rintro rfl
        rcases hd with rfl | rfl <;> exact absurd hlast (by decide)
      have hend : (encodeChar c).getLast? = some last := by
        rw [hc, ← List.cons_append, List.getLast?_concat]
      simp [hend, hne, hlast']
  rcases List.eq_nil_or_concat cs with rfl | ⟨front, c, rfl⟩
  · simp
  · have hone : encodeText [c] = encodeChar c := List.flatMap_singleton ..
    rw [List.concat_eq_append, encodeText_append, hone,
      List.getLast?_append_of_ne_nil _ (encodeChar_ne_nil c), hchar, List.getLast?_concat,
      Option.some_inj]

theorem head?_encodeText_ne : (encodeText cs).head? ≠ some '"' := by
  cases cs with
  | nil => simp
  | cons c cs =>
    rw [encodeText_cons, List.head?_append_of_ne_nil _ (encodeChar_ne_nil c)]
    rcases encodeChar_cases c with ⟨hplain, hc⟩ | ⟨-, hc⟩ | ⟨-, hc⟩ | ⟨-, rest, last, hc, -⟩
    · simpa [hc] using hplain.2.2.1
    all_goals simp [hc]

/-! ## objects -/

/-- A string. -/
def encodeString (s : String) : List Char := '"' :: (encodeText s.toList ++ ['"'])

/-- A member of an object. -/
def member (p : String × String) : List Char := encodeString p.1 ++ ':' :: encodeString p.2

/-- The members of an object. -/
def members (ps : List (String × String)) : List Char := [','].intercalate (ps.map member)

/-- An object. -/
def object (ps : List (String × String)) : String := String.ofList ('{' :: (members ps ++ ['}']))

@[simp] theorem members_nil : members [] = [] := rfl

@[simp] theorem members_singleton (p : String × String) : members [p] = member p := by
  simp [members]

theorem members_cons_cons (p q : String × String) (ps : List (String × String)) :
    members (p :: q :: ps) = member p ++ ',' :: members (q :: ps) := by
  simp [members, List.intercalate_cons_cons]

theorem not_control_of_mem_encodeString {s : String} (h : c ∈ encodeString s) : 0x20 ≤ c.toNat := by
  rw [encodeString, List.mem_cons, List.mem_append, List.mem_singleton] at h
  rcases h with rfl | h | rfl
  · decide
  · exact not_control_of_mem_encodeText h
  · decide

theorem not_control_of_mem_members {ps : List (String × String)} (h : c ∈ members ps) :
    0x20 ≤ c.toNat := by
  have hmember : ∀ p : String × String, c ∈ member p → 0x20 ≤ c.toNat := by
    intro p hp
    rw [member, List.mem_append, List.mem_cons] at hp
    rcases hp with hp | rfl | hp
    · exact not_control_of_mem_encodeString hp
    · decide
    · exact not_control_of_mem_encodeString hp
  induction ps with
  | nil => cases h
  | cons p ps ih =>
    cases ps with
    | nil => exact hmember p (members_singleton p ▸ h)
    | cons q ps =>
      rw [members_cons_cons, List.mem_append, List.mem_cons] at h
      rcases h with h | rfl | h
      · exact hmember p h
      · decide
      · exact ih h

end Turbine.Base.Json
