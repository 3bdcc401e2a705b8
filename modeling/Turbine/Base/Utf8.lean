import Turbine.Base.Bytes

/-!
# Turbine.Base.Utf8

UTF-8 as byte lists, and the lossy decoding that puts a replacement character
in place of every maximal ill-formed piece.

* `fromUtf8Lossy_utf8`: a well-formed text is decoded to itself;
* `length_utf8_lossy_take_le`: cutting a well-formed text anywhere and decoding
  the front lossily adds at most six bytes, since only the character at the cut
  can be damaged;
* `lossyChars_append_ascii`: an ASCII byte is a boundary, whatever stands before
  it.
-/

namespace Turbine.Base

variable {bytes rest : Bytes} {c : Char}

/-- The bytes of a list of characters. -/
def encodeChars (cs : List Char) : Bytes := cs.flatMap String.utf8EncodeChar

/-- The bytes of a string. -/
def utf8 (s : String) : Bytes := encodeChars s.toList

@[simp] theorem encodeChars_nil : encodeChars [] = [] := rfl

theorem encodeChars_cons (c : Char) (cs : List Char) :
    encodeChars (c :: cs) = String.utf8EncodeChar c ++ encodeChars cs := List.flatMap_cons

theorem utf8EncodeChar_of_ascii {c : Char} (h : c.toNat < 0x80) :
    String.utf8EncodeChar c = [.ofNat c.toNat] := by
  have hle : c.toNat ≤ 0x7f := Nat.le_of_lt_succ h
  simp [String.utf8EncodeChar, hle]

theorem encodeChars_append (cs ds : List Char) :
    encodeChars (cs ++ ds) = encodeChars cs ++ encodeChars ds := List.flatMap_append

theorem utf8_append (s t : String) : utf8 (s ++ t) = utf8 s ++ utf8 t := by
  rw [utf8, String.toList_append, encodeChars_append]
  rfl

/-! ## one character -/

/-- The character whose encoding starts the byte list. -/
def decodeHead (bytes : Bytes) : Option Char := bytes.toByteArray.utf8DecodeChar? 0

theorem decodeHead_encode (c : Char) (rest : Bytes) :
    decodeHead (String.utf8EncodeChar c ++ rest) = some c := by
  rw [decodeHead, List.toByteArray_append]
  exact ByteArray.utf8DecodeChar?_utf8EncodeChar_append

/-- A decoded character was all there. -/
theorem utf8Size_le_of_decodeHead (h : decodeHead bytes = some c) : c.utf8Size ≤ bytes.length := by
  have hle := ByteArray.le_size_of_utf8DecodeChar?_eq_some h
  rwa [Nat.zero_add, List.size_toByteArray] at hle

/-- The second byte can follow the first in a sequence of three or four. -/
def secondOk (b₀ b₁ : UInt8) : Bool :=
  (b₀ == 0xE0 && 0xA0 ≤ b₁ && b₁ ≤ 0xBF) ||
  (0xE1 ≤ b₀ && b₀ ≤ 0xEC && 0x80 ≤ b₁ && b₁ ≤ 0xBF) ||
  (b₀ == 0xED && 0x80 ≤ b₁ && b₁ ≤ 0x9F) ||
  (0xEE ≤ b₀ && b₀ ≤ 0xEF && 0x80 ≤ b₁ && b₁ ≤ 0xBF) ||
  (b₀ == 0xF0 && 0x90 ≤ b₁ && b₁ ≤ 0xBF) ||
  (0xF1 ≤ b₀ && b₀ ≤ 0xF3 && 0x80 ≤ b₁ && b₁ ≤ 0xBF) ||
  (b₀ == 0xF4 && 0x80 ≤ b₁ && b₁ ≤ 0x8F)

/-- How many bytes an ill-formed piece at the front has: those that could still
begin a well-formed sequence, and at least one. -/
def illFormedLength : Bytes → Nat
  | b₀ :: b₁ :: rest =>
    if secondOk b₀ b₁ then
      match rest with
      | b₂ :: _ => if 0xF0 ≤ b₀ ∧ 0x80 ≤ b₂ ∧ b₂ ≤ 0xBF then 3 else 2
      | [] => 2
    else 1
  | _ => 1

theorem illFormedLength_pos (bytes : Bytes) : 0 < illFormedLength bytes := by
  unfold illFormedLength
  split
  · split_ifs
    · split
      · split_ifs <;> decide
      · decide
    · decide
  · decide

/-! ## lossy decoding -/

/-- Decode, with a replacement character for each ill-formed piece. -/
def lossyChars (bytes : Bytes) : List Char :=
  if bytes = [] then []
  else
    match _h : decodeHead bytes with
    | some c => c :: lossyChars (bytes.drop c.utf8Size)
    | none => '�' :: lossyChars (bytes.drop (illFormedLength bytes))
termination_by bytes.length
decreasing_by
  all_goals
    have := List.length_pos_iff.2 ‹bytes ≠ []›
    have := illFormedLength_pos bytes
    have := Char.utf8Size_pos
    simp only [List.length_drop]
    grind

/-- Lossy decoding of bytes to a string. -/
def fromUtf8Lossy (bytes : Bytes) : String := String.ofList (lossyChars bytes)

@[simp] theorem lossyChars_nil : lossyChars [] = [] := by
  rw [lossyChars, if_pos rfl]

theorem ne_nil_of_decodeHead (h : decodeHead bytes = some c) : bytes ≠ [] := by
  have hpos := Char.utf8Size_pos c
  have hle := utf8Size_le_of_decodeHead h
  exact List.length_pos_iff.1 (by omega)

theorem lossyChars_of_some (h : decodeHead bytes = some c) :
    lossyChars bytes = c :: lossyChars (bytes.drop c.utf8Size) := by
  have hne := ne_nil_of_decodeHead h
  rw [lossyChars, if_neg hne]
  split <;> simp_all

theorem lossyChars_of_none (hne : bytes ≠ []) (h : decodeHead bytes = none) :
    lossyChars bytes = '�' :: lossyChars (bytes.drop (illFormedLength bytes)) := by
  rw [lossyChars, if_neg hne]
  split <;> simp_all

/-- Induction along the decoding: a character or an ill-formed sequence is taken off the
front. -/
theorem lossy_induction {motive : Bytes → Prop} (nil : motive [])
    (char : ∀ bytes c, decodeHead bytes = some c → motive (bytes.drop c.utf8Size) → motive bytes)
    (illFormed : ∀ bytes, bytes ≠ [] → decodeHead bytes = none →
      motive (bytes.drop (illFormedLength bytes)) → motive bytes)
    (bytes : Bytes) : motive bytes := by
  induction hn : bytes.length using Nat.strongRecOn generalizing bytes with
  | ind n ih =>
    by_cases hne : bytes = []
    · exact hne ▸ nil
    · have hpos := List.length_pos_iff.2 hne
      cases h : decodeHead bytes with
      | some c =>
        have hc := Char.utf8Size_pos c
        exact char bytes c h (ih _ (by rw [List.length_drop]; omega) _ rfl)
      | none =>
        have hbad := illFormedLength_pos bytes
        exact illFormed bytes hne h (ih _ (by rw [List.length_drop]; omega) _ rfl)

theorem lossyChars_encode_append (c : Char) (rest : Bytes) :
    lossyChars (String.utf8EncodeChar c ++ rest) = c :: lossyChars rest := by
  rw [lossyChars_of_some (decodeHead_encode c rest), ← String.length_utf8EncodeChar, List.drop_left]

theorem lossyChars_encodeChars (cs : List Char) : lossyChars (encodeChars cs) = cs := by
  induction cs with
  | nil => rw [encodeChars_nil, lossyChars_nil]
  | cons c cs ih => rw [encodeChars_cons, lossyChars_encode_append, ih]

theorem fromUtf8Lossy_utf8 (s : String) : fromUtf8Lossy (utf8 s) = s := by
  rw [fromUtf8Lossy, utf8, lossyChars_encodeChars, String.ofList_toList]

/-- `str::from_utf8`: bytes that the lossy decoding did not have to replace. -/
def fromUtf8 (bytes : Bytes) : Option String :=
  if utf8 (fromUtf8Lossy bytes) = bytes then some (fromUtf8Lossy bytes) else none

theorem fromUtf8_eq_some_iff {s : String} : fromUtf8 bytes = some s ↔ bytes = utf8 s := by
  constructor
  · intro h
    rw [fromUtf8] at h
    split at h
    case isTrue hvalid => rw [← Option.some.inj h, hvalid]
    case isFalse => cases h
  · rintro rfl
    rw [fromUtf8, fromUtf8Lossy_utf8, if_pos rfl]

@[simp] theorem fromUtf8_utf8 (s : String) : fromUtf8 (utf8 s) = some s :=
  fromUtf8_eq_some_iff.2 rfl

/-- Lossy decoding at most triples a text: each byte becomes at worst a
replacement character of three. -/
theorem length_encodeChars_lossyChars_le (bytes : Bytes) :
    (encodeChars (lossyChars bytes)).length ≤ 3 * bytes.length := by
  induction bytes using lossy_induction with
  | nil => simp
  | char bytes c h ih =>
    have hle := utf8Size_le_of_decodeHead h
    rw [lossyChars_of_some h, encodeChars_cons, List.length_append, String.length_utf8EncodeChar]
    rw [List.length_drop] at ih
    omega
  | illFormed bytes hne h ih =>
    have hpos := List.length_pos_iff.2 hne
    have hbad := illFormedLength_pos bytes
    have hfffd : (String.utf8EncodeChar '�').length = 3 := by decide
    rw [lossyChars_of_none hne h, encodeChars_cons, List.length_append, hfffd]
    rw [List.length_drop] at ih
    omega

/-- Only the character at the cut is damaged. -/
theorem length_lossy_take_le (cs : List Char) (n : Nat) :
    (encodeChars (lossyChars ((encodeChars cs).take n))).length ≤ n + 6 := by
  induction cs generalizing n with
  | nil => simp
  | cons c cs ih =>
    have hsize := String.length_utf8EncodeChar c
    have hfour := Char.utf8Size_le_four c
    rw [encodeChars_cons, List.take_append]
    by_cases hn : c.utf8Size ≤ n
    · rw [List.take_of_length_le (hsize ▸ hn), lossyChars_encode_append, encodeChars_cons,
        List.length_append, hsize]
      have := ih (n - c.utf8Size)
      omega
    · rw [hsize, Nat.sub_eq_zero_of_le (by omega), List.take_zero, List.append_nil]
      have htriple := length_encodeChars_lossyChars_le ((String.utf8EncodeChar c).take n)
      rw [List.length_take] at htriple
      omega

theorem length_utf8_lossy_take_le (s : String) (n : Nat) :
    (utf8 (fromUtf8Lossy ((utf8 s).take n))).length ≤ n + 6 := by
  rw [utf8, fromUtf8Lossy, String.toList_ofList]
  exact length_lossy_take_le s.toList n

/-! ## boundaries -/

theorem ascii_lt_of_mem_tail_encode {b : UInt8} (h : b ∈ (String.utf8EncodeChar c).tail) :
    0x80 ≤ b := by
  have hmod : ∀ n : Nat, (0x80 : UInt8) ≤ .ofNat (n % 0x40 + 0x80) := by
    intro n
    rw [UInt8.le_iff_toNat_le, UInt8.toNat_ofNat']
    have := Nat.mod_lt n (show 0 < 0x40 by decide)
    change 128 ≤ _
    omega
  unfold String.utf8EncodeChar at h
  dsimp only at h
  split_ifs at h
  · simp at h
  all_goals
    simp only [List.tail_cons, List.mem_cons, List.not_mem_nil, or_false] at h
    rcases h with rfl | rfl | rfl <;> exact hmod _

theorem eq_nul_of_zero_mem (h : (0 : UInt8) ∈ String.utf8EncodeChar c) : c = '\x00' := by
  cases hbytes : String.utf8EncodeChar c with
  | nil =>
    rw [hbytes] at h
    cases h
  | cons b rest =>
    rw [hbytes, List.mem_cons] at h
    obtain rfl | h := h
    · have hc := decodeHead_encode c []
      rw [List.append_nil, hbytes] at hc
      exact Option.some.inj (hc.symm.trans (decodeHead_encode '\x00' rest))
    · have hhigh := ascii_lt_of_mem_tail_encode (c := c) (by rw [hbytes]; exact h)
      exact absurd hhigh (by decide)

theorem zero_not_mem_utf8 {s : String} (h : '\x00' ∉ s.toList) : 0 ∉ utf8 s := by
  intro hmem
  obtain ⟨c, hc, hzero⟩ := List.mem_flatMap.1 hmem
  exact h (eq_nul_of_zero_mem hzero ▸ hc)

theorem decodeHead_eq_some_iff : decodeHead bytes = some c ↔ String.utf8EncodeChar c <+: bytes := by
  constructor
  · intro h
    obtain ⟨l, hl⟩ := ByteArray.exists_of_utf8DecodeChar?_eq_some h
    refine ⟨l.data.toList, ?_⟩
    have := congrArg (·.data.toList) hl
    simpa using this.symm
  · rintro ⟨l, rfl⟩
    exact decodeHead_encode c l

variable {b : UInt8}

/-- An ASCII byte does not complete a character begun before it. -/
theorem decodeHead_append_ascii (hne : bytes ≠ []) (hb : b < 0x80) :
    decodeHead (bytes ++ b :: rest) = decodeHead bytes := by
  have hsame : ∀ c, String.utf8EncodeChar c <+: bytes ++ b :: rest ↔
      String.utf8EncodeChar c <+: bytes := by
    intro c
    refine ⟨fun h => ?_, fun h => h.trans (List.prefix_append _ _)⟩
    rcases List.prefix_or_prefix_of_prefix h (List.prefix_append bytes (b :: rest)) with h' | h'
    · exact h'
    · obtain ⟨more, hmore⟩ := h'
      rw [← hmore, List.prefix_append_right_inj] at h
      cases more with
      | nil =>
        rw [List.append_nil] at hmore
        exact ⟨[], by rw [List.append_nil, hmore]⟩
      | cons b' more =>
        -- the byte would be one of the character's continuation bytes
        obtain ⟨rfl, -⟩ := List.cons_prefix_cons.1 h
        have htail : b' ∈ (String.utf8EncodeChar c).tail := by
          rw [← hmore, List.tail_append_of_ne_nil hne]
          simp
        exact absurd (ascii_lt_of_mem_tail_encode htail) (UInt8.not_le.2 hb)
  exact Option.ext fun c => by rw [decodeHead_eq_some_iff, decodeHead_eq_some_iff, hsame]

theorem secondOk_ascii (b₀ : UInt8) (hb : b < 0x80) : secondOk b₀ b = false := by
  have h80 : (0x80 ≤ b) = False := eq_false (UInt8.not_le.2 hb)
  have h90 : (0x90 ≤ b) = False := eq_false (UInt8.not_le.2 (UInt8.lt_trans hb (by decide)))
  have hA0 : (0xA0 ≤ b) = False := eq_false (UInt8.not_le.2 (UInt8.lt_trans hb (by decide)))
  simp [secondOk, h80, h90, hA0]

/-- Nor does it belong to an ill-formed piece. -/
theorem illFormedLength_append_ascii (hne : bytes ≠ []) (hb : b < 0x80) :
    illFormedLength (bytes ++ b :: rest) = illFormedLength bytes := by
  have hb' : ¬ 0x80 ≤ b := UInt8.not_le.2 hb
  match bytes with
  | [b₀] => simp [illFormedLength, secondOk_ascii b₀ hb]
  | [b₀, b₁] => simp [illFormedLength, hb']
  | b₀ :: b₁ :: b₂ :: more => rfl

theorem illFormedLength_le (hne : bytes ≠ []) : illFormedLength bytes ≤ bytes.length := by
  match bytes with
  | [b₀] => simp [illFormedLength]
  | [b₀, b₁] =>
    dsimp only [illFormedLength]
    split_ifs <;> simp
  | b₀ :: b₁ :: b₂ :: more =>
    dsimp only [illFormedLength]
    split_ifs <;> simp

/-- An ASCII byte is a boundary: what stands before it is decoded on its own. -/
theorem lossyChars_append_ascii (bytes rest : Bytes) (hb : b < 0x80) :
    lossyChars (bytes ++ b :: rest) = lossyChars bytes ++ lossyChars (b :: rest) := by
  induction bytes using lossy_induction with
  | nil => rw [List.nil_append, lossyChars_nil, List.nil_append]
  | char bytes c h ih =>
    have hle := utf8Size_le_of_decodeHead h
    have happend : decodeHead (bytes ++ b :: rest) = some c :=
      (decodeHead_append_ascii (ne_nil_of_decodeHead h) hb).trans h
    rw [lossyChars_of_some h, lossyChars_of_some happend, List.drop_append_of_le_length hle, ih,
      List.cons_append]
  | illFormed bytes hne h ih =>
    have hle := illFormedLength_le hne
    rw [lossyChars_of_none hne h,
      lossyChars_of_none (by simp) ((decodeHead_append_ascii hne hb).trans h),
      illFormedLength_append_ascii hne hb, List.drop_append_of_le_length hle, ih, List.cons_append]

theorem lossyChars_line (front line back : Bytes) :
    lossyChars (front ++ 0x0A :: (line ++ 0x0D :: back)) =
      lossyChars front ++ '\n' :: (lossyChars line ++ lossyChars (0x0D :: back)) := by
  have hnewline : (0x0A : UInt8) :: (line ++ 0x0D :: back) =
      String.utf8EncodeChar '\n' ++ (line ++ 0x0D :: back) := rfl
  rw [lossyChars_append_ascii _ _ (by decide), hnewline, lossyChars_encode_append,
    lossyChars_append_ascii _ _ (by decide)]

end Turbine.Base
