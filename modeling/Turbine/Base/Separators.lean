import Mathlib.Data.List.TakeDrop
import Mathlib.Data.List.TakeWhile
import Turbine.Base.Str
import Turbine.Base.Utf8

/-!
# Turbine.Base.Separators

Lists that are cut at a separator, at every one or at the first.

* `infix_append_cons_iff`, `infix_intercalate_iff`: a stretch without separators is in
  one of the parts;
* `Respects`: a translation of lists under which separators stay separators;
* `respects_lossyChars`, `respects_encodeChars`: reading and writing UTF-8 are such
  translations, for ASCII characters.
-/

namespace Turbine.Base

section Stretches

variable {α : Type} {a : α} {sub front rest l : List α}

theorem infix_append_cons_iff (h : a ∉ sub) :
    sub <:+: front ++ a :: rest ↔ sub <:+: front ∨ sub <:+: rest := by
  constructor
  · rintro ⟨before, after, heq⟩
    rw [List.append_assoc, List.append_eq_append_iff] at heq
    obtain ⟨mid, rfl, hmid⟩ | ⟨mid, rfl, hmid⟩ := heq
    · -- the stretch begins before the separator, and so ends before it
      obtain ⟨mid', rfl, -⟩ | ⟨mid', rfl, hrest⟩ := List.append_eq_append_iff.1 hmid
      · exact .inl ⟨before, mid', List.append_assoc _ _ _⟩
      · cases mid' with
        | nil => exact .inl ⟨before, [], by simp⟩
        | cons x mid' =>
          obtain rfl := (List.cons.inj hrest).1
          exact absurd (List.mem_append_right _ List.mem_cons_self) h
    · cases mid with
      | nil =>
        cases sub with
        | nil => exact .inl (List.nil_infix)
        | cons x sub =>
          obtain rfl := (List.cons.inj hmid).1
          exact absurd List.mem_cons_self h
      | cons x mid =>
        obtain ⟨-, rfl⟩ := List.cons.inj hmid
        exact .inr ⟨mid, after, List.append_assoc _ _ _⟩
  · rintro (hfront | hrest)
    · exact hfront.trans (List.prefix_append _ _).isInfix
    · exact hrest.trans ((List.suffix_cons _ _).trans (List.suffix_append _ _)).isInfix

theorem not_infix_of_disjoint (hne : sub ≠ []) (h : ∀ x ∈ l, x ∉ sub) : ¬ sub <:+: l := by
  intro hsub
  obtain ⟨x, hx⟩ := List.exists_mem_of_ne_nil sub hne
  exact h x (hsub.subset hx) hx

theorem infix_append_left_iff (hne : sub ≠ []) (h : ∀ x ∈ l, x ∉ sub) :
    sub <:+: front ++ l ↔ sub <:+: front := by
  cases l with
  | nil => rw [List.append_nil]
  | cons x l =>
    obtain ⟨hx, hl⟩ := List.forall_mem_cons.1 h
    rw [infix_append_cons_iff hx]
    exact or_iff_left (not_infix_of_disjoint hne hl)

theorem infix_append_right_iff (hne : sub ≠ []) (h : ∀ x ∈ l, x ∉ sub) :
    sub <:+: l ++ rest ↔ sub <:+: rest := by
  induction l with
  | nil => rfl
  | cons x l ih =>
    obtain ⟨hx, hl⟩ := List.forall_mem_cons.1 h
    rw [List.cons_append, ← List.nil_append (x :: (l ++ rest)), infix_append_cons_iff hx, ih hl,
      List.infix_nil]
    exact or_iff_right hne

theorem infix_intercalate_iff {parts : List (List α)} (hne : sub ≠ []) (h : a ∉ sub) :
    sub <:+: [a].intercalate parts ↔ ∃ part ∈ parts, sub <:+: part := by
  induction parts with
  | nil => simp [hne]
  | cons first parts ih =>
    cases parts with
    | nil => simp
    | cons next parts =>
      rw [List.intercalate_cons_cons, List.append_assoc, List.singleton_append,
        infix_append_cons_iff h, ih]
      simp

theorem map_intercalate {β : Type} (f : α → β) (a : α) (parts : List (List α)) :
    ([a].intercalate parts).map f = [f a].intercalate (parts.map (List.map f)) := by
  induction parts with
  | nil => rfl
  | cons first parts ih =>
    cases parts with
    | nil => simp
    | cons next parts =>
      simp only [List.intercalate_cons_cons, List.map_append, List.map_cons, List.map_nil] at ih ⊢
      rw [ih]

end Stretches

section Lists

variable {α β : Type} [BEq α] [LawfulBEq α] [BEq β] [LawfulBEq β] {a : α} {b : β}
  {front rest l : List α} {f : List α → List β}

/-- What stands before the first separator, and what stands behind it. -/
def cutOnce {α : Type} [BEq α] (sep : α) (l : List α) : Option (List α × List α) :=
  match l.span (· != sep) with
  | (_, []) => none
  | (front, _ :: back) => some (front, back)

theorem cutOnce_eq_none (h : a ∉ l) : cutOnce a l = none := by
  have hall : ∀ x ∈ l, (x != a) = true := by
    intro x hx
    rw [bne_iff_ne]
    rintro rfl
    exact h hx
  rw [cutOnce, List.span_eq_takeWhile_dropWhile, List.dropWhile_eq_nil_iff.2 hall]

theorem cutOnce_append (h : a ∉ front) : cutOnce a (front ++ a :: rest) = some (front, rest) := by
  have hall : ∀ x ∈ front, (x != a) = true := by
    intro x hx
    rw [bne_iff_ne]
    rintro rfl
    exact h hx
  have htake : (front ++ a :: rest).takeWhile (· != a) = front := by
    rw [List.takeWhile_append_of_pos hall, List.takeWhile_cons_of_neg (by simp), List.append_nil]
  have hdrop : (front ++ a :: rest).dropWhile (· != a) = a :: rest := by
    rw [List.dropWhile_append_of_pos hall, List.dropWhile_cons_of_neg (by simp)]
  rw [cutOnce, List.span_eq_takeWhile_dropWhile, htake, hdrop]

theorem splitOn_append_cons : (front ++ a :: rest).splitOn a = front.splitOn a ++ rest.splitOn a :=
  List.splitOnP_append_cons front rest (beq_self_eq_true a)

/-- The parts of a list are stretches of it. -/
theorem infix_of_mem_splitOn {part : List α} (h : part ∈ l.splitOn a) : part <:+: l := by
  have hjoin : ∀ parts : List (List α), part ∈ parts → part <:+: [a].intercalate parts := by
    intro parts hpart
    induction parts with
    | nil => cases hpart
    | cons first parts ih =>
      cases parts with
      | nil =>
        simp [List.mem_singleton.1 hpart]
      | cons next parts =>
        rw [List.intercalate_cons_cons]
        rcases List.mem_cons.1 hpart with rfl | hrest
        · rw [List.append_assoc]
          exact (List.prefix_append _ _).isInfix
        · exact (ih hrest).trans (List.suffix_append _ _).isInfix
  have hself : [a].intercalate (l.splitOn a) = l := List.intercalate_splitOn a
  have hpart := hjoin _ h
  rwa [hself] at hpart

theorem splitOn_append_sep (h : a ∉ front) :
    (front ++ a :: rest).splitOn a = front :: rest.splitOn a := by
  rw [splitOn_append_cons, List.splitOn_eq_singleton h, List.singleton_append]

/-- The translation puts `b` in place of `a`, keeps what stands before and behind apart,
and makes no other `b`. -/
structure Respects (f : List α → List β) (a : α) (b : β) : Prop where
  append : ∀ front rest, f (front ++ a :: rest) = f front ++ b :: f rest
  mem : ∀ l, b ∈ f l → a ∈ l

/-- Cutting everywhere, before or after the translation. -/
theorem Respects.splitOn (h : Respects f a b) (l : List α) :
    (f l).splitOn b = (l.splitOn a).map f := by
  induction hn : l.length using Nat.strongRecOn generalizing l with
  | ind n ih =>
    by_cases hmem : a ∈ l
    · obtain ⟨front, rest, rfl, hfront⟩ := List.eq_append_cons_of_mem hmem
      have hrest := ih rest.length (by rw [← hn]; simp; omega) rest rfl
      have hkept : b ∉ f front := fun hb => hfront (h.mem front hb)
      rw [h.append, splitOn_append_sep hkept, splitOn_append_sep hfront, hrest, List.map_cons]
    · have hkept : b ∉ f l := fun hb => hmem (h.mem l hb)
      rw [List.splitOn_eq_singleton hkept, List.splitOn_eq_singleton hmem]
      rfl

theorem Respects.cutOnce (h : Respects f a b) (l : List α) :
    cutOnce b (f l) = (Base.cutOnce a l).map fun p => (f p.1, f p.2) := by
  by_cases hmem : a ∈ l
  · obtain ⟨front, rest, rfl, hfront⟩ := List.eq_append_cons_of_mem hmem
    have hkept : b ∉ f front := fun hb => hfront (h.mem front hb)
    rw [h.append, cutOnce_append hkept, cutOnce_append hfront]
    rfl
  · have hkept : b ∉ f l := fun hb => hmem (h.mem l hb)
    rw [cutOnce_eq_none hkept, cutOnce_eq_none hmem]
    rfl

end Lists

/-! ## texts -/

theorem splitOnce_eq (s : String) (sep : Char) :
    splitOnce s sep = (cutOnce sep s.toList).map fun p =>
      (String.ofList p.1, String.ofList p.2) := by
  unfold splitOnce cutOnce
  cases hspan : s.toList.span (· != sep) with
  | mk front rest => cases rest <;> rfl

variable {b : UInt8} {c : Char}

theorem mem_of_mem_lossyChars (hc : String.utf8EncodeChar c = [b]) (hfffd : c ≠ '�')
    (bytes : Bytes) (h : c ∈ lossyChars bytes) : b ∈ bytes := by
  induction bytes using lossy_induction with
  | nil =>
    rw [lossyChars_nil] at h
    cases h
  | char bytes d hdecode ih =>
    rw [lossyChars_of_some hdecode, List.mem_cons] at h
    obtain rfl | h := h
    · obtain ⟨more, hmore⟩ := decodeHead_eq_some_iff.1 hdecode
      rw [← hmore, hc]
      exact List.mem_cons_self
    · exact List.mem_of_mem_drop (ih h)
  | illFormed bytes hne hdecode ih =>
    rw [lossyChars_of_none hne hdecode, List.mem_cons] at h
    obtain rfl | h := h
    · exact absurd rfl hfffd
    · exact List.mem_of_mem_drop (ih h)

/-- Reading UTF-8, with replacement characters for what is ill-formed. -/
theorem respects_lossyChars (hc : String.utf8EncodeChar c = [b]) (hb : b < 0x80)
    (hfffd : c ≠ '�') : Respects lossyChars b c where
  append front rest := by
    have hchar : b :: rest = String.utf8EncodeChar c ++ rest := by
      rw [hc]
      rfl
    rw [lossyChars_append_ascii _ _ hb, hchar, lossyChars_encode_append]
  mem := mem_of_mem_lossyChars hc hfffd

/-- Writing UTF-8. -/
theorem respects_encodeChars (hc : String.utf8EncodeChar c = [b]) (hb : b < 0x80) :
    Respects encodeChars c b where
  append front rest := by rw [encodeChars_append, encodeChars_cons, hc, List.singleton_append]
  mem cs h := by
    obtain ⟨d, hd, hmem⟩ := List.mem_flatMap.1 h
    cases hbytes : String.utf8EncodeChar d with
    | nil =>
      rw [hbytes] at hmem
      cases hmem
    | cons b₀ more =>
      rw [hbytes, List.mem_cons] at hmem
      obtain rfl | hmem := hmem
      · -- the first byte of a character tells it, if it is ASCII
        have hsame : decodeHead (b :: more) = some c := by
          rw [← List.singleton_append, ← hc]
          exact decodeHead_encode c more
        have hown := decodeHead_encode d []
        rw [List.append_nil, hbytes, hsame] at hown
        rwa [Option.some.inj hown]
      · have hhigh := ascii_lt_of_mem_tail_encode (c := d) (by rw [hbytes]; exact hmem)
        exact absurd hhigh (UInt8.not_le.2 hb)

theorem lossyChars_eq_nil_iff {bytes : Bytes} : lossyChars bytes = [] ↔ bytes = [] := by
  constructor
  · intro h
    by_contra hne
    cases hdecode : decodeHead bytes with
    | some d =>
      rw [lossyChars_of_some hdecode] at h
      cases h
    | none =>
      rw [lossyChars_of_none hne hdecode] at h
      cases h
  · rintro rfl
    exact lossyChars_nil

end Turbine.Base
