import Turbine.Base.Str

/-!
# Turbine.Base.Patterns

Patterns in a text, ASCII letters compared without regard to case.

* `AhoCorasick`: an automaton for a list of patterns, by what it finds;
* `AhoCorasick.scanner`: trying the patterns at every position is such an automaton.
-/

namespace Turbine.Base

variable {s p stretch : String} {patterns : List String}

/-- A stretch of the text is the pattern, up to case. -/
def Matches (s p stretch : String) : Prop :=
  (∃ front back, s = front ++ stretch ++ back) ∧ eqIgnoreAsciiCase stretch p = true

/-- The text contains the pattern, up to case. -/
def Contains (s p : String) : Prop := ∃ stretch, Matches s p stretch

/-- A searcher for the patterns.  `find` gives the stretch of the text that matches. -/
structure AhoCorasick (patterns : List String) where
  find : String → Option String
  find_sound : ∀ {s stretch}, find s = some stretch → ∃ p ∈ patterns, Matches s p stretch
  find_complete : ∀ {s}, find s = none → ∀ p ∈ patterns, ¬ Contains s p

/-- It finds something exactly if a pattern occurs. -/
theorem AhoCorasick.find_isSome_iff (automaton : AhoCorasick patterns) :
    (automaton.find s).isSome = true ↔ ∃ p ∈ patterns, Contains s p := by
  cases hfind : automaton.find s with
  | none =>
    have hnone := automaton.find_complete hfind
    simpa using hnone
  | some stretch =>
    obtain ⟨p, hp, hmatch⟩ := automaton.find_sound hfind
    simpa using ⟨p, hp, stretch, hmatch⟩

/-! ## deciding -/

theorem occursIn_iff {α : Type} [BEq α] [LawfulBEq α] {sub l : List α} :
    occursIn sub l = true ↔ sub <:+: l := by
  induction l with
  | nil => simp [occursIn]
  | cons a l ih => rw [occursIn, Bool.or_eq_true_iff, List.isPrefixOf_iff_prefix, ih,
      List.infix_cons_iff]

/-- The lower-case letters of a text. -/
def lowerChars (s : String) : List Char := s.toList.map Char.toLower

theorem eqIgnoreAsciiCase_iff {t : String} :
    eqIgnoreAsciiCase s t = true ↔ lowerChars s = lowerChars t := by
  rw [eqIgnoreAsciiCase, beq_iff_eq, toAsciiLowercase, toAsciiLowercase, String.ofList_inj]
  rfl

theorem contains_iff : Contains s p ↔ lowerChars p <:+: lowerChars s := by
  constructor
  · rintro ⟨stretch, ⟨front, back, rfl⟩, hcase⟩
    rw [← eqIgnoreAsciiCase_iff.1 hcase]
    simp only [lowerChars, String.toList_append, List.map_append]
    exact List.infix_append _ _ _
  · rintro ⟨front, back, hs⟩
    -- the stretch is what the pattern's letters are the lower case of
    obtain ⟨rest, tail, hrest, hfront, -⟩ := List.map_eq_append_iff.1 hs.symm
    obtain ⟨head, mid, hmid, -, hpattern⟩ := List.map_eq_append_iff.1 hfront
    refine ⟨String.ofList mid, ⟨String.ofList head, String.ofList tail, ?_⟩, ?_⟩
    · rw [← String.toList_inj]
      simp [hrest, hmid]
    · rw [eqIgnoreAsciiCase_iff, lowerChars, String.toList_ofList, hpattern]

instance : Decidable (Contains s p) :=
  decidable_of_iff (occursIn (lowerChars p) (lowerChars s) = true)
    (occursIn_iff.trans contains_iff.symm)

theorem length_le_of_contains (h : Contains s p) : p.toList.length ≤ s.toList.length := by
  have hle := (contains_iff.1 h).length_le
  rwa [lowerChars, lowerChars, List.length_map, List.length_map] at hle

/-! ## a searcher -/

/-- A pattern that matches at the front of the text, as it is written there. -/
def matchAt (patterns : List String) (cs : List Char) : Option (List Char) :=
  (patterns.find? fun p => (lowerChars p).isPrefixOf (cs.map Char.toLower)).map fun p =>
    cs.take p.toList.length

/-- The first position at which a pattern matches. -/
def scan (patterns : List String) : List Char → Option (List Char)
  | [] => matchAt patterns []
  | c :: cs => (matchAt patterns (c :: cs)).or (scan patterns cs)

theorem matchAt_sound {cs mid : List Char} (h : matchAt patterns cs = some mid) :
    mid <+: cs ∧ ∃ p ∈ patterns, mid.map Char.toLower = lowerChars p := by
  obtain ⟨p, hfind, rfl⟩ := Option.map_eq_some_iff.1 h
  have hfront : lowerChars p <+: cs.map Char.toLower := by simpa using List.find?_some hfind
  refine ⟨List.take_prefix _ _, p, List.mem_of_find?_eq_some hfind, ?_⟩
  have hlength : p.toList.length = (lowerChars p).length := by rw [lowerChars, List.length_map]
  rw [List.map_take, hlength, ← List.prefix_iff_eq_take.1 hfront]

theorem matchAt_eq_none {cs : List Char} (h : matchAt patterns cs = none) (hp : p ∈ patterns) :
    ¬ lowerChars p <+: cs.map Char.toLower := by
  intro hfront
  have hnone := List.find?_eq_none.1 (Option.map_eq_none_iff.1 h) p hp
  exact hnone (List.isPrefixOf_iff_prefix.2 hfront)

theorem scan_sound {cs mid : List Char} (h : scan patterns cs = some mid) :
    mid <:+: cs ∧ ∃ p ∈ patterns, mid.map Char.toLower = lowerChars p := by
  induction cs with
  | nil =>
    obtain ⟨hfront, hp⟩ := matchAt_sound h
    exact ⟨hfront.isInfix, hp⟩
  | cons c cs ih =>
    obtain hhere | ⟨-, hlater⟩ := Option.or_eq_some_iff.1 h
    · obtain ⟨hfront, hp⟩ := matchAt_sound hhere
      exact ⟨hfront.isInfix, hp⟩
    · obtain ⟨hstretch, hp⟩ := ih hlater
      exact ⟨List.infix_cons hstretch, hp⟩

theorem scan_eq_none {cs : List Char} (h : scan patterns cs = none) (hp : p ∈ patterns) :
    ¬ lowerChars p <:+: cs.map Char.toLower := by
  induction cs with
  | nil =>
    rw [List.map_nil, List.infix_nil, ← List.prefix_nil]
    exact matchAt_eq_none h hp
  | cons c cs ih =>
    obtain ⟨hhere, hlater⟩ := Option.or_eq_none_iff.1 h
    rw [List.map_cons, List.infix_cons_iff, ← List.map_cons]
    exact not_or.2 ⟨matchAt_eq_none hhere hp, ih hlater⟩

/-- Trying all patterns at one position after the other. -/
def AhoCorasick.scanner (patterns : List String) : AhoCorasick patterns where
  find s := (scan patterns s.toList).map String.ofList
  find_sound := by
    intro s stretch h
    obtain ⟨mid, hscan, rfl⟩ := Option.map_eq_some_iff.1 h
    obtain ⟨⟨front, back, hs⟩, p, hp, hcase⟩ := scan_sound hscan
    refine ⟨p, hp, ⟨String.ofList front, String.ofList back, ?_⟩, ?_⟩
    · rw [← String.toList_inj]
      simp [hs]
    · rw [eqIgnoreAsciiCase_iff, lowerChars, String.toList_ofList, hcase]
  find_complete := by
    intro s h p hp hcontains
    exact scan_eq_none (Option.map_eq_none_iff.1 h) hp (contains_iff.1 hcontains)

end Turbine.Base
