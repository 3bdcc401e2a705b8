import Turbine.Base.Patterns
import Turbine.Base.Separators
import Turbine.Http.Response

/-!
# Turbine.Http.Accept

The values of the `Accept-Encoding` field in the grammar of RFC 9110: a list of codings
that is separated by commas, each coding with an optional weight, with optional white
space around the elements and with elements left out.

* `AcceptEncoding.contains_value_iff`: the letters of a coding occur in the text of the
  header only within the name of a coding.
-/

namespace Turbine.Http

open Base

/-! ## the grammar -/

/-- Optional white space. -/
structure Ows where
  chars : List Char
  blank : ∀ c ∈ chars, c = ' ' ∨ c = '\t'

def Ows.none : Ows := ⟨[], List.forall_mem_nil _⟩

/-- A number from 0 to 1 with up to three digits behind the point. -/
structure Qvalue where
  one : Bool
  fraction : Option (List (Fin 10))
  short : ∀ digits, fraction = some digits → digits.length ≤ 3
  atMostOne : one = true → ∀ digits, fraction = some digits → ∀ d ∈ digits, d = 0

def Qvalue.text (q : Qvalue) : List Char :=
  (if q.one then '1' else '0') ::
    match q.fraction with
    | none => []
    | some digits => '.' :: digits.map fun d : Fin 10 => Nat.digitChar d.val

def Qvalue.zero : Qvalue where
  one := false
  fraction := none
  short _ h := absurd h.symm (Option.some_ne_none _)
  atMostOne h := absurd h Bool.false_ne_true

def Qvalue.nonzero (q : Qvalue) : Bool := q.one || (q.fraction.getD []).any (· ≠ 0)

/-- `; q=` and a number. -/
structure Weight where
  before : Ows
  after : Ows
  upper : Bool
  value : Qvalue

def Weight.text (w : Weight) : List Char :=
  w.before.chars ++ ';' :: (w.after.chars ++ (if w.upper then 'Q' else 'q') :: '=' :: w.value.text)

/-- A token, in the grammar of RFC 9110. -/
def isToken (s : String) : Bool := !s.isEmpty && s.toList.all isTokenChar

/-- A coding, which is a token such as `gzip` or `*`, and its weight. -/
structure Element where
  coding : String
  token : isToken coding = true
  weight : Option Weight

def Element.text (e : Element) : List Char := e.coding.toList ++ (e.weight.map Weight.text).getD []

/-- A place of the list, which may be empty. -/
structure Slot where
  before : Ows
  element : Option Element
  after : Ows

def Slot.text (slot : Slot) : List Char :=
  slot.before.chars ++ ((slot.element.map Element.text).getD [] ++ slot.after.chars)

structure AcceptEncoding where
  slots : List Slot

/-- The text of the header. -/
def AcceptEncoding.value (h : AcceptEncoding) : String :=
  String.ofList ([','].intercalate (h.slots.map Slot.text))

def AcceptEncoding.elements (h : AcceptEncoding) : List Element := h.slots.filterMap Slot.element

/-! ## what a header accepts -/

/-- The element names the coding, whatever the case of its letters. -/
def Element.names (e : Element) (coding : String) : Bool := eqIgnoreAsciiCase e.coding coding

/-- An element without a weight has weight 1. -/
def Element.nonzero (e : Element) : Bool := (e.weight.map fun w => w.value.nonzero).getD true

/-- The header names the coding with a weight that is not zero. -/
def AcceptEncoding.Wants (h : AcceptEncoding) (coding : String) : Prop :=
  ∃ e ∈ h.elements, e.names coding = true ∧ e.nonzero = true

/-- The header accepts the coding: by its name, or by `*` if it does not name it. -/
def AcceptEncoding.Accepts (h : AcceptEncoding) (coding : String) : Prop :=
  h.Wants coding ∨ (∀ e ∈ h.elements, e.names coding = false) ∧ h.Wants "*"

instance (h : AcceptEncoding) (coding : String) : Decidable (h.Wants coding) :=
  inferInstanceAs (Decidable (∃ e ∈ h.elements, _ ∧ _))

instance (h : AcceptEncoding) (coding : String) : Decidable (h.Accepts coding) :=
  inferInstanceAs (Decidable (_ ∨ _ ∧ _))

/-- The letters of the coding occur in the name of some coding, whatever their case. -/
def AcceptEncoding.Mentions (h : AcceptEncoding) (coding : String) : Prop :=
  ∃ e ∈ h.elements, Contains e.coding coding

instance (h : AcceptEncoding) (coding : String) : Decidable (h.Mentions coding) :=
  inferInstanceAs (Decidable (∃ e ∈ h.elements, _))

theorem AcceptEncoding.mentions_of_wants {h : AcceptEncoding} {coding : String}
    (hwants : h.Wants coding) : h.Mentions coding := by
  obtain ⟨e, he, hname, -⟩ := hwants
  refine ⟨e, he, contains_iff.2 ?_⟩
  simp [eqIgnoreAsciiCase_iff.1 hname]

/-! ## what stands between the codings -/

/-- The characters of the list that are in no coding, in lower case. -/
def separators : List Char := " \t,;q=.0123456789".toList

def Separating (cs : List Char) : Prop := ∀ c ∈ cs, c.toLower ∈ separators

theorem Ows.separating (ows : Ows) : Separating ows.chars := by
  intro c hc
  obtain rfl | rfl := ows.blank c hc <;> decide

theorem separating_cons {c : Char} {cs : List Char} (hc : c.toLower ∈ separators)
    (hcs : Separating cs) : Separating (c :: cs) := List.forall_mem_cons.2 ⟨hc, hcs⟩

theorem separating_append {cs ds : List Char} (hcs : Separating cs) (hds : Separating ds) :
    Separating (cs ++ ds) := List.forall_mem_append.2 ⟨hcs, hds⟩

theorem Qvalue.separating (q : Qvalue) : Separating q.text := by
  have hdigits : ((List.range 10).all fun n => (Nat.digitChar n).toLower ∈ separators) = true := by
    decide
  refine separating_cons (by split <;> decide) ?_
  split
  · exact List.forall_mem_nil _
  · refine separating_cons (by decide) fun c hc => ?_
    obtain ⟨d, -, rfl⟩ := List.mem_map.1 hc
    simpa using List.all_eq_true.1 hdigits d.val (List.mem_range.2 d.isLt)

theorem Weight.separating (w : Weight) : Separating w.text :=
  separating_append w.before.separating <| separating_cons (by decide) <|
    separating_append w.after.separating <| separating_cons (by split <;> decide) <|
      separating_cons (by decide) w.value.separating

section Letters

variable {coding : String}

/-- The coding has none of the separating characters. -/
theorem disjoint_of_separating {cs : List Char} (hcs : Separating cs)
    (hletters : ∀ c ∈ separators, c ∉ lowerChars coding) :
    ∀ c ∈ cs.map Char.toLower, c ∉ lowerChars coding := by
  intro c hc
  obtain ⟨d, hd, rfl⟩ := List.mem_map.1 hc
  exact hletters _ (hcs d hd)

theorem Slot.infix_text_iff (slot : Slot) (hne : lowerChars coding ≠ [])
    (hletters : ∀ c ∈ separators, c ∉ lowerChars coding) :
    lowerChars coding <:+: slot.text.map Char.toLower ↔
      ∃ e, slot.element = some e ∧ Contains e.coding coding := by
  rw [Slot.text, List.map_append, List.map_append,
    infix_append_right_iff hne (disjoint_of_separating slot.before.separating hletters),
    infix_append_left_iff hne (disjoint_of_separating slot.after.separating hletters)]
  cases slot.element with
  | none => simp [hne]
  | some e =>
    have hweight : Separating ((e.weight.map Weight.text).getD []) := by
      cases e.weight with
      | none => exact List.forall_mem_nil _
      | some w => exact w.separating
    simp only [Option.map_some, Option.getD_some, Element.text, List.map_append,
      infix_append_left_iff hne (disjoint_of_separating hweight hletters), Option.some.injEq,
      exists_eq_left', contains_iff]
    rfl

/-- The header has the letters of the coding within the name of a coding only. -/
theorem AcceptEncoding.contains_value_iff (h : AcceptEncoding) (hne : lowerChars coding ≠ [])
    (hletters : ∀ c ∈ separators, c ∉ lowerChars coding) :
    Contains h.value coding ↔ h.Mentions coding := by
  have hcomma : ',' ∉ lowerChars coding := hletters ',' (by decide)
  have hlower : lowerChars h.value =
      [','].intercalate ((h.slots.map Slot.text).map (List.map Char.toLower)) := by
    rw [lowerChars, AcceptEncoding.value, String.toList_ofList, map_intercalate]
    rfl
  rw [contains_iff, hlower, infix_intercalate_iff hne hcomma]
  simp only [List.mem_map, exists_exists_and_eq_and, Mentions, AcceptEncoding.elements,
    List.mem_filterMap]
  constructor
  · rintro ⟨slot, hslot, hstretch⟩
    obtain ⟨e, he, hcontains⟩ := (slot.infix_text_iff hne hletters).1 hstretch
    exact ⟨e, ⟨slot, hslot, he⟩, hcontains⟩
  · rintro ⟨e, ⟨slot, hslot, he⟩, hcontains⟩
    exact ⟨slot, hslot, (slot.infix_text_iff hne hletters).2 ⟨e, he, hcontains⟩⟩

end Letters

end Turbine.Http
