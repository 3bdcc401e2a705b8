import Mathlib.Data.List.Infix

/-!
# Turbine.Base.Occurrences

Cutting a list at an occurrence of another.

* `List.dropInfix?` cuts at the first one: `dropInfix_eq_some_iff`, `dropInfix_eq_none_iff`;
* `cutLast` cuts at the last one: `cutLast_eq_some_iff`;
* `Unbordered`: two occurrences of the word cannot overlap.
-/

namespace Turbine.Base

variable {α : Type} [BEq α]

/-- What stands before the last occurrence of `pat`, and what behind it: from behind, it is
the first one. -/
def cutLast (l pat : List α) : Option (List α × List α) :=
  (l.reverse.dropInfix? pat.reverse).map fun p => (p.2.reverse, p.1.reverse)

variable [LawfulBEq α] {pat l front back : List α}

/-- The cut is at the first occurrence. -/
theorem dropInfix_eq_some_iff : l.dropInfix? pat = some (front, back) ↔
    l = front ++ pat ++ back ∧
      ∀ front' back', l = front' ++ pat ++ back' → front.length ≤ front'.length := by
  rw [List.dropInfix?_eq_some_iff]
  simp only [beq_iff_eq, exists_eq_right, ge_iff_le]
  exact and_congr_right fun _ =>
    ⟨fun h front' back' hl => h front' pat back' hl rfl, fun h front' _ back' hl hpat =>
      h front' back' (hpat ▸ hl)⟩

/-- The cut is at the last occurrence. -/
theorem cutLast_eq_some_iff : cutLast l pat = some (front, back) ↔
    l = front ++ pat ++ back ∧
      ∀ front' back', l = front' ++ pat ++ back' → back.length ≤ back'.length := by
  have hmap : cutLast l pat = some (front, back) ↔
      l.reverse.dropInfix? pat.reverse = some (back.reverse, front.reverse) := by
    rw [cutLast, Option.map_eq_some_iff]
    constructor
    · rintro ⟨p, hp, hpair⟩
      obtain ⟨rfl, rfl⟩ := Prod.mk.inj hpair
      rw [hp, List.reverse_reverse, List.reverse_reverse]
    · intro h
      exact ⟨_, h, by rw [List.reverse_reverse, List.reverse_reverse]⟩
  have hrev : ∀ front back : List α, l.reverse = back.reverse ++ pat.reverse ++ front.reverse ↔
      l = front ++ pat ++ back := by
    intro front back
    rw [← List.reverse_append, ← List.reverse_append, List.reverse_inj, List.append_assoc]
  rw [hmap, dropInfix_eq_some_iff, hrev]
  refine and_congr_right fun _ => ⟨fun h front' back' hl => ?_, fun h back' front' hl => ?_⟩
  · simpa using h back'.reverse front'.reverse ((hrev front' back').2 hl)
  · have hrev' := hrev front'.reverse back'.reverse
    rw [List.reverse_reverse, List.reverse_reverse] at hrev'
    simpa using h _ _ (hrev'.1 hl)

/-! ## words without borders -/

/-- No end of the word is a beginning of it, but the word itself. -/
def Unbordered (w : List α) : Prop := ∀ k < w.length, w.drop k <+: w → k = 0

instance {w : List Char} : Decidable (Unbordered w) :=
  inferInstanceAs (Decidable (∀ k < w.length, _ → _))

omit [BEq α] [LawfulBEq α] in
/-- If the word is found before the place where it stands, it is found there as a whole. -/
theorem Unbordered.eq_nil_or {w : List α} (hw : Unbordered w) (h : w <+: front ++ (w ++ back)) :
    front = [] ∨ w <+: front := by
  rcases Nat.lt_or_ge front.length w.length with hlt | hge
  · have hdrop : w.drop front.length <+: w ++ back := by simpa using h.drop front.length
    have hself : w.drop front.length <+: w :=
      List.prefix_of_prefix_length_le hdrop (List.prefix_append _ _) (by simp)
    exact .inl (List.length_eq_zero_iff.1 (hw _ hlt hself))
  · exact .inr (List.prefix_of_prefix_length_le h (List.prefix_append _ _) hge)

end Turbine.Base
