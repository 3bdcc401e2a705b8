import Mathlib.Data.List.Basic

/-!
# Turbine.Base.Counting

Counting and searching in a list of which one position is overwritten, the
shape every "how many threads are in such a state" and "some thread is in
such a state" argument takes.
-/

namespace Turbine.Base

variable {α : Type} {l : List α} {t : Nat} {a b : α}

/-- Overwriting position `t` trades the old element's contribution for the new
one's. -/
theorem countP_set_add (p : α → Bool) (h : l[t]? = some a) :
    (l.set t b).countP p + (if p a then 1 else 0) = l.countP p + (if p b then 1 else 0) := by
  obtain ⟨ht, rfl⟩ := List.getElem?_eq_some_iff.1 h
  have hset : (l.set t b).countP p =
      l.countP p - (if p l[t] then 1 else 0) + (if p b then 1 else 0) := List.countP_set ht
  have hpos : (if p l[t] then 1 else 0) ≤ l.countP p := by
    split
    case isTrue hp => exact List.countP_pos_iff.2 ⟨l[t], List.getElem_mem ht, hp⟩
    case isFalse => exact Nat.zero_le _
  omega

theorem eq_of_countP_le_one {p : α → Bool} {u : Nat} (h : l.countP p ≤ 1)
    (ht : l[t]? = some a) (ha : p a = true) (hu : l[u]? = some b) (hb : p b = true) : t = u := by
  induction l generalizing t u with
  | nil => simp at ht
  | cons x xs ih =>
    have hpos : ∀ {v : Nat} {c : α}, xs[v]? = some c → p c = true → 0 < xs.countP p :=
      fun hv hc => List.countP_pos_iff.2 ⟨_, List.mem_of_getElem? hv, hc⟩
    rw [List.countP_cons] at h
    cases t with
    | zero =>
      cases u with
      | zero => rfl
      | succ u =>
        obtain rfl : x = a := Option.some.inj ht
        have := hpos (v := u) (by simpa using hu) hb
        rw [if_pos ha] at h
        omega
    | succ t =>
      have := hpos (v := t) (by simpa using ht) ha
      cases u with
      | zero =>
        obtain rfl : x = b := Option.some.inj hu
        rw [if_pos hb] at h
        omega
      | succ u =>
        have := ih (t := t) (u := u) (by omega) (by simpa using ht) (by simpa using hu)
        omega

theorem exists_mem_set (p : α → Prop) (ht : l[t]? = some a) (h : ∃ x ∈ l, p x) :
    p a ∨ ∃ x ∈ l.set t b, p x := by
  obtain ⟨x, hx, hpx⟩ := h
  obtain ⟨u, hu⟩ := List.mem_iff_getElem?.1 hx
  by_cases hut : t = u
  · subst hut
    rw [ht, Option.some.injEq] at hu
    exact .inl (hu ▸ hpx)
  · refine .inr ⟨x, List.mem_of_getElem? (i := u) ?_, hpx⟩
    rw [List.getElem?_set_ne hut, hu]

/-- Overwriting a position by an element that is a witness if the old one was. -/
theorem exists_mem_set_of_imp (p : α → Prop) (ht : l[t]? = some a) (hab : p a → p b)
    (h : ∃ x ∈ l, p x) : ∃ x ∈ l.set t b, p x := by
  obtain ha | hset := exists_mem_set (b := b) p ht h
  · obtain ⟨hlt, -⟩ := List.getElem?_eq_some_iff.1 ht
    exact ⟨b, List.mem_set hlt b, hab ha⟩
  · exact hset

/-- Overwriting a position by an element that has a property there if the old
one had. -/
theorem forall_getElem?_set {p : Nat → α → Prop} (h : ∀ u x, l[u]? = some x → p u x)
    (ht : l[t]? = some a) (hab : p t a → p t b) : ∀ u x, (l.set t b)[u]? = some x → p u x := by
  intro u x hget
  rw [List.getElem?_set] at hget
  split at hget
  case isTrue htu =>
    subst htu
    split at hget
    · obtain rfl := Option.some.inj hget
      exact hab (h t a ht)
    · contradiction
  case isFalse => exact h u x hget

theorem forall_getElem?_concat {p : Nat → α → Prop} (h : ∀ u x, l[u]? = some x → p u x)
    (hb : ∀ u, p u b) : ∀ u x, (l ++ [b])[u]? = some x → p u x := by
  intro u x hget
  rw [List.getElem?_append] at hget
  split at hget
  · exact h u x hget
  · have hx := List.mem_of_getElem? hget
    rw [List.mem_singleton] at hx
    exact hx ▸ hb u

end Turbine.Base
