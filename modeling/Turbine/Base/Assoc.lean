import Mathlib.Data.List.Perm.Basic
import Mathlib.Data.List.Nodup

/-!
# Turbine.Base.Assoc

Association lists that are searched with `find?`, from which a key is taken out with
`filter`, and in which a value is put in place or changed with `upsert`.

* `find?_eq_some_iff`: where no key stands twice, finding is membership, so that the
  order of the entries does not matter (`find?_perm`).
-/

namespace Turbine.Base

variable {κ ν : Type} [BEq κ] [LawfulBEq κ] {l l' : List (κ × ν)} {k key : κ} {v : ν}

theorem find?_filter_self : (l.filter (·.1 != key)).find? (·.1 == key) = none := by
  rw [List.find?_eq_none]
  intro e he
  simpa using (List.mem_filter.1 he).2

theorem find?_filter_ne (hk : k ≠ key) :
    (l.filter (·.1 != key)).find? (·.1 == k) = l.find? (·.1 == k) := by
  induction l with
  | nil => rfl
  | cons e l ih =>
    rw [List.filter_cons]
    split
    · rw [List.find?_cons, List.find?_cons, ih]
    case isFalse he =>
      have hkey : e.1 = key := by simpa using he
      have hne : (e.1 == k) = false := by simpa [hkey] using Ne.symm hk
      rw [ih, List.find?_cons, hne]

theorem mem_of_find? {e : κ × ν} (h : l.find? (·.1 == key) = some e) : e.1 = key ∧ e ∈ l :=
  ⟨by simpa using List.find?_some h, List.mem_of_find?_eq_some h⟩

theorem find?_eq_some_iff (h : (l.map Prod.fst).Nodup) :
    l.find? (·.1 == key) = some (key, v) ↔ (key, v) ∈ l := by
  constructor
  · exact List.mem_of_find?_eq_some
  · intro hmem
    induction l with
    | nil => cases hmem
    | cons e l ih =>
      rw [List.map_cons, List.nodup_cons] at h
      rw [List.find?_cons]
      obtain rfl | hmem := List.mem_cons.1 hmem
      · simp
      · have hne : e.1 ≠ key := by
          rintro rfl
          exact h.1 (List.mem_map.2 ⟨_, hmem, rfl⟩)
        rw [beq_eq_false_iff_ne.2 hne]
        exact ih h.2 hmem

theorem find?_perm (h : (l.map Prod.fst).Nodup) (hl : l'.Perm l) :
    l'.find? (·.1 == key) = l.find? (·.1 == key) := by
  have h' : (l'.map Prod.fst).Nodup := (hl.map Prod.fst).nodup_iff.2 h
  have hmem : ∀ e, l'.find? (·.1 == key) = some e ↔ l.find? (·.1 == key) = some e := by
    rintro ⟨k, v⟩
    constructor
    · intro hfind
      obtain ⟨rfl, hmem⟩ := mem_of_find? hfind
      exact (find?_eq_some_iff h).2 (hl.mem_iff.1 hmem)
    · intro hfind
      obtain ⟨rfl, hmem⟩ := mem_of_find? hfind
      exact (find?_eq_some_iff h').2 (hl.mem_iff.2 hmem)
  exact Option.ext hmem

theorem length_filter_ne (h : (l.map Prod.fst).Nodup) (hk : key ∈ l.map Prod.fst) :
    (l.filter (·.1 != key)).length + 1 = l.length := by
  induction l with
  | nil => cases hk
  | cons e l ih =>
    rw [List.map_cons, List.nodup_cons] at h
    by_cases he : e.1 = key
    · subst he
      have hkeep : l.filter (·.1 != e.1) = l := by
        refine List.filter_eq_self.2 fun x hx => ?_
        have hne : x.1 ≠ e.1 := fun heq => h.1 (heq ▸ List.mem_map_of_mem (f := Prod.fst) hx)
        simpa using hne
      rw [List.filter_cons_of_neg (by simp), hkeep, List.length_cons]
    · have hk' : key ∈ l.map Prod.fst := by
        obtain rfl | hk := List.mem_cons.1 hk
        · exact absurd rfl he
        · exact hk
      rw [List.filter_cons_of_pos (by simpa using he), List.length_cons, List.length_cons,
        ih h.2 hk']

omit [BEq κ] [LawfulBEq κ] in
theorem nodup_keys_filter {p : κ × ν → Bool} (h : (l.map Prod.fst).Nodup) :
    ((l.filter p).map Prod.fst).Nodup := h.sublist (List.filter_sublist.map Prod.fst)

/-- The value of the key is changed; a key that is missing comes with a first value. -/
def upsert {κ ν : Type} [BEq κ] (key : κ) (first : ν) (f : ν → ν) : List (κ × ν) → List (κ × ν)
  | [] => [(key, f first)]
  | e :: l => if e.1 == key then (e.1, f e.2) :: l else e :: upsert key first f l

variable {first : ν} {f : ν → ν}

theorem find?_upsert_self : (upsert key first f l).find? (·.1 == key) =
    some (key, f (((l.find? (·.1 == key)).map Prod.snd).getD first)) := by
  induction l with
  | nil => simp [upsert]
  | cons e l ih =>
    rw [upsert]
    split
    case isTrue he =>
      have hkey : e.1 = key := by simpa using he
      simp [hkey]
    case isFalse he =>
      have hkey : (e.1 == key) = false := by simpa using he
      rw [List.find?_cons, List.find?_cons, hkey, ih]

theorem find?_upsert_ne (hk : k ≠ key) :
    (upsert key first f l).find? (·.1 == k) = l.find? (·.1 == k) := by
  induction l with
  | nil => simp [upsert, hk.symm]
  | cons e l ih =>
    rw [upsert]
    split
    case isTrue he =>
      have hkey : e.1 = key := by simpa using he
      have hne : (e.1 == k) = false := by simpa [hkey] using Ne.symm hk
      rw [List.find?_cons, List.find?_cons, hne]
    case isFalse => rw [List.find?_cons, List.find?_cons, ih]

theorem mem_keys_upsert : k ∈ (upsert key first f l).map Prod.fst ↔
    k = key ∨ k ∈ l.map Prod.fst := by
  induction l with
  | nil => simp [upsert]
  | cons e l ih =>
    rw [upsert]
    split
    case isTrue he =>
      have hkey : e.1 = key := by simpa using he
      simp [hkey]
    case isFalse =>
      rw [List.map_cons, List.map_cons, List.mem_cons, List.mem_cons, ih]
      exact or_left_comm

theorem nodup_keys_upsert (h : (l.map Prod.fst).Nodup) :
    ((upsert key first f l).map Prod.fst).Nodup := by
  induction l with
  | nil => simp [upsert]
  | cons e l ih =>
    rw [List.map_cons, List.nodup_cons] at h
    rw [upsert]
    split
    case isTrue => rwa [List.map_cons, List.nodup_cons]
    case isFalse he =>
      have hkey : e.1 ≠ key := by simpa using he
      rw [List.map_cons, List.nodup_cons, mem_keys_upsert]
      exact ⟨not_or.2 ⟨hkey, h.1⟩, ih h.2⟩

end Turbine.Base
