import Mathlib.Algebra.Group.Nat.Defs
import Mathlib.Data.List.Basic

/-!
# Turbine.Base.Bytes

Byte-list plumbing for wire formats: little-endian numbers of a fixed width,
and readers that take a value off the front of a byte list and hand on the rest.

* `leBytes`, `leValue`: a number of `k` bytes and back; a number that is too
  large loses its high bytes (`leValue_leBytes`);
* `readMany`: a counted run of items (`readMany_flatMap`, `readMany_flatMap_iff`).

Readers are stated in prefix form: they are given what a writer wrote, followed
by anything.
-/

namespace Turbine.Base

abbrev Bytes := List UInt8

variable {α : Type} {bytes front rest : Bytes} {k n : Nat}

/-! ## little-endian numbers -/

/-- The `k` low bytes of `n`, the lowest first. -/
def leBytes : Nat → Nat → Bytes
  | 0, _ => []
  | k + 1, n => UInt8.ofNat n :: leBytes k (n / 256)

/-- The number that little-endian bytes spell. -/
def leValue : Bytes → Nat
  | [] => 0
  | b :: bs => b.toNat + 256 * leValue bs

@[simp] theorem length_leBytes (k n : Nat) : (leBytes k n).length = k := by
  induction k generalizing n with
  | zero => rfl
  | succ k ih => rw [leBytes, List.length_cons, ih]

/-- What is read back is the number reduced to its width. -/
@[simp] theorem leValue_leBytes (k n : Nat) : leValue (leBytes k n) = n % 256 ^ k := by
  induction k generalizing n with
  | zero => rw [leBytes, leValue, Nat.pow_zero, Nat.mod_one]
  | succ k ih =>
    have hbyte : (UInt8.ofNat n).toNat = n % 256 := by simp
    rw [leBytes, leValue, ih, hbyte, Nat.pow_succ, Nat.mul_comm (256 ^ k), Nat.mod_mul]

/-! ## readers -/

/-- The first `n` bytes and the rest, if there are that many. -/
def splitOff (n : Nat) (bytes : Bytes) : Option (Bytes × Bytes) :=
  if n ≤ bytes.length then some (bytes.take n, bytes.drop n) else none

theorem splitOff_append (h : front.length = n) :
    splitOff n (front ++ rest) = some (front, rest) := by
  subst h
  simp [splitOff]

/-- Fewer bytes than the first ones: a part of them stays behind. -/
theorem splitOff_append_of_le (h : n ≤ front.length) :
    splitOff n (front ++ rest) = some (front.take n, front.drop n ++ rest) := by
  rw [← splitOff_append (List.length_take_of_le h), ← List.append_assoc, List.take_append_drop]

theorem splitOff_append_iff {rest' : Bytes} :
    splitOff n (front ++ rest) = some (front, rest') ↔ n = front.length ∧ rest' = rest := by
  constructor
  · intro h
    rw [splitOff, Option.ite_none_right_eq_some, Option.some.injEq, Prod.mk.injEq] at h
    obtain ⟨hle, htake, hdrop⟩ := h
    have hn : n = front.length := by rw [← List.length_take_of_le hle, htake]
    rw [hn, List.drop_left] at hdrop
    exact ⟨hn, hdrop.symm⟩
  · intro ⟨hn, hrest⟩
    rw [hrest, splitOff_append hn.symm]

theorem append_of_splitOff (h : splitOff n bytes = some (front, rest)) : front ++ rest = bytes := by
  rw [splitOff, Option.ite_none_right_eq_some, Option.some.injEq, Prod.mk.injEq] at h
  rw [← h.2.1, ← h.2.2, List.take_append_drop]

theorem suffix_of_splitOff (h : splitOff n bytes = some (front, rest)) : rest <:+ bytes :=
  ⟨front, append_of_splitOff h⟩

/-- The first number of `k` bytes and the rest. -/
def readNat (k : Nat) (bytes : Bytes) : Option (Nat × Bytes) :=
  (splitOff k bytes).map fun p => (leValue p.1, p.2)

@[simp] theorem readNat_leBytes (k n : Nat) (rest : Bytes) :
    readNat k (leBytes k n ++ rest) = some (n % 256 ^ k, rest) := by
  rw [readNat, splitOff_append (length_leBytes k n), Option.map_some, leValue_leBytes]

theorem suffix_of_readNat {v : Nat} (h : readNat k bytes = some (v, rest)) : rest <:+ bytes := by
  rw [readNat, Option.map_eq_some_iff] at h
  obtain ⟨⟨front, rest'⟩, hsplit, heq⟩ := h
  rw [Prod.mk.injEq] at heq
  exact heq.2 ▸ suffix_of_splitOff hsplit

/-- The same, in front of whatever is done with the number. -/
theorem readNat_leBytes_bind {β : Type} (k n : Nat) (rest : Bytes) (f : Nat × Bytes → Option β) :
    (readNat k (leBytes k n ++ rest)).bind f = f (n % 256 ^ k, rest) := by
  rw [readNat_leBytes, Option.bind_some]

theorem uint16_ofNat_mod (x : UInt16) : UInt16.ofNat (x.toNat % 256 ^ 2) = x := by
  have hmod : x.toNat % 256 ^ 2 = x.toNat := Nat.mod_eq_of_lt x.toNat_lt
  rw [hmod, UInt16.ofNat_toNat]

/-- `n` items in a row. -/
def readMany (item : Bytes → Option (α × Bytes)) : Nat → Bytes → Option (List α × Bytes)
  | 0, bytes => some ([], bytes)
  | n + 1, bytes => do
      let (a, bytes) ← item bytes
      let (as, bytes) ← readMany item n bytes
      some (a :: as, bytes)

/-- Reading `n` items off the encodings of at least as many, where an item reads
back exactly if `ok` holds of it. -/
theorem readMany_flatMap {item : Bytes → Option (α × Bytes)}
    {write : α → Bytes} {ok : α → Prop} [DecidablePred ok]
    (hitem : ∀ a rest, item (write a ++ rest) = if ok a then some (a, rest) else none)
    (as : List α) (hn : n ≤ as.length) (rest : Bytes) :
    readMany item n (as.flatMap write ++ rest) =
      if ∀ a ∈ as.take n, ok a then some (as.take n, (as.drop n).flatMap write ++ rest)
      else none := by
  induction n generalizing as with
  | zero => simp [readMany]
  | succ n ih =>
    cases as with
    | nil => simp at hn
    | cons a as =>
      have hlen : n ≤ as.length := by simpa using hn
      rw [List.flatMap_cons, List.append_assoc, readMany, hitem]
      by_cases ha : ok a
      · simp only [ha, if_true, Option.bind_eq_bind, Option.bind_some, ih as hlen,
          List.take_succ_cons, List.drop_succ_cons, List.forall_mem_cons, true_and]
        split <;> rfl
      · simp [ha]

/-- Reading `n` items off the encodings of at least as many gives those items
back iff each of them reads back. -/
theorem readMany_flatMap_iff {item : Bytes → Option (α × Bytes)}
    {write : α → Bytes} {ok : α → Prop} {rest' : Bytes}
    (hitem : ∀ a rest rest', item (write a ++ rest) = some (a, rest') ↔ ok a ∧ rest' = rest)
    (as : List α) (hn : n ≤ as.length) (rest : Bytes) :
    readMany item n (as.flatMap write ++ rest) = some (as.take n, rest') ↔
      (∀ a ∈ as.take n, ok a) ∧ rest' = (as.drop n).flatMap write ++ rest := by
  induction n generalizing as with
  | zero => simp [readMany, eq_comm]
  | succ n ih =>
    cases as with
    | nil => simp at hn
    | cons a as =>
      have hlen : n ≤ as.length := by simpa using hn
      rw [List.flatMap_cons, List.append_assoc, readMany, List.take_succ_cons,
        List.drop_succ_cons, List.forall_mem_cons, and_assoc, ← ih as hlen]
      simp only [Option.bind_eq_bind, Option.bind_eq_some_iff, Option.some.injEq,
        Prod.mk.injEq, List.cons.injEq, Prod.exists]
      constructor
      · intro ⟨a', bytes, ha, as', bytes', has, ⟨haeq, haseq⟩, hrest⟩
        subst haeq haseq hrest
        obtain ⟨hok, hbytes⟩ := (hitem _ _ _).1 ha
        exact ⟨hok, hbytes ▸ has⟩
      · intro ⟨hok, has⟩
        exact ⟨a, _, (hitem _ _ _).2 ⟨hok, rfl⟩, _, _, has, ⟨rfl, rfl⟩, rfl⟩

theorem length_of_readMany {item : Bytes → Option (α × Bytes)} {as : List α}
    (h : readMany item n bytes = some (as, rest)) : as.length = n := by
  induction n generalizing bytes as with
  | zero =>
    rw [readMany, Option.some.injEq, Prod.mk.injEq] at h
    rw [← h.1, List.length_nil]
  | succ n ih =>
    simp only [readMany, Option.bind_eq_bind, Option.bind_eq_some_iff, Option.some.injEq,
      Prod.mk.injEq, Prod.exists] at h
    obtain ⟨a, bytes', -, as', rest', has, hcons, hrest⟩ := h
    rw [← hcons, List.length_cons, ih (hrest ▸ has)]

theorem suffix_of_readMany {item : Bytes → Option (α × Bytes)} {as : List α}
    (hitem : ∀ {bytes a rest}, item bytes = some (a, rest) → rest <:+ bytes)
    (h : readMany item n bytes = some (as, rest)) : rest <:+ bytes := by
  induction n generalizing bytes as with
  | zero =>
    rw [readMany, Option.some.injEq, Prod.mk.injEq] at h
    exact h.2 ▸ List.suffix_refl _
  | succ n ih =>
    simp only [readMany, Option.bind_eq_bind, Option.bind_eq_some_iff, Option.some.injEq,
      Prod.mk.injEq, Prod.exists] at h
    obtain ⟨a, bytes', ha, as', rest', has, -, hrest⟩ := h
    exact (ih (hrest ▸ has)).trans (hitem ha)

end Turbine.Base
