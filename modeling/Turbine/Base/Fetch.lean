import Turbine.Base.Bytes

/-!
# Turbine.Base.Fetch

Programs that read a stream by calls of `read_exact`: each asks for a number of
items and goes on with them, or with the news that the stream has ended before.

* `Reads`: the program does what a function on lists does (`Reads.bind`,
  `Reads.many`), for the readers of `Turbine.Base.Bytes`.
-/

namespace Turbine.Base

variable {α ε ρ ρ' : Type}

/-- A program that reads items and ends with a result or an error. -/
inductive Fetch (α ε ρ : Type)
  | done (r : Except ε ρ)
  | recv (n : Nat) (next : Option (List α) → Fetch α ε ρ)

namespace Fetch

/-- One program after the other; an error ends both. -/
def andThen : Fetch α ε ρ → (ρ → Fetch α ε ρ') → Fetch α ε ρ'
  | .done (.ok r), k => k r
  | .done (.error e), _ => .done (.error e)
  | .recv n next, k => .recv n fun xs => (next xs).andThen k

instance : Monad (Fetch α ε) where
  pure r := .done (.ok r)
  bind := andThen

/-- `read_exact` of `n` items, with the error it gives when the stream ends before. -/
def exactly (e : ε) (n : Nat) : Fetch α ε (List α) :=
  .recv n fun xs => .done (xs.elim (.error e) .ok)

/-- `n` times the same. -/
def many (item : Fetch α ε ρ) : Nat → Fetch α ε (List ρ)
  | 0 => pure []
  | n + 1 => do
      let a ← item
      let as ← many item n
      pure (a :: as)

/-- What the program makes of a stream that goes on, or not, behind the given items: its
result and the items behind it, or `none` if it has to wait. -/
def eval (ended : Bool) : Fetch α ε ρ → List α → Option (Except ε ρ × List α)
  | .done r, xs => some (r, xs)
  | .recv n next, xs =>
    if n ≤ xs.length then (next (some (xs.take n))).eval ended (xs.drop n)
    else if ended then (next none).eval ended [] else none

variable {ended : Bool} {f : Fetch α ε ρ} {k : ρ → Fetch α ε ρ'} {xs : List α}

@[simp] theorem eval_pure (r : ρ) (xs : List α) :
    (pure r : Fetch α ε ρ).eval ended xs = some (.ok r, xs) := rfl

theorem eval_exactly (e : ε) (n : Nat) (xs : List α) :
    (exactly e n).eval ended xs =
      if n ≤ xs.length then some (.ok (xs.take n), xs.drop n)
      else if ended then some (.error e, []) else none := rfl

/-- The second program goes on behind the first. -/
theorem eval_bind (f : Fetch α ε ρ) (k : ρ → Fetch α ε ρ') (xs : List α) :
    (f >>= k).eval ended xs =
      (f.eval ended xs).bind fun (r, rest) =>
        match r with
        | .ok a => (k a).eval ended rest
        | .error e => some (.error e, rest) := by
  change (f.andThen k).eval ended xs = _
  induction f generalizing xs with
  | done r => cases r <;> rfl
  | recv n next ih =>
    rw [andThen, eval, eval]
    split_ifs
    · exact ih _ _
    · exact ih _ _
    · rfl

theorem eval_bind_ok {a : ρ} {rest : List α} (h : f.eval ended xs = some (.ok a, rest)) :
    (f >>= k).eval ended xs = (k a).eval ended rest := by
  rw [eval_bind, h, Option.bind_some]

/-! ## functions on lists -/

/-- The program gives what `g` gives.  Where `g` does not find enough, it waits, or fails
with `e` if the stream has ended. -/
def Reads (e : ε) (f : Fetch α ε ρ) (g : List α → Option (ρ × List α)) : Prop :=
  ∀ ended xs, f.eval ended xs =
    match g xs with
    | some (r, rest) => some (.ok r, rest)
    | none => if ended then some (.error e, []) else none

theorem Reads.eval_of_some {e : ε} {g : List α → Option (ρ × List α)} (hf : Reads e f g)
    {r : ρ} {rest : List α} (h : g xs = some (r, rest)) : f.eval ended xs = some (.ok r, rest) := by
  rw [hf ended xs, h]

theorem reads_pure (e : ε) (r : ρ) : Reads e (pure r : Fetch α ε ρ) fun xs => some (r, xs) :=
  fun _ _ => rfl

theorem Reads.bind {e : ε} {g : List α → Option (ρ × List α)}
    {h : ρ → List α → Option (ρ' × List α)} (hf : Reads e f g) (hk : ∀ r, Reads e (k r) (h r)) :
    Reads e (f >>= k) fun xs => g xs >>= fun p => h p.1 p.2 := by
  intro ended xs
  rw [eval_bind, hf ended xs]
  dsimp only
  cases g xs with
  | none => cases ended <;> rfl
  | some p => exact hk p.1 ended p.2

theorem reads_exactly (e : ε) (n : Nat) :
    Reads e (exactly e n : Fetch UInt8 ε Bytes) (splitOff n) := by
  intro ended bytes
  rw [eval_exactly, splitOff]
  by_cases hlen : n ≤ bytes.length
  · rw [if_pos hlen, if_pos hlen]
  · rw [if_neg hlen, if_neg hlen]

theorem Reads.many {e : ε} {item : Fetch UInt8 ε ρ} {g : Bytes → Option (ρ × Bytes)}
    (hitem : Reads e item g) (n : Nat) : Reads e (item.many n) (readMany g n) := by
  induction n with
  | zero => exact reads_pure e []
  | succ n ih => exact hitem.bind fun a => ih.bind fun as => reads_pure e (a :: as)

/-- A little-endian number of `k` bytes. -/
def nat (e : ε) (k : Nat) : Fetch UInt8 ε Nat := do
  let bytes ← exactly e k
  pure (leValue bytes)

theorem reads_nat (e : ε) (k : Nat) : Reads e (nat e k) (readNat k) := by
  have h := (reads_exactly e k).bind fun bytes => reads_pure e (leValue bytes)
  intro ended bytes
  rw [nat, h ended bytes, readNat]
  dsimp only
  cases splitOff k bytes <;> rfl

end Fetch

end Turbine.Base
