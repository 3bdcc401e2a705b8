import Mathlib.Algebra.Group.Nat.Defs
import Mathlib.Data.Nat.Notation
import Mathlib.Tactic.SplitIfs

/-!
# Turbine.Base.Float64

Double precision numbers (IEEE 754 binary64), as far as a program converts naturals to
them, multiplies, divides, compares and prints them.  A finite number is a sign, a mantissa
and the exponent of its last bit; `round` takes an exact quotient to the nearest one, ties
to even.

* `ofNat_finite`, `div_finite`: the naturals of 64 bits and their quotients are finite;
* `fixed_finite`: such a number is printed as digits, a point and digits.
-/

namespace Turbine.Base

/-- The finite numbers are `± mantissa * 2 ^ exponent`. -/
inductive Float64
  | nan
  | inf (negative : Bool)
  | finite (negative : Bool) (mantissa : Nat) (exponent : Int)
deriving DecidableEq, Repr

namespace Float64

/-- `num / den * 2 ^ -e` as a fraction. -/
def scale (num den : Nat) (e : Int) : Nat × Nat :=
  if 0 ≤ e then (num, den <<< e.toNat) else (num <<< (-e).toNat, den)

/-- The exponent of the first bit of `num / den`. -/
def leading (num den : Nat) : Int :=
  let e : Int := num.log2 - den.log2
  if (scale num den e).1 < (scale num den e).2 then e - 1 else e

/-- The quotient, rounded to the nearest natural; of two that are as near to the even one. -/
def roundEven (num den : Nat) : Nat :=
  let q := num / den
  let r := num % den
  if 2 * r < den then q else if den < 2 * r then q + 1 else q + q % 2

/-- The number nearest to `± num / den * 2 ^ shift`, for positive `den`: 53 bits, the last of
them not below `2 ^ -1074`. -/
def round (negative : Bool) (num den : Nat) (shift : Int) : Float64 :=
  if num = 0 then finite negative 0 0
  else
    let e := max (leading num den - 52) (-1074 - shift)
    let mantissa := roundEven (scale num den e).1 (scale num den e).2
    if 1024 ≤ mantissa.log2 + e + shift then inf negative else finite negative mantissa (e + shift)

/-- A natural as a number. -/
def ofNat (n : Nat) : Float64 := round false n 1 0

def div : Float64 → Float64 → Float64
  | nan, _ | _, nan | inf _, inf _ => nan
  | inf s, finite s' _ _ => inf (s ^^ s')
  | finite s _ _, inf s' => finite (s ^^ s') 0 0
  | finite s m e, finite s' m' e' =>
    if m' = 0 then if m = 0 then nan else inf (s ^^ s')
    else round (s ^^ s') m m' (e - e')

def mul : Float64 → Float64 → Float64
  | nan, _ | _, nan => nan
  | inf s, inf s' => inf (s ^^ s')
  | inf s, finite s' m _ | finite s' m _, inf s => if m = 0 then nan else inf (s ^^ s')
  | finite s m e, finite s' m' e' => round (s ^^ s') (m * m') 1 (e + e')

/-- `ceil() as u64`: a conversion to an integer stops at the smallest and largest one. -/
def ceilU64 : Float64 → UInt64
  | nan => 0
  | inf negative => if negative then 0 else .ofNat (2 ^ 64 - 1)
  | finite true _ _ => 0
  | finite false m e =>
    let (num, den) := scale m 1 (-e)
    .ofNat (min ((num + den - 1) / den) (2 ^ 64 - 1))

/-- `format!` with a number of digits behind the point. -/
def fixed (decimals : Nat) : Float64 → String
  | nan => "NaN"
  | inf negative => if negative then "-inf" else "inf"
  | finite negative m e =>
    let (num, den) := scale (m * 10 ^ decimals) 1 (-e)
    let n := roundEven num den
    let digits := (Nat.toDigits 10 (n % 10 ^ decimals)).leftpad decimals '0'
    (if negative then "-" else "") ++ toString (n / 10 ^ decimals) ++ "." ++ String.ofList digits

/-- The mantissa with its sign, over a last bit that is `shift` bits lower. -/
def aligned (negative : Bool) (mantissa : Nat) (shift : Nat) : Int :=
  if negative then -(mantissa <<< shift : Nat) else (mantissa <<< shift : Nat)

def lt : Float64 → Float64 → Bool
  | nan, _ | _, nan => false
  | inf s, inf s' => s && !s'
  | inf s, finite .. => s
  | finite .., inf s => !s
  | finite s m e, finite s' m' e' =>
    aligned s m (e - min e e').toNat < aligned s' m' (e' - min e e').toNat

example : (ofNat 1).div (ofNat 3) = finite false 6004799503160661 (-54) := by decide

example : (ofNat 1).div (ofNat 0) = inf false ∧ (ofNat 0).div (ofNat 0) = nan := by decide

example : ofNat 9007199254740993 = finite false 4503599627370496 1 := by decide

example : ofNat 18446744073709551615 = finite false 9007199254740992 11 := by decide

example : ((ofNat 1500).div (ofNat 1000)).fixed 2 = "1.50" := by decide

/-! ## finite numbers -/

theorem le_roundEven (num den : Nat) : num / den ≤ roundEven num den := by
  simp only [roundEven]
  split_ifs <;> omega

theorem roundEven_le (num den : Nat) : roundEven num den ≤ num / den + 1 := by
  simp only [roundEven]
  split_ifs <;> omega

theorem scale_div_le (num den : Nat) (e : Int) :
    (scale num den e).1 / (scale num den e).2 ≤ num * 2 ^ (-e).toNat := by
  rw [scale]
  split
  case isTrue he =>
    have hzero : (-e).toNat = 0 := by omega
    rw [hzero, Nat.pow_zero, Nat.mul_one]
    exact Nat.div_le_self _ _
  case isFalse =>
    rw [Nat.shiftLeft_eq]
    exact Nat.div_le_self _ _

theorem leading_le (num den : Nat) : leading num den ≤ num.log2 := by
  simp only [leading]
  split_ifs <;> omega

theorem log2_le {n k : Nat} (h : n < 2 ^ (k + 1)) : n.log2 ≤ k := by
  by_cases hn : n = 0
  · rw [hn, Nat.log2_zero]
    exact Nat.zero_le _
  · exact Nat.le_of_lt_succ ((Nat.log2_lt hn).2 h)

/-- The mantissa, before it is known that the number is finite. -/
theorem roundEven_scale_lt {num k : Nat} (den : Nat) (e : Int) (h : num < 2 ^ k) :
    roundEven (scale num den e).1 (scale num den e).2 < 2 ^ (k + (-e).toNat + 1) := by
  have hround := roundEven_le (scale num den e).1 (scale num den e).2
  have hscale := scale_div_le num den e
  have hpow : num * 2 ^ (-e).toNat < 2 ^ (k + (-e).toNat) := by
    rw [Nat.pow_add]
    exact Nat.mul_lt_mul_of_pos_right h (Nat.two_pow_pos _)
  rw [Nat.pow_succ]
  omega

/-- A quotient of a natural that is not too long is finite. -/
theorem round_finite (negative : Bool) {num k : Nat} (den : Nat) {shift : Int} (hnum : num < 2 ^ k)
    (hk : k < 1024) (hshift : 2 * k + shift < 1024) :
    ∃ m e, round negative num den shift = finite negative m e := by
  rw [round]
  split
  case isTrue => exact ⟨0, 0, rfl⟩
  case isFalse hne =>
    have hlog : num.log2 < k := (Nat.log2_lt hne).2 hnum
    have hlead := leading_le num den
    have hbits := log2_le (roundEven_scale_lt den (max (leading num den - 52) (-1074 - shift)) hnum)
    rw [if_neg (by omega)]
    exact ⟨_, _, rfl⟩

/-! ### quotients of naturals -/

theorem leading_one {n : Nat} (hn : n ≠ 0) : leading n 1 = n.log2 := by
  have hscale : scale n 1 n.log2 = (n, 2 ^ n.log2) := by
    rw [scale, if_pos (Int.natCast_nonneg _), Int.toNat_natCast, Nat.shiftLeft_eq, Nat.one_mul]
  have hone : Nat.log2 1 = 0 := by decide
  simp only [leading, hone, Int.natCast_zero, Int.sub_zero, hscale]
  rw [if_neg (Nat.not_lt.2 (Nat.log2_self_le hn))]

theorem ofNat_finite {n : Nat} (h : n < 2 ^ 64) :
    ∃ m e, ofNat n = finite false m e ∧ m < 2 ^ 117 ∧ -64 ≤ e ∧ e ≤ 64 ∧ (n ≠ 0 → m ≠ 0) := by
  by_cases hn : n = 0
  · subst hn
    exact ⟨0, 0, rfl, by decide, by decide, by decide, fun h => absurd rfl h⟩
  · have hlog : n.log2 < 64 := (Nat.log2_lt hn).2 h
    have hself : 2 ^ n.log2 ≤ n := Nat.log2_self_le hn
    obtain ⟨e, he⟩ : ∃ e : Int, e = n.log2 - 52 := ⟨_, rfl⟩
    have hmax : max (leading n 1 - 52) (-1074 - 0) = e := by
      rw [leading_one hn]
      omega
    have hlt := roundEven_scale_lt 1 e h
    have hbits := log2_le hlt
    refine ⟨roundEven (scale n 1 e).1 (scale n 1 e).2, e, ?_, ?_, by omega, by omega, fun _ => ?_⟩
    · rw [ofNat, round, if_neg hn]
      simp only [hmax, Int.add_zero]
      rw [if_neg (by omega)]
    · exact Nat.lt_of_lt_of_le hlt (Nat.pow_le_pow_right (by decide) (by omega))
    · -- the mantissa has the first bit of the number
      have hquot : 0 < (scale n 1 e).1 / (scale n 1 e).2 := by
        rw [scale]
        split
        case isTrue hpos =>
          rw [Nat.shiftLeft_eq, Nat.one_mul]
          refine Nat.div_pos (Nat.le_trans ?_ hself) (Nat.two_pow_pos _)
          exact Nat.pow_le_pow_right (by decide) (by omega)
        case isFalse =>
          rw [Nat.div_one, Nat.shiftLeft_eq]
          exact Nat.mul_pos (Nat.pos_of_ne_zero hn) (Nat.two_pow_pos _)
      have hround := le_roundEven (scale n 1 e).1 (scale n 1 e).2
      omega

theorem div_finite {a b : Nat} (ha : a < 2 ^ 64) (hb : b < 2 ^ 64) (hne : b ≠ 0) :
    ∃ m e, (ofNat a).div (ofNat b) = finite false m e := by
  obtain ⟨m, e, heq, hm, -, he, -⟩ := ofNat_finite ha
  obtain ⟨m', e', heq', -, he', -, hm'⟩ := ofNat_finite hb
  rw [heq, heq', div, if_neg (hm' hne)]
  exact round_finite _ m' hm (by decide) (by omega)

/-! ### printing -/

/-- A finite number is printed as digits, a point and digits. -/
theorem fixed_finite (decimals m : Nat) (e : Int) :
    ∃ (n : Nat) (digits : List Char), digits ≠ [] ∧ (∀ c ∈ digits, c.isDigit = true) ∧
      ((finite false m e).fixed decimals).toList = (toString n).toList ++ '.' :: digits := by
  generalize hn : roundEven (scale (m * 10 ^ decimals) 1 (-e)).1
    (scale (m * 10 ^ decimals) 1 (-e)).2 = n
  refine ⟨n / 10 ^ decimals, (Nat.toDigits 10 (n % 10 ^ decimals)).leftpad decimals '0', ?_, ?_, ?_⟩
  · simp [List.leftpad, Nat.toDigits_ne_nil]
  · intro c hc
    obtain hzero | hdigit := List.mem_append.1 hc
    · rw [List.eq_of_mem_replicate hzero]
      rfl
    · exact Nat.isDigit_of_mem_toDigits (by decide) (by decide) hdigit
  · simp [fixed, hn]

end Float64

end Turbine.Base
