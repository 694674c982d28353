import IndexDtf.Shared.Basic

/-!
# IndexDtf.Shared.Decimal

The fixed-point numbers of `shared/src/utils/math_util.rs`. A `Decimal` is a
`U256`; the scale (D9, D18, …) is the caller's business, and every operation that
leaves the 256 bits, goes below zero or divides by zero fails with
`MathOverflow`.
-/

namespace IndexDtf

open Lib

/-- The rounding mode of a conversion. -/
inductive Rounding
  | Floor
  | Ceiling
  deriving DecidableEq, Repr

/-- A fixed-point number: the integer it is stored as. -/
structure Decimal where
  val : ℕ
  deriving DecidableEq, Repr

namespace Decimal

/-- `D9_U256`. -/
def d9 : ℕ := 1000000000
/-- `D18_U256`. -/
def d18 : ℕ := 1000000000000000000

/-- `Decimal::ZERO`. -/
def zero : Decimal := ⟨0⟩
/-- `Decimal::ONE`, the integer one. -/
def one : Decimal := ⟨1⟩
/-- `Decimal::ONE_E18`, the number one in D18. -/
def oneE18 : Decimal := ⟨d18⟩

/-- A number that has to fit into a `U256`. -/
def checked (n : ℕ) : Result Decimal :=
  if n < u256Bound then .ok ⟨n⟩ else .error (.code .MathOverflow)

@[simp] theorem checked_eq_ok {n : ℕ} {x : Decimal} :
    checked n = .ok x ↔ n < u256Bound ∧ ⟨n⟩ = x := by
  by_cases h : n < u256Bound <;> simp [checked, h]

theorem checked_of {n : ℕ} (h : n < u256Bound) : checked n = .ok ⟨n⟩ := if_pos h

/-! ### Conversions -/

/-- `from_plain`: an integer, scaled to D18. -/
def fromPlain (value : ℕ) : Result Decimal := checked (value * d18)

/-- `from_token_amount`: a D9 amount, scaled to D18. -/
def fromTokenAmount (value : ℕ) : Result Decimal := checked (value * d9)

/-- `from_scaled`: a number in the scale it already has. -/
def fromScaled (value : ℕ) : Decimal := ⟨value⟩

/-- `to_token_amount`: a D18 number as a D9 `u64`, saturating. -/
def toTokenAmount (x : Decimal) : Rounding → Result ℕ
  | .Floor => .ok (min (x.val / d9) u64Max)
  | .Ceiling =>
      if x.val % d9 = 0 then .ok (min (x.val / d9) u64Max)
      else do
        let rounded ← checked (x.val + (d9 - 1))
        .ok (min (rounded.val / d9) u64Max)

/-- `to_scaled`: a D18 number as a `u128`, saturating. The ceiling adds one
whenever the *number* is not a whole multiple of D18, whatever the division
that produced it left over. -/
def toScaled (x : Decimal) : Rounding → Result ℕ
  | .Floor => .ok (min x.val u128Max)
  | .Ceiling =>
      if x.val % d18 = 0 then .ok (min x.val u128Max)
      else do
        let rounded ← checked (x.val + 1)
        .ok (min rounded.val u128Max)

/-! ### Arithmetic -/

/-- `add`. -/
def add (x y : Decimal) : Result Decimal := checked (x.val + y.val)

/-- `sub`. -/
def sub (x y : Decimal) : Result Decimal :=
  if y.val ≤ x.val then .ok ⟨x.val - y.val⟩ else .error (.code .MathOverflow)

/-- `mul`; the scales add up. -/
def mul (x y : Decimal) : Result Decimal := checked (x.val * y.val)

/-- `div`; the scales are subtracted. -/
def div (x y : Decimal) : Result Decimal :=
  if y.val = 0 then .error (.code .MathOverflow) else .ok ⟨x.val / y.val⟩

/-- `is_zero`. -/
def isZero (x : Decimal) : Bool := x.val = 0

/-- A product brought back to D18, the step `mul(..)?.div(&ONE_E18)?`. -/
def mulD18 (x y : Decimal) : Result Decimal := do (← x.mul y).div oneE18

@[simp] theorem add_eq_ok {x y z : Decimal} :
    x.add y = .ok z ↔ x.val + y.val < u256Bound ∧ ⟨x.val + y.val⟩ = z :=
  checked_eq_ok

@[simp] theorem mul_eq_ok {x y z : Decimal} :
    x.mul y = .ok z ↔ x.val * y.val < u256Bound ∧ ⟨x.val * y.val⟩ = z :=
  checked_eq_ok

@[simp] theorem sub_eq_ok {x y z : Decimal} :
    x.sub y = .ok z ↔ y.val ≤ x.val ∧ ⟨x.val - y.val⟩ = z := by
  by_cases h : y.val ≤ x.val <;> simp [sub, h]

@[simp] theorem div_eq_ok {x y z : Decimal} :
    x.div y = .ok z ↔ 0 < y.val ∧ ⟨x.val / y.val⟩ = z := by
  by_cases h : y.val = 0 <;> simp [div, h, Nat.pos_iff_ne_zero]

theorem add_of {x y : Decimal} (h : x.val + y.val < u256Bound) :
    x.add y = .ok ⟨x.val + y.val⟩ := checked_of h

theorem mul_of {x y : Decimal} (h : x.val * y.val < u256Bound) :
    x.mul y = .ok ⟨x.val * y.val⟩ := checked_of h

theorem sub_of {x y : Decimal} (h : y.val ≤ x.val) : x.sub y = .ok ⟨x.val - y.val⟩ := if_pos h

theorem div_of {x y : Decimal} (h : 0 < y.val) : x.div y = .ok ⟨x.val / y.val⟩ :=
  if_neg (Nat.pos_iff_ne_zero.mp h)

@[simp] theorem mulD18_eq_ok {x y z : Decimal} :
    x.mulD18 y = .ok z ↔ x.val * y.val < u256Bound ∧ ⟨x.val * y.val / d18⟩ = z := by
  simp only [mulD18, bind_eq_ok, mul_eq_ok, div_eq_ok]
  constructor
  · rintro ⟨_, ⟨hlt, rfl⟩, -, rfl⟩
    exact ⟨hlt, rfl⟩
  · rintro ⟨hlt, rfl⟩
    exact ⟨_, ⟨hlt, rfl⟩, by decide, rfl⟩

@[simp] theorem fromScaled_val (n : ℕ) : (fromScaled n).val = n := rfl

@[simp] theorem fromTokenAmount_eq_ok {n : ℕ} {x : Decimal} :
    fromTokenAmount n = .ok x ↔ n * d9 < u256Bound ∧ ⟨n * d9⟩ = x :=
  checked_eq_ok

@[simp] theorem toTokenAmount_floor (x : Decimal) :
    x.toTokenAmount .Floor = .ok (min (x.val / d9) u64Max) := rfl

/-- Both branches of the ceiling are one division. -/
theorem toTokenAmount_ceiling {x : Decimal} {n : ℕ} (h : x.toTokenAmount .Ceiling = .ok n) :
    n = min ((x.val + (d9 - 1)) / d9) u64Max := by
  simp only [toTokenAmount] at h
  split at h
  · next hmod =>
    cases h
    congr 1
    have hd9 : 0 < d9 := by decide
    have hdiv := Nat.div_add_mod' x.val d9
    refine (Nat.div_eq_of_lt_le ?_ ?_).symm
    · omega
    · rw [Nat.succ_mul]
      omega
  · simp only [bind_eq_ok, checked_eq_ok, Except.ok.injEq] at h
    obtain ⟨_, ⟨-, rfl⟩, rfl⟩ := h
    rfl

theorem toTokenAmount_of {x : Decimal} (h : x.val + d9 < u256Bound) :
    x.toTokenAmount .Ceiling = .ok (min ((x.val + (d9 - 1)) / d9) u64Max) := by
  have hok : ∃ n, x.toTokenAmount .Ceiling = .ok n := by
    simp only [toTokenAmount]
    split
    · exact ⟨_, rfl⟩
    · have hlt : x.val + (d9 - 1) < u256Bound := lt_of_le_of_lt (by omega) h
      rw [checked_of hlt, ok_bind]
      exact ⟨_, rfl⟩
  obtain ⟨n, hn⟩ := hok
  rw [hn, toTokenAmount_ceiling hn]

@[simp] theorem toScaled_floor (x : Decimal) :
    x.toScaled .Floor = .ok (min x.val u128Max) := rfl

/-- The ceiling of `to_scaled`, before saturation. -/
def ceilTail (n : ℕ) : ℕ := if n % d18 = 0 then n else n + 1

theorem le_ceilTail (n : ℕ) : n ≤ ceilTail n := by
  unfold ceilTail
  split <;> omega

theorem ceilTail_le (n : ℕ) : ceilTail n ≤ n + 1 := by
  unfold ceilTail
  split <;> omega

theorem ceilTail_mono {m n : ℕ} (h : m ≤ n) : ceilTail m ≤ ceilTail n := by
  rcases Nat.eq_or_lt_of_le h with rfl | hlt
  · exact Nat.le_refl _
  · exact Nat.le_trans (ceilTail_le m) (Nat.le_trans hlt (le_ceilTail n))

theorem toScaled_ceiling {x : Decimal} {m : ℕ} (h : x.toScaled .Ceiling = .ok m) :
    m = min (ceilTail x.val) u128Max := by
  unfold toScaled at h
  unfold ceilTail
  by_cases hx : x.val % d18 = 0
  · rw [if_pos hx] at h
    rw [if_pos hx]
    exact (Except.ok.inj h).symm
  · rw [if_neg hx, bind_eq_ok] at h
    obtain ⟨rounded, hr, hm⟩ := h
    rw [checked_eq_ok] at hr
    obtain ⟨-, rfl⟩ := hr
    rw [if_neg hx]
    exact (Except.ok.inj hm).symm

theorem toScaled_of {x : Decimal} (h : x.val + 1 < u256Bound) :
    x.toScaled .Ceiling = .ok (min (ceilTail x.val) u128Max) := by
  rw [toScaled, ceilTail]
  split
  · rfl
  · rw [checked_of h, ok_bind]

/-! ### What the arithmetic fails with -/

/-- The one error of a number that is out of range. -/
def Overflow (e : Abort) : Prop := e = .code .MathOverflow

section Errors

variable {x y : Decimal} {n : ℕ}

theorem checked_overflow : FailsIn Overflow (checked n) := .ite (.ok _) (.error rfl)

theorem add_overflow : FailsIn Overflow (x.add y) := checked_overflow

theorem sub_overflow : FailsIn Overflow (x.sub y) := .ite (.ok _) (.error rfl)

theorem mul_overflow : FailsIn Overflow (x.mul y) := checked_overflow

theorem div_overflow : FailsIn Overflow (x.div y) := .ite (.error rfl) (.ok _)

theorem mulD18_overflow : FailsIn Overflow (x.mulD18 y) :=
  .bind mul_overflow fun _ _ => div_overflow

end Errors

/-! ### Powers and roots -/

/-- The loop of `pow`: square and multiply. `fuel` counts the bits left. -/
def powLoop : ℕ → Decimal → Decimal → ℕ → Result Decimal
  | 0, _, result, _ => .ok result
  | fuel + 1, base, result, exp =>
      if exp = 0 then .ok result
      else do
        let result ← if exp % 2 = 1 then result.mulD18 base else .ok result
        let base ← if exp > 1 then base.mulD18 base else .ok base
        powLoop fuel base result (exp / 2)

/-- `pow`. An exponent has `log2 + 1` bits, so the loop is never cut short. -/
def pow (x : Decimal) (exponent : ℕ) : Result Decimal :=
  if exponent = 0 then .ok oneE18
  else if exponent = 1 then .ok x
  else powLoop (exponent.log2 + 1) x oneE18 exponent

/-- `NTH_ROOT_UPPER_BOUND`: above it the root is read off a series. -/
def nthRootUpperBound : ℕ := 1000000

/-- `NTH_ROOT_MAX_ITERATIONS`. -/
def nthRootMaxIterations : ℕ := 15

/-- The three terms of the series `nth_root` subtracts from one, for `x` one
minus the number. The third coefficient is `(n - 1) (n - 2)`. -/
def nthRootTerms (x : Decimal) (n : ℕ) : Result (Decimal × Decimal × Decimal) := do
  let firstTerm ← x.div (fromScaled n)
  let xSquared ← x.mul x
  let nValue ← checkedMulU64 n n
  let nMinusOne ← checkedSub n 1
  let secondTerm ← xSquared.mul (fromScaled nMinusOne)
  let secondTerm ← secondTerm.div oneE18
  let secondTerm ← secondTerm.div (fromScaled nValue)
  let secondTerm ← secondTerm.div (fromScaled 2)
  let xCubed ← xSquared.mul x
  let nMinusTwo ← checkedSub n 2
  let numerator ← checkedMulU64 nMinusOne nMinusTwo
  let nCubed ← checkedMulU128 nValue n
  let thirdTerm ← xCubed.mul (fromScaled numerator)
  let thirdTerm ← thirdTerm.div oneE18
  let thirdTerm ← thirdTerm.div oneE18
  let thirdTerm ← thirdTerm.div (fromScaled nCubed)
  let thirdTerm ← thirdTerm.div (fromScaled 6)
  .ok (firstTerm, secondTerm, thirdTerm)

/-- `mid` to the power `count + 1`, one multiplication a round. -/
def midPow (mid : Decimal) : ℕ → Decimal → Result Decimal
  | 0, acc => .ok acc
  | count + 1, acc => do midPow mid count (← acc.mulD18 mid)

/-- The binary search of `nth_root`; the answer is the last midpoint. -/
def nthRootSearch (target : Decimal) (n : ℕ) : ℕ → Decimal → Decimal → Result Decimal
  | 0, low, high => do (← low.add high).div (fromScaled 2)
  | rounds + 1, low, high => do
      let mid ← (← low.add high).div (fromScaled 2)
      let power ← midPow mid (n - 1) mid
      match compare power.val target.val with
      | .gt => nthRootSearch target n rounds low mid
      | .lt => nthRootSearch target n rounds mid high
      | .eq => .ok mid

/-- `nth_root`. -/
def nthRoot (x : Decimal) (n : ℕ) : Result Decimal :=
  if x = zero then .ok zero
  else if x = oneE18 then .ok oneE18
  else if n > nthRootUpperBound then do
    let (firstTerm, secondTerm, thirdTerm) ← nthRootTerms (← oneE18.sub x) n
    (← (← oneE18.sub firstTerm).sub secondTerm).sub thirdTerm
  else
    nthRootSearch x n nthRootMaxIterations zero (if x.val > d18 then x else oneE18)

/-! ### Exponential and logarithm -/

/-- `MAX_ITERATIONS` of the two series. -/
def maxIterations : ℕ := 100

/-- `Decimal::E`, the number e in D18. -/
def e : Decimal := ⟨2718281828459045235⟩

/-- The first loop of `ln`: multiply by e until the number is at least one. -/
def lnRaise : ℕ → Decimal → ℤ → Result (Decimal × ℤ)
  | 0, normalized, power => .ok (normalized, power)
  | fuel + 1, normalized, power =>
      if normalized.val < d18 then do lnRaise fuel (← normalized.mulD18 e) (power - 1)
      else .ok (normalized, power)

/-- The second loop of `ln`: divide by e until the number is below e. -/
def lnLower : ℕ → Decimal → ℤ → Result (Decimal × ℤ)
  | 0, normalized, power => .ok (normalized, power)
  | fuel + 1, normalized, power =>
      if normalized.val ≥ e.val then do
        lnLower fuel (← (← normalized.mul oneE18).div e) (power + 1)
      else .ok (normalized, power)

/-- The series of `ln`, with `rounds` of its iterations left. -/
def lnSeries (zSquared : Decimal) : ℕ → ℕ → Decimal → Decimal → Result Decimal
  | 0, _, _, result => .ok result
  | rounds + 1, n, term, result => do
      let result ← result.add (← term.div (fromScaled (2 * n - 1)))
      let term ← term.mulD18 zSquared
      if term.val < 1 then .ok result
      else lnSeries zSquared rounds (n + 1) term result

/-- `ln`. Both loops at least halve or double the number, so 256 rounds are
more than a `U256` has room for. -/
def ln (x : Decimal) : Result (Option Decimal) :=
  if x = oneE18 then .ok (some zero)
  else if x.isZero then .ok none
  else do
    let (normalized, power) ← lnRaise 256 x 0
    let (normalized, power) ← lnLower 256 normalized power
    let numerator ← normalized.sub oneE18
    let denominator ← normalized.add oneE18
    let z ← (← numerator.mul oneE18).div denominator
    let zSquared ← z.mulD18 z
    let series ← lnSeries zSquared maxIterations 1 z zero
    let result ← series.mul (fromScaled 2)
    let powerTerm ← oneE18.mul (fromScaled power.natAbs)
    if power > 0 then .ok (some (← result.add powerTerm))
    else if power < 0 then .ok (some (← result.sub powerTerm))
    else .ok (some result)

/-- The series of `exp`, with `rounds` of its iterations left. -/
def expSeries (x : Decimal) : ℕ → ℕ → Decimal → Decimal → Result Decimal
  | 0, _, _, result => .ok result
  | rounds + 1, n, term, result => do
      let term ← (← term.mul x).div (← fromPlain n)
      let result ← result.add term
      if term.val < 1 then .ok result
      else expSeries x rounds (n + 1) term result

/-- `exp`, of the number or of its negation. -/
def exp (x : Decimal) (negateResult : Bool) : Result (Option Decimal) :=
  if x.val = 0 then .ok (some oneE18)
  else do
    let result ← expSeries x maxIterations 1 oneE18 oneE18
    if negateResult then
      if result.val = 0 then .error (.code .MathOverflow)
      else .ok (some ⟨d18 * d18 / result.val⟩)
    else .ok (some result)

end Decimal

end IndexDtf
