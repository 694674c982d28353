import IndexDtf.Folio.Account

/-!
# IndexDtf.Folio.PokeErrors

**What the arithmetic of a folio fails with.** An overflow, a subtraction below zero or a division
by zero, and nothing else: what else an instruction may report is a matter of its own checks.
-/

namespace IndexDtf

open Lib

/-- The ways in which arithmetic fails. -/
def Arithmetic (e : Abort) : Prop := e = .code .MathOverflow ∨ e = .panic

theorem Arithmetic.overflow : Arithmetic (.code .MathOverflow) := .inl rfl

theorem Arithmetic.panic : Arithmetic .panic := .inr rfl

/-! ### Machine integers -/

theorem checkedSub_errors {a b : ℕ} : FailsIn Arithmetic (checkedSub a b) :=
  .ite (.ok _) (.error .overflow)

theorem checkedAddU64_errors {a b : ℕ} : FailsIn Arithmetic (checkedAddU64 a b) :=
  .ite (.ok _) (.error .overflow)

theorem checkedMulU64_errors {a b : ℕ} : FailsIn Arithmetic (checkedMulU64 a b) :=
  .ite (.ok _) (.error .overflow)

theorem checkedAddU128_errors {a b : ℕ} : FailsIn Arithmetic (checkedAddU128 a b) :=
  .ite (.ok _) (.error .overflow)

theorem checkedMulU128_errors {a b : ℕ} : FailsIn Arithmetic (checkedMulU128 a b) :=
  .ite (.ok _) (.error .overflow)

namespace Decimal

variable {x y z : Decimal} {n : ℕ}

/-! ### Fixed-point numbers -/

theorem Overflow.arithmetic {e : Abort} (h : Overflow e) : Arithmetic e := .inl h

theorem checked_errors : FailsIn Arithmetic (checked n) :=
  checked_overflow.mono fun _ => Overflow.arithmetic

theorem fromTokenAmount_errors : FailsIn Arithmetic (fromTokenAmount n) := checked_errors

theorem add_errors : FailsIn Arithmetic (x.add y) := add_overflow.mono fun _ => Overflow.arithmetic

theorem sub_errors : FailsIn Arithmetic (x.sub y) := sub_overflow.mono fun _ => Overflow.arithmetic

theorem mul_errors : FailsIn Arithmetic (x.mul y) := mul_overflow.mono fun _ => Overflow.arithmetic

theorem div_errors : FailsIn Arithmetic (x.div y) := div_overflow.mono fun _ => Overflow.arithmetic

theorem mulD18_errors : FailsIn Arithmetic (x.mulD18 y) :=
  mulD18_overflow.mono fun _ => Overflow.arithmetic

theorem toTokenAmount_errors {rounding : Rounding} :
    FailsIn Arithmetic (x.toTokenAmount rounding) := by
  cases rounding with
  | Floor => exact .ok _
  | Ceiling => exact .ite (.ok _) (.bind checked_errors fun _ _ => .ok _)

theorem toScaled_errors {rounding : Rounding} : FailsIn Arithmetic (x.toScaled rounding) := by
  cases rounding with
  | Floor => exact .ok _
  | Ceiling => exact .ite (.ok _) (.bind checked_errors fun _ _ => .ok _)

theorem powLoop_errors {fuel : ℕ} : FailsIn Arithmetic (powLoop fuel x y n) := by
  induction fuel generalizing x y n with
  | zero => exact .ok _
  | succ fuel ih =>
      rw [powLoop]
      have hbase (y : Decimal) : FailsIn Arithmetic (if n > 1 then do
          powLoop fuel (← x.mulD18 x) y (n / 2) else do powLoop fuel (← .ok x) y (n / 2)) :=
        .ite (.bind mulD18_errors fun _ _ => ih) (.bind (.ok _) fun _ _ => ih)
      exact .ite (.ok _) (.ite (.bind mulD18_errors fun _ _ => hbase _)
        (.bind (.ok _) fun _ _ => hbase _))

theorem pow_errors : FailsIn Arithmetic (x.pow n) := .ite (.ok _) (.ite (.ok _) powLoop_errors)

theorem nthRootTerms_errors : FailsIn Arithmetic (nthRootTerms x n) :=
  .bind div_errors fun _ _ => .bind mul_errors fun _ _ => .bind checkedMulU64_errors fun _ _ =>
  .bind checkedSub_errors fun _ _ => .bind mul_errors fun _ _ => .bind div_errors fun _ _ =>
  .bind div_errors fun _ _ => .bind div_errors fun _ _ => .bind mul_errors fun _ _ =>
  .bind checkedSub_errors fun _ _ => .bind checkedMulU64_errors fun _ _ =>
  .bind checkedMulU128_errors fun _ _ => .bind mul_errors fun _ _ => .bind div_errors fun _ _ =>
  .bind div_errors fun _ _ => .bind div_errors fun _ _ => .bind div_errors fun _ _ => .ok _

theorem midPow_errors {count : ℕ} : FailsIn Arithmetic (midPow x count y) := by
  induction count generalizing y with
  | zero => exact .ok _
  | succ count ih => exact .bind mulD18_errors fun _ _ => ih

theorem nthRootSearch_errors {rounds : ℕ} : FailsIn Arithmetic (nthRootSearch x n rounds y z) := by
  induction rounds generalizing y z with
  | zero => exact .bind add_errors fun _ _ => div_errors
  | succ rounds ih =>
      refine .bind add_errors fun _ _ => .bind div_errors fun mid _ =>
        .bind midPow_errors fun power _ => ?_
      cases compare power.val x.val with
      | gt => exact ih
      | lt => exact ih
      | eq => exact .ok _

theorem nthRoot_errors : FailsIn Arithmetic (x.nthRoot n) :=
  .ite (.ok _) (.ite (.ok _) (.ite
    (.bind sub_errors fun _ _ => .bind nthRootTerms_errors fun _ _ => .bind sub_errors fun _ _ =>
      .bind sub_errors fun _ _ => sub_errors)
    nthRootSearch_errors))

end Decimal

namespace Folio

open Decimal

variable {folio : Folio} {supply now : ℕ} {fee : DaoFee} {x y z : Decimal}

/-! ### Fees -/

theorem getTotalSupply_errors : FailsIn Arithmetic (folio.getTotalSupply supply) :=
  .bind fromTokenAmount_errors fun _ _ => .bind add_errors fun _ _ =>
  .bind add_errors fun _ _ => add_errors

theorem feeUp_errors : FailsIn Arithmetic (feeUp x y z) :=
  .bind mul_errors fun _ _ => .bind add_errors fun _ _ => .bind sub_errors fun _ _ => div_errors

theorem feeFloorPerSecond_errors {floor : ℕ} : FailsIn Arithmetic (feeFloorPerSecond floor) :=
  .bind sub_errors fun _ _ => .bind nthRoot_errors fun _ _ => sub_errors

theorem feeShares_errors : FailsIn Arithmetic (feeShares x y) :=
  .bind mul_errors fun _ _ => .bind div_errors fun _ _ => sub_errors

theorem daoShares_errors : FailsIn Arithmetic (daoShares fee x y z) :=
  .bind feeUp_errors fun _ _ => .bind feeUp_errors fun _ _ => .ite feeUp_errors feeUp_errors

theorem getPendingFeeShares_errors :
    FailsIn Arithmetic (folio.getPendingFeeShares supply now fee) :=
  .bind getTotalSupply_errors fun _ _ => .bind feeFloorPerSecond_errors fun _ _ =>
  .bind sub_errors fun _ _ => .bind pow_errors fun _ _ => .bind feeShares_errors fun _ _ =>
  .bind daoShares_errors fun _ _ => .bind sub_errors fun _ _ => .ok _

theorem poke_errors : FailsIn Arithmetic (folio.poke supply now fee) :=
  .bind checkedMulU64_errors fun _ _ => .ite (.ok _) (.bind getPendingFeeShares_errors fun _ _ =>
    .bind toScaled_errors fun _ _ => .bind checkedAddU128_errors fun _ _ =>
    .bind toScaled_errors fun _ _ => .bind checkedAddU128_errors fun _ _ => .ok _)

end Folio

end IndexDtf
