/-
  Stablecoin accounting — parameters.

  The numbers that a ledger is started with and keeps: the two collateral
  ratios, the reserve and the floor of a debt, the bounds of the fees, and how
  the base rate moves.

  * `Parameters.standard` are the values taken where none are given, and `with…` replaces
    one of them, or both bounds of the borrowing rate;
  * `Parameters.validate` refuses inconsistent values and names the first rule
    that they break.
-/
import Stablecoin.Amount.Arithmetic

namespace Stablecoin

/-- What a ledger is started with. -/
structure Parameters where
  /-- A trove below this ratio can be liquidated. -/
  minimumRatio : Amount
  /-- The system is in Recovery Mode below this ratio. -/
  criticalRatio : Amount
  /-- The debt reserved in each trove, paid to the one who liquidates it. -/
  gasCompensation : Amount
  /-- The least debt of an active trove apart from the reserve. -/
  minimumNetDebt : Amount
  /-- The lowest borrowing rate. -/
  borrowingFloor : Amount
  /-- The highest borrowing rate. -/
  borrowingCeiling : Amount
  /-- The lowest redemption rate. -/
  redemptionFloor : Amount
  /-- What a minute leaves of the base rate. -/
  minuteDecay : Amount
  /-- Divides the redeemed share of the debt before it is added to the base rate. -/
  beta : UInt64
  /-- Divides the collateral of a liquidated trove; the quotient goes to the liquidator. -/
  percentDivisor : UInt64
deriving DecidableEq

namespace Parameters

/-! ## Standard values -/

/-- One hundred and ten percent. -/
def standardMinimumRatio : Amount := ⟨1_100_000_000_000_000_000, by decide⟩

/-- One hundred and fifty percent. -/
def standardCriticalRatio : Amount := ⟨1_500_000_000_000_000_000, by decide⟩

/-- The whole units reserved in each trove. -/
def standardGasUnits : UInt64 := 200

/-- The whole units that a trove owes at least. -/
def standardDebtUnits : UInt64 := 1800

/-- Half a percent. -/
def standardFeeFloor : Amount := ⟨5_000_000_000_000_000, by decide⟩

/-- Five percent. -/
def standardFeeCeiling : Amount := ⟨50_000_000_000_000_000, by decide⟩

/-- The factor whose power of 720 minutes is one half. -/
def standardMinuteDecay : Amount := ⟨999_037_758_833_783_000, by decide⟩

/-- The values taken where none are given. -/
def standard : Parameters where
  minimumRatio := standardMinimumRatio
  criticalRatio := standardCriticalRatio
  gasCompensation := .whole standardGasUnits
  minimumNetDebt := .whole standardDebtUnits
  borrowingFloor := standardFeeFloor
  borrowingCeiling := standardFeeCeiling
  redemptionFloor := standardFeeFloor
  minuteDecay := standardMinuteDecay
  beta := 2
  percentDivisor := 200

/-! ## Overrides -/

/-- Another ratio below which troves can be liquidated. -/
def withMinimumRatio (p : Parameters) (ratio : Amount) : Parameters :=
  { p with minimumRatio := ratio }

/-- Another ratio below which the system is in Recovery Mode. -/
def withCriticalRatio (p : Parameters) (ratio : Amount) : Parameters :=
  { p with criticalRatio := ratio }

/-- Another reserve. -/
def withGasCompensation (p : Parameters) (amount : Amount) : Parameters :=
  { p with gasCompensation := amount }

/-- Another floor of the net debt. -/
def withMinimumNetDebt (p : Parameters) (amount : Amount) : Parameters :=
  { p with minimumNetDebt := amount }

/-- Other bounds of the borrowing rate. -/
def withBorrowingRates (p : Parameters) (floor ceiling : Amount) : Parameters :=
  { p with borrowingFloor := floor, borrowingCeiling := ceiling }

/-! ## Consistency -/

/-- A refusal that names a parameter. -/
def wrong (name reason : String) : Refusal := .configuration (name ++ ": " ++ reason)

/-- Refuses inconsistent values. -/
def validate (p : Parameters) : Attempt Unit := do
  demand (Amount.unit < p.minimumRatio) (wrong "mcr" "must exceed 100%")
  demand (p.minimumRatio < p.criticalRatio) (wrong "ccr" "must exceed mcr")
  demand (p.minimumNetDebt ≠ 0) (wrong "min_net_debt" "must be positive")
  demand (p.borrowingFloor ≤ Amount.unit ∧ p.redemptionFloor ≤ Amount.unit)
    (wrong "fee floor" "must not exceed 100%")
  demand (p.borrowingFloor ≤ p.borrowingCeiling ∧ p.borrowingCeiling ≤ Amount.unit)
    (wrong "max_borrowing_fee" "must lie between the floor and 100%")
  demand (p.minuteDecay ≠ 0 ∧ p.minuteDecay < Amount.unit)
    (wrong "minute_decay_factor" "must lie strictly between 0 and 1")
  demand (p.beta ≠ 0) (wrong "beta" "must be positive")
  demand (p.percentDivisor ≠ 0) (wrong "percent_divisor" "must be positive")

/-- The least debt of an active trove, the reserve included. -/
def minimumDebt (p : Parameters) : Attempt Amount := p.minimumNetDebt.plus p.gasCompensation

end Parameters

end Stablecoin
