/-
  Stablecoin accounting — collateral ratios and Recovery Mode.

  The system is in Recovery Mode while its collateral ratio is below the
  critical one.  Then nothing may be done that makes it worse.

  * `SystemRatio.evaluate` is the ratio of the system and its mode;
  * `Change` is what a request would do to collateral and debt, and tells the
    ratios that would result;
  * `demandAdjustment` and `demandOpening` are the rules for a request in
    either mode.
-/
import Stablecoin.Amount.Arithmetic
import Stablecoin.Parameters.Basic

namespace Stablecoin

/-! ## The mode -/

/-- The collateral ratio of the system, and what it was computed from. -/
structure SystemRatio where
  recovery : Bool
  ratio : Amount
  coll : Amount
  debt : Amount
  price : Amount
deriving DecidableEq

/-- The ratio of the system and its mode at a price. -/
def SystemRatio.evaluate (coll debt price : Amount) (p : Parameters) : Attempt SystemRatio := do
  let ratio ← Amount.ratio coll debt price
  return ⟨ratio < p.criticalRatio, ratio, coll, debt, price⟩

/-- A system with these totals is in Recovery Mode. -/
def isRecovery (coll debt price : Amount) (p : Parameters) : Attempt Bool := do
  return (← Amount.ratio coll debt price) < p.criticalRatio

/-! ## Changes -/

/-- A change of collateral and debt. -/
structure Change where
  coll : Amount
  collGrows : Bool
  debt : Amount
  debtGrows : Bool
deriving DecidableEq

namespace Change

/-- Collateral and debt after the change. -/
def apply (c : Change) (coll debt : Amount) : Attempt (Amount × Amount) := do
  return (← coll.change c.coll c.collGrows, ← debt.change c.debt c.debtGrows)

/-- The ratio after the change. -/
def ratio (c : Change) (coll debt price : Amount) : Attempt Amount := do
  let (coll, debt) ← c.apply coll debt
  Amount.ratio coll debt price

/-- The nominal ratio after the change. -/
def nominalRatio (c : Change) (coll debt : Amount) : Attempt Amount := do
  let (coll, debt) ← c.apply coll debt
  Amount.nominalRatio coll debt

end Change

/-! ## Rules -/

/-- The trove is at the minimum ratio or above it. -/
def demandMinimum (ratio : Amount) (p : Parameters) : Attempt Unit :=
  demand (p.minimumRatio ≤ ratio) (.ratio .troveBelowMinimum ratio p.minimumRatio)

/-- The trove is at the critical ratio or above it. -/
def demandCritical (ratio : Amount) (p : Parameters) : Attempt Unit :=
  demand (p.criticalRatio ≤ ratio) (.ratio .troveBelowCritical ratio p.criticalRatio)

/-- The system is at the critical ratio or above it. -/
def demandSystemCritical (ratio : Amount) (p : Parameters) : Attempt Unit :=
  demand (p.criticalRatio ≤ ratio) (.ratio .systemBelowCritical ratio p.criticalRatio)

/-- The trove does not fall below its old ratio. -/
def demandNotWorse (ratio old : Amount) : Attempt Unit :=
  demand (old ≤ ratio) (.ratio .troveNotImproved ratio old)

/-- The system is at the minimum ratio or above it. -/
def demandSystemMinimum (ratio : Amount) (p : Parameters) : Attempt Unit :=
  demand (p.minimumRatio ≤ ratio) (.ratio .systemBelowMinimum ratio p.minimumRatio)

/-- The system is not in Recovery Mode. -/
def demandNormal (recovery : Bool) (operation : String) : Attempt Unit :=
  demand (recovery = false) (.recoveryMode (operation ++ " not allowed in Recovery Mode"))

/-- The rules for an adjustment.  In Recovery Mode no collateral is withdrawn, and more debt
must leave the trove at the critical ratio and not below its old one.  Otherwise the trove stays
at the minimum ratio and the system at the critical one. -/
def demandAdjustment (recovery : Bool) (withdrawal : Amount) (debtGrows : Bool)
    (old new system : Amount) (p : Parameters) : Attempt Unit :=
  if recovery then do
    demand (withdrawal = 0)
      (.recoveryMode "collateral withdrawal not permitted in Recovery Mode")
    if debtGrows then
      demandCritical new p
      demandNotWorse new old
  else do
    demandMinimum new p
    demandSystemCritical system p

/-- The rules for a new trove, likewise. -/
def demandOpening (recovery : Bool) (ratio system : Amount) (p : Parameters) : Attempt Unit :=
  if recovery then demandCritical ratio p
  else do
    demandMinimum ratio p
    demandSystemCritical system p

end Stablecoin
