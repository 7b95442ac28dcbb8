/-
  Stablecoin accounting — splitting a liquidated trove.

  The collateral and debt of a liquidated trove go to four places: the
  liquidator, the stability pool, the other troves, and as a surplus back to the
  borrower.

  * `Split` says how much goes where; `Split.normal`, `Split.redistributed` and
    `Split.capped` are the three ways to split, and `Split.inRecovery` chooses
    one in Recovery Mode, or none;
  * `SplitTotals` sums the splits of one call.
-/
import Stablecoin.Amount.Arithmetic
import Stablecoin.Form.Leaf
import Stablecoin.Form.Record
import Stablecoin.Parameters.Basic

namespace Stablecoin

/-! ## One trove -/

/-- Where the collateral and debt of a trove go. -/
structure Split where
  /-- All debt, pending share included. -/
  debt : Amount
  /-- All collateral, pending share included. -/
  coll : Amount
  /-- Collateral to the liquidator. -/
  collReward : Amount
  /-- Tokens to the liquidator, out of the reserve. -/
  debtReward : Amount
  /-- Debt cancelled against deposits. -/
  debtOffset : Amount
  /-- Collateral to the depositors. -/
  collOffset : Amount
  /-- Debt spread over the other troves. -/
  debtSpread : Amount
  /-- Collateral spread over the other troves. -/
  collSpread : Amount
  /-- Collateral back to the borrower. -/
  surplus : Amount
deriving DecidableEq

namespace Split

/-- The collateral that leaves the active and the default pool. -/
def collLeaving (s : Split) : Attempt Amount := do
  (← s.collOffset.add s.collReward).add s.surplus

/-- The liquidator's share of collateral. -/
def rewardOf (coll : Amount) (p : Parameters) : Attempt Amount :=
  coll.dividedBy (.ofWord p.percentDivisor)

/-- A division of debt and collateral between depositors and the other troves. -/
structure Division where
  debtOffset : Amount
  collOffset : Amount
  debtSpread : Amount
  collSpread : Amount
deriving DecidableEq

/-- The depositors take as much debt as they can, with collateral in proportion. -/
def divide (debt coll deposits : Amount) : Attempt Division :=
  if deposits = 0 ∨ debt = 0 then .ok ⟨0, 0, debt, coll⟩
  else do
    let debtOffset := min debt deposits
    let collOffset ← coll.mulDiv debtOffset debt
    let debtSpread ← debt.minus debtOffset
    return ⟨debtOffset, collOffset, debtSpread, ← coll.sub collOffset⟩

/-- The split of a trove below the minimum ratio. -/
def normal (debt coll deposits : Amount) (p : Parameters) : Attempt Split := do
  let reward ← rewardOf coll p
  let rest ← coll.sub reward
  let d ← divide debt rest deposits
  return ⟨debt, coll, reward, p.gasCompensation, d.debtOffset, d.collOffset, d.debtSpread,
    d.collSpread, 0⟩

/-- The split of a trove worth no more than its debt: depositors take nothing. -/
def redistributed (debt coll : Amount) (p : Parameters) : Attempt Split := do
  let reward ← rewardOf coll p
  return ⟨debt, coll, reward, p.gasCompensation, 0, 0, debt, ← coll.sub reward, 0⟩

/-- The split of a trove at the minimum ratio or above it: depositors take all debt, and
collateral of the minimum ratio only. -/
def capped (debt coll price : Amount) (p : Parameters) : Attempt Split := do
  let cap ← debt.mulDiv p.minimumRatio price
  let reward ← rewardOf cap p
  let collOffset ← cap.sub reward
  return ⟨debt, coll, reward, p.gasCompensation, debt, collOffset, 0, 0, ← coll.sub cap⟩

/-- The split in Recovery Mode, by the ratio of the trove against those of the system.  A trove
above the minimum ratio is left alone unless it is below the system and deposits cover it. -/
def inRecovery (debt coll ratio systemRatio price deposits : Amount) (p : Parameters) :
    Attempt (Option Split) := do
  if ratio ≤ Amount.unit then return some (← redistributed debt coll p)
  else if ratio < p.minimumRatio then return some (← normal debt coll deposits p)
  else if ratio < systemRatio ∧ debt ≤ deposits then return some (← capped debt coll price p)
  else return none

end Split

/-! ## All troves of a call -/

/-- Sums of the splits of one call. -/
structure SplitTotals where
  coll : Amount
  debt : Amount
  collReward : Amount
  debtReward : Amount
  debtOffset : Amount
  collOffset : Amount
  debtSpread : Amount
  collSpread : Amount
  surplus : Amount
deriving DecidableEq

namespace SplitTotals

/-- Nothing was liquidated. -/
def zero : SplitTotals := ⟨0, 0, 0, 0, 0, 0, 0, 0, 0⟩

instance : Inhabited SplitTotals := ⟨zero⟩

/-- The sums with one more split. -/
def including (t : SplitTotals) (s : Split) : Attempt SplitTotals := do
  let coll ← t.coll.add s.coll
  let debt ← t.debt.add s.debt
  let collReward ← t.collReward.add s.collReward
  let debtReward ← t.debtReward.add s.debtReward
  let debtOffset ← t.debtOffset.add s.debtOffset
  let collOffset ← t.collOffset.add s.collOffset
  let debtSpread ← t.debtSpread.add s.debtSpread
  let collSpread ← t.collSpread.add s.collSpread
  let surplus ← t.surplus.add s.surplus
  return ⟨coll, debt, collReward, debtReward, debtOffset, collOffset, debtSpread, collSpread,
    surplus⟩

/-- Nothing was liquidated: a trove always has debt. -/
def isEmpty (t : SplitTotals) : Bool := t.debt = 0

end SplitTotals

end Stablecoin
