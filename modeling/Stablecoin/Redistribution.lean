/-
  Stablecoin accounting — redistribution.

  What the stability pool cannot absorb of a liquidated trove is spread over the
  others in proportion to their stakes, without touching their records: two sums
  grow by the collateral and the debt for a unit of stake, and a trove's share
  is its stake times the growth since its snapshot.

  * `Redistribution.spread` adds to the sums.  Division rounds down, and the
    remainder is carried into the next numerator, so nothing is lost over time;
  * `Redistribution.pending` is what a trove has not taken in yet;
  * `Redistribution.stakeFor` is the stake of a trove with the given collateral,
    corrected for what redistribution has added to the others.
-/
import Stablecoin.Trove

namespace Stablecoin

/-- Collateral and debt that wait to be taken into a trove. -/
structure PendingShare where
  coll : Amount
  debt : Amount
deriving DecidableEq

/-- Nothing is waiting. -/
def PendingShare.none : PendingShare := ⟨0, 0⟩

/-- Neither collateral nor debt is waiting. -/
def PendingShare.isNone (s : PendingShare) : Bool := s.coll = 0 ∧ s.debt = 0

/-- What a trove holds with its pending share. -/
structure EntireTrove where
  debt : Amount
  coll : Amount
  pending : PendingShare
deriving DecidableEq

/-- The sums, carried remainders and stakes of all troves. -/
structure Redistribution where
  /-- The collateral spread over a unit of stake since the beginning. -/
  coll : Amount
  /-- The debt spread over a unit of stake since the beginning. -/
  debt : Amount
  /-- The remainder of the latest division of collateral. -/
  collCarry : Amount
  /-- The remainder of the latest division of debt. -/
  debtCarry : Amount
  /-- The sum of the stakes of active troves. -/
  totalStakes : Amount
  /-- That sum after the latest liquidation. -/
  stakesSnapshot : Amount
  /-- The collateral of the system after the latest liquidation. -/
  collSnapshot : Amount
deriving DecidableEq

namespace Redistribution

/-- Nothing was spread and nobody holds a stake. -/
def start : Redistribution := ⟨0, 0, 0, 0, 0, 0, 0⟩

instance : Inhabited Redistribution := ⟨start⟩

/-- The sums and stakes as a record. -/
def form : Form Redistribution :=
  .record
    (.field "l_coll" Amount.form <| .field "l_debt" Amount.form <|
      .field "last_coll_error" Amount.form <| .field "last_debt_error" Amount.form <|
      .field "total_stakes" Amount.form <| .field "total_stakes_snapshot" Amount.form <|
      .field "total_collateral_snapshot" Amount.form .done)
    (fun r => (r.coll, r.debt, r.collCarry, r.debtCarry, r.totalStakes, r.stakesSnapshot,
      r.collSnapshot, ()))
    (fun (coll, debt, collCarry, debtCarry, stakes, stakesSnapshot, collSnapshot, _) =>
      ⟨coll, debt, collCarry, debtCarry, stakes, stakesSnapshot, collSnapshot⟩)

/-- The snapshot for a record that is written now. -/
def snapshot (r : Redistribution) : Snapshot := ⟨r.coll, r.debt⟩

/-! ## Shares -/

/-- The share of a trove in the growth of one sum since its snapshot; a closed trove has none. -/
def shareOf (t : Trove) (sum seen : Amount) : Attempt Amount := do
  let growth ← sum.sub seen
  if growth = 0 ∨ t.isActive = false then return 0
  else t.stake.mulDiv growth Amount.unit

/-- The collateral that waits for a trove. -/
def pendingColl (r : Redistribution) (t : Trove) : Attempt Amount :=
  shareOf t r.coll t.snapshot.coll

/-- The debt that waits for a trove. -/
def pendingDebt (r : Redistribution) (t : Trove) : Attempt Amount :=
  shareOf t r.debt t.snapshot.debt

/-- What waits for a trove. -/
def pending (r : Redistribution) (t : Trove) : Attempt PendingShare := do
  return ⟨← r.pendingColl t, ← r.pendingDebt t⟩

/-- Something was spread since the record of an active trove was written. -/
def isBehind (r : Redistribution) (t : Trove) : Bool :=
  t.isActive ∧ (t.snapshot.coll < r.coll ∨ t.snapshot.debt < r.debt)

/-- What a trove holds with its pending share. -/
def entire (r : Redistribution) (t : Trove) : Attempt EntireTrove := do
  let waiting ← r.pending t
  return ⟨← t.debt.add waiting.debt, ← t.coll.add waiting.coll, waiting⟩

/-! ## Stakes -/

/-- The stake for an amount of collateral.  Until the first liquidation it is the collateral
itself, and then that amount times stakes over collateral as of the latest liquidation. -/
def stakeFor (r : Redistribution) (coll : Amount) : Attempt Amount :=
  if r.collSnapshot = 0 then .ok coll
  else do
    demand (r.stakesSnapshot ≠ 0)
      (.invariantViolation "stake snapshot is zero while collateral snapshot is not")
    coll.mulDiv r.stakesSnapshot r.collSnapshot

/-- The sum of the stakes after one of them is replaced. -/
def stakesAfter (r : Redistribution) (old new : Amount) : Attempt Amount := do
  (← r.totalStakes.sub old).add new

/-! ## Spreading -/

/-- The sums after collateral and debt are spread over the stakes, from which the liquidated
troves are already gone.  Without debt nothing is spread. -/
def spread (r : Redistribution) (coll debt : Amount) : Attempt Redistribution :=
  if debt = 0 then .ok r
  else do
    demand (r.totalStakes ≠ 0) (.invariantViolation "redistribution with no remaining stakes")
    let collNumerator ← (← coll.mul Amount.unit).add r.collCarry
    let debtNumerator ← (← debt.mul Amount.unit).add r.debtCarry
    let collPerStake ← collNumerator.dividedBy r.totalStakes
    let debtPerStake ← debtNumerator.dividedBy r.totalStakes
    let collSum ← r.coll.add collPerStake
    let debtSum ← r.debt.add debtPerStake
    let collCarry ← collNumerator.minus (← collPerStake.times r.totalStakes)
    let debtCarry ← debtNumerator.minus (← debtPerStake.times r.totalStakes)
    return { r with coll := collSum, debt := debtSum, collCarry := collCarry, debtCarry := debtCarry }

/-- The stakes and the given collateral of the system, noted after a liquidation. -/
def noted (r : Redistribution) (systemColl : Amount) : Redistribution :=
  { r with stakesSnapshot := r.totalStakes, collSnapshot := systemColl }

end Redistribution

end Stablecoin
