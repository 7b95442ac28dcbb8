/-
  Stablecoin accounting — opening, adjusting and closing troves.

  * `Ledger.planOpening` charges the borrowing fee outside Recovery Mode, and
    adds the reserve to the debt;
  * `Ledger.planAdjustment` takes the pending share in first, so that the rules
    are applied to what the trove really holds;
  * `Ledger.planClosing` burns the whole net debt and the reserve;
  * `Ledger.planRealization` only takes the pending share in.
-/
import Stablecoin.Ledger.Basic

namespace Stablecoin.Ledger

/-! ## The borrowing fee -/

/-- Charges the fee for borrowing an amount: the base rate decays, and the fee is minted for the
stakers. -/
def chargeFee (l : Ledger) (d : Draft) (owner : Address) (amount limit : Amount) :
    Attempt (Amount × Draft) := do
  let quote ← d.state.baseRate.quoteBorrowing l.params d.state.now amount limit
  let d := (d.settingRate quote.next).moving (.mint l.accounts.staking quote.fee)
  let d := if quote.fee = 0 then d else d.reporting (.borrowingFeePaid owner quote.fee)
  return (quote.fee, d)

/-- Charges the fee where one is due; otherwise it is zero. -/
def chargeFeeIf (due : Bool) (l : Ledger) (d : Draft) (owner : Address) (amount limit : Amount) :
    Attempt (Amount × Draft) :=
  if due then l.chargeFee d owner amount limit else .ok (0, d)

/-! ## Opening -/

/-- Plans a new trove. -/
def planOpening (l : Ledger) (r : OpenRequest) : Attempt (Plan Opened) := do
  let price ← l.price
  let system ← l.evaluate price
  BaseRate.demandBorrowingLimit l.params r.limit system.recovery
  demand (l.state.isActive r.owner = false) (.troveAlreadyActive r.owner)
  let (fee, d) ← chargeFeeIf (!system.recovery) l (.start l.state) r.owner r.debt r.limit
  let netDebt ← r.debt.add fee
  l.demandDebtFloor netDebt
  let debt ← netDebt.add l.params.gasCompensation
  let ratio ← Amount.ratio r.deposit debt price
  let nominal ← Amount.nominalRatio r.deposit debt
  let change : Change := ⟨r.deposit, true, debt, true⟩
  let newSystem ← change.ratio system.coll system.debt price
  demandOpening system.recovery ratio newSystem l.params
  let s ← d.state.openTrove r.owner r.deposit debt
  let (stake, s) ← s.restake r.owner
  let active ← s.pools.active.increased r.deposit debt
  let d := d.withState { s with pools := { s.pools with active := active } }
  let d := d.ranking (.insert r.owner nominal r.hints)
  let d := d.moving (.mint r.owner r.debt)
  let d := d.moving (.mint l.accounts.gasPool l.params.gasCompensation)
  let d := (d.reportingTrove r.owner .opened).reportingStakes
  return ⟨⟨r.deposit, debt, stake, fee, ratio⟩, d⟩

/-- Opens a trove. -/
def openTrove (l : Ledger) (r : OpenRequest) : Attempt Opened × Ledger :=
  l.perform (l.planOpening r)

/-! ## Adjusting -/

/-- What is asked for is one change, and not two that contradict each other. -/
def demandSensible (l : Ledger) (r : AdjustRequest) (recovery : Bool) : Attempt Unit := do
  onlyIf r.debtGrows do
    BaseRate.demandBorrowingLimit l.params r.limit recovery
    demand (r.debt ≠ 0) (.invalidOperation "debt increase requires a non-zero debt change")
  demand (r.withdrawal = 0 ∨ r.deposit = 0)
    (.invalidOperation "cannot withdraw and deposit collateral in one adjustment")
  demand (r.withdrawal ≠ 0 ∨ r.deposit ≠ 0 ∨ r.debt ≠ 0)
    (.invalidOperation "adjustment must change collateral or debt")

/-- What is paid back leaves the debt at its floor. -/
def demandRepayable (l : Ledger) (t : Trove) (amount : Amount) : Attempt Unit := do
  let netDebt ← t.netDebt l.params.gasCompensation
  demand (amount ≤ netDebt)
    (.invalidOperation s!"repayment {amount.decimal} exceeds net debt {netDebt.decimal}")
  l.demandDebtFloor (← netDebt.minus amount)

/-- The active pool after a change of a trove. -/
def changeActive (active : Balance) (c : Change) : Attempt Balance := do
  let active ← (if c.collGrows then active.increased c.coll 0 else active.decreased c.coll 0)
  if c.debtGrows then active.increased 0 c.debt else active.decreased 0 c.debt

/-- Plans a change of a trove. -/
def planAdjustment (l : Ledger) (r : AdjustRequest) : Attempt (Plan Adjusted) := do
  let price ← l.price
  let system ← l.evaluate price
  l.demandSensible r system.recovery
  let _ ← l.state.activeTrove r.owner
  onlyIf (r.withdrawal ≠ 0) (demandNormal system.recovery "collateral withdrawal")
  let (realized, s) ← l.state.realize r.owner
  let d := Draft.start s
  let (fee, d) ← chargeFeeIf (r.debtGrows && !system.recovery) l d r.owner r.debt r.limit
  let debtChange ← r.debt.add fee
  let t ← d.state.activeTrove r.owner
  demand (r.withdrawal ≤ t.coll)
    (.invalidOperation
      s!"collateral withdrawal {r.withdrawal.decimal} exceeds trove collateral {t.coll.decimal}")
  let repays : Bool := !r.debtGrows && r.debt ≠ 0
  onlyIf repays (l.demandRepayable t r.debt)
  let change : Change :=
    ⟨if r.deposit = 0 then r.withdrawal else r.deposit, r.deposit ≠ 0, debtChange, r.debtGrows⟩
  let oldRatio ← t.ratio price
  let newRatio ← change.ratio t.coll t.debt price
  let newSystem ← change.ratio system.coll system.debt price
  demandAdjustment system.recovery r.withdrawal r.debtGrows oldRatio newRatio newSystem l.params
  onlyIf repays (l.demandBalance r.owner r.debt)
  let (coll, debt) ← change.apply t.coll t.debt
  let s ← d.state.amend r.owner coll debt
  let (stake, s) ← s.restake r.owner
  let nominal ← Amount.nominalRatio coll debt
  let active ← changeActive s.pools.active change
  let d := d.withState { s with pools := { s.pools with active := active } }
  let d := d.ranking (.reinsert r.owner nominal r.hints)
  let d := d.moving (if r.debtGrows then .mint r.owner r.debt else .burn r.owner r.debt)
  let d := (d.reportingTrove r.owner .adjusted).reportingStakes
  return ⟨⟨coll, debt, stake, fee, realized, r.withdrawal⟩, d⟩

/-- Adjusts a trove. -/
def adjustTrove (l : Ledger) (r : AdjustRequest) : Attempt Adjusted × Ledger :=
  l.perform (l.planAdjustment r)

/-! ## Closing -/

/-- Plans the closing of a trove by its owner. -/
def planClosing (l : Ledger) (owner : Address) : Attempt (Plan Closed) := do
  let _ ← l.state.activeTrove owner
  let price ← l.price
  let system ← l.evaluate price
  demandNormal system.recovery "closing a trove"
  let (_, s) ← l.state.realize owner
  let t ← s.activeTrove owner
  let repayment ← t.netDebt l.params.gasCompensation
  l.demandBalance owner repayment
  let change : Change := ⟨t.coll, false, t.debt, false⟩
  let newSystem ← change.ratio system.coll system.debt price
  demandSystemCritical newSystem l.params
  let s ← s.unstake owner
  let s ← s.closeTrove owner .closedByOwner
  let active ← s.pools.active.decreased t.coll t.debt
  let d := Draft.start { s with pools := { s.pools with active := active } }
  let d := d.ranking (.remove owner)
  let d := d.moving (.burn owner repayment)
  let d := d.moving (.burn l.accounts.gasPool l.params.gasCompensation)
  let d := (d.reportingTrove owner .closed).reportingStakes
  return ⟨⟨repayment, t.coll⟩, d⟩

/-- Closes a trove. -/
def closeTrove (l : Ledger) (owner : Address) : Attempt Closed × Ledger :=
  l.perform (l.planClosing owner)

/-! ## Taking in pending shares -/

/-- Plans to take the pending share of a trove into its record. -/
def planRealization (l : Ledger) (owner : Address) : Attempt (Plan PendingShare) := do
  let _ ← l.state.activeTrove owner
  let (waiting, s) ← l.state.realize owner
  let d := Draft.start s
  return ⟨waiting, if waiting.isNone then d else d.reportingTrove owner .realized⟩

/-- Takes the pending share of a trove into its record. -/
def realize (l : Ledger) (owner : Address) : Attempt PendingShare × Ledger :=
  l.perform (l.planRealization owner)

end Stablecoin.Ledger
