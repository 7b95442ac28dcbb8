/-
  Stablecoin accounting — deposits in the stability pool.

  Depositing and withdrawing both pay out the collateral gained.  Withdrawals of
  tokens wait while the lowest trove is below the minimum ratio, so that nobody
  escapes a liquidation that is due.
-/
import Stablecoin.Ledger.Basic

namespace Stablecoin.Ledger

/-- The lowest trove is at the minimum ratio or above it. -/
def demandNoneBelow (l : Ledger) : Attempt Unit :=
  match l.ranking.last with
  | none => .ok ()
  | some lowest => do
    let price ← l.price
    demand (l.params.minimumRatio ≤ (← l.state.ratio lowest price)) .undercollateralizedTroves

/-- Reports what a depositor has now. -/
def reportDeposit (d : Draft) (owner : Address) (change : DepositChange) : Draft :=
  d.reporting (.depositChanged owner change.deposit change.gain)

/-- Plans a deposit. -/
def planDeposit (l : Ledger) (owner : Address) (amount : Amount) :
    Attempt (Plan DepositChange) := do
  demand (amount ≠ 0) .zeroAmount
  let (change, stability) ← l.state.stability.deposit owner amount
  let d := Draft.start { l.state with stability := stability }
  let d := d.moving (.toPool owner l.accounts.stabilityPool amount)
  return ⟨change, reportDeposit d owner change⟩

/-- Deposits tokens. -/
def provide (l : Ledger) (owner : Address) (amount : Amount) : Attempt DepositChange × Ledger :=
  l.perform (l.planDeposit owner amount)

/-- Plans a withdrawal. -/
def planWithdrawal (l : Ledger) (owner : Address) (amount : Amount) :
    Attempt (Plan DepositChange) := do
  onlyIf (amount ≠ 0) l.demandNoneBelow
  let (change, stability) ← l.state.stability.withdraw owner amount
  let d := Draft.start { l.state with stability := stability }
  let d := d.moving (.fromPool l.accounts.stabilityPool owner change.withdrawn)
  return ⟨change, reportDeposit d owner change⟩

/-- Withdraws tokens; of nothing, only pays out the gain. -/
def withdraw (l : Ledger) (owner : Address) (amount : Amount) : Attempt DepositChange × Ledger :=
  l.perform (l.planWithdrawal owner amount)

end Stablecoin.Ledger
