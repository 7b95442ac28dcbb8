/-
  Stablecoin accounting — asking a ledger.

  What an operation would be judged by, without changing anything: ratios at the
  price of the feed, the mode, the rates with their decay, and what waits for a
  trove or its owner.
-/
import Stablecoin.Ledger.Basic

namespace Stablecoin.Ledger

/-! ## Ratios -/

/-- The collateral ratio of a trove with its pending share. -/
def ratio (l : Ledger) (owner : Address) : Attempt Amount := do
  l.state.ratio owner (← l.price)

/-- The collateral ratio of the system. -/
def systemRatio (l : Ledger) : Attempt Amount := do
  l.state.systemRatio (← l.price)

/-- The system is in Recovery Mode. -/
def isInRecovery (l : Ledger) : Attempt Bool := do
  return (← l.evaluate (← l.price)).recovery

/-! ## Rates -/

/-- The borrowing rate now. -/
def borrowingRate (l : Ledger) : Attempt Amount :=
  l.state.baseRate.borrowingRate l.params l.state.now

/-- The fee for borrowing an amount now. -/
def borrowingFee (l : Ledger) (debt : Amount) : Attempt Amount :=
  l.state.baseRate.borrowingFee l.params l.state.now debt

/-- The redemption rate now. -/
def redemptionRate (l : Ledger) : Attempt Amount :=
  l.state.baseRate.redemptionRate l.params l.state.now

/-! ## One owner -/

/-- What waits for the trove of an owner; nothing where it is not active. -/
def pending (l : Ledger) (owner : Address) : Attempt PendingShare :=
  match l.state.activeTrove owner with
  | .ok t => l.state.spread.pending t
  | .error _ => .ok .none

/-- Something was spread since the active trove of an owner was written. -/
def isBehind (l : Ledger) (owner : Address) : Bool :=
  match l.state.activeTrove owner with
  | .ok t => l.state.spread.isBehind t
  | .error _ => false

/-- The surplus that an owner can claim. -/
def claimable (l : Ledger) (owner : Address) : Amount := l.state.pools.surplus.claimable owner

end Stablecoin.Ledger
