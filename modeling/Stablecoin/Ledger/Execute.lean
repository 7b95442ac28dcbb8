/-
  Stablecoin accounting — carrying out requests.

  `Ledger.execute` carries out any request, and answers with what came of it.
  The ledger it returns is the one to go on with, whether the request was
  carried out or refused.
-/
import Stablecoin.Ledger.Borrowing
import Stablecoin.Ledger.Deposits
import Stablecoin.Ledger.Liquidation
import Stablecoin.Ledger.Redemption

namespace Stablecoin

/-- The same outcome, its value seen otherwise. -/
def answering {α β : Type} (see : α → β) (outcome : Attempt α × Ledger) : Attempt β × Ledger :=
  (outcome.1.map see, outcome.2)

namespace Ledger

/-- Carries out a request. -/
def execute (l : Ledger) : Request → Attempt Answer × Ledger
  | .openTrove r => answering .opened (l.openTrove r)
  | .adjustTrove r => answering .adjusted (l.adjustTrove r)
  | .closeTrove owner => answering .closed (l.closeTrove owner)
  | .realize owner => answering .realized (l.realize owner)
  | .liquidate liquidator target => answering .liquidated (l.liquidate liquidator target)
  | .liquidateLowest liquidator most => answering .liquidated (l.liquidateLowest liquidator most)
  | .liquidateListed liquidator targets =>
    answering .liquidated (l.liquidateListed liquidator targets)
  | .redeem r => answering .redeemed (l.redeem r)
  | .claim owner => answering .claimed (l.claim owner)
  | .provide owner amount => answering (.deposited owner) (l.provide owner amount)
  | .withdraw owner amount => answering (.deposited owner) (l.withdraw owner amount)

end Ledger

end Stablecoin
