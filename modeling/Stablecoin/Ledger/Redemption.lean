/-
  Stablecoin accounting — redeeming tokens.

  Tokens are exchanged for collateral at face value, from the lowest ratio at
  the minimum or above it upwards.  A trove whose whole net debt is redeemed is
  closed, and what is left of its collateral becomes a surplus of its owner; the
  last one may be redeemed in part.

  * `Ledger.redemptionWalk` are the troves to visit, from the one hinted at if
    the hint holds;
  * `Ledger.redeemFrom` draws on one trove, or cancels a partial redemption that
    would leave too little debt or another ratio than was hinted at;
  * `Ledger.planRedemption` visits the troves and charges the fee on what was
    drawn.
-/
import Stablecoin.Ledger.Basic

namespace Stablecoin

/-- What is drawn from a trove. -/
structure Lot where
  debt : Amount
  coll : Amount
  /-- The trove was closed. -/
  closed : Bool

/-- What a redemption keeps between troves. -/
structure Drawing where
  draft : Draft
  /-- Tokens still to be redeemed. -/
  remaining : Amount
  redeemed : Amount
  drawn : Amount
  owners : List Address
  closed : List Address

namespace Ledger

/-! ## Where to begin -/

/-- The hint names the lowest trove at the minimum ratio or above it. -/
def isFirst (l : Ledger) (hint : Option Address) (price : Amount) : Attempt Bool :=
  match hint with
  | none => .ok false
  | some owner =>
    if l.ranking.contains owner then do
      if (← l.state.ratio owner price) < l.params.minimumRatio then return false
      else
        match l.ranking.next owner with
        | none => return true
        | some lower => return (← l.state.ratio lower price) < l.params.minimumRatio
    else .ok false

/-- The owners without those at the beginning that are below the minimum ratio. -/
def skipBelow (l : Ledger) (price : Amount) : List Address → Attempt (List Address)
  | [] => .ok []
  | owner :: rest => do
    if l.params.minimumRatio ≤ (← l.state.ratio owner price) then return owner :: rest
    else l.skipBelow price rest

/-- The owners to visit, in order. -/
def redemptionWalk (l : Ledger) (hint : Option Address) (price : Amount) :
    Attempt (List Address) := do
  if ← l.isFirst hint price then return l.ranking.upwardFrom hint
  else l.skipBelow price (l.ranking.upwardFrom l.ranking.last)

/-! ## One trove -/

/-- Closes a trove whose net debt is redeemed, and books what is left as a surplus. -/
def closeRedeemed (l : Ledger) (d : Draft) (owner : Address) (left : Amount) : Attempt Draft := do
  let s ← d.state.unstake owner
  let s ← s.closeTrove owner .closedByRedemption
  let active ← s.pools.active.decreased left l.params.gasCompensation
  let surplus ← s.pools.surplus.creditedLeft owner left
  let d := d.withState { s with pools := { s.pools with active := active, surplus := surplus } }
  let d := d.ranking (.remove owner)
  let d := d.moving (.burn l.accounts.gasPool l.params.gasCompensation)
  return d.reportingTrove owner .redeemed

/-- Leaves a trove with less, unless the redemption is cancelled. -/
def redeemPart (l : Ledger) (d : Draft) (r : RedeemRequest) (owner : Address)
    (coll debt : Amount) : Attempt (Option Draft) := do
  let nominal ← Amount.nominalRatio coll debt
  if r.partialHint.any fun hint => hint ≠ nominal then return none
  else if (← debt.sub l.params.gasCompensation) < l.params.minimumNetDebt then return none
  else
    let s ← d.state.amend owner coll debt
    let (_, s) ← s.restake owner
    let d := (d.withState s).ranking (.reinsert owner nominal r.hints)
    return some (d.reportingTrove owner .redeemed)

/-- Draws up to an amount from a trove, or nothing where a partial redemption is cancelled. -/
def redeemFrom (l : Ledger) (d : Draft) (r : RedeemRequest) (owner : Address)
    (most price : Amount) : Attempt (Option (Lot × Draft)) := do
  let t ← d.state.activeTrove owner
  let lot := min most (← t.netDebt l.params.gasCompensation)
  let coll ← lot.mulDiv Amount.unit price
  let debtLeft ← t.debt.sub lot
  let collLeft ← t.coll.sub coll
  if debtLeft = l.params.gasCompensation then
    return some (⟨lot, coll, true⟩, ← l.closeRedeemed d owner collLeft)
  else return (← l.redeemPart d r owner collLeft debtLeft).map (⟨lot, coll, false⟩, ·)

/-! ## All troves -/

/-- Visits the owners in order while there is something to redeem. -/
def draw (l : Ledger) (r : RedeemRequest) (price : Amount) (w : Drawing) :
    List Address → Attempt Drawing
  | [] => .ok w
  | owner :: rest =>
    if w.remaining = 0 then .ok w
    else do
      let (_, s) ← w.draft.state.realize owner
      match ← l.redeemFrom (w.draft.withState s) r owner w.remaining price with
      | none => return { w with draft := w.draft.withState s }
      | some (lot, d) =>
        let redeemed ← w.redeemed.add lot.debt
        let drawn ← w.drawn.add lot.coll
        let remaining ← w.remaining.sub lot.debt
        let closed := if lot.closed then w.closed ++ [owner] else w.closed
        l.draw r price ⟨d, remaining, redeemed, drawn, w.owners ++ [owner], closed⟩ rest

/-- Plans a redemption. -/
def planRedemption (l : Ledger) (r : RedeemRequest) : Attempt (Plan Redeemed) := do
  BaseRate.demandRedemptionLimit l.params r.limit
  let price ← l.price
  let system ← l.evaluate price
  demandSystemMinimum system.ratio l.params
  demand (r.amount ≠ 0) .zeroAmount
  l.demandBalance r.redeemer r.amount
  let walk ← l.redemptionWalk r.firstHint price
  let visited := if r.most = 0 then walk else walk.take r.most.toNat
  let w ← l.draw r price ⟨.start l.state, r.amount, 0, 0, [], []⟩ visited
  demand (w.drawn ≠ 0) .unableToRedeem
  let s := w.draft.state
  let quote ← s.baseRate.quoteRedemption l.params s.now w.drawn price system.debt r.limit
  let d := w.draft.settingRate quote.next
  let sent ← w.drawn.sub quote.fee
  let staking ← d.state.pools.stakingColl.add quote.fee
  let active ← d.state.pools.active.decreased w.drawn w.redeemed
  let pools := { d.state.pools with stakingColl := staking, active := active }
  let d := (d.withState { d.state with pools := pools }).moving (.burn r.redeemer w.redeemed)
  let d := d.reporting (.redemption r.amount w.redeemed w.drawn quote.fee)
  return ⟨⟨r.amount, w.redeemed, w.drawn, quote.fee, sent, w.owners, w.closed,
    d.state.baseRate.rate⟩, d⟩

/-- Redeems tokens. -/
def redeem (l : Ledger) (r : RedeemRequest) : Attempt Redeemed × Ledger :=
  l.perform (l.planRedemption r)

/-! ## Surplus -/

/-- Plans to pay out a surplus. -/
def planClaim (l : Ledger) (owner : Address) : Attempt (Plan Amount) := do
  let (amount, surplus) ← l.state.pools.surplus.paidOut owner
  let d := Draft.start { l.state with pools := { l.state.pools with surplus := surplus } }
  return ⟨amount, d.reporting (.collateralClaimed owner amount)⟩

/-- Pays out the surplus of a borrower. -/
def claim (l : Ledger) (owner : Address) : Attempt Amount × Ledger := l.perform (l.planClaim owner)

end Ledger

end Stablecoin
