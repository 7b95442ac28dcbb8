/-
  Stablecoin accounting — liquidating troves.

  A call visits its candidates in order and decides on each with the totals that
  the ones before have left.  The candidates are listed by the caller, who then
  has those passed over that cannot be liquidated, or are taken from the lowest
  ratio upwards, and then the first that cannot ends the walk.

  * `Sweep` is what a call keeps between candidates, `judge` the decision on one
    and `seize` its liquidation;
  * `Ledger.planLiquidation` visits the candidates, and then settles the totals
    with the stability pool, the other troves and the liquidator at once.
-/
import Stablecoin.Ledger.Basic

namespace Stablecoin

/-- Whose troves a call considers. -/
inductive Targets
  /-- At most so many, from the lowest ratio upwards. -/
  | lowest (most : Nat)
  | listed (owners : List Address)

/-- Candidates that cannot be liquidated are passed over, and do not end the walk. -/
def Targets.areListed : Targets → Bool
  | .lowest _ => false
  | .listed _ => true

/-- What a call keeps between candidates. -/
structure Sweep where
  draft : Draft
  totals : SplitTotals
  owners : List Address
  /-- The collateral of the system without what has left it. -/
  coll : Amount
  /-- The debt of the system without what was cancelled. -/
  debt : Amount
  /-- Deposits that can still take debt. -/
  deposits : Amount
  /-- The system is not, or no longer, in Recovery Mode. -/
  normal : Bool

/-- The decision on a candidate. -/
inductive Verdict
  /-- It is left alone. -/
  | pass
  /-- It is left alone, and so are all behind it. -/
  | halt
  | take (split : Split)

namespace Ledger

/-! ## Candidates -/

/-- At most so many owners from the lowest ratio upwards; in Recovery Mode never the first. -/
def lowestCandidates (l : Ledger) (most : Nat) (withoutFirst : Bool) : List Address :=
  l.ranking.gather withoutFirst most l.ranking.last

/-- The owners to visit. -/
def candidates (l : Ledger) (recovery : Bool) : Targets → List Address
  | .lowest most => l.lowestCandidates most recovery
  | .listed owners => owners

/-! ## One trove -/

/-- Decides on a candidate. -/
def judge (l : Ledger) (price : Amount) (listed : Bool) (w : Sweep) (whole : EntireTrove) :
    Attempt Verdict := do
  let ratio ← Amount.ratio whole.coll whole.debt price
  let refused : Verdict := if listed then .pass else .halt
  if w.normal then
    if ratio < l.params.minimumRatio then
      return .take (← Split.normal whole.debt whole.coll w.deposits l.params)
    else return refused
  else if l.params.minimumRatio ≤ ratio ∧ w.deposits = 0 then return refused
  else if w.draft.state.activeCount ≤ 1 then return .pass
  else
    let systemRatio ← Amount.ratio w.coll w.debt price
    match ← Split.inRecovery whole.debt whole.coll ratio systemRatio price w.deposits l.params with
    | some split => return .take split
    | none => return .pass

/-- Closes a trove under liquidation and books the surplus of its owner. -/
def seize (d : Draft) (owner : Address) (whole : EntireTrove) (split : Split) (touch : Touch) :
    Attempt Draft := do
  let s ← d.state.release whole.pending
  let s ← s.unstake owner
  let s ← s.closeTrove owner .closedByLiquidation
  let surplus ← s.pools.surplus.creditedLeft owner split.surplus
  let d := d.withState { s with pools := { s.pools with surplus := surplus } }
  let d := d.ranking (.remove owner)
  return (d.reporting (.troveLiquidated owner whole.debt whole.coll touch)).reportingTrove owner touch

/-- The totals of the system, and its mode, after a liquidation in Recovery Mode. -/
def systemAfter (l : Ledger) (price : Amount) (w : Sweep) (split : Split) : Attempt Sweep := do
  let debt ← w.debt.sub split.debtOffset
  let coll ← w.coll.sub (← split.collLeaving)
  return { w with coll := coll, debt := debt, normal := !(← isRecovery coll debt price l.params) }

/-- Liquidates a candidate. -/
def take (l : Ledger) (price : Amount) (w : Sweep) (owner : Address) (whole : EntireTrove)
    (split : Split) : Attempt Sweep := do
  let d ← seize w.draft owner whole split (if w.normal then .liquidated else .liquidatedInRecovery)
  let w ← (if w.normal then .ok w else l.systemAfter price w split)
  let deposits ← w.deposits.sub split.debtOffset
  let totals ← w.totals.including split
  return { w with
    draft := d, totals := totals, owners := w.owners ++ [owner], deposits := deposits }

/-- Visits the candidates in order. -/
def sweep (l : Ledger) (price : Amount) (listed : Bool) (w : Sweep) : List Address → Attempt Sweep
  | [] => .ok w
  | owner :: rest =>
    if w.draft.state.isActive owner then do
      let whole ← w.draft.state.entire owner
      match ← l.judge price listed w whole with
      | .pass => l.sweep price listed w rest
      | .halt => return w
      | .take split => l.sweep price listed (← l.take price w owner whole split) rest
    else l.sweep price listed w rest

/-! ## The totals -/

/-- The next state with less in the active pool. -/
def lessActive (s : State) (coll debt : Amount) : Attempt State := do
  return { s with pools := { s.pools with active := ← s.pools.active.decreased coll debt } }

/-- The depositors take their part of collateral and debt. -/
def settleOffset (l : Ledger) (d : Draft) (t : SplitTotals) : Attempt Draft :=
  if t.debtOffset = 0 then .ok d
  else do
    let stability ← d.state.stability.offset t.debtOffset t.collOffset
    let s ← lessActive { d.state with stability := stability } t.collOffset t.debtOffset
    return (d.withState s).moving (.burn l.accounts.stabilityPool t.debtOffset)

/-- The other troves take their part. -/
def settleSpread (d : Draft) (t : SplitTotals) : Attempt Draft :=
  if t.debtSpread = 0 then .ok d
  else do
    let s ← d.state.redistribute t.collSpread t.debtSpread
    return (d.withState s).reporting (.sumsUpdated s.spread.coll s.spread.debt)

/-- Surplus and reward leave the active pool; stakes and collateral are noted in between. -/
def settleRest (l : Ledger) (d : Draft) (liquidator : Address) (t : SplitTotals) :
    Attempt Draft := do
  let s ← lessActive d.state t.surplus 0
  let s ← s.note t.collReward
  let s ← lessActive s t.collReward 0
  let d := (d.withState s).moving (.fromPool l.accounts.gasPool liquidator t.debtReward)
  let d := d.reporting (.liquidation t.debt t.coll t.collReward t.debtReward)
  let d := d.reporting (.snapshotsUpdated s.spread.stakesSnapshot s.spread.collSnapshot)
  return d.reportingStakes

/-! ## Calls -/

/-- Plans a liquidation. -/
def planLiquidation (l : Ledger) (liquidator : Address) (targets : Targets) :
    Attempt (Plan Liquidated) := do
  let price ← l.price
  let system ← l.evaluate price
  let start : Sweep :=
    ⟨.start l.state, .zero, [], system.coll, system.debt, l.state.stability.deposits,
      !system.recovery⟩
  let w ← l.sweep price targets.areListed start (l.candidates system.recovery targets)
  demand (w.totals.isEmpty = false) .nothingToLiquidate
  let d ← l.settleOffset w.draft w.totals
  let d ← settleSpread d w.totals
  let d ← l.settleRest d liquidator w.totals
  return ⟨⟨w.owners, system.recovery, w.totals⟩, d⟩

/-- Liquidates one trove. -/
def liquidate (l : Ledger) (liquidator target : Address) : Attempt Liquidated × Ledger :=
  l.perform do
    let _ ← l.state.activeTrove target
    l.planLiquidation liquidator (.listed [target])

/-- Liquidates troves from the lowest ratio upwards. -/
def liquidateLowest (l : Ledger) (liquidator : Address) (most : UInt64) :
    Attempt Liquidated × Ledger :=
  l.perform (l.planLiquidation liquidator (.lowest most.toNat))

/-- Liquidates those of the listed troves that can be. -/
def liquidateListed (l : Ledger) (liquidator : Address) (targets : List Address) :
    Attempt Liquidated × Ledger :=
  l.perform do
    demand (targets ≠ []) (.invalidOperation "batch liquidation needs targets")
    l.planLiquidation liquidator (.listed targets)

end Ledger

end Stablecoin
