/-
  Stablecoin accounting — the state.

  All troves and all totals in one value.  An operation works on a copy and
  hands it over when everything has succeeded, so the functions here give a new
  state or a refusal, and never half a change.

  * `State.realize` takes the pending share of a trove into its record;
  * `State.restake`, `State.unstake` keep the sum of stakes;
  * `State.openTrove`, `State.closeTrove` keep the count of active troves;
  * `State.verify` checks the totals against the records;
  * `State.bytes` writes a state and `State.ofBytes` reads one.
-/
import Stablecoin.Pools
import Stablecoin.BaseRate
import Stablecoin.RecoveryMode
import Stablecoin.Redistribution
import Stablecoin.StabilityPool

namespace Stablecoin

/-- Troves and totals. -/
structure State where
  /-- Records by owner; those of closed troves are kept, emptied. -/
  troves : Table Address Trove
  /-- The count of active troves. -/
  activeCount : UInt64
  spread : Redistribution
  baseRate : BaseRate
  pools : Pools
  stability : StabilityPool
  /-- The time in seconds. -/
  now : UInt64
deriving DecidableEq

namespace State

/-- No troves, at time zero. -/
def empty : State := ⟨.empty, 0, .start, .start, .empty, .empty, 0⟩

instance : Inhabited State := ⟨empty⟩

/-! ## Troves -/

/-- The record of an owner, if there ever was one. -/
def trove (s : State) (owner : Address) : Option Trove := s.troves.get? owner

/-- The status of the trove of an owner. -/
def status (s : State) (owner : Address) : TroveStatus :=
  ((s.trove owner).map Trove.status).getD .nonExistent

/-- The owner has an active trove. -/
def isActive (s : State) (owner : Address) : Bool := s.status owner == .active

/-- The active trove of an owner. -/
def activeTrove (s : State) (owner : Address) : Attempt Trove :=
  demandSome (.troveNotFound owner) ((s.trove owner).filter Trove.isActive)

/-- The active troves in the order of their owners. -/
def activeTroves (s : State) : List Trove := s.troves.values.filter Trove.isActive

/-- The state with the record of an owner written anew. -/
def withTrove (s : State) (owner : Address) (t : Trove) : State :=
  { s with troves := s.troves.insert owner t }

/-- What a trove holds with its pending share. -/
def entire (s : State) (owner : Address) : Attempt EntireTrove := do
  s.spread.entire (← s.activeTrove owner)

/-- The collateral ratio of a trove with its pending share. -/
def ratio (s : State) (owner : Address) (price : Amount) : Attempt Amount := do
  let whole ← s.entire owner
  Amount.ratio whole.coll whole.debt price

/-- The nominal ratio of a trove with its pending share. -/
def nominalRatio (s : State) (owner : Address) : Attempt Amount := do
  let whole ← s.entire owner
  Amount.nominalRatio whole.coll whole.debt

/-! ## The system -/

/-- The collateral of all troves. -/
def systemColl (s : State) : Attempt Amount := s.pools.systemColl

/-- The debt of all troves. -/
def systemDebt (s : State) : Attempt Amount := s.pools.systemDebt

/-- The collateral ratio of the system. -/
def systemRatio (s : State) (price : Amount) : Attempt Amount := do
  let coll ← s.systemColl
  let debt ← s.systemDebt
  Amount.ratio coll debt price

/-- The ratio of the system and its mode. -/
def evaluate (s : State) (price : Amount) (p : Parameters) : Attempt SystemRatio := do
  let coll ← s.systemColl
  let debt ← s.systemDebt
  SystemRatio.evaluate coll debt price p

/-! ## Pending shares and stakes -/

/-- Takes the pending share of a trove into its record. -/
def realize (s : State) (owner : Address) : Attempt (PendingShare × State) := do
  let t ← s.activeTrove owner
  if s.spread.isBehind t then
    let waiting ← s.spread.pending t
    let coll ← t.coll.add waiting.coll
    let debt ← t.debt.add waiting.debt
    let pools ← s.pools.realized waiting.coll waiting.debt
    let t := { t with coll := coll, debt := debt, snapshot := s.spread.snapshot }
    return (waiting, { s.withTrove owner t with pools := pools })
  else return (.none, s)

/-- Moves the pending share of a trove that is liquidated to the active pool. -/
def release (s : State) (waiting : PendingShare) : Attempt State := do
  return { s with pools := ← s.pools.realized waiting.coll waiting.debt }

/-- Notes in a record that nothing is pending. -/
def renewSnapshot (s : State) (owner : Address) : Attempt State := do
  let t ← s.activeTrove owner
  return s.withTrove owner { t with snapshot := s.spread.snapshot }

/-- Gives a trove the stake for its collateral. -/
def restake (s : State) (owner : Address) : Attempt (Amount × State) := do
  let t ← s.activeTrove owner
  let stake ← s.spread.stakeFor t.coll
  let total ← s.spread.stakesAfter t.stake stake
  return (stake, { s.withTrove owner { t with stake := stake } with
    spread := { s.spread with totalStakes := total } })

/-- Takes the stake of a trove out of the sum. -/
def unstake (s : State) (owner : Address) : Attempt State := do
  let t ← s.activeTrove owner
  let total ← s.spread.totalStakes.sub t.stake
  return { s.withTrove owner { t with stake := 0 } with
    spread := { s.spread with totalStakes := total } }

/-- Spreads collateral and debt over all stakes, out of the active into the default pool. -/
def redistribute (s : State) (coll debt : Amount) : Attempt State :=
  if debt = 0 then .ok s
  else do
    let spread ← s.spread.spread coll debt
    let active ← s.pools.active.decreased coll debt
    let default ← s.pools.default.increased coll debt
    return { s with
      spread := spread
      pools := { s.pools with active := active, default := default } }

/-- Notes stakes and collateral after a liquidation; what is still owed to the liquidator is
left out. -/
def note (s : State) (owed : Amount) : Attempt State := do
  let coll ← (← s.pools.active.coll.sub owed).add s.pools.default.coll
  return { s with spread := s.spread.noted coll }

/-! ## Opening and closing -/

/-- Records a new trove. -/
def openTrove (s : State) (owner : Address) (coll debt : Amount) : Attempt State := do
  demand (s.isActive owner = false) (.troveAlreadyActive owner)
  let t : Trove := ⟨owner, coll, debt, 0, .active, s.spread.snapshot⟩
  return { s.withTrove owner t with activeCount := ← nextCount s.activeCount }

/-- Writes the collateral and debt of a trove anew. -/
def amend (s : State) (owner : Address) (coll debt : Amount) : Attempt State := do
  let t ← s.activeTrove owner
  return s.withTrove owner { t with coll := coll, debt := debt }

/-- Empties a trove under a closing status.  The last one stays. -/
def closeTrove (s : State) (owner : Address) (status : TroveStatus) : Attempt State := do
  demand status.isClosed (.internal (status.name ++ " is not a closed status"))
  let t ← s.activeTrove owner
  demand (1 < s.activeCount) .lastTrove
  return { s.withTrove owner (t.closed status) with activeCount := s.activeCount - 1 }

/-! ## Verification -/

/-- The sum of the stakes of troves. -/
def sumStakes (troves : List Trove) : Attempt Amount :=
  troves.foldlM (fun sum t => sum.add t.stake) 0

/-- Checks the totals against the records. -/
def verify (s : State) : Attempt Unit := do
  let active := s.activeTroves
  demand (active.length = s.activeCount.toNat)
    (.invariantViolation
      (toString active.length ++ " active troves but count is " ++ toString s.activeCount.toNat))
  let stakes ← sumStakes active
  demand (stakes = s.spread.totalStakes)
    (.invariantViolation
      s!"sum of stakes {stakes} differs from total stakes {s.spread.totalStakes}")
  demand s.pools.surplus.isConsistent (.invariantViolation "surplus pool total mismatch")
  demand (s.baseRate.rate ≤ Amount.unit) (.invariantViolation "base rate above 100%")

/-! ## Written form -/

/-- The state as a record. -/
def form : Form State :=
  .record
    (.field "troves" (Form.table Address.key Trove.form) <|
      .field "trove_owners_count" Form.word <| .field "rewards" Redistribution.form <|
      .field "fees" BaseRate.form <| .field "pools" Pools.form <|
      .field "stability_pool" StabilityPool.form <| .field "timestamp" Form.word .done)
    (fun s => (s.troves, s.activeCount, s.spread, s.baseRate, s.pools, s.stability, s.now, ()))
    (fun (troves, count, spread, rate, pools, stability, now, _) =>
      ⟨troves, count, spread, rate, pools, stability, now⟩)

/-- The bytes of a state. -/
def bytes (s : State) : Bytes := form.toBytes s

/-- The state that the bytes begin with. -/
def ofBytes (bytes : Bytes) : Attempt State :=
  demandSome (.deserialization "not a state") ((form.ofBytes? bytes).map Prod.fst)

/-- The digest of the bytes of a state. -/
def digest (s : State) : Digest := .ofMessage s.bytes

end State

end Stablecoin
