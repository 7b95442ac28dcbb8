/-
  Stablecoin accounting — summaries of ledgers and answers.

  What a ledger shows after each step, what came of a request, and the fixed
  numbers of the protocol.
-/
import Stablecoin.Ledger.Basic
import Stablecoin.Protocol
import Stablecoin.Summary.Values

namespace Stablecoin

/-! ## Answers -/

namespace Answer

/-- The name of the kind of an answer. -/
def kind : Answer → String
  | opened _ => "OpenTrove"
  | adjusted _ => "AdjustTrove"
  | closed _ => "CloseTrove"
  | realized _ => "ApplyPendingRewards"
  | liquidated _ => "Liquidation"
  | redeemed _ => "Redemption"
  | claimed _ => "ClaimCollateral"
  | deposited _ _ => "StabilityPool"

/-- What came of a request. -/
def summary : Answer → Json
  | opened o => .ofAmounts [
    ("coll", o.coll), ("debt", o.debt), ("stake", o.stake), ("fee", o.fee), ("icr", o.ratio)]
  | adjusted o => .ofFields [
    ("coll", o.coll.summary), ("debt", o.debt.summary), ("stake", o.stake.summary),
    ("fee", o.fee.summary), ("realized", o.realized.summary), ("coll_sent", o.sent.summary)]
  | closed o => .ofAmounts [("repaid", o.repaid), ("coll_sent", o.sent)]
  | realized s => s.summary
  | liquidated o => .ofFields [
    ("liquidated", .ofList Address.summary o.owners),
    ("recovery_mode_at_start", .bool o.recovery), ("totals", o.totals.summary),
    ("coll_sent_to_liquidator", o.totals.collReward.summary),
    ("debt_sent_to_liquidator", o.totals.debtReward.summary)]
  | redeemed o => .ofFields [
    ("attempted_amount", o.attempted.summary), ("redeemed_amount", o.redeemed.summary),
    ("coll_drawn", o.drawn.summary), ("coll_fee", o.fee.summary), ("coll_sent", o.sent.summary),
    ("redeemed_from", .ofList Address.summary o.owners),
    ("closed", .ofList Address.summary o.closed), ("base_rate", o.rate.summary)]
  | claimed a => a.summary
  | deposited owner c => .ofFields [("depositor", owner.summary), ("change", c.summary)]

/-- What came of a request, under the name of its kind. -/
def named (a : Answer) : Json := .ofFields [(a.kind, a.summary)]

end Answer

/-! ## Ledgers -/

/-- The owners with their ratios, in order. -/
def Ranking.summary (r : Ranking) : Json :=
  .ofList (fun owner => .array [owner.summary, .ofOption Amount.summary (r.ratioOf owner)]) r.owners

/-- The totals of a ledger, and the order of its troves. -/
def Ledger.summary (l : Ledger) : Json :=
  let s := l.state
  .ofFields [
    ("active", s.pools.active.summary), ("default", s.pools.default.summary),
    ("surplus", s.pools.surplus.total.summary), ("staking_coll", s.pools.stakingColl.summary),
    ("stakes", s.spread.totalStakes.summary), ("l_coll", s.spread.coll.summary),
    ("l_debt", s.spread.debt.summary), ("base_rate", s.baseRate.rate.summary),
    ("time", .ofWord s.now), ("count", .ofWord s.activeCount),
    ("sp", .ofList Amount.summary [s.stability.deposits, s.stability.coll, s.stability.product]),
    ("supply", l.token.supply.summary), ("events", .ofNat l.log.records.length),
    ("order", .ofList (fun owner => .ofText owner.short) l.ranking.owners)]

/-! ## The protocol -/

/-- The fixed numbers of the protocol, by name. -/
def Protocol.constants : List (String × Json) := [
  ("ADDRESS_LENGTH", .ofNat Address.width), ("BETA", .ofWord Parameters.standard.beta),
  ("BORROWING_FEE_FLOOR", Parameters.standard.borrowingFloor.summary),
  ("CRITICAL_COLLATERAL_RATIO", Parameters.standard.criticalRatio.summary),
  ("DECIMAL_PRECISION", Amount.unit.summary), ("DEFAULT_MAX_EVENTS", .ofNat standardKept.toNat),
  ("GAS_COMPENSATION_UNITS", .ofWord Parameters.standardGasUnits),
  ("HALF_DECIMAL_PRECISION", Amount.halfUnit.summary), ("HASH_LENGTH", .ofNat Digest.width),
  ("MAX_BORROWING_FEE", Parameters.standard.borrowingCeiling.summary),
  ("MAX_DECAY_MINUTES", .ofText (toString Amount.maxExponent)),
  ("MINUTE_DECAY_FACTOR", Parameters.standard.minuteDecay.summary),
  ("MIN_COLLATERAL_RATIO", Parameters.standard.minimumRatio.summary),
  ("MIN_NET_DEBT_UNITS", .ofWord Parameters.standardDebtUnits),
  ("NICR_PRECISION_EXP", .ofNat Amount.nominalPlaces), ("ONE_HUNDRED_PERCENT", Amount.unit.summary),
  ("PERCENT_DIVISOR", .ofWord Parameters.standard.percentDivisor),
  ("PROTOCOL_NAME", .ofText name),
  ("REDEMPTION_FEE_FLOOR", Parameters.standard.redemptionFloor.summary),
  ("SECONDS_IN_ONE_MINUTE", .ofText (toString BaseRate.secondsPerMinute)),
  ("SP_SCALE_FACTOR", StabilityPool.scaleFactor.summary), ("VERSION", .ofText version)]

end Stablecoin
