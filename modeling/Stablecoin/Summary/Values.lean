/-
  Stablecoin accounting — summaries of values.

  A summary is a JSON value for people and other programs to look at.  Other
  than in written forms (`Stablecoin.Form`), amounts and words are the texts of
  their decimal digits, and a summary is never read back.

  * `x.summary` is the summary of a value, with the names of the protocol's
    documents for its fields;
  * `Digest.details` and `Address.details` show all that can be said of one.
-/
import Stablecoin.Liquidation.Split
import Stablecoin.Parameters.Basic
import Stablecoin.PriceFeed
import Stablecoin.State
import Stablecoin.Token.Book

namespace Stablecoin

/-! ## Leaves -/

namespace Json

/-- A word, by its decimal digits. -/
def ofWord (n : UInt64) : Json := ofText (toString n.toNat)

/-- A value or null. -/
def ofOption {α : Type} (each : α → Json) : Option α → Json
  | none => null
  | some a => each a

/-- The summaries of values in order. -/
def ofList {α : Type} (each : α → Json) (xs : List α) : Json := .array (xs.map each)

end Json

/-- An amount, by its decimal digits. -/
def Amount.summary (a : Amount) : Json := .ofText (toString a)

/-- An object whose fields are amounts. -/
def Json.ofAmounts (fields : List (String × Amount)) : Json :=
  .ofFields (fields.map fun (name, a) => (name, a.summary))

namespace Address

/-- An address, by its text. -/
def summary (a : Address) : Json := .ofText a.hex

/-- The texts and bytes of an address. -/
def details (a : Address) : Json := .ofFields [
  ("hex", .ofText a.hex), ("display", .ofText (toString a)), ("debug", .ofText a.brief),
  ("short", .ofText a.short), ("zero", .bool (a = zero)),
  ("bytes", .ofList (fun b => .ofNat b.toNat) a.bytes)]

end Address

namespace Digest

/-- A digest, by its digits. -/
def summary (d : Digest) : Json := .ofText d.hex

/-- The texts of a digest. -/
def details (d : Digest) : Json := .ofFields [
  ("hex", .ofText d.hex), ("display", .ofText (toString d)), ("debug", .ofText d.brief),
  ("zero", .bool (d = zero))]

end Digest

/-! ## Parameters and rates -/

/-- The parameters. -/
def Parameters.summary (p : Parameters) : Json := .ofFields [
  ("mcr", p.minimumRatio.summary), ("ccr", p.criticalRatio.summary),
  ("gas_compensation", p.gasCompensation.summary), ("min_net_debt", p.minimumNetDebt.summary),
  ("borrowing_fee_floor", p.borrowingFloor.summary),
  ("max_borrowing_fee", p.borrowingCeiling.summary),
  ("redemption_fee_floor", p.redemptionFloor.summary),
  ("minute_decay_factor", p.minuteDecay.summary), ("beta", .ofWord p.beta),
  ("percent_divisor", .ofWord p.percentDivisor)]

/-- The base rate and its clock. -/
def BaseRate.summary (b : BaseRate) : Json := .ofFields [
  ("base_rate", b.rate.summary), ("last_fee_operation_time", .ofWord b.clock)]

/-- A quote over the present base rate. -/
def FeeQuote.summary (q : FeeQuote) (current : BaseRate) : Json := .ofFields [
  ("fee", q.fee.summary), ("rate", q.rate.summary), ("next_state", q.next.summary),
  ("updates_clock", .bool (q.movesClock current))]

/-- The price of now and before. -/
def PriceFeed.summary (f : PriceFeed) : Json := .ofFields [
  ("current", f.current.summary), ("previous", f.previous.summary), ("updates", .ofWord f.updates)]

/-- The ratio of the system and its mode. -/
def SystemRatio.summary (s : SystemRatio) : Json := .ofFields [
  ("is_active", .bool s.recovery), ("tcr", s.ratio.summary), ("system_coll", s.coll.summary),
  ("system_debt", s.debt.summary), ("price", s.price.summary)]

/-! ## Troves -/

/-- A status, by its name. -/
def TroveStatus.summary (s : TroveStatus) : Json := .ofText s.name

/-- The sums of a snapshot. -/
def Snapshot.summary (s : Snapshot) : Json := .ofAmounts [("l_coll", s.coll), ("l_debt", s.debt)]

/-- The record of a trove. -/
def Trove.summary (t : Trove) : Json := .ofFields [
  ("owner", t.owner.summary), ("coll", t.coll.summary), ("debt", t.debt.summary),
  ("stake", t.stake.summary), ("status", t.status.summary), ("snapshot", t.snapshot.summary)]

/-- A pending share. -/
def PendingShare.summary (s : PendingShare) : Json :=
  .ofAmounts [("coll", s.coll), ("debt", s.debt)]

/-- What a trove holds with its pending share. -/
def EntireTrove.summary (e : EntireTrove) : Json := .ofFields [
  ("debt", e.debt.summary), ("coll", e.coll.summary), ("pending", e.pending.summary)]

/-- The sums and stakes of redistribution. -/
def Redistribution.summary (r : Redistribution) : Json := .ofAmounts [
  ("l_coll", r.coll), ("l_debt", r.debt), ("last_coll_error", r.collCarry),
  ("last_debt_error", r.debtCarry), ("total_stakes", r.totalStakes),
  ("total_stakes_snapshot", r.stakesSnapshot), ("total_collateral_snapshot", r.collSnapshot)]

/-! ## Liquidations -/

/-- Where the collateral and debt of a trove go, and how much collateral leaves if it can be
told. -/
def Split.summary (s : Split) (leaving : Json) : Json := .ofFields [
  ("entire_trove_debt", s.debt.summary), ("entire_trove_coll", s.coll.summary),
  ("coll_gas_compensation", s.collReward.summary), ("debt_gas_compensation", s.debtReward.summary),
  ("debt_to_offset", s.debtOffset.summary), ("coll_to_send_to_sp", s.collOffset.summary),
  ("debt_to_redistribute", s.debtSpread.summary), ("coll_to_redistribute", s.collSpread.summary),
  ("coll_surplus", s.surplus.summary), ("leaving", leaving)]

/-- The sums of a call. -/
def SplitTotals.summary (t : SplitTotals) : Json := .ofAmounts [
  ("total_coll_in_sequence", t.coll), ("total_debt_in_sequence", t.debt),
  ("total_coll_gas_compensation", t.collReward), ("total_debt_gas_compensation", t.debtReward),
  ("total_debt_to_offset", t.debtOffset), ("total_coll_to_send_to_sp", t.collOffset),
  ("total_debt_to_redistribute", t.debtSpread), ("total_coll_to_redistribute", t.collSpread),
  ("total_coll_surplus", t.surplus)]

/-! ## Pools and books -/

/-- The content of a pool. -/
def Balance.summary (b : Balance) : Json := .ofAmounts [("coll", b.coll), ("debt", b.debt)]

/-- The factors at the time of a deposit. -/
def PoolSnapshot.summary (s : PoolSnapshot) : Json := .ofFields [
  ("p", s.product.summary), ("s", s.sum.summary), ("epoch", .ofWord s.epoch),
  ("scale", .ofWord s.scale)]

/-- A deposit as it was last written. -/
def Deposit.summary (d : Deposit) : Json := .ofFields [
  ("initial_value", d.amount.summary), ("snapshot", d.snapshot.summary)]

/-- What a deposit or withdrawal did. -/
def DepositChange.summary (c : DepositChange) : Json := .ofAmounts [
  ("compounded_before", c.compounded), ("new_deposit", c.deposit), ("withdrawn", c.withdrawn),
  ("coll_gain", c.gain), ("deposit_loss", c.loss)]

/-- The totals and factors of the stability pool. -/
def StabilityPool.summary (s : StabilityPool) : Json := .ofFields [
  ("deposits", s.deposits.summary), ("coll", s.coll.summary), ("p", s.product.summary),
  ("epoch", .ofWord s.epoch), ("scale", .ofWord s.scale), ("depositors", .ofNat s.depositors),
  ("offsets", .ofWord s.offsets)]

/-- The totals of a book. -/
def TokenBook.summary (b : TokenBook) : Json := .ofFields [
  ("name", .ofText b.name), ("symbol", .ofText b.symbol), ("supply", b.supply.summary),
  ("holders", .ofNat b.holders), ("events", .ofNat b.movements.length)]

/-- The totals of a state. -/
def State.summary (s : State) : Json := .ofFields [
  ("count", .ofWord s.activeCount), ("rewards", s.spread.summary),
  ("active", s.pools.active.summary), ("default", s.pools.default.summary)]

end Stablecoin
