/-
  Stablecoin accounting — the base rate and the fees.

  One rate drives the fees of borrowing and of redemption.  It decays with
  every whole minute and rises with the share of the debt that is redeemed.

  * `BaseRate.decayed` is the rate at a time; `minutesPassed` counts the whole
    minutes since the clock of the decay was set;
  * a `FeeQuote` is a fee with the base rate that holds once the fee is taken;
    quoting changes nothing;
  * the clock moves only when a whole minute has passed (`advanced`), so it can
    neither be held back by frequent calls nor counted twice.
-/
import Stablecoin.Amount.Decimal
import Stablecoin.Form.Leaf
import Stablecoin.Form.Record
import Stablecoin.Parameters.Basic

namespace Stablecoin

/-- The base rate and the clock of its decay. -/
structure BaseRate where
  /-- The rate when the clock was set. -/
  rate : Amount
  /-- The time, in seconds, to which the rate belongs. -/
  clock : UInt64
deriving DecidableEq

/-- A fee, and what is to hold once it is taken. -/
structure FeeQuote where
  fee : Amount
  /-- The rate at which the fee is charged. -/
  rate : Amount
  next : BaseRate
deriving DecidableEq

namespace BaseRate

/-- No rate, at time zero. -/
def start : BaseRate := ⟨0, 0⟩

instance : Inhabited BaseRate := ⟨start⟩

/-- The rate, held at one hundred percent, at a time. -/
def seeded (rate : Amount) (clock : UInt64) : BaseRate := ⟨min rate Amount.unit, clock⟩

/-- The base rate as a record. -/
def form : Form BaseRate :=
  .record
    (.field "base_rate" Amount.form <| .field "last_fee_operation_time" Form.word .done)
    (fun b => (b.rate, b.clock, ())) (fun (rate, clock, _) => ⟨rate, clock⟩)

/-! ## Decay -/

/-- The seconds of a minute. -/
def secondsPerMinute : Nat := 60

/-- The seconds since the clock was set; none before it. -/
def elapsed (b : BaseRate) (now : UInt64) : Nat := now.toNat - b.clock.toNat

/-- The whole minutes since the clock was set. -/
def minutesPassed (b : BaseRate) (now : UInt64) : Nat := b.elapsed now / secondsPerMinute

/-- The rate with its decay. -/
def decayed (b : BaseRate) (p : Parameters) (now : UInt64) : Attempt Amount := do
  let factor ← p.minuteDecay.decPow (b.minutesPassed now)
  b.rate.mulDiv factor Amount.unit

/-- The base rate with a new rate; the clock moves if a whole minute has passed. -/
def advanced (b : BaseRate) (rate : Amount) (now : UInt64) : BaseRate :=
  seeded rate (if secondsPerMinute ≤ b.elapsed now then now else b.clock)

/-! ## Limits set by the caller -/

/-- The fee is at most the given share of the amount; of nothing, any fee is accepted. -/
def demandFeeWithin (fee amount limit : Amount) : Attempt Unit :=
  if amount = 0 then .ok ()
  else do
    let share ← fee.mulDiv Amount.unit amount
    demand (share ≤ limit)
      (.feeBounds s!"fee {share.decimal} exceeded provided maximum {limit.decimal}")

/-- The text that names the range of a limit. -/
def limitRange (limit floor : Amount) : Refusal :=
  .feeBounds s!"max fee percentage {limit.decimal} must be between {floor.decimal} and 100%"

/-- A limit on a borrowing fee is at most one hundred percent, and at least the floor outside
Recovery Mode. -/
def demandBorrowingLimit (p : Parameters) (limit : Amount) (recovery : Bool) : Attempt Unit := do
  demand (limit ≤ Amount.unit)
    (.feeBounds s!"max fee percentage {limit.decimal} must be less than or equal to 100%")
  demand (recovery = true ∨ p.borrowingFloor ≤ limit) (limitRange limit p.borrowingFloor)

/-- A limit on a redemption fee lies between the floor and one hundred percent. -/
def demandRedemptionLimit (p : Parameters) (limit : Amount) : Attempt Unit :=
  demand (p.redemptionFloor ≤ limit ∧ limit ≤ Amount.unit) (limitRange limit p.redemptionFloor)

/-! ## Borrowing -/

/-- The borrowing rate at a base rate: that rate, held between floor and ceiling. -/
def borrowingRateAt (p : Parameters) (rate : Amount) : Amount :=
  min (max p.borrowingFloor rate) p.borrowingCeiling

/-- The borrowing rate at a time. -/
def borrowingRate (b : BaseRate) (p : Parameters) (now : UInt64) : Attempt Amount := do
  return borrowingRateAt p (← b.decayed p now)

/-- The fee for borrowing at a time. -/
def borrowingFee (b : BaseRate) (p : Parameters) (now : UInt64) (debt : Amount) :
    Attempt Amount := do
  (← b.borrowingRate p now).mulDiv debt Amount.unit

/-- Quotes the fee for borrowing, which lets the base rate decay and does not raise it. -/
def quoteBorrowing (b : BaseRate) (p : Parameters) (now : UInt64) (requested limit : Amount) :
    Attempt FeeQuote := do
  let decayed ← b.decayed p now
  let rate := borrowingRateAt p decayed
  let fee ← rate.mulDiv requested Amount.unit
  demandFeeWithin fee requested limit
  return ⟨fee, rate, b.advanced decayed now⟩

/-! ## Redemption -/

/-- The redemption rate at a base rate: that rate above the floor, held at one hundred percent. -/
def redemptionRateAt (p : Parameters) (rate : Amount) : Amount :=
  min (p.redemptionFloor.addClamped rate) Amount.unit

/-- The redemption rate at a time. -/
def redemptionRate (b : BaseRate) (p : Parameters) (now : UInt64) : Attempt Amount := do
  return redemptionRateAt p (← b.decayed p now)

/-- Quotes the fee for drawing collateral, at the rate raised by the redeemed share of the
debt. -/
def quoteRedemption (b : BaseRate) (p : Parameters) (now : UInt64)
    (drawn price supply limit : Amount) : Attempt FeeQuote := do
  let decayed ← b.decayed p now
  let share ← drawn.mulDiv price supply
  let bump ← share.dividedBy (.ofWord p.beta)
  let raised := min (← decayed.add bump) Amount.unit
  demand (raised ≠ 0) (.invariantViolation "redemption left the base rate at zero")
  let rate := redemptionRateAt p raised
  let fee ← rate.mulDiv drawn Amount.unit
  demand (fee < drawn) (.feeBounds "fee would eat up all returned collateral")
  demandFeeWithin fee drawn limit
  return ⟨fee, rate, b.advanced raised now⟩

end BaseRate

/-- Taking the fee would move the clock. -/
def FeeQuote.movesClock (quote : FeeQuote) (current : BaseRate) : Bool :=
  quote.next.clock != current.clock

end Stablecoin
