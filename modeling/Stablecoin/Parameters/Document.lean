/-
  Stablecoin accounting — parameters in files and in the environment.

  A parameter file is a JSON record whose amounts are decimal texts; what it
  leaves out takes its standard value.

  * `Parameters.ofDocument` reads a file and validates it, `Parameters.document`
    writes one;
  * `Parameters.ofEnvironment` lays four variables over the standard values;
    one that is no decimal text is passed over.
-/
import Stablecoin.Form.Leaf
import Stablecoin.Form.Record
import Stablecoin.Json.Printer
import Stablecoin.Parameters.Basic

namespace Stablecoin.Parameters

/-! ## Files -/

/-- The fields of a parameter file. -/
def fields :=
  Fields.fieldOr "mcr" Amount.decimalForm standard.minimumRatio <|
  Fields.fieldOr "ccr" Amount.decimalForm standard.criticalRatio <|
  Fields.fieldOr "gas_compensation" Amount.decimalForm standard.gasCompensation <|
  Fields.fieldOr "min_net_debt" Amount.decimalForm standard.minimumNetDebt <|
  Fields.fieldOr "borrowing_fee_floor" Amount.decimalForm standard.borrowingFloor <|
  Fields.fieldOr "max_borrowing_fee" Amount.decimalForm standard.borrowingCeiling <|
  Fields.fieldOr "redemption_fee_floor" Amount.decimalForm standard.redemptionFloor <|
  Fields.fieldOr "minute_decay_factor" Amount.decimalForm standard.minuteDecay <|
  Fields.fieldOr "beta" Form.word standard.beta <|
  Fields.fieldOr "percent_divisor" Form.word standard.percentDivisor Fields.done

/-- Parameters as a record with decimal texts. -/
def form : Form Parameters :=
  .record fields
    (fun p => (p.minimumRatio, p.criticalRatio, p.gasCompensation, p.minimumNetDebt,
      p.borrowingFloor, p.borrowingCeiling, p.redemptionFloor, p.minuteDecay, p.beta,
      p.percentDivisor, ()))
    (fun (mcr, ccr, gas, debt, floor, ceiling, redemption, decay, beta, divisor, _) =>
      ⟨mcr, ccr, gas, debt, floor, ceiling, redemption, decay, beta, divisor⟩)

/-- The text of a parameter file. -/
def document (p : Parameters) : String := (form.toJson p).pages

/-- The parameters that a file holds, before they are validated. -/
def ofText? (text : String) : Option Parameters := (Json.ofDocument? text).bind form.ofJson?

/-- The parameters that a file holds, validated. -/
def ofDocument (text : String) : Attempt Parameters := do
  let p ← demandSome (.configuration "not a parameter document") (ofText? text)
  p.validate
  return p

/-! ## The environment -/

/-- The standard values with four values laid over them, as far as they are decimal texts. -/
def ofEnvironment (valueOf? : String → Option String) : Parameters :=
  let read (name : String) (otherwise : Amount) : Amount :=
    (((valueOf? name).bind fun text => (Amount.ofDecimal text).toOption).getD otherwise)
  { standard with
    minimumRatio := read "USDD_MCR" standard.minimumRatio
    criticalRatio := read "USDD_CCR" standard.criticalRatio
    gasCompensation := read "USDD_GAS_COMPENSATION" standard.gasCompensation
    minimumNetDebt := read "USDD_MIN_NET_DEBT" standard.minimumNetDebt }

end Stablecoin.Parameters
