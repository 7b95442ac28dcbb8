/-
  Stablecoin accounting — refusals.

  A request is refused for one of the causes of `Refusal`; each has its text
  (`message`), its name and number for other systems (`name`, `code`), and says
  whether the caller can repair it (`isRecoverable`) or whether it points to a
  broken book (`isCritical`).

  A computation can also stop without a refusal: a word-sized operator whose
  result does not fit halts the run.  `Stop` is either of the two, and
  `Attempt α` a computation that ends in an `α` or stops.
-/
import Stablecoin.Address
import Stablecoin.Amount.Basic

namespace Stablecoin

/-! ## Causes -/

/-- The rules on collateral ratios that a request can break. -/
inductive RatioRule
  /-- The trove would fall below the minimum ratio. -/
  | troveBelowMinimum
  /-- In Recovery Mode, the trove would be below the critical ratio. -/
  | troveBelowCritical
  /-- The system would fall below the critical ratio. -/
  | systemBelowCritical
  /-- In Recovery Mode, more debt would lower the ratio of the trove. -/
  | troveNotImproved
  /-- The system is below the minimum ratio, so nothing can be redeemed. -/
  | systemBelowMinimum
deriving DecidableEq

/-- The rule as messages name it. -/
def RatioRule.text : RatioRule → String
  | .troveBelowMinimum => "ICR below MCR"
  | .troveBelowCritical => "ICR below CCR in Recovery Mode"
  | .systemBelowCritical => "TCR would fall below CCR"
  | .troveNotImproved => "ICR must not decrease in Recovery Mode"
  | .systemBelowMinimum => "TCR below MCR"

/-- The name of the rule for other systems. -/
def RatioRule.name : RatioRule → String
  | .troveBelowMinimum => "IcrBelowMcr"
  | .troveBelowCritical => "IcrBelowCcr"
  | .systemBelowCritical => "TcrBelowCcr"
  | .troveNotImproved => "IcrNotImproved"
  | .systemBelowMinimum => "TcrBelowMcr"

/-- Why a request is refused. -/
inductive Refusal
  /-- The request contradicts itself. -/
  | invalidOperation (reason : String)
  /-- The owner has no active trove. -/
  | troveNotFound (owner : Address)
  /-- The owner has an active trove already. -/
  | troveAlreadyActive (owner : Address)
  /-- The only trove of the system cannot be closed. -/
  | lastTrove
  /-- A ratio is on the wrong side of the one required. -/
  | ratio (rule : RatioRule) (found required : Amount)
  /-- Recovery Mode forbids it. -/
  | recoveryMode (reason : String)
  /-- The fee, or the limit that the caller set for it, is out of bounds. -/
  | feeBounds (reason : String)
  /-- The account holds too little. -/
  | insufficientBalance (required available : Amount)
  /-- The net debt would be below the floor. -/
  | debtFloor (netDebt minimum : Amount)
  /-- Tokens are not sent to this account by users. -/
  | protectedRecipient (account : Address)
  /-- No trove of the request can be liquidated. -/
  | nothingToLiquidate
  /-- The redemption would draw no collateral. -/
  | unableToRedeem
  /-- The borrower has no surplus to claim. -/
  | noCollateralToClaim (owner : Address)
  /-- The account has no deposit. -/
  | noDeposit (owner : Address)
  /-- Deposits are locked while a trove is below the minimum ratio. -/
  | undercollateralizedTroves
  /-- A parameter is out of its range. -/
  | invalidParameter (name reason : String)
  /-- The amount is zero. -/
  | zeroAmount
  /-- A result is too large for an amount. -/
  | overflow (operation : String)
  /-- A result would be negative. -/
  | underflow (operation : String)
  /-- The configuration cannot be read or is inconsistent. -/
  | configuration (reason : String)
  /-- A value cannot be written. -/
  | serialization (reason : String)
  /-- Bytes write no value. -/
  | deserialization (reason : String)
  /-- The books contradict each other. -/
  | invariantViolation (reason : String)
  /-- A step was asked for that nothing asks for. -/
  | internal (reason : String)
deriving DecidableEq

namespace Refusal

/-- The text shown to the caller. -/
def message : Refusal → String
  | invalidOperation reason => s!"Invalid operation: {reason}"
  | troveNotFound owner => s!"Trove does not exist or is closed: {owner}"
  | troveAlreadyActive owner => s!"Trove is already active: {owner}"
  | lastTrove => "Only one trove in the system"
  | ratio rule found required =>
    s!"Collateralization violation ({rule.text}): ratio {found}, required {required}"
  | recoveryMode reason => s!"Operation not permitted during Recovery Mode: {reason}"
  | feeBounds reason => s!"Fee bounds violation: {reason}"
  | insufficientBalance required available =>
    s!"Insufficient balance: required {required}, available {available}"
  | debtFloor netDebt minimum => s!"Net debt {netDebt} below minimum {minimum}"
  | protectedRecipient account =>
    s!"Cannot transfer tokens directly to protocol address {account}"
  | nothingToLiquidate => "Nothing to liquidate"
  | unableToRedeem => "Unable to redeem any amount"
  | noCollateralToClaim owner => s!"No collateral available to claim for {owner}"
  | noDeposit owner => s!"No stability pool deposit for {owner}"
  | undercollateralizedTroves => "Cannot withdraw while there are troves with ICR < MCR"
  | invalidParameter name reason => s!"Invalid parameter {name}: {reason}"
  | zeroAmount => "Amount cannot be zero"
  | overflow operation => s!"Arithmetic overflow in {operation}"
  | underflow operation => s!"Arithmetic underflow in {operation}"
  | configuration reason => s!"Configuration error: {reason}"
  | serialization reason => s!"Serialization error: {reason}"
  | deserialization reason => s!"Deserialization error: {reason}"
  | invariantViolation reason => s!"Invariant violation: {reason}"
  | internal reason => s!"Internal error: {reason}"

/-- The name of the cause for other systems. -/
def name : Refusal → String
  | invalidOperation _ => "InvalidOperation"
  | troveNotFound _ => "PositionNotFound"
  | troveAlreadyActive _ => "PositionAlreadyActive"
  | lastTrove => "LastPositionRestriction"
  | ratio _ _ _ => "CollateralizationViolation"
  | recoveryMode _ => "RecoveryModeRestriction"
  | feeBounds _ => "FeeBoundsViolation"
  | insufficientBalance _ _ => "InsufficientBalance"
  | debtFloor _ _ => "DebtFloorViolation"
  | protectedRecipient _ => "ProtectedRecipient"
  | nothingToLiquidate => "NothingToLiquidate"
  | unableToRedeem => "UnableToRedeem"
  | noCollateralToClaim _ => "NoCollateralToClaim"
  | noDeposit _ => "NoDeposit"
  | undercollateralizedTroves => "UndercollateralizedPositions"
  | invalidParameter _ _ => "InvalidParameter"
  | zeroAmount => "ZeroAmount"
  | overflow _ => "Overflow"
  | underflow _ => "Underflow"
  | configuration _ => "Config"
  | serialization _ => "Serialization"
  | deserialization _ => "Deserialization"
  | invariantViolation _ => "InvariantViolation"
  | internal _ => "Internal"

/-- The number of the cause; its thousands are its family. -/
def code : Refusal → Nat
  | invalidOperation _ => 1001
  | troveNotFound _ => 1002
  | troveAlreadyActive _ => 1003
  | lastTrove => 1004
  | ratio _ _ _ => 2001
  | recoveryMode _ => 2002
  | feeBounds _ => 3001
  | insufficientBalance _ _ => 4001
  | debtFloor _ _ => 4002
  | protectedRecipient _ => 4003
  | nothingToLiquidate => 5001
  | unableToRedeem => 5002
  | noCollateralToClaim _ => 5003
  | noDeposit _ => 5004
  | undercollateralizedTroves => 5005
  | invalidParameter _ _ => 6001
  | zeroAmount => 6002
  | overflow _ => 6003
  | underflow _ => 6004
  | configuration _ => 7001
  | serialization _ => 7002
  | deserialization _ => 7003
  | invariantViolation _ => 9001
  | internal _ => 9002

/-- The caller can mend the request and try again. -/
def isRecoverable : Refusal → Bool
  | ratio _ _ _ | feeBounds _ | insufficientBalance _ _ | debtFloor _ _ | recoveryMode _
  | unableToRedeem => true
  | _ => false

/-- The books need attention at once. -/
def isCritical : Refusal → Bool
  | invariantViolation _ | internal _ | overflow _ | underflow _ => true
  | _ => false

end Refusal

/-! ## Attempts -/

/-- How a computation ends early. -/
inductive Stop
  /-- The request is refused, and says why. -/
  | refused (cause : Refusal)
  /-- A word-sized operator had no result. -/
  | fault
deriving DecidableEq

/-- A computation that ends in a value or stops. -/
abbrev Attempt (α : Type) := Except Stop α

/-- Stops with a refusal. -/
def refuse {α : Type} (cause : Refusal) : Attempt α := .error (.refused cause)

/-- Halts the run. -/
def fault {α : Type} : Attempt α := .error .fault

/-- Goes on where the condition holds, and refuses otherwise. -/
def demand (condition : Prop) [Decidable condition] (cause : Refusal) : Attempt Unit :=
  if condition then .ok () else refuse cause

/-- The value, or a refusal in its absence. -/
def demandSome {α : Type} (cause : Refusal) : Option α → Attempt α
  | some a => .ok a
  | none => refuse cause

/-- Makes a check where it is called for. -/
def onlyIf (called : Bool) (check : Attempt Unit) : Attempt Unit :=
  if called then check else .ok ()

/-- A change of `s` that is made or leaves `s` as it was. -/
def settle {σ : Type} (s : σ) : Attempt σ → Attempt Unit × σ
  | .ok t => (.ok (), t)
  | .error stop => (.error stop, s)

@[simp] theorem demand_eq_ok_iff {condition : Prop} [Decidable condition] {cause : Refusal} :
    demand condition cause = .ok () ↔ condition := by
  unfold demand refuse
  split <;> simp_all

/-! ## Counters -/

/-- The count after one more; a count that is full halts the run. -/
def nextCount (n : UInt64) : Attempt UInt64 :=
  if n.toNat + 1 < UInt64.size then .ok (n + 1) else fault

end Stablecoin
