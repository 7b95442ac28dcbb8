/-
  Stablecoin accounting — requests and answers.

  A `Request` is one call on the ledger, which is carried out as a whole or
  refused; an `Answer` tells what came of it.

  * `OpenRequest`, `AdjustRequest` and `RedeemRequest` carry the details of their
    calls, and start from values under which no limit is set and nothing is
    hinted at;
  * `Request.form` is the written form of any request.
-/
import Stablecoin.Liquidation.Split
import Stablecoin.Ranking
import Stablecoin.Redistribution
import Stablecoin.StabilityPool

namespace Stablecoin

/-! ## Opening -/

/-- Asks for a new trove. -/
structure OpenRequest where
  owner : Address
  deposit : Amount
  /-- Tokens asked for; fee and reserve are added to the debt. -/
  debt : Amount
  /-- The highest rate that the owner accepts. -/
  limit : Amount
  hints : Hints
deriving DecidableEq

namespace OpenRequest

/-- The fields of the request. -/
def fields :=
  Fields.field "borrower" Address.form <| Fields.field "coll_deposit" Amount.form <|
  Fields.field "debt_amount" Amount.form <| Fields.field "max_fee_percentage" Amount.form <|
  Fields.field "hints" Hints.form Fields.done

/-- The request as a record. -/
def form : Form OpenRequest :=
  .record fields (fun r => (r.owner, r.deposit, r.debt, r.limit, r.hints, ()))
    (fun (owner, deposit, debt, limit, hints, _) => ⟨owner, deposit, debt, limit, hints⟩)

end OpenRequest

/-! ## Adjusting -/

/-- Asks for a change of a trove. -/
structure AdjustRequest where
  owner : Address
  /-- Collateral to take out. -/
  withdrawal : Amount
  /-- Collateral to put in. -/
  deposit : Amount
  /-- Tokens to borrow or to pay back. -/
  debt : Amount
  /-- The tokens are borrowed. -/
  debtGrows : Bool
  /-- The highest rate that the owner accepts for borrowing. -/
  limit : Amount
  hints : Hints
deriving DecidableEq

namespace AdjustRequest

/-- Asks for no change yet. -/
def of (owner : Address) : AdjustRequest := ⟨owner, 0, 0, 0, false, Amount.unit, .none⟩

/-- Collateral is put in. -/
def depositing (r : AdjustRequest) (amount : Amount) : AdjustRequest := { r with deposit := amount }

/-- Collateral is taken out. -/
def withdrawing (r : AdjustRequest) (amount : Amount) : AdjustRequest :=
  { r with withdrawal := amount }

/-- Tokens are borrowed. -/
def borrowing (r : AdjustRequest) (amount : Amount) : AdjustRequest :=
  { r with debt := amount, debtGrows := true }

/-- Tokens are paid back. -/
def repaying (r : AdjustRequest) (amount : Amount) : AdjustRequest :=
  { r with debt := amount, debtGrows := false }

/-- A limit is set on the rate. -/
def within (r : AdjustRequest) (limit : Amount) : AdjustRequest := { r with limit := limit }

/-- The place is hinted at. -/
def hinted (r : AdjustRequest) (hints : Hints) : AdjustRequest := { r with hints := hints }

/-- Asks to put collateral in. -/
def addColl (owner : Address) (amount : Amount) (hints : Hints) : AdjustRequest :=
  ((of owner).depositing amount).hinted hints

/-- Asks to take collateral out. -/
def withdrawColl (owner : Address) (amount : Amount) (hints : Hints) : AdjustRequest :=
  ((of owner).withdrawing amount).hinted hints

/-- Asks to borrow under a limit. -/
def borrow (owner : Address) (amount limit : Amount) (hints : Hints) : AdjustRequest :=
  (((of owner).borrowing amount).within limit).hinted hints

/-- Asks to pay back. -/
def repay (owner : Address) (amount : Amount) (hints : Hints) : AdjustRequest :=
  ((of owner).repaying amount).hinted hints

/-- The fields of the request. -/
def fields :=
  Fields.field "borrower" Address.form <| Fields.field "coll_withdrawal" Amount.form <|
  Fields.field "coll_deposit" Amount.form <| Fields.field "debt_change" Amount.form <|
  Fields.field "is_debt_increase" Form.flag <| Fields.field "max_fee_percentage" Amount.form <|
  Fields.field "hints" Hints.form Fields.done

/-- The request as a record. -/
def form : Form AdjustRequest :=
  .record fields
    (fun r => (r.owner, r.withdrawal, r.deposit, r.debt, r.debtGrows, r.limit, r.hints, ()))
    (fun (owner, withdrawal, deposit, debt, debtGrows, limit, hints, _) =>
      ⟨owner, withdrawal, deposit, debt, debtGrows, limit, hints⟩)

end AdjustRequest

/-! ## Redeeming -/

/-- Asks for collateral in exchange for tokens. -/
structure RedeemRequest where
  redeemer : Address
  amount : Amount
  /-- The trove to start with, if it is the lowest one at the minimum ratio or above. -/
  firstHint : Option Address
  /-- The nominal ratio that the last trove is expected to be left with. -/
  partialHint : Option Amount
  hints : Hints
  /-- The most troves to visit; zero for any number. -/
  most : UInt64
  /-- The highest rate that the redeemer accepts. -/
  limit : Amount
deriving DecidableEq

namespace RedeemRequest

/-- The fields of the request. -/
def fields :=
  Fields.field "redeemer" Address.form <| Fields.field "amount" Amount.form <|
  Fields.field "first_hint" (Form.option Address.form) <|
  Fields.field "partial_hint_nicr" (Form.option Amount.form) <|
  Fields.field "hints" Hints.form <| Fields.field "max_iterations" Form.word <|
  Fields.field "max_fee_percentage" Amount.form Fields.done

/-- The request as a record. -/
def form : Form RedeemRequest :=
  .record fields
    (fun r => (r.redeemer, r.amount, r.firstHint, r.partialHint, r.hints, r.most, r.limit, ()))
    (fun (redeemer, amount, firstHint, partialHint, hints, most, limit, _) =>
      ⟨redeemer, amount, firstHint, partialHint, hints, most, limit⟩)

end RedeemRequest

/-! ## All requests -/

/-- A call on the ledger. -/
inductive Request
  | openTrove (details : OpenRequest)
  | adjustTrove (details : AdjustRequest)
  | closeTrove (owner : Address)
  /-- Takes the pending share of a trove into its record. -/
  | realize (owner : Address)
  | liquidate (liquidator target : Address)
  /-- Liquidates from the lowest ratio upwards. -/
  | liquidateLowest (liquidator : Address) (most : UInt64)
  | liquidateListed (liquidator : Address) (targets : List Address)
  | redeem (details : RedeemRequest)
  /-- Pays out a surplus. -/
  | claim (owner : Address)
  /-- Deposits into the stability pool. -/
  | provide (owner : Address) (amount : Amount)
  /-- Withdraws from the stability pool. -/
  | withdraw (owner : Address) (amount : Amount)
deriving DecidableEq

namespace Request

/-- The alternatives of a request, with the fields that each is written with. -/
def cases : List (Form.Alternative Request) := [
  .carrying "OpenTrove" OpenRequest.form openTrove
    (fun
      | openTrove details => some details
      | _ => none),
  .carrying "AdjustTrove" AdjustRequest.form adjustTrove
    (fun
      | adjustTrove details => some details
      | _ => none),
  .of "CloseTrove" (.field "borrower" Address.form .done) (fun (owner, _) => closeTrove owner)
    (fun
      | closeTrove owner => some (owner, ())
      | _ => none),
  .of "ApplyPendingRewards" (.field "borrower" Address.form .done)
    (fun (owner, _) => realize owner)
    (fun
      | realize owner => some (owner, ())
      | _ => none),
  .of "Liquidate" (.field "liquidator" Address.form <| .field "target" Address.form .done)
    (fun (liquidator, target, _) => liquidate liquidator target)
    (fun
      | liquidate liquidator target => some (liquidator, target, ())
      | _ => none),
  .of "LiquidateTroves" (.field "liquidator" Address.form <| .field "n" Form.word .done)
    (fun (liquidator, most, _) => liquidateLowest liquidator most)
    (fun
      | liquidateLowest liquidator most => some (liquidator, most, ())
      | _ => none),
  .of "BatchLiquidate"
    (.field "liquidator" Address.form <| .field "targets" (.seq Address.form) .done)
    (fun (liquidator, targets, _) => liquidateListed liquidator targets)
    (fun
      | liquidateListed liquidator targets => some (liquidator, targets, ())
      | _ => none),
  .carrying "Redeem" RedeemRequest.form redeem
    (fun
      | redeem details => some details
      | _ => none),
  .of "ClaimCollateral" (.field "borrower" Address.form .done) (fun (owner, _) => claim owner)
    (fun
      | claim owner => some (owner, ())
      | _ => none),
  .of "ProvideToStabilityPool"
    (.field "depositor" Address.form <| .field "amount" Amount.form .done)
    (fun (owner, amount, _) => provide owner amount)
    (fun
      | provide owner amount => some (owner, amount, ())
      | _ => none),
  .of "WithdrawFromStabilityPool"
    (.field "depositor" Address.form <| .field "amount" Amount.form .done)
    (fun (owner, amount, _) => withdraw owner amount)
    (fun
      | withdraw owner amount => some (owner, amount, ())
      | _ => none)]

/-- A request, by its kind and fields. -/
def form : Form Request := .alternatives cases

/-- The name of the kind of a request. -/
def kind (r : Request) : String := Form.chosenName cases r

end Request

/-! ## Answers -/

/-- What came of a new trove. -/
structure Opened where
  coll : Amount
  /-- Tokens asked for, fee and reserve. -/
  debt : Amount
  stake : Amount
  fee : Amount
  ratio : Amount
deriving DecidableEq

/-- What came of a change of a trove. -/
structure Adjusted where
  coll : Amount
  debt : Amount
  stake : Amount
  fee : Amount
  /-- The pending share that was taken in before. -/
  realized : PendingShare
  /-- Collateral returned. -/
  sent : Amount
deriving DecidableEq

/-- What came of closing a trove. -/
structure Closed where
  repaid : Amount
  sent : Amount
deriving DecidableEq

/-- What came of a liquidation. -/
structure Liquidated where
  owners : List Address
  /-- The call began in Recovery Mode. -/
  recovery : Bool
  totals : SplitTotals
deriving DecidableEq

/-- What came of a redemption. -/
structure Redeemed where
  attempted : Amount
  redeemed : Amount
  /-- Collateral drawn from troves. -/
  drawn : Amount
  fee : Amount
  /-- Collateral sent to the redeemer. -/
  sent : Amount
  owners : List Address
  /-- The owners whose troves were closed. -/
  closed : List Address
  rate : Amount
deriving DecidableEq

/-- What came of a request. -/
inductive Answer
  | opened (details : Opened)
  | adjusted (details : Adjusted)
  | closed (details : Closed)
  | realized (share : PendingShare)
  | liquidated (details : Liquidated)
  | redeemed (details : Redeemed)
  | claimed (amount : Amount)
  | deposited (owner : Address) (change : DepositChange)
deriving DecidableEq

end Stablecoin
