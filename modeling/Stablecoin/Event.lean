/-
  Stablecoin accounting — events.

  Every operation that is carried out reports what it did; a refused one reports
  nothing.  The log keeps the latest reports with their times.

  * `Event` is what can be reported, `Event.digest` the digest of its bytes;
  * `EventLog.push` adds a report and drops the oldest ones beyond the capacity;
  * `EventLog.digest` chains the digests of all reports that are kept.
-/
import Stablecoin.Form.Leaf
import Stablecoin.Form.Record
import Stablecoin.Token.Book

namespace Stablecoin

/-! ## Reports -/

/-- What touched a trove. -/
inductive Touch
  | opened
  | adjusted
  | closed
  | liquidated
  | liquidatedInRecovery
  | redeemed
  | realized
deriving DecidableEq

/-- What touched a trove, by its name. -/
def Touch.form : Form Touch :=
  .names
    [("OpenTrove", opened), ("AdjustTrove", adjusted), ("CloseTrove", closed),
      ("LiquidateInNormalMode", liquidated), ("LiquidateInRecoveryMode", liquidatedInRecovery),
      ("RedeemCollateral", redeemed), ("ApplyPendingRewards", realized)]

/-- What an operation reports. -/
inductive Event
  /-- A record was written anew. -/
  | troveUpdated (owner : Address) (debt coll stake : Amount) (touch : Touch)
  /-- A trove was liquidated, with its pending share. -/
  | troveLiquidated (owner : Address) (debt coll : Amount) (touch : Touch)
  /-- The totals of a liquidation. -/
  | liquidation (debt coll collReward debtReward : Amount)
  /-- The totals of a redemption. -/
  | redemption (attempted redeemed drawn fee : Amount)
  /-- A borrowing fee was charged. -/
  | borrowingFeePaid (owner : Address) (fee : Amount)
  /-- The base rate was set. -/
  | baseRateUpdated (rate : Amount)
  /-- The clock of the decay moved. -/
  | clockMoved (time : UInt64)
  /-- The sum of the stakes was set. -/
  | stakesUpdated (total : Amount)
  /-- Stakes and collateral were noted after a liquidation. -/
  | snapshotsUpdated (stakes coll : Amount)
  /-- Something was redistributed. -/
  | sumsUpdated (coll debt : Amount)
  /-- A deposit was written anew. -/
  | depositChanged (owner : Address) (deposit gain : Amount)
  /-- A surplus was claimed. -/
  | collateralClaimed (owner : Address) (amount : Amount)
deriving DecidableEq

namespace Event

/-- The alternatives of a report, with the fields that each is written with. -/
def cases : List (Form.Alternative Event) := [
  .of "TroveUpdated"
    (.field "borrower" Address.form <| .field "debt" Amount.form <|
      .field "coll" Amount.form <| .field "stake" Amount.form <|
      .field "operation" Touch.form .done)
    (fun (owner, debt, coll, stake, touch, _) => troveUpdated owner debt coll stake touch)
    (fun
      | troveUpdated owner debt coll stake touch => some (owner, debt, coll, stake, touch, ())
      | _ => none),
  .of "TroveLiquidated"
    (.field "borrower" Address.form <| .field "debt" Amount.form <|
      .field "coll" Amount.form <| .field "operation" Touch.form .done)
    (fun (owner, debt, coll, touch, _) => troveLiquidated owner debt coll touch)
    (fun
      | troveLiquidated owner debt coll touch => some (owner, debt, coll, touch, ())
      | _ => none),
  .of "Liquidation"
    (.field "liquidated_debt" Amount.form <| .field "liquidated_coll" Amount.form <|
      .field "coll_gas_compensation" Amount.form <|
      .field "debt_gas_compensation" Amount.form .done)
    (fun (debt, coll, collReward, debtReward, _) => liquidation debt coll collReward debtReward)
    (fun
      | liquidation debt coll collReward debtReward =>
        some (debt, coll, collReward, debtReward, ())
      | _ => none),
  .of "Redemption"
    (.field "attempted_amount" Amount.form <| .field "actual_amount" Amount.form <|
      .field "coll_sent" Amount.form <| .field "coll_fee" Amount.form .done)
    (fun (attempted, redeemed, drawn, fee, _) => redemption attempted redeemed drawn fee)
    (fun
      | redemption attempted redeemed drawn fee => some (attempted, redeemed, drawn, fee, ())
      | _ => none),
  .of "BorrowingFeePaid"
    (.field "borrower" Address.form <| .field "fee" Amount.form .done)
    (fun (owner, fee, _) => borrowingFeePaid owner fee)
    (fun
      | borrowingFeePaid owner fee => some (owner, fee, ())
      | _ => none),
  .of "BaseRateUpdated"
    (.field "base_rate" Amount.form .done)
    (fun (rate, _) => baseRateUpdated rate)
    (fun
      | baseRateUpdated rate => some (rate, ())
      | _ => none),
  .of "LastFeeOpTimeUpdated"
    (.field "timestamp" Form.word .done)
    (fun (time, _) => clockMoved time)
    (fun
      | clockMoved time => some (time, ())
      | _ => none),
  .of "TotalStakesUpdated"
    (.field "total_stakes" Amount.form .done)
    (fun (total, _) => stakesUpdated total)
    (fun
      | stakesUpdated total => some (total, ())
      | _ => none),
  .of "SystemSnapshotsUpdated"
    (.field "total_stakes_snapshot" Amount.form <|
      .field "total_collateral_snapshot" Amount.form .done)
    (fun (stakes, coll, _) => snapshotsUpdated stakes coll)
    (fun
      | snapshotsUpdated stakes coll => some (stakes, coll, ())
      | _ => none),
  .of "LTermsUpdated"
    (.field "l_coll" Amount.form <| .field "l_debt" Amount.form .done)
    (fun (coll, debt, _) => sumsUpdated coll debt)
    (fun
      | sumsUpdated coll debt => some (coll, debt, ())
      | _ => none),
  .of "StabilityPoolDepositChanged"
    (.field "depositor" Address.form <| .field "new_deposit" Amount.form <|
      .field "coll_gain" Amount.form .done)
    (fun (owner, deposit, gain, _) => depositChanged owner deposit gain)
    (fun
      | depositChanged owner deposit gain => some (owner, deposit, gain, ())
      | _ => none),
  .of "CollateralClaimed"
    (.field "borrower" Address.form <| .field "amount" Amount.form .done)
    (fun (owner, amount, _) => collateralClaimed owner amount)
    (fun
      | collateralClaimed owner amount => some (owner, amount, ())
      | _ => none)]

/-- A report, by its kind and fields. -/
def form : Form Event := .alternatives cases

/-- The name of the kind of a report. -/
def kind (e : Event) : String := Form.chosenName cases e

/-- The digest of the bytes of a report. -/
def digest (e : Event) : Digest := .ofMessage (form.toBytes e)

end Event

/-! ## The log -/

/-- A report with its time. -/
structure EventRecord where
  time : UInt64
  event : Event
deriving DecidableEq

/-- The report and its time as a record. -/
def EventRecord.form : Form EventRecord :=
  .record (.field "timestamp" Form.word <| .field "event" Event.form .done)
    (fun r => (r.time, r.event, ())) (fun (time, event, _) => ⟨time, event⟩)

/-- The latest reports. -/
structure EventLog where
  records : List EventRecord
  capacity : UInt64
deriving DecidableEq

namespace EventLog

/-- The log as a record. -/
def form : Form EventLog :=
  .record (.field "events" (.seq EventRecord.form) <| .field "capacity" Form.word .done)
    (fun l => (l.records, l.capacity, ())) (fun (records, capacity, _) => ⟨records, capacity⟩)

/-- An empty log that keeps so many reports, at least one. -/
def keeping (capacity : UInt64) : EventLog := ⟨[], if capacity = 0 then 1 else capacity⟩

/-- An empty log. -/
def empty : EventLog := keeping standardKept

instance : Inhabited EventLog := ⟨empty⟩

/-- The log with one more report. -/
def push (l : EventLog) (time : UInt64) (event : Event) : EventLog :=
  { l with records := keepLatest l.capacity.toNat (l.records ++ [⟨time, event⟩]) }

/-- The log with more reports of one time. -/
def extend (l : EventLog) (time : UInt64) (events : List Event) : EventLog :=
  events.foldl (fun l e => l.push time e) l

/-- The log without its reports. -/
def cleared (l : EventLog) : EventLog := { l with records := [] }

/-- The latest report. -/
def latest (l : EventLog) : Option EventRecord := l.records.getLast?

/-- The reports of a kind. -/
def ofKind (l : EventLog) (kind : String) : List Event :=
  (l.records.map EventRecord.event).filter fun e => e.kind == kind

/-- The digest of all reports, each chained to those before it. -/
def digest (l : EventLog) : Digest :=
  l.records.foldl
    (fun before r => .ofMessage (before.bytes ++ Bytes.big 8 r.time.toNat ++ r.event.digest.bytes))
    .zero

end EventLog

end Stablecoin
