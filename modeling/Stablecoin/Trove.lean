/-
  Stablecoin accounting — troves.

  A trove is the position of one borrower: collateral against debt.  The record
  holds what was last written; what has been redistributed since is pending, and
  is measured from the snapshot in the record (`Stablecoin.Redistribution`).
-/
import Stablecoin.Form.Leaf
import Stablecoin.Form.Record

namespace Stablecoin

/-! ## Status -/

/-- The stages of a trove. -/
inductive TroveStatus
  | nonExistent
  | active
  | closedByOwner
  | closedByLiquidation
  | closedByRedemption
deriving DecidableEq

namespace TroveStatus

/-- Every status with its name. -/
def named : List (String × TroveStatus) :=
  [("NonExistent", nonExistent), ("Active", active), ("ClosedByOwner", closedByOwner),
    ("ClosedByLiquidation", closedByLiquidation), ("ClosedByRedemption", closedByRedemption)]

/-- The name of the status. -/
def name (s : TroveStatus) : String := Form.nameIn named s

/-- A status, by its name. -/
def form : Form TroveStatus := .names named

/-- The trove was closed, in whatever way. -/
def isClosed : TroveStatus → Bool
  | nonExistent | active => false
  | closedByOwner | closedByLiquidation | closedByRedemption => true

end TroveStatus

/-! ## Snapshots -/

/-- What had been redistributed for a unit of stake when a record was last written. -/
structure Snapshot where
  coll : Amount
  debt : Amount
deriving DecidableEq

namespace Snapshot

/-- Nothing had been redistributed. -/
def start : Snapshot := ⟨0, 0⟩

instance : Inhabited Snapshot := ⟨start⟩

/-- The snapshot as a record. -/
def form : Form Snapshot :=
  .record (.field "l_coll" Amount.form <| .field "l_debt" Amount.form .done)
    (fun s => (s.coll, s.debt, ())) (fun (coll, debt, _) => ⟨coll, debt⟩)

end Snapshot

/-! ## Records -/

/-- The position of a borrower as it was last written. -/
structure Trove where
  owner : Address
  coll : Amount
  /-- The debt, the reserve included. -/
  debt : Amount
  /-- The weight of the trove in a redistribution. -/
  stake : Amount
  status : TroveStatus
  snapshot : Snapshot
deriving DecidableEq

namespace Trove

/-- The record of an owner without a position. -/
def vacant (owner : Address) : Trove := ⟨owner, 0, 0, 0, .nonExistent, .start⟩

/-- The trove as a record. -/
def form : Form Trove :=
  .record
    (.field "owner" Address.form <| .field "coll" Amount.form <| .field "debt" Amount.form <|
      .field "stake" Amount.form <| .field "status" TroveStatus.form <|
      .field "snapshot" Snapshot.form .done)
    (fun t => (t.owner, t.coll, t.debt, t.stake, t.status, t.snapshot, ()))
    (fun (owner, coll, debt, stake, status, snapshot, _) =>
      ⟨owner, coll, debt, stake, status, snapshot⟩)

/-- The trove is open. -/
def isActive (t : Trove) : Bool := t.status == .active

/-- The recorded collateral ratio at a price. -/
def ratio (t : Trove) (price : Amount) : Attempt Amount := Amount.ratio t.coll t.debt price

/-- The recorded ratio without a price. -/
def nominalRatio (t : Trove) : Attempt Amount := Amount.nominalRatio t.coll t.debt

/-- The recorded debt without the reserve. -/
def netDebt (t : Trove) (reserve : Amount) : Attempt Amount := t.debt.sub reserve

/-- The record emptied under a closing status. -/
def closed (t : Trove) (status : TroveStatus) : Trove := ⟨t.owner, 0, 0, 0, status, .start⟩

end Trove

end Stablecoin
