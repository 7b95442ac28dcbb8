/-
  Stablecoin accounting — pools.

  Where collateral and debt are booked: the active pool for the records of
  active troves, the default pool for what is redistributed and still pending,
  the surplus pool for collateral owed back to borrowers, and the fees that
  redemption leaves to the stakers.

  * `Balance` is the content of the active and of the default pool;
  * `Surplus` keeps a claim for each borrower, and their sum.
-/
import Stablecoin.Form.Leaf
import Stablecoin.Form.Record

namespace Stablecoin

/-! ## Balances -/

/-- Collateral and debt of a pool. -/
structure Balance where
  coll : Amount
  debt : Amount
deriving DecidableEq

namespace Balance

/-- Nothing. -/
def zero : Balance := ⟨0, 0⟩

instance : Inhabited Balance := ⟨zero⟩

/-- The balance as a record. -/
def form : Form Balance :=
  .record (.field "coll" Amount.form <| .field "debt" Amount.form .done)
    (fun b => (b.coll, b.debt, ())) (fun (coll, debt, _) => ⟨coll, debt⟩)

/-- The balance with more of both. -/
def increased (b : Balance) (coll debt : Amount) : Attempt Balance := do
  return ⟨← b.coll.add coll, ← b.debt.add debt⟩

/-- The balance with less of both. -/
def decreased (b : Balance) (coll debt : Amount) : Attempt Balance := do
  return ⟨← b.coll.sub coll, ← b.debt.sub debt⟩

end Balance

/-! ## Surplus -/

/-- Collateral that borrowers can claim, and its sum. -/
structure Surplus where
  claims : Table Address Amount
  total : Amount
deriving DecidableEq

namespace Surplus

/-- No claims. -/
def empty : Surplus := ⟨.empty, 0⟩

instance : Inhabited Surplus := ⟨empty⟩

/-- The claims and their sum as a record. -/
def form : Form Surplus :=
  .record (.field "balances" (Form.table Address.key Amount.form) <| .field "total" Amount.form .done)
    (fun s => (s.claims, s.total, ())) (fun (claims, total, _) => ⟨claims, total⟩)

/-- What a borrower can claim. -/
def claimable (s : Surplus) (owner : Address) : Amount := (s.claims.get? owner).getD 0

/-- The pool with a larger claim of one borrower. -/
def credited (s : Surplus) (owner : Address) (amount : Amount) : Attempt Surplus := do
  let total ← s.total.add amount
  let claim ← (s.claimable owner).add amount
  return ⟨s.claims.insert owner claim, total⟩

/-- The pool with a claim for what is left over; where nothing is left it stays as it is. -/
def creditedLeft (s : Surplus) (owner : Address) (left : Amount) : Attempt Surplus :=
  if left = 0 then .ok s else s.credited owner left

/-- The claim of a borrower, and the pool without it. -/
def paidOut (s : Surplus) (owner : Address) : Attempt (Amount × Surplus) := do
  let amount := s.claimable owner
  demand (amount ≠ 0) (.noCollateralToClaim owner)
  return (amount, ⟨s.claims.erase owner, ← s.total.sub amount⟩)

/-- The sum of amounts, held at the largest amount. -/
def sumClamped (amounts : List Amount) : Amount := amounts.foldl Amount.addClamped 0

/-- The sum of the claims is what the pool says it is. -/
def isConsistent (s : Surplus) : Bool := sumClamped s.claims.values = s.total

end Surplus

/-! ## All pools -/

/-- The pools of the system. -/
structure Pools where
  /-- Collateral and debt in the records of active troves. -/
  active : Balance
  /-- Collateral and debt that are pending. -/
  default : Balance
  surplus : Surplus
  /-- Collateral kept from redemptions for the stakers. -/
  stakingColl : Amount
deriving DecidableEq

namespace Pools

/-- Empty pools. -/
def empty : Pools := ⟨.zero, .zero, .empty, 0⟩

instance : Inhabited Pools := ⟨empty⟩

/-- The pools as a record. -/
def form : Form Pools :=
  .record
    (.field "active" Balance.form <| .field "default" Balance.form <|
      .field "surplus" Surplus.form <| .field "staking_coll" Amount.form .done)
    (fun p => (p.active, p.default, p.surplus, p.stakingColl, ()))
    (fun (active, default, surplus, staking, _) => ⟨active, default, surplus, staking⟩)

/-- The collateral that backs the debt of the system. -/
def systemColl (p : Pools) : Attempt Amount := p.active.coll.add p.default.coll

/-- The debt of the system. -/
def systemDebt (p : Pools) : Attempt Amount := p.active.debt.add p.default.debt

/-- The pools with a pending share moved from the default to the active pool. -/
def realized (p : Pools) (coll debt : Amount) : Attempt Pools := do
  let active ← p.active.increased coll debt
  let default ← p.default.decreased coll debt
  return { p with active := active, default := default }

end Pools

end Stablecoin
