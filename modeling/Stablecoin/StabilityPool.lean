/-
  Stablecoin accounting — the stability pool.

  Depositors lend tokens to cancel the debt of liquidated troves, and receive
  the collateral in proportion.  Deposits are never visited one by one: two
  running factors tell what has become of each since it was last written.

  * the *product* is what has become of a token: a deposit made at product `P₀`
    is worth its amount times `P / P₀`;
  * a *sum* is the collateral gained by a token, weighted by the product; there
    is one for each epoch and scale;
  * when the product would fall below `10 ^ 9` it is multiplied by it and the
    scale rises, and when the pool is emptied a new epoch begins in which earlier
    deposits are worth nothing.

  The loss of a token is rounded up and its gain down, with the differences
  carried on (`StabilityPool.offset`).
-/
import Stablecoin.Amount.Arithmetic
import Stablecoin.Form.Leaf
import Stablecoin.Form.Record

namespace Stablecoin

/-! ## Deposits -/

/-- The factors of the pool when a deposit was last written. -/
structure PoolSnapshot where
  product : Amount
  sum : Amount
  epoch : UInt64
  scale : UInt64
deriving DecidableEq

/-- The snapshot as a record. -/
def PoolSnapshot.form : Form PoolSnapshot :=
  .record
    (.field "p" Amount.form <| .field "s" Amount.form <| .field "epoch" Form.word <|
      .field "scale" Form.word .done)
    (fun s => (s.product, s.sum, s.epoch, s.scale, ()))
    (fun (product, sum, epoch, scale, _) => ⟨product, sum, epoch, scale⟩)

/-- A deposit as it was last written. -/
structure Deposit where
  amount : Amount
  snapshot : PoolSnapshot
deriving DecidableEq

/-- The deposit as a record. -/
def Deposit.form : Form Deposit :=
  .record
    (.field "initial_value" Amount.form <| .field "snapshot" PoolSnapshot.form .done)
    (fun d => (d.amount, d.snapshot, ())) (fun (amount, snapshot, _) => ⟨amount, snapshot⟩)

/-- What a deposit or withdrawal does for one depositor. -/
structure DepositChange where
  /-- What the deposit was worth before. -/
  compounded : Amount
  /-- What it is worth now. -/
  deposit : Amount
  /-- Tokens paid back. -/
  withdrawn : Amount
  /-- Collateral paid out. -/
  gain : Amount
  /-- What liquidations have taken since the deposit was last written. -/
  loss : Amount
deriving DecidableEq

/-! ## The pool -/

/-- Deposits, their collateral, and the factors. -/
structure StabilityPool where
  /-- Tokens deposited. -/
  deposits : Amount
  /-- Collateral held for the depositors. -/
  coll : Amount
  product : Amount
  scale : UInt64
  epoch : UInt64
  /-- The sums by epoch and scale. -/
  sums : Table UInt64 (Table UInt64 Amount)
  /-- The remainder of the latest division of collateral. -/
  collCarry : Amount
  /-- By how much the latest loss was rounded up. -/
  lossCarry : Amount
  accounts : Table Address Deposit
  /-- How many liquidations were absorbed. -/
  offsets : UInt64
deriving DecidableEq

namespace StabilityPool

/-- The least product that a pool goes on with, and the factor of a change of scale. -/
def scaleFactor : Amount := ⟨1_000_000_000, by decide⟩

/-- A pool without deposits. -/
def empty : StabilityPool := ⟨0, 0, Amount.unit, 0, 0, .empty, 0, 0, .empty, 0⟩

instance : Inhabited StabilityPool := ⟨empty⟩

/-- The pool as a record. -/
def form : Form StabilityPool :=
  .record
    (.field "total_deposits" Amount.form <| .field "total_coll" Amount.form <|
      .field "p" Amount.form <| .field "current_scale" Form.word <|
      .field "current_epoch" Form.word <|
      .field "epoch_to_scale_to_sum"
        (Form.table Form.keyOfWord (Form.table Form.keyOfWord Amount.form)) <|
      .field "last_coll_error_offset" Amount.form <|
      .field "last_debt_loss_error_offset" Amount.form <|
      .field "deposits" (Form.table Address.key Deposit.form) <|
      .field "total_offsets" Form.word .done)
    (fun s => (s.deposits, s.coll, s.product, s.scale, s.epoch, s.sums, s.collCarry,
      s.lossCarry, s.accounts, s.offsets, ()))
    (fun (deposits, coll, product, scale, epoch, sums, collCarry, lossCarry, accounts, offsets,
      _) =>
      ⟨deposits, coll, product, scale, epoch, sums, collCarry, lossCarry, accounts, offsets⟩)

/-! ## Values of a deposit -/

/-- The sum of an epoch and scale. -/
def sumAt (s : StabilityPool) (epoch scale : UInt64) : Amount :=
  ((s.sums.get? epoch).bind fun scales => scales.get? scale).getD 0

/-- The deposit of an account. -/
def account (s : StabilityPool) (owner : Address) : Option Deposit := s.accounts.get? owner

/-- The amount of the deposit when it was last written. -/
def written (s : StabilityPool) (owner : Address) : Amount :=
  ((s.account owner).map Deposit.amount).getD 0

/-- What the product has made of a deposit of this epoch, by how often the scale has changed. -/
def shrinkage (s : StabilityPool) (d : Deposit) : Attempt Amount :=
  match s.scale.toNat - d.snapshot.scale.toNat with
  | 0 => d.amount.mulDiv s.product d.snapshot.product
  | 1 => (d.amount.mulDiv s.product d.snapshot.product).map fun a => a.quot scaleFactor.val
  | _ => .ok 0

/-- What liquidations have left of a deposit.  Less than a billionth of it counts as nothing. -/
def worth (s : StabilityPool) (d : Deposit) : Attempt Amount :=
  if d.snapshot.epoch < s.epoch then .ok 0
  else do
    let left ← s.shrinkage d
    return if left < d.amount.quot 1_000_000_000 then 0 else left

/-- The collateral that a deposit has gained. -/
def gainOf (s : StabilityPool) (d : Deposit) : Attempt Amount := do
  let here ← (s.sumAt d.snapshot.epoch d.snapshot.scale).sub d.snapshot.sum
  let following := (s.sumAt d.snapshot.epoch (← nextCount d.snapshot.scale)).quot scaleFactor.val
  let gain ← d.amount.mulDiv (← here.add following) d.snapshot.product
  return gain.quot Amount.unit.val

/-- What the deposit of an account is worth. -/
def compounded (s : StabilityPool) (owner : Address) : Attempt Amount :=
  match s.account owner with
  | none => .ok 0
  | some d => s.worth d

/-- The collateral that an account has gained. -/
def gain (s : StabilityPool) (owner : Address) : Attempt Amount :=
  match s.account owner with
  | none => .ok 0
  | some d => s.gainOf d

/-- The count of depositors. -/
def depositors (s : StabilityPool) : Nat := s.accounts.size

/-- The digest of totals and factors. -/
def digest (s : StabilityPool) : Digest :=
  .ofMessage (Bytes.big 32 s.deposits.val ++ Bytes.big 32 s.coll.val ++
    Bytes.big 32 s.product.val ++ Bytes.big 8 s.epoch.toNat ++ Bytes.big 8 s.scale.toNat)

/-! ## Depositing and withdrawing -/

/-- The factors as they are now. -/
def snapshot (s : StabilityPool) : PoolSnapshot :=
  ⟨s.product, s.sumAt s.epoch s.scale, s.epoch, s.scale⟩

/-- The accounts with the deposit of one written anew; a deposit of nothing is dropped. -/
def accountsWith (s : StabilityPool) (owner : Address) (amount : Amount) : Table Address Deposit :=
  if amount = 0 then s.accounts.erase owner
  else s.accounts.insert owner ⟨amount, s.snapshot⟩

/-- Adds to the deposit of an account and pays out its gain. -/
def deposit (s : StabilityPool) (owner : Address) (amount : Amount) :
    Attempt (DepositChange × StabilityPool) := do
  demand (amount ≠ 0) .zeroAmount
  let compounded ← s.compounded owner
  let gain ← s.gain owner
  let written := s.written owner
  let new ← compounded.add amount
  let deposits ← s.deposits.add amount
  let coll ← s.coll.sub gain
  return (⟨compounded, new, 0, gain, written.subClamped compounded⟩,
    { s with deposits := deposits, coll := coll, accounts := s.accountsWith owner new })

/-- Takes up to an amount from the deposit of an account and pays out its gain. -/
def withdraw (s : StabilityPool) (owner : Address) (amount : Amount) :
    Attempt (DepositChange × StabilityPool) := do
  let written := s.written owner
  demand (written ≠ 0) (.noDeposit owner)
  let compounded ← s.compounded owner
  let gain ← s.gain owner
  let withdrawn := min amount compounded
  let new ← compounded.minus withdrawn
  let deposits ← s.deposits.sub withdrawn
  let coll ← s.coll.sub gain
  return (⟨compounded, new, withdrawn, gain, written.subClamped compounded⟩,
    { s with deposits := deposits, coll := coll, accounts := s.accountsWith owner new })

/-! ## Absorbing liquidations -/

/-- The loss of a token, rounded up, and by how much it was rounded. -/
def lossPerToken (s : StabilityPool) (debt : Amount) : Attempt (Amount × Amount) :=
  if debt = s.deposits then .ok (Amount.unit, 0)
  else do
    let numerator ← (← debt.mul Amount.unit).sub s.lossCarry
    let loss ← (← numerator.dividedBy s.deposits).plus 1
    return (loss, ← (← loss.times s.deposits).minus numerator)

/-- The product, epoch and scale after each token is left with a factor of its worth. -/
def shrunk (s : StabilityPool) (factor : Amount) : Attempt (Amount × UInt64 × UInt64) :=
  if factor = 0 then do return (Amount.unit, ← nextCount s.epoch, 0)
  else do
    let product ← s.product.mulDiv factor Amount.unit
    if product < scaleFactor then
      let product ← (← s.product.mul factor).mulDiv scaleFactor Amount.unit
      return (product, s.epoch, ← nextCount s.scale)
    else return (product, s.epoch, s.scale)

/-- Cancels debt against the deposits and takes collateral in for them. -/
def offset (s : StabilityPool) (debt coll : Amount) : Attempt StabilityPool :=
  if s.deposits = 0 ∨ debt = 0 then .ok s
  else do
    demand (debt ≤ s.deposits)
      (.invariantViolation s!"offset of {debt} exceeds stability deposits {s.deposits}")
    let numerator ← (← coll.mul Amount.unit).add s.collCarry
    let gain ← numerator.dividedBy s.deposits
    let collCarry ← numerator.minus (← gain.times s.deposits)
    let (loss, lossCarry) ← s.lossPerToken debt
    let sum ← (s.sumAt s.epoch s.scale).add (← gain.mul s.product)
    let factor ← Amount.unit.sub loss
    let (product, epoch, scale) ← s.shrunk factor
    demand (product ≠ 0) (.invariantViolation "product factor reached zero")
    let deposits ← s.deposits.minus debt
    let total ← s.coll.add coll
    let scales := ((s.sums.get? s.epoch).getD .empty).insert s.scale sum
    return { s with
      deposits := deposits
      coll := total
      product := product
      scale := scale
      epoch := epoch
      sums := s.sums.insert s.epoch scales
      collCarry := collCarry
      lossCarry := lossCarry
      offsets := ← nextCount s.offsets }

end StabilityPool

end Stablecoin
