/-
  Stablecoin accounting — token books.

  A book keeps the balances of a token, their sum, the accounts that users
  cannot send to, and the latest movements.  No balance of zero is kept.

  * `mint`, `burn` and `move` are the movements; `transfer` is the `move` that
    users make, refused towards protected accounts;
  * a refused movement leaves the book as it is, except that `burn` debits the
    holder before it reduces the supply; so it returns the book in any case.
-/
import Stablecoin.Form.Leaf
import Stablecoin.Form.Record
import Stablecoin.Protocol

namespace Stablecoin

/-! ## Movements -/

/-- The kinds of movements. -/
inductive Movement
  | mint
  | burn
  | transfer
deriving DecidableEq

/-- A movement, by its name. -/
def Movement.form : Form Movement :=
  .names [("Mint", mint), ("Burn", burn), ("Transfer", transfer)]

/-- The record of a movement. -/
structure MovementRecord where
  movement : Movement
  /-- The account debited; none if tokens are created. -/
  source : Option Address
  /-- The account credited; none if tokens are destroyed. -/
  target : Option Address
  amount : Amount
deriving DecidableEq

/-- The movement as a record. -/
def MovementRecord.form : Form MovementRecord :=
  .record
    (.field "operation" Movement.form <| .field "from" (.option Address.form) <|
      .field "to" (.option Address.form) <| .field "amount" Amount.form .done)
    (fun m => (m.movement, m.source, m.target, m.amount, ()))
    (fun (movement, source, target, amount, _) => ⟨movement, source, target, amount⟩)

/-! ## Books -/

/-- The latest entries of a list, at most so many. -/
def keepLatest {α : Type} (most : Nat) (entries : List α) : List α :=
  entries.drop (entries.length - most)

/-- The count of entries kept where none is given. -/
def standardKept : UInt64 := 1000

/-- Balances of a token with their supply. -/
structure TokenBook where
  name : String
  symbol : String
  supply : Amount
  balances : Table Address Amount
  /-- The accounts that users cannot send to. -/
  guarded : Table Address Unit
  movements : List MovementRecord
  /-- How many movements are kept. -/
  kept : UInt64
deriving DecidableEq

namespace TokenBook

/-- The book as a record. -/
def form : Form TokenBook :=
  .record
    (.field "name" Form.text <| .field "symbol" Form.text <| .field "total_supply" Amount.form <|
      .field "balances" (Form.table Address.key Amount.form) <|
      .field "protected" (Form.members Address.form) <|
      .field "events" (.seq MovementRecord.form) <| .field "max_events" Form.word .done)
    (fun b => (b.name, b.symbol, b.supply, b.balances, b.guarded, b.movements, b.kept, ()))
    (fun (name, symbol, supply, balances, guarded, movements, kept, _) =>
      ⟨name, symbol, supply, balances, guarded, movements, kept⟩)

/-- A book without balances. -/
def empty (name symbol : String) (guarded : List Address) : TokenBook :=
  ⟨name, symbol, 0, .empty, .ofList (guarded.map (·, ())), [], standardKept⟩

/-- The book of the stable token. -/
def stable (guarded : List Address) : TokenBook := empty (Protocol.name ++ " Stablecoin") Protocol.name guarded

/-- The book of the reward token. -/
def reward (guarded : List Address) : TokenBook := empty "DEFT" "DEFT" guarded

/-! ## Looking up -/

/-- What an account holds. -/
def balance (b : TokenBook) (account : Address) : Amount := (b.balances.get? account).getD 0

/-- Users cannot send to the account. -/
def isGuarded (b : TokenBook) (account : Address) : Bool := b.guarded.contains account

/-- The count of accounts that hold something. -/
def holders (b : TokenBook) : Nat := b.balances.size

/-- The supply is the sum of the balances. -/
def isConsistent (b : TokenBook) : Bool :=
  b.balances.values.foldl Amount.addClamped 0 = b.supply

/-- The digest of supply and balances. -/
def digest (b : TokenBook) : Digest :=
  .ofMessage (Bytes.big 32 b.supply.val ++
    b.balances.entries.flatMap fun (account, held) => account.bytes ++ Bytes.big 32 held.val)

/-! ## Single steps -/

/-- The book with one more movement noted. -/
def noted (b : TokenBook) (movement : Movement) (source target : Option Address)
    (amount : Amount) : TokenBook :=
  { b with movements := keepLatest b.kept.toNat (b.movements ++ [⟨movement, source, target, amount⟩]) }

/-- The book with more in one account. -/
def credited (b : TokenBook) (account : Address) (amount : Amount) : Attempt TokenBook := do
  let held ← (b.balance account).add amount
  return { b with balances := b.balances.insert account held }

/-- The book with less in one account. -/
def debited (b : TokenBook) (account : Address) (amount : Amount) : Attempt TokenBook := do
  let available := b.balance account
  demand (amount ≤ available) (.insufficientBalance amount available)
  let held ← available.minus amount
  return { b with
    balances := if held = 0 then b.balances.erase account else b.balances.insert account held }

/-! ## The movements -/

/-- Creates tokens. -/
def mint (b : TokenBook) (target : Address) (amount : Amount) : Attempt TokenBook := do
  demand (amount ≠ 0) .zeroAmount
  let supply ← b.supply.add amount
  let credit ← b.credited target amount
  return { credit with supply := supply }.noted .mint none (some target) amount

/-- Destroys tokens of a holder. -/
def burn (b : TokenBook) (source : Address) (amount : Amount) : Attempt Unit × TokenBook :=
  match demand (amount ≠ 0) .zeroAmount, b.debited source amount with
  | .error stop, _ => (.error stop, b)
  | .ok (), .error stop => (.error stop, b)
  | .ok (), .ok debit =>
    settle debit do
      let supply ← debit.supply.sub amount
      return { debit with supply := supply }.noted .burn (some source) none amount

/-- Moves tokens; from an account to itself there is nothing to do. -/
def move (b : TokenBook) (source target : Address) (amount : Amount) : Attempt TokenBook := do
  demand (amount ≠ 0) .zeroAmount
  if source = target then return b
  let _ ← (b.balance target).add amount
  let debit ← b.debited source amount
  let credit ← debit.credited target amount
  return credit.noted .transfer (some source) (some target) amount

/-- Moves tokens for a user. -/
def transfer (b : TokenBook) (source target : Address) (amount : Amount) : Attempt TokenBook := do
  demand (target ≠ Address.zero ∧ b.isGuarded target = false) (.protectedRecipient target)
  b.move source target amount

end TokenBook

end Stablecoin
