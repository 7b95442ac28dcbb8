/-
  Stablecoin accounting — drafts.

  An operation prepares everything before anything is changed: the next state,
  the movements of tokens, the changes of the ranking, and the reports.  A
  `Draft` collects them in order.

  * `TokenMove` and `RankChange` are the changes outside of the state;
  * `Draft.rehearse` runs through the movements on balances of its own, and
    refuses where an account would be overdrawn; on success it returns the
    balances that result;
  * `applyInTurn` makes changes one after another, and stops at the first that
    is refused: those before it stay made.
-/
import Stablecoin.Event
import Stablecoin.Ranking
import Stablecoin.State

namespace Stablecoin

/-! ## Movements of tokens -/

/-- A movement of tokens that an operation calls for. -/
inductive TokenMove
  | mint (target : Address) (amount : Amount)
  | burn (source : Address) (amount : Amount)
  /-- From a user into a pool. -/
  | toPool (source pool : Address) (amount : Amount)
  /-- From a pool to a user. -/
  | fromPool (pool target : Address) (amount : Amount)
deriving DecidableEq

namespace TokenMove

/-- The account that pays, and the amount. -/
def debit : TokenMove → Option (Address × Amount)
  | mint _ _ => none
  | burn source amount => some (source, amount)
  | toPool source _ amount => some (source, amount)
  | fromPool pool _ amount => some (pool, amount)

/-- The account that receives, and the amount. -/
def credit : TokenMove → Option (Address × Amount)
  | mint target amount => some (target, amount)
  | burn _ _ => none
  | toPool _ pool amount => some (pool, amount)
  | fromPool _ target amount => some (target, amount)

/-- The amount that is moved. -/
def amount : TokenMove → Amount
  | mint _ amount | burn _ amount | toPool _ _ amount | fromPool _ _ amount => amount

/-- Makes the movement. -/
def apply (book : TokenBook) : TokenMove → Attempt Unit × TokenBook
  | mint target amount => settle book (book.mint target amount)
  | burn source amount => book.burn source amount
  | toPool source pool amount => settle book (book.move source pool amount)
  | fromPool pool target amount => settle book (book.move pool target amount)

end TokenMove

/-! ## Changes of the ranking -/

/-- A change of the ranking that an operation calls for. -/
inductive RankChange
  | insert (owner : Address) (ratio : Amount) (hints : Hints)
  | reinsert (owner : Address) (ratio : Amount) (hints : Hints)
  | remove (owner : Address)
deriving DecidableEq

namespace RankChange

/-- Only troves that are not ranked are inserted, and only ranked ones moved or removed. -/
def check (ranking : Ranking) : RankChange → Attempt Unit
  | insert owner _ _ => demand (ranking.contains owner = false) (.troveAlreadyActive owner)
  | reinsert owner _ _ | remove owner => demand (ranking.contains owner) (.troveNotFound owner)

/-- Makes the change. -/
def apply (ranking : Ranking) : RankChange → Attempt Unit × Ranking
  | insert owner ratio hints => settle ranking (ranking.insert owner ratio hints)
  | reinsert owner ratio hints => ranking.reinsert owner ratio hints
  | remove owner => settle ranking (ranking.remove owner)

end RankChange

/-! ## Drafts -/

/-- What an operation is about to do. -/
structure Draft where
  state : State
  moves : List TokenMove
  changes : List RankChange
  events : List Event

namespace Draft

/-- Nothing yet, from a state. -/
def start (state : State) : Draft := ⟨state, [], [], []⟩

/-- The draft with another next state. -/
def withState (d : Draft) (state : State) : Draft := { d with state := state }

/-- One more movement, unless it moves nothing. -/
def moving (d : Draft) (move : TokenMove) : Draft :=
  if move.amount = 0 then d else { d with moves := d.moves ++ [move] }

/-- One more change of the ranking. -/
def ranking (d : Draft) (change : RankChange) : Draft :=
  { d with changes := d.changes ++ [change] }

/-- One more report. -/
def reporting (d : Draft) (event : Event) : Draft := { d with events := d.events ++ [event] }

/-- Reports the record of a trove as it is in the next state. -/
def reportingTrove (d : Draft) (owner : Address) (touch : Touch) : Draft :=
  match d.state.trove owner with
  | some t => d.reporting (.troveUpdated owner t.debt t.coll t.stake touch)
  | none => d.reporting (.troveUpdated owner 0 0 0 touch)

/-- Reports the sum of the stakes in the next state. -/
def reportingStakes (d : Draft) : Draft :=
  d.reporting (.stakesUpdated d.state.spread.totalStakes)

/-- Sets the base rate in the next state, and reports it. -/
def settingRate (d : Draft) (next : BaseRate) : Draft :=
  let moved := next.clock != d.state.baseRate.clock
  let d := (d.withState { d.state with baseRate := next }).reporting (.baseRateUpdated next.rate)
  if moved then d.reporting (.clockMoved next.clock) else d

/-! ## Rehearsal -/

/-- The balance of an account while movements are rehearsed. -/
def balanceIn (book : TokenBook) (balances : Table Address Amount) (account : Address) : Amount :=
  (balances.get? account).getD (book.balance account)

/-- The balances once an amount is paid, which the account must hold. -/
def rehearseDebit (book : TokenBook) (balances : Table Address Amount) :
    Option (Address × Amount) → Attempt (Table Address Amount)
  | none => .ok balances
  | some (account, amount) => do
    let available := balanceIn book balances account
    demand (amount ≤ available) (.insufficientBalance amount available)
    return balances.insert account (← available.minus amount)

/-- The balances once an amount is received. -/
def rehearseCredit (book : TokenBook) (balances : Table Address Amount) :
    Option (Address × Amount) → Attempt (Table Address Amount)
  | none => .ok balances
  | some (account, amount) => do
    return balances.insert account (← (balanceIn book balances account).add amount)

/-- Runs through one movement. -/
def rehearseMove (book : TokenBook) (balances : Table Address Amount) (move : TokenMove) :
    Attempt (Table Address Amount) := do
  rehearseCredit book (← rehearseDebit book balances move.debit) move.credit

/-- Runs through all movements, from the balances of the book. -/
def rehearse (book : TokenBook) (moves : List TokenMove) : Attempt (Table Address Amount) :=
  moves.foldlM (rehearseMove book) .empty

end Draft

/-- Makes changes one after another, up to the first that is refused. -/
def applyInTurn {σ χ : Type} (apply : σ → χ → Attempt Unit × σ) (s : σ) :
    List χ → Attempt Unit × σ
  | [] => (.ok (), s)
  | change :: changes =>
    match apply s change with
    | (.ok (), next) => applyInTurn apply next changes
    | (.error stop, next) => (.error stop, next)

end Stablecoin
