/-
  Stablecoin accounting — the ledger.

  A ledger is the state together with what it works with: parameters, the
  protocol's accounts, the price, the token book, the ranking and the log.

  * `Ledger.new` starts a ledger on validated parameters and an empty ranking;
  * `Ledger.commit` carries out a draft.  All debits are rehearsed and all
    changes of the ranking checked first; then the ranking is changed, then the
    tokens are moved, and at last the next state and the reports are taken over.
  * `Ledger.perform` plans an operation and commits its draft.
-/
import Stablecoin.Ledger.Draft
import Stablecoin.PriceFeed
import Stablecoin.ProtocolAccounts
import Stablecoin.Request

namespace Stablecoin

/-- The state and what it works with. -/
structure Ledger where
  params : Parameters
  accounts : ProtocolAccounts
  state : State
  feed : PriceFeed
  token : TokenBook
  ranking : Ranking
  log : EventLog
deriving DecidableEq

/-- What an operation answers, and the draft to commit for it. -/
structure Plan (α : Type) where
  answer : α
  draft : Draft

namespace Ledger

/-! ## Starting -/

/-- A ledger over the given price, tokens and ranking, which must be empty. -/
def new (params : Parameters) (accounts : ProtocolAccounts) (feed : PriceFeed)
    (token : TokenBook) (ranking : Ranking) : Attempt Ledger := do
  params.validate
  demand (ranking.size = 0)
    (.invalidParameter "index" "a new ledger needs an empty position index")
  return ⟨params, accounts, .empty, feed, token, ranking, .empty⟩

/-- A ledger with a price, on the standard accounts. -/
def starting (params : Parameters) (price : Amount) : Attempt Ledger :=
  new params .standard (.starting price) (.stable ProtocolAccounts.standard.all) .empty

/-! ## Requirements -/

/-- The price, which must not be zero. -/
def price (l : Ledger) : Attempt Amount := do
  demand (l.feed.current ≠ 0) (.invalidParameter "price" "oracle returned zero")
  return l.feed.current

/-- The ratio of the system and its mode. -/
def evaluate (l : Ledger) (price : Amount) : Attempt SystemRatio := l.state.evaluate price l.params

/-- The net debt is at the floor or above it. -/
def demandDebtFloor (l : Ledger) (netDebt : Amount) : Attempt Unit :=
  demand (l.params.minimumNetDebt ≤ netDebt) (.debtFloor netDebt l.params.minimumNetDebt)

/-- The account holds the amount. -/
def demandBalance (l : Ledger) (account : Address) (required : Amount) : Attempt Unit :=
  demand (required ≤ l.token.balance account)
    (.insufficientBalance required (l.token.balance account))

/-! ## Committing -/

/-- Nothing in the draft is refused beforehand. -/
def check (l : Ledger) (d : Draft) : Attempt Unit := do
  let _ ← Draft.rehearse l.token d.moves
  d.changes.forM (RankChange.check l.ranking)

/-- Carries out a draft. -/
def commit (l : Ledger) (d : Draft) : Attempt Unit × Ledger :=
  match l.check d with
  | .error stop => (.error stop, l)
  | .ok () =>
    match applyInTurn RankChange.apply l.ranking d.changes with
    | (.error stop, ranking) => (.error stop, { l with ranking := ranking })
    | (.ok (), ranking) =>
      match applyInTurn TokenMove.apply l.token d.moves with
      | (.error stop, token) => (.error stop, { l with ranking := ranking, token := token })
      | (.ok (), token) =>
        (.ok (),
          { l with
            ranking := ranking
            token := token
            state := d.state
            log := l.log.extend d.state.now d.events })

/-- Commits the draft of a plan and answers with it. -/
def perform {α : Type} (l : Ledger) (plan : Attempt (Plan α)) : Attempt α × Ledger :=
  match plan with
  | .error stop => (.error stop, l)
  | .ok plan =>
    match l.commit plan.draft with
    | (.ok (), next) => (.ok plan.answer, next)
    | (.error stop, next) => (.error stop, next)

end Ledger

end Stablecoin
