/-
  Stablecoin accounting — histories of a ledger.

  A `Command` is anything that can be done to a ledger from outside: a request,
  a new price, the passing of time, a base rate for a trial, or a movement of
  tokens that does not go through a request.

  * `Ledger.obey` carries out one command, and `Ledger.run` a list of them;
  * a refused command does not end a run, but a fault does: nothing is obeyed
    after it.
-/
import Stablecoin.Ledger.Controls
import Stablecoin.Ledger.Execute

namespace Stablecoin

/-- Something done to a ledger. -/
inductive Command
  | request (request : Request)
  | setPrice (price : Amount)
  | setTime (now : UInt64)
  | advance (seconds : UInt64)
  | seedRate (rate : Amount) (clock : UInt64)
  /-- A transfer between users. -/
  | transfer (source target : Address) (amount : Amount)
  /-- A movement that only the protocol should make. -/
  | move (move : TokenMove)
deriving DecidableEq

namespace Ledger

/-- A change of the token book alone. -/
def onToken (l : Ledger) (outcome : Attempt Unit × TokenBook) : Attempt Unit × Ledger :=
  (outcome.1, { l with token := outcome.2 })

/-- Carries out a command; a request has an answer. -/
def obey (l : Ledger) : Command → Attempt (Option Answer) × Ledger
  | .request r => answering some (l.execute r)
  | .setPrice price => answering (fun _ => none) (settle l (l.setPrice price))
  | .setTime now => answering (fun _ => none) (settle l (l.setTime now))
  | .advance seconds => answering (fun _ => none) (settle l (l.advance seconds))
  | .seedRate rate clock => answering (fun _ => none) (settle l (l.seedRate rate clock))
  | .transfer source target amount =>
    answering (fun _ => none)
      (l.onToken (settle l.token (l.token.transfer source target amount)))
  | .move move => answering (fun _ => none) (l.onToken (move.apply l.token))

/-- Carries out commands in order, and collects their outcomes. -/
def run (l : Ledger) : List Command → List (Attempt (Option Answer)) × Ledger
  | [] => ([], l)
  | command :: commands =>
    match l.obey command with
    | (.error .fault, next) => ([.error .fault], next)
    | (outcome, next) =>
      let (outcomes, last) := next.run commands
      (outcome :: outcomes, last)

/-- The ledger after commands. -/
def after (l : Ledger) (commands : List Command) : Ledger := (l.run commands).2

end Ledger

end Stablecoin
