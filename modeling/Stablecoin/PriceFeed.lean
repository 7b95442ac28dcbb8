/-
  Stablecoin accounting — the price.

  A feed holds the price of collateral, the price before it, and how often it
  was set.  A price of zero is not accepted, though a feed may start with it.
-/
import Stablecoin.Form.Leaf
import Stablecoin.Form.Record

namespace Stablecoin

/-- The price of a unit of collateral. -/
structure PriceFeed where
  current : Amount
  previous : Amount
  updates : UInt64
deriving DecidableEq

namespace PriceFeed

/-- The feed as a record. -/
def form : Form PriceFeed :=
  .record
    (.field "current" Amount.form <| .field "previous" Amount.form <|
      .field "updates" Form.word .done)
    (fun f => (f.current, f.previous, f.updates, ()))
    (fun (current, previous, updates, _) => ⟨current, previous, updates⟩)

/-- A feed that starts at a price. -/
def starting (price : Amount) : PriceFeed := ⟨price, price, 0⟩

/-- The feed with a new price. -/
def priced (f : PriceFeed) (price : Amount) : Attempt PriceFeed := do
  demand (price ≠ 0) (.invalidParameter "price" "must be positive")
  return ⟨price, f.current, ← nextCount f.updates⟩

/-- The change since the price before, in hundredths of a percent, and whether it was a fall. -/
def change (f : PriceFeed) : Attempt (Amount × Bool) :=
  if f.previous = 0 then .ok (0, false)
  else do
    let fell : Bool := f.current < f.previous
    let difference ← if fell then f.previous.minus f.current else f.current.minus f.previous
    let points ← (← difference.times ⟨10000, by decide⟩).dividedBy f.previous
    return (points, fell)

end PriceFeed

end Stablecoin
