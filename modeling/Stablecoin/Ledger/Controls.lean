/-
  Stablecoin accounting — price, time and the base rate from outside.

  A ledger does not fetch its price or its time: both are set.  The time never
  goes back.  For trials the base rate can be set as well.
-/
import Stablecoin.Ledger.Basic

namespace Stablecoin.Ledger

/-- Sets the price. -/
def setPrice (l : Ledger) (price : Amount) : Attempt Ledger := do
  return { l with feed := ← l.feed.priced price }

/-- Sets the time, which is not before the present one. -/
def setTime (l : Ledger) (now : UInt64) : Attempt Ledger := do
  demand (l.state.now ≤ now)
    (.invalidParameter "timestamp"
      (toString now.toNat ++ " is before current time " ++ toString l.state.now.toNat))
  return { l with state := { l.state with now := now } }

/-- Lets seconds pass. -/
def advance (l : Ledger) (seconds : UInt64) : Attempt Ledger := do
  demand (l.state.now.toNat + seconds.toNat < UInt64.size) (.overflow "advance_time")
  l.setTime (l.state.now + seconds)

/-- Sets the base rate and its clock. -/
def seedRate (l : Ledger) (rate : Amount) (clock : UInt64) : Attempt Ledger := do
  demand (rate ≤ Amount.unit) (.invalidParameter "base_rate" "must not exceed 100%")
  return { l with state := { l.state with baseRate := .seeded rate clock } }

end Stablecoin.Ledger
