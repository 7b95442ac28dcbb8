/-
  Stablecoin accounting — the protocol.

  The name under which the protocol presents itself, and the version of its
  rules.
-/
namespace Stablecoin.Protocol

/-- The name of the protocol, and of its stable token. -/
def name : String := "USDD"

/-- The version of the rules. -/
def version : String := "0.1.0"

end Stablecoin.Protocol
