/-
  Stablecoin accounting — the protocol's own accounts.

  Six accounts belong to the protocol.  Users cannot send tokens to them; the
  ledger moves tokens in and out of the stability pool and the gas pool itself.
-/
import Stablecoin.Form.Leaf
import Stablecoin.Form.Record

namespace Stablecoin

/-- The accounts of the protocol. -/
structure ProtocolAccounts where
  /-- Stands for the collateral and debt of active troves. -/
  activePool : Address
  /-- Stands for what is redistributed and not yet taken into a trove. -/
  defaultPool : Address
  /-- Holds the deposits. -/
  stabilityPool : Address
  /-- Holds the reserve of every trove. -/
  gasPool : Address
  /-- Stands for surpluses that wait for their owners. -/
  surplusPool : Address
  /-- Receives the borrowing fees. -/
  staking : Address
deriving DecidableEq

namespace ProtocolAccounts

/-- The accounts taken where none are given. -/
def standard : ProtocolAccounts where
  activePool := .ofLabel "usdd/active-pool"
  defaultPool := .ofLabel "usdd/default-pool"
  stabilityPool := .ofLabel "usdd/stability-pool"
  gasPool := .ofLabel "usdd/gas-pool"
  surplusPool := .ofLabel "usdd/coll-surplus-pool"
  staking := .ofLabel "usdd/staking"

/-- The accounts to which users cannot send tokens. -/
def all (a : ProtocolAccounts) : List Address :=
  [a.activePool, a.defaultPool, a.stabilityPool, a.gasPool, a.surplusPool, a.staking]

/-- The accounts as a record. -/
def form : Form ProtocolAccounts :=
  .record
    (.field "active_pool" Address.form <| .field "default_pool" Address.form <|
      .field "stability_pool" Address.form <| .field "gas_pool" Address.form <|
      .field "coll_surplus_pool" Address.form <| .field "staking" Address.form .done)
    (fun a => (a.activePool, a.defaultPool, a.stabilityPool, a.gasPool, a.surplusPool,
      a.staking, ()))
    (fun (active, default, stability, gas, surplus, staking, _) =>
      ⟨active, default, stability, gas, surplus, staking⟩)

end ProtocolAccounts

end Stablecoin
