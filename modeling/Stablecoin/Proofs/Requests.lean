/-
  Stablecoin theory — the plans of all requests.

  `Ledger.Planned` lists what the plan of a request can be, one case for each kind
  of operation, with the steps that lead to it; the three ways to ask for a
  liquidation are one case.  Whatever holds of every request is proved by these
  cases (`Ledger.planned_of_planOf`).
-/
import Stablecoin.Proofs.Borrowing
import Stablecoin.Proofs.Deposits
import Stablecoin.Proofs.Liquidation
import Stablecoin.Proofs.Redemption
import Stablecoin.Proofs.Runs

namespace Stablecoin

/-- The liquidator and the targets of a request for a liquidation. -/
def Request.liquidation : Request → Option (Address × Targets)
  | .liquidate liquidator target => some (liquidator, .listed [target])
  | .liquidateLowest liquidator most => some (liquidator, .lowest most.toNat)
  | .liquidateListed liquidator targets => some (liquidator, .listed targets)
  | _ => none

namespace Ledger

/-- What the plan of a request can be. -/
inductive Planned (l : Ledger) : Request → Plan Answer → Prop
  | opened {r plan} (steps : Opening l r plan) : Planned l (.openTrove r) (plan.seen .opened)
  | adjusted {r plan} (steps : Adjustment l r plan) :
    Planned l (.adjustTrove r) (plan.seen .adjusted)
  | closed {owner plan} (steps : Closing l owner plan) :
    Planned l (.closeTrove owner) (plan.seen .closed)
  | realized {owner : Address} {plan : Plan PendingShare}
    (state_eq : l.state.realize owner = .ok (plan.answer, plan.draft.state))
    (moves_eq : plan.draft.moves = []) (changes_eq : plan.draft.changes = []) :
    Planned l (.realize owner) (plan.seen .realized)
  | liquidated {r liquidator targets plan} (request_eq : r.liquidation = some (liquidator, targets))
    (steps : Liquidation l liquidator targets plan) : Planned l r (plan.seen .liquidated)
  | redeemed {r plan} (steps : Redemption l r plan) : Planned l (.redeem r) (plan.seen .redeemed)
  | claimed {owner : Address} {plan : Plan Amount} {surplus : Surplus}
    (paid_eq : l.state.pools.surplus.paidOut owner = .ok (plan.answer, surplus))
    (state_eq : plan.draft.state =
      { l.state with pools := { l.state.pools with surplus := surplus } })
    (moves_eq : plan.draft.moves = []) (changes_eq : plan.draft.changes = []) :
    Planned l (.claim owner) (plan.seen .claimed)
  | deposited {owner : Address} {amount : Amount} {plan : Plan DepositChange}
    {stability : StabilityPool}
    (deposit_eq : l.state.stability.deposit owner amount = .ok (plan.answer, stability))
    (state_eq : plan.draft.state = { l.state with stability := stability })
    (moves_eq : plan.draft.moves =
      (TokenMove.toPool owner l.accounts.stabilityPool amount).orNone)
    (changes_eq : plan.draft.changes = []) :
    Planned l (.provide owner amount) (plan.seen (.deposited owner))
  | withdrawn {owner : Address} {amount : Amount} {plan : Plan DepositChange}
    {stability : StabilityPool} (none_eq : amount ≠ 0 → l.demandNoneBelow = .ok ())
    (withdraw_eq : l.state.stability.withdraw owner amount = .ok (plan.answer, stability))
    (state_eq : plan.draft.state = { l.state with stability := stability })
    (moves_eq : plan.draft.moves =
      (TokenMove.fromPool l.accounts.stabilityPool owner plan.answer.withdrawn).orNone)
    (changes_eq : plan.draft.changes = []) :
    Planned l (.withdraw owner amount) (plan.seen (.deposited owner))

/-- **Every plan is one of these.** -/
theorem planned_of_planOf {l : Ledger} {r : Request} {plan : Plan Answer}
    (h : l.planOf r = .ok plan) : Planned l r plan := by
  cases r with
  | openTrove r =>
    obtain ⟨p, hp, rfl⟩ := map_eq_ok_iff.1 h
    obtain ⟨steps⟩ := exists_opening hp
    exact .opened steps
  | adjustTrove r =>
    obtain ⟨p, hp, rfl⟩ := map_eq_ok_iff.1 h
    obtain ⟨steps⟩ := exists_adjustment hp
    exact .adjusted steps
  | closeTrove owner =>
    obtain ⟨p, hp, rfl⟩ := map_eq_ok_iff.1 h
    obtain ⟨steps⟩ := exists_closing hp
    exact .closed steps
  | realize owner =>
    obtain ⟨p, hp, rfl⟩ := map_eq_ok_iff.1 h
    obtain ⟨hs, hm, hr⟩ := planRealization_ok hp
    exact .realized hs hm hr
  | liquidate liquidator target =>
    obtain ⟨p, hp, rfl⟩ := map_eq_ok_iff.1 h
    obtain ⟨_, -, hp⟩ := bind_eq_ok_iff.1 hp
    obtain ⟨steps⟩ := exists_liquidation hp
    exact .liquidated rfl steps
  | liquidateLowest liquidator most =>
    obtain ⟨p, hp, rfl⟩ := map_eq_ok_iff.1 h
    obtain ⟨steps⟩ := exists_liquidation hp
    exact .liquidated rfl steps
  | liquidateListed liquidator targets =>
    obtain ⟨p, hp, rfl⟩ := map_eq_ok_iff.1 h
    obtain ⟨_, -, hp⟩ := bind_eq_ok_iff.1 hp
    obtain ⟨steps⟩ := exists_liquidation hp
    exact .liquidated rfl steps
  | redeem r =>
    obtain ⟨p, hp, rfl⟩ := map_eq_ok_iff.1 h
    obtain ⟨steps⟩ := exists_redemption hp
    exact .redeemed steps
  | claim owner =>
    obtain ⟨p, hp, rfl⟩ := map_eq_ok_iff.1 h
    obtain ⟨surplus, hs, hstate, hm, hr⟩ := planClaim_ok hp
    exact .claimed hs hstate hm hr
  | provide owner amount =>
    obtain ⟨p, hp, rfl⟩ := map_eq_ok_iff.1 h
    obtain ⟨stability, hs, hstate, hm, hr⟩ := planDeposit_ok hp
    exact .deposited hs hstate hm hr
  | withdraw owner amount =>
    obtain ⟨p, hp, rfl⟩ := map_eq_ok_iff.1 h
    obtain ⟨hnone, stability, hs, hstate, hm, hr⟩ := planWithdrawal_ok hp
    exact .withdrawn hnone hs hstate hm hr

end Ledger

end Stablecoin
