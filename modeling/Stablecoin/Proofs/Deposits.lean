/-
  Stablecoin theory — how deposits are made and withdrawn.

  Depositors are served by the stability pool alone: the plans of a deposit and of
  a withdrawal change nothing else in the state, and move the tokens that the pool
  says.
-/
import Stablecoin.Proofs.Commit
import Stablecoin.Proofs.PoolChanges
import Stablecoin.Ledger.Deposits

namespace Stablecoin.Ledger

variable {l : Ledger} {owner : Address} {amount : Amount} {plan : Plan DepositChange}

theorem planDeposit_ok (h : l.planDeposit owner amount = .ok plan) :
    ∃ stability, l.state.stability.deposit owner amount = .ok (plan.answer, stability) ∧
      plan.draft.state = { l.state with stability := stability } ∧
      plan.draft.moves = (TokenMove.toPool owner l.accounts.stabilityPool amount).orNone ∧
      plan.draft.changes = [] := by
  simp only [planDeposit, bind_eq_ok_iff, pure_eq_ok_iff, Prod.exists] at h
  obtain ⟨_, -, change, stability, hs, rfl⟩ := h
  exact ⟨stability, hs, by simp [reportDeposit], by simp [reportDeposit], by simp [reportDeposit]⟩

theorem planWithdrawal_ok (h : l.planWithdrawal owner amount = .ok plan) :
    (amount ≠ 0 → l.demandNoneBelow = .ok ()) ∧
      ∃ stability, l.state.stability.withdraw owner amount = .ok (plan.answer, stability) ∧
        plan.draft.state = { l.state with stability := stability } ∧
        plan.draft.moves =
          (TokenMove.fromPool l.accounts.stabilityPool owner plan.answer.withdrawn).orNone ∧
        plan.draft.changes = [] := by
  simp only [planWithdrawal, bind_eq_ok_iff, pure_eq_ok_iff, Prod.exists] at h
  obtain ⟨_, hnone, change, stability, hs, rfl⟩ := h
  refine ⟨fun h0 => onlyIf_eq_ok_iff.1 hnone (by simpa using h0), stability, hs, ?_, ?_, ?_⟩ <;>
    simp [reportDeposit]

end Stablecoin.Ledger
