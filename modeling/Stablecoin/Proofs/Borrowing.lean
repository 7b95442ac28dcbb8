/-
  Stablecoin theory — how troves are opened, adjusted and closed.

  A plan that succeeds has gone through fixed steps.  `Ledger.Opening`,
  `Ledger.Adjustment` and `Ledger.Closing` name the values of these steps with
  what ties them together, and every successful plan has them
  (`exists_opening`, `exists_adjustment`, `exists_closing`).
-/
import Stablecoin.Proofs.Commit
import Stablecoin.Ledger.Borrowing

namespace Stablecoin.Ledger

variable {l : Ledger}

/-- The ratio of the system with more debt was computed, so that there is room for the debt. -/
theorem debt_lt_limit {price ratio : Amount} {system : SystemRatio} {c : Change}
    (hs : l.evaluate price = .ok system) (h : c.ratio system.coll system.debt price = .ok ratio)
    (hg : c.debtGrows = true) : l.state.pools.debt + c.debt.val < Amount.limit := by
  obtain ⟨_, after, happly, -⟩ := Change.ratio_eq_ok_iff.1 h
  obtain ⟨-, hsystem, -⟩ := State.evaluate_ok hs
  have hlt := after.val_lt
  obtain ⟨-, hafter⟩ | ⟨hno, -⟩ := Amount.change_eq_ok_iff.1 (Change.apply_eq_ok_iff.1 happly).2
  · omega
  · rw [hg] at hno
    cases hno

/-! ## The fee -/

/-- Charging a fee sets the base rate and mints the fee for the stakers, and does nothing else. -/
theorem chargeFee_ok {d d' : Draft} {owner : Address} {amount limit fee : Amount}
    (h : l.chargeFee d owner amount limit = .ok (fee, d')) :
    ∃ quote, d.state.baseRate.quoteBorrowing l.params d.state.now amount limit = .ok quote ∧
      fee = quote.fee ∧ d'.state = { d.state with baseRate := quote.next } ∧
      d'.moves = d.moves ++ (TokenMove.mint l.accounts.staking fee).orNone ∧
      d'.changes = d.changes := by
  simp only [chargeFee, bind_eq_ok_iff, pure_eq_ok_iff, Prod.mk.injEq] at h
  obtain ⟨quote, hq, rfl, rfl⟩ := h
  refine ⟨quote, hq, rfl, ?_, ?_, ?_⟩ <;> split <;> simp

/-- A fee that is not due is zero, and no movement. -/
theorem chargeFeeIf_ok {due : Bool} {d d' : Draft} {owner : Address} {amount limit fee : Amount}
    (h : chargeFeeIf due l d owner amount limit = .ok (fee, d')) :
    (∃ rate, d'.state = { d.state with baseRate := rate }) ∧
      d'.moves = d.moves ++ (TokenMove.mint l.accounts.staking fee).orNone ∧
      (due = false → fee = 0) ∧ d'.changes = d.changes := by
  unfold chargeFeeIf at h
  split at h
  · next hdue =>
    obtain ⟨quote, -, -, hs, hm, hr⟩ := chargeFee_ok h
    exact ⟨⟨_, hs⟩, hm, fun h => absurd (h ▸ hdue) Bool.false_ne_true, hr⟩
  · cases h
    exact ⟨⟨_, rfl⟩, by simp [TokenMove.orNone, TokenMove.amount], fun _ => rfl, rfl⟩

/-! ## Opening -/

/-- The steps of opening a trove. -/
structure Opening (l : Ledger) (r : OpenRequest) (plan : Plan Opened) where
  price : Amount
  system : SystemRatio
  fee : Amount
  /-- The draft once the fee is charged. -/
  charged : Draft
  netDebt : Amount
  /-- The debt of the trove, the reserve included. -/
  debt : Amount
  ratio : Amount
  nominal : Amount
  newSystem : Amount
  opened : State
  stake : Amount
  staked : State
  active : Balance
  price_eq : l.price = .ok price
  system_eq : l.evaluate price = .ok system
  limit_eq : BaseRate.demandBorrowingLimit l.params r.limit system.recovery = .ok ()
  inactive : l.state.isActive r.owner = false
  charged_eq :
    chargeFeeIf (!system.recovery) l (.start l.state) r.owner r.debt r.limit = .ok (fee, charged)
  netDebt_eq : netDebt.val = r.debt.val + fee.val
  floor_eq : l.demandDebtFloor netDebt = .ok ()
  debt_eq : debt.val = netDebt.val + l.params.gasCompensation.val
  ratio_eq : Amount.ratio r.deposit debt price = .ok ratio
  nominal_eq : Amount.nominalRatio r.deposit debt = .ok nominal
  newSystem_eq :
    Change.ratio ⟨r.deposit, true, debt, true⟩ system.coll system.debt price = .ok newSystem
  rules_eq : demandOpening system.recovery ratio newSystem l.params = .ok ()
  opened_eq : charged.state.openTrove r.owner r.deposit debt = .ok opened
  staked_eq : opened.restake r.owner = .ok (stake, staked)
  active_eq : staked.pools.active.increased r.deposit debt = .ok active
  answer_eq : plan.answer = ⟨r.deposit, debt, stake, fee, ratio⟩
  draft_eq : plan.draft =
    (((((charged.withState { staked with pools := { staked.pools with active := active } }).ranking
      (.insert r.owner nominal r.hints)).moving (.mint r.owner r.debt)).moving
      (.mint l.accounts.gasPool l.params.gasCompensation)).reportingTrove
      r.owner .opened).reportingStakes

theorem exists_opening {r : OpenRequest} {plan : Plan Opened} (h : l.planOpening r = .ok plan) :
    Nonempty (Opening l r plan) := by
  simp only [planOpening, bind_eq_ok_iff, pure_eq_ok_iff, Prod.exists, Amount.add_eq_ok_iff] at h
  obtain ⟨price, h1, system, h2, _, h3, _, h4, fee, charged, h5, netDebt, h6, _, h7, debt, h8,
    ratio, h9, nominal, h10, newSystem, h11, _, h12, opened, h13, stake, staked, h14, active, h15,
    rfl⟩ := h
  exact ⟨⟨price, system, fee, charged, netDebt, debt, ratio, nominal, newSystem, opened, stake,
    staked, active, h1, h2, h3, demand_eq_ok_iff.1 h4, h5, h6, h7, h8, h9, h10, h11, h12, h13, h14,
    h15, rfl, rfl⟩⟩

/-- **What opening a trove does to the books:** its collateral comes in, and its debt is minted. -/
theorem Opening.books {r : OpenRequest} {plan : Plan Opened} (o : Opening l r plan) :
    plan.draft.state.pools.coll = l.state.pools.coll + r.deposit.val ∧
      plan.draft.state.pools.debt = l.state.pools.debt + TokenMove.mintedBy plan.draft.moves ∧
      l.state.pools.debt + TokenMove.mintedBy plan.draft.moves < Amount.limit ∧
      TokenMove.burnedBy plan.draft.moves = 0 ∧ plan.draft.state.stability = l.state.stability := by
  obtain ⟨⟨rate, hcharged⟩, hmoves, -⟩ := chargeFeeIf_ok o.charged_eq
  obtain ⟨ho₁, ho₂⟩ := State.openTrove_books o.opened_eq
  obtain ⟨hs₁, hs₂⟩ := State.restake_books o.staked_eq
  have hpools : o.staked.pools = l.state.pools := by rw [hs₁, ho₁, hcharged, Draft.state_start]
  have hpool : o.staked.stability = l.state.stability := by
    rw [hs₂, ho₂, hcharged, Draft.state_start]
  have hactive := Balance.increased_eq_ok_iff.1 o.active_eq
  have hnet := o.netDebt_eq
  have hdebt := o.debt_eq
  have hminted : TokenMove.mintedBy plan.draft.moves = o.debt.val := by
    rw [o.draft_eq]
    simp [hmoves, TokenMove.minted]
    omega
  have hroom := debt_lt_limit o.system_eq o.newSystem_eq rfl
  rw [hpools] at hactive
  rw [hminted]
  simp only [Pools.coll, Pools.debt] at hroom ⊢
  simp only [o.draft_eq, Draft.state_reportingStakes, Draft.state_reportingTrove,
    Draft.state_moving, Draft.state_ranking, Draft.state_withState, hpools]
  refine ⟨by omega, by omega, hroom, ?_, hpool⟩
  simp [hmoves, TokenMove.burned]

/-! ## Adjusting -/

/-- The change of a trove that a request asks for, once its fee is known. -/
def changeOf (r : AdjustRequest) (debtChange : Amount) : Change :=
  ⟨if r.deposit = 0 then r.withdrawal else r.deposit, r.deposit ≠ 0, debtChange, r.debtGrows⟩

/-- Tokens are paid back. -/
def repays (r : AdjustRequest) : Bool := !r.debtGrows && r.debt ≠ 0

/-- The steps of adjusting a trove. -/
structure Adjustment (l : Ledger) (r : AdjustRequest) (plan : Plan Adjusted) where
  price : Amount
  system : SystemRatio
  share : PendingShare
  realized : State
  fee : Amount
  /-- The draft once the fee is charged. -/
  charged : Draft
  debtChange : Amount
  /-- The record that is changed. -/
  trove : Trove
  oldRatio : Amount
  newRatio : Amount
  newSystem : Amount
  coll : Amount
  debt : Amount
  amended : State
  stake : Amount
  staked : State
  nominal : Amount
  active : Balance
  price_eq : l.price = .ok price
  system_eq : l.evaluate price = .ok system
  sensible_eq : l.demandSensible r system.recovery = .ok ()
  normal_eq : r.withdrawal ≠ 0 → demandNormal system.recovery "collateral withdrawal" = .ok ()
  realized_eq : l.state.realize r.owner = .ok (share, realized)
  charged_eq : chargeFeeIf (r.debtGrows && !system.recovery) l (.start realized) r.owner r.debt
    r.limit = .ok (fee, charged)
  debtChange_eq : debtChange.val = r.debt.val + fee.val
  trove_eq : charged.state.activeTrove r.owner = .ok trove
  withdrawal_le : r.withdrawal ≤ trove.coll
  repayable_eq : repays r = true → l.demandRepayable trove r.debt = .ok ()
  oldRatio_eq : trove.ratio price = .ok oldRatio
  newRatio_eq : (changeOf r debtChange).ratio trove.coll trove.debt price = .ok newRatio
  newSystem_eq : (changeOf r debtChange).ratio system.coll system.debt price = .ok newSystem
  rules_eq : demandAdjustment system.recovery r.withdrawal r.debtGrows oldRatio newRatio newSystem
    l.params = .ok ()
  balance_eq : repays r = true → l.demandBalance r.owner r.debt = .ok ()
  changed_eq : (changeOf r debtChange).apply trove.coll trove.debt = .ok (coll, debt)
  amended_eq : charged.state.amend r.owner coll debt = .ok amended
  staked_eq : amended.restake r.owner = .ok (stake, staked)
  nominal_eq : Amount.nominalRatio coll debt = .ok nominal
  active_eq : changeActive staked.pools.active (changeOf r debtChange) = .ok active
  answer_eq : plan.answer = ⟨coll, debt, stake, fee, share, r.withdrawal⟩
  draft_eq : plan.draft =
    ((((charged.withState { staked with pools := { staked.pools with active := active } }).ranking
      (.reinsert r.owner nominal r.hints)).moving
      (if r.debtGrows then .mint r.owner r.debt else .burn r.owner r.debt)).reportingTrove
      r.owner .adjusted).reportingStakes

theorem exists_adjustment {r : AdjustRequest} {plan : Plan Adjusted}
    (h : l.planAdjustment r = .ok plan) : Nonempty (Adjustment l r plan) := by
  simp only [planAdjustment, bind_eq_ok_iff, pure_eq_ok_iff, Prod.exists, Amount.add_eq_ok_iff] at h
  obtain ⟨price, h1, system, h2, _, h3, _, -, _, h4, share, realized, h5, fee, charged, h6,
    debtChange, h7, trove, h8, _, h9, _, h10, oldRatio, h11, newRatio, h12, newSystem, h13, _, h14,
    _, h15, coll, debt, h16, amended, h17, stake, staked, h18, nominal, h19, active, h20, rfl⟩ := h
  exact ⟨⟨price, system, share, realized, fee, charged, debtChange, trove, oldRatio, newRatio,
    newSystem, coll, debt, amended, stake, staked, nominal, active, h1, h2, h3,
    fun hw => onlyIf_eq_ok_iff.1 h4 (by simpa using hw), h5, h6, h7, h8, demand_eq_ok_iff.1 h9,
    onlyIf_eq_ok_iff.1 h10, h11, h12, h13, h14, onlyIf_eq_ok_iff.1 h15, h16, h17, h18, h19, h20,
    rfl, rfl⟩⟩

/-- Collateral is not put in and taken out at once. -/
theorem Adjustment.one_way {r : AdjustRequest} {plan : Plan Adjusted} (a : Adjustment l r plan) :
    r.withdrawal = 0 ∨ r.deposit = 0 := by
  have h := a.sensible_eq
  simp only [demandSensible, bind_eq_ok_iff] at h
  obtain ⟨_, -, _, hw, -⟩ := h
  exact demand_eq_ok_iff.1 hw

theorem changeActive_ok {b b' : Balance} {c : Change} (h : changeActive b c = .ok b') :
    b.coll.change c.coll c.collGrows = .ok b'.coll ∧
      b.debt.change c.debt c.debtGrows = .ok b'.debt := by
  simp only [changeActive, bind_eq_ok_iff] at h
  obtain ⟨m, hm, h⟩ := h
  have hc : b.coll.change c.coll c.collGrows = .ok m.coll ∧ m.debt.val = b.debt.val := by
    rw [Amount.change_eq_ok_iff]
    split at hm
    · next hg => simpa [hg] using Balance.increased_eq_ok_iff.1 hm
    · next hg => simpa [hg, eq_comm] using Balance.decreased_eq_ok_iff.1 hm
  have hd : m.debt.change c.debt c.debtGrows = .ok b'.debt ∧ b'.coll.val = m.coll.val := by
    rw [Amount.change_eq_ok_iff]
    split at h
    · next hg => simpa [hg, and_comm] using Balance.increased_eq_ok_iff.1 h
    · next hg => simpa [hg, and_comm, eq_comm] using Balance.decreased_eq_ok_iff.1 h
  rw [Amount.val_inj] at hc hd
  exact ⟨hd.2 ▸ hc.1, hc.2 ▸ hd.1⟩

/-- **What adjusting a trove does to the books:** collateral comes in or is sent, and the change of
its debt is minted or burned. -/
theorem Adjustment.books {r : AdjustRequest} {plan : Plan Adjusted} (a : Adjustment l r plan) :
    plan.draft.state.pools.coll + plan.answer.sent.val = l.state.pools.coll + r.deposit.val ∧
      plan.draft.state.pools.debt + TokenMove.burnedBy plan.draft.moves =
        l.state.pools.debt + TokenMove.mintedBy plan.draft.moves ∧
      l.state.pools.debt + TokenMove.mintedBy plan.draft.moves < Amount.limit ∧
      plan.draft.state.stability = l.state.stability := by
  obtain ⟨hr₁, hr₂, hr₃⟩ := State.realize_books a.realized_eq
  obtain ⟨⟨rate, hcharged⟩, hmoves, hfee, -⟩ := chargeFeeIf_ok a.charged_eq
  obtain ⟨ha₁, ha₂⟩ := State.amend_books a.amended_eq
  obtain ⟨hs₁, hs₂⟩ := State.restake_books a.staked_eq
  have hpools : a.staked.pools = a.realized.pools := by rw [hs₁, ha₁, hcharged, Draft.state_start]
  have hpool : a.staked.stability = l.state.stability := by
    rw [hs₂, ha₂, hcharged, Draft.state_start, hr₃]
  obtain ⟨hcoll, hdebt⟩ := changeActive_ok a.active_eq
  rw [hpools] at hcoll hdebt
  have hcoll : a.active.coll.val + r.withdrawal.val =
      a.realized.pools.active.coll.val + r.deposit.val := by
    have hone := a.one_way
    rw [Amount.change_eq_ok_iff] at hcoll
    by_cases h0 : r.deposit = 0
    · simp [changeOf, h0] at hcoll ⊢
      omega
    · simp [h0] at hone
      simp [changeOf, h0] at hcoll
      simp [hone, hcoll]
  have hdebt : a.active.debt.val + TokenMove.burnedBy plan.draft.moves =
        a.realized.pools.active.debt.val + TokenMove.mintedBy plan.draft.moves ∧
      l.state.pools.debt + TokenMove.mintedBy plan.draft.moves < Amount.limit := by
    have hchange := a.debtChange_eq
    have hlt := a.system.debt.val_lt
    obtain ⟨-, hsystem, -⟩ := State.evaluate_ok a.system_eq
    rw [Amount.change_eq_ok_iff] at hdebt
    cases hg : r.debtGrows with
    | true =>
      have hroom := debt_lt_limit a.system_eq a.newSystem_eq hg
      simp [changeOf, hg] at hdebt hroom
      simp [a.draft_eq, hmoves, hg, TokenMove.minted, TokenMove.burned]
      omega
    | false =>
      have hzero := hfee (by simp [hg])
      rw [hzero, Amount.val_zero] at hchange
      simp [changeOf, hg] at hdebt
      simp [a.draft_eq, hmoves, hg, hzero, TokenMove.minted, TokenMove.burned]
      omega
  have hnext : plan.draft.state.pools = { a.realized.pools with active := a.active } := by
    simp [a.draft_eq, hpools]
  have hsame : plan.draft.state.stability = l.state.stability := by
    simp [a.draft_eq, hpool]
  rw [hnext, a.answer_eq, ← hr₁, ← hr₂]
  rw [← hr₂] at hdebt
  simp only [Pools.coll, Pools.debt] at hdebt ⊢
  exact ⟨by omega, by omega, hdebt.2, hsame⟩

/-! ## Closing -/

/-- The steps of closing a trove. -/
structure Closing (l : Ledger) (owner : Address) (plan : Plan Closed) where
  price : Amount
  system : SystemRatio
  share : PendingShare
  realized : State
  trove : Trove
  repayment : Amount
  newSystem : Amount
  unstaked : State
  closed : State
  active : Balance
  price_eq : l.price = .ok price
  system_eq : l.evaluate price = .ok system
  normal_eq : demandNormal system.recovery "closing a trove" = .ok ()
  realized_eq : l.state.realize owner = .ok (share, realized)
  trove_eq : realized.activeTrove owner = .ok trove
  repayment_eq : trove.debt.val = repayment.val + l.params.gasCompensation.val
  balance_eq : l.demandBalance owner repayment = .ok ()
  newSystem_eq :
    Change.ratio ⟨trove.coll, false, trove.debt, false⟩ system.coll system.debt price =
      .ok newSystem
  rules_eq : demandSystemCritical newSystem l.params = .ok ()
  unstaked_eq : realized.unstake owner = .ok unstaked
  closed_eq : unstaked.closeTrove owner .closedByOwner = .ok closed
  active_eq : closed.pools.active.decreased trove.coll trove.debt = .ok active
  answer_eq : plan.answer = ⟨repayment, trove.coll⟩
  draft_eq : plan.draft =
    (((((Draft.start { closed with pools := { closed.pools with active := active } }).ranking
      (.remove owner)).moving (.burn owner repayment)).moving
      (.burn l.accounts.gasPool l.params.gasCompensation)).reportingTrove
      owner .closed).reportingStakes

theorem exists_closing {owner : Address} {plan : Plan Closed} (h : l.planClosing owner = .ok plan) :
    Nonempty (Closing l owner plan) := by
  simp only [planClosing, bind_eq_ok_iff, pure_eq_ok_iff, Prod.exists, Trove.netDebt,
    Amount.sub_eq_ok_iff] at h
  obtain ⟨_, -, price, h1, system, h2, _, h3, share, realized, h4, trove, h5, repayment, h6, _, h7,
    newSystem, h8, _, h9, unstaked, h10, closed, h11, active, h12, rfl⟩ := h
  exact ⟨⟨price, system, share, realized, trove, repayment, newSystem, unstaked, closed, active, h1,
    h2, h3, h4, h5, h6, h7, h8, h9, h10, h11, h12, rfl, rfl⟩⟩

/-- **What closing a trove does to the books:** its collateral is sent, and its debt is burned. -/
theorem Closing.books {owner : Address} {plan : Plan Closed} (c : Closing l owner plan) :
    plan.draft.state.pools.coll + plan.answer.sent.val = l.state.pools.coll ∧
      plan.draft.state.pools.debt + TokenMove.burnedBy plan.draft.moves = l.state.pools.debt ∧
      TokenMove.mintedBy plan.draft.moves = 0 ∧
      plan.draft.state.stability = l.state.stability := by
  obtain ⟨hr₁, hr₂, hr₃⟩ := State.realize_books c.realized_eq
  obtain ⟨hu₁, hu₂⟩ := State.unstake_books c.unstaked_eq
  obtain ⟨hc₁, hc₂⟩ := State.closeTrove_books c.closed_eq
  have hactive := Balance.decreased_eq_ok_iff.1 c.active_eq
  have hrepayment := c.repayment_eq
  rw [hc₁, hu₁] at hactive
  rw [← hr₁, ← hr₂, c.answer_eq, c.draft_eq]
  simp [hc₁, hu₁, Pools.coll, Pools.debt, TokenMove.minted, TokenMove.burned]
  exact ⟨by omega, by omega, by rw [hc₂, hu₂, hr₃]⟩

/-! ## Taking in pending shares -/

theorem planRealization_ok {owner : Address} {plan : Plan PendingShare}
    (h : l.planRealization owner = .ok plan) :
    l.state.realize owner = .ok (plan.answer, plan.draft.state) ∧ plan.draft.moves = [] ∧
      plan.draft.changes = [] := by
  simp only [planRealization, bind_eq_ok_iff, pure_eq_ok_iff, Prod.exists] at h
  obtain ⟨_, -, share, s, hs, rfl⟩ := h
  dsimp only
  split
  · exact ⟨hs, rfl, rfl⟩
  · rw [Draft.state_reportingTrove, Draft.moves_reportingTrove, Draft.changes_reportingTrove]
    exact ⟨hs, rfl, rfl⟩

end Stablecoin.Ledger
