/-
  Stablecoin theory — failures of plans and commands.

  A plan fails where one of its steps does, committing never fails
  (`Ledger.fails_perform_iff`), and most steps never fail.  Of the others the lemmas about
  plans say what the ledger was like.  What they come to:
  * a request strains the books (`Ledger.Strained`): no stakes can be given, the base rate
    stays at zero, the product is used up, or nobody with a stake is left.  Then it breaks;
  * a liquidation overruns the stability pool (`Ledger.Overruns`), or a command finds a count
    full (`Ledger.Saturated`).  Then it halts.

  `Ledger.fails_obey`: on validated parameters nothing else fails.
-/
import Stablecoin.Proofs.ActivePool
import Stablecoin.Proofs.PoolFailures
import Stablecoin.Proofs.Requests
import Stablecoin.Ledger.Controls

namespace Stablecoin

namespace Ledger

variable {stop : Stop} (l : Ledger)

/-! ## Committing -/

@[simp] theorem not_fails_check (d : Draft) : ¬ Fails (l.check d) stop := by
  have hchanges : ∀ changes : List RankChange,
      ¬ Fails (forM changes (RankChange.check l.ranking)) stop := by
    intro changes
    induction changes with
    | nil => exact not_fails_ok ()
    | cons c rest ih => simp [ih]
  simp [check, hchanges]

theorem not_fails_commit (d : Draft) : ¬ Fails (l.commit d).1 stop := by
  have hcheck : ¬ Fails (l.check d) stop := l.not_fails_check d
  have hranks : ¬ Fails (applyInTurn RankChange.apply l.ranking d.changes).1 stop :=
    not_fails_applyInTurn RankChange.not_fails_apply _ _
  have hmoves : ¬ Fails (applyInTurn TokenMove.apply l.token d.moves).1 stop :=
    not_fails_applyInTurn TokenMove.not_fails_apply _ _
  unfold commit
  split
  · next h =>
    rw [h] at hcheck
    exact hcheck
  split
  · next h =>
    rw [h] at hranks
    exact hranks
  split
  · next h =>
    rw [h] at hmoves
    exact hmoves
  · exact not_fails_ok ()

/-- An operation fails where its plan does. -/
theorem fails_perform_iff {α : Type} {plan : Attempt (Plan α)} :
    Fails (l.perform plan).1 stop ↔ Fails plan stop := by
  unfold perform
  split
  · exact fails_error_iff.trans fails_error_iff.symm
  · next p =>
    have hcommit : ¬ Fails (l.commit p.draft).1 stop := l.not_fails_commit p.draft
    split
    · exact iff_of_false (not_fails_ok _) (not_fails_ok _)
    · next hc =>
      rw [hc, fails_error_iff] at hcommit
      exact iff_of_false (mt fails_error_iff.1 hcommit) (not_fails_ok _)

/-! ## Plans -/

@[simp] theorem not_fails_price : ¬ Fails l.price stop := by simp [price]

@[simp] theorem not_fails_evaluate (price : Amount) : ¬ Fails (l.evaluate price) stop :=
  State.not_fails_evaluate l.state price l.params

@[simp] theorem not_fails_demandDebtFloor (netDebt : Amount) :
    ¬ Fails (l.demandDebtFloor netDebt) stop := by simp [demandDebtFloor]

@[simp] theorem not_fails_demandBalance (account : Address) (required : Amount) :
    ¬ Fails (l.demandBalance account required) stop := by simp [demandBalance]

@[simp] theorem not_fails_chargeFeeIf (due : Bool) (d : Draft) (owner : Address)
    (amount limit : Amount) : ¬ Fails (chargeFeeIf due l d owner amount limit) stop := by
  simp [chargeFeeIf, chargeFee]

@[simp] theorem not_fails_demandSensible (r : AdjustRequest) (recovery : Bool) :
    ¬ Fails (l.demandSensible r recovery) stop := by simp [demandSensible]

/-- It is checked that no more is paid back than is owed. -/
@[simp] theorem not_fails_demandRepayable (t : Trove) (amount : Amount) :
    ¬ Fails (l.demandRepayable t amount) stop := by
  simp +contextual [demandRepayable]

@[simp] theorem not_fails_changeActive (active : Balance) (c : Change) :
    ¬ Fails (changeActive active c) stop := by simp [changeActive]

theorem fails_planOpening {r : OpenRequest} (h : Fails (l.planOpening r) stop) :
    l.state.spread.Unstaked ∧ stop = .refused .noStakesNoted ∨
      Filled l.state.activeCount ∧ stop = .fault := by
  simp only [planOpening, bind_pure_comp, fails_bind_iff, not_fails_price, not_fails_evaluate,
    BaseRate.not_fails_demandBorrowingLimit, fails_demand_iff, Refusal.isBreakage,
    Bool.false_eq_true, not_fails_chargeFeeIf, Amount.not_fails_add, not_fails_demandDebtFloor,
    Amount.not_fails_ratio, Amount.not_fails_nominalRatio, Change.not_fails_ratio,
    not_fails_demandOpening, State.fails_openTrove_iff, fails_seen_iff,
    Balance.not_fails_increased, and_false, exists_const, or_false, false_or, exists_and_right,
    Prod.exists] at h
  obtain ⟨_, -, _, -, -, -, fee, d, hcharged, _, -, -, _, -, _, -, -, _, -, -, h⟩ := h
  obtain ⟨⟨rate, hrate⟩, -⟩ := chargeFeeIf_ok hcharged
  rw [hrate] at h
  obtain ⟨-, hfilled, hstop⟩ | ⟨opened, hopened, hrestake⟩ := h
  · exact Or.inr ⟨hfilled, hstop⟩
  · obtain ⟨-, count, -, rfl⟩ := State.openTrove_eq_ok_iff.1 hopened
    obtain ⟨hunstaked, hstop⟩ := State.fails_restake hrestake
    exact Or.inl ⟨hunstaked, hstop⟩

theorem fails_planAdjustment {r : AdjustRequest} (h : Fails (l.planAdjustment r) stop) :
    l.state.spread.Unstaked ∧ stop = .refused .noStakesNoted := by
  simp only [planAdjustment, ne_eq, decide_not, bind_pure_comp, fails_bind_iff, not_fails_price,
    not_fails_evaluate, not_fails_demandSensible, State.not_fails_activeTrove, fails_onlyIf_iff,
    not_fails_demandNormal, and_false, State.not_fails_realize, not_fails_chargeFeeIf,
    Amount.not_fails_add, fails_demand_iff, Refusal.isBreakage, Bool.false_eq_true,
    not_fails_demandRepayable, Trove.not_fails_ratio, Change.not_fails_ratio,
    not_fails_demandAdjustment, not_fails_demandBalance, Change.not_fails_apply,
    State.not_fails_amend, Amount.not_fails_nominalRatio, fails_seen_iff, not_fails_changeActive,
    exists_const, or_self, or_false, false_or, Prod.exists, exists_and_right] at h
  obtain ⟨_, -, _, -, -, -, -, share, realized, hrealized, fee, d, hcharged, _, -, t, -, -, -, _, -,
    _, -, _, -, -, -, coll, debt, -, amended, hamended, hrestake⟩ := h
  obtain ⟨hunstaked, hstop⟩ := State.fails_restake hrestake
  -- neither the share that is taken in, nor the fee, nor the new record reach what was noted
  obtain ⟨_, _, hr⟩ := State.exists_realization hrealized
  obtain ⟨⟨rate, hrate⟩, -⟩ := chargeFeeIf_ok hcharged
  obtain ⟨_, -, rfl⟩ := State.amend_eq_ok_iff.1 hamended
  rw [hrate] at hunstaked
  rw [← hr.sums_eq]
  exact ⟨hunstaked, hstop⟩

theorem not_fails_planClosing (owner : Address) : ¬ Fails (l.planClosing owner) stop := by
  simp [planClosing, TroveStatus.isClosed]

theorem not_fails_planRealization (owner : Address) :
    ¬ Fails (l.planRealization owner) stop := by simp [planRealization]

theorem not_fails_planClaim (owner : Address) : ¬ Fails (l.planClaim owner) stop := by
  simp [planClaim]

theorem fails_planDeposit {owner : Address} {amount : Amount}
    (h : Fails (l.planDeposit owner amount) stop) :
    stop = .fault ∧ ∃ d, l.state.stability.account owner = some d ∧ Filled d.snapshot.scale := by
  simp only [planDeposit, fails_bind_iff, fails_demand_iff, Refusal.isBreakage, Bool.false_eq_true,
    not_fails_pure, and_false, exists_false, or_false, false_or] at h
  obtain ⟨_, -, h⟩ := h
  exact StabilityPool.fails_gain (StabilityPool.fails_deposit h)

theorem fails_planWithdrawal {owner : Address} {amount : Amount}
    (h : Fails (l.planWithdrawal owner amount) stop) :
    stop = .fault ∧ ∃ d, l.state.stability.account owner = some d ∧ Filled d.snapshot.scale := by
  have hnone : ¬ Fails l.demandNoneBelow stop := by
    unfold demandNoneBelow
    split <;> simp
  simp only [planWithdrawal, fails_bind_iff, fails_onlyIf_iff, hnone, not_fails_pure, and_false,
    exists_false, or_false, false_or] at h
  obtain ⟨_, -, h⟩ := h
  exact StabilityPool.fails_gain (StabilityPool.fails_withdraw h)

/-! ## Liquidations -/

variable {l}

@[simp] theorem not_fails_lessActive (s : State) (coll debt : Amount) :
    ¬ Fails (lessActive s coll debt) stop := by simp [lessActive]

@[simp] theorem not_fails_take (price : Amount) (w : Sweep) (owner : Address)
    (whole : EntireTrove) (split : Split) :
    ¬ Fails (l.take price w owner whole split) stop := by
  simp [take, seize, TroveStatus.isClosed, systemAfter]

section

variable (hp : stop = .fault → l.params.validate = .ok ())
include hp

theorem not_fails_judge (price : Amount) (listed : Bool) (w : Sweep) (whole : EntireTrove) :
    ¬ Fails (l.judge price listed w whole) stop := by
  have hnormal := fun debt coll deposits => Split.not_fails_normal debt coll deposits hp
  have hrecovery := fun debt coll ratio systemRatio deposits =>
    Split.not_fails_inRecovery debt coll ratio systemRatio price deposits hp
  simp only [judge, bind_pure_comp, fails_bind_iff, Amount.not_fails_ratio, fails_ite_iff,
    fails_seen_iff, hnormal, not_fails_pure, hrecovery, and_false, or_self, false_or, not_exists,
    not_and]
  rintro ratio - - - - systemRatio - (_ | split) -
  · exact not_fails_pure _
  · exact not_fails_pure _

theorem not_fails_sweep (price : Amount) (listed : Bool) (w : Sweep) (owners : List Address) :
    ¬ Fails (l.sweep price listed w owners) stop := by
  induction owners generalizing w with
  | nil => exact not_fails_ok w
  | cons owner rest ih =>
    rw [sweep]
    split
    · rw [fails_bind_iff]
      rintro (h | ⟨whole, -, h⟩)
      · exact State.not_fails_entire _ _ h
      rw [fails_bind_iff] at h
      obtain h | ⟨verdict, -, h⟩ := h
      · exact not_fails_judge hp _ _ _ _ h
      cases verdict with
      | pass => exact ih w h
      | halt => exact not_fails_ok w h
      | take split =>
        rw [fails_bind_iff] at h
        obtain h | ⟨next, -, h⟩ := h
        · exact not_fails_take _ _ _ _ _ h
        · exact ih next h
    · exact ih w

end

theorem fails_settleOffset_iff {d : Draft} {t : SplitTotals} : Fails (l.settleOffset d t) stop ↔
    t.debtOffset ≠ 0 ∧ Fails (d.state.stability.offset t.debtOffset t.collOffset) stop := by
  simp [settleOffset]

theorem fails_settleSpread_iff {d : Draft} {t : SplitTotals} : Fails (settleSpread d t) stop ↔
    (t.debtSpread ≠ 0 ∧ d.state.spread.totalStakes = 0) ∧ stop = .refused .nobodyStaked := by
  simp only [settleSpread, fails_ite_iff, not_fails_ok, and_false, false_or, fails_bind_iff,
    State.fails_redistribute_iff, not_fails_pure, exists_const, or_false]
  exact and_iff_right_of_imp fun h => h.1.1

@[simp] theorem not_fails_settleRest (d : Draft) (liquidator : Address) (t : SplitTotals) :
    ¬ Fails (l.settleRest d liquidator t) stop := by simp [settleRest]

/-- What the visit of the candidates of a liquidation has left. -/
def Swept (l : Ledger) (targets : Targets) (w : Sweep) : Prop :=
  ∃ price system, l.price = .ok price ∧ l.evaluate price = .ok system ∧
    l.sweep price targets.areListed
      ⟨.start l.state, .zero, [], system.coll, system.debt, l.state.stability.deposits,
        !system.recovery⟩ (l.candidates system.recovery targets) = .ok w

section

variable {targets : Targets} {w : Sweep}

/-- A sweep sets aside no more debt than there are deposits. -/
theorem Swept.debtOffset_le (h : l.Swept targets w) :
    w.totals.debtOffset.val ≤ l.state.stability.deposits.val := by
  obtain ⟨_, _, -, -, hw⟩ := h
  obtain ⟨-, -, -, -, hdeposits⟩ := sweep_books hw
  simp only [SplitTotals.zero, Amount.val_zero] at hdeposits
  omega

theorem Swept.stability_eq (h : l.Swept targets w) :
    w.draft.state.stability = l.state.stability := by
  obtain ⟨_, _, -, -, hw⟩ := h
  exact (sweep_books hw).2.2.1

/-- Debt is set aside out of the debt that is taken. -/
theorem Swept.isEmpty_eq (h : l.Swept targets w) (hne : w.totals.debtOffset ≠ 0) :
    w.totals.isEmpty = false := by
  obtain ⟨_, _, -, -, hw⟩ := h
  have hparts := (sweep_complete hw ⟨rfl, rfl, fun _ => rfl⟩).debt_parts
  rw [SplitTotals.isEmpty, decide_eq_false_iff_not]
  rw [← ne_eq, Amount.ne_zero_iff] at *
  omega

/-- Where something was taken, a listed trove was active. -/
theorem Swept.isActive {target : Address} (h : l.Swept (.listed [target]) w)
    (hne : w.totals.isEmpty = false) : l.state.isActive target = true := by
  obtain ⟨price, system, -, -, hw⟩ := h
  rw [candidates, sweep] at hw
  split at hw
  · next hactive => exact hactive
  · rw [sweep, Except.ok.injEq] at hw
    subst hw
    cases hne

theorem Swept.targets_ne {targets : List Address} (h : l.Swept (.listed targets) w)
    (hne : w.totals.isEmpty = false) : targets ≠ [] := by
  rintro rfl
  obtain ⟨price, system, -, -, hw⟩ := h
  rw [candidates, sweep, Except.ok.injEq] at hw
  subst hw
  cases hne

end

/-- A liquidation fails where the pool does not absorb what was set aside for it, or nobody is left
to take what is spread. -/
theorem fails_planLiquidation_iff (hp : stop = .fault → l.params.validate = .ok ())
    {liquidator : Address} {targets : Targets} : Fails (l.planLiquidation liquidator targets) stop ↔
      ∃ w, l.Swept targets w ∧ w.totals.isEmpty = false ∧
        ((w.totals.debtOffset ≠ 0 ∧
            Fails (l.state.stability.offset w.totals.debtOffset w.totals.collOffset) stop) ∨
          ∃ d, l.settleOffset w.draft w.totals = .ok d ∧
            (w.totals.debtSpread ≠ 0 ∧ d.state.spread.totalStakes = 0) ∧
              stop = .refused .nobodyStaked) := by
  simp only [planLiquidation, bind_pure_comp, fails_bind_iff, not_fails_price, not_fails_evaluate,
    not_fails_sweep hp, fails_demand_iff, demand_eq_iff, exists_const, Refusal.isBreakage,
    Bool.false_eq_true, fails_settleOffset_iff, fails_settleSpread_iff, not_fails_settleRest,
    fails_seen_iff, and_false, exists_false, or_false, false_or]
  constructor
  · rintro ⟨price, hprice, system, hsystem, w, hw, hempty, h⟩
    have hswept : l.Swept targets w := ⟨price, system, hprice, hsystem, hw⟩
    rw [hswept.stability_eq] at h
    exact ⟨w, hswept, hempty, h⟩
  · rintro ⟨w, hswept, hempty, h⟩
    rw [← hswept.stability_eq] at h
    obtain ⟨price, system, hprice, hsystem, hw⟩ := hswept
    exact ⟨price, hprice, system, hsystem, w, hw, hempty, h⟩

/-- However a liquidation is asked for, it fails where its plan does. -/
theorem fails_planOf_liquidation_iff (hp : stop = .fault → l.params.validate = .ok ())
    {r : Request} {liquidator : Address} {targets : Targets}
    (hr : r.liquidation = some (liquidator, targets)) :
    Fails (l.planOf r) stop ↔ Fails (l.planLiquidation liquidator targets) stop := by
  cases r with
  | liquidate liquidator target =>
    cases hr
    rw [planOf, fails_map_iff, fails_bind_iff, or_iff_right (State.not_fails_activeTrove _ _)]
    constructor
    · rintro ⟨-, -, h⟩
      exact h
    intro h
    obtain ⟨w, hw, hempty, -⟩ := (fails_planLiquidation_iff hp).1 h
    obtain ⟨t, ht⟩ := State.isActive_iff.1 (hw.isActive hempty)
    exact ⟨t, State.activeTrove_eq_ok.2 ht, h⟩
  | liquidateLowest liquidator most =>
    cases hr
    exact fails_map_iff
  | liquidateListed liquidator targets =>
    cases hr
    have hdemand : ¬ Fails
        (demand (targets ≠ []) (.invalidOperation "batch liquidation needs targets")) stop := by simp
    rw [planOf, fails_map_iff, fails_bind_iff, or_iff_right hdemand]
    constructor
    · rintro ⟨-, -, h⟩
      exact h
    intro h
    obtain ⟨w, hw, hempty, -⟩ := (fails_planLiquidation_iff hp).1 h
    exact ⟨(), demand_eq_ok_iff.2 (hw.targets_ne hempty), h⟩
  | _ => cases hr

/-! ## Redemptions -/

theorem fails_redeemPart {d : Draft} {r : RedeemRequest} {owner : Address} {coll debt : Amount}
    (h : Fails (l.redeemPart d r owner coll debt) stop) :
    d.state.spread.Unstaked ∧ stop = .refused .noStakesNoted := by
  simp only [redeemPart, bind_pure_comp, fails_bind_iff, Amount.not_fails_nominalRatio,
    fails_ite_iff, not_fails_pure, and_false, Amount.not_fails_sub, State.not_fails_amend,
    fails_seen_iff, false_or] at h
  obtain ⟨_, -, -, _, -, -, amended, hamended, hrestake⟩ := h
  obtain ⟨_, -, rfl⟩ := State.amend_eq_ok_iff.1 hamended
  obtain ⟨hunstaked, hstop⟩ := State.fails_restake hrestake
  exact ⟨hunstaked, hstop⟩

theorem fails_redeemFrom {d : Draft} {r : RedeemRequest} {owner : Address} {most price : Amount}
    (h : Fails (l.redeemFrom d r owner most price) stop) :
    d.state.spread.Unstaked ∧ stop = .refused .noStakesNoted := by
  simp only [redeemFrom, closeRedeemed, bind_pure_comp, fails_bind_iff,
    State.not_fails_activeTrove, Trove.not_fails_netDebt, Amount.not_fails_mulDiv,
    Amount.not_fails_sub, fails_ite_iff, State.not_fails_unstake, State.fails_closeTrove_iff,
    TroveStatus.isClosed, Bool.true_eq_false, false_and, Balance.not_fails_decreased,
    fails_seen_iff, Surplus.not_fails_creditedLeft, and_false, exists_false, or_self,
    false_or] at h
  obtain ⟨_, -, _, -, _, -, _, -, _, -, -, h⟩ := h
  exact fails_redeemPart h

/-- Stakes and collateral are noted only after liquidations. -/
theorem DrawStep.unstaked_iff {r : RedeemRequest} {price : Amount} {w w' : Drawing}
    (step : DrawStep l r price w w') :
    w'.draft.state.spread.Unstaked ↔ w.draft.state.spread.Unstaked := by
  obtain ⟨_, _, _, _, e⟩ := step.exists_effect
  rw [e.replaced.spread_eq, e.realization.sums_eq]
  rfl

theorem fails_draw {r : RedeemRequest} {price : Amount} {w : Drawing} {owners : List Address}
    (h : Fails (l.draw r price w owners) stop) :
    w.draft.state.spread.Unstaked ∧ stop = .refused .noStakesNoted := by
  induction owners generalizing w with
  | nil => exact absurd h (not_fails_ok w)
  | cons owner rest ih =>
    rw [draw] at h
    simp only [fails_ite_iff, not_fails_ok, and_false, false_or, fails_bind_iff,
      State.not_fails_realize, Prod.exists] at h
    obtain ⟨h0, share, s, hs, h | ⟨outcome, ho, h⟩⟩ := h
    · obtain ⟨_, _, hr⟩ := State.exists_realization hs
      rw [← hr.sums_eq]
      exact fails_redeemFrom h
    cases outcome with
    | none => exact absurd h (not_fails_pure _)
    | some found =>
      obtain ⟨lot, d⟩ := found
      simp only [fails_bind_iff, Amount.not_fails_add, Amount.not_fails_sub, false_or,
        Amount.add_eq_ok_iff, Amount.sub_eq_ok_iff] at h
      obtain ⟨redeemed, hr, drawn, hd, remaining, hm, h⟩ := h
      obtain ⟨hunstaked, hstop⟩ := ih h
      let step : DrawStep l r price w ⟨d, remaining, redeemed, drawn, w.owners ++ [owner],
        if lot.closed then w.closed ++ [owner] else w.closed⟩ :=
          ⟨owner, share, s, lot, hs, ho, hr, hd, h0, hm, rfl, rfl⟩
      exact ⟨step.unstaked_iff.1 hunstaked, hstop⟩

@[simp] theorem not_fails_isFirst (hint : Option Address) (price : Amount) :
    ¬ Fails (l.isFirst hint price) stop := by
  cases hint with
  | none => exact not_fails_ok false
  | some owner =>
    cases hnext : l.ranking.next owner <;> simp [isFirst, hnext]

@[simp] theorem not_fails_skipBelow (price : Amount) (owners : List Address) :
    ¬ Fails (l.skipBelow price owners) stop := by
  induction owners with
  | nil => exact not_fails_ok []
  | cons owner rest ih => simp [skipBelow, ih]

@[simp] theorem not_fails_redemptionWalk (hint : Option Address) (price : Amount) :
    ¬ Fails (l.redemptionWalk hint price) stop := by simp [redemptionWalk]

/-- What the walk of a redemption has left, at a price and a ratio of the system. -/
def Walked (l : Ledger) (r : RedeemRequest) (price : Amount) (system : SystemRatio)
    (w : Drawing) : Prop :=
  l.price = .ok price ∧ l.evaluate price = .ok system ∧
    ∃ walk, l.redemptionWalk r.firstHint price = .ok walk ∧
      l.draw r price ⟨.start l.state, r.amount, 0, 0, [], []⟩
        (if r.most = 0 then walk else walk.take r.most.toNat) = .ok w

theorem fails_planRedemption (hp : stop = .fault → l.params.validate = .ok ()) {r : RedeemRequest}
    (h : Fails (l.planRedemption r) stop) :
    l.state.spread.Unstaked ∧ stop = .refused .noStakesNoted ∨
      ∃ price system w, l.Walked r price system w ∧ w.drawn ≠ 0 ∧
        w.draft.state.baseRate.Unraised l.params w.draft.state.now w.drawn price system.debt ∧
        stop = .refused .rateAtZero := by
  simp only [planRedemption, bind_pure_comp, fails_bind_iff, not_fails_price,
    not_fails_evaluate, BaseRate.not_fails_demandRedemptionLimit, not_fails_demandSystemMinimum,
    fails_demand_iff, not_fails_demandBalance, not_fails_redemptionWalk, Refusal.isBreakage,
    Bool.false_eq_true, and_false, fails_seen_iff, Amount.not_fails_sub, Amount.not_fails_add,
    Balance.not_fails_decreased, BaseRate.fails_quoteRedemption_iff hp, exists_false, or_false,
    false_or] at h
  obtain ⟨_, -, price, hprice, system, hsystem, _, -, _, -, _, -, walk, hwalk, h⟩ := h
  obtain h | ⟨w, hw, _, hne, hunraised, hstop⟩ := h
  · exact Or.inl (fails_draw h)
  · exact Or.inr ⟨price, system, w, ⟨hprice, hsystem, walk, hwalk, hw⟩, demand_eq_ok_iff.1 hne,
      hunraised, hstop⟩

end Ledger

/-! ## Requests -/

/-- The request may give a trove a new stake. -/
def Request.restakes : Request → Prop
  | .openTrove _ | .adjustTrove _ | .redeem _ => True
  | _ => False

/-- The owner of the deposit that a request is about. -/
def Request.depositor : Request → Option Address
  | .provide owner _ | .withdraw owner _ => some owner
  | _ => none

namespace Ledger

variable {l : Ledger} {stop : Stop}

/-- The requests that strain the books, and what gives way. -/
inductive Strained (l : Ledger) : Request → Refusal → Prop
  /-- A stake is asked for when none can be given. -/
  | stake {r} (restakes : r.restakes) (unstaked : l.state.spread.Unstaked) :
    Strained l r .noStakesNoted
  /-- So little is redeemed that the base rate stays at zero. -/
  | rate {r price system w} (walked : l.Walked r price system w) (drawn_ne : w.drawn ≠ 0)
    (unraised : w.draft.state.baseRate.Unraised l.params w.draft.state.now w.drawn price
      system.debt) :
    Strained l (.redeem r) .rateAtZero
  /-- So much is liquidated that the product cannot be written any more. -/
  | product {r liquidator targets w} (request_eq : r.liquidation = some (liquidator, targets))
    (swept : l.Swept targets w) (debt_ne : w.totals.debtOffset ≠ 0)
    (exhausts : l.state.stability.Exhausts w.totals.debtOffset) :
    Strained l r .productAtZero
  /-- Nobody with a stake is left to take what is liquidated. -/
  | spread {r liquidator targets w} (request_eq : r.liquidation = some (liquidator, targets))
    (swept : l.Swept targets w) (debt_ne : w.totals.debtSpread ≠ 0)
    (stakes_eq : w.draft.state.spread.totalStakes = 0) :
    Strained l r .nobodyStaked

/-- The commands that find a count full. -/
inductive Saturated (l : Ledger) : Command → Prop
  | price {price} (filled : Filled l.feed.updates) : Saturated l (.setPrice price)
  | trove {r} (filled : Filled l.state.activeCount) : Saturated l (.request (.openTrove r))
  | pool {r liquidator targets} (request_eq : r.liquidation = some (liquidator, targets))
    (filled : l.state.stability.IsFilled) : Saturated l (.request r)
  | deposit {r owner d} (request_eq : r.depositor = some owner)
    (account_eq : l.state.stability.account owner = some d) (filled : Filled d.snapshot.scale) :
    Saturated l (.request r)

/-- The command is a liquidation that overruns the stability pool. -/
def Overruns (l : Ledger) (c : Command) : Prop :=
  ∃ r liquidator targets w, c = .request r ∧ r.liquidation = some (liquidator, targets) ∧
    l.Swept targets w ∧ l.state.stability.Overruns w.totals.debtOffset w.totals.collOffset

theorem fails_liquidation (hp : stop = .fault → l.params.validate = .ok ()) {r : Request}
    {liquidator : Address} {targets : Targets} (hr : r.liquidation = some (liquidator, targets))
    (h : Fails (l.planOf r) stop) :
    (∃ cause, stop = .refused cause ∧ l.Strained r cause) ∨
      stop = .fault ∧ (l.Overruns (.request r) ∨ l.Saturated (.request r)) := by
  obtain ⟨w, hw, -, ⟨hne, hoffset⟩ | ⟨d, hd, ⟨hne, hstakes⟩, hstop⟩⟩ :=
    (fails_planLiquidation_iff hp).1 ((fails_planOf_liquidation_iff hp hr).1 h)
  · -- the sweep has counted the deposits down, so that they suffice for the whole offset
    obtain hlt | ⟨hstop, hover | hfilled⟩ | ⟨hstop, hexhausts⟩ :=
      StabilityPool.fails_offset hoffset
    · exact absurd hw.debtOffset_le (Nat.not_le_of_lt hlt)
    · exact Or.inr ⟨hstop, Or.inl ⟨r, liquidator, targets, w, rfl, hr, hw, hover⟩⟩
    · exact Or.inr ⟨hstop, Or.inr (.pool hr hfilled)⟩
    · exact Or.inl ⟨_, hstop, .product hr hw hne hexhausts⟩
  · obtain ⟨-, -, -, -, hspread⟩ := settleOffset_frame hd
    rw [hspread] at hstakes
    exact Or.inl ⟨_, hstop, .spread hr hw hne hstakes⟩

/-- **Where a plan fails, the request strains the books, overruns the pool or finds a count
full.** -/
theorem fails_planOf (hp : stop = .fault → l.params.validate = .ok ()) {r : Request}
    (h : Fails (l.planOf r) stop) :
    (∃ cause, stop = .refused cause ∧ l.Strained r cause) ∨
      stop = .fault ∧ (l.Overruns (.request r) ∨ l.Saturated (.request r)) := by
  cases r with
  | openTrove r =>
    obtain ⟨hunstaked, hstop⟩ | ⟨hfilled, hstop⟩ := l.fails_planOpening (fails_map_iff.1 h)
    · exact Or.inl ⟨_, hstop, .stake trivial hunstaked⟩
    · exact Or.inr ⟨hstop, Or.inr (.trove hfilled)⟩
  | adjustTrove r =>
    obtain ⟨hunstaked, hstop⟩ := l.fails_planAdjustment (fails_map_iff.1 h)
    exact Or.inl ⟨_, hstop, .stake trivial hunstaked⟩
  | closeTrove owner => exact absurd (fails_map_iff.1 h) (l.not_fails_planClosing owner)
  | realize owner => exact absurd (fails_map_iff.1 h) (l.not_fails_planRealization owner)
  | liquidate liquidator target => exact fails_liquidation hp rfl h
  | liquidateLowest liquidator most => exact fails_liquidation hp rfl h
  | liquidateListed liquidator targets => exact fails_liquidation hp rfl h
  | redeem r =>
    obtain ⟨hunstaked, hstop⟩ | ⟨price, system, w, hw, hne, hunraised, hstop⟩ :=
      fails_planRedemption hp (fails_map_iff.1 h)
    · exact Or.inl ⟨_, hstop, .stake trivial hunstaked⟩
    · exact Or.inl ⟨_, hstop, .rate hw hne hunraised⟩
  | claim owner => exact absurd (fails_map_iff.1 h) (l.not_fails_planClaim owner)
  | provide owner amount =>
    obtain ⟨hstop, d, hd, hfilled⟩ := l.fails_planDeposit (fails_map_iff.1 h)
    exact Or.inr ⟨hstop, Or.inr (.deposit rfl hd hfilled)⟩
  | withdraw owner amount =>
    obtain ⟨hstop, d, hd, hfilled⟩ := l.fails_planWithdrawal (fails_map_iff.1 h)
    exact Or.inr ⟨hstop, Or.inr (.deposit rfl hd hfilled)⟩

/-! ## Commands -/

theorem fails_answering_iff {α β : Type} {see : α → β} {outcome : Attempt α × Ledger} :
    Fails (answering see outcome).1 stop ↔ Fails outcome.1 stop := fails_map_iff

theorem fails_request_iff {r : Request} :
    Fails (l.obey (.request r)).1 stop ↔ Fails (l.planOf r) stop := by
  rw [obey, fails_answering_iff, execute_eq_perform, fails_perform_iff]

/-- Price, time, base rate and tokens are set or moved without assertions, and only a count of
prices can be full. -/
theorem fails_control {c : Command} (hc : ∀ r, c ≠ .request r) (h : Fails (l.obey c).1 stop) :
    stop = .fault ∧ l.Saturated c := by
  have htime : ∀ now, ¬ Fails (l.setTime now) stop := by simp [setTime]
  cases c with
  | request r => exact absurd rfl (hc r)
  | setPrice price =>
    simp only [obey, fails_answering_iff, fails_settle_iff, setPrice, fails_bind_iff,
      PriceFeed.fails_priced_iff, not_fails_pure, and_false, exists_false, or_false] at h
    obtain ⟨-, hfilled, hstop⟩ := h
    exact ⟨hstop, .price hfilled⟩
  | setTime now => simp [obey, fails_answering_iff, htime] at h
  | advance seconds => simp [obey, fails_answering_iff, advance, htime] at h
  | seedRate rate clock => simp [obey, fails_answering_iff, seedRate] at h
  | transfer source target amount => simp [obey, fails_answering_iff, onToken] at h
  | move m =>
    rw [obey, fails_answering_iff] at h
    exact absurd h (TokenMove.not_fails_apply l.token m)

/-- **Where a command fails,** it is a request that strains the books, or it overruns the pool or
finds a count full. -/
theorem fails_obey (hp : stop = .fault → l.params.validate = .ok ()) {c : Command}
    (h : Fails (l.obey c).1 stop) :
    (∃ r cause, c = .request r ∧ stop = .refused cause ∧ l.Strained r cause) ∨
      stop = .fault ∧ (l.Overruns c ∨ l.Saturated c) := by
  by_cases hc : ∃ r, c = .request r
  · obtain ⟨r, rfl⟩ := hc
    obtain ⟨cause, hstop, hstrained⟩ | hhalts := fails_planOf hp (fails_request_iff.1 h)
    · exact Or.inl ⟨r, cause, rfl, hstop, hstrained⟩
    · exact Or.inr hhalts
  · obtain ⟨hstop, hfull⟩ := fails_control (fun r hr => hc ⟨r, hr⟩) h
    exact Or.inr ⟨hstop, Or.inr hfull⟩

theorem Overruns.fails (hp : l.params.validate = .ok ()) {c : Command} (h : l.Overruns c) :
    Fails (l.obey c).1 .fault := by
  obtain ⟨r, liquidator, targets, w, rfl, hr, hw, hover⟩ := h
  rw [fails_request_iff, fails_planOf_liquidation_iff (fun _ => hp) hr,
    fails_planLiquidation_iff fun _ => hp]
  exact ⟨w, hw, hw.isEmpty_eq hover.debt_ne, Or.inl ⟨hover.debt_ne, hover.fails_offset⟩⟩

end Ledger

end Stablecoin
