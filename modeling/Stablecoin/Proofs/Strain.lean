/-
  Stablecoin theory — requests that strain the books.

  Assertions about the books are meant to fail on a mistake in the accounting only.
  There are four ways in which they fail on a request that has nothing wrong with it
  (`Ledger.Strained`): no stakes can be given, the base rate stays at zero, the product
  is used up, or nobody with a stake is left.

  * `Ledger.breaks_only_strained`: no command breaks anything but a request that
    strains the books, and such a request is refused, with one exception.
  * `Ledger.assertions_reached`: all four ways are open on the standard parameters.
-/
import Stablecoin.Proofs.PlanFailures
import Stablecoin.Proofs.RankFollowing

namespace Stablecoin

namespace Ledger

variable {l : Ledger} {cause : Refusal}

/-! ## What is carried out -/

theorem Walked.unique {r : RedeemRequest} {price price' : Amount} {system system' : SystemRatio}
    {w w' : Drawing} (h : l.Walked r price system w) (h' : l.Walked r price' system' w') :
    price' = price ∧ system' = system ∧ w' = w := by
  obtain ⟨hprice, hsystem, walk, hwalk, hw⟩ := h
  obtain ⟨hprice', hsystem', walk', hwalk', hw'⟩ := h'
  obtain rfl := Except.ok.inj (hprice'.symm.trans hprice)
  obtain rfl := Except.ok.inj (hsystem'.symm.trans hsystem)
  obtain rfl := Except.ok.inj (hwalk'.symm.trans hwalk)
  exact ⟨rfl, rfl, Except.ok.inj (hw'.symm.trans hw)⟩

theorem Swept.unique {targets : Targets} {w w' : Sweep} (h : l.Swept targets w)
    (h' : l.Swept targets w') : w' = w := by
  obtain ⟨price, system, hprice, hsystem, hw⟩ := h
  obtain ⟨price', system', hprice', hsystem', hw'⟩ := h'
  obtain rfl := Except.ok.inj (hprice'.symm.trans hprice)
  obtain rfl := Except.ok.inj (hsystem'.symm.trans hsystem)
  exact Except.ok.inj (hw'.symm.trans hw)

theorem Opening.not_unstaked {r : OpenRequest} {plan : Plan Opened} (o : Opening l r plan) :
    ¬ l.state.spread.Unstaked := by
  obtain ⟨⟨rate, hrate⟩, -⟩ := chargeFeeIf_ok o.charged_eq
  obtain ⟨-, _, -, hopened⟩ := State.openTrove_eq_ok_iff.1 o.opened_eq
  intro h
  refine State.restake_ne_ok ?_ _ _ o.staked_eq
  rw [hopened, hrate]
  exact h

theorem Adjustment.not_unstaked {r : AdjustRequest} {plan : Plan Adjusted}
    (a : Adjustment l r plan) : ¬ l.state.spread.Unstaked := by
  obtain ⟨_, _, hr⟩ := State.exists_realization a.realized_eq
  obtain ⟨⟨rate, hrate⟩, -⟩ := chargeFeeIf_ok a.charged_eq
  obtain ⟨_, -, hamended⟩ := State.amend_eq_ok_iff.1 a.amended_eq
  intro h
  refine State.restake_ne_ok ?_ _ _ a.staked_eq
  rw [hamended, hrate]
  exact hr.sums_eq ▸ h

/-- Where no stakes can be given, a redemption that is carried out leaves no trove with less. -/
theorem Redemption.onlyRemoves {r : RedeemRequest} {plan : Plan Redeemed}
    (q : Redemption l r plan) (h : l.state.spread.Unstaked) :
    State.OnlyRemoves plan.draft.changes := by
  have hwalked : q.walked.draft.state.spread.Unstaked ∧
      State.OnlyRemoves q.walked.draft.changes := by
    refine draw_keeps q.walked_eq ?_ ?_ ⟨h, nofun⟩
    · rintro u v step ⟨hu, honly⟩
      refine ⟨step.unstaked_iff.2 hu, ?_⟩
      obtain ⟨_, _, hr⟩ := State.exists_realization step.realized_eq
      obtain ⟨_, _, _, _, -, -, -, -, -, -, ⟨-, hclosed⟩ | ⟨-, hpart⟩⟩ :=
        redeemFrom_ok step.drawn_eq
      · obtain ⟨_, _, _, _, -, -, -, -, -, -, hchanges⟩ := closeRedeemed_ok hclosed
        exact hchanges ▸ honly.append rfl
      · obtain ⟨_, _, _, ha, hs, -⟩ := redeemPart_ok hpart
        obtain ⟨_, -, hamended⟩ := State.amend_eq_ok_iff.1 ha
        refine absurd hs (State.restake_ne_ok ?_ _ _)
        rw [hamended]
        exact hr.sums_eq ▸ hu
    · rintro u owner share s hs ⟨hu, honly⟩
      obtain ⟨_, _, hr⟩ := State.exists_realization hs
      exact ⟨hr.sums_eq ▸ hu, honly⟩
  rw [q.changes_eq]
  exact hwalked.2

/-- A redemption that is carried out raises the base rate above zero. -/
theorem Walked.raised {r : RedeemRequest} {plan : Plan Redeemed} {price : Amount}
    {system : SystemRatio} {w : Drawing} (hw : l.Walked r price system w)
    (h : l.planRedemption r = .ok plan) :
    ¬ w.draft.state.baseRate.Unraised l.params w.draft.state.now w.drawn price system.debt := by
  simp only [planRedemption, bind_eq_ok_iff] at h
  obtain ⟨_, -, price', hprice, system', hsystem, _, -, _, -, _, -, walk, hwalk, w', hdraw, _, -,
    quote, hquote, -⟩ := h
  obtain ⟨rfl, rfl, rfl⟩ := hw.unique ⟨hprice, hsystem, walk, hwalk, hdraw⟩
  intro hunraised
  exact ((BaseRate.fails_quoteRedemption_iff (by simp)).2 ⟨hunraised, rfl⟩).ne_ok quote hquote

theorem Liquidation.swept_spec {liquidator : Address} {targets : Targets} {plan : Plan Liquidated}
    (q : Liquidation l liquidator targets plan) : l.Swept targets q.swept :=
  ⟨q.price, q.system, q.price_eq, q.system_eq, q.swept_eq⟩

/-- A liquidation that is carried out leaves a product that can be written. -/
theorem Liquidation.not_exhausts {liquidator : Address} {targets : Targets}
    {plan : Plan Liquidated} (q : Liquidation l liquidator targets plan)
    (hne : q.swept.totals.debtOffset ≠ 0) :
    ¬ l.state.stability.Exhausts q.swept.totals.debtOffset := by
  obtain ⟨-, -, hpool, -⟩ := sweep_books q.swept_eq
  obtain ⟨h0, -⟩ | ⟨-, _, _, hoffset, -⟩ := settleOffset_cases q.offset_eq
  · exact absurd h0 hne
  have hready := q.ready hne
  rw [hpool, Draft.state_start] at hoffset hready
  exact fun hexhausts => hexhausts.offset_ne_ok hready hne _ hoffset

/-- A liquidation that is carried out leaves somebody to take what is spread. -/
theorem Liquidation.stakes_ne {liquidator : Address} {targets : Targets} {plan : Plan Liquidated}
    (q : Liquidation l liquidator targets plan) (hne : q.swept.totals.debtSpread ≠ 0) :
    q.swept.draft.state.spread.totalStakes ≠ 0 := by
  obtain ⟨-, -, -, -, hspread⟩ := settleOffset_frame q.offset_eq
  obtain ⟨h0, -⟩ | ⟨-, hredistribute, -⟩ := settleSpread_cases q.spread_eq
  · exact absurd h0 hne
  rw [← hspread]
  exact fun h0 => (State.fails_redistribute_iff.2 ⟨⟨hne, h0⟩, rfl⟩).ne_ok _ hredistribute

/-- **Only a redemption can strain the books and be carried out:** where no stakes can be given, and
then it does nothing but close troves. -/
theorem Strained.carried {r : Request} {plan : Plan Answer} (h : l.Strained r cause)
    (hplan : l.planOf r = .ok plan) :
    (∃ q, r = .redeem q) ∧ l.state.spread.Unstaked ∧ State.OnlyRemoves plan.draft.changes := by
  cases h with
  | stake restakes unstaked =>
    cases planned_of_planOf hplan with
    | opened steps => exact absurd unstaked steps.not_unstaked
    | adjusted steps => exact absurd unstaked steps.not_unstaked
    | redeemed steps => exact ⟨⟨_, rfl⟩, unstaked, steps.onlyRemoves unstaked⟩
    | liquidated request_eq _ => cases r <;> first | exact restakes.elim | cases request_eq
    | _ => exact restakes.elim
  | rate walked _ unraised =>
    obtain ⟨_, hp, -⟩ := map_eq_ok_iff.1 hplan
    exact absurd unraised (walked.raised hp)
  | product request_eq swept debt_ne exhausts =>
    cases planned_of_planOf hplan with
    | liquidated request_eq' q =>
      cases request_eq.symm.trans request_eq'
      obtain rfl := swept.unique q.swept_spec
      exact absurd exhausts (q.not_exhausts debt_ne)
    | _ => cases request_eq
  | spread request_eq swept debt_ne stakes_eq =>
    cases planned_of_planOf hplan with
    | liquidated request_eq' q =>
      cases request_eq.symm.trans request_eq'
      obtain rfl := swept.unique q.swept_spec
      exact absurd stakes_eq (q.stakes_ne debt_ne)
    | _ => cases request_eq

/-! ## Commands -/

/-- **No command breaks anything but a request that strains the books.**  And such a request is
refused, unless it is a redemption that does nothing but close troves. -/
theorem breaks_only_strained (l : Ledger) :
    (∀ c cause, Breaks (l.obey c).1 cause → ∃ r, c = .request r ∧ l.Strained r cause) ∧
      ∀ r cause answer, l.Strained r cause → (l.obey (.request r)).1 = .ok answer →
        (∃ q, r = .redeem q) ∧ l.state.spread.Unstaked ∧
          ∃ plan, l.planOf r = .ok plan ∧ State.OnlyRemoves plan.draft.changes := by
  constructor
  · intro c cause h
    obtain ⟨r, _, hc, ⟨⟩, hstrained⟩ | ⟨⟨⟩, -⟩ := fails_obey (by simp) (breaks_iff_fails.1 h)
    exact ⟨r, hc, hstrained⟩
  · intro r cause answer h hanswer
    obtain ⟨plan, hplan, -⟩ | ⟨_, hstop, -⟩ := obey_request_cases (l := l) r
    · obtain ⟨hredeem, hunstaked, honly⟩ := h.carried hplan
      exact ⟨hredeem, hunstaked, plan, hplan, honly⟩
    · cases hanswer.symm.trans hstop

/-! ## Runs that strain the books -/

/-- Users by number. -/
def user (n : UInt64) : Address := ⟨n.toNat, Nat.lt_trans n.toNat_lt (by decide)⟩

/-- So many tokens are borrowed against the smallest amounts of collateral. -/
def fineOpening (owner : Address) (coll debt : UInt64) : Command :=
  .request (.openTrove ⟨owner, .ofWord coll, .whole debt, Amount.unit, .none⟩)

/-- A price at which one of the smallest amounts is worth a thousand tokens. -/
def finePrice : Amount := ⟨1_000_000_000_000_000_000_000_000_000_000_000_000_000, by decide⟩

/-- A large trove is spread over a small one, and a third gets a stake that is rounded down to
zero. -/
def roundedStake : List Command := [
  fineOpening (user 2) 1000 2000, fineOpening (user 3) 10_000_000 50_000_000,
  .setPrice (.whole 5_000_000_000_000_000_000), .request (.liquidate (user 4) (user 3)),
  .setPrice finePrice, fineOpening (user 5) 9000 400_000]

/-- A fourth trove gets no stake either.  Then the first is liquidated against deposits, and no
stakes are left to be noted. -/
def noStakes : List Command := roundedStake ++ [
  fineOpening (user 6) 4000 300_000, .transfer (user 6) (user 3) (.whole 300_000),
  .request (.provide (user 3) (.whole 50_300_000)), .setPrice (.whole 5_100_000_000_000_000_000),
  .request (.liquidate (user 4) (user 2)), .setPrice finePrice]

/-- Two of three troves are liquidated against deposits that hardly suffice. -/
def nearlyAll : List Command := [
  opening (user 2) 10_000 100_000, opening (user 3) 3 2000, opening (user 5) 3 2000,
  opening (user 6) 3 2000, .setPrice (.whole 800),
  .request (.provide (user 2) ⟨2_210_000_000_000_000_003_000, by decide⟩),
  .request (.liquidate (user 4) (user 3)), .request (.provide (user 2) (.whole 2210)),
  .request (.liquidate (user 4) (user 5)), .request (.provide (user 2) (.whole 2210))]

/-- The owner of a trove adds a hundred of the smallest amounts of collateral. -/
def fineTopUp (owner : Address) : Request :=
  .adjustTrove ⟨owner, 0, .ofWord 100, 0, false, Amount.unit, .none⟩

/-- Tokens are redeemed, from any trove and at any fee. -/
def redeeming (redeemer : Address) (amount : Amount) : Request :=
  .redeem ⟨redeemer, amount, none, none, .none, 0, Amount.unit⟩

/-- A command breaks after commands of which none was refused. -/
def BreaksAfter (price : Amount) (commands : List Command) (c : Command) (cause : Refusal) : Prop :=
  ∃ start, starting .standard price = .ok start ∧ start.Accepted commands ∧
    Breaks ((start.after commands).obey c).1 cause

theorem breaksAfter_of_run {price : Amount} {commands : List Command} {c : Command}
    {cause : Refusal} (start : Ledger) (h : starting .standard price = .ok start)
    (hrun : start.Accepted commands ∧ ((start.after commands).obey c).1 = refuse cause)
    (hcause : cause.isBreakage = true) : BreaksAfter price commands c cause :=
  ⟨start, h, hrun.1, hrun.2, hcause⟩

/-- Where no stakes are left, nobody can add to a trove; but one can be redeemed as a whole. -/
theorem breaks_only_strained_noStakes : ∃ start cause answer plan,
    starting .standard (.whole 10_000_000_000_000_000_000) = .ok start ∧
    start.Accepted noStakes ∧
    Breaks ((start.after noStakes).obey (.request (fineTopUp (user 6)))).1 cause ∧
    (start.after noStakes).Strained (fineTopUp (user 6)) cause ∧
    ((start.after noStakes).obey (.request (redeeming (user 5) (.whole 301_500)))).1 = .ok answer ∧
    (start.after noStakes).planOf (redeeming (user 5) (.whole 301_500)) = .ok plan ∧
    State.OnlyRemoves plan.draft.changes := by
  obtain ⟨start, h⟩ : ∃ start, starting .standard (.whole 10_000_000_000_000_000_000) = .ok start :=
    ⟨_, starting_standard _⟩
  have hrun : start.Accepted noStakes ∧
      ((start.after noStakes).obey (.request (fineTopUp (user 6)))).1 = refuse .noStakesNoted ∧
      (start.after noStakes).state.spread.collSnapshot ≠ 0 ∧
      (start.after noStakes).state.spread.stakesSnapshot = 0 ∧
      ∃ answer, ((start.after noStakes).obey
        (.request (redeeming (user 5) (.whole 301_500)))).1 = .ok answer := by
    rw [starting_eq h]
    decide +kernel
  obtain ⟨hok, hbroken, hcoll, hstakes, answer, hanswer⟩ := hrun
  have hbreaks : Breaks ((start.after noStakes).obey (.request (fineTopUp (user 6)))).1
      .noStakesNoted := ⟨hbroken, rfl⟩
  have hredeeming : (start.after noStakes).Strained (redeeming (user 5) (.whole 301_500))
      .noStakesNoted := .stake trivial ⟨hcoll, hstakes⟩
  obtain ⟨honly, hcarried⟩ := breaks_only_strained (start.after noStakes)
  obtain ⟨_, ⟨⟩, hstrained⟩ := honly _ _ hbreaks
  obtain ⟨-, -, plan, hplan, hremoves⟩ := hcarried _ _ answer hredeeming hanswer
  exact ⟨start, _, answer, plan, h, hok, hbreaks, hstrained, hanswer, hplan, hremoves⟩

/-- **Each assertion is reached** by commands of which none before was refused: one where a stake
is asked for, one where a few tokens are redeemed at the very beginning, one where nearly all
deposits are used up for the third time, and one where the last trove with a stake is spread. -/
theorem assertions_reached :
    BreaksAfter (.whole 10_000_000_000_000_000_000) noStakes (.request (fineTopUp (user 6)))
        .noStakesNoted ∧
      BreaksAfter twoThousand [opening (user 2) 10 5000]
        (.request (redeeming (user 2) (.ofWord 2000))) .rateAtZero ∧
      BreaksAfter twoThousand nearlyAll (.request (.liquidate (user 4) (user 6))) .productAtZero ∧
      BreaksAfter (.whole 10_000_000_000_000_000_000)
        (roundedStake ++ [.setPrice (.whole 5_100_000_000_000_000_000)])
        (.request (.liquidate (user 4) (user 2))) .nobodyStaked := by
  refine ⟨?stake, ?rate, ?product, ?spread⟩
  case stake => exact breaksAfter_of_run _ (starting_standard _) (by decide +kernel) rfl
  case rate => exact breaksAfter_of_run _ (starting_standard _) (by decide +kernel) rfl
  case product => exact breaksAfter_of_run _ (starting_standard _) (by decide +kernel) rfl
  case spread => exact breaksAfter_of_run _ (starting_standard _) (by decide +kernel) rfl

end Ledger

end Stablecoin
