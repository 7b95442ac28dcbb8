/-
  Stablecoin theory — the verification of a state never fails.

  `State.verify` compares totals with records: the count of active troves, the sum
  of their stakes, the sum of the surpluses, and the bound of the base rate.  The
  totals are moved along by each operation and never recomputed.

  * `State.Tallied`: count and surpluses are exact, and the rate is within its
    bound; each change of a trove keeps this (`Tallied.enter` and its likes), so
    that every plan does (`Ledger.planOf_tallied`).  The stakes are those of
    `State.Covered`;
  * `State.verify_eq_ok_iff` says what verification checks, and its own sums are
    exact as well (`sumStakes_eq_ok_iff`, `Surplus.Exact.isConsistent`);
  * `Ledger.verified`: in every run verification succeeds.
-/
import Stablecoin.Proofs.DefaultPool

namespace Stablecoin

/-! ## Surpluses -/

/-- The sum of the surpluses is exact. -/
def Surplus.Exact (s : Surplus) : Prop := s.total.val = s.claims.sum Amount.val

namespace Surplus

variable {s s' : Surplus} {owner : Address} {amount : Amount}

theorem part_claims (s : Surplus) (owner : Address) :
    s.claims.part Amount.val owner = (s.claimable owner).val := by
  unfold Table.part claimable
  cases s.claims.get? owner <;> rfl

theorem Exact.creditedLeft (h : s.Exact) (hs : s.creditedLeft owner amount = .ok s') :
    s'.Exact := by
  unfold Surplus.creditedLeft at hs
  split at hs
  · cases hs
    exact h
  obtain ⟨htotal, claim, hclaim, hclaims⟩ := credited_eq_ok_iff.1 hs
  have hsum := Table.sum_insert Amount.val s.claims owner claim
  rw [part_claims] at hsum
  rw [Amount.add_eq_ok_iff] at hclaim
  unfold Exact at h ⊢
  rw [hclaims]
  omega

theorem Exact.paidOut (h : s.Exact) (hs : s.paidOut owner = .ok (amount, s')) : s'.Exact := by
  obtain ⟨rfl, -, htotal, hclaims⟩ := paidOut_eq_ok_iff.1 hs
  have hsum := Table.sum_erase Amount.val s.claims owner
  rw [part_claims] at hsum
  unfold Exact at h ⊢
  rw [hclaims]
  omega

theorem Exact.isConsistent (h : s.Exact) : s.isConsistent = true :=
  decide_eq_true (Amount.foldl_addClamped_eq h)

end Surplus

namespace State

variable {s s₁ s' : State} {owner : Address} {status : TroveStatus} {coll debt stake : Amount}
  {share : PendingShare}

/-! ## Verification -/

theorem foldlM_stakes_eq_ok_iff {troves : List Trove} {first total : Amount} :
    troves.foldlM (fun sum t => sum.add t.stake) first = .ok total ↔
      total.val = first.val + (troves.map fun t => t.stake.val).sum := by
  induction troves generalizing first with
  | nil =>
    rw [List.foldlM_nil, pure_eq_ok_iff, List.map_nil, List.sum_nil, Nat.add_zero, eq_comm,
      Amount.val_inj]
  | cons t rest ih =>
    simp only [List.foldlM_cons, bind_eq_ok_iff, Amount.add_eq_ok_iff, ih, List.map_cons,
      List.sum_cons]
    constructor
    · rintro ⟨middle, hmiddle, htotal⟩
      omega
    · intro htotal
      have hlt := total.val_lt
      obtain ⟨middle, hmiddle⟩ := Amount.exists_val_eq (n := first.val + t.stake.val) (by omega)
      exact ⟨middle, hmiddle, by omega⟩

/-- The sum of stakes that verification takes is exact. -/
theorem sumStakes_eq_ok_iff {troves : List Trove} {total : Amount} :
    sumStakes troves = .ok total ↔ total.val = (troves.map fun t => t.stake.val).sum := by
  rw [sumStakes, foldlM_stakes_eq_ok_iff, Amount.val_zero, Nat.zero_add]

/-- What verification checks. -/
theorem verify_eq_ok_iff : s.verify = .ok () ↔
    s.activeTroves.length = s.activeCount.toNat ∧
      s.spread.totalStakes.val = (s.activeTroves.map fun t => t.stake.val).sum ∧
      s.pools.surplus.isConsistent = true ∧ s.baseRate.rate ≤ Amount.unit := by
  simp only [verify, bind_eq_ok_iff, sumStakes_eq_ok_iff]
  constructor
  · rintro ⟨_, hcount, stakes, hstakes, _, hsame, _, hsurplus, hrate⟩
    rw [demand_eq_ok_iff] at hcount hsame hsurplus hrate
    exact ⟨hcount, hsame ▸ hstakes, hsurplus, hrate⟩
  · rintro ⟨hcount, hstakes, hsurplus, hrate⟩
    exact ⟨(), demand_eq_ok_iff.2 hcount, _, hstakes, (), demand_eq_ok_iff.2 rfl, (),
      demand_eq_ok_iff.2 hsurplus, demand_eq_ok_iff.2 hrate⟩

/-! ## Tallies -/

/-- Count and surpluses are exact, and the base rate is at one hundred percent or below. -/
structure Tallied (s : State) : Prop where
  count_eq : s.activeCount.toNat = s.activeTroves.length
  surplus_exact : s.pools.surplus.Exact
  rate_le : s.baseRate.rate ≤ Amount.unit

namespace Tallied

theorem enter (ht : s.Tallied) (ho : s.openTrove owner coll debt = .ok s₁)
    (hs : s₁.restake owner = .ok (stake, s')) : s'.Tallied := by
  have hlength := (Replaced.enter ho hs).length_eq
  obtain ⟨-, count, hcount, rfl⟩ := openTrove_eq_ok_iff.1 ho
  obtain ⟨_, _, -, -, -, rfl⟩ := restake_eq_ok_iff.1 hs
  refine ⟨?_, ht.surplus_exact, ht.rate_le⟩
  have heq := ht.count_eq
  rw [nextCount_eq_ok_iff] at hcount
  simp only [Option.elim_none, Option.elim_some, Nat.add_zero] at hlength
  rw [hlength, ← heq]
  exact hcount

theorem rewrite (ht : s.Tallied) (ha : s.amend owner coll debt = .ok s₁)
    (hs : s₁.restake owner = .ok (stake, s')) : s'.Tallied := by
  obtain ⟨t, hreplaced⟩ := Replaced.rewrite ha hs
  have hlength := Nat.add_right_cancel hreplaced.length_eq
  obtain ⟨_, -, rfl⟩ := amend_eq_ok_iff.1 ha
  obtain ⟨_, _, -, -, -, rfl⟩ := restake_eq_ok_iff.1 hs
  exact ⟨ht.count_eq.trans hlength.symm, ht.surplus_exact, ht.rate_le⟩

theorem leave (ht : s.Tallied) (hu : s.unstake owner = .ok s₁)
    (hc : s₁.closeTrove owner status = .ok s') : s'.Tallied := by
  obtain ⟨t, hreplaced⟩ := Replaced.leave hu hc
  have hlength := hreplaced.length_eq
  obtain ⟨_, _, -, -, rfl⟩ := unstake_eq_ok_iff.1 hu
  obtain ⟨-, _, -, hlast, hs'⟩ := closeTrove_eq_ok_iff.1 hc
  have hcount : s'.activeCount.toNat = s.activeCount.toNat - 1 := by
    rw [hs']
    exact UInt64.toNat_sub_of_le _ _ (Nat.le_of_lt hlast)
  have hone : 1 < s.activeCount.toNat := hlast
  have heq := ht.count_eq
  simp only [Option.elim_none, Option.elim_some, Nat.add_zero] at hlength
  refine ⟨by omega, ?_, ?_⟩
  · rw [hs']
    exact ht.surplus_exact
  · rw [hs']
    exact ht.rate_le

theorem realize (ht : s.Tallied) (h : s.realize owner = .ok (share, s')) : s'.Tallied := by
  obtain ⟨t, t', hr⟩ := exists_realization h
  have hlength := Nat.add_right_cancel hr.replaced.length_eq
  have hcount := ht.count_eq.trans hlength.symm
  obtain ⟨_, -, ⟨_, _, pools, -, -, -, -, hpools, rfl⟩ | ⟨-, -, rfl⟩⟩ := realize_cases h
  · obtain ⟨-, -, hsurplus, -⟩ := Pools.realized_eq_ok_iff.1 hpools
    refine ⟨hcount, ?_, ht.rate_le⟩
    show pools.surplus.Exact
    rw [hsurplus]
    exact ht.surplus_exact
  · exact ht

theorem release (ht : s.Tallied) (h : s.release share = .ok s') : s'.Tallied := by
  obtain ⟨pools, hpools, rfl⟩ := release_eq_ok_iff.1 h
  obtain ⟨-, -, hsurplus, -⟩ := Pools.realized_eq_ok_iff.1 hpools
  refine ⟨ht.count_eq, ?_, ht.rate_le⟩
  show pools.surplus.Exact
  rw [hsurplus]
  exact ht.surplus_exact

/-- Nothing that is tallied is reached. -/
theorem congr (ht : s.Tallied) (htroves : s'.troves = s.troves)
    (hcount : s'.activeCount = s.activeCount) (hsurplus : s'.pools.surplus = s.pools.surplus)
    (hrate : s'.baseRate = s.baseRate) : s'.Tallied := by
  refine ⟨?_, ?_, ?_⟩
  · rw [hcount, activeTroves, htroves]
    exact ht.count_eq
  · rw [hsurplus]
    exact ht.surplus_exact
  · rw [hrate]
    exact ht.rate_le

end Tallied

end State

namespace Ledger

variable {l : Ledger}

/-! ## Plans -/

/-- Charging a fee keeps the base rate within its bound. -/
theorem chargeFeeIf_tallied {due : Bool} {d d' : Draft} {owner : Address}
    {amount limit fee : Amount} (h : chargeFeeIf due l d owner amount limit = .ok (fee, d'))
    (hd : d.state.Tallied) : d'.state.Tallied := by
  unfold chargeFeeIf at h
  split at h
  · obtain ⟨quote, hquote, -, hstate, -⟩ := chargeFee_ok h
    rw [hstate]
    exact ⟨hd.count_eq, hd.surplus_exact, BaseRate.quoteBorrowing_le hquote⟩
  · cases h
    exact hd

theorem SweepStep.tallied {price : Amount} {listed : Bool} {w w' : Sweep}
    (step : SweepStep l price listed w w') (hw : w.draft.state.Tallied) :
    w'.draft.state.Tallied := by
  obtain ⟨released, unstaked, closed, surplus, hr, hu, hc, hs, hstate, -⟩ :=
    seize_ok step.draft_eq
  have hclosed := (hw.release hr).leave hu hc
  rw [hstate]
  exact ⟨hclosed.count_eq, hclosed.surplus_exact.creditedLeft hs, hclosed.rate_le⟩

theorem Liquidation.tallied {liquidator : Address} {targets : Targets} {plan : Plan Liquidated}
    (q : Liquidation l liquidator targets plan) (hl : l.state.Tallied) :
    plan.draft.state.Tallied := by
  have hswept : q.swept.draft.state.Tallied :=
    sweep_keeps q.swept_eq (fun _ _ step hu => step.tallied hu) hl
  have hs := q.settled
  exact hswept.congr hs.troves_eq hs.count_eq hs.surplus_eq hs.rate_eq

theorem DrawStep.tallied {r : RedeemRequest} {price : Amount} {w w' : Drawing}
    (step : DrawStep l r price w w') (hw : w.draft.state.Tallied) : w'.draft.state.Tallied := by
  have hrealized := hw.realize step.realized_eq
  obtain ⟨_, _, _, _, -, -, -, -, -, -, ⟨-, hclosed⟩ | ⟨-, hpart⟩⟩ := redeemFrom_ok step.drawn_eq
  · obtain ⟨unstaked, closed, active, surplus, hu, hc, -, hs, hstate, -⟩ :=
      closeRedeemed_ok hclosed
    have hclosed := hrealized.leave hu hc
    rw [hstate]
    exact ⟨hclosed.count_eq, hclosed.surplus_exact.creditedLeft hs, hclosed.rate_le⟩
  · obtain ⟨amended, stake, _, ha, hs, -⟩ := redeemPart_ok hpart
    exact hrealized.rewrite ha hs

theorem draw_tallied {r : RedeemRequest} {price : Amount} {w w' : Drawing} {owners : List Address}
    (h : l.draw r price w owners = .ok w') (hw : w.draft.state.Tallied) :
    w'.draft.state.Tallied :=
  draw_keeps h (fun _ _ step hu => step.tallied hu) (fun _ _ _ _ hs hu => hu.realize hs) hw

/-- **Every plan keeps count, surpluses and the bound of the base rate.** -/
theorem planOf_tallied (hl : l.state.Tallied) {r : Request} {plan : Plan Answer}
    (h : l.planOf r = .ok plan) : plan.draft.state.Tallied := by
  cases planned_of_planOf h with
  | opened steps =>
    have hcharged := chargeFeeIf_tallied steps.charged_eq hl
    have hstaked := hcharged.enter steps.opened_eq steps.staked_eq
    simp only [Plan.draft_seen, steps.draft_eq, Draft.state_reportingStakes,
      Draft.state_reportingTrove, Draft.state_moving, Draft.state_ranking, Draft.state_withState]
    exact hstaked.congr rfl rfl rfl rfl
  | adjusted steps =>
    have hcharged := chargeFeeIf_tallied steps.charged_eq (hl.realize steps.realized_eq)
    have hstaked := hcharged.rewrite steps.amended_eq steps.staked_eq
    simp only [Plan.draft_seen, steps.draft_eq, Draft.state_reportingStakes,
      Draft.state_reportingTrove, Draft.state_moving, Draft.state_ranking, Draft.state_withState]
    exact hstaked.congr rfl rfl rfl rfl
  | closed steps =>
    have hclosed := (hl.realize steps.realized_eq).leave steps.unstaked_eq steps.closed_eq
    simp only [Plan.draft_seen, steps.draft_eq, Draft.state_reportingStakes,
      Draft.state_reportingTrove, Draft.state_moving, Draft.state_ranking, Draft.state_start]
    exact hclosed.congr rfl rfl rfl rfl
  | realized state_eq => exact hl.realize state_eq
  | liquidated _ steps => exact steps.tallied hl
  | redeemed steps =>
    have hwalked := draw_tallied steps.walked_eq hl
    rw [Plan.draft_seen, steps.state_eq]
    exact ⟨hwalked.count_eq, hwalked.surplus_exact, BaseRate.quoteRedemption_le steps.quote_eq⟩
  | claimed paid_eq state_eq =>
    rw [Plan.draft_seen, state_eq]
    exact ⟨hl.count_eq, hl.surplus_exact.paidOut paid_eq, hl.rate_le⟩
  | deposited _ state_eq =>
    rw [Plan.draft_seen, state_eq]
    exact hl.congr rfl rfl rfl rfl
  | withdrawn _ _ state_eq =>
    rw [Plan.draft_seen, state_eq]
    exact hl.congr rfl rfl rfl rfl

/-! ## Runs -/

theorem after_tallied {params : Parameters} {accounts : ProtocolAccounts} {feed : PriceFeed}
    {token : TokenBook} {ranking : Ranking} (h : new params accounts feed token ranking = .ok l)
    (commands : List Command) :
    (l.after commands).state.Tallied := by
  refine after_state (fun _ _ _ hl => planOf_tallied hl) ?_ ?_ commands
  · intro s now rate hrate hs
    refine ⟨hs.count_eq, hs.surplus_exact, ?_⟩
    obtain rfl | hle := hrate
    · exact hs.rate_le
    · exact hle
  · rw [new_eq h]
    exact ⟨rfl, rfl, Nat.zero_le _⟩

/-- **Verification never fails:** in every run of a new ledger, the count is that of the active
troves, the sum of stakes is exact, so is the sum of surpluses, the base rate is at one hundred
percent or below, and verification succeeds. -/
theorem verified {params : Parameters} {accounts : ProtocolAccounts} {feed : PriceFeed}
    {token : TokenBook} {ranking : Ranking} (h : new params accounts feed token ranking = .ok l)
    (commands : List Command) :
    (l.after commands).state.verify = .ok () ∧
      (l.after commands).state.activeCount.toNat = (l.after commands).state.activeTroves.length ∧
      (l.after commands).state.spread.totalStakes.val =
        ((l.after commands).state.activeTroves.map fun t => t.stake.val).sum ∧
      (l.after commands).state.pools.surplus.total.val =
        (l.after commands).state.pools.surplus.claims.sum Amount.val ∧
      (l.after commands).state.baseRate.rate ≤ Amount.unit := by
  have htallied := after_tallied h commands
  have hstakes := (after_covered h commands).stakes_eq
  refine ⟨?_, htallied.count_eq, hstakes, htallied.surplus_exact, htallied.rate_le⟩
  exact State.verify_eq_ok_iff.2
    ⟨htallied.count_eq.symm, hstakes, htallied.surplus_exact.isConsistent, htallied.rate_le⟩

/-- One trove, a surplus and a base rate are left. -/
theorem verified_firstRedemption : ∃ l, starting .standard twoThousand = .ok l ∧
    (l.after firstRedemption).state.activeCount = 1 ∧
    (l.after firstRedemption).state.spread.totalStakes.val = 10_000_000_000_000_000_000 ∧
    (l.after firstRedemption).state.pools.surplus.total.val = 1_995_000_000_000_000_000 ∧
    0 < (l.after firstRedemption).state.baseRate.rate ∧
    (l.after firstRedemption).state.verify = .ok () := by
  obtain ⟨l, h⟩ : ∃ l, starting .standard twoThousand = .ok l := ⟨_, starting_standard _⟩
  obtain ⟨hcount, hstakes, hsurplus, hrate⟩ : (l.after firstRedemption).state.activeCount = 1 ∧
      (l.after firstRedemption).state.spread.totalStakes.val = 10_000_000_000_000_000_000 ∧
      (l.after firstRedemption).state.pools.surplus.total.val = 1_995_000_000_000_000_000 ∧
      0 < (l.after firstRedemption).state.baseRate.rate := by
    rw [starting_eq h]
    decide +kernel
  exact ⟨l, h, hcount, hstakes, hsurplus, hrate, (verified h _).1⟩

end Ledger

end Stablecoin
