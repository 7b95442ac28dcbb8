/-
  Stablecoin theory — stakes never exceed collateral.

  A stake is the collateral of its trove, corrected by stakes over collateral as of
  the latest liquidation.  So it is at most the collateral, as long as the stakes
  that were noted then are at most the collateral that was noted.  These in turn
  are the stakes and the collateral of all troves at that time.  Hence the two
  bounds are proved together (`State.Staked`).

  * `Redistribution.stakeFor_le` and `State.Covered.stakes_le_coll` are the two
    directions of the argument; the second one needs that the active pool holds
    what is recorded, and that the stakes add up to their total;
  * `Ledger.Liquidation.noted`: what is noted is what the liquidation leaves,
    although the reward of the liquidator is still in the active pool then;
  * `Ledger.stakes_bounded`: both bounds hold in every run.
-/
import Stablecoin.Proofs.ActivePool
import Stablecoin.Proofs.DefaultPool

namespace Stablecoin

/-- A stake is at most the collateral that it is given for. -/
theorem Redistribution.stakeFor_le {r : Redistribution} {coll stake : Amount}
    (h : r.stakeFor coll = .ok stake) (hr : r.stakesSnapshot ≤ r.collSnapshot) : stake ≤ coll := by
  rw [Amount.le_iff_val_le] at hr ⊢
  unfold stakeFor at h
  split at h
  · cases h
    exact Nat.le_refl _
  · simp only [bind_eq_ok_iff, Amount.mulDiv_eq_ok_iff] at h
    obtain ⟨_, -, -, hstake⟩ := h
    rw [hstake]
    refine Nat.div_le_of_le_mul ?_
    rw [Nat.mul_comm]
    exact Nat.mul_le_mul_right _ hr

namespace State

variable {s s₁ s' : State} {owner : Address} {t : Trove} {old new : Option Trove}
  {coll debt stake : Amount} {share : PendingShare} {status : TroveStatus}

/-- No active trove has more stake than collateral, and no more stakes were noted than
collateral. -/
structure Staked (s : State) : Prop where
  stake_le : ∀ owner t, s.activeAt owner = some t → t.stake ≤ t.coll
  noted_le : s.spread.stakesSnapshot ≤ s.spread.collSnapshot

theorem restake_le (h : s.restake owner = .ok (stake, s')) (ht : s.activeAt owner = some t)
    (hnoted : s.spread.stakesSnapshot ≤ s.spread.collSnapshot) : stake ≤ t.coll := by
  obtain ⟨u, total, hu, hstake, -⟩ := restake_eq_ok_iff.1 h
  rw [activeTrove_eq_ok, ht, Option.some.injEq] at hu
  subst hu
  exact Redistribution.stakeFor_le hstake hnoted

namespace Staked

theorem congr (hs : s.Staked) (htroves : s'.troves = s.troves) (hspread : s'.spread = s.spread) :
    s'.Staked := by
  refine ⟨?_, hspread ▸ hs.noted_le⟩
  unfold activeAt trove
  rw [htroves]
  exact hs.stake_le

theorem replaced (hs : s.Staked) (h : s.Replaced owner old new s')
    (hnew : ∀ t, new = some t → t.stake ≤ t.coll) : s'.Staked :=
  ⟨h.forall_active hs.stake_le hnew, h.spread_eq ▸ hs.noted_le⟩

theorem enter (hs : s.Staked) (ho : s.openTrove owner coll debt = .ok s₁)
    (hr : s₁.restake owner = .ok (stake, s')) : s'.Staked := by
  have hopen := openTrove_replaced ho
  refine hs.replaced (Replaced.enter ho hr) ?_
  rintro _ ⟨⟩
  have hle := restake_le hr hopen.new_eq (hopen.spread_eq ▸ hs.noted_le)
  exact hle

/-- Between the two steps the stake may be too large. -/
theorem rewrite (hs : s.Staked) (ha : s.amend owner coll debt = .ok s₁)
    (hr : s₁.restake owner = .ok (stake, s')) : s'.Staked := by
  obtain ⟨t, -, hamend⟩ := amend_replaced ha
  obtain ⟨u, hreplaced⟩ := Replaced.rewrite ha hr
  refine hs.replaced hreplaced ?_
  rintro _ ⟨⟩
  have hle := restake_le hr hamend.new_eq (hamend.spread_eq ▸ hs.noted_le)
  exact hle

theorem leave (hs : s.Staked) (hu : s.unstake owner = .ok s₁)
    (hc : s₁.closeTrove owner status = .ok s') : s'.Staked := by
  obtain ⟨t, hreplaced⟩ := Replaced.leave hu hc
  exact hs.replaced hreplaced nofun

/-- A share adds to the collateral, and leaves the stake as it is. -/
theorem realize (hs : s.Staked) (h : s.realize owner = .ok (share, s')) : s'.Staked := by
  obtain ⟨t, t', hr⟩ := exists_realization h
  refine hs.replaced hr.replaced ?_
  rintro _ ⟨⟩
  have hle := hs.stake_le owner t hr.replaced.old_eq
  have hcoll : t'.coll.val = t.coll.val + share.coll.val := hr.record_eq .coll
  rw [Amount.le_iff_val_le] at hle ⊢
  rw [hr.stake_eq]
  omega

end Staked

/-- If no trove has more stake than collateral, all have no more than the active pool holds. -/
theorem Covered.stakes_le_coll (hc : s.Covered) (hb : s.Booked fun _ => 0)
    (hs : ∀ owner t, s.activeAt owner = some t → t.stake ≤ t.coll) :
    s.spread.totalStakes ≤ s.pools.active.coll := by
  have hpool : s.pools.active.coll.val = s.sumActive (fun t => t.coll.val) + 0 := hb .coll
  have hsum : s.sumActive (fun t => t.stake.val) ≤ s.sumActive fun t => t.coll.val :=
    sumActive_le hs
  have hstakes := hc.stakes_eq
  rw [Amount.le_iff_val_le]
  omega

end State

namespace Ledger

variable {l : Ledger}

/-! ## Plans -/

theorem chargeFeeIf_staked {due : Bool} {d d' : Draft} {owner : Address}
    {amount limit fee : Amount} (h : chargeFeeIf due l d owner amount limit = .ok (fee, d'))
    (hd : d.state.Staked) : d'.state.Staked := by
  obtain ⟨⟨rate, hcharged⟩, -⟩ := chargeFeeIf_ok h
  rw [hcharged]
  exact hd.congr rfl rfl

/-- **A liquidation notes what it leaves:** the collateral of the system without the reward, and all
stakes. -/
theorem Liquidation.noted {liquidator : Address} {targets : Targets} {plan : Plan Liquidated}
    (q : Liquidation l liquidator targets plan) :
    plan.draft.state.systemColl = .ok plan.draft.state.spread.collSnapshot ∧
      plan.draft.state.spread.stakesSnapshot = plan.draft.state.spread.totalStakes := by
  obtain ⟨less, noted, active, -, hn, ha, hstate, -⟩ := settleRest_ok q.draft_eq
  obtain ⟨rest, coll, hrest, hcoll, rfl⟩ := State.note_eq_ok_iff.1 hn
  obtain ⟨hactive, -⟩ := Balance.decreased_eq_ok_iff.1 ha
  have hleft : active.coll = rest := by
    rw [Amount.sub_eq_ok_iff] at hrest
    dsimp only at hactive hrest
    exact Amount.ext (by omega)
  rw [hstate]
  refine ⟨?_, rfl⟩
  show active.coll.add q.spread.state.pools.default.coll = .ok coll
  rw [hleft]
  exact hcoll

theorem Liquidation.staked {liquidator : Address} {targets : Targets} {plan : Plan Liquidated}
    (q : Liquidation l liquidator targets plan) (hc : plan.draft.state.Covered)
    (hb : plan.draft.state.Booked fun _ => 0) (hl : l.state.Staked) : plan.draft.state.Staked := by
  have hswept : q.swept.draft.state.Staked := by
    refine sweep_keeps q.swept_eq ?_ hl
    intro u v step hu
    obtain ⟨t, hreplaced, -⟩ := step.replaced
    exact hu.replaced hreplaced nofun
  have hstake : ∀ owner t, plan.draft.state.activeAt owner = some t → t.stake ≤ t.coll := by
    unfold State.activeAt State.trove
    rw [q.settled.troves_eq]
    exact hswept.stake_le
  obtain ⟨hcoll, hstakes⟩ := q.noted
  have hle := hc.stakes_le_coll hb hstake
  rw [State.systemColl, Pools.systemColl, Amount.add_eq_ok_iff] at hcoll
  refine ⟨hstake, ?_⟩
  rw [hstakes]
  rw [Amount.le_iff_val_le] at hle ⊢
  omega

theorem DrawStep.staked {r : RedeemRequest} {price : Amount} {w w' : Drawing}
    (step : DrawStep l r price w w') (hw : w.draft.state.Staked) : w'.draft.state.Staked := by
  have hrealized := hw.realize step.realized_eq
  obtain ⟨_, _, _, _, -, -, -, -, -, -, ⟨-, hclosed⟩ | ⟨-, hpart⟩⟩ := redeemFrom_ok step.drawn_eq
  · obtain ⟨unstaked, closed, active, surplus, hu, hc, -, -, hstate, -⟩ := closeRedeemed_ok hclosed
    have hclosed := hrealized.leave hu hc
    rw [hstate]
    exact hclosed.congr rfl rfl
  · obtain ⟨amended, stake, _, ha, hs, -⟩ := redeemPart_ok hpart
    exact hrealized.rewrite ha hs

/-- **Every plan keeps both bounds,** if pool and totals agree with the records after it. -/
theorem planOf_staked (hl : l.state.Staked) {r : Request} {plan : Plan Answer}
    (h : l.planOf r = .ok plan) (hc : plan.draft.state.Covered)
    (hb : plan.draft.state.Booked fun _ => 0) : plan.draft.state.Staked := by
  cases planned_of_planOf h with
  | opened steps =>
    have hcharged := chargeFeeIf_staked steps.charged_eq hl
    have hstaked := hcharged.enter steps.opened_eq steps.staked_eq
    simp only [Plan.draft_seen, steps.draft_eq, Draft.state_reportingStakes,
      Draft.state_reportingTrove, Draft.state_moving, Draft.state_ranking, Draft.state_withState]
    exact hstaked.congr rfl rfl
  | adjusted steps =>
    have hcharged := chargeFeeIf_staked steps.charged_eq (hl.realize steps.realized_eq)
    have hstaked := hcharged.rewrite steps.amended_eq steps.staked_eq
    simp only [Plan.draft_seen, steps.draft_eq, Draft.state_reportingStakes,
      Draft.state_reportingTrove, Draft.state_moving, Draft.state_ranking, Draft.state_withState]
    exact hstaked.congr rfl rfl
  | closed steps => exact (hl.realize steps.realized_eq).replaced steps.replaced nofun
  | realized state_eq => exact hl.realize state_eq
  | liquidated _ steps => exact steps.staked hc hb hl
  | redeemed steps =>
    have hwalked : steps.walked.draft.state.Staked :=
      draw_keeps steps.walked_eq (fun _ _ step hu => step.staked hu)
        (fun _ _ _ _ hs hu => hu.realize hs) hl
    rw [Plan.draft_seen, steps.state_eq]
    exact hwalked.congr rfl rfl
  | claimed _ state_eq =>
    rw [Plan.draft_seen, state_eq]
    exact hl.congr rfl rfl
  | deposited _ state_eq =>
    rw [Plan.draft_seen, state_eq]
    exact hl.congr rfl rfl
  | withdrawn _ _ state_eq =>
    rw [Plan.draft_seen, state_eq]
    exact hl.congr rfl rfl

/-! ## Runs -/

section

variable {params : Parameters} {accounts : ProtocolAccounts} {feed : PriceFeed} {token : TokenBook}
  {ranking : Ranking}

theorem after_staked (h : new params accounts feed token ranking = .ok l)
    (commands : List Command) : (l.after commands).state.Staked := by
  refine (after_state (P := fun s => s.Covered ∧ s.Booked (fun _ => 0) ∧ s.Staked) ?_ ?_
    ⟨after_covered h [], after_booked h [], ?_⟩ commands).2.2
  · rintro l r plan ⟨hc, hb, hs⟩ hplan
    have hcovered := planOf_covered hc hplan
    have hbooked := planOf_booked hb hplan
    exact ⟨hcovered, hbooked, planOf_staked hs hplan hcovered hbooked⟩
  · rintro s now rate - ⟨hc, hb, hs⟩
    exact ⟨hc.congr rfl rfl rfl, hb, hs.congr rfl rfl⟩
  · rw [new_eq h]
    exact ⟨nofun, Nat.le_refl _⟩

/-- Stakes are bounded by collateral, and a liquidation that is carried out next leaves the stakes
and the collateral of the system noted. -/
structure StakesBounded (l : Ledger) : Prop where
  stake_le : ∀ owner t, l.state.trove owner = some t → t.status = .active → t.stake ≤ t.coll
  noted_le : l.state.spread.stakesSnapshot ≤ l.state.spread.collSnapshot
  noted_eq : ∀ r details next, l.obey (.request r) = (.ok (some (.liquidated details)), next) →
    next.state.systemColl = .ok next.state.spread.collSnapshot ∧
      next.state.spread.stakesSnapshot = next.state.spread.totalStakes

/-- **Stakes never exceed collateral,** in any run of a new ledger. -/
theorem stakes_bounded (h : new params accounts feed token ranking = .ok l)
    (commands : List Command) : (l.after commands).StakesBounded := by
  have hstaked := after_staked h commands
  constructor
  case stake_le =>
    intro owner t ht hactive
    exact hstaked.stake_le owner t (Option.filter_eq_some_iff.2 ⟨ht, decide_eq_true hactive⟩)
  case noted_le => exact hstaked.noted_le
  case noted_eq =>
    intro r details next hobey
    obtain ⟨plan, hplan, hanswer, hn, -⟩ := obey_request_ok hobey
    cases planned_of_planOf hplan
    case liquidated steps _ =>
      rw [hn]
      exact steps.noted
    all_goals cases hanswer

end

/-- What is left of two troves is noted when the second one is liquidated, without the reward. -/
theorem stakes_bounded_firstSpread : ∃ l, starting .standard twoThousand = .ok l ∧
    (l.after firstSpread).state.spread.stakesSnapshot.val = 10_000_000_000_000_000_000 ∧
    (l.after firstSpread).state.spread.collSnapshot.val = 12_985_000_000_000_000_000 ∧
    (l.after firstSpread).StakesBounded :=
  ⟨_, starting_standard _, by decide +kernel, by decide +kernel,
    stakes_bounded (starting_standard _) firstSpread⟩

end Ledger

end Stablecoin
