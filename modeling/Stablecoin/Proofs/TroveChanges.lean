/-
  Stablecoin theory — what requests do to troves.

  Each step of a plan replaces the trove of one owner (`State.Replaced`), moves
  amounts in the active and the default pool along with it, and calls for a change
  of the ranking.  Here are these three, for each kind of step: those of opening,
  adjusting and closing a trove, `SweepStep` of a liquidation, and `DrawStep` of a
  redemption.
-/
import Stablecoin.Proofs.ActiveTroves
import Stablecoin.Proofs.Requests

namespace Stablecoin

/-- Two amounts that are changed alike keep their distance. -/
theorem Amount.change_alike {a a' b b' delta : Amount} {up : Bool} (h : a.change delta up = .ok b)
    (h' : a'.change delta up = .ok b') : b.val + a'.val = a.val + b'.val := by
  rw [change_eq_ok_iff] at h h'
  cases up <;> simp at h h' <;> omega

/-- Crediting what is left over raises one claim by it, and no other. -/
theorem Surplus.creditedLeft_claimable {s s' : Surplus} {owner : Address} {left : Amount}
    (h : s.creditedLeft owner left = .ok s') :
    (s'.claimable owner).val = (s.claimable owner).val + left.val ∧
      ∀ other, other ≠ owner → s'.claimable other = s.claimable other := by
  unfold creditedLeft at h
  split at h
  · next hl =>
    cases h
    exact ⟨by rw [hl, Amount.val_zero, Nat.add_zero], fun _ _ => rfl⟩
  · obtain ⟨-, claim, hclaim, hclaims⟩ := credited_eq_ok_iff.1 h
    simp only [claimable, hclaims, Table.get?_insert_of, if_true, Option.getD_some]
    refine ⟨Amount.add_eq_ok_iff.1 hclaim, ?_⟩
    intro other ho
    rw [if_neg ho]

namespace Ledger

variable {l : Ledger}

/-! ## Opening -/

section Opening

variable {r : OpenRequest} {plan : Plan Opened} (o : Opening l r plan)
include o

theorem Opening.replaced : l.state.Replaced r.owner none
    (some ⟨r.owner, r.deposit, o.debt, o.stake, .active, l.state.spread.snapshot⟩)
    plan.draft.state := by
  obtain ⟨⟨rate, hcharged⟩, -⟩ := chargeFeeIf_ok o.charged_eq
  have hopened := o.opened_eq
  rw [hcharged] at hopened
  refine (State.Replaced.enter hopened o.staked_eq).congr ⟨rfl, rfl⟩ ?_
  simp [o.draft_eq]

theorem Opening.pools_on (side : Side) :
    plan.draft.state.pools.active.on side =
        l.state.pools.active.on side + side.of r.deposit o.debt ∧
      plan.draft.state.pools.default = l.state.pools.default := by
  obtain ⟨⟨rate, hcharged⟩, -⟩ := chargeFeeIf_ok o.charged_eq
  have hpools : o.staked.pools = l.state.pools := by
    rw [(State.restake_books o.staked_eq).1, (State.openTrove_books o.opened_eq).1, hcharged,
      Draft.state_start]
  have hactive := Balance.increased_on o.active_eq side
  rw [hpools] at hactive
  simp [o.draft_eq, hpools, hactive]

theorem Opening.changes_eq : plan.draft.changes = [.insert r.owner o.nominal r.hints] := by
  obtain ⟨-, -, -, hchanges⟩ := chargeFeeIf_ok o.charged_eq
  simp [o.draft_eq, hchanges]

end Opening

/-! ## Adjusting -/

section Adjustment

variable {r : AdjustRequest} {plan : Plan Adjusted} (a : Adjustment l r plan)
include a

theorem Adjustment.realization : ∃ t, l.state.Realization r.owner a.share t a.trove a.realized := by
  obtain ⟨t, t', hr⟩ := State.exists_realization a.realized_eq
  obtain ⟨⟨rate, hcharged⟩, -⟩ := chargeFeeIf_ok a.charged_eq
  have ht := a.trove_eq
  rw [State.activeTrove_eq_ok, hcharged] at ht
  obtain rfl : a.trove = t' := Option.some.inj (ht.symm.trans hr.replaced.new_eq)
  exact ⟨t, hr⟩

theorem Adjustment.replaced : a.realized.Replaced r.owner (some a.trove)
    (some { a.trove with coll := a.coll, debt := a.debt, stake := a.stake }) plan.draft.state := by
  obtain ⟨⟨rate, hcharged⟩, -⟩ := chargeFeeIf_ok a.charged_eq
  obtain ⟨t, ht⟩ := State.Replaced.rewrite a.amended_eq a.staked_eq
  have htrove := a.trove_eq
  rw [State.activeTrove_eq_ok, ht.old_eq, Option.some.injEq] at htrove
  subst htrove
  refine ht.congr ?_ ?_
  · rw [hcharged]
    exact ⟨rfl, rfl⟩
  · simp [a.draft_eq]

theorem Adjustment.pools_on (side : Side) :
    plan.draft.state.pools.active.on side + a.trove.on side =
        a.realized.pools.active.on side + side.of a.coll a.debt ∧
      plan.draft.state.pools.default = a.realized.pools.default := by
  obtain ⟨⟨rate, hcharged⟩, -⟩ := chargeFeeIf_ok a.charged_eq
  have hpools : a.staked.pools = a.realized.pools := by
    rw [(State.restake_books a.staked_eq).1, (State.amend_books a.amended_eq).1, hcharged,
      Draft.state_start]
  obtain ⟨hcoll, hdebt⟩ := changeActive_ok a.active_eq
  obtain ⟨hcoll', hdebt'⟩ := Change.apply_eq_ok_iff.1 a.changed_eq
  rw [hpools] at hcoll hdebt
  have hnext : plan.draft.state.pools = { a.realized.pools with active := a.active } := by
    simp [a.draft_eq, hpools]
  rw [hnext]
  refine ⟨?_, rfl⟩
  cases side
  · exact Amount.change_alike hcoll hcoll'
  · exact Amount.change_alike hdebt hdebt'

theorem Adjustment.changes_eq : plan.draft.changes = [.reinsert r.owner a.nominal r.hints] := by
  obtain ⟨-, -, -, hchanges⟩ := chargeFeeIf_ok a.charged_eq
  simp [a.draft_eq, hchanges]

end Adjustment

/-! ## Closing -/

section Closing

variable {owner : Address} {plan : Plan Closed} (c : Closing l owner plan)
include c

theorem Closing.realization : ∃ t, l.state.Realization owner c.share t c.trove c.realized := by
  obtain ⟨t, t', hr⟩ := State.exists_realization c.realized_eq
  have ht := c.trove_eq
  rw [State.activeTrove_eq_ok] at ht
  obtain rfl : c.trove = t' := Option.some.inj (ht.symm.trans hr.replaced.new_eq)
  exact ⟨t, hr⟩

theorem Closing.replaced : c.realized.Replaced owner (some c.trove) none plan.draft.state := by
  obtain ⟨t, ht⟩ := State.Replaced.leave c.unstaked_eq c.closed_eq
  have htrove := c.trove_eq
  rw [State.activeTrove_eq_ok, ht.old_eq, Option.some.injEq] at htrove
  subst htrove
  refine ht.congr ⟨rfl, rfl⟩ ?_
  simp [c.draft_eq]

theorem Closing.pools_on (side : Side) :
    c.realized.pools.active.on side = plan.draft.state.pools.active.on side + c.trove.on side ∧
      plan.draft.state.pools.default = c.realized.pools.default := by
  have hpools : c.closed.pools = c.realized.pools := by
    rw [(State.closeTrove_books c.closed_eq).1, (State.unstake_books c.unstaked_eq).1]
  have hactive := Balance.decreased_on c.active_eq side
  rw [hpools] at hactive
  have hnext : plan.draft.state.pools = { c.realized.pools with active := c.active } := by
    simp [c.draft_eq, hpools]
  rw [hnext]
  exact ⟨hactive, rfl⟩

theorem Closing.changes_eq : plan.draft.changes = [.remove owner] := by simp [c.draft_eq]

end Closing

/-! ## Liquidating -/

theorem entire_ok {s : State} {owner : Address} {whole : EntireTrove}
    (h : s.entire owner = .ok whole) : ∃ t, s.activeAt owner = some t ∧
      s.spread.pending t = .ok whole.pending ∧
      ∀ side : Side, side.of whole.coll whole.debt = t.on side + whole.pending.on side := by
  simp only [State.entire, Redistribution.entire, bind_eq_ok_iff, pure_eq_ok_iff,
    Amount.add_eq_ok_iff, State.activeTrove_eq_ok] at h
  obtain ⟨t, ht, share, hs, debt, hd, coll, hc, rfl⟩ := h
  refine ⟨t, ht, hs, ?_⟩
  intro side
  cases side
  · exact hc
  · exact hd

/-- A trove that is taken leaves with its share, which passes through the active pool. -/
theorem SweepStep.replaced {price : Amount} {listed : Bool} {w w' : Sweep}
    (step : SweepStep l price listed w w') :
    ∃ t, w.draft.state.Replaced step.owner (some t) none w'.draft.state ∧
      w.draft.state.spread.pending t = .ok step.whole.pending ∧
      (∀ side : Side, side.of step.whole.coll step.whole.debt =
        t.on side + step.whole.pending.on side) ∧
      ∀ side, w'.draft.state.pools.active.on side =
          w.draft.state.pools.active.on side + step.whole.pending.on side ∧
        w.draft.state.pools.default.on side =
          w'.draft.state.pools.default.on side + step.whole.pending.on side := by
  obtain ⟨t, ht, hs, hwhole⟩ := entire_ok step.whole_eq
  obtain ⟨released, unstaked, closed, surplus, hr, hu, hc, -, hstate, -, -⟩ :=
    seize_ok step.draft_eq
  obtain ⟨pools, hpools, rfl⟩ := State.release_eq_ok_iff.1 hr
  obtain ⟨t', ht'⟩ := State.Replaced.leave hu hc
  obtain rfl : t' = t := Option.some.inj (ht'.old_eq.symm.trans ht)
  refine ⟨t', ?_, hs, hwhole, ?_⟩
  · refine ht'.congr ⟨rfl, rfl⟩ ?_
    rw [hstate]
    exact ⟨rfl, rfl⟩
  · intro side
    rw [hstate]
    dsimp only
    rw [(State.closeTrove_books hc).1, (State.unstake_books hu).1]
    exact Pools.realized_on hpools side

/-- The owner of a trove that is taken can claim its surplus. -/
theorem SweepStep.credited {price : Amount} {listed : Bool} {w w' : Sweep}
    (step : SweepStep l price listed w w') :
    w.draft.state.pools.surplus.creditedLeft step.owner step.split.surplus =
      .ok w'.draft.state.pools.surplus := by
  obtain ⟨released, unstaked, closed, surplus, hr, hu, hc, hs, hstate, -⟩ :=
    seize_ok step.draft_eq
  obtain ⟨pools, hpools, rfl⟩ := State.release_eq_ok_iff.1 hr
  obtain ⟨-, -, hsame, -⟩ := Pools.realized_eq_ok_iff.1 hpools
  rw [(State.closeTrove_books hc).1, (State.unstake_books hu).1, hsame] at hs
  rw [hstate]
  exact hs

theorem SweepStep.changes_eq {price : Amount} {listed : Bool} {w w' : Sweep}
    (step : SweepStep l price listed w w') :
    w'.draft.changes = w.draft.changes ++ [.remove step.owner] := by
  obtain ⟨_, _, _, _, -, -, -, -, -, -, hchanges⟩ := seize_ok step.draft_eq
  exact hchanges

theorem settleOffset_frame {d d' : Draft} {t : SplitTotals} (h : l.settleOffset d t = .ok d') :
    d'.state.troves = d.state.troves ∧ d'.state.activeCount = d.state.activeCount ∧
      d'.state.baseRate = d.state.baseRate ∧ d'.state.pools.surplus = d.state.pools.surplus ∧
      d'.state.spread = d.state.spread := by
  obtain ⟨-, rfl⟩ | ⟨-, _, _, -, -, hstate, -⟩ := settleOffset_cases h
  · exact ⟨rfl, rfl, rfl, rfl, rfl⟩
  · rw [hstate]
    exact ⟨rfl, rfl, rfl, rfl, rfl⟩

theorem settleSpread_frame {d d' : Draft} {t : SplitTotals} (h : settleSpread d t = .ok d') :
    d'.state.troves = d.state.troves ∧ d'.state.activeCount = d.state.activeCount ∧
      d'.state.baseRate = d.state.baseRate ∧ d'.state.pools.surplus = d.state.pools.surplus ∧
      (t.debtSpread = 0 → d'.state.spread = d.state.spread) := by
  obtain ⟨-, rfl⟩ | ⟨h0, hr, -⟩ := settleSpread_cases h
  · exact ⟨rfl, rfl, rfl, rfl, fun _ => rfl⟩
  · obtain ⟨hno, -⟩ | ⟨-, _, _, _, -, -, -, hs⟩ := State.redistribute_cases hr
    · exact absurd hno h0
    rw [hs]
    exact ⟨rfl, rfl, rfl, rfl, fun hno => absurd hno h0⟩

/-- The depositors' part is burned, and taken off the deposits. -/
theorem Liquidation.offset_deposits {liquidator : Address} {targets : Targets}
    {plan : Plan Liquidated} (q : Liquidation l liquidator targets plan) :
    q.offset.moves = (TokenMove.burn l.accounts.stabilityPool q.swept.totals.debtOffset).orNone ∧
      l.state.stability.deposits.val =
        q.offset.state.stability.deposits.val + q.swept.totals.debtOffset.val := by
  obtain ⟨-, -, hpool, hmoves, -⟩ := sweep_books q.swept_eq
  rw [Draft.state_start] at hpool
  rw [Draft.moves_start] at hmoves
  obtain ⟨h0, hd⟩ | ⟨h0, stability, _, hs, -, hstate, hmoves₁, -⟩ := settleOffset_cases q.offset_eq
  · rw [hd, hmoves, hpool, h0]
    exact ⟨rfl, rfl⟩
  · obtain ⟨hno, -⟩ | ⟨⟨b⟩⟩ := StabilityPool.offset_cases hs
    · exact absurd hno (not_or.2 ⟨q.ready h0, h0⟩)
    rw [hmoves₁, hmoves, hstate, ← hpool]
    exact ⟨rfl, b.deposits_eq⟩

/-- Settling the totals reaches no record, and spreads nothing where there is no debt to spread. -/
structure Liquidation.Settled {liquidator : Address} {targets : Targets} {plan : Plan Liquidated}
    (q : Liquidation l liquidator targets plan) : Prop where
  troves_eq : plan.draft.state.troves = q.swept.draft.state.troves
  count_eq : plan.draft.state.activeCount = q.swept.draft.state.activeCount
  rate_eq : plan.draft.state.baseRate = q.swept.draft.state.baseRate
  surplus_eq : plan.draft.state.pools.surplus = q.swept.draft.state.pools.surplus
  sums_eq : q.swept.totals.debtSpread = 0 →
    plan.draft.state.spread.snapshot = q.swept.draft.state.spread.snapshot
  deposits_eq : l.state.stability.deposits.val =
    plan.draft.state.stability.deposits.val + q.swept.totals.debtOffset.val
  moves_eq : plan.draft.moves =
    (TokenMove.burn l.accounts.stabilityPool q.swept.totals.debtOffset).orNone ++
      (TokenMove.fromPool l.accounts.gasPool liquidator q.swept.totals.debtReward).orNone

theorem Liquidation.settled {liquidator : Address} {targets : Targets} {plan : Plan Liquidated}
    (q : Liquidation l liquidator targets plan) : q.Settled := by
  obtain ⟨_, _, _, -, hn, -, hrest, hmoves, -⟩ := settleRest_ok q.draft_eq
  obtain ⟨_, _, -, -, rfl⟩ := State.note_eq_ok_iff.1 hn
  obtain ⟨-, -, hpool, hmoves₂⟩ := settleSpread_books q.spread_eq
  obtain ⟨ho₁, ho₂, ho₃, ho₄, ho₅⟩ := settleOffset_frame q.offset_eq
  obtain ⟨hs₁, hs₂, hs₃, hs₄, hs₅⟩ := settleSpread_frame q.spread_eq
  obtain ⟨hburned, hdeposits⟩ := q.offset_deposits
  constructor
  case troves_eq => exact hrest ▸ hs₁.trans ho₁
  case count_eq => exact hrest ▸ hs₂.trans ho₂
  case rate_eq => exact hrest ▸ hs₃.trans ho₃
  case surplus_eq => exact hrest ▸ hs₄.trans ho₄
  case sums_eq =>
    intro h0
    rw [hrest, ← ho₅, ← hs₅ h0]
    rfl
  case deposits_eq =>
    rw [hrest, hdeposits, ← hpool]
  case moves_eq => rw [hmoves, hmoves₂, hburned]

/-- Only the sweep changes the ranking. -/
theorem Liquidation.changes_eq {liquidator : Address} {targets : Targets}
    {plan : Plan Liquidated} (q : Liquidation l liquidator targets plan) :
    plan.draft.changes = q.swept.draft.changes := by
  have hoffset : q.offset.changes = q.swept.draft.changes := by
    obtain ⟨-, hd⟩ | ⟨-, _, _, -, -, -, -, hchanges⟩ := settleOffset_cases q.offset_eq
    · rw [hd]
    · exact hchanges
  have hspread : q.spread.changes = q.offset.changes := by
    obtain ⟨-, hd⟩ | ⟨-, -, -, hchanges⟩ := settleSpread_cases q.spread_eq
    · rw [hd]
    · exact hchanges
  obtain ⟨_, _, _, -, -, -, -, -, hrest⟩ := settleRest_ok q.draft_eq
  rw [hrest, hspread, hoffset]

/-! ## Redeeming -/

/-- What becomes of a trove that is drawn on, and of its place: it is closed, or it goes on with
what is left, and then there is nothing more to redeem. -/
inductive Drawn (r : RedeemRequest) (owner : Address) (t : Trove) (remaining : Amount) :
    Option Trove → RankChange → Prop
  | closed : Drawn r owner t remaining none (.remove owner)
  | part {coll debt stake nominal : Amount} (nominal_eq : Amount.nominalRatio coll debt = .ok nominal)
    (remaining_eq : remaining = 0) :
    Drawn r owner t remaining (some { t with coll := coll, debt := debt, stake := stake })
      (.reinsert owner nominal r.hints)

/-- What drawing on a trove does: it takes its share in, and then it is closed, and its reserve is
burned, or it goes on with less. -/
structure DrawStep.Effect {r : RedeemRequest} {price : Amount} {w w' : Drawing}
    (step : DrawStep l r price w w') (t u : Trove) (new : Option Trove) (change : RankChange) :
    Prop where
  realization : w.draft.state.Realization step.owner step.share t u step.realized
  replaced : step.realized.Replaced step.owner (some u) new w'.draft.state
  drawn : Drawn r step.owner u w'.remaining new change
  rest_eq : ∀ rest, new = some rest → ∀ side,
    u.on side = rest.on side + side.of step.lot.coll step.lot.debt
  changes_eq : w'.draft.changes = w.draft.changes ++ [change]
  moves_eq : w'.draft.moves = w.draft.moves ++
    new.elim (TokenMove.burn l.accounts.gasPool l.params.gasCompensation).orNone fun _ => []
  active_eq : ∀ side, w'.draft.state.pools.active.on side + u.on side =
    step.realized.pools.active.on side + new.elim 0 (·.on side) +
      side.of step.lot.coll step.lot.debt
  default_eq : w'.draft.state.pools.default = step.realized.pools.default
  closed_eq : step.lot.closed = new.isNone
  lot_eq : step.lot.debt.mulDiv Amount.unit price = .ok step.lot.coll
  net_eq : new = none → u.debt.val = step.lot.debt.val + l.params.gasCompensation.val
  credited : new = none → ∃ left, u.coll.val = left.val + step.lot.coll.val ∧
    step.realized.pools.surplus.creditedLeft step.owner left = .ok w'.draft.state.pools.surplus
  uncredited : ∀ rest, new = some rest →
    w'.draft.state.pools.surplus = step.realized.pools.surplus

/-- A trove that is closed leaves its reserve and a surplus out of the active pool. -/
theorem closeRedeemed_replaced {d d' : Draft} {owner : Address} {left : Amount} {t : Trove}
    (h : l.closeRedeemed d owner left = .ok d') (ht : d.state.activeAt owner = some t) :
    d.state.Replaced owner (some t) none d'.state ∧
      (∀ side, d.state.pools.active.on side =
        d'.state.pools.active.on side + side.of left l.params.gasCompensation) ∧
      d'.state.pools.default = d.state.pools.default ∧
      d.state.pools.surplus.creditedLeft owner left = .ok d'.state.pools.surplus := by
  obtain ⟨unstaked, closed, active, surplus, hu, hc, hactive, hs, hstate, -⟩ := closeRedeemed_ok h
  obtain ⟨v, hv⟩ := State.Replaced.leave hu hc
  obtain rfl : v = t := Option.some.inj (hv.old_eq.symm.trans ht)
  have hpools : closed.pools = d.state.pools := by
    rw [(State.closeTrove_books hc).1, (State.unstake_books hu).1]
  rw [hpools] at hactive hs hstate
  rw [hstate]
  exact ⟨hv.congr ⟨rfl, rfl⟩ ⟨rfl, rfl⟩, Balance.decreased_on hactive, rfl, hs⟩

/-- A trove that goes on leaves the pools to the end of the walk. -/
theorem redeemPart_replaced {d d' : Draft} {r : RedeemRequest} {owner : Address}
    {coll debt : Amount} {t : Trove} (h : l.redeemPart d r owner coll debt = .ok (some d'))
    (ht : d.state.activeAt owner = some t) :
    (∃ stake, d.state.Replaced owner (some t)
        (some { t with coll := coll, debt := debt, stake := stake }) d'.state) ∧
      d'.state.pools = d.state.pools := by
  obtain ⟨amended, stake, _, ham, hst, -⟩ := redeemPart_ok h
  obtain ⟨v, hv⟩ := State.Replaced.rewrite ham hst
  obtain rfl : v = t := Option.some.inj (hv.old_eq.symm.trans ht)
  rw [(State.restake_books hst).1, (State.amend_books ham).1]
  exact ⟨⟨stake, hv⟩, rfl⟩

theorem DrawStep.exists_effect {r : RedeemRequest} {price : Amount} {w w' : Drawing}
    (step : DrawStep l r price w w') : ∃ t u new change, step.Effect t u new change := by
  obtain ⟨t, u, hu⟩ := State.exists_realization step.realized_eq
  obtain ⟨trove, net, debtLeft, collLeft, htrove, hnet, hlot, hlotColl, hdebt, hcoll, hcases⟩ :=
    redeemFrom_ok step.drawn_eq
  have hactive := hu.replaced.new_eq
  rw [Draft.state_withState, State.activeTrove_eq_ok, hactive, Option.some.injEq] at htrove
  subst htrove
  have hrecord : ∀ side : Side,
      u.on side = side.of collLeft debtLeft + side.of step.lot.coll step.lot.debt := by
    intro side
    cases side
    · exact hcoll
    · exact hdebt
  have hiff := redeemFrom_closed_iff step.drawn_eq (State.activeTrove_eq_ok.2 hactive)
  obtain ⟨hleft, hclosed⟩ | ⟨hleft, hpart⟩ := hcases
  · obtain ⟨_, _, _, _, -, -, -, -, -, hmoves, hchanges⟩ := closeRedeemed_ok hclosed
    obtain ⟨hreplaced, hpool, hdefault, hcredited⟩ := closeRedeemed_replaced hclosed hactive
    rw [Draft.state_withState] at hcredited
    have hnet : u.debt.val = step.lot.debt.val + l.params.gasCompensation.val := by
      rw [hdebt, hleft, Nat.add_comm]
    refine ⟨t, u, none, .remove step.owner, ?_⟩
    constructor
    case realization => exact hu
    case replaced => exact hreplaced
    case drawn => exact .closed
    case rest_eq => exact nofun
    case changes_eq => exact hchanges
    case moves_eq => exact hmoves
    case active_eq =>
      intro side
      have hpool := hpool side
      have hrecord := hrecord side
      rw [Draft.state_withState, ← hleft] at hpool
      simp only [Option.elim_none]
      omega
    case default_eq => exact hdefault
    case closed_eq => exact hiff.2 hnet
    case lot_eq => exact hlotColl
    case net_eq => exact fun _ => hnet
    case credited => exact fun _ => ⟨collLeft, hcoll, hcredited⟩
    case uncredited => exact nofun
  · obtain ⟨_, _, nominal, -, -, hmoves, hnominal, hchanges⟩ := redeemPart_ok hpart
    obtain ⟨⟨stake, hreplaced⟩, hpools⟩ := redeemPart_replaced hpart hactive
    rw [Draft.state_withState] at hreplaced hpools
    rw [ne_eq, ← Amount.val_inj] at hleft
    -- the whole net debt was not drawn, so that the lot was limited by what remained
    have hremaining : w'.remaining = 0 := by
      have hstep := step.remaining_eq
      have hmin := congrArg Amount.val hlot
      rw [Amount.val_min] at hmin
      rw [Amount.eq_zero_iff]
      omega
    refine ⟨t, u, some { u with coll := collLeft, debt := debtLeft, stake := stake },
      .reinsert step.owner nominal r.hints, ?_⟩
    constructor
    case realization => exact hu
    case replaced => exact hreplaced
    case drawn => exact .part hnominal hremaining
    case rest_eq =>
      rintro _ ⟨⟩
      exact hrecord
    case changes_eq => exact hchanges
    case moves_eq => rw [hmoves, Option.elim_some, List.append_nil, Draft.moves_withState]
    case active_eq =>
      intro side
      have hrecord := hrecord side
      have hrest : (some { u with coll := collLeft, debt := debtLeft, stake := stake }).elim 0
          (Trove.on · side) = side.of collLeft debtLeft := rfl
      rw [hpools, hrest]
      omega
    case default_eq => rw [hpools]
    case closed_eq =>
      refine Bool.eq_false_iff.2 (mt hiff.1 ?_)
      omega
    case lot_eq => exact hlotColl
    case net_eq => exact nofun
    case credited => exact nofun
    case uncredited =>
      rintro _ ⟨⟩
      rw [hpools]

end Ledger

end Stablecoin
