/-
  Stablecoin theory — what the reports say of records.

  Whoever knows debt, collateral and stake of every record and follows the reports
  knows them afterwards.

  * `State.figures` are debt, collateral and stake as recorded, `Event.latestOf` is
    what the latest report on a record says, and a draft *tells* the figures of an
    owner if the two agree (`Draft.Tells`);
  * each step of a plan that writes a record reports it (`tells_reportingTrove`), and
    all other reports are silent about records (`Draft.tells_reporting`);
  * a redemption can end on a trove whose share it takes in before the partial
    redemption is cancelled (`Ledger.Cancels`).  The share is not reported:
    `Ledger.reports_complete` has this one exception, and `Ledger.share_unreported`
    is a run with it.
-/
import Stablecoin.Proofs.Isolation

namespace Stablecoin

/-! ## Figures -/

/-- What is recorded of a trove, save its status. -/
structure Figures where
  debt : Amount
  coll : Amount
  stake : Amount
deriving DecidableEq

/-- Nothing. -/
def Figures.zero : Figures := ⟨0, 0, 0⟩

/-- A share is added to debt and collateral, and the stake stays. -/
def Figures.Grown (f : Figures) (share : PendingShare) (f' : Figures) : Prop :=
  f'.debt.val = f.debt.val + share.debt.val ∧ f'.coll.val = f.coll.val + share.coll.val ∧
    f'.stake = f.stake

theorem Figures.Grown.eq_of_isNone {f f' : Figures} {share : PendingShare} (h : f.Grown share f')
    (h0 : share.isNone = true) : f' = f := by
  obtain ⟨hdebt, hcoll, hstake⟩ := h
  obtain ⟨hc, hd⟩ := of_decide_eq_true h0
  rw [hd, Amount.val_zero, Nat.add_zero] at hdebt
  rw [hc, Amount.val_zero, Nat.add_zero] at hcoll
  cases f
  cases f'
  simp_all [Amount.ext_iff]

theorem Figures.Grown.isNone_of_zero {f : Figures} {share : PendingShare}
    (h : f.Grown share .zero) : share.isNone = true := by
  obtain ⟨hdebt, hcoll, -⟩ := h
  simp only [zero, Amount.val_zero] at hdebt hcoll
  refine decide_eq_true ⟨Amount.eq_zero_iff.2 ?_, Amount.eq_zero_iff.2 ?_⟩ <;> omega

/-- What is recorded of a trove. -/
def Trove.figures (t : Trove) : Figures := ⟨t.debt, t.coll, t.stake⟩

/-- What is recorded for an owner, nothing where there never was a trove. -/
def State.figures (s : State) (owner : Address) : Figures :=
  ((s.trove owner).map Trove.figures).getD .zero

namespace State

variable {s s' : State} {owner : Address}

theorem figures_congr (h : s'.trove owner = s.trove owner) : s'.figures owner = s.figures owner :=
  congrArg (fun t => (t.map Trove.figures).getD .zero) h

theorem figures_of_activeAt {t : Trove} (h : s.activeAt owner = some t) :
    s.figures owner = t.figures := by
  rw [figures, (Option.filter_eq_some_iff.1 h).1]
  rfl

/-- Taking a share in adds it to what is recorded. -/
theorem realize_grown {share : PendingShare} (h : s.realize owner = .ok (share, s')) :
    (s.figures owner).Grown share (s'.figures owner) := by
  obtain ⟨t, t', hr⟩ := exists_realization h
  rw [figures_of_activeAt hr.replaced.old_eq, figures_of_activeAt hr.replaced.new_eq]
  exact ⟨hr.record_eq .debt, hr.record_eq .coll, hr.stake_eq⟩

end State

/-! ## Reports -/

namespace Event

/-- What a report says of the record of an owner. -/
def figuresOf (owner : Address) : Event → Option Figures
  | troveUpdated user debt coll stake _ => if user = owner then some ⟨debt, coll, stake⟩ else none
  | _ => none

/-- What the latest report on the record of an owner says. -/
def latestOf (owner : Address) (events : List Event) : Option Figures :=
  (events.filterMap (figuresOf owner)).getLast?

variable {owner user : Address}

theorem latestOf_append (events more : List Event) :
    latestOf owner (events ++ more) = (latestOf owner more).or (latestOf owner events) := by
  simp [latestOf, List.filterMap_append, List.getLast?_append]

theorem latestOf_append_singleton (events : List Event) (e : Event) :
    latestOf owner (events ++ [e]) = (figuresOf owner e).or (latestOf owner events) := by
  rw [latestOf_append]
  cases h : figuresOf owner e <;> simp [latestOf, h]

end Event

namespace Draft

/-- What is known of the record of an owner from the reports, by whoever knew what was recorded
before. -/
def told (before : State) (owner : Address) (d : Draft) : Figures :=
  (Event.latestOf owner d.events).getD (before.figures owner)

/-- The reports tell what is recorded in the next state. -/
def Tells (before : State) (owner : Address) (d : Draft) : Prop :=
  d.told before owner = d.state.figures owner

section

variable {before s : State} {d : Draft} {owner user : Address}

/-! ## Silent additions -/

@[simp] theorem told_withState : (d.withState s).told before owner = d.told before owner := rfl

@[simp] theorem told_moving (m : TokenMove) :
    (d.moving m).told before owner = d.told before owner := by
  unfold moving
  split <;> rfl

/-- Reports that are not about records are silent. -/
@[simp] theorem told_reporting {e : Event} (he : e.figuresOf owner = none) :
    (d.reporting e).told before owner = d.told before owner := by
  rw [told, reporting, Event.latestOf_append_singleton, he, Option.none_or]
  rfl

@[simp] theorem told_settingRate (next : BaseRate) :
    (d.settingRate next).told before owner = d.told before owner := by
  unfold settingRate
  dsimp only
  split
  · rw [told_reporting rfl, told_reporting rfl, told_withState]
  · rw [told_reporting rfl, told_withState]

@[simp] theorem tells_moving (m : TokenMove) :
    (d.moving m).Tells before owner ↔ d.Tells before owner := by
  rw [Tells, told_moving, state_moving, Tells]

@[simp] theorem tells_ranking (c : RankChange) :
    (d.ranking c).Tells before owner ↔ d.Tells before owner := Iff.rfl

@[simp] theorem tells_reporting {e : Event} (he : e.figuresOf owner = none) :
    (d.reporting e).Tells before owner ↔ d.Tells before owner := by
  rw [Tells, told_reporting he, state_reporting, Tells]

@[simp] theorem tells_reportingStakes :
    d.reportingStakes.Tells before owner ↔ d.Tells before owner := tells_reporting rfl

/-! ## Records -/

theorem tells_start (h : s.trove owner = before.trove owner) : (start s).Tells before owner :=
  (State.figures_congr h).symm

theorem Tells.withState (h : d.Tells before owner) (hs : s.trove owner = d.state.trove owner) :
    (d.withState s).Tells before owner :=
  h.trans (State.figures_congr hs).symm

theorem events_reportingTrove (d : Draft) (user : Address) (touch : Touch) :
    (d.reportingTrove user touch).events = d.events ++
      [.troveUpdated user (d.state.figures user).debt (d.state.figures user).coll
        (d.state.figures user).stake touch] := by
  unfold reportingTrove State.figures
  cases d.state.trove user <;> rfl

/-- **Reporting the one record that was written tells all.** -/
theorem tells_reportingTrove {touch : Touch} (h : ∀ other, other ≠ user → d.Tells before other)
    (owner : Address) : (d.reportingTrove user touch).Tells before owner := by
  rw [Tells, told, events_reportingTrove, Event.latestOf_append_singleton, state_reportingTrove]
  by_cases ho : owner = user
  · rw [ho, Event.figuresOf, if_pos rfl]
    rfl
  · rw [Event.figuresOf, if_neg (Ne.symm ho), Option.none_or]
    exact h owner ho

end

end Draft

namespace Ledger

variable {l : Ledger} {before : State} {owner : Address}

/-! ## Opening, adjusting and closing -/

theorem chargeFeeIf_tells {due : Bool} {d d' : Draft} {user : Address} {amount limit fee : Amount}
    (h : chargeFeeIf due l d user amount limit = .ok (fee, d')) (hd : d.Tells before owner) :
    d'.Tells before owner := by
  unfold chargeFeeIf at h
  split at h
  · simp only [chargeFee, bind_eq_ok_iff, pure_eq_ok_iff, Prod.mk.injEq] at h
    obtain ⟨quote, -, -, rfl⟩ := h
    have hrated : (d.settingRate quote.next).Tells before owner := by
      rw [Draft.Tells, Draft.told_settingRate, Draft.state_settingRate]
      exact hd
    split
    · rwa [Draft.tells_moving]
    · rwa [Draft.tells_reporting rfl, Draft.tells_moving]
  · cases h
    exact hd

theorem Opening.tells {r : OpenRequest} {plan : Plan Opened} (o : Opening l r plan)
    (owner : Address) : plan.draft.Tells l.state owner := by
  have hwrites := (State.Writes.openTrove o.opened_eq).trans (.restake o.staked_eq)
  rw [o.draft_eq, Draft.tells_reportingStakes]
  refine Draft.tells_reportingTrove (fun other ho => ?_) owner
  have hcharged : o.charged.Tells l.state other :=
    chargeFeeIf_tells o.charged_eq (Draft.tells_start rfl)
  simp only [Draft.tells_moving, Draft.tells_ranking]
  exact hcharged.withState (hwrites.others_eq other ho)

theorem Adjustment.tells {r : AdjustRequest} {plan : Plan Adjusted} (a : Adjustment l r plan)
    (owner : Address) : plan.draft.Tells l.state owner := by
  have hrealized := State.Writes.realize a.realized_eq
  have hwrites := (State.Writes.amend a.amended_eq).trans (.restake a.staked_eq)
  rw [a.draft_eq, Draft.tells_reportingStakes]
  refine Draft.tells_reportingTrove (fun other ho => ?_) owner
  have hcharged := chargeFeeIf_tells a.charged_eq (Draft.tells_start (hrealized.others_eq other ho))
  simp only [Draft.tells_moving, Draft.tells_ranking]
  exact hcharged.withState (hwrites.others_eq other ho)

theorem Closing.tells {user : Address} {plan : Plan Closed} (c : Closing l user plan)
    (owner : Address) : plan.draft.Tells l.state owner := by
  have hwrites := ((State.Writes.realize c.realized_eq).trans (.unstake c.unstaked_eq)).trans
    (.closeTrove c.closed_eq)
  rw [c.draft_eq, Draft.tells_reportingStakes]
  refine Draft.tells_reportingTrove (fun other ho => ?_) owner
  simp only [Draft.tells_moving, Draft.tells_ranking]
  exact Draft.tells_start (hwrites.others_eq other ho)

/-- A share of nothing is not reported, and changes nothing that is recorded. -/
theorem planRealization_tells {user : Address} {plan : Plan PendingShare}
    (h : l.planRealization user = .ok plan) (owner : Address) :
    plan.draft.Tells l.state owner := by
  simp only [planRealization, bind_eq_ok_iff, pure_eq_ok_iff, Prod.exists] at h
  obtain ⟨_, -, share, s, hs, rfl⟩ := h
  have hothers : ∀ other, other ≠ user → (Draft.start s).Tells l.state other := fun other ho =>
    Draft.tells_start ((State.Writes.realize hs).others_eq other ho)
  dsimp only
  split
  · next hnone =>
    by_cases ho : owner = user
    · subst ho
      exact ((State.realize_grown hs).eq_of_isNone hnone).symm
    · exact hothers owner ho
  · exact Draft.tells_reportingTrove hothers owner

/-! ## Liquidating -/

theorem seize_tells {d d' : Draft} {user : Address} {whole : EntireTrove} {split : Split}
    {touch : Touch} (h : seize d user whole split touch = .ok d')
    (hd : ∀ owner, d.Tells before owner) (owner : Address) : d'.Tells before owner := by
  simp only [seize, bind_eq_ok_iff, pure_eq_ok_iff] at h
  obtain ⟨released, hr, unstaked, hu, closed, hc, surplus, -, rfl⟩ := h
  obtain ⟨pools, -, rfl⟩ := State.release_eq_ok_iff.1 hr
  have hwrites := (State.Writes.unstake hu).trans (.closeTrove hc)
  refine Draft.tells_reportingTrove (fun other ho => ?_) owner
  rw [Draft.tells_reporting rfl, Draft.tells_ranking]
  exact (hd other).withState (hwrites.others_eq other ho)

theorem settleOffset_tells {d d' : Draft} {t : SplitTotals} (h : l.settleOffset d t = .ok d')
    (hd : d.Tells before owner) : d'.Tells before owner := by
  unfold settleOffset at h
  split at h
  · cases h
    exact hd
  · simp only [bind_eq_ok_iff, pure_eq_ok_iff, lessActive_eq_ok_iff] at h
    obtain ⟨stability, -, _, ⟨active, -, rfl⟩, rfl⟩ := h
    rw [Draft.tells_moving]
    exact hd.withState rfl

theorem settleSpread_tells {d d' : Draft} {t : SplitTotals} (h : settleSpread d t = .ok d')
    (hd : d.Tells before owner) : d'.Tells before owner := by
  unfold settleSpread at h
  split at h
  · cases h
    exact hd
  · simp only [bind_eq_ok_iff, pure_eq_ok_iff] at h
    obtain ⟨s, hs, rfl⟩ := h
    rw [Draft.tells_reporting rfl]
    refine hd.withState ?_
    obtain ⟨-, rfl⟩ | ⟨-, _, _, _, -, -, -, rfl⟩ := State.redistribute_cases hs <;> rfl

theorem settleRest_tells {d d' : Draft} {liquidator : Address} {t : SplitTotals}
    (h : l.settleRest d liquidator t = .ok d') (hd : d.Tells before owner) :
    d'.Tells before owner := by
  simp only [settleRest, bind_eq_ok_iff, pure_eq_ok_iff, lessActive_eq_ok_iff,
    State.note_eq_ok_iff] at h
  obtain ⟨_, ⟨less, -, rfl⟩, _, ⟨rest, coll, -, -, rfl⟩, _, ⟨active, -, rfl⟩, rfl⟩ := h
  rw [Draft.tells_reportingStakes, Draft.tells_reporting rfl, Draft.tells_reporting rfl,
    Draft.tells_moving]
  exact hd.withState rfl

theorem Liquidation.tells {liquidator : Address} {targets : Targets} {plan : Plan Liquidated}
    (q : Liquidation l liquidator targets plan) (owner : Address) :
    plan.draft.Tells l.state owner := by
  have hswept : ∀ owner, q.swept.draft.Tells l.state owner :=
    sweep_keeps q.swept_eq (fun u v step hu => seize_tells step.draft_eq hu)
      fun _ => Draft.tells_start rfl
  exact settleRest_tells q.draft_eq
    (settleSpread_tells q.spread_eq (settleOffset_tells q.offset_eq (hswept owner)))

/-! ## Redeeming -/

variable {r : RedeemRequest} {price : Amount}

theorem closeRedeemed_tells {d d' : Draft} {user : Address} {left : Amount}
    (h : l.closeRedeemed d user left = .ok d')
    (hd : ∀ other, other ≠ user → d.Tells before other) (owner : Address) :
    d'.Tells before owner := by
  simp only [closeRedeemed, bind_eq_ok_iff, pure_eq_ok_iff] at h
  obtain ⟨unstaked, hu, closed, hc, active, -, surplus, -, rfl⟩ := h
  have hwrites := (State.Writes.unstake hu).trans (.closeTrove hc)
  refine Draft.tells_reportingTrove (fun other ho => ?_) owner
  rw [Draft.tells_moving, Draft.tells_ranking]
  exact (hd other ho).withState (hwrites.others_eq other ho)

theorem redeemPart_tells {d d' : Draft} {user : Address} {coll debt : Amount}
    (h : l.redeemPart d r user coll debt = .ok (some d'))
    (hd : ∀ other, other ≠ user → d.Tells before other) (owner : Address) :
    d'.Tells before owner := by
  simp only [redeemPart, bind_eq_ok_iff] at h
  obtain ⟨nominal, -, h⟩ := h
  split at h
  · cases h
  simp only [bind_eq_ok_iff] at h
  obtain ⟨net, -, h⟩ := h
  split at h
  · cases h
  simp only [bind_eq_ok_iff, pure_eq_ok_iff, Prod.exists, Option.some.injEq] at h
  obtain ⟨amended, ha, stake, s, hs, rfl⟩ := h
  have hwrites := (State.Writes.amend ha).trans (.restake hs)
  refine Draft.tells_reportingTrove (fun other ho => ?_) owner
  rw [Draft.tells_ranking]
  exact (hd other ho).withState (hwrites.others_eq other ho)

theorem DrawStep.tells {w w' : Drawing} (step : DrawStep l r price w w')
    (hw : ∀ owner, w.draft.Tells before owner) (owner : Address) : w'.draft.Tells before owner := by
  have hothers : ∀ other, other ≠ step.owner →
      (w.draft.withState step.realized).Tells before other := fun other ho =>
    (hw other).withState ((State.Writes.realize step.realized_eq).others_eq other ho)
  obtain ⟨_, _, _, _, -, -, -, -, -, -, ⟨-, h⟩ | ⟨-, h⟩⟩ := redeemFrom_ok step.drawn_eq
  · exact closeRedeemed_tells h hothers owner
  · exact redeemPart_tells h hothers owner

/-- A walk ends on the trove of an owner, whose share is taken in before its partial redemption is
cancelled. -/
inductive CancelsAt (l : Ledger) (r : RedeemRequest) (price : Amount) (owner : Address)
    (share : PendingShare) : Drawing → List Address → Prop
  | here {w s rest} (remaining_ne : w.remaining ≠ 0)
    (realized_eq : w.draft.state.realize owner = .ok (share, s))
    (cancelled_eq : l.redeemFrom (w.draft.withState s) r owner w.remaining price = .ok none) :
    CancelsAt l r price owner share w (owner :: rest)
  | later {w w' rest} (step : DrawStep l r price w w')
    (cancels : CancelsAt l r price owner share w' rest) :
    CancelsAt l r price owner share w (step.owner :: rest)

/-- **A walk tells everything but the share of a trove that it ends on in vain.** -/
theorem draw_tells {w w' : Drawing} {owners : List Address}
    (h : l.draw r price w owners = .ok w') (hw : ∀ owner, w.draft.Tells before owner)
    (owner : Address) : w'.draft.Tells before owner ∨
      ∃ share, CancelsAt l r price owner share w owners ∧
        (w'.draft.told before owner).Grown share (w'.draft.state.figures owner) := by
  induction owners generalizing w with
  | nil =>
    cases h
    exact Or.inl (hw owner)
  | cons user rest ih =>
    rw [draw] at h
    split at h
    · cases h
      exact Or.inl (hw owner)
    next h0 =>
    simp only [bind_eq_ok_iff, Prod.exists] at h
    obtain ⟨share, s, hs, outcome, ho, h⟩ := h
    cases outcome with
    | none =>
      cases h
      by_cases hu : owner = user
      · subst hu
        refine Or.inr ⟨share, .here h0 hs ho, ?_⟩
        have hgrown := State.realize_grown hs
        rwa [← hw owner] at hgrown
      · exact Or.inl ((hw owner).withState ((State.Writes.realize hs).others_eq owner hu))
    | some found =>
      obtain ⟨lot, d⟩ := found
      simp only [bind_eq_ok_iff, Amount.add_eq_ok_iff, Amount.sub_eq_ok_iff] at h
      obtain ⟨redeemed, hr, drawn, hd, remaining, hm, h⟩ := h
      let next : Drawing := ⟨d, remaining, redeemed, drawn, w.owners ++ [user],
        if lot.closed then w.closed ++ [user] else w.closed⟩
      let step : DrawStep l r price w next :=
        ⟨user, share, s, lot, hs, ho, hr, hd, h0, hm, rfl, rfl⟩
      obtain htells | ⟨last, hlast, hgrown⟩ := ih h (step.tells hw)
      · exact Or.inl htells
      · exact Or.inr ⟨last, .later step hlast, hgrown⟩

/-- A redemption ends on the trove of an owner, whose share is taken in before its partial
redemption is cancelled. -/
def Cancels (l : Ledger) (r : RedeemRequest) (owner : Address) (share : PendingShare) : Prop :=
  ∃ price walk, l.price = .ok price ∧ l.redemptionWalk r.firstHint price = .ok walk ∧
    CancelsAt l r price owner share ⟨.start l.state, r.amount, 0, 0, [], []⟩
      (if r.most = 0 then walk else walk.take r.most.toNat)

theorem planRedemption_tells {plan : Plan Redeemed} (h : l.planRedemption r = .ok plan)
    (owner : Address) : plan.draft.Tells l.state owner ∨
      ∃ share, l.Cancels r owner share ∧
        (plan.draft.told l.state owner).Grown share (plan.draft.state.figures owner) := by
  simp only [planRedemption, bind_eq_ok_iff, pure_eq_ok_iff] at h
  obtain ⟨_, -, price, hprice, system, -, _, -, _, -, _, -, walk, hwalk, w, hw, _, -, quote, -,
    sent, -, staking, -, active, -, rfl⟩ := h
  -- behind the walk nothing is written in a record, and nothing said of one
  rw [Draft.Tells, Draft.told_reporting rfl, Draft.told_moving, Draft.told_withState,
    Draft.told_settingRate, Draft.state_reporting, Draft.state_moving, Draft.state_withState,
    Draft.state_settingRate]
  obtain htells | ⟨share, hcancels, hgrown⟩ := draw_tells hw (fun _ => Draft.tells_start rfl) owner
  · exact Or.inl htells
  · exact Or.inr ⟨share, ⟨price, walk, hprice, hwalk, hcancels⟩, hgrown⟩

/-! ## Claims and deposits -/

theorem planClaim_tells {user : Address} {plan : Plan Amount} (h : l.planClaim user = .ok plan)
    (owner : Address) : plan.draft.Tells l.state owner := by
  simp only [planClaim, bind_eq_ok_iff, pure_eq_ok_iff, Prod.exists] at h
  obtain ⟨amount, surplus, -, rfl⟩ := h
  rw [Draft.tells_reporting rfl]
  exact Draft.tells_start rfl

theorem planDeposit_tells {user : Address} {amount : Amount} {plan : Plan DepositChange}
    (h : l.planDeposit user amount = .ok plan) (owner : Address) :
    plan.draft.Tells l.state owner := by
  simp only [planDeposit, bind_eq_ok_iff, pure_eq_ok_iff, Prod.exists] at h
  obtain ⟨_, -, change, stability, -, rfl⟩ := h
  rw [reportDeposit, Draft.tells_reporting rfl, Draft.tells_moving]
  exact Draft.tells_start rfl

theorem planWithdrawal_tells {user : Address} {amount : Amount} {plan : Plan DepositChange}
    (h : l.planWithdrawal user amount = .ok plan) (owner : Address) :
    plan.draft.Tells l.state owner := by
  simp only [planWithdrawal, bind_eq_ok_iff, pure_eq_ok_iff, Prod.exists] at h
  obtain ⟨_, -, change, stability, -, rfl⟩ := h
  rw [reportDeposit, Draft.tells_reporting rfl, Draft.tells_moving]
  exact Draft.tells_start rfl

/-! ## Requests and commands -/

/-- The request is a redemption that ends on the trove of an owner, and keeps a share of it to
itself. -/
def Conceals (l : Ledger) (r : Request) (owner : Address) (share : PendingShare) : Prop :=
  ∃ q, r = .redeem q ∧ l.Cancels q owner share ∧ share.isNone = false

/-- **Every plan tells what it writes,** but for the share that a redemption conceals. -/
theorem planOf_tells {r : Request} {plan : Plan Answer} (h : l.planOf r = .ok plan)
    (owner : Address) : plan.draft.Tells l.state owner ∨
      ∃ share, l.Conceals r owner share ∧
        (plan.draft.told l.state owner).Grown share (plan.draft.state.figures owner) := by
  cases r with
  | redeem r =>
    obtain ⟨p, hp, rfl⟩ := map_eq_ok_iff.1 h
    obtain htells | ⟨share, hcancels, hgrown⟩ := planRedemption_tells hp owner
    · exact Or.inl htells
    cases h0 : share.isNone with
    | true => exact Or.inl (hgrown.eq_of_isNone h0).symm
    | false => exact Or.inr ⟨share, ⟨r, rfl, hcancels, h0⟩, hgrown⟩
  | realize user =>
    obtain ⟨p, hp, rfl⟩ := map_eq_ok_iff.1 h
    exact Or.inl (planRealization_tells hp owner)
  | claim user =>
    obtain ⟨p, hp, rfl⟩ := map_eq_ok_iff.1 h
    exact Or.inl (planClaim_tells hp owner)
  | provide user amount =>
    obtain ⟨p, hp, rfl⟩ := map_eq_ok_iff.1 h
    exact Or.inl (planDeposit_tells hp owner)
  | withdraw user amount =>
    obtain ⟨p, hp, rfl⟩ := map_eq_ok_iff.1 h
    exact Or.inl (planWithdrawal_tells hp owner)
  | openTrove r =>
    obtain ⟨p, hp, rfl⟩ := map_eq_ok_iff.1 h
    obtain ⟨steps⟩ := exists_opening hp
    exact Or.inl (steps.tells owner)
  | adjustTrove r =>
    obtain ⟨p, hp, rfl⟩ := map_eq_ok_iff.1 h
    obtain ⟨steps⟩ := exists_adjustment hp
    exact Or.inl (steps.tells owner)
  | closeTrove user =>
    obtain ⟨p, hp, rfl⟩ := map_eq_ok_iff.1 h
    obtain ⟨steps⟩ := exists_closing hp
    exact Or.inl (steps.tells owner)
  | liquidate | liquidateLowest | liquidateListed =>
    cases planned_of_planOf h with
    | liquidated _ steps => exact Or.inl (steps.tells owner)

/-- A record that has changed and is told was reported, and the latest report on it says what is
recorded now. -/
theorem latestOf_of_tells {d : Draft} (h : d.Tells before owner)
    (hchanged : d.state.figures owner ≠ before.figures owner) :
    Event.latestOf owner d.events = some (d.state.figures owner) := by
  rw [Draft.Tells, Draft.told] at h
  cases hlatest : Event.latestOf owner d.events with
  | none =>
    rw [hlatest] at h
    exact absurd h.symm hchanged
  | some f =>
    rw [hlatest] at h
    exact congrArg some h

/-- A request that is carried out appends what its plan reports. -/
theorem obey_request_log {r : Request} {answer : Option Answer} {next : Ledger}
    (h : l.obey (.request r) = (.ok answer, next)) : ∃ plan, l.planOf r = .ok plan ∧
      next.state = plan.draft.state ∧
      next.log = l.log.extend next.state.now plan.draft.events := by
  have hcases := obey_request_cases (l := l) r
  rw [h] at hcases
  obtain ⟨plan, hplan, -, hc⟩ | ⟨_, hstop, -⟩ := hcases
  · have hcommit : l.commit plan.draft = (.ok (), next) := hc
    obtain ⟨-, -, -, hn⟩ := commit_ok hcommit
    refine ⟨plan, hplan, ?_, ?_⟩ <;> rw [hn]
  · cases hstop

/-- A command that is not carried out reports nothing and writes no record, and neither does one
that is not a request. -/
theorem obey_silent {c : Command} (h : ∀ r answer, c = .request r → (l.obey c).1 ≠ .ok answer) :
    (l.obey c).2.log = l.log ∧ (l.obey c).2.state.troves = l.state.troves := by
  by_cases hr : ∃ r, c = .request r
  · obtain ⟨r, rfl⟩ := hr
    obtain ⟨plan, -, hanswer, -⟩ | ⟨stop, -, hp⟩ := obey_request_cases (l := l) r
    · exact absurd hanswer (h r _ rfl)
    · refine ⟨?_, congrArg State.troves (perform_error_state hp)⟩
      obtain hn | ⟨p, -, hc⟩ := perform_error hp
      · rw [hn]
      · obtain hn | ⟨-, -, hn⟩ := commit_error hc <;> rw [hn]
  · obtain ⟨-, _, _, _, _, hn, -⟩ := obey_control (l := l) fun r hc => hr ⟨r, hc⟩
    rw [hn]
    exact ⟨rfl, rfl⟩

/-- **The reports are complete for records:** a request that is carried out appends the reports of
its plan, and where debt, collateral or stake of a record have changed, the latest of them on it
gives them as they are now, unless a redemption ended on it and conceals its share.  Where no request
is carried out, nothing is reported, and no record changes. -/
theorem reports_complete (l : Ledger) :
    (∀ r answer next, l.obey (.request r) = (.ok answer, next) → ∃ plan, l.planOf r = .ok plan ∧
      next.state = plan.draft.state ∧
      next.log = l.log.extend next.state.now plan.draft.events ∧
      ∀ owner, next.state.figures owner ≠ l.state.figures owner →
        Event.latestOf owner plan.draft.events = some (next.state.figures owner) ∨
        ∃ share, l.Conceals r owner share ∧
          ((Event.latestOf owner plan.draft.events).getD (l.state.figures owner)).Grown share
            (next.state.figures owner)) ∧
    ∀ c, (∀ r answer, c = .request r → (l.obey c).1 ≠ .ok answer) →
      (l.obey c).2.log = l.log ∧
        ∀ owner, (l.obey c).2.state.figures owner = l.state.figures owner := by
  constructor
  · intro r answer next h
    obtain ⟨plan, hplan, hstate, hlog⟩ := obey_request_log h
    refine ⟨plan, hplan, hstate, hlog, ?_⟩
    intro owner hchanged
    rw [hstate] at hchanged ⊢
    exact (planOf_tells hplan owner).imp_left fun htells => latestOf_of_tells htells hchanged
  · intro c h
    obtain ⟨hlog, htroves⟩ := obey_silent h
    exact ⟨hlog, fun owner => State.figures_congr (congrArg (Table.get? · owner) htroves)⟩

/-- A redemption that closes a trove reports its record emptied; a new price reports nothing. -/
theorem reports_complete_firstRedemption : ∃ start l r answer next plan,
    starting .standard twoThousand = .ok start ∧ start.after (firstRedemption.take 2) = l ∧
    firstRedemption.getLast? = some (.request r) ∧
    l.obey (.request r) = (.ok answer, next) ∧ l.planOf r = .ok plan ∧
    next.log = l.log.extend next.state.now plan.draft.events ∧
    l.state.figures ⟨3, by decide⟩ ≠ .zero ∧
    Event.latestOf ⟨3, by decide⟩ plan.draft.events = some .zero ∧
    (l.obey (.setPrice twoThousand)).2.log = l.log := by
  obtain ⟨start, h⟩ : ∃ start, starting .standard twoThousand = .ok start :=
    ⟨_, starting_standard _⟩
  obtain ⟨l, hl⟩ : ∃ l, start.after (firstRedemption.take 2) = l := ⟨_, rfl⟩
  obtain ⟨r, hr⟩ : ∃ r, firstRedemption.getLast? = some (.request r) := ⟨_, rfl⟩
  obtain ⟨⟨answer, hanswer⟩, hbefore, hafter⟩ :
      (∃ answer, (l.obey (.request r)).1 = .ok answer) ∧
      l.state.figures ⟨3, by decide⟩ ≠ .zero ∧
      (l.obey (.request r)).2.state.figures ⟨3, by decide⟩ = .zero := by
    obtain rfl := Command.request.inj (Option.some.inj hr)
    rw [← hl, starting_eq h]
    decide +kernel
  obtain ⟨hcarried, hsilent⟩ := reports_complete l
  obtain ⟨plan, hplan, -, hlog, hreports⟩ := hcarried r answer _ (Prod.ext hanswer rfl)
  refine ⟨start, l, r, answer, _, plan, h, hl, hr, Prod.ext hanswer rfl, hplan, hlog, hbefore, ?_,
    (hsilent (.setPrice twoThousand) nofun).1⟩
  obtain hlatest | ⟨share, ⟨_, -, -, hsome⟩, hgrown⟩ :=
    hreports ⟨3, by decide⟩ (hafter ▸ hbefore.symm)
  · rw [hlatest, hafter]
  · -- nothing is recorded in the end, so that no share was taken in
    rw [hafter] at hgrown
    rw [hgrown.isNone_of_zero] at hsome
    cases hsome

/-- A redemption closes the lower of two troves with a share, and then ends on the other, because
its partial redemption is hinted at wrongly: the share is recorded, and nothing is reported. -/
theorem share_unreported : ∃ start l r answer next plan,
    starting .standard twoThousand = .ok start ∧ start.Accepted twoSharing ∧
    start.after twoSharing = l ∧ l.obey (.request (.redeem r)) = (.ok answer, next) ∧
    l.planOf (.redeem r) = .ok plan ∧
    next.log = l.log.extend next.state.now plan.draft.events ∧
    next.state.figures ⟨2, by decide⟩ ≠ l.state.figures ⟨2, by decide⟩ ∧
    Event.latestOf ⟨2, by decide⟩ plan.draft.events = none := by
  obtain ⟨start, h⟩ : ∃ start, starting .standard twoThousand = .ok start :=
    ⟨_, starting_standard _⟩
  obtain ⟨l, hl⟩ : ∃ l, start.after twoSharing = l := ⟨_, rfl⟩
  let r : RedeemRequest :=
    ⟨⟨2, by decide⟩, .whole 3000, none, some 1, .none, 0, Amount.unit⟩
  obtain ⟨haccepted, ⟨answer, hanswer⟩, hchanged, hsilent⟩ : start.Accepted twoSharing ∧
      (∃ answer, (l.obey (.request (.redeem r))).1 = .ok answer) ∧
      (l.obey (.request (.redeem r))).2.state.figures ⟨2, by decide⟩ ≠
        l.state.figures ⟨2, by decide⟩ ∧
      (l.planOf (.redeem r)).map (fun plan => Event.latestOf ⟨2, by decide⟩ plan.draft.events) =
        .ok none := by
    subst r
    rw [← hl, starting_eq h]
    decide +kernel
  obtain ⟨plan, hplan, -, hlog⟩ := obey_request_log (Prod.ext hanswer rfl)
  rw [hplan] at hsilent
  exact ⟨start, l, r, answer, _, plan, h, haccepted, hl, Prod.ext hanswer rfl, hplan, hlog,
    hchanged, Except.ok.inj hsilent⟩

end Ledger

end Stablecoin
