/-
  Stablecoin theory — users among themselves.

  Opening, adjusting and closing a trove, taking a share in, claiming a surplus and
  moving a deposit are requests that a user makes for themselves
  (`Request.IsPersonal`).  They change totals that all users share, but nothing that
  another user has by them.

  * `State.Holdings` is what a user has by the state;
  * `State.Writes` says that at most the record of one owner is written, and
    `State.holdings_of_writes` that the others have what they had;
  * `Ledger.others_undisturbed` says so of every personal request, and of the
    tokens of everybody but the protocol.
-/
import Stablecoin.Proofs.EntireTroves
import Stablecoin.Proofs.PoolRuns
import Stablecoin.Proofs.Reserves

namespace Stablecoin

/-! ## Holdings -/

/-- The request reaches nobody else: it is neither a liquidation nor a redemption. -/
def Request.IsPersonal : Request → Prop
  | .liquidate .. | .liquidateLowest .. | .liquidateListed .. | .redeem _ => False
  | _ => True

theorem Request.not_isPersonal_of_liquidation {r : Request} {liquidator : Address}
    {targets : Targets} (h : r.liquidation = some (liquidator, targets)) : ¬ r.IsPersonal := by
  cases r with
  | liquidate | liquidateLowest | liquidateListed => exact id
  | _ => cases h

namespace State

/-- What a user has by the state: a trove with its pending share, a claim on surplus, and a deposit
with its gain. -/
structure Holdings where
  status : TroveStatus
  /-- The stake of the record, if there ever was one. -/
  stake : Option Amount
  entire : Attempt EntireTrove
  claimable : Amount
  compounded : Attempt Amount
  gain : Attempt Amount

/-- What a user has. -/
def holdings (s : State) (user : Address) : Holdings where
  status := s.status user
  stake := (s.trove user).map Trove.stake
  entire := s.entire user
  claimable := s.pools.surplus.claimable user
  compounded := s.stability.compounded user
  gain := s.stability.gain user

variable {s s₁ s' : State} {owner other : Address}

/-- Holdings depend on the record of the user, on the sums that were spread, on the claim, and on
the deposit and its factors. -/
theorem holdings_congr (htrove : s'.trove other = s.trove other)
    (hsums : s'.spread.snapshot = s.spread.snapshot)
    (hclaim : s'.pools.surplus.claimable other = s.pools.surplus.claimable other)
    (hcompounded : s'.stability.compounded other = s.stability.compounded other)
    (hgain : s'.stability.gain other = s.stability.gain other) :
    s'.holdings other = s.holdings other := by
  have hentire : s'.entire other = s.entire other :=
    entire_congr (congrArg (Option.filter Trove.isActive) htrove) hsums
  simp only [holdings, status, htrove, hentire, hclaim, hcompounded, hgain]

/-! ## Writing one record -/

/-- At most the record of one owner is written, and with it the sum of the stakes and the active and
the default pool. -/
structure Writes (s : State) (owner : Address) (s' : State) : Prop where
  others_eq : ∀ other, other ≠ owner → s'.trove other = s.trove other
  snapshot_eq : s'.spread.snapshot = s.spread.snapshot
  surplus_eq : s'.pools.surplus = s.pools.surplus
  stability_eq : s'.stability = s.stability

namespace Writes

theorem trans (h₁ : s.Writes owner s₁) (h₂ : s₁.Writes owner s') : s.Writes owner s' where
  others_eq := fun other ho => (h₂.others_eq other ho).trans (h₁.others_eq other ho)
  snapshot_eq := h₂.snapshot_eq.trans h₁.snapshot_eq
  surplus_eq := h₂.surplus_eq.trans h₁.surplus_eq
  stability_eq := h₂.stability_eq.trans h₁.stability_eq

theorem of_insert {t : Trove} (htroves : s'.troves = s.troves.insert owner t)
    (hsums : s'.spread.snapshot = s.spread.snapshot)
    (hsurplus : s'.pools.surplus = s.pools.surplus) (hpool : s'.stability = s.stability) :
    s.Writes owner s' := by
  refine ⟨?_, hsums, hsurplus, hpool⟩
  intro other ho
  rw [trove, htroves, Table.get?_insert_of, if_neg ho]
  rfl

theorem realize {share : PendingShare} (h : s.realize owner = .ok (share, s')) :
    s.Writes owner s' := by
  obtain ⟨t, -, ⟨coll, debt, pools, -, -, -, -, hp, rfl⟩ | ⟨-, -, rfl⟩⟩ := realize_cases h
  · obtain ⟨-, -, hsurplus, -⟩ := Pools.realized_eq_ok_iff.1 hp
    exact of_insert rfl rfl hsurplus rfl
  · exact ⟨fun _ _ => rfl, rfl, rfl, rfl⟩

theorem openTrove {coll debt : Amount} (h : s.openTrove owner coll debt = .ok s') :
    s.Writes owner s' := by
  obtain ⟨-, count, -, rfl⟩ := openTrove_eq_ok_iff.1 h
  exact of_insert rfl rfl rfl rfl

theorem amend {coll debt : Amount} (h : s.amend owner coll debt = .ok s') :
    s.Writes owner s' := by
  obtain ⟨t, -, rfl⟩ := amend_eq_ok_iff.1 h
  exact of_insert rfl rfl rfl rfl

theorem restake {stake : Amount} (h : s.restake owner = .ok (stake, s')) :
    s.Writes owner s' := by
  obtain ⟨t, total, -, -, -, rfl⟩ := restake_eq_ok_iff.1 h
  exact of_insert rfl rfl rfl rfl

theorem unstake (h : s.unstake owner = .ok s') : s.Writes owner s' := by
  obtain ⟨t, total, -, -, rfl⟩ := unstake_eq_ok_iff.1 h
  exact of_insert rfl rfl rfl rfl

theorem closeTrove {status : TroveStatus} (h : s.closeTrove owner status = .ok s') :
    s.Writes owner s' := by
  obtain ⟨-, t, -, -, rfl⟩ := closeTrove_eq_ok_iff.1 h
  exact of_insert rfl rfl rfl rfl

/-- The base rate is nobody's. -/
theorem of_rated {rate : BaseRate} (h : Writes { s with baseRate := rate } owner s') :
    s.Writes owner s' :=
  ⟨h.others_eq, h.snapshot_eq, h.surplus_eq, h.stability_eq⟩

/-- Neither is the active pool. -/
theorem booked (h : s.Writes owner s') (active : Balance) :
    s.Writes owner { s' with pools := { s'.pools with active := active } } :=
  ⟨h.others_eq, h.snapshot_eq, h.surplus_eq, h.stability_eq⟩

/-- **Writing the record of one owner leaves the others what they have.** -/
theorem holdings_eq (h : s.Writes owner s') (ho : other ≠ owner) :
    s'.holdings other = s.holdings other := by
  refine holdings_congr (h.others_eq other ho) h.snapshot_eq ?_ ?_ ?_
  · rw [h.surplus_eq]
  · rw [h.stability_eq]
  · rw [h.stability_eq]

end Writes

end State

/-! ## Claims and deposits -/

theorem Surplus.claimable_paidOut {surplus rest : Surplus} {owner other : Address} {amount : Amount}
    (h : surplus.paidOut owner = .ok (amount, rest)) (ho : other ≠ owner) :
    rest.claimable other = surplus.claimable other := by
  simp only [paidOut, bind_eq_ok_iff, pure_eq_ok_iff, Prod.mk.injEq] at h
  obtain ⟨_, -, total, -, -, rfl⟩ := h
  simp only [claimable, Table.get?_erase_of, if_neg ho]

namespace Ledger

variable {l : Ledger} {owner other : Address}

/-! ## Plans -/

/-- The plan leaves another user what they have. -/
structure Spares (l : Ledger) (other : Address) (d : Draft) : Prop where
  holdings_eq : d.state.holdings other = l.state.holdings other
  /-- Tokens move between the user who asks and the protocol. -/
  moves_eq : other ≠ l.accounts.gasPool → other ≠ l.accounts.stabilityPool →
    other ≠ l.accounts.staking →
      TokenMove.takenFrom d.moves other = 0 ∧ TokenMove.givenTo d.moves other = 0

theorem Opening.spares {r : OpenRequest} {plan : Plan Opened} (o : Opening l r plan)
    (ho : other ≠ r.owner) : l.Spares other plan.draft := by
  obtain ⟨⟨rate, hcharged⟩, hmoves, -⟩ := chargeFeeIf_ok o.charged_eq
  have hopened := State.Writes.openTrove o.opened_eq
  rw [hcharged] at hopened
  constructor
  · rw [o.draft_eq]
    simp only [Draft.state_reportingStakes, Draft.state_reportingTrove, Draft.state_moving,
      Draft.state_ranking, Draft.state_withState]
    exact ((hopened.of_rated.trans (.restake o.staked_eq)).booked o.active).holdings_eq ho
  · intro hgas _ hstaking
    simp [o.draft_eq, hmoves, ho, hgas, hstaking]

theorem Adjustment.spares {r : AdjustRequest} {plan : Plan Adjusted} (a : Adjustment l r plan)
    (ho : other ≠ r.owner) : l.Spares other plan.draft := by
  obtain ⟨⟨rate, hcharged⟩, hmoves, -⟩ := chargeFeeIf_ok a.charged_eq
  have hamended := State.Writes.amend a.amended_eq
  rw [hcharged] at hamended
  have hwritten := hamended.of_rated.trans (.restake a.staked_eq)
  constructor
  · rw [a.draft_eq]
    simp only [Draft.state_reportingStakes, Draft.state_reportingTrove, Draft.state_moving,
      Draft.state_ranking, Draft.state_withState]
    exact (((State.Writes.realize a.realized_eq).trans hwritten).booked a.active).holdings_eq ho
  · intro hgas _ hstaking
    cases hg : r.debtGrows <;> simp [a.draft_eq, hmoves, hg, ho, hstaking]

theorem Closing.spares {plan : Plan Closed} (c : Closing l owner plan) (ho : other ≠ owner) :
    l.Spares other plan.draft := by
  have hclosed : c.realized.Writes owner c.closed :=
    (State.Writes.unstake c.unstaked_eq).trans (.closeTrove c.closed_eq)
  constructor
  · rw [c.draft_eq]
    simp only [Draft.state_reportingStakes, Draft.state_reportingTrove, Draft.state_moving,
      Draft.state_ranking, Draft.state_start]
    exact (((State.Writes.realize c.realized_eq).trans hclosed).booked c.active).holdings_eq ho
  · intro hgas _ _
    simp [c.draft_eq, ho, hgas]

theorem spares_of_rewriting {change : DepositChange} {stability : StabilityPool} {d : Draft}
    (w : l.state.stability.Rewriting owner change stability) (ho : other ≠ owner)
    (hstate : d.state = { l.state with stability := stability })
    (hmoves : other ≠ l.accounts.stabilityPool →
      TokenMove.takenFrom d.moves other = 0 ∧ TokenMove.givenTo d.moves other = 0) :
    l.Spares other d := by
  obtain ⟨hcompounded, hgain⟩ := w.others_eq ho
  refine ⟨?_, fun _ hpool _ => hmoves hpool⟩
  rw [hstate]
  exact State.holdings_congr rfl rfl rfl hcompounded hgain

/-- **Every plan that a user asks for themselves spares the others.** -/
theorem planOf_spares {r : Request} (hr : r.IsPersonal) (ho : other ≠ r.user) {plan : Plan Answer}
    (h : l.planOf r = .ok plan) : l.Spares other plan.draft := by
  cases planned_of_planOf h with
  | opened steps => exact steps.spares ho
  | adjusted steps => exact steps.spares ho
  | closed steps => exact steps.spares ho
  | realized state_eq moves_eq =>
    refine ⟨(State.Writes.realize state_eq).holdings_eq ho, fun _ _ _ => ?_⟩
    simp [moves_eq]
  | liquidated request_eq steps =>
    exact absurd hr (Request.not_isPersonal_of_liquidation request_eq)
  | redeemed steps => exact hr.elim
  | claimed paid_eq state_eq moves_eq =>
    refine ⟨?_, fun _ _ _ => by simp [moves_eq]⟩
    rw [Plan.draft_seen, state_eq]
    exact State.holdings_congr rfl rfl (Surplus.claimable_paidOut paid_eq ho) rfl rfl
  | @deposited owner amount _ _ deposit_eq state_eq moves_eq =>
    have ho : other ≠ owner := ho
    obtain ⟨hw, -⟩ := StabilityPool.deposit_ok deposit_eq
    exact spares_of_rewriting hw ho state_eq fun hpool => by simp [moves_eq, ho, hpool]
  | @withdrawn owner amount _ _ _ withdraw_eq state_eq moves_eq =>
    have ho : other ≠ owner := ho
    obtain ⟨hw, -⟩ := StabilityPool.withdraw_ok withdraw_eq
    exact spares_of_rewriting hw ho state_eq fun hpool => by simp [moves_eq, ho, hpool]

/-! ## Requests -/

/-- **A request that a user makes for themselves leaves everybody else what they have:** status,
stake, trove with its pending share, claim on surplus, deposit and gain, and the tokens, save those
of the accounts through which the protocol moves them. -/
theorem others_undisturbed {r : Request} {answer : Option Answer} {next : Ledger}
    (hr : r.IsPersonal) (ho : other ≠ r.user) (h : l.obey (.request r) = (.ok answer, next)) :
    next.state.holdings other = l.state.holdings other ∧
      (other ≠ l.accounts.gasPool → other ≠ l.accounts.stabilityPool →
        other ≠ l.accounts.staking → next.token.balance other = l.token.balance other) := by
  have hcases := obey_request_cases (l := l) r
  rw [h] at hcases
  obtain ⟨plan, hplan, -, hc⟩ | ⟨_, hstop, -⟩ := hcases
  · have hcommit : l.commit plan.draft = (.ok (), next) := hc
    obtain ⟨-, -, htoken, hn⟩ := commit_ok hcommit
    have hspares := planOf_spares hr ho hplan
    constructor
    · rw [hn]
      exact hspares.holdings_eq
    · intro hgas hpool hstaking
      obtain ⟨htaken, hgiven⟩ := hspares.moves_eq hgas hpool hstaking
      obtain ⟨-, hbalance⟩ := TokenMove.applyInTurn_ok htoken
      have hother := hbalance other
      rw [htaken, hgiven] at hother
      exact Amount.ext hother
  · cases hstop

/-- A third trove is opened, next to one whose owner has a deposit with a gain. -/
theorem others_undisturbed_firstOffset : ∃ start next answer,
    starting .standard twoThousand = .ok start ∧
    (start.after firstOffset).obey (opening ⟨5, by decide⟩ 10 2000) = (.ok answer, next) ∧
    (start.after firstOffset).state.stability.gain ⟨2, by decide⟩ ≠ .ok 0 ∧
    next.state.holdings ⟨2, by decide⟩ = (start.after firstOffset).state.holdings ⟨2, by decide⟩ ∧
    next.token.balance ⟨2, by decide⟩ = (start.after firstOffset).token.balance ⟨2, by decide⟩ := by
  obtain ⟨start, h⟩ : ∃ start, starting .standard twoThousand = .ok start :=
    ⟨_, starting_standard _⟩
  obtain ⟨⟨answer, hanswer⟩, hgain, hgas, hpool, hstaking⟩ :
      (∃ answer, ((start.after firstOffset).obey (opening ⟨5, by decide⟩ 10 2000)).1 = .ok answer) ∧
      (start.after firstOffset).state.stability.gain ⟨2, by decide⟩ ≠ .ok 0 ∧
      ⟨2, by decide⟩ ≠ (start.after firstOffset).accounts.gasPool ∧
      ⟨2, by decide⟩ ≠ (start.after firstOffset).accounts.stabilityPool ∧
      ⟨2, by decide⟩ ≠ (start.after firstOffset).accounts.staking := by
    rw [starting_eq h]
    decide +kernel
  have hobey : (start.after firstOffset).obey (opening ⟨5, by decide⟩ 10 2000) =
      (.ok answer, ((start.after firstOffset).obey (opening ⟨5, by decide⟩ 10 2000)).2) :=
    Prod.ext hanswer rfl
  have hother : (⟨2, by decide⟩ : Address) ≠ ⟨5, by decide⟩ := by decide
  obtain ⟨hholdings, hbalance⟩ := others_undisturbed
    (r := .openTrove ⟨⟨5, by decide⟩, .whole 10, .whole 2000, Amount.unit, .none⟩)
    trivial hother hobey
  exact ⟨start, _, answer, h, hobey, hgain, hholdings, hbalance hgas hpool hstaking⟩

end Ledger

end Stablecoin
