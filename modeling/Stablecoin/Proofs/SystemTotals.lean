/-
  Stablecoin theory — the totals of the system are amounts.

  What a trove holds with its pending share is a sum of two amounts, the record and
  the share, and it might have been refused.  It is not: record and share are parts
  of the active and of the default pool, and what both pools hold together is an
  amount, because every plan that adds to them has computed the new total.

  * `State.Totalled`: on both sides the total of the system is an amount.  Every plan
    keeps this (`Ledger.planOf_totalled`);
  * `State.exists_taken`: so there is room for the share of an active trove, in its
    record and in the active pool;
  * `Ledger.exists_contents`: so after every run each active trove holds amounts.
-/
import Stablecoin.Proofs.LiquidationBalance
import Stablecoin.Proofs.EntireTroves
import Stablecoin.Proofs.TroveRecords

namespace Stablecoin

namespace State

variable {s s' : State} {owner : Address} {t t' : Trove} {share : PendingShare}

/-- What the active and the default pool hold together is an amount on either side. -/
def Totalled (s : State) : Prop := ∀ side, s.pools.system side < Amount.limit

theorem totalled_empty : empty.Totalled := by
  intro side
  cases side <;> decide

theorem Totalled.of_le (hs : s.Totalled)
    (h : ∀ side, s'.pools.system side ≤ s.pools.system side) : s'.Totalled := by
  intro side
  exact Nat.lt_of_le_of_lt (h side) (hs side)

/-- Totals that have a ratio are amounts. -/
theorem totalled_of_systemRatio {price ratio : Amount} (h : s.systemRatio price = .ok ratio) :
    s.Totalled := by
  simp only [systemRatio, bind_eq_ok_iff] at h
  obtain ⟨coll, hcoll, debt, hdebt, -⟩ := h
  rw [systemColl_eq_ok_iff] at hcoll
  rw [systemDebt_eq_ok_iff] at hdebt
  intro side
  cases side with
  | coll => exact hcoll ▸ coll.val_lt
  | debt => exact hdebt ▸ debt.val_lt

/-- **The share of an active trove can be taken in:** the pools can move it, and there is room for it
in the record, which is part of what the active pool holds. -/
theorem exists_taken (hs : s.Totalled) (hc : s.Covered) (hb : s.Booked fun _ => 0)
    (ht : s.activeAt owner = some t) : ∃ share pools coll debt,
      s.spread.pending t = .ok share ∧ s.pools.realized share.coll share.debt = .ok pools ∧
      t.coll.add share.coll = .ok coll ∧ t.debt.add share.debt = .ok debt := by
  obtain ⟨share, default, hshare, hdefault⟩ := hc.exists_share ht
  have hactive : ∀ side, s.pools.active.on side + share.on side < Amount.limit := by
    intro side
    have hpart : s.pools.default.on side = default.on side + share.on side :=
      Balance.decreased_on hdefault side
    have htotal := hs side
    unfold Pools.system at htotal
    omega
  have hrecord : ∀ side, t.on side + share.on side ≤ s.pools.active.on side + share.on side := by
    intro side
    have hpart := elim_le_sumActive s (·.on side) owner
    have hbooked := hb side
    rw [ht, Option.elim_some] at hpart
    beta_reduce at hbooked
    omega
  obtain ⟨activeColl, hactiveColl⟩ := Amount.exists_val_eq (hactive .coll)
  obtain ⟨activeDebt, hactiveDebt⟩ := Amount.exists_val_eq (hactive .debt)
  obtain ⟨coll, hcoll⟩ :=
    Amount.exists_val_eq (Nat.lt_of_le_of_lt (hrecord .coll) (hactive .coll))
  obtain ⟨debt, hdebt⟩ :=
    Amount.exists_val_eq (Nat.lt_of_le_of_lt (hrecord .debt) (hactive .debt))
  refine ⟨share, { s.pools with active := ⟨activeColl, activeDebt⟩, default := default }, coll,
    debt, hshare, ?_, Amount.add_eq_ok_iff.2 hcoll, Amount.add_eq_ok_iff.2 hdebt⟩
  exact Pools.realized_eq_ok_iff.2
    ⟨Balance.increased_eq_ok_iff.2 ⟨hactiveColl, hactiveDebt⟩, hdefault, rfl, rfl⟩

/-- What an active trove holds with its share is within the totals of the system. -/
theorem exists_entire (hs : s.Totalled) (hc : s.Covered) (hb : s.Booked fun _ => 0)
    (ht : s.activeAt owner = some t) : ∃ whole, s.entire owner = .ok whole ∧
      t.debt ≤ whole.debt := by
  obtain ⟨share, _, coll, debt, hshare, -, hcoll, hdebt⟩ := exists_taken hs hc hb ht
  refine ⟨⟨debt, coll, share⟩, ?_, ?_⟩
  · rw [entire, activeTrove_eq_ok.2 ht]
    simp only [Redistribution.entire, bind_eq_ok_iff, pure_eq_ok_iff]
    exact ⟨_, rfl, share, hshare, debt, hdebt, coll, hcoll, rfl⟩
  · rw [Amount.le_iff_val_le, Amount.add_eq_ok_iff.1 hdebt]
    exact Nat.le_add_right _ _

end State

namespace Ledger

variable {l : Ledger}

/-! ## All requests -/

/-- No more is drawn from a trove than it holds with its share. -/
theorem DrawStep.Effect.lot_le {r : RedeemRequest} {price : Amount} {w w' : Drawing}
    {step : DrawStep l r price w w'} {t u : Trove} {new : Option Trove} {change : RankChange}
    (e : step.Effect t u new change) (side : Side) :
    new.elim 0 (·.on side) + side.of step.lot.coll step.lot.debt ≤ u.on side := by
  cases new with
  | none =>
    obtain ⟨left, hcoll, -⟩ := e.credited rfl
    have hdebt := e.net_eq rfl
    rw [Option.elim_none, Nat.zero_add]
    cases side with
    | coll => exact Nat.le.intro (hcoll.trans (Nat.add_comm _ _)).symm
    | debt => exact Nat.le.intro hdebt.symm
  | some rest => exact (e.rest_eq rest rfl side).ge

/-- While troves are visited, the totals of the system only fall. -/
theorem draw_system {r : RedeemRequest} {price : Amount} {w w' : Drawing} {owners : List Address}
    (h : l.draw r price w owners = .ok w') (side : Side) :
    w'.draft.state.pools.system side ≤ w.draft.state.pools.system side := by
  refine draw_keeps h ?_ ?_ (Nat.le_refl _)
  · intro u v step hu
    obtain ⟨t, t', new, change, e⟩ := step.exists_effect
    have hlot := e.lot_le side
    have hactive := e.active_eq side
    refine Nat.le_trans ?_ hu
    rw [← e.realization.system_eq side]
    unfold Pools.system
    rw [e.default_eq]
    omega
  · intro u owner share s hs hu
    obtain ⟨t, t', hr⟩ := State.exists_realization hs
    exact (hr.system_eq side).trans_le hu

theorem Redemption.system_le {r : RedeemRequest} {plan : Plan Redeemed} (q : Redemption l r plan)
    (side : Side) : plan.draft.state.pools.system side ≤ l.state.pools.system side := by
  have hwalked := draw_system q.walked_eq side
  have hactive := Balance.decreased_on q.active_eq side
  rw [Draft.state_start] at hwalked
  rw [q.state_eq]
  unfold Pools.system at hwalked ⊢
  dsimp only
  omega

/-- **Every plan leaves totals that are amounts:** those that add to a trove have computed the ratio
of the new totals, and the others do not add to any. -/
theorem planOf_totalled (hl : l.state.Totalled) {r : Request} {plan : Plan Answer}
    (h : l.planOf r = .ok plan) : plan.draft.state.Totalled := by
  cases planned_of_planOf h with
  | opened steps => exact State.totalled_of_systemRatio steps.systemRatio_committed
  | adjusted steps => exact State.totalled_of_systemRatio steps.systemRatio_committed
  | closed steps => exact State.totalled_of_systemRatio steps.systemRatio_committed
  | realized state_eq =>
    obtain ⟨t, t', hr⟩ := State.exists_realization state_eq
    exact hl.of_le fun side => (hr.system_eq side).le
  | liquidated _ steps =>
    refine hl.of_le ?_
    intro side
    have hsystem := steps.pools_system side
    rw [Plan.draft_seen]
    omega
  | redeemed steps => exact hl.of_le steps.system_le
  | claimed _ state_eq =>
    rw [Plan.draft_seen, state_eq]
    exact hl
  | deposited _ state_eq =>
    rw [Plan.draft_seen, state_eq]
    exact hl
  | withdrawn _ _ state_eq =>
    rw [Plan.draft_seen, state_eq]
    exact hl

/-! ## Runs -/

section

variable {params : Parameters} {accounts : ProtocolAccounts} {feed : PriceFeed} {token : TokenBook}
  {ranking : Ranking} {owner : Address}

theorem after_totalled (h : new params accounts feed token ranking = .ok l)
    (commands : List Command) : (l.after commands).state.Totalled := by
  refine after_state (P := State.Totalled) (fun _ _ _ hl => planOf_totalled hl)
    (fun _ _ _ _ hs => hs) ?_ commands
  rw [new_eq h]
  exact State.totalled_empty

/-- **Every active trove holds amounts, and some debt:** in every run of a new ledger, what is in
its record and its pending share can be added up. -/
theorem exists_contents (h : new params accounts feed token ranking = .ok l)
    (commands : List Command) (hactive : (l.after commands).state.isActive owner = true) :
    ∃ held, (l.after commands).state.contents owner = .ok held ∧ held.debt ≠ 0 := by
  obtain ⟨t, ht⟩ := State.isActive_iff.1 hactive
  obtain ⟨whole, hwhole, hdebt⟩ := State.exists_entire (after_totalled h commands)
    (after_covered h commands) (after_booked h commands) ht
  refine ⟨⟨whole.coll, whole.debt⟩, State.contents_of_entire hwhole, ?_⟩
  have hfloor := (after_viable h commands owner t ht).floor_le
  have hparams := Parameters.consistent (after_validate h commands)
  have hpos := Amount.ne_zero_iff.1 hparams.minimumNetDebt_ne
  rw [Amount.le_iff_val_le] at hdebt
  rw [Amount.ne_zero_iff]
  dsimp only
  omega

end

end Ledger

end Stablecoin
