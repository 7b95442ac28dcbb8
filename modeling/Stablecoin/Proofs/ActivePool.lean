/-
  Stablecoin theory — the active pool holds what is recorded.

  Records and pool are changed by different code, and for many troves the pool is
  changed only once at the end.  In between, something is in the active pool that
  no record shows any more: `State.Booked` says how much.  A liquidation starts
  and ends with nothing, because every trove is split completely
  (`Split.Complete`); a redemption, because it takes out what it has drawn.

  * `Ledger.planOf_booked`: every plan ends with pool and records in agreement;
  * `Ledger.active_pool_recorded`: so does every run.
-/
import Stablecoin.Proofs.TroveChanges

namespace Stablecoin

/-- The active pool holds what the active troves record, and so much besides. -/
def State.Booked (s : State) (loose : Side → Nat) : Prop :=
  ∀ side, s.pools.active.on side = s.sumActive (·.on side) + loose side

theorem State.Booked.realization {s s' : State} {loose : Side → Nat} {owner : Address}
    {share : PendingShare} {t t' : Trove} (hb : s.Booked loose)
    (h : s.Realization owner share t t' s') : s'.Booked loose := by
  intro side
  have hbooked := hb side
  have hsum := h.replaced.sum_eq (·.on side)
  have hactive := h.active_eq side
  have hrecord := h.record_eq side
  simp only [Option.elim_some] at hsum
  omega

/-! ## Splits -/

/-- The parts of a split are all of the debt and all of the collateral, and collateral is spread
only together with debt. -/
structure Split.Complete (s : Split) (debt coll : Amount) : Prop where
  debt_eq : s.debt = debt
  coll_eq : s.coll = coll
  debt_parts : debt.val = s.debtOffset.val + s.debtSpread.val
  coll_parts :
    coll.val = s.collReward.val + s.collOffset.val + s.collSpread.val + s.surplus.val
  spread_zero : s.debtSpread.val = 0 → s.collSpread.val = 0

namespace Split

variable {debt coll deposits price : Amount} {p : Parameters} {s : Split}

/-- A division of debt, if there is any, leaves nothing over. -/
theorem divide_parts {d : Division} (h : divide debt coll deposits = .ok d) (h0 : debt ≠ 0) :
    debt.val = d.debtOffset.val + d.debtSpread.val ∧
      coll.val = d.collOffset.val + d.collSpread.val ∧
      (d.debtSpread.val = 0 → d.collSpread.val = 0) := by
  rw [Amount.ne_zero_iff] at h0
  unfold divide at h
  split at h
  · cases h
    simp only [Amount.val_zero, Nat.zero_add, true_and]
    omega
  simp only [bind_eq_ok_iff, pure_eq_ok_iff, Amount.mulDiv_eq_ok_iff, Amount.minus_eq_ok_iff,
    Amount.sub_eq_ok_iff] at h
  obtain ⟨collOffset, ⟨-, hoffset⟩, debtSpread, hspread, collSpread, hcoll, rfl⟩ := h
  dsimp only
  refine ⟨by omega, by omega, ?_⟩
  intro hzero
  -- all debt is cancelled, so that depositors get all collateral
  have hall : (min debt deposits).val = debt.val := by omega
  rw [hall, Nat.mul_div_cancel _ h0] at hoffset
  omega

theorem normal_complete (h : normal debt coll deposits p = .ok s) (h0 : debt ≠ 0) :
    s.Complete debt coll := by
  simp only [normal, bind_eq_ok_iff, pure_eq_ok_iff, Amount.sub_eq_ok_iff] at h
  obtain ⟨reward, -, rest, hrest, d, hd, rfl⟩ := h
  obtain ⟨hdebt, hcoll, hzero⟩ := divide_parts hd h0
  refine ⟨rfl, rfl, hdebt, ?_, hzero⟩
  simp only [Amount.val_zero]
  omega

theorem redistributed_complete (h : redistributed debt coll p = .ok s) (h0 : debt ≠ 0) :
    s.Complete debt coll := by
  rw [Amount.ne_zero_iff] at h0
  simp only [redistributed, bind_eq_ok_iff, pure_eq_ok_iff, Amount.sub_eq_ok_iff] at h
  obtain ⟨reward, -, rest, hrest, rfl⟩ := h
  refine ⟨rfl, rfl, ?_, ?_, ?_⟩ <;> simp only [Amount.val_zero] <;> omega

theorem capped_complete (h : capped debt coll price p = .ok s) : s.Complete debt coll := by
  simp only [capped, bind_eq_ok_iff, pure_eq_ok_iff, Amount.sub_eq_ok_iff] at h
  obtain ⟨cap, -, reward, -, offset, hoffset, surplus, hsurplus, rfl⟩ := h
  refine ⟨rfl, rfl, rfl, ?_, fun _ => rfl⟩
  simp only [Amount.val_zero]
  omega

end Split

namespace Ledger

variable {l : Ledger} {price : Amount} {listed : Bool}

/-- A trove that is taken has debt: without any, its ratio would be above all others. -/
theorem judge_take_debt {w : Sweep} {whole : EntireTrove} {split : Split}
    (h : l.judge price listed w whole = .ok (.take split)) : whole.debt ≠ 0 := by
  intro h0
  have hratio : Amount.ratio whole.coll whole.debt price = .ok Amount.maximum := if_pos h0
  have hunit : ¬ Amount.maximum ≤ Amount.unit := by decide
  have hnot : ∀ a : Amount, ¬ Amount.maximum < a := fun a => Nat.not_lt.2 a.le_maximum
  simp only [judge, hratio, bind_eq_ok_iff, Except.ok.injEq, exists_eq_left', hnot, if_false] at h
  split at h
  · rw [pure_eq_ok_iff] at h
    cases listed <;> cases h
  split at h
  · rw [pure_eq_ok_iff] at h
    cases listed <;> cases h
  split at h
  · cases h
  simp only [bind_eq_ok_iff] at h
  obtain ⟨systemRatio, -, choice, hchoice, h⟩ := h
  simp only [Split.inRecovery, hunit, hnot, if_false, false_and, pure_eq_ok_iff] at hchoice
  subst hchoice
  cases h

/-- **A trove that is taken is split completely.** -/
theorem judge_complete {w : Sweep} {whole : EntireTrove} {split : Split}
    (h : l.judge price listed w whole = .ok (.take split)) :
    split.Complete whole.debt whole.coll := by
  have h0 := judge_take_debt h
  obtain ⟨-, -, ⟨-, h⟩ | ⟨-, h⟩ | ⟨-, h⟩⟩ := judge_take h
  · exact Split.redistributed_complete h h0
  · exact Split.normal_complete h h0
  · exact Split.capped_complete h

end Ledger

/-! ## Liquidating -/

/-- What the troves of a call held on one side. -/
def SplitTotals.on (t : SplitTotals) (side : Side) : Nat := side.of t.coll t.debt

/-- The parts of the totals are all of them. -/
structure SplitTotals.Complete (t : SplitTotals) : Prop where
  debt_parts : t.debt.val = t.debtOffset.val + t.debtSpread.val
  coll_parts :
    t.coll.val = t.collReward.val + t.collOffset.val + t.collSpread.val + t.surplus.val
  spread_zero : t.debtSpread.val = 0 → t.collSpread.val = 0

theorem SplitTotals.including_on {t t' : SplitTotals} {s : Split} (h : t.including s = .ok t')
    (side : Side) : t'.on side = t.on side + side.of s.coll s.debt := by
  simp only [including, bind_eq_ok_iff, pure_eq_ok_iff, Amount.add_eq_ok_iff] at h
  obtain ⟨coll, hc, debt, hd, _, -, _, -, _, -, _, -, _, -, _, -, _, -, rfl⟩ := h
  cases side
  · exact hc
  · exact hd

theorem SplitTotals.Complete.including {t t' : SplitTotals} {s : Split} {debt coll : Amount}
    (ht : t.Complete) (hs : s.Complete debt coll) (h : t.including s = .ok t') : t'.Complete := by
  obtain ⟨hreward, -, hdoff, hcoff, hdspread, hcspread, hsurplus⟩ := including_ok h
  have hc := including_on h .coll
  have hd := including_on h .debt
  simp only [on, Side.of] at hc hd
  have := ht.debt_parts
  have := ht.coll_parts
  have := ht.spread_zero
  have hsd := hs.debt_parts
  have hsc := hs.coll_parts
  have := hs.spread_zero
  rw [← hs.debt_eq] at hsd
  rw [← hs.coll_eq] at hsc
  refine ⟨?_, ?_, ?_⟩ <;> omega

namespace Ledger

variable {l : Ledger} {price : Amount} {listed : Bool}

theorem sweep_complete {w w' : Sweep} {candidates : List Address}
    (h : l.sweep price listed w candidates = .ok w') (hw : w.totals.Complete) :
    w'.totals.Complete := by
  refine sweep_keeps h ?_ hw
  intro u v step hu
  exact hu.including (judge_complete step.judge_eq) step.totals_eq

/-- While candidates are visited, the active pool still holds what was taken. -/
theorem sweep_booked {w w' : Sweep} {candidates : List Address}
    (h : l.sweep price listed w candidates = .ok w') (hw : w.totals.Complete)
    (hb : w.draft.state.Booked w.totals.on) :
    w'.totals.Complete ∧ w'.draft.state.Booked w'.totals.on := by
  refine ⟨sweep_complete h hw, ?_⟩
  refine sweep_keeps h ?_ hb
  intro u v step hu side
  have hsplit := judge_complete step.judge_eq
  obtain ⟨t, hreplaced, -, hwhole, hpools⟩ := step.replaced
  have hbooked := hu side
  have hsum := hreplaced.sum_eq (·.on side)
  have hwhole := hwhole side
  have htotals := SplitTotals.including_on step.totals_eq side
  obtain ⟨hactive, -⟩ := hpools side
  rw [hsplit.coll_eq, hsplit.debt_eq] at htotals
  simp only [Option.elim_some, Option.elim_none] at hsum
  omega

/-- Settling the totals takes exactly what was taken out of the active pool. -/
theorem Liquidation.booked {liquidator : Address} {targets : Targets} {plan : Plan Liquidated}
    (q : Liquidation l liquidator targets plan) (hb : l.state.Booked fun _ => 0) :
    plan.draft.state.Booked fun _ => 0 := by
  obtain ⟨hcomplete, hswept⟩ := sweep_booked q.swept_eq ⟨rfl, rfl, fun _ => rfl⟩ (by
    intro side
    rw [Draft.state_start, hb side]
    cases side <;> rfl)
  have hoffset : ∀ side, q.swept.draft.state.pools.active.on side =
        q.offset.state.pools.active.on side +
          side.of q.swept.totals.collOffset q.swept.totals.debtOffset ∧
      q.offset.state.sumActive (·.on side) = q.swept.draft.state.sumActive (·.on side) := by
    obtain ⟨h0, hd⟩ | ⟨-, stability, active, -, ha, hstate, -⟩ := settleOffset_cases q.offset_eq
    · have hcoll := sweep_collOffset q.swept_eq (fun _ => rfl) (Amount.eq_zero_iff.1 h0)
      rw [hd, h0, Amount.eq_zero_iff.2 hcoll]
      intro side
      cases side <;> exact ⟨rfl, rfl⟩
    · intro side
      rw [hstate]
      exact ⟨Balance.decreased_on ha side, rfl⟩
  have hspread : ∀ side, q.offset.state.pools.active.on side =
        q.spread.state.pools.active.on side +
          side.of q.swept.totals.collSpread q.swept.totals.debtSpread ∧
      q.spread.state.sumActive (·.on side) = q.offset.state.sumActive (·.on side) := by
    obtain ⟨h0, hd⟩ | ⟨h0, hr, -⟩ := settleSpread_cases q.spread_eq
    · have hcoll := hcomplete.spread_zero (Amount.eq_zero_iff.1 h0)
      rw [hd, h0, Amount.eq_zero_iff.2 hcoll]
      intro side
      cases side <;> exact ⟨rfl, rfl⟩
    · obtain ⟨hno, -⟩ | ⟨-, spread, active, default, -, ha, -, hstate⟩ :=
        State.redistribute_cases hr
      · exact absurd hno h0
      · intro side
        rw [hstate]
        exact ⟨Balance.decreased_on ha side, rfl⟩
  obtain ⟨less, noted, active, hless, hn, ha, hstate, -⟩ := settleRest_ok q.draft_eq
  obtain ⟨_, _, -, -, rfl⟩ := State.note_eq_ok_iff.1 hn
  intro side
  obtain ⟨hactive₁, hsum₁⟩ := hoffset side
  obtain ⟨hactive₂, hsum₂⟩ := hspread side
  have hactive₃ := Balance.decreased_on hless side
  have hactive₄ := Balance.decreased_on ha side
  have hbooked := hswept side
  have hsum : plan.draft.state.sumActive (·.on side) = q.spread.state.sumActive (·.on side) := by
    rw [hstate]
    rfl
  have hlast : plan.draft.state.pools.active = active := by rw [hstate]
  have hcoll := hcomplete.coll_parts
  have hdebt := hcomplete.debt_parts
  rw [hlast, hsum, hsum₂, hsum₁]
  cases side
  · simp only [SplitTotals.on, Side.of] at *
    omega
  · simp only [SplitTotals.on, Side.of, Amount.val_zero] at *
    omega

end Ledger

/-! ## Redeeming -/

/-- What a redemption has drawn on one side. -/
def Drawing.on (w : Drawing) (side : Side) : Nat := side.of w.drawn w.redeemed

namespace Ledger

variable {l : Ledger} {r : RedeemRequest} {price : Amount}

/-- While troves are visited, the active pool still holds what was drawn. -/
theorem draw_booked {w w' : Drawing} {owners : List Address} (h : l.draw r price w owners = .ok w')
    (hb : w.draft.state.Booked w.on) : w'.draft.state.Booked w'.on := by
  refine draw_keeps h ?_ ?_ hb
  · intro u v step ih side
    obtain ⟨t, t', new, change, e⟩ := step.exists_effect
    have hbooked := ih.realization e.realization side
    have hsum := e.replaced.sum_eq (·.on side)
    have hpools := e.active_eq side
    have hdrawn : v.on side = u.on side + side.of step.lot.coll step.lot.debt := by
      cases side
      · exact step.coll_eq
      · exact step.redeemed_eq
    simp only [Option.elim_some] at hsum
    omega
  · intro u owner share s hs hu
    obtain ⟨t, t', hr⟩ := State.exists_realization hs
    exact hu.realization hr

theorem Redemption.booked {plan : Plan Redeemed} (q : Redemption l r plan)
    (hb : l.state.Booked fun _ => 0) : plan.draft.state.Booked fun _ => 0 := by
  have hwalked := draw_booked q.walked_eq (by
    intro side
    rw [Draft.state_start, hb side]
    cases side <;> rfl)
  intro side
  have hbooked := hwalked side
  have hactive := Balance.decreased_on q.active_eq side
  have hsum : plan.draft.state.sumActive (·.on side) =
      q.walked.draft.state.sumActive (·.on side) := by
    rw [q.state_eq]
    rfl
  have hlast : plan.draft.state.pools.active = q.active := by rw [q.state_eq]
  simp only [Drawing.on] at hbooked
  rw [hlast, hsum]
  beta_reduce
  omega

/-! ## All requests -/

/-- **Every plan ends with the active pool and the records in agreement.** -/
theorem planOf_booked (hb : l.state.Booked fun _ => 0) {r : Request} {plan : Plan Answer}
    (h : l.planOf r = .ok plan) : plan.draft.state.Booked fun _ => 0 := by
  cases planned_of_planOf h with
  | @opened r _ steps =>
    intro side
    have hbooked := hb side
    have hsum : _ + 0 = _ + side.of r.deposit steps.debt := steps.replaced.sum_eq (·.on side)
    obtain ⟨hpools, -⟩ := steps.pools_on side
    simp only [Plan.draft_seen]
    beta_reduce at hbooked ⊢
    omega
  | adjusted steps =>
    obtain ⟨t, hr⟩ := steps.realization
    intro side
    have hbooked := hb.realization hr side
    have hsum : _ + steps.trove.on side = _ + side.of steps.coll steps.debt :=
      steps.replaced.sum_eq (·.on side)
    obtain ⟨hpools, -⟩ := steps.pools_on side
    simp only [Plan.draft_seen]
    beta_reduce at hbooked ⊢
    omega
  | closed steps =>
    obtain ⟨t, hr⟩ := steps.realization
    intro side
    have hbooked := hb.realization hr side
    have hsum := steps.replaced.sum_eq (·.on side)
    obtain ⟨hpools, -⟩ := steps.pools_on side
    simp only [Option.elim_some, Option.elim_none] at hsum
    simp only [Plan.draft_seen]
    beta_reduce at hbooked ⊢
    omega
  | realized state_eq =>
    obtain ⟨t, t', hr⟩ := State.exists_realization state_eq
    exact hb.realization hr
  | liquidated _ steps => exact steps.booked hb
  | redeemed steps => exact steps.booked hb
  | claimed _ state_eq =>
    rw [Plan.draft_seen, state_eq]
    exact hb
  | deposited _ state_eq =>
    rw [Plan.draft_seen, state_eq]
    exact hb
  | withdrawn _ _ state_eq =>
    rw [Plan.draft_seen, state_eq]
    exact hb

theorem after_booked {params : Parameters} {accounts : ProtocolAccounts} {feed : PriceFeed}
    {token : TokenBook} {ranking : Ranking} (h : new params accounts feed token ranking = .ok l)
    (commands : List Command) : (l.after commands).state.Booked fun _ => 0 := by
  refine after_state (P := fun s => s.Booked fun _ => 0) (fun _ _ _ hb => planOf_booked hb)
    (fun _ _ _ _ hs => hs) ?_ commands
  rw [new_eq h]
  intro side
  cases side <;> rfl

/-- **The active pool holds what is recorded:** in every run of a ledger from its start, its
collateral is the sum of the collateral in the records of active troves, and its debt the sum of
their debt. -/
theorem active_pool_recorded {params : Parameters} {price : Amount}
    (h : starting params price = .ok l) (commands : List Command) :
    (l.after commands).state.pools.active.coll.val =
        ((l.after commands).state.activeTroves.map fun t => t.coll.val).sum ∧
      (l.after commands).state.pools.active.debt.val =
        ((l.after commands).state.activeTroves.map fun t => t.debt.val).sum := by
  have hafter := after_booked h commands
  exact ⟨hafter .coll, hafter .debt⟩

/-- The active pool with a first trove, fee and reserve included. -/
theorem active_pool_recorded_firstOpening : ∃ l, starting .standard twoThousand = .ok l ∧
    (l.after [firstOpening]).state.pools.active.debt.val = 2_210_000_000_000_000_000_000 ∧
    (l.after [firstOpening]).state.pools.active.coll.val =
        ((l.after [firstOpening]).state.activeTroves.map fun t => t.coll.val).sum ∧
      (l.after [firstOpening]).state.pools.active.debt.val =
        ((l.after [firstOpening]).state.activeTroves.map fun t => t.debt.val).sum :=
  ⟨_, starting_standard _, by decide +kernel, active_pool_recorded (starting_standard _) _⟩

end Ledger

end Stablecoin
