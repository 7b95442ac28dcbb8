/-
  Stablecoin theory — the balance of a liquidation.

  Shares pass from pool to pool trove by trove, and the totals are settled once at the
  end, each part only if there is any.  That nothing is lost on the way, and nothing
  counted twice, shows in the totals of the system: they fall by what depositors
  cancel, and by the collateral that goes to depositors, liquidator and borrowers
  (`Liquidation.pools_system`).  Debt and collateral that are spread stay in the system.

  * `Liquidated.Balanced` is the balance of a call;
  * `Ledger.liquidation_balanced`: every liquidation that is carried out keeps it, on
    every ledger.
-/
import Stablecoin.Proofs.ActivePool
import Stablecoin.Proofs.ModeGates
import Stablecoin.Proofs.Seizures

namespace Stablecoin

/-! ## The system -/

theorem State.systemDebt_eq_ok_iff {s : State} {debt : Amount} :
    s.systemDebt = .ok debt ↔ debt.val = s.pools.system .debt := Amount.add_eq_ok_iff

theorem State.systemColl_eq_ok_iff {s : State} {coll : Amount} :
    s.systemColl = .ok coll ↔ coll.val = s.pools.system .coll := Amount.add_eq_ok_iff

/-- The balance of a call: the parts are the whole, which the troves held before; the system and the
deposits lose what leaves them, and the liquidator gets a reserve for each trove. -/
structure Liquidated.Balanced (details : Liquidated) (l next : Ledger) : Prop where
  debt_parts : details.totals.debt.val =
    details.totals.debtOffset.val + details.totals.debtSpread.val
  coll_parts : details.totals.coll.val =
    details.totals.collReward.val + details.totals.collOffset.val +
      details.totals.collSpread.val + details.totals.surplus.val
  owners_nodup : details.owners.Nodup
  wholes_eq : ∃ wholes, details.owners.mapM l.state.entire = .ok wholes ∧
    details.totals.debt.val = (wholes.map fun whole => whole.debt.val).sum ∧
    details.totals.coll.val = (wholes.map fun whole => whole.coll.val).sum
  systemDebt_eq : ∃ before after, l.state.systemDebt = .ok before ∧
    next.state.systemDebt = .ok after ∧ before.val = after.val + details.totals.debtOffset.val
  systemColl_eq : ∃ before after, l.state.systemColl = .ok before ∧
    next.state.systemColl = .ok after ∧
    before.val = after.val + details.totals.collOffset.val + details.totals.collReward.val +
      details.totals.surplus.val
  deposits_eq : l.state.stability.deposits.val =
    next.state.stability.deposits.val + details.totals.debtOffset.val
  reward_eq : details.totals.debtReward.val =
    l.params.gasCompensation.val * details.owners.length

/-! ## Sums over the troves -/

namespace Sweep.Took

variable {w : Sweep} {l : Ledger} {price : Amount} {recovery listed : Bool} {seized : List Seizure}
  (hw : w.Took l price recovery listed seized)
include hw

/-- What the owners held can be looked up in the ledger that the visit began with. -/
theorem wholes_eq : w.owners.mapM l.state.entire = .ok (seized.map Seizure.whole) := by
  have hentire := hw.entire_eq
  rw [hw.owners_eq]
  clear hw
  induction seized with
  | nil => rfl
  | cons z rest ih =>
    rw [List.forall_mem_cons] at hentire
    rw [List.map_cons, List.mapM_cons, hentire.1, ih hentire.2]
    rfl

theorem totals_on (side : Side) : w.totals.on side =
    (seized.map fun z => side.of z.whole.coll z.whole.debt).sum := by
  have hsum := SplitTotals.sum_eq (fun h => SplitTotals.including_on h side) hw.totals_eq
  have heach : ∀ z ∈ seized,
      side.of z.split.coll z.split.debt = side.of z.whole.coll z.whole.debt := by
    intro z hz
    obtain ⟨u, -, hjudge⟩ := hw.judged z hz
    have hsplit := Ledger.judge_complete hjudge
    rw [hsplit.coll_eq, hsplit.debt_eq]
  have hzero : SplitTotals.zero.on side = 0 := Side.of_zero side
  rw [hsum, hzero, Nat.zero_add, List.map_congr_left heach]

theorem reward_eq :
    w.totals.debtReward.val = l.params.gasCompensation.val * w.owners.length := by
  have hsum := SplitTotals.sum_eq (fun h => (SplitTotals.including_ok h).2.1) hw.totals_eq
  have heach : ∀ z ∈ seized, z.split.debtReward.val = l.params.gasCompensation.val := by
    intro z hz
    obtain ⟨u, -, hjudge⟩ := hw.judged z hz
    rw [Ledger.judge_debtReward hjudge]
  have hzero : SplitTotals.zero.debtReward.val = 0 := rfl
  rw [hsum, hzero, Nat.zero_add, List.map_congr_left heach, List.map_const', List.sum_replicate,
    hw.owners_eq, List.length_map, smul_eq_mul, Nat.mul_comm]

end Sweep.Took

namespace Ledger

variable {l : Ledger} {price : Amount} {recovery listed : Bool} {d d' : Draft} {t : SplitTotals}

/-- While candidates are visited, shares only pass from pool to pool. -/
theorem sweep_system {w w' : Sweep} {candidates : List Address}
    (h : l.sweep price listed w candidates = .ok w') (side : Side) :
    w'.draft.state.pools.system side = w.draft.state.pools.system side := by
  refine sweep_keeps h ?_ rfl
  intro u v step hu
  obtain ⟨t, -, -, -, hpools⟩ := step.replaced
  obtain ⟨hactive, hdefault⟩ := hpools side
  rw [← hu]
  unfold Pools.system
  omega

theorem settleOffset_system (h : l.settleOffset d t = .ok d')
    (hcoll : t.debtOffset = 0 → t.collOffset = 0) (side : Side) :
    d.state.pools.system side =
      d'.state.pools.system side + side.of t.collOffset t.debtOffset := by
  rcases settleOffset_cases h with ⟨h0, rfl⟩ | ⟨-, stability, active, -, ha, hstate, -⟩
  · rw [hcoll h0, h0, Side.of_zero]
    rfl
  · have hactive := Balance.decreased_on ha side
    rw [hstate]
    simp only [Pools.system]
    omega

theorem settleSpread_system (h : settleSpread d t = .ok d') (side : Side) :
    d'.state.pools.system side = d.state.pools.system side := by
  rcases settleSpread_cases h with ⟨-, rfl⟩ | ⟨h0, hr, -⟩
  · rfl
  · rcases State.redistribute_cases hr with ⟨hno, -⟩ | ⟨-, spread, active, default, -, ha, hd, hstate⟩
    · exact absurd hno h0
    have hactive := Balance.decreased_on ha side
    have hdefault := Balance.increased_on hd side
    rw [hstate]
    simp only [Pools.system]
    omega

theorem settleRest_system {liquidator : Address} (h : l.settleRest d liquidator t = .ok d')
    (side : Side) : d.state.pools.system side =
      d'.state.pools.system side + side.of t.surplus 0 + side.of t.collReward 0 := by
  obtain ⟨less, noted, active, hless, hn, ha, hstate, -⟩ := settleRest_ok h
  obtain ⟨_, _, -, -, rfl⟩ := State.note_eq_ok_iff.1 hn
  have hsurplus := Balance.decreased_on hless side
  have hreward := Balance.decreased_on ha side
  rw [hstate]
  simp only [Pools.system] at hreward ⊢
  omega

variable {liquidator : Address} {targets : Targets} {plan : Plan Liquidated}

/-- **What leaves the system:** debt and collateral of the depositors, reward and surplus. -/
theorem Liquidation.pools_system (q : Liquidation l liquidator targets plan) (side : Side) :
    l.state.pools.system side = plan.draft.state.pools.system side +
      side.of q.swept.totals.collOffset q.swept.totals.debtOffset +
      side.of q.swept.totals.collReward 0 + side.of q.swept.totals.surplus 0 := by
  -- nothing is settled with the depositors when no debt is cancelled
  have hcoll : q.swept.totals.debtOffset = 0 → q.swept.totals.collOffset = 0 := by
    rw [Amount.eq_zero_iff, Amount.eq_zero_iff]
    exact sweep_collOffset q.swept_eq fun _ => rfl
  have hswept := sweep_system q.swept_eq side
  have hoffset := settleOffset_system q.offset_eq hcoll side
  have hspread := settleSpread_system q.spread_eq side
  have hrest := settleRest_system q.draft_eq side
  rw [Draft.state_start] at hswept
  omega

/-- What is left of a total of the system is an amount. -/
theorem Liquidation.exists_system (q : Liquidation l liquidator targets plan) {side : Side}
    {before : Amount} (hbefore : before.val = l.state.pools.system side) :
    ∃ after : Amount, after.val = plan.draft.state.pools.system side ∧
      before.val = after.val + side.of q.swept.totals.collOffset q.swept.totals.debtOffset +
        side.of q.swept.totals.collReward 0 + side.of q.swept.totals.surplus 0 := by
  have hsystem := q.pools_system side
  have hle : plan.draft.state.pools.system side ≤ before.val := by omega
  obtain ⟨after, hafter, -⟩ := Amount.exists_within hle
  exact ⟨after, hafter, by omega⟩

/-! ## The balance -/

variable {r : Request} {details : Liquidated} {next : Ledger}

/-- **A liquidation balances,** on every ledger: what the troves held is what depositors, other
troves, liquidator and borrowers get; the totals of the system fall by what leaves it, the deposits
by what they cancel, and the liquidator is paid a reserve for each trove. -/
theorem liquidation_balanced
    (h : l.obey (.request r) = (.ok (some (.liquidated details)), next)) :
    details.Balanced l next := by
  obtain ⟨liquidator, targets, plan, ⟨q⟩, rfl, hstate⟩ := exists_liquidation_of_obey h
  obtain ⟨seized, hw⟩ := q.took
  have hcomplete := sweep_complete q.swept_eq ⟨rfl, rfl, fun _ => rfl⟩
  obtain ⟨hcoll, hdebt, -⟩ := State.evaluate_ok q.system_eq
  rw [q.answer_eq]
  constructor
  case debt_parts => exact hcomplete.debt_parts
  case coll_parts => exact hcomplete.coll_parts
  case owners_nodup => exact hw.owners_nodup
  case wholes_eq =>
    refine ⟨_, hw.wholes_eq, ?_, ?_⟩
    · rw [List.map_map]
      exact hw.totals_on .debt
    · rw [List.map_map]
      exact hw.totals_on .coll
  case systemDebt_eq =>
    have hbefore : q.system.debt.val = l.state.pools.system .debt := hdebt
    obtain ⟨after, hafter, hfall⟩ := q.exists_system hbefore
    rw [hstate]
    exact ⟨q.system.debt, after, State.systemDebt_eq_ok_iff.2 hbefore,
      State.systemDebt_eq_ok_iff.2 hafter, hfall⟩
  case systemColl_eq =>
    have hbefore : q.system.coll.val = l.state.pools.system .coll := hcoll
    obtain ⟨after, hafter, hfall⟩ := q.exists_system hbefore
    rw [hstate]
    exact ⟨q.system.coll, after, State.systemColl_eq_ok_iff.2 hbefore,
      State.systemColl_eq_ok_iff.2 hafter, hfall⟩
  case deposits_eq =>
    rw [hstate]
    exact q.settled.deposits_eq
  case reward_eq => exact hw.reward_eq

/-- Two troves are taken at once, of which one is cancelled and the other spread. -/
theorem liquidation_balanced_twoFallen : ∃ start next details,
    starting .standard twoThousand = .ok start ∧
    (start.after twoFallen).obey (.request takeFallen) = (.ok (some (.liquidated details)), next) ∧
    details.totals.debtOffset = .whole 2210 ∧ details.totals.debtSpread = .whole 2009 ∧
    details.Balanced (start.after twoFallen) next := by
  obtain ⟨start, h⟩ : ∃ start, starting .standard twoThousand = .ok start :=
    ⟨_, starting_standard _⟩
  obtain ⟨details, hdetails, hoffset, hspread⟩ : ∃ details,
      ((start.after twoFallen).obey (.request takeFallen)).1 = .ok (some (.liquidated details)) ∧
      details.totals.debtOffset = .whole 2210 ∧ details.totals.debtSpread = .whole 2009 := by
    rw [starting_eq h]
    decide +kernel
  exact ⟨start, _, details, h, Prod.ext hdetails rfl, hoffset, hspread,
    liquidation_balanced (Prod.ext hdetails rfl)⟩

end Ledger

end Stablecoin
