/-
  Stablecoin theory — the default pool covers what waits for troves.

  What was spread over the stakes waits in the default pool until each trove takes
  its share in.  A share is rounded down, and so is the growth of the sums, with a
  remainder that is carried; so the pool is compared, scaled by a unit, with the
  shares before they are rounded and the carried remainder (`State.Covered`).  The
  sum of the stakes must be kept along, since it is what the sums were divided by.

  * `Covered.replaced` and `Covered.redistribute` are the two ways in which the
    comparison is moved: a record is replaced, or more is spread;
  * `Ledger.planOf_covered`: every plan keeps it;
  * `Ledger.pending_covered`: in every run the shares can be paid out of the pool.
-/
import Stablecoin.Proofs.TroveChanges

namespace Stablecoin

/-! ## Attempts that take enough -/

section

variable {α β : Type}

/-- The attempt is not refused because more is taken off than there is. -/
def Funded (x : Attempt α) : Prop := ∀ text, x ≠ refuse (.underflow text)

theorem funded_ok (a : α) : Funded (.ok a) := nofun

theorem Funded.bind {x : Attempt α} {f : α → Attempt β} (hx : Funded x)
    (hf : ∀ a, x = .ok a → Funded (f a)) : Funded (x >>= f) := by
  cases x with
  | ok a => exact hf a rfl
  | error stop =>
    intro text h
    cases h
    exact hx text rfl

theorem funded_demandSome {cause : Refusal} {o : Option α} (h : ∀ text, cause ≠ .underflow text) :
    Funded (demandSome cause o) := by
  cases o with
  | some a => exact funded_ok a
  | none =>
    intro text he
    cases he
    exact h text rfl

theorem funded_add (a b : Amount) : Funded (a.add b) := funded_demandSome nofun

end

/-! ## Shares before they are rounded -/

/-- What a record has seen of one sum. -/
def Snapshot.on (s : Snapshot) (side : Side) : Nat := side.of s.coll s.debt

namespace Redistribution

variable {r r' : Redistribution} {t : Trove} {share : PendingShare} {coll debt : Amount}

/-- One sum. -/
def on (r : Redistribution) (side : Side) : Nat := side.of r.coll r.debt

/-- The remainder that is carried for one sum. -/
def carry (r : Redistribution) (side : Side) : Nat := side.of r.collCarry r.debtCarry

/-- The share of a trove in the growth of one sum, scaled by a unit. -/
def owed (r : Redistribution) (side : Side) (t : Trove) : Nat :=
  t.stake.val * (r.on side - t.snapshot.on side)

theorem snapshot_on (side : Side) : r.snapshot.on side = r.on side := rfl

theorem owed_eq_zero {side : Side} (h : t.snapshot.on side = r.on side) : r.owed side t = 0 := by
  rw [owed, h, Nat.sub_self, Nat.mul_zero]

/-- The share of a trove is what it is owed, rounded down, and nothing once it is closed. -/
theorem shareOf_eq_ok_iff {sum seen amount : Amount} : shareOf t sum seen = .ok amount ↔
    seen.val ≤ sum.val ∧ amount.val =
      if t.isActive then t.stake.val * (sum.val - seen.val) / Amount.unit.val else 0 := by
  simp only [shareOf, bind_eq_ok_iff, Amount.sub_eq_ok_iff]
  constructor
  · rintro ⟨growth, hgrowth, h⟩
    have hsub : sum.val - seen.val = growth.val := by omega
    refine ⟨by omega, ?_⟩
    rw [hsub]
    split at h
    · next h0 =>
      rw [← pure_eq_ok_iff.1 h]
      rcases h0 with rfl | hclosed
      · simp
      · rw [hclosed]
        rfl
    · next h0 =>
      have hactive : t.isActive = true := by simpa using (not_or.1 h0).2
      rw [if_pos hactive]
      exact (Amount.mulDiv_eq_ok_iff.1 h).2
  · rintro ⟨hseen, hv⟩
    obtain ⟨growth, hgrowth⟩ := Amount.exists_rest (Amount.le_iff_val_le.2 hseen)
    have hsub : sum.val - seen.val = growth.val := by omega
    rw [hsub] at hv
    refine ⟨growth, hgrowth, ?_⟩
    split
    · next h0 =>
      have hnone : amount.val = 0 := by
        rcases h0 with rfl | hclosed
        · simpa using hv
        · simpa [hclosed] using hv
      rw [Amount.eq_zero_iff.2 hnone]
      rfl
    · next h0 =>
      have hactive : t.isActive = true := by simpa using (not_or.1 h0).2
      rw [if_pos hactive] at hv
      exact Amount.mulDiv_eq_ok_iff.2 ⟨by decide, hv⟩

theorem pending_eq_ok_iff : r.pending t = .ok share ↔ ∀ side,
    t.snapshot.on side ≤ r.on side ∧
      share.on side = if t.isActive then r.owed side t / Amount.unit.val else 0 := by
  simp only [pending, bind_eq_ok_iff, pure_eq_ok_iff, pendingColl, pendingDebt, shareOf_eq_ok_iff]
  constructor
  · rintro ⟨coll, hc, debt, hd, rfl⟩ side
    cases side
    · exact hc
    · exact hd
  · intro h
    exact ⟨share.coll, h .coll, share.debt, h .debt, rfl⟩

/-- A share is rounded down. -/
theorem pending_ok (h : r.pending t = .ok share) (side : Side) :
    share.on side * Amount.unit.val ≤ r.owed side t := by
  rw [(pending_eq_ok_iff.1 h side).2]
  split
  · exact Nat.div_mul_le_self _ _
  · rw [Nat.zero_mul]
    exact Nat.zero_le _

theorem exists_pending {most : Side → Nat} (hseen : ∀ side, t.snapshot.on side ≤ r.on side)
    (hmost : ∀ side, r.owed side t ≤ most side * Amount.unit.val)
    (hlt : ∀ side, most side < Amount.limit) : ∃ share, r.pending t = .ok share := by
  have hshare : ∀ side, ∃ amount : Amount,
      amount.val = if t.isActive then r.owed side t / Amount.unit.val else 0 := by
    intro side
    apply Amount.exists_val_eq
    split
    · rw [Nat.div_lt_iff_lt_mul Amount.unit_pos]
      exact lt_of_le_of_lt (hmost side) (Nat.mul_lt_mul_of_pos_right (hlt side) Amount.unit_pos)
    · exact Nat.zero_lt_of_lt (hlt side)
  obtain ⟨coll, hc⟩ := hshare .coll
  obtain ⟨debt, hd⟩ := hshare .debt
  refine ⟨⟨coll, debt⟩, pending_eq_ok_iff.2 ?_⟩
  intro side
  refine ⟨hseen side, ?_⟩
  cases side
  · exact hc
  · exact hd

theorem exists_shares {troves : List Trove} (h : ∀ t ∈ troves, ∃ share, r.pending t = .ok share) :
    ∃ shares, troves.mapM r.pending = .ok shares ∧ ∀ side,
      (shares.map (·.on side)).sum * Amount.unit.val ≤ (troves.map (r.owed side)).sum := by
  induction troves with
  | nil => exact ⟨[], rfl, fun _ => Nat.le_of_eq (Nat.zero_mul _)⟩
  | cons t rest ih =>
    obtain ⟨share, hshare⟩ := h t List.mem_cons_self
    obtain ⟨shares, hshares, hsum⟩ := ih fun u hu => h u (List.mem_cons_of_mem _ hu)
    refine ⟨share :: shares, ?_, ?_⟩
    · rw [List.mapM_cons, hshare, hshares]
      rfl
    · intro side
      have hone := pending_ok hshare side
      have hrest := hsum side
      rw [List.map_cons, List.map_cons, List.sum_cons, List.sum_cons, Nat.add_mul]
      omega

/-- **Nothing is lost in spreading:** the growth of a sum times the stakes, and the new remainder,
are what is spread and the old remainder.  That is an amount, and the new remainder would not be
enough for the stakes. -/
theorem spread_ok (h : r.spread coll debt = .ok r') (h0 : debt ≠ 0) :
    r'.totalStakes = r.totalStakes ∧ ∃ growth : Side → Nat, ∀ side,
      r'.on side = r.on side + growth side ∧
      growth side * r.totalStakes.val + r'.carry side =
        side.of coll debt * Amount.unit.val + r.carry side ∧
      side.of coll debt * Amount.unit.val + r.carry side < Amount.limit ∧
      r'.carry side < r.totalStakes.val := by
  unfold spread at h
  rw [if_neg h0] at h
  simp only [bind_eq_ok_iff, pure_eq_ok_iff, Amount.add_eq_ok_iff, Amount.mul_eq_ok_iff,
    Amount.dividedBy_eq_ok_iff, Amount.minus_eq_ok_iff, Amount.times_eq_ok_iff] at h
  obtain ⟨_, -, scaledColl, hsc, collNumerator, hcn, scaledDebt, hsd, debtNumerator, hdn,
    collGrowth, ⟨hne, hcg⟩, debtGrowth, ⟨-, hdg⟩, collSum, hcs, debtSum, hds, collTaken, hct,
    collCarry, hcc, debtTaken, hdt, debtCarry, hdc, rfl⟩ := h
  have hpos := Amount.ne_zero_iff.1 hne
  have hcoll := Nat.lt_div_mul_add (a := collNumerator.val) hpos
  have hdebt := Nat.lt_div_mul_add (a := debtNumerator.val) hpos
  rw [← hcg] at hcoll
  rw [← hdg] at hdebt
  refine ⟨rfl, fun side => side.of collGrowth debtGrowth, ?_⟩
  intro side
  have hcollNumerator := collNumerator.val_lt
  have hdebtNumerator := debtNumerator.val_lt
  cases side
  · simp only [on, carry, Side.of]
    exact ⟨hcs, by omega, by omega, by omega⟩
  · simp only [on, carry, Side.of]
    exact ⟨hds, by omega, by omega, by omega⟩

end Redistribution

namespace State

variable {s s' : State} {owner : Address} {t t' : Trove} {old new : Option Trove}
  {share : PendingShare}

/-! ## The comparison -/

/-- The default pool covers all shares and the carried remainders. -/
structure Covered (s : State) : Prop where
  stakes_eq : s.spread.totalStakes.val = s.sumActive fun t => t.stake.val
  seen_le : ∀ owner t, s.activeAt owner = some t → ∀ side, t.snapshot.on side ≤ s.spread.on side
  owed_le : ∀ side, s.sumActive (s.spread.owed side) + s.spread.carry side ≤
    s.pools.default.on side * Amount.unit.val

theorem Replaced.sums_eq (h : s.Replaced owner old new s') (side : Side) :
    s'.spread.on side = s.spread.on side ∧ s'.spread.carry side = s.spread.carry side := by
  rw [h.spread_eq]
  exact ⟨rfl, rfl⟩

theorem Replaced.owed_eq (h : s.Replaced owner old new s') (side : Side) :
    s'.spread.owed side = s.spread.owed side := by
  funext t
  rw [Redistribution.owed, (h.sums_eq side).1]
  rfl

/-- A record is replaced, and the pool pays for what is no longer owed to it at most. -/
theorem Covered.replaced (hc : s.Covered) (h : s.Replaced owner old new s')
    (hseen : ∀ t, new = some t → ∀ side, t.snapshot.on side ≤ s.spread.on side)
    (hpool : ∀ side, s.pools.default.on side * Amount.unit.val + new.elim 0 (s.spread.owed side) ≤
      s'.pools.default.on side * Amount.unit.val + old.elim 0 (s.spread.owed side)) :
    s'.Covered := by
  refine ⟨?_, ?_, ?_⟩
  · have hsum := h.sum_eq fun t => t.stake.val
    have hstakes := h.stakes_eq
    have heq := hc.stakes_eq
    omega
  · intro other t ht side
    rw [(h.sums_eq side).1]
    exact h.forall_active hc.seen_le hseen other t ht side
  · intro side
    have hsum := h.sum_eq (s.spread.owed side)
    have howed := hc.owed_le side
    have hpool := hpool side
    rw [h.owed_eq, (h.sums_eq side).2]
    omega

/-- After a share is taken in, the record has seen all. -/
theorem Covered.seen_eq (hc : s.Covered) (h : s.Realization owner share t t' s') (side : Side) :
    t'.snapshot.on side = s.spread.on side := by
  obtain ⟨-, -, hsnapshot⟩ | ⟨hbehind, -, rfl, -⟩ := h.share_cases
  · rw [hsnapshot, Redistribution.snapshot_on]
  · have hle := hc.seen_le owner t' h.replaced.old_eq
    have hactive := isActive_of_activeAt h.replaced.old_eq
    simp only [Redistribution.isBehind, hactive, true_and, decide_eq_false_iff_not, not_or,
      Amount.lt_iff_val_lt, Nat.not_lt] at hbehind
    cases side
    · exact Nat.le_antisymm (hle .coll) hbehind.1
    · exact Nat.le_antisymm (hle .debt) hbehind.2

theorem Covered.realization (hc : s.Covered) (h : s.Realization owner share t t' s') :
    s'.Covered := by
  refine hc.replaced h.replaced ?_ ?_
  · intro u hu side
    rw [← Option.some.inj hu, hc.seen_eq h]
  · intro side
    simp only [Option.elim_some]
    obtain ⟨-, hshare, -⟩ | ⟨-, -, rfl, rfl⟩ := h.share_cases
    · have hrounded := Redistribution.pending_ok hshare side
      rw [h.default_eq side, Nat.add_mul, Redistribution.owed_eq_zero (hc.seen_eq h side)]
      omega
    · exact le_rfl

/-- A record that has seen all is rewritten. -/
theorem Covered.rewritten (hc : s.Covered) {coll debt stake : Amount}
    (h : s.Replaced owner (some t) (some { t with coll := coll, debt := debt, stake := stake }) s')
    (hseen : ∀ side, t.snapshot.on side = s.spread.on side)
    (hpool : s'.pools.default = s.pools.default) : s'.Covered := by
  refine hc.replaced h ?_ ?_
  · intro u hu side
    rw [← Option.some.inj hu]
    exact le_of_eq (hseen side)
  · intro side
    have hnew : s.spread.owed side { t with coll := coll, debt := debt, stake := stake } = 0 :=
      Redistribution.owed_eq_zero (hseen side)
    rw [hpool, Option.elim_some, Option.elim_some, hnew]
    omega

/-- A record is removed, and with it at most what was owed to it. -/
theorem Covered.removed (hc : s.Covered) (h : s.Replaced owner (some t) none s')
    (hpool : ∀ side, s.pools.default.on side * Amount.unit.val ≤
      s'.pools.default.on side * Amount.unit.val + s.spread.owed side t) : s'.Covered := by
  refine hc.replaced h nofun ?_
  intro side
  rw [Option.elim_none, Option.elim_some, Nat.add_zero]
  exact hpool side

/-- What is spread goes to the stakes and to the carried remainder. -/
theorem Covered.redistribute (hc : s.Covered) {coll debt : Amount}
    (h : s.redistribute coll debt = .ok s') : s'.Covered := by
  obtain ⟨-, rfl⟩ | ⟨h0, spread, active, default, hs, -, hd, rfl⟩ := redistribute_cases h
  · exact hc
  obtain ⟨hstakes, growth, hgrowth⟩ := Redistribution.spread_ok hs h0
  refine ⟨?_, ?_, ?_⟩
  · show spread.totalStakes.val = _
    rw [hstakes]
    exact hc.stakes_eq
  · intro owner t ht side
    show _ ≤ spread.on side
    have hle := hc.seen_le owner t ht side
    rw [(hgrowth side).1]
    omega
  · intro side
    show s.sumActive (spread.owed side) + spread.carry side ≤ default.on side * Amount.unit.val
    obtain ⟨hsum, hcarry, -, -⟩ := hgrowth side
    -- each share grows by the stake times the growth, and the stakes add up to their total
    have howed : s.sumActive (spread.owed side) = s.sumActive (s.spread.owed side) +
        growth side * s.spread.totalStakes.val := by
      rw [hc.stakes_eq, sumActive, sumActive, sumActive, ← List.sum_map_mul_left,
        ← List.sum_map_add]
      refine sumActive_congr ?_
      intro owner t ht
      have hle := hc.seen_le owner t ht side
      rw [Redistribution.owed, Redistribution.owed, hsum, Nat.sub_add_comm hle, Nat.mul_add,
        Nat.mul_comm (growth side)]
    have hpool := Balance.increased_on hd side
    have hbefore := hc.owed_le side
    rw [howed, hpool, Nat.add_mul]
    omega

theorem Covered.congr (hc : s.Covered) (htroves : s'.troves = s.troves)
    (hspread : s'.spread = { s.spread with
      stakesSnapshot := s'.spread.stakesSnapshot, collSnapshot := s'.spread.collSnapshot })
    (hpool : s'.pools.default = s.pools.default) : s'.Covered := by
  have hactive : s'.activeAt = s.activeAt := by
    unfold activeAt trove
    rw [htroves]
  have htotal : s'.sumActive = s.sumActive := by
    unfold sumActive activeTroves
    rw [htroves]
  refine ⟨?_, ?_, ?_⟩
  · rw [hspread, htotal]
    exact hc.stakes_eq
  · rw [hactive, hspread]
    exact hc.seen_le
  · rw [htotal, hspread, hpool]
    exact hc.owed_le

/-! ## Paying shares out -/

theorem Covered.owed_le_pool (hc : s.Covered) (ht : s.activeAt owner = some t) (side : Side) :
    s.spread.owed side t ≤ s.pools.default.on side * Amount.unit.val := by
  have hle := elim_le_sumActive s (s.spread.owed side) owner
  have howed := hc.owed_le side
  rw [ht, Option.elim_some] at hle
  omega

theorem Covered.exists_share (hc : s.Covered) (ht : s.activeAt owner = some t) :
    ∃ share default, s.spread.pending t = .ok share ∧
      s.pools.default.decreased share.coll share.debt = .ok default := by
  obtain ⟨share, hshare⟩ := Redistribution.exists_pending (hc.seen_le owner t ht)
    (hc.owed_le_pool ht) (by
      intro side
      cases side
      · exact s.pools.default.coll.val_lt
      · exact s.pools.default.debt.val_lt)
  have hle : ∀ side, share.on side ≤ s.pools.default.on side := by
    intro side
    exact Nat.le_of_mul_le_mul_right
      ((Redistribution.pending_ok hshare side).trans (hc.owed_le_pool ht side)) Amount.unit_pos
  obtain ⟨coll, hcoll⟩ := Amount.exists_rest (Amount.le_iff_val_le.2 (hle .coll))
  obtain ⟨debt, hdebt⟩ := Amount.exists_rest (Amount.le_iff_val_le.2 (hle .debt))
  exact ⟨share, ⟨coll, debt⟩, hshare, Balance.decreased_eq_ok_iff.2 ⟨hcoll, hdebt⟩⟩

/-- All shares together can be paid out. -/
theorem Covered.exists_shares (hc : s.Covered) : ∃ shares,
    s.activeTroves.mapM s.spread.pending = .ok shares ∧
      ∀ side, (shares.map (·.on side)).sum ≤ s.pools.default.on side := by
  have hall : ∀ t ∈ s.activeTroves, ∃ share, s.spread.pending t = .ok share := by
    intro t ht
    obtain ⟨owner, ho⟩ := mem_activeTroves.1 ht
    obtain ⟨share, _, hshare, -⟩ := hc.exists_share ho
    exact ⟨share, hshare⟩
  obtain ⟨shares, hshares, hsum⟩ := Redistribution.exists_shares hall
  refine ⟨shares, hshares, ?_⟩
  intro side
  refine Nat.le_of_mul_le_mul_right (le_trans (hsum side) ?_) Amount.unit_pos
  have howed := hc.owed_le side
  rw [sumActive] at howed
  omega

/-- Taking a share in never takes more out of the pool than it holds. -/
theorem Covered.realize_funded (hc : s.Covered) (owner : Address) : Funded (s.realize owner) := by
  unfold realize
  refine Funded.bind (funded_demandSome nofun) ?_
  intro t ht
  obtain ⟨share, default, hshare, hdefault⟩ := hc.exists_share (activeTrove_eq_ok.1 ht)
  split
  · rw [hshare]
    refine Funded.bind (funded_ok share) ?_
    rintro _ ⟨⟩
    refine Funded.bind (funded_add _ _) fun coll _ => ?_
    refine Funded.bind (funded_add _ _) fun debt _ => ?_
    refine Funded.bind ?_ fun pools _ => funded_ok _
    unfold Pools.realized Balance.increased
    rw [hdefault]
    refine Funded.bind (Funded.bind (funded_add _ _) fun _ _ => ?_) fun active _ => funded_ok _
    exact Funded.bind (funded_add _ _) fun _ _ => funded_ok _
  · exact funded_ok _

end State

namespace Ledger

variable {l : Ledger}

/-! ## All requests -/

theorem SweepStep.covered {price : Amount} {listed : Bool} {w w' : Sweep}
    (step : SweepStep l price listed w w') (hc : w.draft.state.Covered) :
    w'.draft.state.Covered := by
  obtain ⟨t, hreplaced, hshare, -, hpools⟩ := step.replaced
  refine hc.removed hreplaced ?_
  intro side
  rw [(hpools side).2, Nat.add_mul]
  exact Nat.add_le_add_left (Redistribution.pending_ok hshare side) _

theorem Liquidation.covered {liquidator : Address} {targets : Targets} {plan : Plan Liquidated}
    (q : Liquidation l liquidator targets plan) (hc : l.state.Covered) :
    plan.draft.state.Covered := by
  have hswept : q.swept.draft.state.Covered :=
    sweep_keeps q.swept_eq (fun _ _ step hu => step.covered hu) hc
  have hoffset : q.offset.state.Covered := by
    obtain ⟨-, hd⟩ | ⟨-, _, _, -, -, hstate, -⟩ := settleOffset_cases q.offset_eq
    · rw [hd]
      exact hswept
    · rw [hstate]
      exact hswept.congr rfl rfl rfl
  have hspread : q.spread.state.Covered := by
    obtain ⟨-, hd⟩ | ⟨-, hr, -⟩ := settleSpread_cases q.spread_eq
    · rw [hd]
      exact hoffset
    · exact hoffset.redistribute hr
  obtain ⟨_, _, _, -, hn, -, hstate, -⟩ := settleRest_ok q.draft_eq
  obtain ⟨_, _, -, -, rfl⟩ := State.note_eq_ok_iff.1 hn
  rw [hstate]
  exact hspread.congr rfl rfl rfl

theorem DrawStep.covered {r : RedeemRequest} {price : Amount} {w w' : Drawing}
    (step : DrawStep l r price w w') (hc : w.draft.state.Covered) : w'.draft.state.Covered := by
  obtain ⟨t, t', new, change, e⟩ := step.exists_effect
  have hrealized := hc.realization e.realization
  have hreplaced := e.replaced
  cases e.drawn with
  | closed =>
    refine hrealized.removed hreplaced ?_
    intro side
    rw [e.default_eq]
    exact Nat.le_add_right _ _
  | part =>
    refine hrealized.rewritten hreplaced ?_ e.default_eq
    intro side
    rw [e.realization.sums_eq]
    exact hc.seen_eq e.realization side

theorem draw_covered {r : RedeemRequest} {price : Amount} {w w' : Drawing} {owners : List Address}
    (h : l.draw r price w owners = .ok w') (hc : w.draft.state.Covered) :
    w'.draft.state.Covered := by
  refine draw_keeps h (fun _ _ step hu => step.covered hu) ?_ hc
  intro u owner share s hs hu
  obtain ⟨t, t', hr⟩ := State.exists_realization hs
  exact hu.realization hr

/-- **Every plan leaves all shares covered.** -/
theorem planOf_covered (hc : l.state.Covered) {r : Request} {plan : Plan Answer}
    (h : l.planOf r = .ok plan) : plan.draft.state.Covered := by
  cases planned_of_planOf h with
  | @opened r _ steps =>
    refine hc.replaced steps.replaced ?_ ?_
    · rintro _ ⟨⟩ side
      exact le_rfl
    · intro side
      have hnew : l.state.spread.owed side
          ⟨r.owner, r.deposit, steps.debt, steps.stake, .active, l.state.spread.snapshot⟩ = 0 :=
        Redistribution.owed_eq_zero rfl
      rw [Plan.draft_seen, (steps.pools_on side).2, Option.elim_some, Option.elim_none, hnew]
  | adjusted steps =>
    obtain ⟨t, hr⟩ := steps.realization
    refine (hc.realization hr).rewritten steps.replaced ?_ (steps.pools_on .coll).2
    intro side
    rw [hr.sums_eq]
    exact hc.seen_eq hr side
  | closed steps =>
    obtain ⟨t, hr⟩ := steps.realization
    refine (hc.realization hr).removed steps.replaced ?_
    intro side
    rw [Plan.draft_seen, (steps.pools_on side).2]
    exact Nat.le_add_right _ _
  | realized state_eq =>
    obtain ⟨t, t', hr⟩ := State.exists_realization state_eq
    exact hc.realization hr
  | liquidated _ steps => exact steps.covered hc
  | redeemed steps =>
    rw [Plan.draft_seen, steps.state_eq]
    exact (draw_covered steps.walked_eq hc).congr rfl rfl rfl
  | claimed _ state_eq =>
    rw [Plan.draft_seen, state_eq]
    exact hc.congr rfl rfl rfl
  | deposited _ state_eq =>
    rw [Plan.draft_seen, state_eq]
    exact hc.congr rfl rfl rfl
  | withdrawn _ _ state_eq =>
    rw [Plan.draft_seen, state_eq]
    exact hc.congr rfl rfl rfl

theorem after_covered {params : Parameters} {accounts : ProtocolAccounts} {feed : PriceFeed}
    {token : TokenBook} {ranking : Ranking} (h : new params accounts feed token ranking = .ok l)
    (commands : List Command) :
    (l.after commands).state.Covered := by
  refine after_state (fun _ _ _ hc => planOf_covered hc)
    (fun _ _ _ _ hc => hc.congr rfl rfl rfl) ?_ commands
  rw [new_eq h]
  refine ⟨rfl, nofun, ?_⟩
  intro side
  cases side <;> exact Nat.zero_le _

end Ledger

/-! ## What is covered -/

/-- What waits for the active troves is in the default pool. -/
structure State.PendingCovered (s : State) : Prop where
  /-- No record has seen more than was spread. -/
  seen_le : ∀ t ∈ s.activeTroves,
    t.snapshot.coll ≤ s.spread.coll ∧ t.snapshot.debt ≤ s.spread.debt
  /-- The shares in the collateral, before they are rounded, and what is carried. -/
  coll_le : (s.activeTroves.map fun t =>
      t.stake.val * (s.spread.coll.val - t.snapshot.coll.val)).sum + s.spread.collCarry.val ≤
    s.pools.default.coll.val * Amount.unit.val
  /-- The same for the debt. -/
  debt_le : (s.activeTroves.map fun t =>
      t.stake.val * (s.spread.debt.val - t.snapshot.debt.val)).sum + s.spread.debtCarry.val ≤
    s.pools.default.debt.val * Amount.unit.val
  /-- All shares can be computed, and they are together in the pool. -/
  shares_le : ∃ shares, s.activeTroves.mapM s.spread.pending = .ok shares ∧
    (shares.map fun share => share.coll.val).sum ≤ s.pools.default.coll.val ∧
    (shares.map fun share => share.debt.val).sum ≤ s.pools.default.debt.val
  /-- Each share can be taken out of the pool. -/
  payable : ∀ t ∈ s.activeTroves, ∃ share default, s.spread.pending t = .ok share ∧
    s.pools.default.decreased share.coll share.debt = .ok default
  /-- Nobody who takes a share in is refused because the pool holds too little. -/
  realizable : ∀ owner text, s.realize owner ≠ refuse (.underflow text)

theorem State.Covered.pendingCovered {s : State} (hc : s.Covered) : s.PendingCovered where
  seen_le t ht := by
    obtain ⟨owner, ho⟩ := mem_activeTroves.1 ht
    exact ⟨hc.seen_le owner t ho .coll, hc.seen_le owner t ho .debt⟩
  coll_le := hc.owed_le .coll
  debt_le := hc.owed_le .debt
  shares_le := by
    obtain ⟨shares, hshares, hle⟩ := hc.exists_shares
    exact ⟨shares, hshares, hle .coll, hle .debt⟩
  payable t ht := by
    obtain ⟨owner, ho⟩ := mem_activeTroves.1 ht
    exact hc.exists_share ho
  realizable := hc.realize_funded

namespace Ledger

variable {l : Ledger}

/-- **The default pool covers what waits for troves:** in every run of a ledger from its start. -/
theorem pending_covered {params : Parameters} {price : Amount} (h : starting params price = .ok l)
    (commands : List Command) : (l.after commands).state.PendingCovered :=
  (after_covered h commands).pendingCovered

/-- A liquidated trove, less the reward of the liquidator, waits for the only other one. -/
theorem pending_covered_firstSpread : ∃ l, starting .standard twoThousand = .ok l ∧
    (l.after firstSpread).state.pools.default.coll.val = 2_985_000_000_000_000_000 ∧
    (l.after firstSpread).state.spread.coll.val = 298_500_000_000_000_000 ∧
    (l.after firstSpread).state.PendingCovered :=
  ⟨_, starting_standard _, by decide +kernel, by decide +kernel,
    pending_covered (starting_standard _) _⟩

end Ledger

end Stablecoin
