/-
  Stablecoin theory — changes of the state.

  What each change of the state leaves behind, in full: one statement for each
  function of `Stablecoin.State`, from which everything else about it follows.

  * `Balance.increased_eq_ok_iff`, `Pools.realized_eq_ok_iff` and their likes are
    the movements between pools;
  * `BaseRate.quoteBorrowing_le` and `BaseRate.quoteRedemption_le` bound the base
    rate that a fee leaves, and `State.evaluate_ok` says what the ratio of the
    system is;
  * `State.realize_cases`, `State.restake_eq_ok_iff` and their likes are the
    changes of records;
  * `Pools.coll` and `Pools.debt` are the collateral and the debt in all pools;
    `State.realize_books` and its likes say which changes keep them.
-/
import Stablecoin.Proofs.Arithmetic
import Stablecoin.State

namespace Stablecoin

/-! ## Balances -/

theorem Balance.increased_eq_ok_iff {b b' : Balance} {coll debt : Amount} :
    b.increased coll debt = .ok b' ↔
      b'.coll.val = b.coll.val + coll.val ∧ b'.debt.val = b.debt.val + debt.val := by
  simp only [increased, bind_eq_ok_iff, pure_eq_ok_iff, Amount.add_eq_ok_iff]
  constructor
  · rintro ⟨c, hc, d, hd, rfl⟩
    exact ⟨hc, hd⟩
  · rintro ⟨hc, hd⟩
    exact ⟨_, hc, _, hd, rfl⟩

theorem Balance.decreased_eq_ok_iff {b b' : Balance} {coll debt : Amount} :
    b.decreased coll debt = .ok b' ↔
      b.coll.val = b'.coll.val + coll.val ∧ b.debt.val = b'.debt.val + debt.val := by
  simp only [decreased, bind_eq_ok_iff, pure_eq_ok_iff, Amount.sub_eq_ok_iff]
  constructor
  · rintro ⟨c, hc, d, hd, rfl⟩
    exact ⟨hc, hd⟩
  · rintro ⟨hc, hd⟩
    exact ⟨_, hc, _, hd, rfl⟩

theorem Balance.eq_of_val {b b' : Balance} (hcoll : b.coll.val = b'.coll.val)
    (hdebt : b.debt.val = b'.debt.val) : b = b' :=
  congrArg₂ Balance.mk (Amount.ext hcoll) (Amount.ext hdebt)

section

variable {b b₁ b₂ b₁₂ b₂₁ : Balance} {coll debt coll' debt' : Amount}

theorem Balance.increased_comm (h₁ : b.increased coll debt = .ok b₁)
    (h₁₂ : b₁.increased coll' debt' = .ok b₁₂) (h₂ : b.increased coll' debt' = .ok b₂)
    (h₂₁ : b₂.increased coll debt = .ok b₂₁) : b₁₂ = b₂₁ := by
  rw [increased_eq_ok_iff] at h₁ h₁₂ h₂ h₂₁
  exact eq_of_val (by omega) (by omega)

theorem Balance.decreased_comm (h₁ : b.decreased coll debt = .ok b₁)
    (h₁₂ : b₁.decreased coll' debt' = .ok b₁₂) (h₂ : b.decreased coll' debt' = .ok b₂)
    (h₂₁ : b₂.decreased coll debt = .ok b₂₁) : b₁₂ = b₂₁ := by
  rw [decreased_eq_ok_iff] at h₁ h₁₂ h₂ h₂₁
  exact eq_of_val (by omega) (by omega)

end

/-! ## Surplus -/

namespace Surplus

theorem credited_eq_ok_iff {s s' : Surplus} {owner : Address} {amount : Amount} :
    s.credited owner amount = .ok s' ↔ s'.total.val = s.total.val + amount.val ∧
      ∃ claim, (s.claimable owner).add amount = .ok claim ∧
        s'.claims = s.claims.insert owner claim := by
  simp only [credited, bind_eq_ok_iff, pure_eq_ok_iff, Amount.add_eq_ok_iff]
  constructor
  · rintro ⟨total, ht, claim, hc, rfl⟩
    exact ⟨ht, claim, hc, rfl⟩
  · rintro ⟨ht, claim, hc, hs⟩
    exact ⟨_, ht, claim, hc, by rw [← hs]⟩

theorem creditedLeft_total {s s' : Surplus} {owner : Address} {left : Amount}
    (h : s.creditedLeft owner left = .ok s') : s'.total.val = s.total.val + left.val := by
  unfold creditedLeft at h
  split at h
  · next hl => cases h; rw [hl, Amount.val_zero, Nat.add_zero]
  · exact (credited_eq_ok_iff.1 h).1

theorem paidOut_eq_ok_iff {s s' : Surplus} {owner : Address} {amount : Amount} :
    s.paidOut owner = .ok (amount, s') ↔ amount = s.claimable owner ∧ amount ≠ 0 ∧
      s.total.val = s'.total.val + amount.val ∧ s'.claims = s.claims.erase owner := by
  simp only [paidOut, bind_eq_ok_iff, pure_eq_ok_iff, Amount.sub_eq_ok_iff, Prod.mk.injEq]
  constructor
  · rintro ⟨_, h0, total, ht, rfl, rfl⟩
    exact ⟨rfl, demand_eq_ok_iff.1 h0, ht, rfl⟩
  · rintro ⟨rfl, h0, ht, hc⟩
    exact ⟨(), demand_eq_ok_iff.2 h0, _, ht, rfl, by rw [← hc]⟩

end Surplus

/-! ## Pools -/

namespace Pools

/-- The collateral in all pools. -/
def coll (p : Pools) : Nat :=
  p.active.coll.val + p.default.coll.val + p.surplus.total.val + p.stakingColl.val

/-- The debt in all pools. -/
def debt (p : Pools) : Nat := p.active.debt.val + p.default.debt.val

theorem systemDebt_eq_ok_iff {p : Pools} {debt : Amount} :
    p.systemDebt = .ok debt ↔ debt.val = p.debt := Amount.add_eq_ok_iff

theorem realized_eq_ok_iff {p p' : Pools} {coll debt : Amount} :
    p.realized coll debt = .ok p' ↔ p.active.increased coll debt = .ok p'.active ∧
      p.default.decreased coll debt = .ok p'.default ∧ p'.surplus = p.surplus ∧
      p'.stakingColl = p.stakingColl := by
  simp only [realized, bind_eq_ok_iff, pure_eq_ok_iff]
  constructor
  · rintro ⟨active, ha, default, hd, rfl⟩
    exact ⟨ha, hd, rfl, rfl⟩
  · rintro ⟨ha, hd, hs, hc⟩
    exact ⟨_, ha, _, hd, by rw [← hs, ← hc]⟩

theorem realized_coll {p p' : Pools} {coll debt : Amount} (h : p.realized coll debt = .ok p') :
    p'.coll = p.coll := by
  obtain ⟨ha, hd, hs, hc⟩ := realized_eq_ok_iff.1 h
  have := Balance.increased_eq_ok_iff.1 ha
  have := Balance.decreased_eq_ok_iff.1 hd
  simp only [Pools.coll, hs, hc]
  omega

theorem realized_debt {p p' : Pools} {coll debt : Amount} (h : p.realized coll debt = .ok p') :
    p'.debt = p.debt := by
  obtain ⟨ha, hd, -, -⟩ := realized_eq_ok_iff.1 h
  have := Balance.increased_eq_ok_iff.1 ha
  have := Balance.decreased_eq_ok_iff.1 hd
  simp only [Pools.debt]
  omega

end Pools

/-! ## The base rate -/

namespace BaseRate

variable {b : BaseRate} {p : Parameters} {now : UInt64} {limit : Amount} {quote : FeeQuote}

theorem seeded_le (rate : Amount) (clock : UInt64) : (seeded rate clock).rate ≤ Amount.unit :=
  Amount.min_le_right rate Amount.unit

/-- Taking a borrowing fee leaves the base rate at one hundred percent or below. -/
theorem quoteBorrowing_le {requested : Amount}
    (h : b.quoteBorrowing p now requested limit = .ok quote) : quote.next.rate ≤ Amount.unit := by
  simp only [quoteBorrowing, bind_eq_ok_iff, pure_eq_ok_iff] at h
  obtain ⟨decayed, -, fee, -, _, -, rfl⟩ := h
  exact seeded_le _ _

/-- So does taking a redemption fee. -/
theorem quoteRedemption_le {drawn price supply : Amount}
    (h : b.quoteRedemption p now drawn price supply limit = .ok quote) :
    quote.next.rate ≤ Amount.unit := by
  simp only [quoteRedemption, bind_eq_ok_iff, pure_eq_ok_iff] at h
  obtain ⟨decayed, -, share, -, bump, -, raised, -, _, -, fee, -, _, -, _, -, rfl⟩ := h
  exact seeded_le _ _

end BaseRate

/-! ## The system -/

theorem Change.apply_eq_ok_iff {c : Change} {coll debt coll' debt' : Amount} :
    c.apply coll debt = .ok (coll', debt') ↔
      coll.change c.coll c.collGrows = .ok coll' ∧ debt.change c.debt c.debtGrows = .ok debt' := by
  simp only [apply, bind_eq_ok_iff, pure_eq_ok_iff, Prod.mk.injEq]
  constructor
  · rintro ⟨_, hc, _, hd, rfl, rfl⟩
    exact ⟨hc, hd⟩
  · rintro ⟨hc, hd⟩
    exact ⟨_, hc, _, hd, rfl, rfl⟩

theorem Change.ratio_eq_ok_iff {c : Change} {coll debt price ratio : Amount} :
    c.ratio coll debt price = .ok ratio ↔ ∃ coll' debt', c.apply coll debt = .ok (coll', debt') ∧
      Amount.ratio coll' debt' price = .ok ratio := by
  simp only [Change.ratio, bind_eq_ok_iff, Prod.exists]

/-- The ratio of the system is that of the active and the default pool together. -/
theorem State.evaluate_ok {s : State} {price : Amount} {p : Parameters} {system : SystemRatio}
    (h : s.evaluate price p = .ok system) :
    system.coll.val = s.pools.active.coll.val + s.pools.default.coll.val ∧
      system.debt.val = s.pools.debt ∧
      Amount.ratio system.coll system.debt price = .ok system.ratio ∧
      system.recovery = decide (system.ratio < p.criticalRatio) := by
  simp only [evaluate, SystemRatio.evaluate, systemColl, Pools.systemColl, systemDebt,
    bind_eq_ok_iff, pure_eq_ok_iff, Amount.add_eq_ok_iff, Pools.systemDebt_eq_ok_iff] at h
  obtain ⟨coll, hc, debt, hd, ratio, hr, rfl⟩ := h
  exact ⟨hc, hd, hr, rfl⟩

namespace State

variable {s s' : State} {owner : Address} {t : Trove}

/-! ## Pending shares and stakes -/

/-- Either the pending share is moved into the record, or nothing is pending and nothing
changes. -/
theorem realize_cases {share : PendingShare} (h : s.realize owner = .ok (share, s')) :
    ∃ t, s.activeTrove owner = .ok t ∧
      ((∃ coll debt pools, s.spread.isBehind t = true ∧ s.spread.pending t = .ok share ∧
          coll.val = t.coll.val + share.coll.val ∧ debt.val = t.debt.val + share.debt.val ∧
          s.pools.realized share.coll share.debt = .ok pools ∧
          s' = { s.withTrove owner
            { t with coll := coll, debt := debt, snapshot := s.spread.snapshot } with
              pools := pools }) ∨
        (s.spread.isBehind t = false ∧ share = .none ∧ s' = s)) := by
  simp only [realize, bind_eq_ok_iff] at h
  obtain ⟨t, ht, h⟩ := h
  refine ⟨t, ht, ?_⟩
  split at h
  · next hb =>
    simp only [bind_eq_ok_iff, pure_eq_ok_iff, Amount.add_eq_ok_iff, Prod.mk.injEq] at h
    obtain ⟨share, hs, coll, hc, debt, hd, pools, hp, rfl, rfl⟩ := h
    exact Or.inl ⟨coll, debt, pools, hb, hs, hc, hd, hp, rfl⟩
  · next hb =>
    obtain ⟨rfl, rfl⟩ := Prod.mk.inj (pure_eq_ok_iff.1 h)
    exact Or.inr ⟨Bool.eq_false_iff.2 hb, rfl, rfl⟩

theorem release_eq_ok_iff {share : PendingShare} : s.release share = .ok s' ↔
    ∃ pools, s.pools.realized share.coll share.debt = .ok pools ∧
      s' = { s with pools := pools } := by
  simp only [release, bind_eq_ok_iff, pure_eq_ok_iff]
  exact exists_congr fun _ => and_congr_right fun _ => eq_comm

theorem restake_eq_ok_iff {stake : Amount} : s.restake owner = .ok (stake, s') ↔
    ∃ t total, s.activeTrove owner = .ok t ∧ s.spread.stakeFor t.coll = .ok stake ∧
      s.spread.stakesAfter t.stake stake = .ok total ∧
      s' = { s.withTrove owner { t with stake := stake } with
        spread := { s.spread with totalStakes := total } } := by
  simp only [restake, bind_eq_ok_iff, pure_eq_ok_iff, Prod.mk.injEq]
  constructor
  · rintro ⟨t, ht, stake, hs, total, htot, rfl, rfl⟩
    exact ⟨t, total, ht, hs, htot, rfl⟩
  · rintro ⟨t, total, ht, hs, htot, rfl⟩
    exact ⟨t, ht, stake, hs, total, htot, rfl, rfl⟩

theorem unstake_eq_ok_iff : s.unstake owner = .ok s' ↔
    ∃ t total, s.activeTrove owner = .ok t ∧ s.spread.totalStakes.sub t.stake = .ok total ∧
      s' = { s.withTrove owner { t with stake := 0 } with
        spread := { s.spread with totalStakes := total } } := by
  simp only [unstake, bind_eq_ok_iff, pure_eq_ok_iff]
  constructor
  · rintro ⟨t, ht, total, htot, rfl⟩
    exact ⟨t, total, ht, htot, rfl⟩
  · rintro ⟨t, total, ht, htot, rfl⟩
    exact ⟨t, ht, total, htot, rfl⟩

/-! ## Opening and closing -/

theorem openTrove_eq_ok_iff {coll debt : Amount} : s.openTrove owner coll debt = .ok s' ↔
    s.isActive owner = false ∧ ∃ count, nextCount s.activeCount = .ok count ∧
      s' = { s.withTrove owner ⟨owner, coll, debt, 0, .active, s.spread.snapshot⟩ with
        activeCount := count } := by
  simp only [openTrove, bind_eq_ok_iff, pure_eq_ok_iff]
  constructor
  · rintro ⟨_, hi, count, hc, rfl⟩
    exact ⟨demand_eq_ok_iff.1 hi, count, hc, rfl⟩
  · rintro ⟨hi, count, hc, rfl⟩
    exact ⟨(), demand_eq_ok_iff.2 hi, count, hc, rfl⟩

theorem amend_eq_ok_iff {coll debt : Amount} : s.amend owner coll debt = .ok s' ↔
    ∃ t, s.activeTrove owner = .ok t ∧
      s' = s.withTrove owner { t with coll := coll, debt := debt } := by
  simp only [amend, bind_eq_ok_iff, pure_eq_ok_iff]
  exact exists_congr fun _ => and_congr_right fun _ => eq_comm

theorem closeTrove_eq_ok_iff {status : TroveStatus} : s.closeTrove owner status = .ok s' ↔
    status.isClosed = true ∧ ∃ t, s.activeTrove owner = .ok t ∧ 1 < s.activeCount ∧
      s' = { s.withTrove owner (t.closed status) with activeCount := s.activeCount - 1 } := by
  simp only [closeTrove, bind_eq_ok_iff, pure_eq_ok_iff]
  constructor
  · rintro ⟨_, hc, t, ht, _, hn, rfl⟩
    exact ⟨demand_eq_ok_iff.1 hc, t, ht, demand_eq_ok_iff.1 hn, rfl⟩
  · rintro ⟨hc, t, ht, hn, rfl⟩
    exact ⟨(), demand_eq_ok_iff.2 hc, t, ht, (), demand_eq_ok_iff.2 hn, rfl⟩

/-! ## Spreading -/

/-- Either there is debt to spread, or nothing changes. -/
theorem redistribute_cases {coll debt : Amount} (h : s.redistribute coll debt = .ok s') :
    (debt = 0 ∧ s' = s) ∨
      (debt ≠ 0 ∧ ∃ spread active default, s.spread.spread coll debt = .ok spread ∧
        s.pools.active.decreased coll debt = .ok active ∧
        s.pools.default.increased coll debt = .ok default ∧
        s' = { s with
          spread := spread
          pools := { s.pools with active := active, default := default } }) := by
  unfold redistribute at h
  split at h
  · next h0 => cases h; exact Or.inl ⟨h0, rfl⟩
  · next h0 =>
    simp only [bind_eq_ok_iff, pure_eq_ok_iff] at h
    obtain ⟨spread, hs, active, ha, default, hd, rfl⟩ := h
    exact Or.inr ⟨h0, spread, active, default, hs, ha, hd, rfl⟩

theorem note_eq_ok_iff {owed : Amount} : s.note owed = .ok s' ↔
    ∃ rest coll, s.pools.active.coll.sub owed = .ok rest ∧
      rest.add s.pools.default.coll = .ok coll ∧
      s' = { s with spread := s.spread.noted coll } := by
  simp only [note, bind_eq_ok_iff, pure_eq_ok_iff]
  constructor
  · rintro ⟨rest, hr, coll, hc, rfl⟩
    exact ⟨rest, coll, hr, hc, rfl⟩
  · rintro ⟨rest, coll, hr, hc, rfl⟩
    exact ⟨rest, hr, coll, hc, rfl⟩

/-! ## What reaches the pools

Most changes of records leave pools and deposits alone, and those that move a
share between pools keep what the pools hold together. -/

theorem realize_books {share : PendingShare} (h : s.realize owner = .ok (share, s')) :
    s'.pools.coll = s.pools.coll ∧ s'.pools.debt = s.pools.debt ∧ s'.stability = s.stability := by
  obtain ⟨t, -, ⟨_, _, pools, -, -, -, -, hp, rfl⟩ | ⟨-, -, rfl⟩⟩ := realize_cases h
  · exact ⟨Pools.realized_coll hp, Pools.realized_debt hp, rfl⟩
  · exact ⟨rfl, rfl, rfl⟩

theorem release_books {share : PendingShare} (h : s.release share = .ok s') :
    s'.pools.coll = s.pools.coll ∧ s'.pools.debt = s.pools.debt ∧ s'.stability = s.stability := by
  obtain ⟨pools, hp, rfl⟩ := release_eq_ok_iff.1 h
  exact ⟨Pools.realized_coll hp, Pools.realized_debt hp, rfl⟩

theorem redistribute_books {coll debt : Amount} (h : s.redistribute coll debt = .ok s') :
    s'.pools.coll = s.pools.coll ∧ s'.pools.debt = s.pools.debt ∧ s'.stability = s.stability := by
  obtain ⟨-, rfl⟩ | ⟨-, spread, active, default, -, ha, hd, rfl⟩ := redistribute_cases h
  · exact ⟨rfl, rfl, rfl⟩
  · have := Balance.decreased_eq_ok_iff.1 ha
    have := Balance.increased_eq_ok_iff.1 hd
    refine ⟨?_, ?_, rfl⟩
    · simp only [Pools.coll]
      omega
    · simp only [Pools.debt]
      omega

theorem restake_books {stake : Amount} (h : s.restake owner = .ok (stake, s')) :
    s'.pools = s.pools ∧ s'.stability = s.stability := by
  obtain ⟨_, _, -, -, -, rfl⟩ := restake_eq_ok_iff.1 h
  exact ⟨rfl, rfl⟩

theorem unstake_books (h : s.unstake owner = .ok s') :
    s'.pools = s.pools ∧ s'.stability = s.stability := by
  obtain ⟨_, _, -, -, rfl⟩ := unstake_eq_ok_iff.1 h
  exact ⟨rfl, rfl⟩

theorem openTrove_books {coll debt : Amount} (h : s.openTrove owner coll debt = .ok s') :
    s'.pools = s.pools ∧ s'.stability = s.stability := by
  obtain ⟨-, _, -, rfl⟩ := openTrove_eq_ok_iff.1 h
  exact ⟨rfl, rfl⟩

theorem amend_books {coll debt : Amount} (h : s.amend owner coll debt = .ok s') :
    s'.pools = s.pools ∧ s'.stability = s.stability := by
  obtain ⟨_, -, rfl⟩ := amend_eq_ok_iff.1 h
  exact ⟨rfl, rfl⟩

theorem closeTrove_books {status : TroveStatus} (h : s.closeTrove owner status = .ok s') :
    s'.pools = s.pools ∧ s'.stability = s.stability := by
  obtain ⟨-, _, -, -, rfl⟩ := closeTrove_eq_ok_iff.1 h
  exact ⟨rfl, rfl⟩

theorem note_books {owed : Amount} (h : s.note owed = .ok s') :
    s'.pools = s.pools ∧ s'.stability = s.stability := by
  obtain ⟨_, _, -, -, rfl⟩ := note_eq_ok_iff.1 h
  exact ⟨rfl, rfl⟩

end State

end Stablecoin
