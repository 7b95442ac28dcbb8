/-
  Stablecoin theory — failures of the stability pool.

  Deposits and withdrawals fail where a gain does, and a gain fails only where the scale
  of the deposit is the last one (`StabilityPool.fails_gainOf_iff`).

  Absorbing a liquidation can fail in three ways (`StabilityPool.fails_offset`):
  * it halts because the loss of a token, rounded up, is too much for all deposits
    together (`LossOverflows`, and `Overruns` with the checks that come before), or
    because a count of the pool is full (`IsFilled`);
  * it breaks because so little of each token is left that the product cannot be
    written (`Exhausts`);
  * there is more debt than deposits, which no liquidation asks for.
-/
import Stablecoin.Proofs.Failures
import Stablecoin.Proofs.PoolChanges

namespace Stablecoin.StabilityPool

variable {stop : Stop}

/-! ## Deposits -/

section

variable (s : StabilityPool) (owner : Address) (amount : Amount)

@[simp] theorem not_fails_worth (d : Deposit) : ¬ Fails (s.worth d) stop := by
  have hshrinkage : ¬ Fails (s.shrinkage d) stop := by
    unfold shrinkage
    split <;> simp
  simp [worth, hshrinkage]

@[simp] theorem not_fails_compounded : ¬ Fails (s.compounded owner) stop := by
  unfold compounded
  split <;> simp

variable {s owner amount}

/-- The sum of the next scale is asked for, and there is none after the last. -/
theorem fails_gainOf_iff {d : Deposit} : Fails (s.gainOf d) stop ↔
    d.snapshot.sum ≤ s.sumAt d.snapshot.epoch d.snapshot.scale ∧ Filled d.snapshot.scale ∧
      stop = .fault := by
  have hsub : (∃ here, (s.sumAt d.snapshot.epoch d.snapshot.scale).sub d.snapshot.sum = .ok here) ↔
      d.snapshot.sum ≤ s.sumAt d.snapshot.epoch d.snapshot.scale := by
    constructor
    · rintro ⟨here, h⟩
      rw [Amount.sub_eq_ok_iff] at h
      rw [Amount.le_iff_val_le]
      omega
    · intro h
      obtain ⟨here, h⟩ := Amount.exists_rest h
      exact ⟨here, Amount.sub_eq_ok_iff.2 h⟩
  simp [gainOf, hsub]

theorem fails_gain (h : Fails (s.gain owner) stop) :
    stop = .fault ∧ ∃ d, s.account owner = some d ∧ Filled d.snapshot.scale := by
  unfold gain at h
  split at h
  · exact absurd h (not_fails_ok 0)
  · next d hd =>
    obtain ⟨-, hfilled, hstop⟩ := fails_gainOf_iff.1 h
    exact ⟨hstop, d, hd, hfilled⟩

theorem fails_deposit (h : Fails (s.deposit owner amount) stop) : Fails (s.gain owner) stop := by
  simp only [deposit, fails_bind_iff, fails_demand_iff, demand_eq_iff, Refusal.isBreakage,
    Bool.false_eq_true, not_fails_compounded, Amount.not_fails_add, Amount.not_fails_sub,
    not_fails_pure, and_false, exists_const, or_false, false_or] at h
  obtain ⟨-, _, -, h⟩ := h
  exact h

/-- What is withdrawn is at most what there is. -/
theorem fails_withdraw (h : Fails (s.withdraw owner amount) stop) : Fails (s.gain owner) stop := by
  simp only [withdraw, fails_bind_iff, fails_demand_iff, demand_eq_iff, Refusal.isBreakage,
    Bool.false_eq_true, not_fails_compounded, Amount.not_fails_minus (Amount.min_le_right _ _),
    Amount.not_fails_sub, not_fails_pure, and_false, exists_const, or_false, false_or] at h
  obtain ⟨-, _, -, h⟩ := h
  exact h

end

/-! ## Losses -/

variable {s : StabilityPool} {debt coll : Amount}

/-- The loss of a token, rounded up, is so much for all deposits together that it is no amount. -/
structure LossOverflows (s : StabilityPool) (debt : Amount) : Prop where
  debt_ne : debt ≠ s.deposits
  scaled_lt : debt.val * Amount.unit.val < Amount.limit
  carry_le : s.lossCarry.val ≤ debt.val * Amount.unit.val
  limit_le : Amount.limit ≤
    ((debt.val * Amount.unit.val - s.lossCarry.val) / s.deposits.val + 1) * s.deposits.val

theorem fails_lossPerToken_iff (h0 : s.deposits ≠ 0) :
    Fails (s.lossPerToken debt) stop ↔ s.LossOverflows debt ∧ stop = .fault := by
  have hpos := Amount.ne_zero_iff.1 h0
  simp only [lossPerToken, fails_ite_iff, not_fails_ok, and_false, false_or, fails_bind_iff,
    Amount.not_fails_mul, Amount.not_fails_sub, Amount.fails_dividedBy_iff, h0, false_and,
    Amount.fails_plus_iff, Amount.fails_times_iff, Amount.fails_minus_iff, not_fails_pure,
    exists_const, or_false, Amount.mul_eq_ok_iff, Amount.sub_eq_ok_iff,
    Amount.dividedBy_eq_ok_iff, Amount.plus_eq_ok_iff, Amount.times_eq_ok_iff, Amount.val_one]
  constructor
  · rintro ⟨hne, scaled, hscaled, numerator, hnum, quotient, ⟨-, hq⟩, h⟩
    have hlt := scaled.val_lt
    have hnumerator : debt.val * Amount.unit.val - s.lossCarry.val = numerator.val := by omega
    suffices hoverflow : stop = .fault ∧
        Amount.limit ≤ (numerator.val / s.deposits.val + 1) * s.deposits.val from
      ⟨⟨hne, by omega, by omega, hnumerator ▸ hoverflow.2⟩, hoverflow.1⟩
    rw [← hq]
    obtain ⟨h, hstop⟩ | ⟨loss, hloss, ⟨h, hstop⟩ | ⟨taken, htaken, h, hstop⟩⟩ := h
    · exact ⟨hstop, h.trans (Nat.le_mul_of_pos_right _ hpos)⟩
    · exact ⟨hstop, hloss ▸ h⟩
    · -- the loss was rounded up, so that more is taken than there was
      have hmod := Nat.lt_div_mul_add hpos (a := numerator.val)
      rw [Amount.le_iff_val_le, htaken, hloss, hq, Nat.add_mul, Nat.one_mul] at h
      omega
  · rintro ⟨⟨hne, hlt, hle, hlimit⟩, hstop⟩
    obtain ⟨scaled, hscaled⟩ := Amount.exists_val_eq hlt
    obtain ⟨numerator, hnum⟩ := Amount.exists_rest (a := scaled) (b := s.lossCarry) (by
      rw [Amount.le_iff_val_le, hscaled]
      exact hle)
    have hnumerator : debt.val * Amount.unit.val - s.lossCarry.val = numerator.val := by omega
    rw [hnumerator] at hlimit
    refine ⟨hne, scaled, hscaled, numerator, hnum, numerator.quot s.deposits.val, ⟨h0, rfl⟩, ?_⟩
    have hquot : (numerator.quot s.deposits.val).val = numerator.val / s.deposits.val := rfl
    rw [hquot]
    by_cases hplus : numerator.val / s.deposits.val + 1 < Amount.limit
    · obtain ⟨loss, hloss⟩ := Amount.exists_val_eq hplus
      exact Or.inr ⟨loss, hloss, Or.inl ⟨hloss ▸ hlimit, hstop⟩⟩
    · exact Or.inl ⟨Nat.le_of_not_lt hplus, hstop⟩

/-- So much loss takes deposits near the largest amount. -/
theorem LossOverflows.limit_lt (h : s.LossOverflows debt) (hle : debt ≤ s.deposits) :
    Amount.limit < s.deposits.val * (Amount.unit.val + 1) := by
  have hlimit := h.limit_le
  have hne := h.debt_ne
  rw [ne_eq, ← Amount.val_inj] at hne
  rw [Amount.le_iff_val_le] at hle
  have hdiv := Nat.div_mul_le_self (debt.val * Amount.unit.val - s.lossCarry.val) s.deposits.val
  have hmul := Nat.mul_lt_mul_of_pos_right (Nat.lt_of_le_of_ne hle hne) Amount.unit_pos
  rw [Nat.add_mul, Nat.one_mul] at hlimit
  rw [Nat.mul_add, Nat.mul_one]
  omega

/-! ## Products -/

theorem fails_shrunk {factor : Amount} (h : Fails (s.shrunk factor) stop) :
    stop = .fault ∧ (Filled s.epoch ∨ Filled s.scale) := by
  simp only [shrunk, fails_ite_iff, fails_bind_iff, fails_nextCount_iff, not_fails_pure,
    Amount.not_fails_mul, Amount.not_fails_mulDiv, and_false, exists_const, or_false,
    false_or] at h
  obtain ⟨-, hfilled, hstop⟩ | ⟨-, _, -, -, _, -, _, -, hfilled, hstop⟩ := h
  · exact ⟨hstop, Or.inl hfilled⟩
  · exact ⟨hstop, Or.inr hfilled⟩

/-- A product is rounded down to zero only at a finer scale. -/
theorem shrunk_eq_zero_iff {factor product : Amount} {epoch scale : UInt64}
    (h : s.shrunk factor = .ok (product, epoch, scale)) :
    product = 0 ↔ factor ≠ 0 ∧ s.product.val * factor.val < scaleFactor.val := by
  have hunit : Amount.unit.val = scaleFactor.val * scaleFactor.val := rfl
  have hscale : 0 < scaleFactor.val := by decide
  obtain ⟨h0, rfl, -⟩ | ⟨h0, hle, -, -, hp⟩ | ⟨h0, -, -, -, hp⟩ := shrunk_cases h
  · exact iff_of_false (by decide) fun hno => hno.1 h0
  · have hlarge : scaleFactor.val ≤ product.val := by
      rw [hp]
      exact (Nat.le_div_iff_mul_le Amount.unit_pos).2 hle
    have hless : product.val ≤ s.product.val * factor.val := hp ▸ Nat.div_le_self _ _
    rw [Amount.eq_zero_iff]
    omega
  · rw [Amount.eq_zero_iff, and_iff_right h0, hp, hunit, Nat.mul_div_mul_right _ _ hscale,
      Nat.div_eq_zero_iff_lt hscale]

/-- A loss would leave something of each token, but less of the product than can be written. -/
def Exhausts (s : StabilityPool) (debt : Amount) : Prop :=
  ∃ loss carry factor, s.lossPerToken debt = .ok (loss, carry) ∧
    Amount.unit.sub loss = .ok factor ∧ factor ≠ 0 ∧ s.product.val * factor.val < scaleFactor.val

theorem Exhausts.offset_ne_ok (h : s.Exhausts debt) (hd : s.deposits ≠ 0) (h0 : debt ≠ 0)
    (t : StabilityPool) : s.offset debt coll ≠ .ok t := by
  obtain ⟨loss, carry, factor, hloss, hfactor, hne, hlt⟩ := h
  intro ho
  obtain ⟨hno, -⟩ | ⟨⟨a⟩⟩ := offset_cases ho
  · exact hno.elim hd h0
  have hsame := a.loss_eq
  rw [hloss, Except.ok.injEq, Prod.mk.injEq] at hsame
  have hsum := a.factor_eq
  rw [Amount.sub_eq_ok_iff, hsame.1] at hfactor
  obtain rfl : factor = a.factor := Amount.ext (by omega)
  exact a.product_ne ((shrunk_eq_zero_iff a.shrunk_eq).2 ⟨hne, hlt⟩)

/-! ## Absorbing liquidations -/

/-- A liquidation halts the run although the deposits suffice for its debt and nothing is refused
before. -/
structure Overruns (s : StabilityPool) (debt coll : Amount) : Prop where
  debt_ne : debt ≠ 0
  debt_le : debt ≤ s.deposits
  coll_lt : coll.val * Amount.unit.val + s.collCarry.val < Amount.limit
  loss : s.LossOverflows debt

/-- A count of the pool is full. -/
def IsFilled (s : StabilityPool) : Prop := Filled s.epoch ∨ Filled s.scale ∨ Filled s.offsets

/-- Nothing else fails where the deposits suffice: the other plain operators divide by them, take off
a remainder, or take off debt that was compared with them. -/
theorem fails_offset (h : Fails (s.offset debt coll) stop) :
    s.deposits.val < debt.val ∨ stop = .fault ∧ (s.Overruns debt coll ∨ s.IsFilled) ∨
      stop = .refused .productAtZero ∧ s.Exhausts debt := by
  simp only [offset, fails_ite_iff, not_fails_ok, and_false, false_or, not_or, fails_bind_iff,
    fails_demand_iff, demand_eq_iff, exists_const, Refusal.isBreakage, and_true,
    Amount.not_fails_mul, Amount.not_fails_add, Amount.not_fails_sub, Amount.fails_dividedBy_iff,
    fails_nextCount_iff, not_fails_pure, or_false, Prod.exists, ne_eq, Decidable.not_not] at h
  obtain ⟨⟨h0, hne⟩, ⟨hlt, -⟩ | ⟨hle, scaled, hscaled, numerator, hnumerator, h⟩⟩ := h
  · rw [Amount.le_iff_val_le] at hlt
    exact Or.inl (Nat.lt_of_not_le hlt)
  refine Or.inr ?_
  obtain ⟨h, -⟩ | ⟨gain, hgain, h | ⟨taken, htaken, h | ⟨_, -, h | ⟨loss, carry, hloss, h⟩⟩⟩⟩ := h
  · exact absurd h h0
  · exact absurd h (Amount.not_fails_times hgain)
  · exact absurd h (Amount.not_fails_remainder hgain htaken)
  · obtain ⟨hoverflow, hstop⟩ := (fails_lossPerToken_iff h0).1 h
    have hlt := numerator.val_lt
    rw [Amount.add_eq_ok_iff.1 hnumerator, Amount.mul_eq_ok_iff.1 hscaled] at hlt
    exact Or.inl ⟨hstop, Or.inl ⟨hne, hle, hlt, hoverflow⟩⟩
  obtain ⟨_, -, _, -, factor, hfactor, h | ⟨product, epoch, scale, hshrunk, h⟩⟩ := h
  · obtain ⟨hstop, hfilled⟩ := fails_shrunk h
    exact Or.inl ⟨hstop, Or.inr (hfilled.imp_right Or.inl)⟩
  obtain ⟨hzero, hstop⟩ | ⟨-, h | ⟨_, -, _, -, hfilled, hstop⟩⟩ := h
  · obtain ⟨hfactor0, hlt⟩ := (shrunk_eq_zero_iff hshrunk).1 hzero
    exact Or.inr ⟨hstop, loss, carry, factor, hloss, hfactor, hfactor0, hlt⟩
  · exact absurd h (Amount.not_fails_minus hle)
  · exact Or.inl ⟨hstop, Or.inr (Or.inr (Or.inr hfilled))⟩

theorem deposits_ne_zero (h0 : debt ≠ 0) (hle : debt ≤ s.deposits) : s.deposits ≠ 0 := by
  rw [Amount.ne_zero_iff] at h0 ⊢
  exact Nat.lt_of_lt_of_le h0 (Amount.le_iff_val_le.1 hle)

/-- The collateral for a token is computed, and what remains is carried. -/
theorem exists_gain (h0 : s.deposits ≠ 0)
    (h : coll.val * Amount.unit.val + s.collCarry.val < Amount.limit) :
    ∃ scaled numerator gain taken carry, coll.mul Amount.unit = .ok scaled ∧
      scaled.add s.collCarry = .ok numerator ∧ numerator.dividedBy s.deposits = .ok gain ∧
      gain.times s.deposits = .ok taken ∧ numerator.minus taken = .ok carry ∧
      gain.val = (coll.val * Amount.unit.val + s.collCarry.val) / s.deposits.val := by
  obtain ⟨scaled, hscaled⟩ := Amount.exists_val_eq (lt_of_le_of_lt (Nat.le_add_right _ _) h)
  obtain ⟨numerator, hnumerator⟩ := Amount.exists_val_eq h
  obtain ⟨gain, hgain⟩ : ∃ gain, numerator.dividedBy s.deposits = .ok gain :=
    ⟨numerator.quot s.deposits.val, Amount.dividedBy_eq_ok_iff.2 ⟨h0, rfl⟩⟩
  have hle : gain.val * s.deposits.val ≤ numerator.val := Amount.times_le_of_dividedBy hgain
  obtain ⟨taken, htaken, hle⟩ := Amount.exists_within hle
  obtain ⟨carry, hcarry⟩ := Amount.exists_rest hle
  exact ⟨scaled, numerator, gain, taken, carry, Amount.mul_eq_ok_iff.2 hscaled,
    Amount.add_eq_ok_iff.2 (hscaled ▸ hnumerator), hgain, Amount.times_eq_ok_iff.2 htaken,
    Amount.minus_eq_ok_iff.2 hcarry, hnumerator ▸ (Amount.dividedBy_eq_ok_iff.1 hgain).2⟩

theorem Overruns.fails_offset (h : s.Overruns debt coll) : Fails (s.offset debt coll) .fault := by
  have h0 := deposits_ne_zero h.debt_ne h.debt_le
  -- the links before the loss succeed
  obtain ⟨scaled, numerator, gain, taken, carry, hscaled, hnumerator, hgain, htaken, hcarry, -⟩ :=
    exists_gain h0 h.coll_lt
  simp only [offset, fails_ite_iff, not_fails_ok, and_false, false_or, not_or, fails_bind_iff,
    fails_demand_iff, demand_eq_iff, exists_const, reduceCtorEq, false_and, Amount.not_fails_mul,
    Amount.not_fails_add]
  refine ⟨⟨h0, h.debt_ne⟩, h.debt_le, scaled, hscaled, numerator, hnumerator,
    Or.inr ⟨gain, hgain, Or.inr ⟨taken, htaken, Or.inr ⟨carry, hcarry, ?_⟩⟩⟩⟩
  exact Or.inl ((fails_lossPerToken_iff h0).2 ⟨h.loss, rfl⟩)

end Stablecoin.StabilityPool
