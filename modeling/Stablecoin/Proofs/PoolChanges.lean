/-
  Stablecoin theory — changes of the stability pool.

  * `StabilityPool.Rewriting` is what depositing and withdrawing have in common:
    one deposit is written anew at its worth, more or less what comes in or goes
    out, and the gain of its owner is paid;
  * `StabilityPool.Absorption` names the steps of absorbing a liquidation, and
    `lossPerToken_cases` and `shrunk_cases` say how its two roundings fall.
-/
import Stablecoin.Proofs.Arithmetic
import Stablecoin.StabilityPool

namespace Stablecoin.StabilityPool

variable {s t : StabilityPool} {owner : Address}

/-! ## Deposits -/

/-- The deposit of an owner is written anew, and the gain is paid out. -/
structure Rewriting (s : StabilityPool) (owner : Address) (change : DepositChange)
    (t : StabilityPool) : Prop where
  compounded_eq : s.compounded owner = .ok change.compounded
  gain_eq : s.gain owner = .ok change.gain
  /-- The total moves with the deposit. -/
  deposits_eq : t.deposits.val + change.compounded.val = s.deposits.val + change.deposit.val
  coll_eq : s.coll.val = t.coll.val + change.gain.val
  pool_eq : t = { s with
    deposits := t.deposits, coll := t.coll, accounts := s.accountsWith owner change.deposit }

theorem deposit_ok {amount : Amount} {change : DepositChange}
    (h : s.deposit owner amount = .ok (change, t)) :
    Rewriting s owner change t ∧ t.deposits.val = s.deposits.val + amount.val := by
  simp only [deposit, bind_eq_ok_iff, pure_eq_ok_iff, Prod.mk.injEq, Amount.add_eq_ok_iff,
    Amount.sub_eq_ok_iff] at h
  obtain ⟨_, -, compounded, hc, gain, hg, new, hn, deposits, hd, coll, hl, rfl, rfl⟩ := h
  refine ⟨⟨hc, hg, ?_, hl, rfl⟩, hd⟩
  dsimp only
  omega

theorem withdraw_ok {amount : Amount} {change : DepositChange}
    (h : s.withdraw owner amount = .ok (change, t)) :
    Rewriting s owner change t ∧ change.withdrawn = min amount change.compounded ∧
      s.deposits.val = t.deposits.val + change.withdrawn.val := by
  simp only [withdraw, bind_eq_ok_iff, pure_eq_ok_iff, Prod.mk.injEq, Amount.minus_eq_ok_iff,
    Amount.sub_eq_ok_iff] at h
  obtain ⟨_, -, compounded, hc, gain, hg, new, hn, deposits, hd, coll, hl, rfl, rfl⟩ := h
  refine ⟨⟨hc, hg, ?_, hl, rfl⟩, rfl, hd⟩
  dsimp only
  omega

/-! ## Absorbing liquidations -/

/-- The steps of absorbing a liquidation. -/
structure Absorption (s : StabilityPool) (debt coll : Amount) (t : StabilityPool) where
  /-- The collateral for a token. -/
  gain : Amount
  /-- The loss of a token. -/
  loss : Amount
  /-- What is left of a token. -/
  factor : Amount
  sum : Amount
  deposits_ne : s.deposits ≠ 0
  debt_ne : debt ≠ 0
  gain_eq : coll.val * Amount.unit.val + s.collCarry.val =
    gain.val * s.deposits.val + t.collCarry.val
  loss_eq : s.lossPerToken debt = .ok (loss, t.lossCarry)
  sum_eq : sum.val = (s.sumAt s.epoch s.scale).val + gain.val * s.product.val
  factor_eq : Amount.unit.val = factor.val + loss.val
  shrunk_eq : s.shrunk factor = .ok (t.product, t.epoch, t.scale)
  product_ne : t.product ≠ 0
  deposits_eq : s.deposits.val = t.deposits.val + debt.val
  coll_eq : t.coll.val = s.coll.val + coll.val
  pool_eq : t = { s with
    deposits := t.deposits
    coll := t.coll
    product := t.product
    scale := t.scale
    epoch := t.epoch
    sums := s.sums.insert s.epoch (((s.sums.get? s.epoch).getD .empty).insert s.scale sum)
    collCarry := t.collCarry
    lossCarry := t.lossCarry
    offsets := t.offsets }

/-- Without deposits or without debt nothing happens. -/
theorem offset_cases {debt coll : Amount} (h : s.offset debt coll = .ok t) :
    ((s.deposits = 0 ∨ debt = 0) ∧ t = s) ∨ Nonempty (Absorption s debt coll t) := by
  unfold offset at h
  split at h
  · next h0 => cases h; exact Or.inl ⟨h0, rfl⟩
  next h0 =>
  simp only [bind_eq_ok_iff, pure_eq_ok_iff, Prod.exists, Amount.mul_eq_ok_iff,
    Amount.add_eq_ok_iff, Amount.sub_eq_ok_iff, Amount.minus_eq_ok_iff, Amount.times_eq_ok_iff,
    Amount.dividedBy_eq_ok_iff] at h
  obtain ⟨_, -, scaled, hscaled, numerator, hnum, gain, ⟨-, hgain⟩, taken, htaken, collCarry,
    hcarry, loss, lossCarry, hloss, weighted, hw, sum, hsum, factor, hfactor, product, epoch, scale,
    hshrunk, _, hp, deposits, hdep, total, htotal, offsets, -, rfl⟩ := h
  rw [not_or] at h0
  exact Or.inr ⟨⟨gain, loss, factor, sum, h0.1, h0.2, by dsimp only; omega, hloss,
    by rw [hsum, hw], hfactor, hshrunk, demand_eq_ok_iff.1 hp, hdep, htotal, rfl⟩⟩

/-- The loss takes in what was carried and carries by how much it is rounded up; where all is
lost nothing is carried. -/
theorem lossPerToken_cases {debt loss carry : Amount}
    (h : s.lossPerToken debt = .ok (loss, carry)) :
    (debt = s.deposits ∧ loss = Amount.unit ∧ carry = 0) ∨
      (debt ≠ s.deposits ∧
        loss.val * s.deposits.val + s.lossCarry.val = debt.val * Amount.unit.val + carry.val ∧
        0 < carry.val ∧ carry.val ≤ s.deposits.val) := by
  unfold lossPerToken at h
  split at h
  · next hd =>
    simp only [Except.ok.injEq, Prod.mk.injEq] at h
    exact Or.inl ⟨hd, h.1.symm, h.2.symm⟩
  · next hd =>
    simp only [bind_eq_ok_iff, pure_eq_ok_iff, Prod.mk.injEq, Amount.mul_eq_ok_iff,
      Amount.sub_eq_ok_iff, Amount.minus_eq_ok_iff, Amount.times_eq_ok_iff, Amount.plus_eq_ok_iff,
      Amount.dividedBy_eq_ok_iff, Amount.val_one] at h
    obtain ⟨scaled, hs, numerator, hn, quotient, ⟨h0, hq⟩, loss, hl, taken, ht, carry, hc, rfl,
      rfl⟩ := h
    have hpos := Amount.ne_zero_iff.1 h0
    have hdiv := Nat.div_add_mod numerator.val s.deposits.val
    have hmod := Nat.mod_lt numerator.val hpos
    have htaken : taken.val =
        s.deposits.val * (numerator.val / s.deposits.val) + s.deposits.val := by
      rw [ht, hl, hq, Nat.add_mul, Nat.one_mul, Nat.mul_comm]
    refine Or.inr ⟨hd, ?_, ?_, ?_⟩ <;> omega

/-- A loss that is computed has had no overflow, and a carry within what is cancelled. -/
theorem lossPerToken_bounds {debt loss carry : Amount} (h : s.lossPerToken debt = .ok (loss, carry))
    (hne : debt ≠ s.deposits) : debt.val * Amount.unit.val < Amount.limit ∧
      s.lossCarry.val ≤ debt.val * Amount.unit.val := by
  rw [lossPerToken, if_neg hne] at h
  simp only [bind_eq_ok_iff, Amount.mul_eq_ok_iff, Amount.sub_eq_ok_iff] at h
  obtain ⟨scaled, hscaled, numerator, hnumerator, -⟩ := h
  rw [← hscaled]
  exact ⟨scaled.val_lt, by omega⟩

/-- A token is wiped out, or the product shrinks with it, or it does so at a finer scale where it
would fall below the least one. -/
theorem shrunk_cases {factor product : Amount} {epoch scale : UInt64}
    (h : s.shrunk factor = .ok (product, epoch, scale)) :
    (factor = 0 ∧ product = Amount.unit ∧ nextCount s.epoch = .ok epoch ∧ scale = 0) ∨
      (factor ≠ 0 ∧ scaleFactor.val * Amount.unit.val ≤ s.product.val * factor.val ∧
        epoch = s.epoch ∧ scale = s.scale ∧
        product.val = s.product.val * factor.val / Amount.unit.val) ∨
      (factor ≠ 0 ∧ s.product.val * factor.val < scaleFactor.val * Amount.unit.val ∧
        epoch = s.epoch ∧ nextCount s.scale = .ok scale ∧
        product.val = s.product.val * factor.val * scaleFactor.val / Amount.unit.val) := by
  unfold shrunk at h
  split at h
  · next h0 =>
    simp only [bind_eq_ok_iff, pure_eq_ok_iff, Prod.mk.injEq] at h
    obtain ⟨epoch, he, rfl, rfl, rfl⟩ := h
    exact Or.inl ⟨h0, rfl, he, rfl⟩
  next h0 =>
  simp only [bind_eq_ok_iff, Amount.mulDiv_eq_ok_iff] at h
  obtain ⟨small, ⟨-, hs⟩, h⟩ := h
  have hsmall : small < scaleFactor ↔
      s.product.val * factor.val < scaleFactor.val * Amount.unit.val := by
    rw [Amount.lt_iff_val_lt, hs, Nat.div_lt_iff_lt_mul Amount.unit_pos]
  split at h
  · next hlt =>
    simp only [bind_eq_ok_iff, pure_eq_ok_iff, Prod.mk.injEq, Amount.mul_eq_ok_iff,
      Amount.mulDiv_eq_ok_iff] at h
    obtain ⟨full, hf, product, ⟨-, hp⟩, scale, hsc, rfl, rfl, rfl⟩ := h
    exact Or.inr (Or.inr ⟨h0, hsmall.1 hlt, rfl, hsc, by rw [hp, hf]⟩)
  · next hle =>
    simp only [pure_eq_ok_iff, Prod.mk.injEq] at h
    obtain ⟨rfl, rfl, rfl⟩ := h
    exact Or.inr (Or.inl ⟨h0, Nat.not_lt.1 (mt hsmall.2 hle), rfl, rfl, hs⟩)

end Stablecoin.StabilityPool
