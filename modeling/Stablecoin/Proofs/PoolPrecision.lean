/-
  Stablecoin theory — the precision of the pool, and what refuses an offset.

  When the product would fall below the least that a pool goes on with, it is scaled
  up, but once for an offset, and an offset can leave any share of a token.  And the
  loss is computed less what the loss before was rounded up by, though there may be
  less to cancel.

  * `StabilityPool.Coarsens`: the offset leaves so little of a token that one step of
    the scale does not make up for it: before that step the product would have been
    rounded down to zero.  Just these offsets leave a product below the least one
    (`Absorption.scaleFactor_le_iff`);
  * `StabilityPool.Overflows`, `StabilityPool.Clogs` and `Exhausts`: a product or a sum
    is no amount, more was carried on than there is to cancel, or nothing is left of
    the product.  Nothing else refuses an offset that the deposits cover
    (`exists_offset_iff`), and a pool that has kept its precision is not exhausted;
  * `StabilityPool.precision_kept` says this of every pool that calls lead to, and
    `precision_lost` that both defects are reached.
-/
import Stablecoin.Proofs.DepositSolvency
import Stablecoin.Proofs.Overruns

namespace Stablecoin.StabilityPool

variable {s t : StabilityPool} {owner : Address} {debt coll factor product : Amount}
  {epoch scale : UInt64}

/-! ## The product -/

/-- What an offset leaves of a token. -/
def leftPerToken (s : StabilityPool) (debt : Amount) : Attempt Amount := do
  let (loss, _) ← s.lossPerToken debt
  Amount.unit.sub loss

/-- An offset leaves so little of a token that the product, scaled up once, stays below the least
that a pool goes on with. -/
def Coarsens (s : StabilityPool) (debt : Amount) : Prop :=
  ∃ factor, s.leftPerToken debt = .ok factor ∧ factor ≠ 0 ∧
    s.product.val * factor.val < Amount.unit.val

instance (s : StabilityPool) (debt : Amount) : Decidable (s.Coarsens debt) :=
  match h : s.leftPerToken debt with
  | .ok factor =>
    decidable_of_iff (factor ≠ 0 ∧ s.product.val * factor.val < Amount.unit.val)
      (by simp [Coarsens, h])
  | .error _ => isFalse (by simp [Coarsens, h])

/-- Scaled up once, a product is at the least one just where it was not rounded down to zero
before. -/
theorem scaleFactor_le_shrunk_iff (h : s.shrunk factor = .ok (product, epoch, scale)) :
    scaleFactor ≤ product ↔ factor = 0 ∨ Amount.unit.val ≤ s.product.val * factor.val := by
  rw [Amount.le_iff_val_le]
  obtain ⟨h0, rfl, -⟩ | ⟨h0, hle, -, -, hp⟩ | ⟨h0, -, -, -, hp⟩ := shrunk_cases h
  · exact iff_of_true (by decide) (Or.inl h0)
  · refine iff_of_true ?_ (Or.inr ?_)
    · rw [hp, Nat.le_div_iff_mul_le Amount.unit_pos]
      exact hle
    · exact le_trans (Nat.le_mul_of_pos_left _ (by decide)) hle
  · rw [or_iff_right h0, hp, Nat.le_div_iff_mul_le Amount.unit_pos, Nat.mul_comm scaleFactor.val]
    exact Nat.mul_le_mul_right_iff (by decide)

namespace Absorption

variable (b : Absorption s debt coll t)
include b

theorem leftPerToken_eq : s.leftPerToken debt = .ok b.factor := by
  rw [leftPerToken, b.loss_eq]
  exact Amount.sub_eq_ok_iff.2 b.factor_eq

theorem coarsens_iff : s.Coarsens debt ↔
    b.factor ≠ 0 ∧ s.product.val * b.factor.val < Amount.unit.val := by
  rw [Coarsens, b.leftPerToken_eq]
  constructor
  · rintro ⟨factor, hfactor, h⟩
    cases hfactor
    exact h
  · intro h
    exact ⟨b.factor, rfl, h⟩

/-- **The product stays at the least one, unless the offset is one that coarsens it.** -/
theorem scaleFactor_le_iff : scaleFactor ≤ t.product ↔ ¬ s.Coarsens debt := by
  rw [scaleFactor_le_shrunk_iff b.shrunk_eq, b.coarsens_iff, not_and_or, not_not, Nat.not_lt]

end Absorption

/-! ## What refuses an offset -/

/-- A product or a sum that an offset computes is no amount. -/
inductive Overflows (s : StabilityPool) (debt coll : Amount) : Prop
  | gain (limit_le : Amount.limit ≤ coll.val * Amount.unit.val + s.collCarry.val)
  | loss (debt_ne : debt ≠ s.deposits) (limit_le : Amount.limit ≤ debt.val * Amount.unit.val)
  | rounded (loss : s.LossOverflows debt)
  | sum (limit_le : Amount.limit ≤ (s.sumAt s.epoch s.scale).val +
      (coll.val * Amount.unit.val + s.collCarry.val) / s.deposits.val * s.product.val)
  | total (limit_le : Amount.limit ≤ s.coll.val + coll.val)

/-- An overflow as a disjunction that can be evaluated. -/
theorem Overflows.limit_le (h : s.Overflows debt coll) :
    Amount.limit ≤ coll.val * Amount.unit.val + s.collCarry.val ∨
      Amount.limit ≤ debt.val * Amount.unit.val ∨
      Amount.limit ≤
        ((debt.val * Amount.unit.val - s.lossCarry.val) / s.deposits.val + 1) * s.deposits.val ∨
      Amount.limit ≤ (s.sumAt s.epoch s.scale).val +
        (coll.val * Amount.unit.val + s.collCarry.val) / s.deposits.val * s.product.val ∨
      Amount.limit ≤ s.coll.val + coll.val := by
  cases h with
  | gain limit_le => exact Or.inl limit_le
  | loss _ limit_le => exact Or.inr (Or.inl limit_le)
  | rounded overflow => exact Or.inr (Or.inr (Or.inl overflow.limit_le))
  | sum limit_le => exact Or.inr (Or.inr (Or.inr (Or.inl limit_le)))
  | total limit_le => exact Or.inr (Or.inr (Or.inr (Or.inr limit_le)))

/-- More was carried on from the loss before than there is to cancel now. -/
def Clogs (s : StabilityPool) (debt : Amount) : Prop :=
  debt ≠ s.deposits ∧ debt.val * Amount.unit.val < s.lossCarry.val

/-- The loss of a token can be computed, and is no more than the token. -/
theorem exists_loss (h0 : s.deposits ≠ 0) (hle : debt ≤ s.deposits)
    (ho : ¬ s.Overflows debt coll) (hc : ¬ s.Clogs debt) :
    ∃ loss carry factor, s.lossPerToken debt = .ok (loss, carry) ∧
      Amount.unit.sub loss = .ok factor := by
  by_cases hd : debt = s.deposits
  · exact ⟨Amount.unit, 0, 0, if_pos hd, Amount.sub_eq_ok_iff.2 (Nat.zero_add _).symm⟩
  have hpos := Amount.ne_zero_iff.1 h0
  have hscaled : debt.val * Amount.unit.val < Amount.limit :=
    Nat.lt_of_not_le fun h => ho (.loss hd h)
  have hcarry : s.lossCarry.val ≤ debt.val * Amount.unit.val :=
    Nat.le_of_not_lt fun h => hc ⟨hd, h⟩
  have hround : ((debt.val * Amount.unit.val - s.lossCarry.val) / s.deposits.val + 1) *
      s.deposits.val < Amount.limit :=
    Nat.lt_of_not_le fun h => ho (.rounded ⟨hd, hscaled, hcarry, h⟩)
  have hlt : debt.val < s.deposits.val :=
    Nat.lt_of_le_of_ne (Amount.le_iff_val_le.1 hle) (mt Amount.val_inj.1 hd)
  obtain ⟨scaled, hs⟩ := Amount.exists_val_eq hscaled
  obtain ⟨numerator, hn⟩ := Amount.exists_rest (a := scaled) (b := s.lossCarry) (by
    rw [Amount.le_iff_val_le, hs]
    exact hcarry)
  have hnumerator : debt.val * Amount.unit.val - s.lossCarry.val = numerator.val := by omega
  rw [hnumerator] at hround
  -- some deposits are left, so that the loss is rounded up to a unit at most
  have hless : numerator.val / s.deposits.val < Amount.unit.val := by
    rw [Nat.div_lt_iff_lt_mul hpos]
    calc numerator.val ≤ debt.val * Amount.unit.val := by omega
      _ < s.deposits.val * Amount.unit.val := Nat.mul_lt_mul_of_pos_right hlt Amount.unit_pos
      _ = Amount.unit.val * s.deposits.val := Nat.mul_comm _ _
  obtain ⟨quotient, hq, -⟩ := Amount.exists_within (Nat.div_le_self numerator.val s.deposits.val)
  obtain ⟨loss, hloss, hunit⟩ := Amount.exists_within (a := Amount.unit) (Nat.succ_le_of_lt hless)
  obtain ⟨taken, htaken⟩ := Amount.exists_val_eq hround
  have hmod := Nat.lt_div_mul_add hpos (a := numerator.val)
  obtain ⟨carry, hcarried⟩ := Amount.exists_rest (a := taken) (b := numerator) (by
    rw [Amount.le_iff_val_le, htaken, Nat.add_mul, Nat.one_mul]
    exact Nat.le_of_lt hmod)
  obtain ⟨factor, hfactor⟩ := Amount.exists_rest hunit
  refine ⟨loss, carry, factor, ?_, Amount.sub_eq_ok_iff.2 hfactor⟩
  rw [lossPerToken, if_neg hd]
  simp only [bind_eq_ok_iff, pure_eq_ok_iff, Prod.mk.injEq, Amount.mul_eq_ok_iff,
    Amount.sub_eq_ok_iff, Amount.minus_eq_ok_iff, Amount.times_eq_ok_iff, Amount.plus_eq_ok_iff,
    Amount.dividedBy_eq_ok_iff, Amount.val_one]
  exact ⟨scaled, hs, numerator, hn, quotient, ⟨h0, hq⟩, loss, by rw [hloss, hq], taken,
    by rw [htaken, hloss], carry, hcarried, rfl, rfl⟩

theorem exists_nextCount {n : UInt64} (h : ¬ Filled n) : ∃ m, nextCount n = .ok m :=
  ⟨n + 1, if_pos (Nat.lt_of_not_le h)⟩

/-- The product can be computed where it is a unit at most. -/
theorem exists_shrunk (hp : s.product ≤ Amount.unit) (hf : factor ≤ Amount.unit)
    (hfilled : ¬ s.IsFilled) :
    ∃ product epoch scale, s.shrunk factor = .ok (product, epoch, scale) := by
  rw [IsFilled, not_or, not_or] at hfilled
  obtain ⟨hepoch, hscale, -⟩ := hfilled
  rw [Amount.le_iff_val_le] at hp hf
  by_cases h0 : factor = 0
  · obtain ⟨next, hnext⟩ := exists_nextCount hepoch
    refine ⟨Amount.unit, next, 0, ?_⟩
    rw [shrunk, if_pos h0, hnext]
    rfl
  have hmul := Nat.mul_le_mul hp hf
  obtain ⟨small, hsmall, -⟩ :=
    Amount.exists_within (a := Amount.unit) (Nat.div_le_of_le_mul hmul)
  have hdiv : s.product.mulDiv factor Amount.unit = .ok small :=
    Amount.mulDiv_eq_ok_iff.2 ⟨by decide, hsmall⟩
  by_cases hlt : small < scaleFactor
  · obtain ⟨next, hnext⟩ := exists_nextCount hscale
    obtain ⟨full, hfull⟩ := Amount.exists_val_eq (lt_of_le_of_lt hmul (by decide))
    have hscaled : full.val * scaleFactor.val ≤
        Amount.unit.val * (Amount.unit.val * scaleFactor.val) := by
      rw [hfull, ← Nat.mul_assoc]
      exact Nat.mul_le_mul_right _ hmul
    obtain ⟨product, hproduct⟩ :=
      Amount.exists_val_eq (lt_of_le_of_lt (Nat.div_le_of_le_mul hscaled) (by decide))
    refine ⟨product, s.epoch, next, ?_⟩
    simp only [shrunk, if_neg h0, hdiv, bind_eq_ok_iff, pure_eq_ok_iff, Except.ok.injEq,
      exists_eq_left', if_pos hlt]
    exact ⟨full, Amount.mul_eq_ok_iff.2 hfull, product,
      Amount.mulDiv_eq_ok_iff.2 ⟨by decide, hproduct⟩, next, hnext, rfl⟩
  · refine ⟨small, s.epoch, s.scale, ?_⟩
    simp only [shrunk, if_neg h0, hdiv, bind_eq_ok_iff, pure_eq_ok_iff, Except.ok.injEq,
      exists_eq_left', if_neg hlt]

/-- An offset that is made has had no overflow, and a carry within what is cancelled. -/
theorem offset_bounds (hd : s.deposits ≠ 0) (h0 : debt ≠ 0) (h : s.offset debt coll = .ok t) :
    ¬ s.Overflows debt coll ∧ ¬ s.Clogs debt := by
  rw [offset, if_neg (not_or.2 ⟨hd, h0⟩)] at h
  simp only [bind_eq_ok_iff, Prod.exists, Amount.mul_eq_ok_iff, Amount.add_eq_ok_iff,
    Amount.dividedBy_eq_ok_iff] at h
  obtain ⟨_, -, scaled, hscaled, numerator, hnum, gain, ⟨-, hgain⟩, _, -, _, -, loss, lossCarry,
    hloss, weighted, hweighted, sum, hsum, _, -, _, _, _, -, _, -, _, -, total, htotal, -⟩ := h
  rw [hscaled] at hnum
  constructor
  · intro ho
    cases ho with
    | gain limit_le => exact absurd numerator.val_lt (hnum ▸ Nat.not_lt.2 limit_le)
    | loss debt_ne limit_le =>
      exact Nat.not_lt.2 limit_le (lossPerToken_bounds hloss debt_ne).1
    | rounded overflow => exact ((fails_lossPerToken_iff hd).2 ⟨overflow, rfl⟩).ne_ok _ hloss
    | sum limit_le =>
      rw [← hnum, ← hgain, ← hweighted, ← hsum] at limit_le
      exact Nat.not_lt.2 limit_le sum.val_lt
    | total limit_le => exact Nat.not_lt.2 limit_le (htotal ▸ total.val_lt)
  · rintro ⟨hne, hlt⟩
    exact Nat.not_lt.2 (lossPerToken_bounds hloss hne).2 hlt

/-- **Nothing else refuses an offset that the deposits cover:** overflow, a carry that is too large,
or a product that is exhausted. -/
theorem exists_offset_iff (hp : s.product ≤ Amount.unit) (hfilled : ¬ s.IsFilled) (h0 : debt ≠ 0)
    (hle : debt ≤ s.deposits) : (∃ t, s.offset debt coll = .ok t) ↔
      ¬ s.Overflows debt coll ∧ ¬ s.Clogs debt ∧ ¬ s.Exhausts debt := by
  have hd := deposits_ne_zero h0 hle
  constructor
  · rintro ⟨t, ht⟩
    obtain ⟨hoverflows, hclogs⟩ := offset_bounds hd h0 ht
    exact ⟨hoverflows, hclogs, fun he => he.offset_ne_ok hd h0 t ht⟩
  · rintro ⟨hoverflows, hclogs, hexhausts⟩
    obtain ⟨loss, carry, factor, hloss, hfactor⟩ := exists_loss hd hle hoverflows hclogs
    have hf : factor ≤ Amount.unit := by
      rw [Amount.le_iff_val_le, Amount.sub_eq_ok_iff.1 hfactor]
      exact Nat.le_add_right _ _
    obtain ⟨product, epoch, scale, hshrunk⟩ := exists_shrunk hp hf hfilled
    have hproduct : product ≠ 0 := by
      intro hzero
      obtain ⟨hne, hlt⟩ := (shrunk_eq_zero_iff hshrunk).1 hzero
      exact hexhausts ⟨loss, carry, factor, hloss, hfactor, hne, hlt⟩
    obtain ⟨scaled, numerator, gain, taken, collCarry, hscaled, hnumerator, hgain, htaken,
      hcollCarry, hvalue⟩ := exists_gain hd (Nat.lt_of_not_le fun h => hoverflows (.gain h))
    have hbound : (s.sumAt s.epoch s.scale).val + gain.val * s.product.val < Amount.limit := by
      rw [hvalue]
      exact Nat.lt_of_not_le fun h => hoverflows (.sum h)
    obtain ⟨weighted, hweighted⟩ :=
      Amount.exists_val_eq (lt_of_le_of_lt (Nat.le_add_left _ _) hbound)
    obtain ⟨sum, hsum⟩ := Amount.exists_val_eq hbound
    obtain ⟨deposits, hdeposits⟩ := Amount.exists_rest hle
    obtain ⟨total, htotal⟩ := Amount.exists_val_eq
      (Nat.lt_of_not_le fun h => hoverflows (.total h))
    obtain ⟨offsets, hoffsets⟩ := exists_nextCount fun h => hfilled (Or.inr (Or.inr h))
    rw [offset, if_neg (not_or.2 ⟨hd, h0⟩)]
    simp only [bind_eq_ok_iff, Prod.exists, pure_eq_ok_iff]
    exact ⟨_, (), demand_eq_ok_iff.2 hle, scaled, hscaled, numerator, hnumerator, gain, hgain,
      taken, htaken, collCarry, hcollCarry, loss, carry, hloss, weighted,
      Amount.mul_eq_ok_iff.2 hweighted, sum, Amount.add_eq_ok_iff.2 (hweighted ▸ hsum), factor,
      hfactor, product, epoch, scale, hshrunk, (), demand_eq_ok_iff.2 hproduct, deposits,
      Amount.minus_eq_ok_iff.2 hdeposits, total, Amount.add_eq_ok_iff.2 htotal, offsets, hoffsets,
      rfl⟩

/-- A pool that has kept its precision is not exhausted. -/
theorem not_exhausts_of_le (hs : scaleFactor ≤ s.product) : ¬ s.Exhausts debt := by
  rintro ⟨_, _, factor, -, -, h0, hlt⟩
  have hle : scaleFactor.val * 1 ≤ s.product.val * factor.val :=
    Nat.mul_le_mul (Amount.le_iff_val_le.1 hs) (Amount.ne_zero_iff.1 h0)
  omega

/-! ## Runs -/

theorem counted_obey {n : Nat} (hs : s.Counted n) (c : PoolCall) : (s.obey c).Counted (n + 1) := by
  obtain h | ⟨owner, change, -, h⟩ | ⟨debt, coll, rfl, -⟩ := s.obey_cases c
  · rw [h]
    exact hs.mono
  · exact (h.counted hs).mono
  · obtain h | h := orSame_cases (s := s) (s.offset debt coll)
    · show (s.orSame _).Counted _
      rw [h]
      exact hs.mono
    · exact hs.offset h

theorem counted_empty : empty.Counted 0 :=
  ⟨Nat.le_refl _, Nat.le_refl _, Nat.le_refl _, nofun⟩

theorem counted_after {n : Nat} (hs : s.Counted n) (calls : List PoolCall) :
    (s.after calls).Counted (n + calls.length) := by
  induction calls generalizing s n with
  | nil => exact hs
  | cons c rest ih =>
    rw [List.length_cons, Nat.add_comm rest.length, ← Nat.add_assoc]
    exact ih (counted_obey hs c)

/-- A call is not an offset that is made and coarsens the pool. -/
def Fine (s : StabilityPool) : PoolCall → Prop
  | .offset debt coll =>
    s.deposits ≠ 0 → debt ≠ 0 → (s.offset debt coll).isOk = true → ¬ s.Coarsens debt
  | _ => True

/-- The calls of a run are fine. -/
def FineRun : StabilityPool → List PoolCall → Prop
  | _, [] => True
  | s, c :: rest => s.Fine c ∧ FineRun (s.obey c) rest

instance (s : StabilityPool) : ∀ c : PoolCall, Decidable (s.Fine c)
  | .deposit _ _ => isTrue trivial
  | .withdraw _ _ => isTrue trivial
  | .offset debt coll => inferInstanceAs (Decidable
      (s.deposits ≠ 0 → debt ≠ 0 → (s.offset debt coll).isOk = true → ¬ s.Coarsens debt))

instance decidableFineRun :
    ∀ (s : StabilityPool) (calls : List PoolCall), Decidable (FineRun s calls)
  | _, [] => isTrue trivial
  | s, c :: rest =>
    have := decidableFineRun (s.obey c) rest
    inferInstanceAs (Decidable (s.Fine c ∧ FineRun (s.obey c) rest))

theorem product_obey {c : PoolCall} (hc : c.isOffset = false) : (s.obey c).product = s.product := by
  obtain h | ⟨owner, change, -, h⟩ | ⟨debt, coll, rfl, -⟩ := s.obey_cases c
  · rw [h]
  · exact h.factors.1
  · cases hc

/-- A call keeps the precision of the pool just where it is fine. -/
theorem scaleFactor_le_obey_iff (hs : scaleFactor ≤ s.product) (c : PoolCall) :
    scaleFactor ≤ (s.obey c).product ↔ s.Fine c := by
  cases c with
  | deposit owner amount =>
    rw [product_obey rfl]
    exact iff_of_true hs trivial
  | withdraw owner amount =>
    rw [product_obey rfl]
    exact iff_of_true hs trivial
  | offset debt coll =>
    show scaleFactor ≤ (s.orSame (s.offset debt coll)).product ↔
      (s.deposits ≠ 0 → debt ≠ 0 → (s.offset debt coll).isOk = true → ¬ s.Coarsens debt)
    rcases ht : s.offset debt coll with stop | t
    · exact iff_of_true hs nofun
    · obtain ⟨hidle, rfl⟩ | ⟨⟨b⟩⟩ := offset_cases ht
      · exact iff_of_true hs fun hd h0 _ => absurd hidle (not_or.2 ⟨hd, h0⟩)
      · show scaleFactor ≤ t.product ↔ _
        rw [b.scaleFactor_le_iff]
        constructor
        · intro h _ _ _
          exact h
        · intro h
          exact h b.deposits_ne b.debt_ne rfl

/-- **A run keeps the precision of the pool throughout just where all of its calls are fine.** -/
theorem fineRun_iff (hs : scaleFactor ≤ s.product) (calls : List PoolCall) :
    FineRun s calls ↔ ∀ n, scaleFactor ≤ (s.after (calls.take n)).product := by
  induction calls generalizing s with
  | nil =>
    constructor
    · intro _ n
      rw [List.take_nil]
      exact hs
    · intro _
      trivial
  | cons c rest ih =>
    constructor
    · rintro ⟨hfine, hrest⟩ n
      have hnext := (scaleFactor_le_obey_iff hs c).2 hfine
      rcases n with - | n
      · exact hs
      · exact (ih hnext).1 hrest n
    · intro h
      have hnext : scaleFactor ≤ (s.obey c).product := h 1
      exact ⟨(scaleFactor_le_obey_iff hs c).1 hnext, (ih hnext).2 fun n => h (n + 1)⟩

/-- **A pool keeps its precision as long as no offset coarsens it, and then refuses an offset that
the deposits cover for nothing but an overflow or a carry that is too large.**  A run keeps its
precision throughout just where its calls are fine, and an offset that the deposits cover leaves a
product at the least one or above just where it does not coarsen the pool.  The offset is made just
where no product or sum overflows, the carry is within what is cancelled, and the pool is not
exhausted. -/
theorem precision_kept (calls : List PoolCall) :
    (FineRun empty calls ↔ ∀ n, scaleFactor ≤ (empty.after (calls.take n)).product) ∧
    ∀ debt coll, debt ≠ 0 → debt ≤ (empty.after calls).deposits →
      (∀ t, (empty.after calls).offset debt coll = .ok t →
        (scaleFactor ≤ t.product ↔ ¬ (empty.after calls).Coarsens debt)) ∧
      (scaleFactor ≤ (empty.after calls).product → ¬ (empty.after calls).Exhausts debt) ∧
      (calls.length + 1 < UInt64.size → ((∃ t, (empty.after calls).offset debt coll = .ok t) ↔
        ¬ (empty.after calls).Overflows debt coll ∧ ¬ (empty.after calls).Clogs debt ∧
          ¬ (empty.after calls).Exhausts debt)) := by
  refine ⟨fineRun_iff (by decide) calls, ?_⟩
  intro debt coll h0 hle
  refine ⟨?_, not_exhausts_of_le, ?_⟩
  · intro t ht
    obtain ⟨hidle, -⟩ | ⟨⟨b⟩⟩ := offset_cases ht
    · exact absurd hidle (not_or.2 ⟨deposits_ne_zero h0 hle, h0⟩)
    · exact b.scaleFactor_le_iff
  · intro hlength
    have hcounted := counted_after counted_empty calls
    rw [Nat.zero_add] at hcounted
    exact exists_offset_iff (product_le_after (Nat.le_refl _) calls)
      (hcounted.not_filled hlength) h0 hle

/-- The deposits that are left cancel as much again. -/
theorem precision_kept_fairCalls : FineRun empty fairCalls ∧
    scaleFactor ≤ (empty.after fairCalls).product ∧
    ∃ t, (empty.after fairCalls).offset (.whole 100_000) 0 = .ok t ∧
      scaleFactor ≤ t.product := by
  have hfine : FineRun empty fairCalls := by decide +kernel
  obtain ⟨hrun, hoffset⟩ := precision_kept fairCalls
  have hproduct : scaleFactor ≤ (empty.after fairCalls).product := hrun.1 hfine 2
  obtain ⟨hkept, hexhausts, hmade⟩ :=
    hoffset (.whole 100_000) 0 (by decide) (by decide +kernel)
  have hoverflows : ¬ (empty.after fairCalls).Overflows (.whole 100_000) 0 :=
    fun h => absurd h.limit_le (by decide +kernel)
  have hclogs : ¬ (empty.after fairCalls).Clogs (.whole 100_000) := by
    unfold Clogs
    decide +kernel
  obtain ⟨t, ht⟩ := (hmade (by decide)).2 ⟨hoverflows, hclogs, hexhausts hproduct⟩
  exact ⟨hfine, hproduct, t, ht, (hkept t ht).2 (by decide +kernel)⟩

/-! ## Runs that lose precision, and that are stuck -/

/-- Two offsets leave some `10 ^ -18` of the deposits, which are filled up in between. -/
def coarseCalls : List PoolCall :=
  [.deposit depositor (.whole 1_000_000),
    .offset ⟨999_999_999_999_999_998_000_000, by decide⟩ 0,
    .deposit depositor ⟨999_999_999_999_999_998_000_000, by decide⟩,
    .offset ⟨999_999_999_999_999_999_000_000, by decide⟩ 0]

/-- **The product falls below the least one, and an offset that the deposits cover is refused
without an overflow:** the first after two offsets that leave next to nothing, the second after one that
was rounded up by the whole deposit. -/
theorem precision_lost :
    (empty.after coarseCalls).product < scaleFactor ∧
    (1 : Amount) ≠ 0 ∧ 1 ≤ (empty.after fairCalls).deposits ∧
    ¬ (empty.after fairCalls).Overflows 1 0 ∧
    ((empty.after fairCalls).offset 1 0).isOk = false := by
  refine ⟨by decide +kernel, by decide, by decide +kernel, ?_, by decide +kernel⟩
  intro h
  exact absurd h.limit_le (by decide +kernel)

end Stablecoin.StabilityPool
