/-
  Stablecoin theory — whether deposits are covered.

  The worth of deposits follows the product, which is rounded, while the sum of
  deposits goes down by exactly the debt that is cancelled.  The loss of a token is
  rounded up, but then lowered by what an offset before was rounded up by, and that
  was for another sum of deposits; so the product may fall too little.

  * `StabilityPool.exactWorth` is the worth of a deposit without rounding, and a
    pool *covers* accounts if their exact worth is no more than its deposits;
  * an offset is *fair* if the product falls at least in proportion to the deposits
    (`StabilityPool.Fair`).  `Absorption.fair_iff`: fair offsets are those that leave
    accounts covered that were covered before;
  * `StabilityPool.owed_le_deposits`: as long as offsets are fair, depositors are
    never owed more than the pool has; `owed_gt_deposits` is a run in which they are.
-/
import Stablecoin.Proofs.PoolRuns

namespace Stablecoin.StabilityPool

variable {s t : StabilityPool} {owner : Address} {debt coll : Amount} {d : Deposit}
  {accounts : Table Address Deposit}

/-! ## Exact worth -/

/-- What changes of the scale leave of a deposit; after two it counts as nothing. -/
def scaleShare : ℕ → ℚ
  | 0 => 1
  | 1 => 1 / scaleFactor.val
  | _ => 0

/-- What liquidations have left of a deposit, without rounding. -/
def exactWorth (s : StabilityPool) (d : Deposit) : ℚ :=
  if d.snapshot.epoch < s.epoch then 0
  else d.amount.val * s.product.val / d.snapshot.product.val *
    scaleShare (s.scale.toNat - d.snapshot.scale.toNat)

/-- The exact worth of all deposits in accounts. -/
def claims (s : StabilityPool) (accounts : Table Address Deposit) : ℚ := accounts.sum s.exactWorth

/-- The deposits of the pool are enough for the deposits in accounts. -/
def Covers (s : StabilityPool) (accounts : Table Address Deposit) : Prop :=
  s.claims accounts ≤ s.deposits.val

theorem scaleShare_nonneg (n : ℕ) : 0 ≤ scaleShare n := by
  unfold scaleShare
  split <;> positivity

theorem scaleShare_succ_le (n : ℕ) : scaleShare (n + 1) ≤ scaleShare n / scaleFactor.val := by
  rcases n with - | n
  · exact le_rfl
  · exact div_nonneg (scaleShare_nonneg _) (Nat.cast_nonneg _)

theorem exactWorth_nonneg (s : StabilityPool) (d : Deposit) : 0 ≤ s.exactWorth d := by
  unfold exactWorth
  split
  · exact le_rfl
  · exact mul_nonneg (by positivity) (scaleShare_nonneg _)

theorem exactWorth_snapshot (hp : 0 < s.product.val) (amount : Amount) :
    s.exactWorth ⟨amount, s.snapshot⟩ = amount.val := by
  have hne : (s.product.val : ℚ) ≠ 0 := by exact_mod_cast hp.ne'
  have hlt : ¬ s.epoch < s.epoch := UInt64.lt_irrefl _
  simp only [exactWorth, snapshot, if_neg hlt, Nat.sub_self, scaleShare, mul_one]
  field_simp

/-- The product takes a deposit down to its exact worth, rounded down. -/
theorem shrinkage_eq {left : Amount} (h : s.shrinkage d = .ok left) :
    left.val = ⌊(d.amount.val * s.product.val / d.snapshot.product.val *
      scaleShare (s.scale.toNat - d.snapshot.scale.toNat) : ℚ)⌋₊ := by
  unfold shrinkage at h
  rcases hn : s.scale.toNat - d.snapshot.scale.toNat with - | - | n <;> rw [hn] at h
  · rw [scaleShare, mul_one, (Amount.mulDiv_eq_ok_iff.1 h).2, ← Nat.cast_mul, Nat.floor_div_eq_div]
  · rcases hm : d.amount.mulDiv s.product d.snapshot.product with stop | a
    · rw [hm] at h
      cases h
    · rw [hm] at h
      cases h
      show a.val / scaleFactor.val = _
      rw [scaleShare, mul_one_div, div_div, ← Nat.cast_mul, ← Nat.cast_mul, Nat.floor_div_eq_div,
        (Amount.mulDiv_eq_ok_iff.1 hm).2, Nat.div_div_eq_div_mul]
  · cases h
    show 0 = ⌊(_ * 0 : ℚ)⌋₊
    rw [mul_zero, Nat.floor_zero]

/-- Less than a billionth of an amount counts as nothing. -/
def cutOff (amount left : ℕ) : ℕ := if left < amount / 1_000_000_000 then 0 else left

theorem cutOff_le (amount left : ℕ) : cutOff amount left ≤ left := by
  unfold cutOff
  split
  · exact Nat.zero_le _
  · exact Nat.le_refl _

theorem cutOff_mono (amount : ℕ) {m n : ℕ} (h : m ≤ n) : cutOff amount m ≤ cutOff amount n := by
  unfold cutOff
  split <;> split <;> omega

/-- **A deposit is worth its exact worth, rounded down and cut off.** -/
theorem worth_eq {a : Amount} (h : s.worth d = .ok a) :
    a.val = cutOff d.amount.val ⌊s.exactWorth d⌋₊ := by
  unfold worth at h
  unfold exactWorth
  split at h
  · next he =>
    cases h
    rw [if_pos he, Nat.floor_zero]
    exact (Nat.le_zero.1 (cutOff_le _ 0)).symm
  next he =>
  simp only [bind_eq_ok_iff, pure_eq_ok_iff] at h
  obtain ⟨left, hleft, rfl⟩ := h
  rw [if_neg he, ← shrinkage_eq hleft]
  exact apply_ite Amount.val _ _ _

/-- Rounding only lowers the worth of a deposit. -/
theorem worth_le_exactWorth {a : Amount} (h : s.worth d = .ok a) :
    (a.val : ℚ) ≤ s.exactWorth d := by
  rw [worth_eq h]
  exact (Nat.cast_le.2 (cutOff_le _ _)).trans (Nat.floor_le (exactWorth_nonneg s d))

theorem compounded_le_part {a : Amount} (h : s.compounded owner = .ok a) :
    (a.val : ℚ) ≤ s.accounts.part s.exactWorth owner := by
  unfold compounded account at h
  unfold Table.part
  split at h
  · next hn =>
    cases h
    rw [hn]
    exact le_rfl
  · next d hd =>
    rw [hd]
    exact worth_le_exactWorth h

/-! ## Deposits and withdrawals -/

theorem Rewriting.exactWorth_eq {change : DepositChange} (h : Rewriting s owner change t) :
    t.exactWorth = s.exactWorth := by
  obtain ⟨hp, he, hsc, -⟩ := h.factors
  funext d
  rw [exactWorth, hp, he, hsc, exactWorth]

/-- A deposit that is written anew is worth what it says, so that what was covered stays so. -/
theorem Rewriting.covers {change : DepositChange} (h : Rewriting s owner change t) (hs : Valid s)
    (hc : s.Covers s.accounts) : t.Covers t.accounts := by
  obtain ⟨-, -, -, -, -, ha⟩ := h.factors
  have hsum := sum_accountsWith s.exactWorth s owner change.deposit
    (exactWorth_snapshot hs.product_pos 0)
  rw [exactWorth_snapshot hs.product_pos] at hsum
  have hpart := compounded_le_part h.compounded_eq
  have hdeposits : (t.deposits.val : ℚ) + change.compounded.val =
      s.deposits.val + change.deposit.val := by
    exact_mod_cast h.deposits_eq
  unfold Covers claims at hc ⊢
  rw [h.exactWorth_eq, ha]
  linarith

/-! ## Liquidations -/

/-- What is left of a token, without rounding and apart from the scale. -/
def rate (s t : StabilityPool) : ℚ :=
  t.product.val / s.product.val / scaleFactor.val ^ (t.scale.toNat - s.scale.toNat)

/-- The product falls at least in proportion to the deposits, or a new epoch begins. -/
def Fair (s t : StabilityPool) : Prop :=
  s.epoch < t.epoch ∨ t.product.val * s.deposits.val ≤
    s.product.val * t.deposits.val * scaleFactor.val ^ (t.scale.toNat - s.scale.toNat)

instance (s t : StabilityPool) : Decidable (Fair s t) := inferInstanceAs (Decidable (_ ∨ _))

theorem fair_iff_rate (hp : 0 < s.product.val) (he : ¬ s.epoch < t.epoch) :
    Fair s t ↔ rate s t * s.deposits.val ≤ t.deposits.val := by
  have hproduct : (0 : ℚ) < s.product.val := by exact_mod_cast hp
  have hscale : (0 : ℚ) < scaleFactor.val ^ (t.scale.toNat - s.scale.toNat) :=
    pow_pos (by exact_mod_cast (by decide : 0 < scaleFactor.val)) _
  have hrate : rate s t * s.deposits.val = t.product.val * s.deposits.val /
      (s.product.val * scaleFactor.val ^ (t.scale.toNat - s.scale.toNat)) := by
    unfold rate
    field_simp
  rw [Fair, or_iff_right he, hrate, div_le_iff₀ (mul_pos hproduct hscale), ← @Nat.cast_le ℚ]
  push_cast
  constructor <;> intro h <;> linarith

/-- A liquidation that begins no epoch goes on in the present one. -/
theorem Absorption.epoch_eq (b : Absorption s debt coll t) (he : ¬ s.epoch < t.epoch) :
    t.epoch = s.epoch := by
  rw [UInt64.lt_iff_toNat_lt] at he
  obtain ⟨hn, -⟩ | ⟨hn, -⟩ | ⟨hn, -⟩ := b.factors
  · omega
  · exact hn
  · exact hn

/-- How far the scale has moved on within an epoch. -/
theorem Absorption.scale_cases (b : Absorption s debt coll t) (he : t.epoch = s.epoch) :
    t.scale = s.scale ∨ t.scale.toNat = s.scale.toNat + 1 := by
  obtain ⟨hn, -⟩ | ⟨-, hs, -⟩ | ⟨-, hs, -⟩ := b.factors
  · rw [he] at hn
    omega
  · exact Or.inl hs
  · exact Or.inr hs

/-- Liquidations lower the worth of a deposit at the rate of the pool; at a change of the scale old
deposits may become worthless. -/
theorem Absorption.exactWorth_le (b : Absorption s debt coll t) (hs : Valid s) (hd : d.FitsIn s)
    (he : t.epoch = s.epoch) : t.exactWorth d ≤ rate s t * s.exactWorth d := by
  have hp : (s.product.val : ℚ) ≠ 0 := by exact_mod_cast hs.product_pos.ne'
  unfold exactWorth rate
  rw [he]
  split
  · rw [mul_zero]
  next hlt =>
  rw [UInt64.lt_iff_toNat_lt] at hlt
  have hscale := hd.scale_le (UInt64.toNat_inj.1 (le_antisymm hd.epoch_le (not_lt.1 hlt)))
  obtain hsame | hnext := b.scale_cases he
  · rw [hsame, Nat.sub_self, pow_zero, div_one]
    apply le_of_eq
    field_simp
  · have hn : t.scale.toNat - d.snapshot.scale.toNat =
        s.scale.toNat - d.snapshot.scale.toNat + 1 := by omega
    have hone : t.scale.toNat - s.scale.toNat = 1 := by omega
    rw [hn, hone, pow_one]
    calc (d.amount.val : ℚ) * t.product.val / d.snapshot.product.val *
          scaleShare (s.scale.toNat - d.snapshot.scale.toNat + 1)
        ≤ d.amount.val * t.product.val / d.snapshot.product.val *
          (scaleShare (s.scale.toNat - d.snapshot.scale.toNat) / scaleFactor.val) :=
          mul_le_mul_of_nonneg_left (scaleShare_succ_le _) (by positivity)
      _ = t.product.val / s.product.val / scaleFactor.val *
          (d.amount.val * s.product.val / d.snapshot.product.val *
            scaleShare (s.scale.toNat - d.snapshot.scale.toNat)) := by field_simp

/-- A deposit written just before a liquidation follows the rate exactly. -/
theorem Absorption.exactWorth_snapshot (b : Absorption s debt coll t) (he : t.epoch = s.epoch)
    (amount : Amount) : t.exactWorth ⟨amount, s.snapshot⟩ = rate s t * amount.val := by
  simp only [exactWorth, snapshot, rate, he]
  rw [if_neg (UInt64.lt_irrefl _)]
  obtain hsame | hnext := b.scale_cases he
  · rw [hsame, Nat.sub_self, scaleShare, pow_zero]
    ring
  · have hone : t.scale.toNat - s.scale.toNat = 1 := by omega
    rw [hone, scaleShare, pow_one]
    ring

/-- A new epoch leaves nothing of earlier deposits. -/
theorem exactWorth_eq_zero (he : s.epoch < t.epoch) (hd : d.FitsIn s) : t.exactWorth d = 0 := by
  rw [UInt64.lt_iff_toNat_lt] at he
  rw [exactWorth, if_pos (UInt64.lt_iff_toNat_lt.2 (lt_of_le_of_lt hd.epoch_le he))]

theorem claims_eq_zero (he : s.epoch < t.epoch)
    (hfits : ∀ a d, accounts.get? a = some d → d.FitsIn s) : t.claims accounts = 0 := by
  apply Table.sum_eq_zero
  intro a d hd
  exact exactWorth_eq_zero he (hfits a d hd)

theorem Absorption.claims_le (b : Absorption s debt coll t) (hs : Valid s) (he : t.epoch = s.epoch)
    (hfits : ∀ a d, accounts.get? a = some d → d.FitsIn s) :
    t.claims accounts ≤ rate s t * s.claims accounts := by
  unfold claims
  rw [← Table.mul_sum]
  apply Table.sum_le_sum
  intro a d hd
  exact b.exactWorth_le hs (hfits a d hd) he

/-- One depositor who has just deposited everything. -/
def soleAccount (s : StabilityPool) : Table Address Deposit :=
  Table.empty.insert Address.zero ⟨s.deposits, s.snapshot⟩

theorem soleAccount_fits (hs : Valid s) {a : Address} (h : s.soleAccount.get? a = some d) :
    d.FitsIn s := by
  rw [soleAccount, Table.get?_insert_of] at h
  split at h
  · cases h
    exact hs.fits_snapshot s.deposits
  · cases h

/-- **Fair offsets are those that leave covered what was covered.** -/
theorem Absorption.fair_iff (b : Absorption s debt coll t) (hs : Valid s) :
    Fair s t ↔ ∀ accounts : Table Address Deposit,
      (∀ a d, accounts.get? a = some d → d.FitsIn s) → s.Covers accounts → t.Covers accounts := by
  by_cases he : s.epoch < t.epoch
  · constructor
    · intro _ accounts hfits _
      unfold Covers
      rw [claims_eq_zero he hfits]
      exact Nat.cast_nonneg _
    · intro _
      exact Or.inl he
  have hsame := b.epoch_eq he
  rw [fair_iff_rate hs.product_pos he]
  constructor
  · intro hfair accounts hfits hc
    have hrate : 0 ≤ rate s t := by
      unfold rate
      positivity
    calc t.claims accounts ≤ rate s t * s.claims accounts := b.claims_le hs hsame hfits
      _ ≤ rate s t * s.deposits.val := mul_le_mul_of_nonneg_left hc hrate
      _ ≤ t.deposits.val := hfair
  · -- one depositor who has just deposited everything tells whether the offset is fair
    intro h
    have hbefore : s.Covers s.soleAccount := by
      rw [Covers, claims, soleAccount, Table.sum_singleton,
        StabilityPool.exactWorth_snapshot hs.product_pos]
    have hafter := h s.soleAccount (fun _ _ => soleAccount_fits hs) hbefore
    rwa [Covers, claims, soleAccount, Table.sum_singleton, b.exactWorth_snapshot hsame] at hafter

/-- What is left of the deposits by the factor, and what is left by the sum: they differ by what is
carried, as far as anything is left. -/
theorem Absorption.factor_mul (b : Absorption s debt coll t) :
    b.factor.val = 0 ∨ b.factor.val * s.deposits.val + t.lossCarry.val =
      Amount.unit.val * t.deposits.val + s.lossCarry.val := by
  have hfactor := b.factor_eq
  obtain ⟨-, hloss, -⟩ | ⟨-, hloss, -⟩ := lossPerToken_cases b.loss_eq
  · rw [hloss] at hfactor
    omega
  · have hsplit : b.factor.val * s.deposits.val + b.loss.val * s.deposits.val =
        Amount.unit.val * s.deposits.val := by rw [hfactor, Nat.add_mul]
    have hleft : Amount.unit.val * s.deposits.val =
        Amount.unit.val * t.deposits.val + debt.val * Amount.unit.val := by
      rw [b.deposits_eq, Nat.mul_add, Nat.mul_comm debt.val]
    omega

theorem mul_le_of_factor {product next factor deposits left step : ℕ}
    (hn : next = product * factor * step / Amount.unit.val)
    (hf : factor * deposits ≤ Amount.unit.val * left) :
    next * deposits ≤ product * left * step := by
  refine Nat.le_of_mul_le_mul_right ?_ Amount.unit_pos
  calc next * deposits * Amount.unit.val
      = next * Amount.unit.val * deposits := by ring
    _ ≤ product * factor * step * deposits :=
        Nat.mul_le_mul_right _ (hn ▸ Nat.div_mul_le_self _ _)
    _ = product * step * (factor * deposits) := by ring
    _ ≤ product * step * (Amount.unit.val * left) := Nat.mul_le_mul_left _ hf
    _ = product * left * step * Amount.unit.val := by ring

/-- An offset that carries as much as it takes over, or more, is fair. -/
theorem Absorption.fair_of_lossCarry_le (b : Absorption s debt coll t)
    (hc : s.lossCarry.val ≤ t.lossCarry.val) : Fair s t := by
  have hfactor : b.factor.val * s.deposits.val ≤ Amount.unit.val * t.deposits.val := by
    obtain h0 | h := b.factor_mul
    · rw [h0, Nat.zero_mul]
      exact Nat.zero_le _
    · omega
  obtain ⟨he, -⟩ | ⟨-, hsc, hp⟩ | ⟨-, hsc, hp⟩ := b.factors
  · left
    rw [UInt64.lt_iff_toNat_lt]
    omega
  · right
    rw [hsc, Nat.sub_self, pow_zero]
    exact mul_le_of_factor (by rw [hp, Nat.mul_one]) hfactor
  · right
    have hone : t.scale.toNat - s.scale.toNat = 1 := by omega
    rw [hone, pow_one]
    exact mul_le_of_factor hp hfactor

end Stablecoin.StabilityPool

/-! ## Runs -/

namespace Stablecoin

/-- A call that absorbs a liquidation. -/
def PoolCall.isOffset : PoolCall → Bool
  | .offset _ _ => true
  | _ => false

theorem PoolCall.owner?_of_isOffset {c : PoolCall} (h : c.isOffset = true) : c.owner? = none := by
  cases c with
  | deposit | withdraw => cases h
  | offset => rfl

namespace StabilityPool

variable {s t : StabilityPool}

/-- The offsets of a run are fair. -/
def FairRun : StabilityPool → List PoolCall → Prop
  | _, [] => True
  | s, c :: rest => (c.isOffset = true → Fair s (s.obey c)) ∧ FairRun (s.obey c) rest

instance decidableFairRun :
    ∀ (s : StabilityPool) (calls : List PoolCall), Decidable (FairRun s calls)
  | _, [] => inferInstanceAs (Decidable True)
  | s, c :: rest =>
    have := decidableFairRun (s.obey c) rest
    inferInstanceAs (Decidable ((c.isOffset = true → Fair s (s.obey c)) ∧ FairRun (s.obey c) rest))

/-- What is owed for a deposit; a worth that is no amount counts as nothing. -/
def owedFor (s : StabilityPool) (d : Deposit) : ℕ :=
  match s.worth d with
  | .ok a => a.val
  | .error _ => 0

/-- What is owed to all depositors. -/
def owed (s : StabilityPool) : ℕ := s.accounts.sum s.owedFor

theorem owedFor_le (s : StabilityPool) (d : Deposit) : (s.owedFor d : ℚ) ≤ s.exactWorth d := by
  unfold owedFor
  split
  · next a h => exact worth_le_exactWorth h
  · rw [Nat.cast_zero]
    exact exactWorth_nonneg s d

theorem owed_le_claims (s : StabilityPool) : (s.owed : ℚ) ≤ s.claims s.accounts := by
  unfold owed
  rw [← Table.cast_sum]
  apply Table.sum_le_sum
  intro _ d _
  exact owedFor_le s d

theorem compounded_le_claims {owner : Address} {c : Amount} (h : s.compounded owner = .ok c) :
    (c.val : ℚ) ≤ s.claims s.accounts :=
  (compounded_le_part h).trans (Table.part_le_sum _ (fun _ d _ => exactWorth_nonneg s d) owner)

/-- A call leaves the accounts covered, if it is fair where it absorbs a liquidation. -/
theorem covers_obey (hs : Valid s) {c : PoolCall} (hf : c.isOffset = true → Fair s (s.obey c))
    (hc : s.Covers s.accounts) : (s.obey c).Covers (s.obey c).accounts := by
  obtain h | ⟨owner, change, -, h⟩ | ⟨debt, coll, rfl, ⟨b⟩⟩ := s.obey_cases c
  · rw [h]
    exact hc
  · exact h.covers hs hc
  · rw [b.accounts_eq]
    exact (b.fair_iff hs).1 (hf rfl) s.accounts hs.fits hc

theorem covers_after (hs : Valid s) {calls : List PoolCall} (hf : FairRun s calls)
    (hc : s.Covers s.accounts) : (s.after calls).Covers (s.after calls).accounts := by
  induction calls generalizing s with
  | nil => exact hc
  | cons c rest ih => exact ih (valid_obey hs c) hf.2 (covers_obey hs hf.1 hc)

theorem covers_empty : empty.Covers empty.accounts := by
  unfold Covers claims
  exact le_of_eq (by rfl)

/-- **As long as offsets are fair, depositors are owed no more than the pool has,** and so none of
them can fail to withdraw for want of deposits.  And fairness is what it takes: after any calls, an
offset is fair if and only if it leaves covered whatever accounts were covered before. -/
theorem owed_le_deposits (calls : List PoolCall) :
    (FairRun empty calls → (empty.after calls).owed ≤ (empty.after calls).deposits.val ∧
      ∀ owner c amount, (empty.after calls).compounded owner = .ok c →
        ∃ rest, (empty.after calls).deposits.sub (min amount c) = .ok rest) ∧
    ∀ debt coll t, (empty.after calls).offset debt coll = .ok t →
      (Fair (empty.after calls) t ↔ ∀ accounts : Table Address Deposit,
        (∀ a d, accounts.get? a = some d → d.FitsIn (empty.after calls)) →
          (empty.after calls).Covers accounts → t.Covers accounts) := by
  have hvalid := valid_after valid_empty calls
  constructor
  · intro hf
    have hc := covers_after valid_empty hf covers_empty
    refine ⟨by exact_mod_cast (owed_le_claims _).trans hc, ?_⟩
    intro owner c amount h
    have hle : c.val ≤ (empty.after calls).deposits.val := by
      exact_mod_cast (compounded_le_claims h).trans hc
    have hmin : min amount c ≤ (empty.after calls).deposits := by
      rw [Amount.le_iff_val_le, Amount.val_min]
      exact (min_le_right _ _).trans hle
    obtain ⟨rest, hrest⟩ := Amount.exists_rest hmin
    exact ⟨rest, Amount.sub_eq_ok_iff.2 hrest⟩
  · intro debt coll t h
    obtain ⟨-, rfl⟩ | ⟨⟨b⟩⟩ := offset_cases h
    · constructor
      · intro _ _ _ hc
        exact hc
      · intro _
        right
        rw [Nat.sub_self, pow_zero, Nat.mul_one]
    · exact b.fair_iff hvalid

/-! ## Runs that are fair, and runs that are not -/

/-- A depositor. -/
def depositor : Address := ⟨1, by decide⟩

/-- A tenth of a deposit is lost at once. -/
def fairCalls : List PoolCall :=
  [.deposit depositor ⟨1_000_000_000_000_000_000_000_000, by decide⟩,
    .offset ⟨100_000_000_000_000_000_000_000, by decide⟩ ⟨50_000_000_000_000_000_000, by decide⟩]

theorem owed_le_deposits_fairCalls : FairRun empty fairCalls ∧
    (empty.after fairCalls).owed = 899_999_999_999_999_999_000_000 ∧
    (empty.after fairCalls).owed ≤ (empty.after fairCalls).deposits.val :=
  have hf : FairRun empty fairCalls := by decide +kernel
  ⟨hf, by decide +kernel, ((owed_le_deposits fairCalls).1 hf).1⟩

/-- A tenth of a deposit is lost, which is rounded up by the whole deposit; then three fifths of
the rest, from which more is taken than that was rounded up by. -/
def unfairCalls : List PoolCall :=
  [.deposit depositor ⟨1_000_000_000_000_000_000_000_000, by decide⟩,
    .offset ⟨100_000_000_000_000_000_000_000, by decide⟩ 0,
    .offset ⟨539_999_999_999_999_996_499_999, by decide⟩ 0]

/-- **Without fairness depositors can be owed more than the pool has:** a sole depositor cannot
withdraw what the deposit is worth. -/
theorem owed_gt_deposits : ¬ FairRun empty unfairCalls ∧
    (empty.after unfairCalls).deposits.val = 360_000_000_000_000_003_500_001 ∧
    (empty.after unfairCalls).owed = 360_000_000_000_000_004_000_000 ∧
    ((empty.after unfairCalls).withdraw depositor Amount.maximum).isOk = false := by
  decide +kernel

end StabilityPool

end Stablecoin
