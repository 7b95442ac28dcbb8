/-
  Stablecoin theory — the course of a deposit that is left alone.

  Liquidations take from deposits and add to gains, whatever becomes of the scale and
  the epoch, and depositors do nothing to each other.

  * `StabilityPool.Advances`: no deposit has risen in exact worth and no sum has
    fallen.  Every call advances the pool, and so do calls (`advances_after`);
  * what a deposit is worth and has gained follows from these by roundings and a
    cut-off that are monotone (`Advances.worth_le`, `Advances.gainOf_le`);
  * `StabilityPool.course_after` is the course of a deposit while its owner makes no
    call, and `StabilityPool.offset_oneWay` what one offset does to every deposit.
-/
import Stablecoin.Proofs.GainSolvency

namespace Stablecoin.StabilityPool

variable {s t u : StabilityPool} {owner : Address} {debt coll before after : Amount} {d : Deposit}
  {c : PoolCall}

/-! ## What a liquidation takes -/

/-- A liquidation takes something from every token. -/
theorem Absorption.factor_lt (b : Absorption s debt coll t) : b.factor.val < Amount.unit.val := by
  have hfactor := b.factor_eq
  have hunit := Amount.unit_pos
  obtain ⟨-, hloss, -⟩ | ⟨hne, hloss, hcarry, -⟩ := lossPerToken_cases b.loss_eq
  · rw [hloss] at hfactor
    omega
  · -- a loss of nothing would mean that more was carried on than there is to cancel
    have hbound := (lossPerToken_bounds b.loss_eq hne).2
    rcases Nat.eq_zero_or_pos b.loss.val with h0 | hpos
    · rw [h0, Nat.zero_mul] at hloss
      omega
    · omega

theorem Absorption.product_lt (b : Absorption s debt coll t) (hp : 0 < s.product.val)
    (he : t.epoch = s.epoch) :
    t.product.val < s.product.val * scaleFactor.val ^ (t.scale.toNat - s.scale.toNat) := by
  have hless : s.product.val * b.factor.val < s.product.val * Amount.unit.val :=
    Nat.mul_lt_mul_of_pos_left b.factor_lt hp
  obtain ⟨hn, -⟩ | ⟨-, hscale, hproduct⟩ | ⟨-, hscale, hproduct⟩ := b.factors
  · rw [he] at hn
    omega
  · rw [hscale, Nat.sub_self, pow_zero, mul_one, hproduct, Nat.div_lt_iff_lt_mul Amount.unit_pos]
    exact hless
  · have hone : t.scale.toNat - s.scale.toNat = 1 := by omega
    rw [hone, pow_one, hproduct, Nat.div_lt_iff_lt_mul Amount.unit_pos, Nat.mul_right_comm _ _
      Amount.unit.val]
    exact Nat.mul_lt_mul_of_pos_right hless (by decide)

theorem Absorption.rate_lt_one (b : Absorption s debt coll t) (hp : 0 < s.product.val)
    (he : t.epoch = s.epoch) : rate s t < 1 := by
  have hpos : 0 < s.product.val * scaleFactor.val ^ (t.scale.toNat - s.scale.toNat) :=
    Nat.mul_pos hp (Nat.pow_pos (by decide))
  rw [rate, div_div, div_lt_one (by exact_mod_cast hpos)]
  exact_mod_cast b.product_lt hp he

/-- **A liquidation takes something from every deposit of which there is something left.** -/
theorem Absorption.exactWorth_lt (b : Absorption s debt coll t) (hs : Valid s) (hd : d.FitsIn s)
    (h0 : 0 < s.exactWorth d) : t.exactWorth d < s.exactWorth d := by
  by_cases he : s.epoch < t.epoch
  · rw [exactWorth_eq_zero he hd]
    exact h0
  have hsame := b.epoch_eq he
  calc t.exactWorth d ≤ rate s t * s.exactWorth d := b.exactWorth_le hs hd hsame
    _ < 1 * s.exactWorth d := mul_lt_mul_of_pos_right (b.rate_lt_one hs.product_pos hsame) h0
    _ = s.exactWorth d := one_mul _

/-! ## Advancing -/

/-- No deposit has risen in exact worth, and no sum has fallen. -/
structure Advances (s t : StabilityPool) : Prop where
  fits : ∀ d : Deposit, d.FitsIn s → d.FitsIn t
  exactWorth_le : ∀ d : Deposit, d.FitsIn s → t.exactWorth d ≤ s.exactWorth d
  sumAt_le : ∀ epoch scale, (s.sumAt epoch scale).val ≤ (t.sumAt epoch scale).val

theorem Advances.refl (s : StabilityPool) : Advances s s :=
  ⟨fun _ hd => hd, fun _ _ => le_rfl, fun _ _ => le_rfl⟩

theorem Advances.trans (h : Advances s t) (h' : Advances t u) : Advances s u where
  fits := fun d hd => h'.fits d (h.fits d hd)
  exactWorth_le := fun d hd => (h'.exactWorth_le d (h.fits d hd)).trans (h.exactWorth_le d hd)
  sumAt_le := fun epoch scale => (h.sumAt_le epoch scale).trans (h'.sumAt_le epoch scale)

theorem Rewriting.advances {change : DepositChange} (h : Rewriting s owner change t) :
    Advances s t where
  fits := fun _ hd => h.fits hd
  exactWorth_le := fun d _ => (congrFun h.exactWorth_eq d).le
  sumAt_le := fun epoch scale => (congrArg Amount.val (h.sumAt_eq epoch scale)).ge

theorem Absorption.advances (b : Absorption s debt coll t) (hs : Valid s) : Advances s t where
  fits := fun _ hd => b.fits hd
  exactWorth_le := by
    intro d hd
    by_cases he : s.epoch < t.epoch
    · rw [exactWorth_eq_zero he hd]
      exact exactWorth_nonneg s d
    have hsame := b.epoch_eq he
    calc t.exactWorth d ≤ rate s t * s.exactWorth d := b.exactWorth_le hs hd hsame
      _ ≤ 1 * s.exactWorth d := mul_le_mul_of_nonneg_right (b.rate_lt_one hs.product_pos hsame).le
          (exactWorth_nonneg s d)
      _ = s.exactWorth d := one_mul _
  sumAt_le := b.sumAt_le

theorem advances_obey (hs : Valid s) (c : PoolCall) : Advances s (s.obey c) := by
  obtain h | ⟨owner, change, -, h⟩ | ⟨debt, coll, -, ⟨b⟩⟩ := s.obey_cases c
  · rw [h]
    exact .refl s
  · exact h.advances
  · exact b.advances hs

theorem advances_after (hs : Valid s) (calls : List PoolCall) : Advances s (s.after calls) := by
  induction calls generalizing s with
  | nil => exact .refl s
  | cons c rest ih => exact (advances_obey hs c).trans (ih (valid_obey hs c))

/-! ## Values of a deposit -/

theorem compounded_of_account (h : s.account owner = some d) : s.compounded owner = s.worth d := by
  rw [compounded, h]

theorem gain_of_account (h : s.account owner = some d) : s.gain owner = s.gainOf d := by
  rw [gain, h]

theorem Advances.worth_le (h : Advances s t) (hd : d.FitsIn s) (hbefore : s.worth d = .ok before)
    (hafter : t.worth d = .ok after) : after ≤ before := by
  rw [Amount.le_iff_val_le, worth_eq hbefore, worth_eq hafter]
  exact cutOff_mono _ (Nat.floor_mono (h.exactWorth_le d hd))

theorem Advances.sumSince_le (h : Advances s t) (snapshot : PoolSnapshot) :
    s.sumSince snapshot ≤ t.sumSince snapshot := by
  have hfollowing : (s.sumFollowing snapshot).val ≤ (t.sumFollowing snapshot).val := by
    unfold sumFollowing
    split
    · exact h.sumAt_le _ _
    · exact Nat.le_refl _
  unfold sumSince
  gcongr
  exact h.sumAt_le _ _

theorem Advances.gainOf_le (h : Advances s t) (hbefore : s.gainOf d = .ok before)
    (hafter : t.gainOf d = .ok after) : before ≤ after := by
  rw [Amount.le_iff_val_le, (gainOf_eq_ok_iff.1 hbefore).2.2.2, (gainOf_eq_ok_iff.1 hafter).2.2.2]
  gcongr
  exact h.sumSince_le d.snapshot

theorem Advances.compounded_le (h : Advances s t) (hs : Valid s)
    (ho : t.account owner = s.account owner) (hbefore : s.compounded owner = .ok before)
    (hafter : t.compounded owner = .ok after) : after ≤ before := by
  rcases hd : s.account owner with - | d
  · rw [compounded, ho.trans hd] at hafter
    cases hafter
    exact Nat.zero_le _
  · rw [compounded_of_account hd] at hbefore
    rw [compounded_of_account (ho.trans hd)] at hafter
    exact h.worth_le (hs.fits owner d hd) hbefore hafter

theorem Advances.gain_le (h : Advances s t) (ho : t.account owner = s.account owner)
    (hbefore : s.gain owner = .ok before) (hafter : t.gain owner = .ok after) :
    before ≤ after := by
  rcases hd : s.account owner with - | d
  · rw [gain, hd] at hbefore
    cases hbefore
    exact Nat.zero_le _
  · rw [gain_of_account hd] at hbefore
    rw [gain_of_account (ho.trans hd)] at hafter
    exact h.gainOf_le hbefore hafter

/-! ## Runs -/

/-- A call leaves the deposits of others as they were written. -/
theorem account_obey (ho : c.owner? ≠ some owner) : (s.obey c).account owner = s.account owner := by
  obtain h | ⟨writer, change, hc, h⟩ | ⟨debt, coll, -, ⟨b⟩⟩ := s.obey_cases c
  · rw [h]
  · apply h.account_eq
    rintro rfl
    exact ho hc
  · rw [account, b.accounts_eq, account]

theorem account_after {calls : List PoolCall} (ho : ∀ c ∈ calls, c.owner? ≠ some owner) :
    (s.after calls).account owner = s.account owner := by
  induction calls generalizing s with
  | nil => rfl
  | cons c rest ih =>
    obtain ⟨hc, hrest⟩ := List.forall_mem_cons.1 ho
    exact (ih hrest).trans (account_obey hc)

/-- **A deposit that is left alone only loses worth and gains collateral,** whatever others do
meanwhile. -/
theorem course_after (hs : Valid s) {calls : List PoolCall}
    (ho : ∀ c ∈ calls, c.owner? ≠ some owner) :
    (∀ before after, s.compounded owner = .ok before →
      (s.after calls).compounded owner = .ok after → after ≤ before) ∧
    ∀ before after, s.gain owner = .ok before →
      (s.after calls).gain owner = .ok after → before ≤ after := by
  have h := advances_after hs calls
  have hkept := account_after (s := s) ho
  exact ⟨fun _ _ => h.compounded_le hs hkept, fun _ _ => h.gain_le hkept⟩

/-- **An offset moves every depositor one way:** what a deposit is worth does not rise and its gain
does not fall, and of whatever is left of a deposit something is taken. -/
theorem offset_oneWay (calls : List PoolCall)
    (h : (empty.after calls).offset debt coll = .ok t) (owner : Address) :
    (∀ before after, (empty.after calls).compounded owner = .ok before →
      t.compounded owner = .ok after → after ≤ before) ∧
    (∀ before after, (empty.after calls).gain owner = .ok before →
      t.gain owner = .ok after → before ≤ after) ∧
    ∀ d, (empty.after calls).account owner = some d → debt ≠ 0 →
      (empty.after calls).deposits ≠ 0 → 0 < (empty.after calls).exactWorth d →
        t.exactWorth d < (empty.after calls).exactWorth d := by
  have hs := valid_after valid_empty calls
  have hobey : (empty.after calls).after [.offset debt coll] = t := by
    show (empty.after calls).orSame ((empty.after calls).offset debt coll) = t
    rw [h]
    rfl
  obtain ⟨hworth, hgain⟩ := course_after hs
    (List.forall_mem_singleton.2 nofun : ∀ c ∈ [PoolCall.offset debt coll], c.owner? ≠ some owner)
  rw [hobey] at hworth hgain
  refine ⟨hworth, hgain, ?_⟩
  intro d hd h0 hdeposits hleft
  obtain ⟨hidle, -⟩ | ⟨⟨b⟩⟩ := offset_cases h
  · exact absurd hidle (not_or.2 ⟨hdeposits, h0⟩)
  · exact b.exactWorth_lt hs (hs.fits owner d hd) hleft

/-- Another depositor. -/
def laterDepositor : Address := ⟨9, by decide⟩

/-- A pool of which a hundred millionth is left takes in a new deposit. -/
def thinCalls : List PoolCall :=
  [.deposit depositor (.whole 1_000_000),
    .offset ⟨999_999_990_000_000_000_000_000, by decide⟩ (.whole 1_000),
    .deposit laterDepositor (.whole 1_000)]

/-- When all but a hundredth is lost the scale changes. -/
theorem offset_oneWay_thinCalls : ∃ t left gained,
    (empty.after thinCalls).offset (.whole 990) (.whole 10) = .ok t ∧ t.scale = 1 ∧
    t.compounded laterDepositor = .ok left ∧ left.val = 10_009_899_901_001_988_990 ∧
    left ≤ .whole 1_000 ∧
    t.gain laterDepositor = .ok gained ∧ gained.val = 9_999_900_000_999_990_000 ∧ 0 ≤ gained := by
  have hoffset : (empty.after thinCalls).offset (.whole 990) (.whole 10) =
      .ok ((empty.after thinCalls).obey (.offset (.whole 990) (.whole 10))) := by decide +kernel
  obtain ⟨hworth, hgain, -⟩ := offset_oneWay thinCalls hoffset laterDepositor
  have hbefore : (empty.after thinCalls).compounded laterDepositor = .ok (.whole 1_000) ∧
      (empty.after thinCalls).gain laterDepositor = .ok 0 := by decide +kernel
  obtain ⟨hscale, hleft, hgained⟩ :
      ((empty.after thinCalls).obey (.offset (.whole 990) (.whole 10))).scale = 1 ∧
      ((empty.after thinCalls).obey (.offset (.whole 990) (.whole 10))).compounded laterDepositor =
        .ok ⟨10_009_899_901_001_988_990, by decide⟩ ∧
      ((empty.after thinCalls).obey (.offset (.whole 990) (.whole 10))).gain laterDepositor =
        .ok ⟨9_999_900_000_999_990_000, by decide⟩ := by decide +kernel
  exact ⟨_, _, _, hoffset, hscale, hleft, rfl, hworth _ _ hbefore.1 hleft, hgained, rfl,
    hgain _ _ hbefore.2 hgained⟩

end Stablecoin.StabilityPool
