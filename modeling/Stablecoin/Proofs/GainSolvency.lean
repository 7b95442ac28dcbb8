/-
  Stablecoin theory — whether gains of collateral are covered.

  The gain of a token is the collateral divided by the deposits, and it is paid on
  what deposits are worth.  So the pool can pay the gains as long as the worth of
  deposits is no more than their sum, whenever collateral comes in.

  * `StabilityPool.exactGain` is the gain of a deposit without rounding, and
    `StabilityPool.margin` what the pool holds beyond all gains and the remainder
    that is carried;
  * `Absorption.margin_eq` says by how much a liquidation moves the margin;
  * `StabilityPool.gains_le_coll`: as long as deposits are covered when collateral
    comes in, gains are; `gains_gt_coll` is a run in which they are not.
-/
import Stablecoin.Proofs.DepositSolvency

namespace Stablecoin.StabilityPool

variable {s t : StabilityPool} {owner : Address} {debt coll : Amount} {d : Deposit}
  {accounts : Table Address Deposit}

/-! ## Exact gains -/

/-- The sum of the scale after that of a snapshot. -/
def sumFollowing (s : StabilityPool) (snapshot : PoolSnapshot) : Amount :=
  match nextCount snapshot.scale with
  | .ok scale => s.sumAt snapshot.epoch scale
  | .error _ => 0

/-- The collateral that a deposit has gained, without rounding. -/
def exactGain (s : StabilityPool) (d : Deposit) : ℚ :=
  d.amount.val * ((s.sumAt d.snapshot.epoch d.snapshot.scale).val - d.snapshot.sum.val +
    (s.sumFollowing d.snapshot).val / scaleFactor.val) / d.snapshot.product.val / Amount.unit.val

/-- The exact gains of all deposits in accounts. -/
def gains (s : StabilityPool) (accounts : Table Address Deposit) : ℚ := accounts.sum s.exactGain

/-- What the pool holds beyond all gains and the remainder that is carried. -/
def margin (s : StabilityPool) : ℚ :=
  s.coll.val - s.gains s.accounts - s.collCarry.val / Amount.unit.val

theorem exactGain_nonneg (hd : d.FitsIn s) : 0 ≤ s.exactGain d := by
  have hsum : (d.snapshot.sum.val : ℚ) ≤ (s.sumAt d.snapshot.epoch d.snapshot.scale).val := by
    exact_mod_cast hd.sum_le
  have hdiff := sub_nonneg.2 hsum
  unfold exactGain
  positivity

/-- Nothing follows the present scale yet. -/
theorem sumFollowing_eq_zero (hs : Valid s) {snapshot : PoolSnapshot}
    (he : snapshot.epoch = s.epoch) (hscale : snapshot.scale = s.scale) :
    s.sumFollowing snapshot = 0 := by
  unfold sumFollowing
  split
  · next scale h =>
    rw [nextCount_eq_ok_iff, hscale] at h
    exact hs.sumAt_eq_zero _ _ (Or.inr ⟨he, by omega⟩)
  · rfl

/-- A deposit that was just written has gained nothing. -/
theorem exactGain_snapshot (hs : Valid s) (amount : Amount) :
    s.exactGain ⟨amount, s.snapshot⟩ = 0 := by
  have hnext : s.sumFollowing s.snapshot = 0 := sumFollowing_eq_zero hs rfl rfl
  simp only [exactGain, hnext, Amount.val_zero]
  simp [snapshot]

/-- The gain of a token since a snapshot, weighted by the product. -/
def sumSince (s : StabilityPool) (snapshot : PoolSnapshot) : ℕ :=
  (s.sumAt snapshot.epoch snapshot.scale).val - snapshot.sum.val +
    (s.sumFollowing snapshot).val / scaleFactor.val

/-- What a gain comes to, and when it is an amount. -/
theorem gainOf_eq_ok_iff {a : Amount} : s.gainOf d = .ok a ↔
    (d.snapshot.sum ≤ s.sumAt d.snapshot.epoch d.snapshot.scale ∧ d.snapshot.product ≠ 0 ∧
      ∃ next, nextCount d.snapshot.scale = .ok next) ∧
    s.sumSince d.snapshot < Amount.limit ∧
    d.amount.val * s.sumSince d.snapshot / d.snapshot.product.val < Amount.limit ∧
    a.val = d.amount.val * s.sumSince d.snapshot / d.snapshot.product.val / Amount.unit.val := by
  simp only [gainOf, bind_eq_ok_iff, pure_eq_ok_iff, Amount.sub_eq_ok_iff, Amount.add_eq_ok_iff,
    Amount.mulDiv_eq_ok_iff]
  constructor
  · rintro ⟨here, hhere, next, hnext, both, hboth, raw, ⟨h0, hraw⟩, rfl⟩
    have hsince : s.sumSince d.snapshot = both.val := by
      rw [sumSince, sumFollowing, hnext, hboth, hhere, Nat.add_sub_cancel]
      rfl
    rw [hsince, ← hraw]
    refine ⟨⟨?_, h0, next, hnext⟩, both.val_lt, raw.val_lt, rfl⟩
    rw [Amount.le_iff_val_le, hhere]
    exact Nat.le_add_left _ _
  · rintro ⟨⟨hle, h0, next, hnext⟩, hboth, hraw, ha⟩
    obtain ⟨here, hhere⟩ := Amount.exists_rest hle
    obtain ⟨both, hboth⟩ := Amount.exists_val_eq hboth
    obtain ⟨raw, hraw⟩ := Amount.exists_val_eq hraw
    have hsince : s.sumSince d.snapshot =
        here.val + ((s.sumAt d.snapshot.epoch next).quot scaleFactor.val).val := by
      rw [sumSince, sumFollowing, hnext, hhere, Nat.add_sub_cancel]
      rfl
    refine ⟨here, hhere, next, hnext, both, hboth.trans hsince, raw, ⟨h0, ?_⟩, ?_⟩
    · rw [hraw, hboth]
    · apply Amount.ext
      rw [ha, ← hraw]
      rfl

/-- Rounding only lowers a gain. -/
theorem gainOf_le_exactGain {a : Amount} (h : s.gainOf d = .ok a) :
    (a.val : ℚ) ≤ s.exactGain d := by
  obtain ⟨⟨hle, -⟩, -, -, ha⟩ := gainOf_eq_ok_iff.1 h
  have hsince : (s.sumSince d.snapshot : ℚ) ≤
      (s.sumAt d.snapshot.epoch d.snapshot.scale).val - d.snapshot.sum.val +
        (s.sumFollowing d.snapshot).val / scaleFactor.val := by
    rw [sumSince, Nat.cast_add, Nat.cast_sub (Amount.le_iff_val_le.1 hle)]
    gcongr
    exact Nat.cast_div_le
  rw [ha]
  calc ((d.amount.val * s.sumSince d.snapshot / d.snapshot.product.val / Amount.unit.val : ℕ) : ℚ)
      ≤ (d.amount.val * s.sumSince d.snapshot / d.snapshot.product.val : ℕ) / Amount.unit.val :=
        Nat.cast_div_le
    _ ≤ d.amount.val * s.sumSince d.snapshot / d.snapshot.product.val / Amount.unit.val := by
        rw [← Nat.cast_mul]
        gcongr
        exact Nat.cast_div_le
    _ ≤ s.exactGain d := by
        unfold exactGain
        gcongr

theorem gain_le_part {a : Amount} (h : s.gain owner = .ok a) :
    (a.val : ℚ) ≤ s.accounts.part s.exactGain owner := by
  unfold gain account at h
  unfold Table.part
  split at h
  · next hn =>
    cases h
    rw [hn]
    exact le_rfl
  · next d hd =>
    rw [hd]
    exact gainOf_le_exactGain h

/-! ## Deposits and withdrawals -/

/-- The gain that is paid is no more than what falls off the gains. -/
theorem Rewriting.margin_le {change : DepositChange} (h : Rewriting s owner change t)
    (hs : Valid s) : s.margin ≤ t.margin := by
  obtain ⟨-, -, -, hsums, hcarry, ha⟩ := h.factors
  have hgain : t.exactGain = s.exactGain := by
    funext d
    simp only [exactGain, sumFollowing, sumAt, hsums]
  have hsum := sum_accountsWith s.exactGain s owner change.deposit (exactGain_snapshot hs 0)
  rw [exactGain_snapshot hs] at hsum
  have hpart := gain_le_part h.gain_eq
  have hcoll : (s.coll.val : ℚ) = t.coll.val + change.gain.val := by exact_mod_cast h.coll_eq
  unfold margin gains
  rw [hgain, hcarry, ha]
  linarith

/-! ## Liquidations -/

theorem Absorption.sumFollowing_eq (b : Absorption s debt coll t) (snapshot : PoolSnapshot) :
    t.sumFollowing snapshot =
      if snapshot.epoch = s.epoch ∧ s.scale.toNat = snapshot.scale.toNat + 1 then b.sum
      else s.sumFollowing snapshot := by
  unfold sumFollowing
  rcases hn : nextCount snapshot.scale with stop | scale
  · rw [if_neg]
    rintro ⟨-, h⟩
    rw [nextCount_eq_ok_iff.2 h] at hn
    cases hn
  · have hscale : scale = s.scale ↔ s.scale.toNat = snapshot.scale.toNat + 1 := by
      rw [← nextCount_eq_ok_iff, hn, Except.ok.injEq]
    simp only [b.sumAt_eq, hscale]

/-- A liquidation pays on what a deposit is worth. -/
theorem Absorption.exactGain_eq (b : Absorption s debt coll t) (hd : d.FitsIn s) :
    t.exactGain d = s.exactGain d + b.gain.val / Amount.unit.val * s.exactWorth d := by
  have hsum : (b.sum.val : ℚ) = (s.sumAt s.epoch s.scale).val + b.gain.val * s.product.val := by
    exact_mod_cast b.sum_eq
  unfold exactGain exactWorth
  rw [b.sumAt_eq, b.sumFollowing_eq]
  by_cases he : d.snapshot.epoch = s.epoch
  · have hscale := hd.scale_le he
    rw [if_neg (he ▸ UInt64.lt_irrefl _ : ¬ d.snapshot.epoch < s.epoch)]
    -- the sum that grew is the one of the deposit, or the following one, or neither
    rcases hn : s.scale.toNat - d.snapshot.scale.toNat with - | - | n
    · have hsame : d.snapshot.scale = s.scale := UInt64.toNat_inj.1 (by omega)
      rw [if_pos ⟨he, hsame⟩, if_neg (fun h => by omega), hsum, he, hsame, scaleShare]
      ring
    · have hne : d.snapshot.scale ≠ s.scale := by
        intro h
        rw [h] at hn
        omega
      have hold : s.sumFollowing d.snapshot = s.sumAt s.epoch s.scale := by
        rw [sumFollowing, nextCount_eq_ok_iff.2 (by omega : s.scale.toNat = _ + 1), he]
      rw [if_neg (fun h => hne h.2), if_pos ⟨he, by omega⟩, hsum, hold, scaleShare]
      ring
    · have hne : d.snapshot.scale ≠ s.scale := by
        intro h
        rw [h] at hn
        omega
      have hzero : scaleShare (n + 1 + 1) = 0 := rfl
      rw [if_neg (fun h => hne h.2), if_neg (fun h => by omega), hzero]
      ring
  · have hlt : d.snapshot.epoch < s.epoch := by
      rw [UInt64.lt_iff_toNat_lt]
      apply lt_of_le_of_ne hd.epoch_le
      intro h
      exact he (UInt64.toNat_inj.1 h)
    rw [if_neg (fun h => he h.1), if_neg (fun h => he h.1), if_pos hlt, mul_zero, add_zero]

/-- **By how much a liquidation moves the margin:** by what the gain of a token is on the deposits
that nobody can claim. -/
theorem Absorption.margin_eq (b : Absorption s debt coll t) (hs : Valid s) :
    t.margin = s.margin +
      b.gain.val / Amount.unit.val * (s.deposits.val - s.claims s.accounts) := by
  have hunit : (Amount.unit.val : ℚ) ≠ 0 := by exact_mod_cast Amount.unit_pos.ne'
  have hgains : t.gains s.accounts =
      s.gains s.accounts + b.gain.val / Amount.unit.val * s.claims s.accounts := by
    unfold gains claims
    rw [← Table.mul_sum, ← Table.sum_add]
    apply Table.sum_congr
    intro a d hd
    exact b.exactGain_eq (hs.fits a d hd)
  have hcoll : (t.coll.val : ℚ) = s.coll.val + coll.val := by exact_mod_cast b.coll_eq
  have hgain : (coll.val : ℚ) * Amount.unit.val + s.collCarry.val =
      b.gain.val * s.deposits.val + t.collCarry.val := by exact_mod_cast b.gain_eq
  have hin : (coll.val : ℚ) = (b.gain.val * s.deposits.val + t.collCarry.val - s.collCarry.val) /
      Amount.unit.val := by
    rw [eq_div_iff hunit]
    linarith
  unfold margin
  rw [b.accounts_eq, hgains, hcoll, hin]
  ring

/-! ## Runs -/

/-- Collateral comes in. -/
def Pays (s t : StabilityPool) : Prop := s.sumAt s.epoch s.scale < t.sumAt s.epoch s.scale

theorem Absorption.pays_iff (b : Absorption s debt coll t) (hs : Valid s) :
    Pays s t ↔ 0 < b.gain.val := by
  have hsum := b.sum_eq
  rw [Pays, Amount.lt_iff_val_lt, b.sumAt_eq, if_pos ⟨rfl, rfl⟩, hsum, lt_add_iff_pos_right,
    Nat.mul_pos_iff_of_pos_right hs.product_pos]

/-- Deposits are covered whenever collateral comes in. -/
def CoveredRun : StabilityPool → List PoolCall → Prop
  | _, [] => True
  | s, c :: rest => (Pays s (s.obey c) → s.Covers s.accounts) ∧ CoveredRun (s.obey c) rest

/-- Fair offsets keep deposits covered. -/
theorem coveredRun_of_fairRun (hs : Valid s) (hc : s.Covers s.accounts) {calls : List PoolCall}
    (hf : FairRun s calls) : CoveredRun s calls := by
  induction calls generalizing s with
  | nil => trivial
  | cons c rest ih =>
    constructor
    · intro _
      exact hc
    · exact ih (valid_obey hs c) (covers_obey hs hf.1 hc) hf.2

/-- Collateral comes in with liquidations only. -/
theorem exists_absorption {c : PoolCall} (h : Pays s (s.obey c)) :
    ∃ debt coll, Nonempty (Absorption s debt coll (s.obey c)) := by
  obtain hn | ⟨owner, change, -, hn⟩ | ⟨debt, coll, -, hn⟩ := s.obey_cases c
  · rw [hn] at h
    exact absurd h (lt_irrefl (s.sumAt s.epoch s.scale).val)
  · obtain ⟨-, -, -, hsums, -⟩ := hn.factors
    rw [Pays, sumAt, sumAt, hsums] at h
    exact absurd h (lt_irrefl (s.sumAt s.epoch s.scale).val)
  · exact ⟨debt, coll, hn⟩

/-- Collateral that comes in lowers the margin unless deposits are covered. -/
theorem margin_le_iff (hs : Valid s) {c : PoolCall} (h : Pays s (s.obey c)) :
    s.margin ≤ (s.obey c).margin ↔ s.Covers s.accounts := by
  obtain ⟨debt, coll, ⟨b⟩⟩ := exists_absorption h
  have hgain : (0 : ℚ) < b.gain.val / Amount.unit.val :=
    div_pos (by exact_mod_cast (b.pays_iff hs).1 h) (by exact_mod_cast Amount.unit_pos)
  rw [b.margin_eq hs, le_add_iff_nonneg_right, mul_nonneg_iff_of_pos_left hgain, sub_nonneg]
  rfl

theorem margin_obey (hs : Valid s) {c : PoolCall} (hc : Pays s (s.obey c) → s.Covers s.accounts) :
    s.margin ≤ (s.obey c).margin := by
  by_cases hpays : Pays s (s.obey c)
  · exact (margin_le_iff hs hpays).2 (hc hpays)
  obtain h | ⟨owner, change, -, h⟩ | ⟨debt, coll, -, ⟨b⟩⟩ := s.obey_cases c
  · rw [h]
  · exact h.margin_le hs
  · have hzero : b.gain.val = 0 := by
      apply Nat.eq_zero_of_not_pos
      intro h
      exact hpays ((b.pays_iff hs).2 h)
    rw [b.margin_eq hs, hzero, Nat.cast_zero, zero_div, zero_mul, add_zero]

theorem margin_after (hs : Valid s) {calls : List PoolCall} (hc : CoveredRun s calls) :
    s.margin ≤ (s.after calls).margin := by
  induction calls generalizing s with
  | nil => exact le_rfl
  | cons c rest ih => exact (margin_obey hs hc.1).trans (ih (valid_obey hs c) hc.2)

theorem margin_empty : empty.margin = 0 := by
  simp [margin, gains, empty]

/-- The gain of a deposit; one that is no amount counts as nothing. -/
def gainFor (s : StabilityPool) (d : Deposit) : ℕ :=
  match s.gainOf d with
  | .ok a => a.val
  | .error _ => 0

/-- The gains of all depositors. -/
def gained (s : StabilityPool) : ℕ := s.accounts.sum s.gainFor

theorem gained_le_gains (hs : Valid s) : (s.gained : ℚ) ≤ s.gains s.accounts := by
  unfold gained
  rw [← Table.cast_sum]
  apply Table.sum_le_sum
  intro a d hd
  unfold gainFor
  split
  · next g h => exact gainOf_le_exactGain h
  · rw [Nat.cast_zero]
    exact exactGain_nonneg (hs.fits a d hd)

theorem gain_le_gains (hs : Valid s) {g : Amount} (h : s.gain owner = .ok g) :
    (g.val : ℚ) ≤ s.gains s.accounts :=
  (gain_le_part h).trans
    (Table.part_le_sum _ (fun a d hd => exactGain_nonneg (hs.fits a d hd)) owner)

/-- Without a margin below zero the pool holds all gains. -/
theorem gains_le_of_margin (h : 0 ≤ s.margin) : s.gains s.accounts ≤ s.coll.val := by
  have hcarry : (0 : ℚ) ≤ s.collCarry.val / Amount.unit.val := by positivity
  unfold margin at h
  linarith

/-- **As long as deposits are covered whenever collateral comes in, the pool holds all gains,** and
so none of them can fail to be paid.  And cover is what it takes: after any calls, collateral that
comes in leaves the margin of the pool undiminished if and only if deposits are covered. -/
theorem gains_le_coll (calls : List PoolCall) :
    (CoveredRun empty calls → (empty.after calls).gained ≤ (empty.after calls).coll.val ∧
      ∀ owner g, (empty.after calls).gain owner = .ok g →
        ∃ rest, (empty.after calls).coll.sub g = .ok rest) ∧
    ∀ c, Pays (empty.after calls) ((empty.after calls).obey c) →
      ((empty.after calls).margin ≤ ((empty.after calls).obey c).margin ↔
        (empty.after calls).Covers (empty.after calls).accounts) := by
  have hvalid := valid_after valid_empty calls
  constructor
  · intro hc
    have hgains := gains_le_of_margin (margin_empty ▸ margin_after valid_empty hc)
    refine ⟨by exact_mod_cast (gained_le_gains hvalid).trans hgains, ?_⟩
    intro owner g h
    have hle : g ≤ (empty.after calls).coll := by
      rw [Amount.le_iff_val_le]
      exact_mod_cast (gain_le_gains hvalid h).trans hgains
    obtain ⟨rest, hrest⟩ := Amount.exists_rest hle
    exact ⟨rest, Amount.sub_eq_ok_iff.2 hrest⟩
  · intro c h
    exact margin_le_iff hvalid h

theorem gains_le_coll_fairCalls : CoveredRun empty fairCalls ∧
    (empty.after fairCalls).gained = 50_000_000_000_000_000_000 ∧
    (empty.after fairCalls).gained ≤ (empty.after fairCalls).coll.val :=
  have hf : FairRun empty fairCalls := by decide +kernel
  have hc := coveredRun_of_fairRun valid_empty covers_empty hf
  ⟨hc, by decide +kernel, ((gains_le_coll fairCalls).1 hc).1⟩

/-- After offsets that were not fair, collateral comes in for the last token. -/
def uncoveredCalls : List PoolCall :=
  unfairCalls ++ [.offset 1 ⟨360_000_000_000_000_003_500_001, by decide⟩]

/-- **Without cover gains can be more than the pool holds:** a sole depositor cannot be paid. -/
theorem gains_gt_coll : (empty.after uncoveredCalls).coll.val = 360_000_000_000_000_003_500_001 ∧
    (empty.after uncoveredCalls).gained = 360_000_000_000_000_004_000_000 ∧
    ((empty.after uncoveredCalls).withdraw depositor 0).isOk = false := by
  decide +kernel

end Stablecoin.StabilityPool
