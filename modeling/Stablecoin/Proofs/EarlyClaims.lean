/-
  Stablecoin theory — claiming a gain early.

  To withdraw nothing is to be paid a gain: the deposit is written anew at what it is
  worth, rounded down, and goes on from there.  Within one scale of one epoch this pays
  no more than waiting does.

  * `Deposit.KeptIn`: as long as a deposit is of the present scale, the product has not
    risen since, nor fallen below a billionth of what it was, so that the cut-off does
    not apply (`Deposit.KeptIn.worth_eq_ok_iff`);
  * `StabilityPool.accept_withHoldings`: offsets read neither the collateral nor the
    accounts, so that the same offsets follow on a claim as on waiting;
  * `StabilityPool.quot_le_quot` compares what the rewritten deposit makes of the rest of
    a run with what the old one makes of it, and `StabilityPool.claimed_early_le` the
    two runs.
-/
import Stablecoin.Proofs.DepositCourse

namespace Stablecoin

/-- A deposit was written in the present scale of the present epoch. -/
def Deposit.IsCurrent (s : StabilityPool) (d : Deposit) : Prop :=
  d.snapshot.epoch = s.epoch ∧ d.snapshot.scale = s.scale

instance (s : StabilityPool) (d : Deposit) : Decidable (d.IsCurrent s) :=
  inferInstanceAs (Decidable (_ ∧ _))

/-- How far the product has come from where a deposit was written. -/
structure Deposit.KeptIn (s : StabilityPool) (d : Deposit) : Prop where
  product_le : d.snapshot.product ≤ Amount.unit
  within : d.IsCurrent s → s.product ≤ d.snapshot.product ∧
    d.snapshot.product.val ≤ s.product.val * StabilityPool.scaleFactor.val

namespace StabilityPool

variable {s t u v w : StabilityPool} {owner : Address} {debt coll : Amount} {d : Deposit}
  {calls : List PoolCall}

/-! ## The present scale -/

/-- The product that an offset leaves in the same scale is at least the least one, and a unit is no
more than its square. -/
theorem Absorption.keptIn (b : Absorption s debt coll t) (hfits : d.FitsIn s) (hd : d.KeptIn s) :
    d.KeptIn t := by
  refine ⟨hd.product_le, ?_⟩
  rintro ⟨he, hscale⟩
  have hepoch := hfits.epoch_le
  obtain ⟨-, -, hnext, -⟩ | ⟨-, hleast, he', hscale', hproduct⟩ | ⟨-, -, he', hnext, -⟩ :=
    shrunk_cases b.shrunk_eq
  · rw [nextCount_eq_ok_iff, ← he] at hnext
    omega
  · constructor
    · have hbefore := (hd.within ⟨he.trans he', hscale.trans hscale'⟩).1
      rw [Amount.le_iff_val_le] at hbefore ⊢
      refine le_trans ?_ hbefore
      rw [hproduct, Nat.mul_comm]
      exact Nat.div_le_of_le_mul (Nat.mul_le_mul_right _ (Amount.le_iff_val_le.1 b.factor_le))
    · have hpos : scaleFactor.val ≤ t.product.val := by
        rw [hproduct, Nat.le_div_iff_mul_le Amount.unit_pos]
        exact hleast
      calc d.snapshot.product.val ≤ scaleFactor.val * scaleFactor.val :=
            Amount.le_iff_val_le.1 hd.product_le
        _ ≤ t.product.val * scaleFactor.val := Nat.mul_le_mul_right _ hpos
  · have hold := hfits.scale_le (he.trans he')
    rw [nextCount_eq_ok_iff, ← hscale] at hnext
    omega

theorem Rewriting.keptIn {change : DepositChange} (h : Rewriting s owner change t)
    (hd : d.KeptIn s) : d.KeptIn t := by
  obtain ⟨hproduct, he, hscale, -⟩ := h.factors
  refine ⟨hd.product_le, ?_⟩
  rw [hproduct, Deposit.IsCurrent, he, hscale]
  exact hd.within

theorem keptIn_obey (hfits : d.FitsIn s) (hd : d.KeptIn s) (c : PoolCall) :
    d.KeptIn (s.obey c) := by
  obtain h | ⟨owner, change, -, h⟩ | ⟨debt, coll, -, ⟨b⟩⟩ := s.obey_cases c
  · rw [h]
    exact hd
  · exact h.keptIn hd
  · exact b.keptIn hfits hd

theorem keptIn_after (hs : Valid s) (hfits : d.FitsIn s) (hd : d.KeptIn s)
    (calls : List PoolCall) : d.KeptIn (s.after calls) := by
  induction calls generalizing s with
  | nil => exact hd
  | cons c rest ih =>
    exact ih (valid_obey hs c) ((advances_obey hs c).fits d hfits) (keptIn_obey hfits hd c)

/-- A deposit that is written now is kept. -/
theorem keptIn_snapshot (hp : s.product ≤ Amount.unit) (amount : Amount) :
    Deposit.KeptIn s ⟨amount, s.snapshot⟩ :=
  ⟨hp, fun _ => ⟨le_refl s.product.val, Nat.le_mul_of_pos_right _ (by decide)⟩⟩

/-- The deposits of a pool are kept. -/
structure Kept (s : StabilityPool) : Prop where
  product_le : s.product ≤ Amount.unit
  keptIn : ∀ owner d, s.account owner = some d → d.KeptIn s

theorem kept_empty : Kept empty := ⟨Nat.le_refl _, nofun⟩

theorem Rewriting.kept {change : DepositChange} (h : Rewriting s owner change t) (hk : Kept s) :
    Kept t := by
  refine ⟨h.factors.1 ▸ hk.product_le, ?_⟩
  intro a d hd
  rw [account, h.factors.2.2.2.2.2] at hd
  obtain hd | rfl := account_accountsWith s owner change.deposit hd
  · exact h.keptIn (hk.keptIn a d hd)
  · exact h.keptIn (keptIn_snapshot hk.product_le change.deposit)

theorem Absorption.kept (b : Absorption s debt coll t) (hs : Valid s) (hk : Kept s) : Kept t := by
  refine ⟨shrunk_le hk.product_le b.factor_le b.shrunk_eq, ?_⟩
  intro a d hd
  rw [account, b.accounts_eq] at hd
  exact b.keptIn (hs.fits a d hd) (hk.keptIn a d hd)

theorem kept_obey (hs : Valid s) (hk : Kept s) (c : PoolCall) : Kept (s.obey c) := by
  obtain h | ⟨owner, change, -, h⟩ | ⟨debt, coll, -, ⟨b⟩⟩ := s.obey_cases c
  · rw [h]
    exact hk
  · exact h.kept hk
  · exact b.kept hs hk

theorem kept_after (hs : Valid s) (hk : Kept s) (calls : List PoolCall) : Kept (s.after calls) := by
  induction calls generalizing s with
  | nil => exact hk
  | cons c rest ih => exact ih (valid_obey hs c) (kept_obey hs hk c)

end StabilityPool

/-- **In the scale in which it was written, nothing of a deposit is cut off.** -/
theorem Deposit.KeptIn.worth_eq_ok_iff {s : StabilityPool} {d : Deposit} (hd : d.KeptIn s)
    (hpos : 0 < d.snapshot.product.val) (hcurrent : d.IsCurrent s) {a : Amount} :
    s.worth d = .ok a ↔ a.val = d.amount.val * s.product.val / d.snapshot.product.val := by
  obtain ⟨he, hscale⟩ := hcurrent
  have hcut : d.amount.val / 1_000_000_000 ≤
      d.amount.val * s.product.val / d.snapshot.product.val := by
    rw [Nat.le_div_iff_mul_le hpos]
    calc d.amount.val / 1_000_000_000 * d.snapshot.product.val
        ≤ d.amount.val / 1_000_000_000 * (s.product.val * 1_000_000_000) :=
          Nat.mul_le_mul_left _ (hd.within ⟨he, hscale⟩).2
      _ = d.amount.val / 1_000_000_000 * 1_000_000_000 * s.product.val := by ring
      _ ≤ d.amount.val * s.product.val := Nat.mul_le_mul_right _ (Nat.div_mul_le_self _ _)
  have hshrinkage : s.shrinkage d = d.amount.mulDiv s.product d.snapshot.product := by
    rw [StabilityPool.shrinkage, hscale, Nat.sub_self]
    rfl
  have hlate : ¬ d.snapshot.epoch < s.epoch := he ▸ UInt64.lt_irrefl _
  simp only [StabilityPool.worth, if_neg hlate, hshrinkage, bind_eq_ok_iff, pure_eq_ok_iff,
    Amount.mulDiv_eq_ok_iff]
  constructor
  · rintro ⟨left, ⟨-, hleft⟩, rfl⟩
    rw [if_neg, hleft]
    exact Nat.not_lt.2 (hcut.trans_eq hleft.symm)
  · intro ha
    refine ⟨a, ⟨Amount.ne_zero_iff.2 hpos, ha⟩, if_neg ?_⟩
    exact Nat.not_lt.2 (hcut.trans_eq ha.symm)

theorem Deposit.KeptIn.exists_worth {s : StabilityPool} {d : Deposit} (hd : d.KeptIn s)
    (hpos : 0 < d.snapshot.product.val) (hcurrent : d.IsCurrent s) : ∃ a, s.worth d = .ok a ∧
      a.val = d.amount.val * s.product.val / d.snapshot.product.val := by
  have hle : d.amount.val * s.product.val / d.snapshot.product.val ≤ d.amount.val := by
    apply Nat.div_le_of_le_mul
    rw [Nat.mul_comm]
    exact Nat.mul_le_mul_right _ (hd.within hcurrent).1
  obtain ⟨a, ha, -⟩ := Amount.exists_within hle
  exact ⟨a, (hd.worth_eq_ok_iff hpos hcurrent).2 ha, ha⟩

namespace StabilityPool

variable {s t u v w : StabilityPool} {owner : Address} {debt coll : Amount} {d : Deposit}
  {calls : List PoolCall}

/-! ## The same offsets -/

/-- The pool with other collateral and other accounts. -/
def withHoldings (s : StabilityPool) (coll : Amount) (accounts : Table Address Deposit) :
    StabilityPool :=
  { s with coll := coll, accounts := accounts }

/-- **An offset reads neither the collateral nor the accounts.**  With less collateral there is no
overflow that there was not before. -/
theorem offset_withHoldings (h : s.offset debt coll = .ok t) {held : Amount} (hle : held ≤ s.coll)
    (accounts : Table Address Deposit) : ∃ rest, rest ≤ t.coll ∧
      (s.withHoldings held accounts).offset debt coll = .ok (t.withHoldings rest accounts) := by
  unfold offset at h ⊢
  split at h
  · next h0 =>
    cases h
    exact ⟨held, hle, if_pos h0⟩
  next h0 =>
  simp only [bind_eq_ok_iff, pure_eq_ok_iff, Prod.exists] at h
  obtain ⟨_, hdemand, scaled, hscaled, numerator, hnumerator, gain, hgain, taken, htaken, collCarry,
    hcollCarry, loss, carry, hloss, weighted, hweighted, sum, hsum, factor, hfactor, product, epoch,
    scale, hshrunk, _, hproduct, deposits, hdeposits, total, htotal, offsets, hoffsets, rfl⟩ := h
  rw [Amount.add_eq_ok_iff] at htotal
  obtain ⟨rest, hrest, hless⟩ := Amount.exists_within (a := total)
    (htotal ▸ Nat.add_le_add_right (Amount.le_iff_val_le.1 hle) coll.val)
  refine ⟨rest, hless, (if_neg h0).trans ?_⟩
  simp only [bind_eq_ok_iff, pure_eq_ok_iff, Prod.exists]
  exact ⟨(), hdemand, scaled, hscaled, numerator, hnumerator, gain, hgain, taken, htaken, collCarry,
    hcollCarry, loss, carry, hloss, weighted, hweighted, sum, hsum, factor, hfactor, product, epoch,
    scale, hshrunk, (), hproduct, deposits, hdeposits, rest, Amount.add_eq_ok_iff.2 hrest, offsets,
    hoffsets, rfl⟩

theorem accept_withHoldings (hcalls : ∀ c ∈ calls, c.isOffset = true) (h : s.accept calls = .ok t)
    {held : Amount} (hle : held ≤ s.coll) (accounts : Table Address Deposit) :
    ∃ rest, (s.withHoldings held accounts).accept calls = .ok (t.withHoldings rest accounts) := by
  induction calls generalizing s held with
  | nil =>
    rw [accept_nil_eq_ok_iff] at h
    exact ⟨held, accept_nil_eq_ok_iff.2 (h ▸ rfl)⟩
  | cons c rest ih =>
    obtain ⟨hc, hrest⟩ := List.forall_mem_cons.1 hcalls
    obtain ⟨next, hnext, hlater⟩ := accept_cons_eq_ok_iff.1 h
    cases c with
    | deposit | withdraw => cases hc
    | offset debt coll =>
      obtain ⟨kept, hkept, hoffset⟩ := offset_withHoldings hnext hle accounts
      obtain ⟨last, hlast⟩ := ih hrest hlater hkept
      exact ⟨last, accept_cons_eq_ok_iff.2 ⟨_, hoffset, hlast⟩⟩

/-- A claim takes collateral and writes one account. -/
theorem withdraw_zero {change : DepositChange} (h : u.withdraw owner 0 = .ok (change, w)) :
    change.deposit = change.compounded ∧ w.coll ≤ u.coll ∧
      w = u.withHoldings w.coll (u.accountsWith owner change.deposit) := by
  obtain ⟨hw, hwithdrawn, hdeposits⟩ := withdraw_ok h
  have hnothing : change.withdrawn.val = 0 := by
    rw [hwithdrawn, Amount.val_min]
    exact Nat.zero_min _
  have hsame : w.deposits = u.deposits := Amount.ext (by omega)
  have hmoves := hw.deposits_eq
  refine ⟨Amount.ext (by omega), ?_, ?_⟩
  · rw [Amount.le_iff_val_le, hw.coll_eq]
    exact Nat.le_add_right _ _
  · have hpool := hw.pool_eq
    rwa [hsame] at hpool

/-! ## Roundings -/

/-- What a rewritten deposit makes of an amount is no more than what the old one makes of it. -/
theorem quot_le_quot {amount product amount' product' n : ℕ} (hpos : 0 < product)
    (hpos' : 0 < product') (h : amount' * product ≤ amount * product') :
    amount' * n / product' ≤ amount * n / product := by
  rw [Nat.le_div_iff_mul_le hpos]
  refine Nat.le_of_mul_le_mul_right ?_ hpos'
  calc amount' * n / product' * product * product'
      = amount' * n / product' * product' * product := by ring
    _ ≤ amount' * n * product := Nat.mul_le_mul_right _ (Nat.div_mul_le_self _ _)
    _ = amount' * product * n := by ring
    _ ≤ amount * product' * n := Nat.mul_le_mul_right _ h
    _ = amount * n * product' := by ring

/-- And where the rewritten deposit is what is left of the old one, and less is left in the end, it
is no more than one short. -/
theorem quot_le_quot_succ {amount product product' n : ℕ} (hpos : 0 < product)
    (hpos' : 0 < product') (hn : n ≤ product') :
    amount * n / product ≤ amount * product' / product * n / product' + 1 := by
  have hless : amount * product' ≤ (amount * product' / product + 1) * product := by
    rw [Nat.add_mul, Nat.one_mul]
    exact (Nat.lt_div_mul_add hpos).le
  calc amount * n / product
      ≤ (amount * product' / product + 1) * n / product' := quot_le_quot hpos' hpos hless
    _ ≤ (amount * product' / product * n + product') / product' := by
        rw [Nat.add_mul, Nat.one_mul]
        gcongr
    _ = amount * product' / product * n / product' + 1 := Nat.add_div_right _ hpos'

/-- To round twice and add is no more than to add and round once. -/
theorem add_quot_le {amount product amount' product' m n : ℕ} (hpos : 0 < product)
    (hpos' : 0 < product') (h : amount' * product ≤ amount * product') :
    amount * m / product / Amount.unit.val + amount' * n / product' / Amount.unit.val ≤
      amount * (m + n) / product / Amount.unit.val := by
  calc amount * m / product / Amount.unit.val + amount' * n / product' / Amount.unit.val
      ≤ (amount * m / product + amount' * n / product') / Amount.unit.val :=
        Nat.div_add_div_le_add_div
    _ ≤ (amount * m / product + amount * n / product) / Amount.unit.val := by
        exact Nat.div_le_div_right (Nat.add_le_add_left (quot_le_quot hpos hpos' h) _)
    _ ≤ amount * (m + n) / product / Amount.unit.val := by
        rw [Nat.mul_add]
        gcongr
        exact Nat.div_add_div_le_add_div

/-! ## The two runs -/

theorem sumSince_of_isCurrent (hs : Valid s) (hcurrent : d.IsCurrent s) :
    s.sumSince d.snapshot = (s.sumAt s.epoch s.scale).val - d.snapshot.sum.val := by
  obtain ⟨he, hscale⟩ := hcurrent
  rw [sumSince, sumFollowing_eq_zero hs he hscale, he, hscale]
  exact Nat.add_zero _

/-- Epochs and scales do not go back, so that what is current in the end was current throughout. -/
theorem Advances.isCurrent (h : Advances u v) (hu : Valid u) (hd : d.FitsIn u)
    (hcurrent : d.IsCurrent v) : u.epoch = v.epoch ∧ u.scale = v.scale := by
  obtain ⟨he, hscale⟩ := hcurrent
  have hafter := h.fits _ (hu.fits_snapshot 0)
  have hepoch : u.epoch = v.epoch :=
    UInt64.toNat_inj.1 (le_antisymm hafter.epoch_le (he ▸ hd.epoch_le))
  exact ⟨hepoch, UInt64.toNat_inj.1 (le_antisymm (hafter.scale_le hepoch)
    (hscale ▸ hd.scale_le (he.trans hepoch.symm)))⟩

theorem account_withHoldings (s u : StabilityPool) (owner : Address) (rest amount : Amount) :
    (s.withHoldings rest (u.accountsWith owner amount)).account owner =
      if amount = 0 then none else some ⟨amount, u.snapshot⟩ := by
  show (u.accountsWith owner amount).get? owner = _
  rw [get?_accountsWith, if_pos rfl]

/-- A claim on a deposit, and the pool that offsets lead to in the same scale. -/
structure Claim (u : StabilityPool) (d : Deposit) (change : DepositChange) (v : StabilityPool) :
    Prop where
  valid : Valid u
  fits : d.FitsIn u
  current : d.IsCurrent u
  advances : Advances u v
  valid_after : Valid v
  kept : d.KeptIn v
  current_after : d.IsCurrent v
  /-- The deposit that the claim leaves is kept as well. -/
  left_kept : Deposit.KeptIn v ⟨change.deposit, u.snapshot⟩
  left_current : Deposit.IsCurrent v ⟨change.deposit, u.snapshot⟩
  left_eq : change.deposit.val = d.amount.val * u.product.val / d.snapshot.product.val
  gain_eq : u.gainOf d = .ok change.gain

theorem claim_of_withdraw {change : DepositChange} (hu : Valid u) (hk : Kept u)
    (hd : u.account owner = some d) (hw : u.withdraw owner 0 = .ok (change, w))
    (hcurrent : d.IsCurrent (u.after calls)) : Claim u d change (u.after calls) := by
  have hadvances := advances_after hu calls
  have hfits := hu.fits owner d hd
  obtain ⟨he, hscale⟩ := hadvances.isCurrent hu hfits hcurrent
  have hbefore : d.IsCurrent u := ⟨hcurrent.1.trans he.symm, hcurrent.2.trans hscale.symm⟩
  obtain ⟨hrewriting, -⟩ := withdraw_ok hw
  have hworth : u.worth d = .ok change.deposit := by
    have hcompounded := hrewriting.compounded_eq
    rwa [compounded_of_account hd, ← (withdraw_zero hw).1] at hcompounded
  have hgain := hrewriting.gain_eq
  rw [gain_of_account hd] at hgain
  exact ⟨hu, hfits, hbefore, hadvances, valid_after hu calls,
    keptIn_after hu hfits (hk.keptIn owner d hd) calls, hcurrent,
    keptIn_after hu (hu.fits_snapshot _) (keptIn_snapshot hk.product_le _) calls, ⟨he, hscale⟩,
    ((hk.keptIn owner d hd).worth_eq_ok_iff hfits.product_pos hbefore).1 hworth, hgain⟩

namespace Claim

variable {change : DepositChange} {rest : Amount} (h : Claim u d change v)
include h

/-- The deposit that the claim leaves has no more of the product than the old one. -/
theorem left_mul_le :
    change.deposit.val * d.snapshot.product.val ≤ d.amount.val * u.product.val :=
  h.left_eq ▸ Nat.div_mul_le_self _ _

/-- The claim cuts the time in which the sum grows into two. -/
theorem sumSince_eq : v.sumSince d.snapshot = u.sumSince d.snapshot + v.sumSince u.snapshot := by
  have hgrown := h.advances.sumAt_le u.epoch u.scale
  have hbegun := h.fits.sum_le
  rw [h.current.1, h.current.2] at hbegun
  obtain ⟨he, hscale⟩ : u.epoch = v.epoch ∧ u.scale = v.scale := h.left_current
  rw [sumSince_of_isCurrent h.valid_after h.current_after,
    sumSince_of_isCurrent h.valid h.current,
    sumSince_of_isCurrent h.valid_after h.left_current, ← he, ← hscale]
  show _ = _ + (_ - (u.sumAt u.epoch u.scale).val)
  omega

/-- What the claim leaves is worth no more in the end than the old deposit, and no more than one
unit less. -/
theorem exists_compounded : ∃ early late,
    (v.withHoldings rest (u.accountsWith owner change.deposit)).compounded owner = .ok early ∧
      v.worth d = .ok late ∧ early ≤ late ∧ late.val ≤ early.val + 1 := by
  obtain ⟨early, hearly, hvalue⟩ : ∃ early,
      (v.withHoldings rest (u.accountsWith owner change.deposit)).compounded owner = .ok early ∧
        early.val = change.deposit.val * v.product.val / u.product.val := by
    rw [compounded, account_withHoldings]
    by_cases h0 : change.deposit = 0
    · rw [if_pos h0, h0, Amount.val_zero, Nat.zero_mul, Nat.zero_div]
      exact ⟨0, rfl, rfl⟩
    · rw [if_neg h0]
      exact h.left_kept.exists_worth h.valid.product_pos h.left_current
  obtain ⟨late, hlate, hvalue'⟩ := h.kept.exists_worth h.fits.product_pos h.current_after
  refine ⟨early, late, hearly, hlate, ?_, ?_⟩
  · rw [Amount.le_iff_val_le, hvalue, hvalue']
    exact quot_le_quot h.fits.product_pos h.valid.product_pos h.left_mul_le
  · rw [hvalue, hvalue', h.left_eq]
    exact quot_le_quot_succ h.fits.product_pos h.valid.product_pos
      (h.left_kept.within h.left_current).1

/-- What the claim leaves gains an amount, if the old deposit does. -/
theorem exists_gainOf {late : Amount} (hlate : v.gainOf d = .ok late) :
    ∃ early, v.gainOf ⟨change.deposit, u.snapshot⟩ = .ok early := by
  obtain ⟨⟨-, -, hnext⟩, hsince, hraw, -⟩ := gainOf_eq_ok_iff.1 hlate
  have hless : v.sumSince u.snapshot ≤ v.sumSince d.snapshot :=
    h.sumSince_eq ▸ Nat.le_add_left _ _
  have hbound : change.deposit.val * v.sumSince u.snapshot / u.product.val < Amount.limit :=
    calc change.deposit.val * v.sumSince u.snapshot / u.product.val
        ≤ d.amount.val * v.sumSince u.snapshot / d.snapshot.product.val :=
          quot_le_quot h.fits.product_pos h.valid.product_pos h.left_mul_le
      _ ≤ d.amount.val * v.sumSince d.snapshot / d.snapshot.product.val := by gcongr
      _ < Amount.limit := hraw
  obtain ⟨early, hearly⟩ := Amount.exists_val_eq (lt_of_le_of_lt (Nat.div_le_self _ _) hbound)
  rw [h.current.2] at hnext
  exact ⟨early, gainOf_eq_ok_iff.2 ⟨⟨(h.advances.fits _ (h.valid.fits_snapshot _)).sum_le,
    Amount.ne_zero_iff.2 h.valid.product_pos, hnext⟩, lt_of_le_of_lt hless hsince, hbound, hearly⟩⟩

/-- What the claim pays and what is gained afterwards come to no more than the gain of the old
deposit. -/
theorem exists_gain {late : Amount} (hlate : v.gainOf d = .ok late) : ∃ early,
    (v.withHoldings rest (u.accountsWith owner change.deposit)).gain owner = .ok early ∧
      change.gain.val + early.val ≤ late.val := by
  have hsum := add_quot_le (m := u.sumSince d.snapshot) (n := v.sumSince u.snapshot)
    h.fits.product_pos h.valid.product_pos h.left_mul_le
  rw [← h.sumSince_eq, ← (gainOf_eq_ok_iff.1 hlate).2.2.2,
    ← (gainOf_eq_ok_iff.1 h.gain_eq).2.2.2] at hsum
  rw [gain, account_withHoldings]
  by_cases h0 : change.deposit = 0
  · rw [if_pos h0]
    exact ⟨0, rfl, (Nat.le_add_right _ _).trans hsum⟩
  · obtain ⟨early, hearly⟩ := h.exists_gainOf hlate
    rw [if_neg h0]
    refine ⟨early, hearly, ?_⟩
    rwa [(gainOf_eq_ok_iff.1 hearly).2.2.2]

end Claim

/-- Offsets write no account. -/
theorem account_accept (hcalls : ∀ c ∈ calls, c.isOffset = true) (h : s.accept calls = .ok t) :
    t.account owner = s.account owner := by
  rw [← after_of_accept h]
  apply account_after
  intro c hc
  rw [PoolCall.owner?_of_isOffset (hcalls c hc)]
  nofun

/-- **Claiming early never pays more.**  Compare offsets `xs`, a claim and offsets `ys` with the
same offsets without the claim, in a run that stays in the scale in which the deposit was written.
The offsets are accepted after the claim as well, and then the gain that was paid and the one at the
end come to no more than the gain at the end without the claim, and the deposit is worth no more,
though no less than one unit short of it. -/
theorem claimed_early_le (calls : List PoolCall) {xs ys : List PoolCall} {change : DepositChange}
    (hd : (empty.after calls).account owner = some d)
    (hxs : ∀ c ∈ xs, c.isOffset = true) (hys : ∀ c ∈ ys, c.isOffset = true)
    (hu : (empty.after calls).accept xs = .ok u) (hv : u.accept ys = .ok v)
    (hcurrent : d.IsCurrent v) (hw : u.withdraw owner 0 = .ok (change, w)) :
    ∃ z, w.accept ys = .ok z ∧
      (∃ early late, z.compounded owner = .ok early ∧ v.compounded owner = .ok late ∧
        early ≤ late ∧ late.val ≤ early.val + 1) ∧
      ∀ late, v.gain owner = .ok late → ∃ early, z.gain owner = .ok early ∧
        change.gain.val + early.val ≤ late.val := by
  have hvalid := valid_after valid_empty calls
  have hkept := kept_after valid_empty kept_empty calls
  have haccount : u.account owner = some d := (account_accept hxs hu).trans hd
  have haccount' : v.account owner = some d := (account_accept hys hv).trans haccount
  obtain ⟨-, hcoll, hpool⟩ := withdraw_zero hw
  obtain ⟨rest, hz⟩ := accept_withHoldings hys hv hcoll (u.accountsWith owner change.deposit)
  rw [← hpool] at hz
  obtain rfl := after_of_accept hu
  obtain rfl := after_of_accept hv
  have hclaim := claim_of_withdraw (valid_after hvalid xs) (kept_after hvalid hkept xs) haccount hw
    hcurrent
  refine ⟨_, hz, ?_, ?_⟩
  · rw [compounded_of_account haccount']
    exact hclaim.exists_compounded
  · rw [gain_of_account haccount']
    intro late hlate
    exact hclaim.exists_gain hlate

/-- Two depositors with next to nothing. -/
def smallCalls : List PoolCall :=
  [.deposit depositor ⟨7, by decide⟩, .deposit laterDepositor ⟨5, by decide⟩]

/-- A third of what they have is lost. -/
def smallLoss : PoolCall := .offset ⟨4, by decide⟩ (.whole 1)

/-- Then three eighths of the rest. -/
def nextLoss : PoolCall := .offset ⟨3, by decide⟩ (.whole 1)

/-- What the first depositor can claim in between. -/
def smallClaim : DepositChange :=
  ⟨⟨4, by decide⟩, ⟨4, by decide⟩, 0, ⟨583_333_333_333_333_333, by decide⟩, ⟨3, by decide⟩⟩

/-- A claim in between costs the first depositor a twelfth of a unit of collateral. -/
theorem claimed_early_le_smallCalls : ∃ u v w z early late,
    (empty.after smallCalls).accept [smallLoss] = .ok u ∧ u.accept [nextLoss] = .ok v ∧
    u.withdraw depositor 0 = .ok (smallClaim, w) ∧ w.accept [nextLoss] = .ok z ∧
    z.gain depositor = .ok early ∧ v.gain depositor = .ok late ∧
    late.val = 1_166_666_666_666_666_666 ∧ smallClaim.gain.val + early.val ≤ late.val := by
  obtain ⟨hd, hu, hv, hcurrent, hw, hlate⟩ :
      (empty.after smallCalls).account depositor =
        some ⟨⟨7, by decide⟩, ⟨Amount.unit, 0, 0, 0⟩⟩ ∧
      (empty.after smallCalls).accept [smallLoss] =
        .ok (empty.after (smallCalls ++ [smallLoss])) ∧
      (empty.after (smallCalls ++ [smallLoss])).accept [nextLoss] =
        .ok (empty.after (smallCalls ++ [smallLoss, nextLoss])) ∧
      Deposit.IsCurrent (empty.after (smallCalls ++ [smallLoss, nextLoss]))
        ⟨⟨7, by decide⟩, ⟨Amount.unit, 0, 0, 0⟩⟩ ∧
      (empty.after (smallCalls ++ [smallLoss])).withdraw depositor 0 =
        .ok (smallClaim, empty.after (smallCalls ++ [smallLoss, .withdraw depositor 0])) ∧
      (empty.after (smallCalls ++ [smallLoss, nextLoss])).gain depositor =
        .ok ⟨1_166_666_666_666_666_666, by decide⟩ := by decide +kernel
  obtain ⟨z, hz, -, hgain⟩ :=
    claimed_early_le smallCalls hd (by decide) (by decide) hu hv hcurrent hw
  obtain ⟨early, hearly, hle⟩ := hgain _ hlate
  exact ⟨_, _, _, z, early, _, hu, hv, hw, hz, hearly, hlate, rfl, hle⟩

end StabilityPool

end Stablecoin
