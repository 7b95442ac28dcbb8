/-
  Stablecoin theory — fees and the limits set by callers.

  A fee is a share of an amount, rounded down.  Before it is taken it is turned back into
  a share, rounded down once more, and that share is compared with the limit of the
  caller.

  * `BaseRate.demandFeeWithin_eq_ok_iff`: the two roundings together let through what is
    less than one unit of the rate above the limit;
  * `BaseRate.quoteBorrowing_eq_ok_iff` and `BaseRate.redemptionQuote` are the steps
    of the two quotes;
  * `BaseRate.caps_exact`: no loan is refused whose rate is within the limit, and what is
    accepted exceeds it by less than one unit.
-/
import Stablecoin.Proofs.RateDecay
import Stablecoin.Proofs.StateChanges

namespace Stablecoin

/-- A fee is the share of an amount at the rate of its quote, rounded down, and less than one unit
of the rate above a limit. -/
structure FeeQuote.Within (quote : FeeQuote) (amount limit : Amount) : Prop where
  fee_eq : quote.fee.val = quote.rate.val * amount.val / Amount.unit.val
  fee_lt : quote.fee.val * Amount.unit.val < (limit.val + 1) * amount.val

namespace BaseRate

variable {p : Parameters} {b : BaseRate} {now : UInt64} {rate amount fee limit : Amount}
  {quote : FeeQuote}

/-! ## Limits -/

/-- **A fee is accepted up to one unit of the rate above the limit.** -/
theorem demandFeeWithin_eq_ok_iff (h0 : amount ≠ 0) : demandFeeWithin fee amount limit = .ok () ↔
    fee.val * Amount.unit.val < (limit.val + 1) * amount.val := by
  simp only [demandFeeWithin, if_neg h0, bind_eq_ok_iff, Amount.mulDiv_eq_ok_iff, demand_eq_ok_iff]
  rw [← Nat.div_lt_iff_lt_mul (Amount.ne_zero_iff.1 h0), Nat.lt_succ_iff]
  constructor
  · rintro ⟨share, ⟨-, hshare⟩, hle⟩
    exact hshare ▸ hle
  · intro hle
    obtain ⟨share, hshare, hle⟩ := Amount.exists_within hle
    exact ⟨share, ⟨h0, hshare⟩, hle⟩

/-- The fee at a rate is a share of at most that rate. -/
theorem fee_lt_of_rate_le (h0 : amount ≠ 0) (hle : rate ≤ limit)
    (hfee : fee.val = rate.val * amount.val / Amount.unit.val) :
    fee.val * Amount.unit.val < (limit.val + 1) * amount.val := by
  have hpos := Amount.ne_zero_iff.1 h0
  calc
    fee.val * Amount.unit.val ≤ rate.val * amount.val := hfee ▸ Nat.div_mul_le_self _ _
    _ ≤ limit.val * amount.val := Nat.mul_le_mul_right _ hle
    _ < (limit.val + 1) * amount.val := Nat.mul_lt_mul_of_pos_right (Nat.lt_succ_self _) hpos

/-! ## Quotes -/

theorem quoteBorrowing_eq_ok_iff : b.quoteBorrowing p now amount limit = .ok quote ↔
    ∃ decayed, b.decayed p now = .ok decayed ∧ quote.rate = borrowingRateAt p decayed ∧
      quote.fee.val = quote.rate.val * amount.val / Amount.unit.val ∧
      demandFeeWithin quote.fee amount limit = .ok () ∧ quote.next = b.advanced decayed now := by
  have hunit : Amount.unit ≠ 0 := by decide
  simp only [quoteBorrowing, bind_eq_ok_iff, pure_eq_ok_iff, Amount.mulDiv_eq_ok_iff]
  constructor
  · rintro ⟨decayed, hdecayed, fee, ⟨-, hfee⟩, _, hwithin, rfl⟩
    exact ⟨decayed, hdecayed, rfl, hfee, hwithin, rfl⟩
  · rintro ⟨decayed, hdecayed, hrate, hfee, hwithin, hnext⟩
    exact ⟨decayed, hdecayed, quote.fee, ⟨hunit, hrate ▸ hfee⟩, (), hwithin, by rw [← hrate, ← hnext]⟩

/-- What a redemption is quoted at: the base rate that it leaves is not zero, and less than all
that is drawn is kept. -/
structure RedemptionQuote (b : BaseRate) (p : Parameters) (now : UInt64) (drawn limit : Amount)
    (quote : FeeQuote) : Prop where
  rate_eq : quote.rate = redemptionRateAt p quote.next.rate
  fee_eq : quote.fee.val = quote.rate.val * drawn.val / Amount.unit.val
  fee_lt : quote.fee < drawn
  within : demandFeeWithin quote.fee drawn limit = .ok ()
  raised_pos : 0 < quote.next.rate
  raised_le : quote.next.rate ≤ Amount.unit
  next_eq : quote.next = b.advanced quote.next.rate now

theorem redemptionQuote {drawn price supply : Amount}
    (h : b.quoteRedemption p now drawn price supply limit = .ok quote) :
    RedemptionQuote b p now drawn limit quote := by
  simp only [quoteRedemption, bind_eq_ok_iff, pure_eq_ok_iff, Amount.mulDiv_eq_ok_iff] at h
  obtain ⟨_, -, _, -, _, -, sum, -, _, hpos, fee, ⟨-, hfee⟩, _, hlt, _, hwithin, rfl⟩ := h
  have hraised : (b.advanced (min sum Amount.unit) now).rate = min sum Amount.unit := by
    apply Amount.ext
    simp only [advanced, seeded, Amount.val_min, Nat.min_assoc, Nat.min_self]
  have hpos : 0 < (min sum Amount.unit).val := Amount.ne_zero_iff.1 (demand_eq_ok_iff.1 hpos)
  constructor
  case rate_eq => exact congrArg (redemptionRateAt p) hraised.symm
  case fee_eq => exact hfee
  case fee_lt => exact demand_eq_ok_iff.1 hlt
  case within => exact hwithin
  case raised_pos => exact hpos.trans_eq (congrArg Amount.val hraised.symm)
  case raised_le => exact seeded_le _ _
  case next_eq => exact (congrArg (b.advanced · now) hraised).symm

/-! ## Limits of quotes -/

theorem exists_borrowingRate (hp : p.validate = .ok ()) (b : BaseRate) (now : UInt64) :
    ∃ rate, b.borrowingRate p now = .ok rate ∧ rate ≤ Amount.unit := by
  obtain ⟨decayed, hdecayed, -⟩ := exists_decayed hp b now
  refine ⟨borrowingRateAt p decayed, bind_eq_ok_iff.2 ⟨decayed, hdecayed, rfl⟩, ?_⟩
  rw [Amount.le_iff_val_le, borrowingRateAt, Amount.val_min]
  exact (Nat.min_le_right _ _).trans (Parameters.consistent hp).borrowingCeiling_le

/-- **No loan is refused for its fee whose rate is within the limit.** -/
theorem exists_quoteBorrowing (h0 : amount ≠ 0) (hrate : b.borrowingRate p now = .ok rate)
    (hunit : rate ≤ Amount.unit) (hle : rate ≤ limit) :
    ∃ quote, b.quoteBorrowing p now amount limit = .ok quote := by
  obtain ⟨decayed, hdecayed, hrate⟩ := bind_eq_ok_iff.1 hrate
  have hbound : rate.val * amount.val / Amount.unit.val ≤ amount.val :=
    Nat.div_le_of_le_mul (Nat.mul_le_mul_right _ hunit)
  obtain ⟨fee, hfee, -⟩ := Amount.exists_within hbound
  exact ⟨⟨fee, rate, b.advanced decayed now⟩, quoteBorrowing_eq_ok_iff.2 ⟨decayed, hdecayed,
    (pure_eq_ok_iff.1 hrate).symm, hfee,
    (demandFeeWithin_eq_ok_iff h0).2 (fee_lt_of_rate_le h0 hle hfee), rfl⟩⟩

/-- **The limit of a caller is exact up to one unit of the rate.**  With validated parameters, for
every amount that is not zero: a loan whose rate is within the limit is quoted; whatever is quoted
has the fee at its rate, which is less than one unit above the limit; and a redemption that is
quoted leaves some of the collateral, and a base rate that is not zero and at most one hundred
percent. -/
theorem caps_exact (hp : p.validate = .ok ()) (b : BaseRate) (now : UInt64) (h0 : amount ≠ 0)
    (limit : Amount) :
    (∃ rate, b.borrowingRate p now = .ok rate ∧
      (rate ≤ limit → ∃ quote, b.quoteBorrowing p now amount limit = .ok quote)) ∧
    (∀ quote, b.quoteBorrowing p now amount limit = .ok quote →
      b.borrowingRate p now = .ok quote.rate ∧ quote.Within amount limit) ∧
    ∀ price supply quote, b.quoteRedemption p now amount price supply limit = .ok quote →
      quote.rate = redemptionRateAt p quote.next.rate ∧ quote.Within amount limit ∧
        quote.fee < amount ∧ 0 < quote.next.rate ∧ quote.next.rate ≤ Amount.unit := by
  refine ⟨?_, ?_, ?_⟩
  · obtain ⟨rate, hrate, hunit⟩ := exists_borrowingRate hp b now
    exact ⟨rate, hrate, exists_quoteBorrowing h0 hrate hunit⟩
  · intro quote h
    obtain ⟨decayed, hdecayed, hrate, hfee, hwithin, -⟩ := quoteBorrowing_eq_ok_iff.1 h
    refine ⟨bind_eq_ok_iff.2 ⟨decayed, hdecayed, pure_eq_ok_iff.2 hrate.symm⟩, hfee, ?_⟩
    exact (demandFeeWithin_eq_ok_iff h0).1 hwithin
  · intro price supply quote h
    have hq := redemptionQuote h
    exact ⟨hq.rate_eq, ⟨hq.fee_eq, (demandFeeWithin_eq_ok_iff h0).1 hq.within⟩, hq.fee_lt,
      hq.raised_pos, hq.raised_le⟩

/-- Five percent of a small amount are rounded down so far that they pass for less.  A redemption
of one percent of the debt is charged one percent. -/
theorem caps_exact_fivePercent :
    fivePercent.quoteBorrowing .standard 0 ⟨1010, by decide⟩ ⟨49_600_000_000_000_000, by decide⟩ =
      .ok ⟨⟨50, by decide⟩, fivePercent.rate, fivePercent⟩ ∧
    FeeQuote.Within ⟨⟨50, by decide⟩, fivePercent.rate, fivePercent⟩ ⟨1010, by decide⟩
      ⟨49_600_000_000_000_000, by decide⟩ ∧
    ∃ redemption, start.quoteRedemption .standard 0 (.whole 10) (.whole 100) (.whole 100_000)
        Amount.unit = .ok redemption ∧
      redemption.fee.val = 100_000_000_000_000_000 ∧ redemption.Within (.whole 10) Amount.unit ∧
      0 < redemption.next.rate := by
  have hp : Parameters.standard.validate = .ok () := by decide
  have hloan : fivePercent.quoteBorrowing .standard 0 ⟨1010, by decide⟩
      ⟨49_600_000_000_000_000, by decide⟩ =
        .ok ⟨⟨50, by decide⟩, fivePercent.rate, fivePercent⟩ := by decide +kernel
  have hredemption : start.quoteRedemption .standard 0 (.whole 10) (.whole 100) (.whole 100_000)
      Amount.unit = .ok ⟨⟨100_000_000_000_000_000, by decide⟩, ⟨10_000_000_000_000_000, by decide⟩,
        ⟨⟨5_000_000_000_000_000, by decide⟩, 0⟩⟩ := by decide +kernel
  have hsmall : (⟨1010, by decide⟩ : Amount) ≠ 0 := by decide
  obtain ⟨-, hloans, -⟩ :=
    caps_exact hp fivePercent 0 hsmall ⟨49_600_000_000_000_000, by decide⟩
  obtain ⟨-, -, hredemptions⟩ := caps_exact hp start 0 (by decide : Amount.whole 10 ≠ 0) Amount.unit
  obtain ⟨-, hwithin, -, hraised, -⟩ := hredemptions _ _ _ hredemption
  exact ⟨hloan, (hloans _ hloan).2, _, hredemption, rfl, hwithin, hraised⟩

end BaseRate

end Stablecoin
