/-
  Stablecoin theory — the decay of the base rate.

  The base rate is multiplied by a power of the factor of a minute, whose exponent is
  the count of whole minutes.

  * `BaseRate.exists_decayed`: with parameters that were validated there is a rate at
    every time, and it is no more than the rate that was set;
  * `BaseRate.decayed_antitone`: with time it only falls, and a minute takes something
    from every rate that is not zero.
-/
import Stablecoin.Proofs.Consistency
import Stablecoin.Proofs.Powers
import Stablecoin.BaseRate

namespace Stablecoin

namespace BaseRate

variable {p : Parameters} {b : BaseRate} {now early late : UInt64} {rate : Amount}

theorem decayed_eq_ok_iff : b.decayed p now = .ok rate ↔
    ∃ factor, p.minuteDecay.decPow (b.minutesPassed now) = .ok factor ∧
      rate.val = b.rate.val * factor.val / Amount.unit.val := by
  have hunit : Amount.unit ≠ 0 := by decide
  simp only [decayed, bind_eq_ok_iff, Amount.mulDiv_eq_ok_iff, hunit, ne_eq, not_false_eq_true,
    true_and]

theorem minutesPassed_mono (b : BaseRate) (h : early ≤ late) :
    b.minutesPassed early ≤ b.minutesPassed late :=
  Nat.div_le_div_right (Nat.sub_le_sub_right h _)

/-- There is a rate at every time. -/
theorem exists_decayed (hp : p.validate = .ok ()) (b : BaseRate) (now : UInt64) :
    ∃ rate, b.decayed p now = .ok rate ∧ rate ≤ b.rate := by
  have hlt := (Parameters.consistent hp).minuteDecay_lt
  obtain ⟨factor, hfactor, hle⟩ :=
    Amount.exists_decPow (b.minutesPassed now) (Nat.le_of_lt hlt)
  have hshare : b.rate.val * factor.val / Amount.unit.val ≤ b.rate.val :=
    Nat.div_le_of_le_mul ((Nat.mul_le_mul_left _ hle).trans_eq (Nat.mul_comm _ _))
  obtain ⟨rate, hrate, hrate_le⟩ := Amount.exists_within hshare
  exact ⟨rate, decayed_eq_ok_iff.2 ⟨factor, hfactor, hrate⟩, hrate_le⟩

/-- Later rates are no higher. -/
theorem decayed_le (hp : p.validate = .ok ()) (h : early ≤ late) {before after : Amount}
    (hbefore : b.decayed p early = .ok before) (hafter : b.decayed p late = .ok after) :
    after ≤ before := by
  obtain ⟨high, hhigh, hbefore⟩ := decayed_eq_ok_iff.1 hbefore
  obtain ⟨low, hlow, hafter⟩ := decayed_eq_ok_iff.1 hafter
  have hlt := (Parameters.consistent hp).minuteDecay_lt
  have hfactor : low ≤ high :=
    Amount.decPow_anti (Nat.le_of_lt hlt) (b.minutesPassed_mono h) hhigh hlow
  rw [Amount.le_iff_val_le] at hfactor ⊢
  rw [hbefore, hafter]
  gcongr

/-- A minute leaves less than there was. -/
theorem decayed_lt (hp : p.validate = .ok ()) (hb : b.rate ≠ 0) (hnow : b.minutesPassed now ≠ 0)
    (hrate : b.decayed p now = .ok rate) : rate < b.rate := by
  have hlt := (Parameters.consistent hp).minuteDecay_lt
  obtain ⟨factor, hfactor, hrate⟩ := decayed_eq_ok_iff.1 hrate
  have hone : p.minuteDecay.decPow 1 = .ok p.minuteDecay := by
    rw [Amount.decPow_eq one_ne_zero (by decide), Amount.decPowFrom_of_le_one le_rfl,
      Amount.decMul_unit]
  have hle : factor ≤ p.minuteDecay :=
    Amount.decPow_anti (Nat.le_of_lt hlt) (Nat.one_le_iff_ne_zero.2 hnow) hone hfactor
  rw [Amount.lt_iff_val_lt, hrate, Nat.div_lt_iff_lt_mul Amount.unit_pos]
  exact Nat.mul_lt_mul_of_pos_left (Nat.lt_of_le_of_lt hle hlt) (Amount.ne_zero_iff.1 hb)

/-- **The base rate only decays with time.**  It is there at every time, is never above the rate
that was set, does not rise, and has fallen after a minute unless it was zero. -/
theorem decayed_antitone (hp : p.validate = .ok ()) (h : early ≤ late) :
    ∃ before after, b.decayed p early = .ok before ∧
      b.decayed p late = .ok after ∧ after ≤ before ∧ before ≤ b.rate ∧
      (b.rate ≠ 0 → b.minutesPassed late ≠ 0 → after < b.rate) := by
  obtain ⟨before, hbefore, hle⟩ := b.exists_decayed hp early
  obtain ⟨after, hafter, -⟩ := b.exists_decayed hp late
  exact ⟨before, after, hbefore, hafter, decayed_le hp h hbefore hafter, hle,
    fun h0 hminute => decayed_lt hp h0 hminute hafter⟩

/-- A rate of five percent at time zero. -/
def fivePercent : BaseRate := ⟨Parameters.standardFeeCeiling, 0⟩

/-- With the standard parameters it is down to a quarter after a day. -/
theorem decayed_antitone_fivePercent : ∃ twoHours aDay,
    fivePercent.decayed .standard 7_200 = .ok twoHours ∧
    fivePercent.decayed .standard 86_400 = .ok aDay ∧
    twoHours.val = 44_544_935_907_014_887 ∧ aDay.val = 12_499_999_999_993_004 ∧
    aDay ≤ twoHours ∧ twoHours ≤ fivePercent.rate ∧ aDay < fivePercent.rate := by
  obtain ⟨twoHours, aDay, hearly, hlate, hle, hrate, hlt⟩ :=
    decayed_antitone (b := fivePercent) (by decide : Parameters.standard.validate = .ok ())
      (by decide : (7_200 : UInt64) ≤ 86_400)
  have hvalues : (fivePercent.decayed .standard 7_200).map Amount.val =
        .ok 44_544_935_907_014_887 ∧
      (fivePercent.decayed .standard 86_400).map Amount.val = .ok 12_499_999_999_993_004 := by
    cbv
  rw [hearly, hlate] at hvalues
  exact ⟨twoHours, aDay, hearly, hlate, Except.ok.inj hvalues.1, Except.ok.inj hvalues.2, hle,
    hrate, hlt (by decide) (by decide)⟩

end BaseRate

end Stablecoin
