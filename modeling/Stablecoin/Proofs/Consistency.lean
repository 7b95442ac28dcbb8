/-
  Stablecoin theory — consistent parameters.

  A ledger is started on parameters that were validated.  `Parameters.Consistent` has a
  field for each bound that is checked then, and `Parameters.validate_eq_ok_iff` says
  that validation demands these bounds and no others.
-/
import Stablecoin.Proofs.Arithmetic
import Stablecoin.Parameters.Basic

namespace Stablecoin.Parameters

variable {p : Parameters}

/-- The bounds that the parameters keep to, and that divisors are not zero. -/
structure Consistent (p : Parameters) : Prop where
  unit_lt_minimum : Amount.unit < p.minimumRatio
  minimum_lt_critical : p.minimumRatio < p.criticalRatio
  minimumNetDebt_ne : p.minimumNetDebt ≠ 0
  borrowingFloor_le : p.borrowingFloor ≤ Amount.unit
  redemptionFloor_le : p.redemptionFloor ≤ Amount.unit
  floor_le_ceiling : p.borrowingFloor ≤ p.borrowingCeiling
  borrowingCeiling_le : p.borrowingCeiling ≤ Amount.unit
  minuteDecay_ne : p.minuteDecay ≠ 0
  minuteDecay_lt : p.minuteDecay < Amount.unit
  beta_ne : p.beta ≠ 0
  percentDivisor_ne : p.percentDivisor ≠ 0

/-- **What validation demands.** -/
theorem validate_eq_ok_iff : p.validate = .ok () ↔ p.Consistent := by
  simp only [validate, bind_eq_ok_iff, Unique.exists_iff]
  simp only [PUnit.default_eq_unit, demand_eq_ok_iff]
  constructor
  · rintro ⟨hunit, hcritical, hdebt, ⟨hborrow, hredeem⟩, ⟨hfloor, hceiling⟩, ⟨hdecay, hbelow⟩,
      hbeta, hpercent⟩
    exact ⟨hunit, hcritical, hdebt, hborrow, hredeem, hfloor, hceiling, hdecay, hbelow, hbeta,
      hpercent⟩
  · intro h
    exact ⟨h.unit_lt_minimum, h.minimum_lt_critical, h.minimumNetDebt_ne,
      ⟨h.borrowingFloor_le, h.redemptionFloor_le⟩, ⟨h.floor_le_ceiling, h.borrowingCeiling_le⟩,
      ⟨h.minuteDecay_ne, h.minuteDecay_lt⟩, h.beta_ne, h.percentDivisor_ne⟩

theorem consistent (h : p.validate = .ok ()) : p.Consistent := validate_eq_ok_iff.1 h

end Stablecoin.Parameters
