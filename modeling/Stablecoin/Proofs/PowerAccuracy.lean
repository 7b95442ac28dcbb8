/-
  Stablecoin theory — how accurate powers are.

  Every product on the way to a power is rounded by half a unit at most, and later
  products multiply that error by ratios of at most one hundred percent.  So errors only
  add up: a power of `n` has the error of `n - 1` products, however they are put together.

  * `Amount.IsPower`: an amount stands for a power of a ratio, with that error.  One whole
    unit stands for the power of zero;
  * `IsPower.decMul`: exponents add up in a product;
  * `IsPower.decPowFrom` is the invariant of repeated squaring, and
    `decPow_accurate` what follows for powers.
-/
import Stablecoin.Proofs.Powers
import Stablecoin.Parameters.Basic

namespace Stablecoin.Amount

variable {base x y z r : Amount} {a b n : ℕ}

/-! ## Rounding -/

theorem unit_pos_rat : (0 : ℚ) < unit.val := by exact_mod_cast unit_pos

/-- The ratio as a number, one hundred percent being one. -/
def share (x : Amount) : ℚ := x.val / unit.val

theorem share_nonneg (x : Amount) : 0 ≤ x.share := by
  unfold share
  positivity

theorem share_le_one (hx : x ≤ unit) : x.share ≤ 1 := by
  rw [share, div_le_one unit_pos_rat]
  exact_mod_cast hx

theorem unit_mul_share (x : Amount) : unit.val * x.share = x.val :=
  mul_div_cancel₀ _ unit_pos_rat.ne'

/-- A product is rounded by half a unit at most. -/
theorem decMul_error_le (h : x.decMul y = .ok z) :
    |(z.val : ℚ) - x.val * y.share| ≤ 1 / 2 := by
  rw [decMul_eq_ok_iff] at h
  have hhalf : (2 : ℚ) * halfUnit.val = unit.val := by
    exact_mod_cast (by decide : 2 * halfUnit.val = unit.val)
  have hlow : z.val * unit.val ≤ x.val * y.val + halfUnit.val := h ▸ Nat.div_mul_le_self _ _
  have hhigh : x.val * y.val + halfUnit.val < z.val * unit.val + unit.val :=
    h ▸ Nat.lt_div_mul_add unit_pos
  qify at hlow hhigh
  rw [share, ← mul_div_assoc, abs_le, sub_div' unit_pos_rat.ne', le_div_iff₀ unit_pos_rat,
    div_le_iff₀ unit_pos_rat]
  constructor <;> linarith

/-! ## Powers with their error -/

/-- The amount stands for a power of a ratio: it is at most one whole unit, and off by the rounding
of as many products as that power takes. -/
structure IsPower (base : Amount) (n : ℕ) (x : Amount) : Prop where
  le_unit : x ≤ unit
  error_le : |(x.val : ℚ) - unit.val * base.share ^ n| ≤ (n - 1 : ℕ) / 2

namespace IsPower

theorem zero : IsPower base 0 unit := ⟨Nat.le_refl _, by simp⟩

theorem one (hbase : base ≤ unit) : IsPower base 1 base := by
  refine ⟨hbase, ?_⟩
  rw [pow_one, unit_mul_share, sub_self, abs_zero]
  positivity

/-- What stands for the power of zero is one whole unit. -/
theorem eq_unit (h : IsPower base 0 x) : x = unit := by
  have herror := h.error_le
  rw [pow_zero, mul_one, Nat.zero_sub, Nat.cast_zero, zero_div, abs_nonpos_iff, sub_eq_zero,
    Nat.cast_inj] at herror
  exact ext herror

/-- **Exponents add up in a product,** and so do errors; the product itself is rounded once more. -/
theorem decMul (ha : a ≠ 0) (hx : IsPower base a x) (hy : IsPower base b y)
    (hbase : base ≤ unit) (h : x.decMul y = .ok z) : IsPower base (a + b) z := by
  by_cases hb : b = 0
  · subst hb
    rw [hy.eq_unit, decMul_unit] at h
    cases h
    exact hx
  obtain ⟨z', hz', hle⟩ := exists_decMul (y := y) hx.le_unit
  obtain rfl : z = z' := Except.ok.inj (h.symm.trans hz')
  refine ⟨Nat.le_trans hle hy.le_unit, ?_⟩
  have hpow : base.share ^ a ≤ 1 := pow_le_one₀ base.share_nonneg (share_le_one hbase)
  -- the first factor is off by its error times a ratio, the second by its error times a power
  have hsplit : (z.val : ℚ) - unit.val * base.share ^ (a + b) = (z.val - x.val * y.share) +
      ((x.val - unit.val * base.share ^ a) * y.share +
        base.share ^ a * (y.val - unit.val * base.share ^ b)) := by
    rw [pow_add, ← unit_mul_share y]
    ring
  calc
    |(z.val : ℚ) - unit.val * base.share ^ (a + b)|
      ≤ |(z.val : ℚ) - x.val * y.share| + (|x.val - unit.val * base.share ^ a| * |y.share| +
          |base.share ^ a| * |y.val - unit.val * base.share ^ b|) := by
        rw [hsplit, ← abs_mul, ← abs_mul]
        exact (abs_add_le _ _).trans (add_le_add_right (abs_add_le _ _) _)
    _ ≤ 1 / 2 + ((a - 1 : ℕ) / 2 * 1 + 1 * ((b - 1 : ℕ) / 2)) := by
        rw [abs_of_nonneg y.share_nonneg, abs_of_nonneg (pow_nonneg base.share_nonneg a)]
        gcongr
        · exact decMul_error_le h
        · exact y.share_nonneg
        · exact hx.error_le
        · exact share_le_one hy.le_unit
        · exact hy.error_le
    _ = (a + b - 1 : ℕ) / 2 := by
        obtain ⟨i, rfl⟩ := Nat.exists_eq_succ_of_ne_zero ha
        obtain ⟨j, rfl⟩ := Nat.exists_eq_succ_of_ne_zero hb
        rw [show i.succ + j.succ - 1 = i + j + 1 by omega, Nat.succ_sub_one, Nat.succ_sub_one]
        push_cast
        ring

/-- **The invariant of repeated squaring:** the exponent of the square, as often as it is still to be
taken, and that of the product gathered so far make up the exponent of the result. -/
theorem decPowFrom (hn : n ≠ 0) (ha : a ≠ 0) (hx : IsPower base a x) (hy : IsPower base b y)
    (hbase : base ≤ unit) (h : decPowFrom n x y = .ok r) : IsPower base (a * n + b) r := by
  induction n using Nat.binaryRecFromOne generalizing a b x y with
  | zero => exact absurd rfl hn
  | one =>
    rw [decPowFrom_of_le_one le_rfl] at h
    rw [Nat.mul_one]
    exact hx.decMul ha hy hbase h
  | bit d n hrest ih =>
    obtain ⟨square, hsquare, -⟩ := exists_decMul (y := x) hx.le_unit
    have hdouble := hx.decMul ha hx hbase hsquare
    cases d with
    | false =>
      rw [Nat.bit_false_apply, decPowFrom_double hrest hsquare] at h
      rw [Nat.bit_false_apply, show a * (2 * n) + b = (a + a) * n + b by ring]
      exact ih hrest (by omega) hdouble hy h
    | true =>
      obtain ⟨next, hnext, -⟩ := exists_decMul (y := y) hx.le_unit
      rw [Nat.bit_true_apply, decPowFrom_double_succ hrest hsquare hnext] at h
      rw [Nat.bit_true_apply, show a * (2 * n + 1) + b = (a + a) * n + (a + b) by ring]
      exact ih hrest (by omega) hdouble (hx.decMul ha hy hbase hnext) h

/-- The error is that of the power as a quotient of natural numbers. -/
theorem abs_sub_le (hn : n ≠ 0) (h : IsPower base n x) :
    |(x.val : ℚ) - (base.val : ℚ) ^ n / (unit.val : ℚ) ^ (n - 1)| ≤ ((n : ℚ) - 1) / 2 := by
  have herror := h.error_le
  obtain ⟨m, rfl⟩ := Nat.exists_eq_succ_of_ne_zero hn
  have hexact : unit.val * base.share ^ (m + 1) = (base.val : ℚ) ^ (m + 1) / (unit.val : ℚ) ^ m := by
    rw [share, div_pow, pow_succ' (unit.val : ℚ), ← mul_div_assoc,
      mul_div_mul_left _ _ unit_pos_rat.ne']
  rw [Nat.succ_eq_add_one, Nat.add_sub_cancel] at herror ⊢
  rw [hexact] at herror
  rwa [Nat.cast_add, Nat.cast_one, add_sub_cancel_right]

end IsPower

/-- **Powers are accurate.**  A power of a ratio of at most one hundred percent is no more than one
whole unit, and it is off by at most half a unit for each product that the exponent takes; exponents
above the largest one count as that one. -/
theorem decPow_accurate (hbase : base ≤ unit) (hn : 1 ≤ n) :
    (n ≤ maxExponent → ∃ r, base.decPow n = .ok r ∧ r ≤ unit ∧
      |(r.val : ℚ) - (base.val : ℚ) ^ n / (unit.val : ℚ) ^ (n - 1)| ≤ ((n : ℚ) - 1) / 2) ∧
    (maxExponent ≤ n → base.decPow n = base.decPow maxExponent) := by
  have hn0 : n ≠ 0 := Nat.one_le_iff_ne_zero.1 hn
  refine ⟨?_, decPow_of_le⟩
  intro hcap
  obtain ⟨r, hr, hle⟩ := exists_decPow n hbase
  have hfrom : decPowFrom n base unit = .ok r := (decPow_eq hn0 hcap).symm.trans hr
  have hpower := IsPower.decPowFrom hn0 one_ne_zero (.one hbase) .zero hbase hfrom
  rw [Nat.one_mul, Nat.add_zero] at hpower
  exact ⟨r, hr, hle, hpower.abs_sub_le hn0⟩

/-- The standard factor of a minute leaves one half after 720 minutes, up to an error of less than
360 units. -/
theorem decPow_accurate_halfLife : ∃ r, Parameters.standardMinuteDecay.decPow 720 = .ok r ∧
    r.val = 499_999_999_999_860_089 ∧ r ≤ unit ∧
    |(r.val : ℚ) - (Parameters.standardMinuteDecay.val : ℚ) ^ 720 / (unit.val : ℚ) ^ 719| ≤
      (720 - 1) / 2 := by
  obtain ⟨hbelow, -⟩ := decPow_accurate (n := 720)
    (by decide : Parameters.standardMinuteDecay ≤ unit) (by decide)
  obtain ⟨r, hr, hle, herror⟩ := hbelow (by decide)
  have hvalue : (Parameters.standardMinuteDecay.decPow 720).map Amount.val =
      .ok 499_999_999_999_860_089 := by
    cbv
  rw [hr] at hvalue
  exact ⟨r, hr, Except.ok.inj hvalue, hle, by simpa only [Nat.cast_ofNat] using herror⟩

end Stablecoin.Amount
