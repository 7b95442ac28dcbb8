/-
  Stablecoin theory — powers by repeated squaring.

  A power of a ratio is put together from squares of squares, and every product on the
  way is rounded half up.  Exponents that follow one another go through different
  products, so that powers have to be compared product by product.

  * `exists_decMul` and `decMul_mono`: a product with a ratio of at most one hundred
    percent is no more than the other factor, and products are monotone;
  * `decPowFrom_double` and `decPowFrom_double_succ` are the two steps of the recursion;
    the lemmas about powers are inductions on the binary digits of the exponent;
  * `decPow_anti`: powers of such a ratio fall, rounding included.
-/
import Stablecoin.Proofs.Arithmetic

namespace Stablecoin.Amount

variable {x x' y y' z z' r r' : Amount} {m n : ℕ}

/-! ## Products -/

theorem decMul_eq_ok_iff :
    x.decMul y = .ok z ↔ z.val = (x.val * y.val + halfUnit.val) / unit.val := orRefuse_eq_ok_iff

/-- A ratio of at most one hundred percent leaves no more of the other factor. -/
theorem exists_decMul (hx : x ≤ unit) : ∃ z, x.decMul y = .ok z ∧ z ≤ y := by
  rw [le_iff_val_le] at hx
  have hhalf : halfUnit.val < unit.val := by decide
  have hle : (x.val * y.val + halfUnit.val) / unit.val ≤ y.val := by
    apply Nat.le_of_lt_succ
    rw [Nat.div_lt_iff_lt_mul unit_pos]
    calc x.val * y.val + halfUnit.val ≤ unit.val * y.val + halfUnit.val := by gcongr
      _ < unit.val * y.val + unit.val := by gcongr
      _ = (y.val + 1) * unit.val := by ring
  obtain ⟨z, hz, hzy⟩ := exists_within hle
  exact ⟨z, decMul_eq_ok_iff.2 hz, hzy⟩

theorem decMul_mono (hx : x ≤ x') (hy : y ≤ y') (h : x.decMul y = .ok z)
    (h' : x'.decMul y' = .ok z') : z ≤ z' := by
  rw [decMul_eq_ok_iff] at h h'
  rw [le_iff_val_le] at hx hy ⊢
  rw [h, h']
  gcongr

/-- A product with one whole unit needs no rounding. -/
theorem decMul_unit (x : Amount) : x.decMul unit = .ok x := by
  have hhalf : halfUnit.val / unit.val = 0 := by decide
  rw [decMul_eq_ok_iff, Nat.mul_comm, Nat.mul_add_div unit_pos, hhalf, Nat.add_zero]

/-! ## Steps -/

theorem decPowFrom_of_le_one (hn : n ≤ 1) : decPowFrom n x y = x.decMul y := by
  rw [decPowFrom, if_pos hn]

theorem decPowFrom_double (hn : n ≠ 0) (hz : x.decMul x = .ok z) :
    decPowFrom (2 * n) x y = decPowFrom n z y := by
  rw [decPowFrom, if_neg (by omega), if_pos (by omega), hz, Nat.mul_div_cancel_left _ two_pos]
  rfl

theorem decPowFrom_double_succ (hn : n ≠ 0) (hz : x.decMul x = .ok z) (hr : x.decMul y = .ok r) :
    decPowFrom (2 * n + 1) x y = decPowFrom n z r := by
  rw [decPowFrom, if_neg (by omega), if_neg (by omega), hz, hr, Nat.add_sub_cancel,
    Nat.mul_div_cancel_left _ two_pos]
  rfl

/-! ## Powers -/

theorem exists_decPowFrom (n : ℕ) (hx : x ≤ unit) :
    ∃ r, decPowFrom n x y = .ok r ∧ r ≤ y := by
  induction n using Nat.binaryRecFromOne generalizing x y with
  | zero =>
    rw [decPowFrom_of_le_one zero_le_one]
    exact exists_decMul hx
  | one =>
    rw [decPowFrom_of_le_one le_rfl]
    exact exists_decMul hx
  | bit b n hn ih =>
    obtain ⟨square, hsquare, hle⟩ := exists_decMul (y := x) hx
    have hunit := Nat.le_trans hle hx
    cases b with
    | false =>
      rw [Nat.bit_false_apply, decPowFrom_double hn hsquare]
      exact ih hunit
    | true =>
      obtain ⟨next, hnext, hy⟩ := exists_decMul (y := y) hx
      rw [Nat.bit_true_apply, decPowFrom_double_succ hn hsquare hnext]
      obtain ⟨r, hr, hrnext⟩ := ih (y := next) hunit
      exact ⟨r, hr, Nat.le_trans hrnext hy⟩

theorem decPowFrom_mono (n : ℕ) (hunit : x' ≤ unit) (hx : x ≤ x') (hy : y ≤ y')
    (h : decPowFrom n x y = .ok r) (h' : decPowFrom n x' y' = .ok r') : r ≤ r' := by
  induction n using Nat.binaryRecFromOne generalizing x x' y y' with
  | zero =>
    rw [decPowFrom_of_le_one zero_le_one] at h h'
    exact decMul_mono hx hy h h'
  | one =>
    rw [decPowFrom_of_le_one le_rfl] at h h'
    exact decMul_mono hx hy h h'
  | bit b n hn ih =>
    obtain ⟨s, hs, -⟩ := exists_decMul (y := x) (Nat.le_trans hx hunit)
    obtain ⟨s', hs', hle⟩ := exists_decMul (y := x') hunit
    have hsquares := decMul_mono hx hx hs hs'
    cases b with
    | false =>
      rw [Nat.bit_false_apply, decPowFrom_double hn hs] at h
      rw [Nat.bit_false_apply, decPowFrom_double hn hs'] at h'
      exact ih (Nat.le_trans hle hunit) hsquares hy h h'
    | true =>
      obtain ⟨next, hnext, -⟩ := exists_decMul (y := y) (Nat.le_trans hx hunit)
      obtain ⟨next', hnext', -⟩ := exists_decMul (y := y') hunit
      rw [Nat.bit_true_apply, decPowFrom_double_succ hn hs hnext] at h
      rw [Nat.bit_true_apply, decPowFrom_double_succ hn hs' hnext'] at h'
      exact ih (Nat.le_trans hle hunit) hsquares (decMul_mono hx hy hnext hnext') h h'

/-- **One more in the exponent makes a power no larger.**  The digits of the two exponents differ in
a lowest run of ones, and over that run one computation has gathered a product of the squares of
which the other takes the next: `y` is that product, no less than the square `x` that is next. -/
theorem decPowFrom_succ_le (hn : n ≠ 0) (hunit : x ≤ unit) (hy : x ≤ y)
    (h : decPowFrom n x y = .ok r) (h' : decPowFrom (n + 1) x unit = .ok r') : r' ≤ r := by
  induction n using Nat.binaryRecFromOne generalizing x y with
  | zero => exact absurd rfl hn
  | one =>
    obtain ⟨square, hsquare, -⟩ := exists_decMul (y := x) hunit
    rw [decPowFrom_of_le_one le_rfl] at h
    rw [show 1 + 1 = 2 * 1 from rfl, decPowFrom_double one_ne_zero hsquare,
      decPowFrom_of_le_one le_rfl, decMul_unit] at h'
    cases h'
    exact decMul_mono (Nat.le_refl _) hy hsquare h
  | bit b n hrest ih =>
    obtain ⟨square, hsquare, hle⟩ := exists_decMul (y := x) hunit
    have hsquare_le := Nat.le_trans hle hunit
    cases b with
    | false =>
      rw [Nat.bit_false_apply, decPowFrom_double hrest hsquare] at h
      rw [Nat.bit_false_apply, decPowFrom_double_succ hrest hsquare (decMul_unit x)] at h'
      exact decPowFrom_mono n hsquare_le (Nat.le_refl _) hy h' h
    | true =>
      obtain ⟨next, hnext, -⟩ := exists_decMul (y := y) hunit
      rw [Nat.bit_true_apply, decPowFrom_double_succ hrest hsquare hnext] at h
      rw [Nat.bit_true_apply, show 2 * n + 1 + 1 = 2 * (n + 1) from rfl,
        decPowFrom_double n.succ_ne_zero hsquare] at h'
      exact ih hrest hsquare_le (decMul_mono (Nat.le_refl _) hy hsquare hnext) h h'

theorem decPow_zero (x : Amount) : x.decPow 0 = .ok unit := rfl

theorem decPow_eq (hn : n ≠ 0) (hcap : n ≤ maxExponent) : x.decPow n = decPowFrom n x unit := by
  simp only [decPow, Nat.min_eq_left hcap, if_neg hn]

/-- Larger exponents count as the largest one. -/
theorem decPow_of_le (hcap : maxExponent ≤ n) : x.decPow n = x.decPow maxExponent := by
  simp only [decPow, Nat.min_eq_right hcap, Nat.min_self]

theorem exists_decPow (n : ℕ) (hx : x ≤ unit) : ∃ r, x.decPow n = .ok r ∧ r ≤ unit := by
  simp only [decPow]
  split
  · exact ⟨unit, rfl, Nat.le_refl _⟩
  · exact exists_decPowFrom _ hx

theorem decPow_succ_le (hx : x ≤ unit) (h : x.decPow n = .ok r) (h' : x.decPow (n + 1) = .ok r') :
    r' ≤ r := by
  by_cases hcap : maxExponent ≤ n
  · rw [decPow_of_le hcap] at h
    rw [decPow_of_le (Nat.le_succ_of_le hcap), h] at h'
    cases h'
    exact Nat.le_refl _
  by_cases hn : n = 0
  · rw [hn, decPow_zero] at h
    cases h
    obtain ⟨power, hpower, hle⟩ := exists_decPow (n + 1) hx
    rw [h'] at hpower
    cases hpower
    exact hle
  · rw [decPow_eq hn (Nat.le_of_not_le hcap)] at h
    rw [decPow_eq n.succ_ne_zero (Nat.lt_of_not_le hcap)] at h'
    exact decPowFrom_succ_le hn hx hx h h'

/-- **Powers of a ratio of at most one hundred percent fall with the exponent,** also where rounding
takes them another way. -/
theorem decPow_anti (hx : x ≤ unit) (hmn : m ≤ n) (h : x.decPow m = .ok r)
    (h' : x.decPow n = .ok r') : r' ≤ r := by
  induction n, hmn using Nat.le_induction generalizing r' with
  | base =>
    rw [h] at h'
    cases h'
    exact Nat.le_refl _
  | succ n _ ih =>
    obtain ⟨power, hpower, -⟩ := exists_decPow n hx
    exact Nat.le_trans (decPow_succ_le hx hpower h') (ih hpower)

end Stablecoin.Amount
