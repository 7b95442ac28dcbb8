/-
  Stablecoin theory — when computations succeed.

  An operation is a long chain of attempts, and every fact about it begins with
  the values that the chain went through.  Here is what each link says.

  * `bind_eq_ok_iff` takes a chain apart, and `demandSome_eq_ok_iff`,
    `onlyIf_eq_ok_iff` and `demand_eq_ok_iff` its checks;
  * `Amount.add_eq_ok_iff` and its likes give the value of a checked operation as
    an equation between numbers.
-/
import Mathlib
import Stablecoin.Amount.Arithmetic

namespace Stablecoin

variable {α β σ : Type}

/-! ## Attempts -/

theorem bind_eq_ok_iff {x : Attempt α} {f : α → Attempt β} {b : β} :
    x >>= f = .ok b ↔ ∃ a, x = .ok a ∧ f a = .ok b := by
  cases x with
  | error e => exact ⟨nofun, nofun⟩
  | ok a =>
    constructor
    · intro h
      exact ⟨a, rfl, h⟩
    · rintro ⟨_, h, g⟩
      cases h
      exact g

theorem pure_eq_ok_iff {a b : α} : (pure a : Attempt α) = .ok b ↔ a = b :=
  ⟨Except.ok.inj, congrArg _⟩

theorem refuse_eq_ok_iff {cause : Refusal} {a : α} : refuse cause = .ok a ↔ False := ⟨nofun, nofun⟩

theorem fault_eq_ok_iff {a : α} : fault = .ok a ↔ False := ⟨nofun, nofun⟩

theorem demandSome_eq_ok_iff {cause : Refusal} {o : Option α} {a : α} :
    demandSome cause o = .ok a ↔ o = some a := by
  cases o with
  | none => exact ⟨nofun, nofun⟩
  | some b =>
    constructor
    · intro h
      exact congrArg some (Except.ok.inj h)
    · intro h
      exact congrArg Except.ok (Option.some.inj h)

theorem onlyIf_eq_ok_iff {called : Bool} {check : Attempt Unit} :
    onlyIf called check = .ok () ↔ (called = true → check = .ok ()) := by
  cases called <;> simp [onlyIf]

theorem nextCount_eq_ok_iff {n m : UInt64} :
    nextCount n = .ok m ↔ m.toNat = n.toNat + 1 := by
  unfold nextCount
  split
  · next h =>
    rw [Except.ok.injEq, ← UInt64.toNat_inj, UInt64.toNat_add, UInt64.toNat_one,
      Nat.mod_eq_of_lt h]
    exact eq_comm
  · next h =>
    rw [fault_eq_ok_iff, false_iff]
    intro g
    exact h (g ▸ m.toNat_lt)

/-- The outcome of a change that is made or leaves everything as it was. -/
theorem settle_eq_ok_iff {s t : σ} {x : Attempt σ} : settle s x = (.ok (), t) ↔ x = .ok t := by
  cases x <;> simp [settle]

theorem settle_error {s t : σ} {x : Attempt σ} {stop : Stop}
    (h : settle s x = (.error stop, t)) : t = s := by
  cases x <;> cases h
  rfl

/-! ## Amounts -/

namespace Amount

variable {a b c d : Amount} {n : Nat} {cause : Refusal}

theorem ne_zero_iff : a ≠ 0 ↔ 0 < a.val := by
  rw [ne_eq, eq_zero_iff, Nat.pos_iff_ne_zero]

theorem val_inj : a.val = b.val ↔ a = b := ⟨ext, fun h => h ▸ rfl⟩

theorem unit_pos : 0 < unit.val := by decide

protected theorem min_le_left (a b : Amount) : min a b ≤ a := by
  rw [le_iff_val_le, val_min]
  exact Nat.min_le_left a.val b.val

protected theorem min_le_right (a b : Amount) : min a b ≤ b := by
  rw [le_iff_val_le, val_min]
  exact Nat.min_le_right a.val b.val

theorem ofWord_ne_zero {n : UInt64} (h : n ≠ 0) : ofWord n ≠ 0 := by
  rw [ne_eq, eq_zero_iff]
  exact fun h0 => h (UInt64.toNat_inj.1 h0)

theorem orRefuse_eq_ok_iff : orRefuse n cause = .ok a ↔ a.val = n := by
  rw [orRefuse, demandSome_eq_ok_iff, ofNat?_eq_some_iff]

theorem orFault_eq_ok_iff : orFault n = .ok a ↔ a.val = n := by
  rw [← ofNat?_eq_some_iff, orFault]
  cases ofNat? n with
  | none => exact ⟨nofun, nofun⟩
  | some b =>
    constructor
    · intro h
      exact congrArg some (Except.ok.inj h)
    · intro h
      exact congrArg Except.ok (Option.some.inj h)

theorem exists_val_eq (h : n < limit) : ∃ a : Amount, a.val = n := ⟨⟨n, h⟩, rfl⟩

/-- What is no more than an amount is an amount. -/
theorem exists_within (h : n ≤ a.val) : ∃ c : Amount, c.val = n ∧ c ≤ a :=
  ⟨⟨n, lt_of_le_of_lt h a.val_lt⟩, rfl, h⟩

/-- What an amount exceeds another by is an amount. -/
theorem exists_rest (h : b ≤ a) : ∃ c : Amount, a.val = c.val + b.val := by
  rw [le_iff_val_le] at h
  obtain ⟨c, hc, -⟩ := exists_within (Nat.sub_le a.val b.val)
  exact ⟨c, by omega⟩

theorem subClamped_eq_iff (h : b ≤ a) : a.subClamped b = c ↔ a.val = c.val + b.val := by
  have hv : (a.subClamped b).val = a.val - b.val := rfl
  rw [le_iff_val_le] at h
  rw [← val_inj, hv]
  omega

theorem add_eq_ok_iff : a.add b = .ok c ↔ c.val = a.val + b.val := orRefuse_eq_ok_iff

theorem sub_eq_ok_iff : a.sub b = .ok c ↔ a.val = c.val + b.val := by
  unfold sub
  split
  · next h => rw [Except.ok.injEq, subClamped_eq_iff h]
  · next h =>
    rw [le_iff_val_le] at h
    rw [refuse_eq_ok_iff, false_iff]
    omega

theorem mul_eq_ok_iff : a.mul b = .ok c ↔ c.val = a.val * b.val := orRefuse_eq_ok_iff

theorem mulDiv_eq_ok_iff : a.mulDiv b c = .ok d ↔ c ≠ 0 ∧ d.val = a.val * b.val / c.val := by
  unfold mulDiv
  split
  · next h => simp [refuse_eq_ok_iff, h]
  · next h => simp [orRefuse_eq_ok_iff, h]

theorem plus_eq_ok_iff : a.plus b = .ok c ↔ c.val = a.val + b.val := orFault_eq_ok_iff

theorem minus_eq_ok_iff : a.minus b = .ok c ↔ a.val = c.val + b.val := by
  unfold minus
  split
  · next h => rw [Except.ok.injEq, subClamped_eq_iff h]
  · next h =>
    rw [le_iff_val_le] at h
    rw [fault_eq_ok_iff, false_iff]
    omega

theorem times_eq_ok_iff : a.times b = .ok c ↔ c.val = a.val * b.val := orFault_eq_ok_iff

theorem dividedBy_eq_ok_iff : a.dividedBy b = .ok c ↔ b ≠ 0 ∧ c.val = a.val / b.val := by
  unfold dividedBy
  split
  · next h => simp [fault_eq_ok_iff, h]
  · next h =>
    rw [Except.ok.injEq, ← val_inj]
    constructor
    · intro g
      exact ⟨h, g.symm⟩
    · rintro ⟨-, g⟩
      exact g.symm

theorem ratio_eq_ok_iff {price : Amount} : ratio a b price = .ok c ↔
    (b = 0 ∧ c = maximum) ∨ (b ≠ 0 ∧ c.val = a.val * price.val / b.val) := by
  unfold ratio
  split
  · next h => simp [h, eq_comm]
  · next h => simp [h, mulDiv_eq_ok_iff]

theorem le_maximum (a : Amount) : a ≤ maximum := Nat.le_sub_one_of_lt a.val_lt

/-- A ratio is compared without its rounding. -/
theorem le_ratio_iff {m price : Amount} (h : ratio a b price = .ok c) :
    m ≤ c ↔ m.val * b.val ≤ a.val * price.val := by
  obtain ⟨rfl, rfl⟩ | ⟨h0, hc⟩ := ratio_eq_ok_iff.1 h
  · rw [val_zero, Nat.mul_zero]
    exact iff_of_true (le_maximum m) (Nat.zero_le _)
  · rw [le_iff_val_le, hc, Nat.le_div_iff_mul_le (ne_zero_iff.1 h0)]

/-- More collateral and less debt do not lower a ratio. -/
theorem ratio_mono {a' b' c' price : Amount} (h : ratio a b price = .ok c)
    (h' : ratio a' b' price = .ok c') (hcoll : a ≤ a') (hdebt : b' ≤ b) : c ≤ c' := by
  rw [le_ratio_iff h']
  calc
    c.val * b'.val ≤ c.val * b.val := Nat.mul_le_mul_left _ hdebt
    _ ≤ a.val * price.val := (le_ratio_iff h).1 (Nat.le_refl _)
    _ ≤ a'.val * price.val := Nat.mul_le_mul_right _ hcoll

theorem change_eq_ok_iff {up : Bool} : change a b up = .ok c ↔
    (up = true ∧ c.val = a.val + b.val) ∨ (up = false ∧ a.val = c.val + b.val) := by
  cases up <;> simp [change, add_eq_ok_iff, sub_eq_ok_iff]

theorem val_foldl_addClamped {amounts : List Amount} {first : Amount}
    (h : first.val + (amounts.map val).sum < limit) :
    (amounts.foldl addClamped first).val = first.val + (amounts.map val).sum := by
  induction amounts generalizing first with
  | nil => rfl
  | cons a rest ih =>
    rw [List.map_cons, List.sum_cons, ← Nat.add_assoc] at h ⊢
    have hfirst : (first.addClamped a).val = first.val + a.val := by
      unfold addClamped clamp
      rw [dif_pos (by omega)]
    rw [List.foldl_cons, ih (by rwa [hfirst]), hfirst]

/-- A sum that is an amount is not held back. -/
theorem foldl_addClamped_eq {amounts : List Amount} {total : Amount}
    (h : total.val = (amounts.map val).sum) : amounts.foldl addClamped 0 = total := by
  have hlt : (0 : Amount).val + (amounts.map val).sum < limit := by
    rw [val_zero, Nat.zero_add, ← h]
    exact total.val_lt
  exact Amount.ext (by rw [val_foldl_addClamped hlt, val_zero, Nat.zero_add, h])

end Amount

end Stablecoin
