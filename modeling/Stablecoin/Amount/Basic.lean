/-
  Stablecoin accounting — amounts.

  Collateral, stable tokens and the ratios between them are all `Amount`s:
  natural numbers below `2 ^ 256`, read as counts of units of `10 ^ -18`.

  * `Amount.limit` is the first natural number that is no amount;
  * `Amount.unit` is one whole unit, which as a ratio is one hundred percent;
  * `Amount.ofNat?` takes a number in exactly if it is below the limit, and the
    arithmetic with its refusals is built on it (`Stablecoin.Amount.Arithmetic`).
-/
namespace Stablecoin

/-- The first natural number that is no amount: `2 ^ 256`. -/
def Amount.limit : Nat :=
  0x10000000000000000000000000000000000000000000000000000000000000000

/-- A count of units of `10 ^ -18`, below `2 ^ 256`. -/
structure Amount where
  val : Nat
  val_lt : val < Amount.limit
deriving DecidableEq

namespace Amount

@[ext] theorem ext {a b : Amount} (h : a.val = b.val) : a = b := by
  cases a; cases b; cases h; rfl

/-! ## Values -/

instance : OfNat Amount 0 := ⟨⟨0, by decide⟩⟩

instance : OfNat Amount 1 := ⟨⟨1, by decide⟩⟩

instance : Inhabited Amount := ⟨0⟩

/-- One whole unit; as a ratio, one hundred percent. -/
def unit : Amount := ⟨1_000_000_000_000_000_000, by decide⟩

/-- Half of a whole unit: what is added before a division that rounds half up. -/
def halfUnit : Amount := ⟨500_000_000_000_000_000, by decide⟩

/-- The largest amount, which stands for a ratio without bound. -/
def maximum : Amount := ⟨limit - 1, by decide⟩

/-- The number as an amount, if it is below the limit. -/
def ofNat? (n : Nat) : Option Amount :=
  if h : n < limit then some ⟨n, h⟩ else none

/-- A 64-bit count as an amount. -/
def ofWord (n : UInt64) : Amount :=
  ⟨n.toNat, Nat.lt_trans n.toNat_lt (by decide)⟩

@[simp] theorem val_zero : (0 : Amount).val = 0 := rfl

@[simp] theorem val_one : (1 : Amount).val = 1 := rfl

theorem eq_zero_iff {a : Amount} : a = 0 ↔ a.val = 0 :=
  ⟨fun h => h ▸ rfl, fun h => ext h⟩

theorem ofNat?_eq_some_iff {n : Nat} {a : Amount} : ofNat? n = some a ↔ a.val = n := by
  unfold ofNat?
  split
  · exact ⟨fun h => (Option.some.inj h) ▸ rfl, fun h => congrArg some (ext h.symm)⟩
  · next hn => exact ⟨nofun, fun h => absurd (h ▸ a.val_lt) hn⟩

/-! ## Order -/

instance : LT Amount := ⟨fun a b => a.val < b.val⟩

instance : LE Amount := ⟨fun a b => a.val ≤ b.val⟩

instance (a b : Amount) : Decidable (a < b) := inferInstanceAs (Decidable (a.val < b.val))

instance (a b : Amount) : Decidable (a ≤ b) := inferInstanceAs (Decidable (a.val ≤ b.val))

instance : Min Amount := ⟨fun a b => if a ≤ b then a else b⟩

instance : Max Amount := ⟨fun a b => if a ≤ b then b else a⟩

theorem lt_iff_val_lt {a b : Amount} : a < b ↔ a.val < b.val := Iff.rfl

theorem le_iff_val_le {a b : Amount} : a ≤ b ↔ a.val ≤ b.val := Iff.rfl

theorem val_min (a b : Amount) : (min a b).val = min a.val b.val := by
  show (if a ≤ b then a else b).val = _
  rw [Nat.min_def]
  by_cases h : a ≤ b
  · rw [if_pos h, if_pos (le_iff_val_le.1 h)]
  · rw [if_neg h, if_neg (fun g => h (le_iff_val_le.2 g))]

theorem val_max (a b : Amount) : (max a b).val = max a.val b.val := by
  show (if a ≤ b then b else a).val = _
  rw [Nat.max_def]
  by_cases h : a ≤ b
  · rw [if_pos h, if_pos (le_iff_val_le.1 h)]
  · rw [if_neg h, if_neg (fun g => h (le_iff_val_le.2 g))]

/-! ## Operations that always have a result -/

/-- The quotient by a fixed number, rounded down. -/
def quot (a : Amount) (n : Nat) : Amount :=
  ⟨a.val / n, Nat.lt_of_le_of_lt (Nat.div_le_self _ _) a.val_lt⟩

/-- The remainder by a fixed number. -/
def rem (a : Amount) (n : Nat) : Amount :=
  ⟨a.val % n, Nat.lt_of_le_of_lt (Nat.mod_le _ _) a.val_lt⟩

/-- The number, or the largest amount where it is no amount. -/
def clamp (n : Nat) : Amount :=
  if h : n < limit then ⟨n, h⟩ else maximum

/-- The sum, held at the largest amount. -/
def addClamped (a b : Amount) : Amount := clamp (a.val + b.val)

/-- The product, held at the largest amount. -/
def mulClamped (a b : Amount) : Amount := clamp (a.val * b.val)

/-- The difference, held at zero. -/
def subClamped (a b : Amount) : Amount :=
  ⟨a.val - b.val, Nat.lt_of_le_of_lt (Nat.sub_le _ _) a.val_lt⟩

/-! ## Text -/

instance : ToString Amount := ⟨fun a => toString a.val⟩

end Amount

end Stablecoin
