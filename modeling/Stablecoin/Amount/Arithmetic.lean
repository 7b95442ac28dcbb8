/-
  Stablecoin accounting — arithmetic on amounts.

  Two families.  The *checked* operations (`add`, `sub`, `mul`, `mulDiv`,
  `decMul`, `decPow`) refuse where the result is no amount, and say which
  computation failed.  The *plain* operators (`plus`, `minus`, `times`, `dividedBy`)
  are for places where the result is known to fit, and halt the run if it does
  not.

  Products are taken in full before a division, so `mulDiv a b c` is refused
  only where the quotient itself is too large, and every division rounds down;
  `decMul` alone rounds half up.
-/
import Stablecoin.Refusal

namespace Stablecoin.Amount

/-- The number as an amount, or a refusal. -/
def orRefuse (n : Nat) (cause : Refusal) : Attempt Amount := demandSome cause (ofNat? n)

/-! ## Checked operations -/

/-- The sum. -/
def add (a b : Amount) : Attempt Amount := orRefuse (a.val + b.val) (.overflow s!"{a} + {b}")

/-- The difference. -/
def sub (a b : Amount) : Attempt Amount :=
  if b ≤ a then .ok (a.subClamped b) else refuse (.underflow s!"{a} - {b}")

/-- The product. -/
def mul (a b : Amount) : Attempt Amount := orRefuse (a.val * b.val) (.overflow s!"{a} * {b}")

/-- The quotient `a * b / c`, rounded down. -/
def mulDiv (a b c : Amount) : Attempt Amount :=
  if c = 0 then refuse (.invalidParameter "divisor" "division by zero")
  else orRefuse (a.val * b.val / c.val) (.overflow s!"({a} * {b}) / {c}")

/-- The product of two ratios, rounded half up. -/
def decMul (x y : Amount) : Attempt Amount :=
  orRefuse ((x.val * y.val + halfUnit.val) / unit.val) (.overflow s!"dec_mul({x}, {y})")

/-- Adds the change or takes it off. -/
def change (value delta : Amount) (increase : Bool) : Attempt Amount :=
  if increase then value.add delta else value.sub delta

/-! ## Powers -/

/-- The largest exponent: the minutes of a thousand years. -/
def maxExponent : Nat := 525600000

/-- `y` times the power of `x`, by repeated squaring, for an exponent that is not zero. -/
def decPowFrom (n : Nat) (x y : Amount) : Attempt Amount :=
  if n ≤ 1 then x.decMul y
  else if n % 2 = 0 then do
    decPowFrom (n / 2) (← x.decMul x) y
  else do
    let y ← x.decMul y
    decPowFrom ((n - 1) / 2) (← x.decMul x) y
termination_by n
decreasing_by all_goals omega

/-- The power of a ratio.  An exponent above `maxExponent` counts as `maxExponent`. -/
def decPow (base : Amount) (exponent : Nat) : Attempt Amount :=
  let n := min exponent maxExponent
  if n = 0 then .ok unit else decPowFrom n base unit

/-! ## Plain operators -/

/-- The number as an amount; anything else halts the run. -/
def orFault (n : Nat) : Attempt Amount :=
  match ofNat? n with
  | some a => .ok a
  | none => fault

/-- The sum, known to fit. -/
def plus (a b : Amount) : Attempt Amount := orFault (a.val + b.val)

/-- The difference, known not to be negative. -/
def minus (a b : Amount) : Attempt Amount :=
  if b ≤ a then .ok (a.subClamped b) else fault

/-- The product, known to fit. -/
def times (a b : Amount) : Attempt Amount := orFault (a.val * b.val)

/-- The quotient by a divisor known not to be zero, rounded down. -/
def dividedBy (a b : Amount) : Attempt Amount :=
  if b = 0 then fault else .ok (a.quot b.val)

/-! ## Scales -/

/-- The power of ten, if it is an amount. -/
def pow10 (exponent : Nat) : Attempt Amount :=
  if exponent < 78 then orFault (Nat.pow 10 exponent) else fault

/-- So many units of `10 ^ decimals`. -/
def scaled (units : UInt64) (decimals : Nat) : Attempt Amount := do
  (ofWord units).times (← pow10 decimals)

/-- So many whole units. -/
def whole (units : UInt64) : Amount :=
  ⟨units.toNat * unit.val, by
    have := units.toNat_lt
    simp only [unit, limit]
    omega⟩

/-! ## Collateral ratios -/

/-- The ratio of collateral to debt at a price; without debt it has no bound. -/
def ratio (coll debt price : Amount) : Attempt Amount :=
  if debt = 0 then .ok maximum else coll.mulDiv price debt

/-- The decimal places of nominal ratios. -/
def nominalPlaces : Nat := 20

/-- The scale of nominal ratios. -/
def nominalScale : Amount := ⟨Nat.pow 10 nominalPlaces, by decide⟩

/-- The ratio of collateral to debt without a price, which orders troves. -/
def nominalRatio (coll debt : Amount) : Attempt Amount :=
  if debt = 0 then .ok maximum else coll.mulDiv nominalScale debt

end Stablecoin.Amount
