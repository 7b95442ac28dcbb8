/-
  Stablecoin accounting — amounts as decimal text.

  People write amounts in whole units with up to 18 decimal places: `1.5`,
  `.005`, `200`.

  * `Amount.decimal` writes an amount, without a point where the places are all
    zero and without trailing zeros elsewhere;
  * `Amount.ofDecimal` reads a text.  Blanks around it are ignored; it is split
    at its first point; each part is ASCII digits or empty, but not both are
    empty; the part after the point has at most 18 bytes.
-/
import Stablecoin.Amount.Arithmetic
import Stablecoin.Text.Blank
import Stablecoin.Text.Quoted

namespace Stablecoin

namespace Text

/-! ## Decimal digits -/

/-- The number that an ASCII digit stands for. -/
def digit? (c : Char) : Option Nat :=
  if '0' ≤ c ∧ c ≤ '9' then some (c.toNat - 48) else none

/-- The number that the digits write after `acc`; nothing else may stand there. -/
def number? (acc : Nat) : List Char → Option Nat
  | [] => some acc
  | c :: rest =>
    match digit? c with
    | none => none
    | some d => number? (10 * acc + d) rest

/-- The parts before and after the first point; without a point the second is empty. -/
def splitPoint : List Char → List Char × List Char
  | [] => ([], [])
  | c :: rest =>
    if c = '.' then ([], rest)
    else
      let (whole, places) := splitPoint rest
      (c :: whole, places)

/-- The count of bytes of a text in UTF-8. -/
def byteLength (text : List Char) : Nat := (text.flatMap String.utf8EncodeChar).length

/-- The text without the zeros at its end. -/
def dropTrailingZeros (text : List Char) : List Char :=
  (text.reverse.dropWhile (· == '0')).reverse

/-- The text with zeros before it up to a length. -/
def padZeros (length : Nat) (text : List Char) : List Char :=
  List.replicate (length - text.length) '0' ++ text

end Text

namespace Amount

/-- The most decimal places that are written or read. -/
def places : Nat := 18

/-- The amount that digits write, if it is one; no digits write zero. -/
def ofDigits? (text : List Char) : Option Amount := (Text.number? 0 text).bind ofNat?

/-- The amount that a text in whole units writes. -/
def ofDecimal (text : String) : Attempt Amount := do
  let invalid (reason : String) : Refusal :=
    .invalidParameter "decimal" (reason ++ ": " ++ Text.quote text)
  let (whole, fraction) := Text.splitPoint (Text.trim text.toList)
  demand (¬(whole = [] ∧ fraction = [])) (invalid "empty value")
  demand (Text.byteLength fraction ≤ places) (invalid "more than 18 fractional digits")
  let units ← demandSome (invalid "not a number") (ofDigits? whole)
  let parts ← demandSome (invalid "not a number") (ofDigits? fraction)
  let parts ← parts.times (← pow10 (places - fraction.length))
  let units ← orRefuse (units.val * unit.val) (.overflow ("parse " ++ text))
  units.add parts

/-- The amount in whole units, with as many decimal places as it needs. -/
def decimal (a : Amount) : String :=
  let whole := a.val / unit.val
  let fraction := a.val % unit.val
  if fraction = 0 then toString whole
  else
    toString whole ++ "." ++
      String.ofList (Text.dropTrailingZeros (Text.padZeros places (toString fraction).toList))

/-- A ratio as messages show it, in percent. -/
def percent (a : Amount) : String :=
  if a = maximum then "inf" else (a.mulClamped ⟨100, by decide⟩).decimal ++ "%"

end Amount

end Stablecoin
