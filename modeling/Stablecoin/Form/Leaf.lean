/-
  Stablecoin accounting — written forms of amounts, addresses and digests.

  An amount is the text of its hexadecimal digits after `0x`; it is read from
  one to 64 digits and blanks, with the mark or without.  In configuration files
  amounts are decimal text instead (`Amount.decimalForm`).  An address is its text, also
  as a key, and a digest its 32 bytes.
-/
import Stablecoin.Address.Text
import Stablecoin.Form.Basic

namespace Stablecoin

namespace Amount

/-- The digits of the amount after the mark of a hexadecimal number. -/
def hex (a : Amount) : String := String.ofList ('0' :: 'x' :: Hex.digits a.val)

/-- The amount that one to 64 digits and blanks write, with the mark or without. -/
def ofHex? (text : String) : Option Amount :=
  let digits := Address.withoutMark (Bytes.ofText text)
  if 1 ≤ digits.length ∧ digits.length ≤ 64 then (Hex.spacedNumber? digits).bind ofNat? else none

/-- An amount, by its hexadecimal text. -/
def form : Form Amount := .spelled hex ofHex?

/-- An amount, by its text in whole units. -/
def decimalForm : Form Amount := .spelled decimal fun text => (ofDecimal text).toOption

end Amount

namespace Address

/-- An address, by its text. -/
def form : Form Address := .spelled hex ofHex?

/-- An address as a key. -/
def key : Form.OfKey Address := Form.keyOfText hex ofHex?

end Address

namespace Digest

/-- A digest, by its bytes. -/
def form : Form Digest where
  toJson d := .array (d.bytes.map fun b => .ofNat b.toNat)
  ofJson? value := do
    let numbers ← (← value.items?).mapM Json.natural?
    if numbers.all (· < 256) then ofBytes? (numbers.map UInt8.ofNat) else none
  toBytes d := d.bytes
  ofBytes? bytes := (ofBytes? (bytes.take width)).map (·, bytes.drop width)

end Digest

end Stablecoin
