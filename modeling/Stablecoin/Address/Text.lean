/-
  Stablecoin accounting — reading addresses.

  An address is read from 40 hexadecimal digits of either case, which the mark
  `0x` may precede once; `Address.hex` writes it.  What else a text holds is
  named in the refusal.
-/
import Stablecoin.Refusal
import Stablecoin.Text.Quoted

namespace Stablecoin

/-- The fault as messages name it; a byte that is no digit is shown as a character. -/
def Hex.Fault.message : Hex.Fault → String
  | .oddLength => "Odd number of digits"
  | .notDigit byte place =>
    "Invalid character " ++ Text.quoteChar (Char.ofNat byte.toNat) ++ " at position " ++
      toString place

namespace Address

/-- The text without the mark of a hexadecimal number at its beginning. -/
def withoutMark : Bytes → Bytes
  | 48 :: 120 :: rest => rest
  | text => text

/-- The address that a text writes. -/
def ofHex (text : String) : Attempt Address :=
  match Hex.decode (withoutMark (Bytes.ofText text)) with
  | .error found => refuse (.invalidParameter "address" found.message)
  | .ok bytes =>
    demandSome (.invalidParameter "address" s!"expected {width} bytes, got {bytes.length}")
      (ofBytes? bytes)

/-- The address that a text writes, if it writes one. -/
def ofHex? (text : String) : Option Address := (ofHex text).toOption

end Address

end Stablecoin
