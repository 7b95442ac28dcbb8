/-
  Stablecoin accounting — quoted text in messages.

  A message shows a text or a character from its input between quotes: the
  usual controls, the quote itself and the backslash by a letter or by
  themselves after a backslash, other characters without a shape by their
  number, and all else as it is.

  * `Text.quote` is a text between double quotes;
  * `Text.quoteChar` is a character between single quotes.
-/
import Stablecoin.Hex
import Stablecoin.Text.Unprintable

namespace Stablecoin.Text

/-- One character inside quotes of the kind `mark`. -/
def shown (mark c : Char) : List Char :=
  if c = '\x00' then ['\\', '0']
  else if c = '\t' then ['\\', 't']
  else if c = '\r' then ['\\', 'r']
  else if c = '\n' then ['\\', 'n']
  else if c = '\\' ∨ c = mark then ['\\', c]
  else if isUnprintable c then ['\\', 'u', '\x7b'] ++ Hex.digits c.toNat ++ ['\x7d']
  else [c]

/-- The text between double quotes. -/
def quote (text : String) : String :=
  String.ofList ('"' :: text.toList.flatMap (shown '"') ++ ['"'])

/-- The character between single quotes. -/
def quoteChar (c : Char) : String :=
  String.ofList ('\'' :: shown '\'' c ++ ['\''])

end Stablecoin.Text
