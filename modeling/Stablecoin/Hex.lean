/-
  Stablecoin accounting — hexadecimal text.

  Two digits a byte, lower case when written, either case when read.

  * `Hex.encode` writes bytes, `Hex.decode` reads the bytes of a text;
  * `Hex.Fault` says why a text is no such writing: an odd count of digits is
    found first, then the earliest byte that is no digit;
  * `Hex.digits` writes one number, `Hex.number?` reads it, and
    `Hex.spacedNumber?` reads it with blanks between its digits.
-/
import Stablecoin.Bytes

namespace Stablecoin.Hex

/-! ## Digits -/

/-- The digit for a number below sixteen, in lower case. -/
def digit (n : Nat) : Char :=
  if n < 10 then Char.ofNat (48 + n) else Char.ofNat (87 + n)

/-- The number that a byte stands for as a digit of either case. -/
def value? (b : UInt8) : Option Nat :=
  if 48 ≤ b.toNat ∧ b.toNat ≤ 57 then some (b.toNat - 48)
  else if 97 ≤ b.toNat ∧ b.toNat ≤ 102 then some (b.toNat - 87)
  else if 65 ≤ b.toNat ∧ b.toNat ≤ 70 then some (b.toNat - 55)
  else none

/-! ## Byte strings -/

/-- The two digits of each byte in turn. -/
def encode (bytes : Bytes) : String :=
  String.ofList (bytes.flatMap fun b => [digit (b.toNat / 16), digit (b.toNat % 16)])

/-- Why a text writes no bytes. -/
inductive Fault
  /-- The digits do not pair up. -/
  | oddLength
  /-- The byte at this place is no digit. -/
  | notDigit (byte : UInt8) (place : Nat)
deriving DecidableEq

/-- Reads pairs of digits from `place` on. -/
def pairs (place : Nat) : Bytes → Except Fault Bytes
  | [] => .ok []
  | [_] => .error .oddLength
  | high :: low :: rest =>
    match value? high, value? low with
    | none, _ => .error (.notDigit high place)
    | some _, none => .error (.notDigit low (place + 1))
    | some h, some l =>
      match pairs (place + 2) rest with
      | .error fault => .error fault
      | .ok bytes => .ok (UInt8.ofNat (16 * h + l) :: bytes)

/-- The bytes that a text writes, given as its own bytes. -/
def decode (text : Bytes) : Except Fault Bytes :=
  if text.length % 2 = 0 then pairs 0 text else .error .oddLength

/-! ## Numbers -/

/-- The digits of a number, without leading zeros; zero is one digit. -/
def digits (n : Nat) : List Char :=
  if n < 16 then [digit n] else digits (n / 16) ++ [digit (n % 16)]

/-- The number that the digits write after those read so far. -/
def number? (acc : Nat) : Bytes → Option Nat
  | [] => some acc
  | b :: rest =>
    match value? b with
    | none => none
    | some d => number? (16 * acc + d) rest

/-- A blank that may stand among digits: space, tab, line feed or carriage return. -/
def isBlank (b : UInt8) : Bool := b == 32 || b == 9 || b == 10 || b == 13

/-- The number that digits and blanks write.  Digits go in pairs, and whether the first has a
partner is told from the whole text, blanks included; so with an odd count of blanks it is the
last digit that has none, and it does not count. -/
def spacedNumber? (text : Bytes) : Option Nat :=
  (number? 0 (text.filter fun b => !isBlank b)).map fun n =>
    if text.countP isBlank % 2 = 0 then n else n / 16

end Stablecoin.Hex
