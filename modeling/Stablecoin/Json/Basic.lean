/-
  Stablecoin accounting — JSON values.

  A value keeps what its document says: numbers and texts as they are spelled,
  and the entries of an object in order, repeated keys included.  So a reader
  of a type can tell `1` from `1.0`, and refuse a repeated field.

  * `Json.Spelling.text?` is the text that a spelling between quotes stands
    for; a half of a surrogate pair without its other half stands for none;
  * `Json.ofText`, `Json.ofNat` are the values that this library writes;
  * `Json.natural?` is the number that a plain unsigned numeral writes.
-/
import Stablecoin.Hex
import Stablecoin.Amount.Decimal

namespace Stablecoin

/-- A JSON value as its document spells it. -/
inductive Json
  | null
  | bool (value : Bool)
  /-- A number, by its numeral. -/
  | number (numeral : List Char)
  /-- A text, by the characters between its quotes. -/
  | text (spelling : List Char)
  | array (items : List Json)
  /-- An object; each key by the characters between its quotes. -/
  | object (entries : List (List Char × Json))

namespace Json

instance : Inhabited Json := ⟨null⟩

/-! ## Spellings of texts -/

/-- The number that four hexadecimal digits write. -/
def codeUnit? (digits : List Char) : Option Nat :=
  if digits.length = 4 then Hex.number? 0 (Bytes.ofText (String.ofList digits)) else none

/-- The character of a letter after a backslash, where it is one character. -/
def escaped? (c : Char) : Option Char :=
  if c = '"' ∨ c = '\\' ∨ c = '/' then some c
  else if c = 'b' then some '\x08'
  else if c = 'f' then some '\x0c'
  else if c = 'n' then some '\n'
  else if c = 'r' then some '\r'
  else if c = 't' then some '\t'
  else none

/-- The text of a spelling; `high` is a first half of a pair that waits for the second. -/
def unescapeFrom (high : Option Nat) : List Char → Option (List Char)
  | '\\' :: 'u' :: a :: b :: c :: d :: rest =>
    match high, codeUnit? [a, b, c, d] with
    | _, none => none
    | none, some n =>
      if 0xd800 ≤ n ∧ n < 0xdc00 then unescapeFrom (some n) rest
      else if 0xdc00 ≤ n ∧ n < 0xe000 then none
      else (unescapeFrom none rest).map (Char.ofNat n :: ·)
    | some h, some n =>
      if 0xdc00 ≤ n ∧ n < 0xe000 then
        (unescapeFrom none rest).map
          (Char.ofNat (0x10000 + 0x400 * (h - 0xd800) + (n - 0xdc00)) :: ·)
      else none
  | '\\' :: c :: rest =>
    match high, escaped? c with
    | none, some d => (unescapeFrom none rest).map (d :: ·)
    | _, _ => none
  | c :: rest =>
    match high with
    | none => (unescapeFrom none rest).map (c :: ·)
    | some _ => none
  | [] =>
    match high with
    | none => some []
    | some _ => none

/-- The text that a spelling stands for. -/
def textOf? (spelling : List Char) : Option String :=
  (unescapeFrom none spelling).map String.ofList

/-- The spelling of one character. -/
def escape (c : Char) : List Char :=
  if c = '"' ∨ c = '\\' then ['\\', c]
  else if c = '\x08' then ['\\', 'b']
  else if c = '\x0c' then ['\\', 'f']
  else if c = '\n' then ['\\', 'n']
  else if c = '\r' then ['\\', 'r']
  else if c = '\t' then ['\\', 't']
  else if c.toNat < 32 then
    ['\\', 'u', '0', '0', Hex.digit (c.toNat / 16), Hex.digit (c.toNat % 16)]
  else [c]

/-- The spelling of a text. -/
def spell (text : String) : List Char := text.toList.flatMap escape

/-! ## Values of a kind -/

/-- A text as a value. -/
def ofText (text : String) : Json := .text (spell text)

/-- A natural number as a value. -/
def ofNat (n : Nat) : Json := .number (toString n).toList

/-- An object with these fields. -/
def ofFields (fields : List (String × Json)) : Json :=
  .object (fields.map fun (name, value) => (spell name, value))

/-- The number that a numeral without sign, point and exponent writes. -/
def naturalOf? (numeral : List Char) : Option Nat :=
  if numeral = [] then none else Text.number? 0 numeral

/-- The natural number that a value is, written plainly. -/
def natural? : Json → Option Nat
  | .number numeral => naturalOf? numeral
  | _ => none

/-- The text that a value is. -/
def text? : Json → Option String
  | .text spelling => textOf? spelling
  | _ => none

/-- The items of an array. -/
def items? : Json → Option (List Json)
  | .array items => some items
  | _ => none

/-- The entries of an object by the texts of their keys, each of which must stand for one. -/
def entries? : Json → Option (List (String × Json))
  | .object entries => entries.mapM fun (key, value) => (textOf? key).map (·, value)
  | _ => none

end Json

end Stablecoin
