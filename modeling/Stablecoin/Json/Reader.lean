/-
  Stablecoin accounting — reading JSON documents.

  A document is one value with blanks around it.  The reader takes the strict
  grammar: no comments, no trailing commas, no leading zeros, no raw control
  characters in a text.

  * `Json.ofDocument?` is the value of a document, and nothing where the text
    is no document;
  * each reader of a part returns the part with the text behind it; a reader
    of a value that nests takes the depth it may still go to as its first
    argument, and the length of the document is always enough.
-/
import Stablecoin.Json.Basic

namespace Stablecoin.Json

/-! ## Leaves -/

/-- The four blanks of the format. -/
def isSpace (c : Char) : Bool := c == ' ' || c == '\n' || c == '\t' || c == '\r'

/-- The text without the blanks at its beginning. -/
def skipSpace (text : List Char) : List Char := text.dropWhile isSpace

/-- The text behind a given word. -/
def afterWord? (word text : List Char) : Option (List Char) :=
  if word.isPrefixOf text then some (text.drop word.length) else none

/-- The character is an ASCII digit. -/
def isDigit (c : Char) : Bool := (Text.digit? c).isSome

/-- One digit or more, and the text behind them. -/
def digits? (text : List Char) : Option (List Char × List Char) :=
  match text.takeWhile isDigit with
  | [] => none
  | ds => some (ds, text.dropWhile isDigit)

/-- The whole part of a numeral: zero, or digits that do not begin with zero. -/
def wholePart? (text : List Char) : Option (List Char × List Char) := do
  let (ds, rest) ← digits? text
  if ds.head? = some '0' ∧ ds.length ≠ 1 then none else some (ds, rest)

/-- The decimal places of a numeral with their point, if there is a point. -/
def places? : List Char → Option (List Char × List Char)
  | '.' :: rest => (digits? rest).map fun (ds, behind) => ('.' :: ds, behind)
  | whole => some ([], whole)

/-- The exponent of a numeral, if there is one. -/
def exponent? : List Char → Option (List Char × List Char)
  | [] => some ([], [])
  | e :: rest =>
    if e = 'e' ∨ e = 'E' then
      match rest with
      | [] => none
      | sign :: behind =>
        if sign = '+' ∨ sign = '-' then
          (digits? behind).map fun (ds, behind) => (e :: sign :: ds, behind)
        else (digits? rest).map fun (ds, behind) => (e :: ds, behind)
    else some ([], e :: rest)

/-- A numeral. -/
def numeral? (text : List Char) : Option (List Char × List Char) := do
  let (sign, text) := if text.head? = some '-' then (['-'], text.drop 1) else ([], text)
  let (whole, text) ← wholePart? text
  let (places, text) ← places? text
  let (exponent, text) ← exponent? text
  some (sign ++ whole ++ places ++ exponent, text)

/-- The spelling of a text behind its opening quote, and what is behind the closing one. -/
def spelling? : List Char → Option (List Char × List Char)
  | [] => none
  | '"' :: rest => some ([], rest)
  | '\\' :: 'u' :: a :: b :: c :: d :: rest =>
    if (codeUnit? [a, b, c, d]).isSome then
      (spelling? rest).map fun (s, behind) => ('\\' :: 'u' :: a :: b :: c :: d :: s, behind)
    else none
  | '\\' :: c :: rest =>
    if (escaped? c).isSome then
      (spelling? rest).map fun (s, behind) => ('\\' :: c :: s, behind)
    else none
  | c :: rest =>
    if c.toNat < 32 ∨ c = '\\' then none
    else (spelling? rest).map fun (s, behind) => (c :: s, behind)

/-! ## Values -/

mutual

/-- A value, with blanks before it. -/
def value? : Nat → List Char → Option (Json × List Char)
  | 0, _ => none
  | depth + 1, source =>
    match skipSpace source with
    | [] => none
    | c :: rest =>
      if c = '"' then (spelling? rest).map fun (s, behind) => (.text s, behind)
      else if c = '[' then
        match skipSpace rest with
        | ']' :: behind => some (.array [], behind)
        | _ => (elements? depth rest).map fun (items, behind) => (.array items, behind)
      else if c = '\x7b' then
        match skipSpace rest with
        | '\x7d' :: behind => some (.object [], behind)
        | _ => (members? depth rest).map fun (entries, behind) => (.object entries, behind)
      else if c = 'n' then (afterWord? ['u', 'l', 'l'] rest).map (.null, ·)
      else if c = 't' then (afterWord? ['r', 'u', 'e'] rest).map (.bool true, ·)
      else if c = 'f' then (afterWord? ['a', 'l', 's', 'e'] rest).map (.bool false, ·)
      else (numeral? (c :: rest)).map fun (n, behind) => (.number n, behind)

/-- The items of an array from the first one on, through the closing bracket. -/
def elements? : Nat → List Char → Option (List Json × List Char)
  | 0, _ => none
  | depth + 1, source => do
    let (item, rest) ← value? depth source
    match skipSpace rest with
    | ',' :: behind => (elements? depth behind).map fun (items, behind) => (item :: items, behind)
    | ']' :: behind => some ([item], behind)
    | _ => none

/-- The entries of an object from the first one on, through the closing brace. -/
def members? : Nat → List Char → Option (List (List Char × Json) × List Char)
  | 0, _ => none
  | depth + 1, source =>
    match skipSpace source with
    | '"' :: rest => do
      let (key, rest) ← spelling? rest
      match skipSpace rest with
      | ':' :: rest => do
        let (value, rest) ← value? depth rest
        match skipSpace rest with
        | ',' :: behind =>
          (members? depth behind).map fun (entries, behind) => ((key, value) :: entries, behind)
        | '\x7d' :: behind => some ([(key, value)], behind)
        | _ => none
      | _ => none
    | _ => none

end

/-- The value of a document. -/
def ofDocument? (document : String) : Option Json := do
  let text := document.toList
  let (value, rest) ← value? (text.length + 1) text
  if skipSpace rest = [] then some value else none

end Stablecoin.Json
