/-
  Stablecoin accounting — writing JSON documents.

  * `Json.line` is a value on one line without blanks;
  * `Json.pages` is a value over many lines, two blanks a level, as saved files
    have it.
-/
import Stablecoin.Json.Basic

namespace Stablecoin.Json

mutual

/-- The value on one line. -/
def line : Json → String
  | .null => "null"
  | .bool b => if b then "true" else "false"
  | .number numeral => String.ofList numeral
  | .text spelling => "\"" ++ String.ofList spelling ++ "\""
  | .array [] => "[]"
  | .array (item :: items) => "[" ++ line item ++ lineItems items ++ "]"
  | .object [] => "\x7b\x7d"
  | .object ((key, value) :: entries) =>
    "\x7b\"" ++ String.ofList key ++ "\":" ++ line value ++ lineEntries entries ++ "\x7d"

/-- The items behind the first one. -/
def lineItems : List Json → String
  | [] => ""
  | item :: items => "," ++ line item ++ lineItems items

/-- The entries behind the first one. -/
def lineEntries : List (List Char × Json) → String
  | [] => ""
  | (key, value) :: entries =>
    ",\"" ++ String.ofList key ++ "\":" ++ line value ++ lineEntries entries

end

/-- The beginning of a line at a level. -/
def margin (level : Nat) : String := "\n" ++ String.ofList (List.replicate (2 * level) ' ')

mutual

/-- The value over many lines, its own lines at `level`. -/
def pagesAt (level : Nat) : Json → String
  | .array (item :: items) =>
    "[" ++ margin (level + 1) ++ pagesAt (level + 1) item ++ pagesItems (level + 1) items ++
      margin level ++ "]"
  | .object ((key, value) :: entries) =>
    "\x7b" ++ margin (level + 1) ++ "\"" ++ String.ofList key ++ "\": " ++
      pagesAt (level + 1) value ++ pagesEntries (level + 1) entries ++ margin level ++ "\x7d"
  | .array [] => "[]"
  | .object [] => "\x7b\x7d"
  | .null => "null"
  | .bool b => if b then "true" else "false"
  | .number numeral => String.ofList numeral
  | .text spelling => "\"" ++ String.ofList spelling ++ "\""

/-- The items behind the first one, a line each. -/
def pagesItems (level : Nat) : List Json → String
  | [] => ""
  | item :: items => "," ++ margin level ++ pagesAt level item ++ pagesItems level items

/-- The entries behind the first one, a line each. -/
def pagesEntries (level : Nat) : List (List Char × Json) → String
  | [] => ""
  | (key, value) :: entries =>
    "," ++ margin level ++ "\"" ++ String.ofList key ++ "\": " ++ pagesAt level value ++
      pagesEntries level entries

end

/-- The value over many lines. -/
def pages (value : Json) : String := pagesAt 0 value

end Stablecoin.Json
