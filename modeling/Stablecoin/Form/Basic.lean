/-
  Stablecoin accounting — written forms.

  A `Form α` says how an `α` is written, once for both formats: as a JSON value,
  and as bytes.  Forms of larger types are put together from those of their
  parts, so a type lists its fields a single time (`Stablecoin.Form.Record`).

  * In bytes, words are eight bytes with the least significant first, texts and
    sequences are preceded by their length, and an optional value by a mark of
    one byte.  `ofBytes?` takes its value from the front and leaves the rest.
  * `Form.Lossless` says that what is written in bytes is read back, whatever
    follows it; it holds of each form here if it holds of the parts.
-/
import Stablecoin.Json.Reader
import Stablecoin.Table

namespace Stablecoin

/-- How the values of a type are written. -/
structure Form (α : Type) where
  /-- The value as JSON. -/
  toJson : α → Json
  /-- The value that JSON writes. -/
  ofJson? : Json → Option α
  /-- The value as bytes. -/
  toBytes : α → Bytes
  /-- The value at the front of the bytes, and the bytes behind it. -/
  ofBytes? : Bytes → Option (α × Bytes)
  /-- The value of a field that an object leaves out, if it may. -/
  absent? : Option α := none

namespace Form

variable {α β κ ν : Type}

/-- What is written in bytes is read back, whatever follows it. -/
def Lossless (form : Form α) : Prop :=
  ∀ (a : α) (rest : Bytes), form.ofBytes? (form.toBytes a ++ rest) = some (a, rest)

/-! ## Words and texts -/

/-- The number in the first `width` bytes, least significant first. -/
def takeNumber (width : Nat) (bytes : Bytes) : Option (Nat × Bytes) :=
  if width ≤ bytes.length then some (Bytes.ofLittle (bytes.take width), bytes.drop width)
  else none

theorem takeNumber_little {width n : Nat} (h : n < Nat.pow 256 width) (rest : Bytes) :
    takeNumber width (Bytes.little width n ++ rest) = some (n, rest) := by
  have hl := Bytes.length_little width n
  rw [takeNumber, if_pos (by simp), List.take_left' hl, List.drop_left' hl,
    Bytes.ofLittle_little h]

/-- A 64-bit word: a plain numeral. -/
def word : Form UInt64 where
  toJson n := .ofNat n.toNat
  ofJson? value := value.natural?.bind fun n =>
    if n < UInt64.size then some (UInt64.ofNat n) else none
  toBytes n := Bytes.little 8 n.toNat
  ofBytes? bytes := (takeNumber 8 bytes).map fun (n, rest) => (UInt64.ofNat n, rest)

/-- A truth value; in bytes, one byte. -/
def flag : Form Bool where
  toJson := .bool
  ofJson?
    | .bool b => some b
    | _ => none
  toBytes b := [if b then 1 else 0]
  ofBytes?
    | 0 :: rest => some (false, rest)
    | 1 :: rest => some (true, rest)
    | _ => none

/-- A text. -/
def text : Form String where
  toJson := .ofText
  ofJson? := Json.text?
  toBytes s := Bytes.little 8 (Bytes.ofText s).length ++ Bytes.ofText s
  ofBytes? bytes := do
    let (length, rest) ← takeNumber 8 bytes
    if length ≤ rest.length then
      some (← Bytes.toText? (rest.take length), rest.drop length)
    else none

/-- A value that is written as a text of its own. -/
def spelled (print : α → String) (read : String → Option α) : Form α where
  toJson a := text.toJson (print a)
  ofJson? value := (text.ofJson? value).bind read
  toBytes a := text.toBytes (print a)
  ofBytes? bytes := do
    let (s, rest) ← text.ofBytes? bytes
    some (← read s, rest)

/-! ## Sequences and options -/

/-- Reads `count` values one behind the other. -/
def takeMany (take : Bytes → Option (α × Bytes)) : Nat → Bytes → Option (List α × Bytes)
  | 0, bytes => some ([], bytes)
  | count + 1, bytes => do
    let (a, rest) ← take bytes
    let (more, rest) ← takeMany take count rest
    some (a :: more, rest)

/-- Values one behind the other. -/
def seq (form : Form α) : Form (List α) where
  toJson xs := .array (xs.map form.toJson)
  ofJson? value := value.items?.bind fun items => items.mapM form.ofJson?
  toBytes xs := Bytes.little 8 xs.length ++ xs.flatMap form.toBytes
  ofBytes? bytes := do
    let (count, rest) ← takeNumber 8 bytes
    takeMany form.ofBytes? count rest

/-- A value or none; a field that is left out has none. -/
def option (form : Form α) : Form (Option α) where
  toJson
    | none => .null
    | some a => form.toJson a
  ofJson?
    | .null => some none
    | value => (form.ofJson? value).map some
  toBytes
    | none => [0]
    | some a => 1 :: form.toBytes a
  ofBytes?
    | 0 :: rest => some (none, rest)
    | 1 :: rest => (form.ofBytes? rest).map fun (a, rest) => (some a, rest)
    | _ => none
  absent? := some none

/-- Two values. -/
def pair (first : Form α) (second : Form β) : Form (α × β) where
  toJson x := .array [first.toJson x.1, second.toJson x.2]
  ofJson?
    | .array [a, b] => do some (← first.ofJson? a, ← second.ofJson? b)
    | _ => none
  toBytes x := first.toBytes x.1 ++ second.toBytes x.2
  ofBytes? bytes := do
    let (a, rest) ← first.ofBytes? bytes
    let (b, rest) ← second.ofBytes? rest
    some ((a, b), rest)

/-! ## Tables -/

/-- How keys are written: in bytes as values are, in JSON between the quotes of a field name. -/
structure OfKey (κ : Type) where
  form : Form κ
  spelling : κ → List Char
  ofSpelling? : List Char → Option κ

/-- A key that is a text of its own. -/
def keyOfText (print : κ → String) (read : String → Option κ) : OfKey κ where
  form := spelled print read
  spelling k := Json.spell (print k)
  ofSpelling? s := (Json.textOf? s).bind read

/-- A key that is a word: its numeral, without an escape. -/
def keyOfWord : OfKey UInt64 where
  form := word
  spelling n := (toString n.toNat).toList
  ofSpelling? s :=
    match Json.wholePart? s with
    | some (numeral, []) => word.ofJson? (.number numeral)
    | _ => none

/-- A table: an object, or pairs one behind the other; of a repeated key the last value stays. -/
def table [Key κ] (key : OfKey κ) (value : Form ν) : Form (Table κ ν) where
  toJson t := .object (t.entries.map fun e => (key.spelling e.1, value.toJson e.2))
  ofJson?
    | .object entries =>
      (entries.mapM fun (k, v) => do some (← key.ofSpelling? k, ← value.ofJson? v)).map
        Table.ofList
    | _ => none
  toBytes t := (seq (pair key.form value)).toBytes t.entries
  ofBytes? bytes := ((seq (pair key.form value)).ofBytes? bytes).map fun (pairs, rest) =>
    (Table.ofList pairs, rest)

/-- A set, as the sequence of its members. -/
def members [Key κ] (form : Form κ) : Form (Table κ Unit) where
  toJson t := (seq form).toJson t.keys
  ofJson? value := ((seq form).ofJson? value).map fun ks => Table.ofList (ks.map (·, ()))
  toBytes t := (seq form).toBytes t.keys
  ofBytes? bytes := ((seq form).ofBytes? bytes).map fun (ks, rest) =>
    (Table.ofList (ks.map (·, ())), rest)

/-! ## Losslessness -/

theorem lossless_word : word.Lossless := by
  intro n rest
  have h : n.toNat < Nat.pow 256 8 := n.toNat_lt
  simp [word, takeNumber_little h]

end Form

end Stablecoin
