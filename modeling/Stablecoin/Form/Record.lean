/-
  Stablecoin accounting — written forms of records and of alternatives.

  * `Fields τ` lists named fields whose values form the nested pair `τ`;
    `Form.record` turns it into the form of a structure.  In JSON a record is an
    object, in which unknown fields are ignored and no known one may be
    repeated, or the array of its fields in order.  In bytes it is its fields
    one behind the other.
  * `Form.alternatives` is the form of an inductive type: in JSON an object
    whose single field is named for the alternative, in bytes its place in four
    bytes and then its payload.  `Form.names` is the same for alternatives that
    carry nothing, which in JSON may stand as a text.
-/
import Stablecoin.Form.Basic

namespace Stablecoin

/-! ## Records -/

/-- The named fields of a record, in order; `τ` is the nested pair of their values. -/
structure Fields (τ : Type) where
  names : List String
  toEntries : τ → List (String × Json)
  ofEntries? : (String → Option Json) → Option τ
  ofItems? : List Json → Option τ
  toBytes : τ → Bytes
  ofBytes? : Bytes → Option (τ × Bytes)

namespace Fields

variable {α τ : Type}

/-- No more fields. -/
def done : Fields Unit where
  names := []
  toEntries _ := []
  ofEntries? _ := some ()
  ofItems? items := if items.isEmpty then some () else none
  toBytes _ := []
  ofBytes? bytes := some ((), bytes)

/-- A field and then others.  In an array it must be there. -/
def field (name : String) (form : Form α) (more : Fields τ) : Fields (α × τ) where
  names := name :: more.names
  toEntries x := (name, form.toJson x.1) :: more.toEntries x.2
  ofEntries? lookup := do
    let a ← match lookup name with
      | some value => form.ofJson? value
      | none => form.absent?
    some (a, ← more.ofEntries? lookup)
  ofItems?
    | value :: items => do some (← form.ofJson? value, ← more.ofItems? items)
    | [] => none
  toBytes x := form.toBytes x.1 ++ more.toBytes x.2
  ofBytes? bytes := do
    let (a, rest) ← form.ofBytes? bytes
    let (x, rest) ← more.ofBytes? rest
    some ((a, x), rest)

/-- A field that takes a value of its own where it is left out, also at the end of an array. -/
def fieldOr (name : String) (form : Form α) (value : α) (more : Fields τ) : Fields (α × τ) :=
  let given := field name { form with absent? := some value } more
  { given with
    ofItems?
      | [] => do some (value, ← more.ofItems? [])
      | items => given.ofItems? items }

end Fields

namespace Form

variable {α τ : Type}

/-- The value of the field of this name. -/
def lookup (entries : List (String × Json)) (name : String) : Option Json :=
  (entries.find? fun e => e.1 == name).map Prod.snd

/-- No two of the entries have the same name out of `names`. -/
def distinct (names : List String) (entries : List (String × Json)) : Bool :=
  names.all fun name => (entries.countP fun e => e.1 == name) ≤ 1

/-- The form of a structure, by its fields and the way to and from their values. -/
def record (fields : Fields τ) (view : α → τ) (make : τ → α) : Form α where
  toJson a := .ofFields (fields.toEntries (view a))
  ofJson?
    | .array items => (fields.ofItems? items).map make
    | value => do
      let entries ← value.entries?
      if distinct fields.names entries then
        (fields.ofEntries? (lookup entries)).map make
      else none
  toBytes a := fields.toBytes (view a)
  ofBytes? bytes := (fields.ofBytes? bytes).map fun (x, rest) => (make x, rest)

/-! ## Alternatives -/

/-- The single entry of an object. -/
def single? (value : Json) : Option (String × Json) :=
  match value.entries? with
  | some [entry] => some entry
  | _ => none

/-- One alternative of an inductive type, with the form of what it carries. -/
structure Alternative (α : Type) where
  name : String
  /-- What the alternative carries, if the value is of it, as JSON. -/
  toJson? : α → Option Json
  ofJson? : Json → Option α
  toBytes? : α → Option Bytes
  ofBytes? : Bytes → Option (α × Bytes)

/-- The alternative with this name and form of what it carries. -/
def Alternative.carrying {π : Type} (name : String) (form : Form π) (make : π → α)
    (view? : α → Option π) : Alternative α where
  name := name
  toJson? a := (view? a).map form.toJson
  ofJson? value := (form.ofJson? value).map make
  toBytes? a := (view? a).map form.toBytes
  ofBytes? bytes := (form.ofBytes? bytes).map fun (p, rest) => (make p, rest)

/-- The alternative with this name and fields. -/
def Alternative.of {τ : Type} (name : String) (fields : Fields τ) (make : τ → α)
    (view? : α → Option τ) : Alternative α :=
  carrying name (record fields id id) make view?

/-- The name of the alternative that the value is of. -/
def chosenName (cases : List (Alternative α)) (a : α) : String :=
  ((cases.find? fun c => (c.toJson? a).isSome).map Alternative.name).getD ""

/-- The name and payload of the alternative that the value is of. -/
def chosenJson (cases : List (Alternative α)) (a : α) : Json :=
  match cases.findSome? fun c => (c.toJson? a).map fun payload => (c.name, payload) with
  | some entry => .ofFields [entry]
  | none => .null

/-- The place, counted from `place`, and payload of the alternative that the value is of. -/
def chosenBytes (a : α) (place : Nat) : List (Alternative α) → Bytes
  | [] => []
  | c :: cases =>
    match c.toBytes? a with
    | some payload => Bytes.little 4 place ++ payload
    | none => chosenBytes a (place + 1) cases

/-- The form of an inductive type, by its alternatives in order. -/
def alternatives (cases : List (Alternative α)) : Form α where
  toJson := chosenJson cases
  ofJson? value := do
    let (name, payload) ← single? value
    let c ← cases.find? fun c => c.name == name
    c.ofJson? payload
  toBytes a := chosenBytes a 0 cases
  ofBytes? bytes := do
    let (place, rest) ← takeNumber 4 bytes
    let c ← cases[place]?
    c.ofBytes? rest

/-- The name of a value in a list of all of them. -/
def nameIn [DecidableEq α] (cases : List (String × α)) (a : α) : String :=
  ((cases.find? fun c => c.2 = a).map Prod.fst).getD ""

/-- The place of a value in a list of all of them. -/
def placeIn [DecidableEq α] (cases : List (String × α)) (a : α) : Nat :=
  cases.findIdx fun c => c.2 = a

/-- The form of alternatives that carry nothing, by their names in order. -/
def names [DecidableEq α] (cases : List (String × α)) : Form α where
  toJson a := .ofText (nameIn cases a)
  ofJson? value := do
    let name ← match value with
      | .text _ => value.text?
      | _ =>
        match single? value with
        | some (name, .null) => some name
        | _ => none
    (cases.find? fun c => c.1 == name).map Prod.snd
  toBytes a := Bytes.little 4 (placeIn cases a)
  ofBytes? bytes := do
    let (place, rest) ← takeNumber 4 bytes
    let c ← cases[place]?
    some (c.2, rest)

end Form

end Stablecoin
