/-
  Stablecoin accounting — the ranking of troves.

  Active troves are ranked by nominal ratio, the best first.  Liquidation and
  redemption walk from the last place upwards.  Callers may hint at the
  neighbours of a place; hints that do not hold are passed over.

  * `Ranking.entries` is the order, `Ranking.ratios` the ratio of each trove;
  * `Ranking.insert` puts a trove behind those of at least its ratio, or between
    neighbours that were rightly hinted at;
  * `Ranking.upwardFrom` walks from one trove towards the first, and `Ranking.gather` only until it
    has as many as it may.
-/
import Stablecoin.Form.Leaf
import Stablecoin.Form.Record

namespace Stablecoin

/-! ## Search -/

/-- Narrows the search to `size` places from `base` on, by halves. -/
def partitionFrom {α : Type} (before : α → Bool) (xs : List α) (base size : Nat) : Nat :=
  if size ≤ 1 then
    match xs[base]? with
    | some x => if before x then base + 1 else base
    | none => base
  else
    let half := size / 2
    let middle := base + half
    match xs[middle]? with
    | some x => partitionFrom before xs (if before x then middle else base) (size - half)
    | none => base
termination_by size
decreasing_by omega

/-- The first place whose item is not `before`, in a list where those that are come first. -/
def partitionPoint {α : Type} (before : α → Bool) (xs : List α) : Nat :=
  if xs.isEmpty then 0 else partitionFrom before xs 0 xs.length

/-! ## Rankings -/

/-- The neighbours that a caller expects around a place. -/
structure Hints where
  /-- The neighbour with the higher ratio. -/
  prev : Option Address
  /-- The neighbour with the lower ratio. -/
  next : Option Address
deriving DecidableEq

/-- No expectation. -/
def Hints.none : Hints := ⟨Option.none, Option.none⟩

/-- The hints as a record. -/
def Hints.form : Form Hints :=
  .record
    (.field "prev" (.option Address.form) <| .field "next" (.option Address.form) .done)
    (fun h => (h.prev, h.next, ())) (fun (prev, next, _) => ⟨prev, next⟩)

/-- Troves in the order of their ratios. -/
structure Ranking where
  /-- Owners with their ratios, the highest first. -/
  entries : List (Address × Amount)
  /-- The ratio of each owner. -/
  ratios : Table Address Amount
deriving DecidableEq

namespace Ranking

/-- No troves. -/
def empty : Ranking := ⟨[], .empty⟩

instance : Inhabited Ranking := ⟨empty⟩

/-- The ranking as a record. -/
def form : Form Ranking :=
  .record
    (.field "entries" (.seq (.pair Address.form Amount.form)) <|
      .field "keys" (Form.table Address.key Amount.form) .done)
    (fun r => (r.entries, r.ratios, ())) (fun (entries, ratios, _) => ⟨entries, ratios⟩)

/-! ## Places -/

/-- The owners from the first to the last. -/
def owners (r : Ranking) : List Address := r.entries.map Prod.fst

/-- The count of troves. -/
def size (r : Ranking) : Nat := r.entries.length

/-- The ratio of an owner. -/
def ratioOf (r : Ranking) (owner : Address) : Option Amount := r.ratios.get? owner

/-- The owner is ranked. -/
def contains (r : Ranking) (owner : Address) : Bool := r.ratios.contains owner

/-- The owner of the highest ratio. -/
def first (r : Ranking) : Option Address := r.entries.head?.map Prod.fst

/-- The owner of the lowest ratio. -/
def last (r : Ranking) : Option Address := r.entries.getLast?.map Prod.fst

/-- The owner at a place. -/
def ownerAt (r : Ranking) (place : Nat) : Option Address := r.entries[place]?.map Prod.fst

/-- The place of an owner: searched by the ratio, then among equal ratios. -/
def placeOf (r : Ranking) (owner : Address) : Option Nat := do
  let ratio ← r.ratioOf owner
  let start := partitionPoint (fun e => ratio < e.2) r.entries
  let peers := (r.entries.drop start).takeWhile fun e => e.2 = ratio
  let offset ← peers.findIdx? fun e => e.1 = owner
  return start + offset

/-- The neighbour with the next lower ratio. -/
def next (r : Ranking) (owner : Address) : Option Address := do
  r.ownerAt ((← r.placeOf owner) + 1)

/-- The neighbour with the next higher ratio. -/
def prev (r : Ranking) (owner : Address) : Option Address := do
  match ← r.placeOf owner with
  | 0 => none
  | place + 1 => r.ownerAt place

/-! ## Walking -/

/-- The owners from this one towards the first, at most so many. -/
def upward (r : Ranking) : Nat → Option Address → List Address
  | 0, _ => []
  | _, none => []
  | most + 1, some owner => owner :: r.upward most (r.prev owner)

/-- The owners from this one towards the first. -/
def upwardFrom (r : Ranking) (start : Option Address) : List Address := r.upward r.size start

/-- The owners from this one towards the first, at most so many, and not the first itself if that is
left out. -/
def gather (r : Ranking) (withoutFirst : Bool) : Nat → Option Address → List Address
  | 0, _ => []
  | _ + 1, none => []
  | most + 1, some owner =>
    if withoutFirst = true ∧ r.first = some owner then []
    else owner :: r.gather withoutFirst most (r.prev owner)

/-! ## Inserting -/

/-- The ratio of the owner satisfies the condition. -/
def ratioSatisfies (r : Ranking) (owner : Address) (condition : Amount → Bool) : Bool :=
  (r.ratioOf owner).any condition

/-- The neighbours stand side by side with the ratio between theirs; a missing one stands for
the end of the ranking on its side. -/
def isPlaceFor (r : Ranking) (ratio : Amount) (hints : Hints) : Bool :=
  match hints.prev, hints.next with
  | none, none => r.entries.isEmpty
  | none, some low => r.first = some low && r.ratioSatisfies low fun k => k ≤ ratio
  | some high, none => r.last = some high && r.ratioSatisfies high fun k => ratio ≤ k
  | some high, some low =>
    r.next high = some low && r.ratioSatisfies high (fun k => ratio ≤ k) &&
      r.ratioSatisfies low fun k => k ≤ ratio

/-- The owners on both sides of a place. -/
def neighbours (r : Ranking) (place : Nat) : Hints where
  prev := if place = 0 then none else r.ownerAt (place - 1)
  next := r.ownerAt place

/-- The neighbours between which a ratio belongs: those hinted at if they hold, otherwise those
behind all troves of at least the ratio. -/
def placeFor (r : Ranking) (ratio : Amount) (hints : Hints) : Hints :=
  if r.isPlaceFor ratio hints then hints
  else r.neighbours (partitionPoint (fun e => ratio ≤ e.2) r.entries)

/-- The ranking with one more trove. -/
def insert (r : Ranking) (owner : Address) (ratio : Amount) (hints : Hints) : Attempt Ranking := do
  demand (r.contains owner = false) (.troveAlreadyActive owner)
  demand (ratio ≠ 0) (.invalidParameter "nicr" "must be positive")
  let place :=
    match (r.placeFor ratio hints).next with
    | some low => (r.placeOf low).getD r.size
    | none => r.size
  return ⟨r.entries.take place ++ (owner, ratio) :: r.entries.drop place,
    r.ratios.insert owner ratio⟩

/-- The ranking without a trove. -/
def remove (r : Ranking) (owner : Address) : Attempt Ranking := do
  let place ← demandSome (.troveNotFound owner) (r.placeOf owner)
  return ⟨r.entries.eraseIdx place, r.ratios.erase owner⟩

/-- The ranking with a trove at the place of a new ratio.  If it finds no place there, it has
lost its old one. -/
def reinsert (r : Ranking) (owner : Address) (ratio : Amount) (hints : Hints) :
    Attempt Unit × Ranking :=
  match r.remove owner with
  | .error stop => (.error stop, r)
  | .ok without => settle without (without.insert owner ratio hints)

end Ranking

end Stablecoin
