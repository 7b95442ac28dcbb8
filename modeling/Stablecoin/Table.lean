/-
  Stablecoin accounting — tables.

  A table holds at most one value for a key, in the order of the keys; so two
  tables with the same entries are equal.  Keys are ordered by a number that
  tells them apart (`Key.rank`).

  * `Table.get?` is the view of a table; `insert` and `erase` are said by what
    they do to it (`get?_insert`, `get?_erase`);
  * `Table.ofList` enters pairs in turn, so that the last value of a key stays.
-/
import Stablecoin.Address

namespace Stablecoin

/-- A type of keys, ordered by a rank that no two of them share. -/
class Key (κ : Type) where
  rank : κ → Nat
  rank_injective : ∀ {a b : κ}, rank a = rank b → a = b

instance : Key Address := ⟨Address.val, Address.ext⟩

instance : Key UInt64 := ⟨UInt64.toNat, UInt64.toNat.inj⟩

/-- Keys with a value each, in the order of the keys. -/
structure Table (κ ν : Type) [Key κ] where
  entries : List (κ × ν)
  ordered : entries.Pairwise fun a b => Key.rank a.1 < Key.rank b.1

namespace Table

variable {κ ν : Type} [Key κ]

@[ext] theorem ext {s t : Table κ ν} (h : s.entries = t.entries) : s = t := by
  cases s; cases t; cases h; rfl

instance [DecidableEq κ] [DecidableEq ν] : DecidableEq (Table κ ν) := fun s t =>
  decidable_of_iff (s.entries = t.entries) ⟨ext, fun h => h ▸ rfl⟩

/-- The table without entries. -/
def empty : Table κ ν := ⟨[], List.Pairwise.nil⟩

instance : Inhabited (Table κ ν) := ⟨empty⟩

/-! ## Looking up -/

/-- The value of a key in a list of entries. -/
def find? (k : κ) : List (κ × ν) → Option ν
  | [] => none
  | e :: rest => if Key.rank e.1 = Key.rank k then some e.2 else find? k rest

/-- The value of a key. -/
def get? (t : Table κ ν) (k : κ) : Option ν := find? k t.entries

/-- The key has a value. -/
def contains (t : Table κ ν) (k : κ) : Bool := (t.get? k).isSome

/-- The keys, in order. -/
def keys (t : Table κ ν) : List κ := t.entries.map Prod.fst

/-- The values, in the order of their keys. -/
def values (t : Table κ ν) : List ν := t.entries.map Prod.snd

/-- The count of entries. -/
def size (t : Table κ ν) : Nat := t.entries.length

theorem find?_eq_none_of_lt {k : κ} {l : List (κ × ν)}
    (h : ∀ e ∈ l, Key.rank k < Key.rank e.1) : find? k l = none := by
  induction l with
  | nil => rfl
  | cons e rest ih =>
    have he := h e List.mem_cons_self
    rw [find?, if_neg (by omega)]
    exact ih fun x hx => h x (List.mem_cons_of_mem _ hx)

/-! ## Entering -/

/-- The entries with the value of one key replaced or entered. -/
def insertEntry (k : κ) (v : ν) : List (κ × ν) → List (κ × ν)
  | [] => [(k, v)]
  | e :: rest =>
    if Key.rank k < Key.rank e.1 then (k, v) :: e :: rest
    else if Key.rank k = Key.rank e.1 then (k, v) :: rest
    else e :: insertEntry k v rest

theorem mem_insertEntry {k : κ} {v : ν} {l : List (κ × ν)} {e : κ × ν}
    (h : e ∈ insertEntry k v l) : e = (k, v) ∨ e ∈ l := by
  induction l with
  | nil => simpa [insertEntry] using h
  | cons x rest ih =>
    rw [insertEntry] at h
    split at h
    · simpa using h
    · split at h
      · exact (List.mem_cons.1 h).imp_right (List.mem_cons_of_mem _)
      · rcases List.mem_cons.1 h with h | h
        · exact Or.inr (h ▸ List.mem_cons_self)
        · exact (ih h).imp_right (List.mem_cons_of_mem _)

theorem ordered_insertEntry (k : κ) (v : ν) {l : List (κ × ν)}
    (h : l.Pairwise fun a b => Key.rank a.1 < Key.rank b.1) :
    (insertEntry k v l).Pairwise fun a b => Key.rank a.1 < Key.rank b.1 := by
  induction l with
  | nil => simp [insertEntry]
  | cons e rest ih =>
    have ⟨he, hr⟩ := List.pairwise_cons.1 h
    rw [insertEntry]
    split
    · next hlt =>
      refine List.pairwise_cons.2 ⟨fun x hx => ?_, h⟩
      rcases List.mem_cons.1 hx with hx | hx
      · exact hx ▸ hlt
      · exact Nat.lt_trans hlt (he x hx)
    · split
      · next heq => exact List.pairwise_cons.2 ⟨fun x hx => heq ▸ he x hx, hr⟩
      · next hge hne =>
        refine List.pairwise_cons.2 ⟨fun x hx => ?_, ih hr⟩
        rcases mem_insertEntry hx with hx | hx
        · subst hx
          show Key.rank e.1 < Key.rank k
          omega
        · exact he x hx

/-- The table with the value of one key replaced or entered. -/
def insert (t : Table κ ν) (k : κ) (v : ν) : Table κ ν :=
  ⟨insertEntry k v t.entries, ordered_insertEntry k v t.ordered⟩

/-- The table that holds the pairs, of equal keys the last one. -/
def ofList (pairs : List (κ × ν)) : Table κ ν :=
  pairs.foldl (fun t e => t.insert e.1 e.2) empty

theorem find?_insertEntry (k : κ) (v : ν) (l : List (κ × ν)) (j : κ) :
    find? j (insertEntry k v l) = if Key.rank k = Key.rank j then some v else find? j l := by
  induction l with
  | nil => rfl
  | cons e rest ih =>
    rw [insertEntry]
    split
    · rfl
    · split
      · next h =>
        simp only [find?]
        split
        · rfl
        · next hj => rw [if_neg (h ▸ hj)]
      · simp only [find?, ih]
        split <;> split <;> simp_all

/-- **What entering does:** the key has the value, and other keys keep theirs. -/
theorem get?_insert (t : Table κ ν) (k : κ) (v : ν) (j : κ) :
    (t.insert k v).get? j = if Key.rank k = Key.rank j then some v else t.get? j :=
  find?_insertEntry k v t.entries j

/-! ## Erasing -/

/-- The table without the key. -/
def erase (t : Table κ ν) (k : κ) : Table κ ν :=
  ⟨t.entries.filter fun e => Key.rank e.1 != Key.rank k, t.ordered.filter _⟩

theorem find?_filter_ne (k : κ) (l : List (κ × ν)) (j : κ) :
    find? j (l.filter fun e => Key.rank e.1 != Key.rank k) =
      if Key.rank k = Key.rank j then none else find? j l := by
  induction l with
  | nil => simp [find?]
  | cons e rest ih =>
    rw [List.filter_cons]
    by_cases h : Key.rank e.1 = Key.rank k
    · rw [if_neg (by simp [h]), ih, find?]
      by_cases hk : Key.rank k = Key.rank j
      · rw [if_pos hk, if_pos hk]
      · rw [if_neg hk, if_neg hk, if_neg (h ▸ hk)]
    · rw [if_pos (by simp [h]), find?, find?, ih]
      by_cases hk : Key.rank k = Key.rank j
      · rw [if_pos hk, if_neg (hk ▸ h)]
        rw [if_pos hk]
      · rw [if_neg hk, if_neg hk]

/-- **What erasing does:** the key has no value, and other keys keep theirs. -/
theorem get?_erase (t : Table κ ν) (k j : κ) :
    (t.erase k).get? j = if Key.rank k = Key.rank j then none else t.get? j :=
  find?_filter_ne k t.entries j

end Table

end Stablecoin
