/-
  Stablecoin theory — sums over tables.

  Most books of this library are kept twice: entry by entry in a table, and as
  one number that is moved along with each entry.  The two are compared through
  `Table.sum`, of which it is enough to know what entering and erasing do to it
  (`sum_insert`, `sum_erase`).
-/
import Mathlib
import Stablecoin.Table

namespace Stablecoin.Table

variable {κ ν M : Type} [Key κ]

/-- The sum of a measure over the values of a table. -/
def sum [AddCommMonoid M] (f : ν → M) (t : Table κ ν) : M := (t.values.map f).sum

/-- The measure of the value of a key, zero where it has none. -/
def part [AddCommMonoid M] (f : ν → M) (t : Table κ ν) (k : κ) : M := ((t.get? k).map f).getD 0

/-! ## Entries -/

theorem find?_eq_some_of_mem {k : κ} {v : ν} {l : List (κ × ν)}
    (h : l.Pairwise fun a b => Key.rank a.1 < Key.rank b.1) (hm : (k, v) ∈ l) :
    find? k l = some v := by
  induction l with
  | nil => cases hm
  | cons e rest ih =>
    obtain ⟨he, hr⟩ := List.pairwise_cons.1 h
    rw [find?]
    rcases List.mem_cons.1 hm with rfl | hm
    · exact if_pos rfl
    · rw [if_neg (Nat.ne_of_lt (he _ hm))]
      exact ih hr hm

theorem mem_of_find?_eq_some {k : κ} {v : ν} {l : List (κ × ν)} (h : find? k l = some v) :
    (k, v) ∈ l := by
  induction l with
  | nil => cases h
  | cons e rest ih =>
    rw [find?] at h
    split at h
    · next hk => rw [← Option.some.inj h, ← Key.rank_injective hk]; exact List.mem_cons_self
    · exact List.mem_cons_of_mem _ (ih h)

theorem get?_eq_some_iff {t : Table κ ν} {k : κ} {v : ν} :
    t.get? k = some v ↔ (k, v) ∈ t.entries :=
  ⟨mem_of_find?_eq_some, find?_eq_some_of_mem t.ordered⟩

theorem mem_values_iff {t : Table κ ν} {v : ν} : v ∈ t.values ↔ ∃ k, t.get? k = some v := by
  simp [values, get?_eq_some_iff]

theorem keys_nodup (t : Table κ ν) : t.keys.Nodup := by
  refine List.pairwise_map.2 (t.ordered.imp ?_)
  intro a b hlt heq
  rw [heq] at hlt
  exact Nat.lt_irrefl _ hlt

/-- A table is told by what it says of every key. -/
theorem eq_of_get? {s t : Table κ ν} (h : ∀ k, s.get? k = t.get? k) : s = t := by
  have hmem : ∀ e, e ∈ s.entries ↔ e ∈ t.entries := by
    rintro ⟨k, v⟩
    rw [← get?_eq_some_iff, h, get?_eq_some_iff]
  have hperm : s.entries.Perm t.entries :=
    (List.perm_ext_iff_of_nodup s.keys_nodup.of_map t.keys_nodup.of_map).2 hmem
  apply ext
  refine hperm.eq_of_pairwise ?_ s.ordered t.ordered
  intro a b _ _ hab hba
  omega

theorem rank_eq_iff {k j : κ} : Key.rank k = Key.rank j ↔ k = j :=
  ⟨fun h => Key.rank_injective h, congrArg _⟩

theorem get?_insert_of [DecidableEq κ] (t : Table κ ν) (k : κ) (v : ν) (j : κ) :
    (t.insert k v).get? j = if j = k then some v else t.get? j := by
  simp only [get?_insert, rank_eq_iff, eq_comm]

theorem get?_erase_of [DecidableEq κ] (t : Table κ ν) (k j : κ) :
    (t.erase k).get? j = if j = k then none else t.get? j := by
  simp only [get?_erase, rank_eq_iff, eq_comm]

/-- Different keys can be entered in either order. -/
theorem insert_comm [DecidableEq κ] (t : Table κ ν) {j k : κ} (h : j ≠ k) (v w : ν) :
    (t.insert j v).insert k w = (t.insert k w).insert j v := by
  apply eq_of_get?
  intro i
  simp only [get?_insert_of]
  by_cases hj : i = j
  · subst hj
    rw [if_neg h, if_pos rfl, if_pos rfl]
  · simp only [if_neg hj]

/-- What is entered last stays. -/
theorem insert_insert [DecidableEq κ] (t : Table κ ν) (k : κ) (v w : ν) :
    (t.insert k v).insert k w = t.insert k w := by
  apply eq_of_get?
  intro i
  simp only [get?_insert_of]
  by_cases hk : i = k
  · simp only [if_pos hk]
  · simp only [if_neg hk]

/-- Nothing changes where a key is given the value that it has. -/
theorem insert_get? [DecidableEq κ] {t : Table κ ν} {k : κ} {v : ν} (h : t.get? k = some v) :
    t.insert k v = t := by
  apply eq_of_get?
  intro i
  rw [get?_insert_of]
  split
  · next hi => rw [hi, h]
  · rfl

/-! ## Sums -/

variable [AddCommMonoid M] (f : ν → M)

@[simp] theorem sum_empty : (empty : Table κ ν).sum f = 0 := rfl

theorem sum_insertEntry (k : κ) (v : ν) {l : List (κ × ν)}
    (h : l.Pairwise fun a b => Key.rank a.1 < Key.rank b.1) :
    ((insertEntry k v l).map fun e => f e.2).sum + ((find? k l).map f).getD 0 =
      (l.map fun e => f e.2).sum + f v := by
  induction l with
  | nil => simp [insertEntry, find?]
  | cons e rest ih =>
    obtain ⟨he, hr⟩ := List.pairwise_cons.1 h
    rw [insertEntry]
    split
    · next hlt =>
      have hn : find? k (e :: rest) = none := by
        apply find?_eq_none_of_lt
        intro x hx
        rcases List.mem_cons.1 hx with rfl | hx
        · exact hlt
        · exact hlt.trans (he x hx)
      simp [hn, add_comm]
    · split
      · next heq => simp [find?, heq, add_comm, add_left_comm]
      · next hne =>
        rw [find?, if_neg (Ne.symm hne), List.map_cons, List.map_cons, List.sum_cons, List.sum_cons,
          add_assoc, ih hr, add_assoc]

/-- **What entering does to a sum:** the value comes in, and the former value of its key goes. -/
theorem sum_insert (t : Table κ ν) (k : κ) (v : ν) :
    (t.insert k v).sum f + t.part f k = t.sum f + f v := by
  simpa [sum, values, insert, part, get?, Function.comp_def] using sum_insertEntry f k v t.ordered

theorem sum_filter_ne (k : κ) {l : List (κ × ν)}
    (h : l.Pairwise fun a b => Key.rank a.1 < Key.rank b.1) :
    ((l.filter fun e => Key.rank e.1 != Key.rank k).map fun e => f e.2).sum +
      ((find? k l).map f).getD 0 = (l.map fun e => f e.2).sum := by
  induction l with
  | nil => simp [find?]
  | cons e rest ih =>
    obtain ⟨he, hr⟩ := List.pairwise_cons.1 h
    rw [List.filter_cons, find?]
    by_cases hk : Key.rank e.1 = Key.rank k
    · have hn : find? k rest = none := by
        apply find?_eq_none_of_lt
        intro x hx
        exact hk ▸ he x hx
      have ih := ih hr
      rw [hn] at ih
      rw [if_neg (by simp [hk]), if_pos hk, List.map_cons, List.sum_cons, ← ih]
      simp [add_comm]
    · rw [if_pos (by simp [hk]), if_neg hk, List.map_cons, List.map_cons, List.sum_cons,
        List.sum_cons, add_assoc, ih hr]

/-- **What erasing does to a sum:** the value of the key goes. -/
theorem sum_erase (t : Table κ ν) (k : κ) : (t.erase k).sum f + t.part f k = t.sum f := by
  simpa [sum, values, erase, part, get?, Function.comp_def] using sum_filter_ne f k t.ordered

theorem sum_le_sum [PartialOrder M] [IsOrderedAddMonoid M] {g : ν → M} {t : Table κ ν}
    (h : ∀ k v, t.get? k = some v → f v ≤ g v) : t.sum f ≤ t.sum g := by
  apply List.sum_le_sum
  intro v hv
  obtain ⟨k, hk⟩ := mem_values_iff.1 hv
  exact h k v hk

theorem sum_singleton (k : κ) (v : ν) : ((empty : Table κ ν).insert k v).sum f = f v := by
  have h := sum_insert f empty k v
  rwa [sum_empty, zero_add, show part f empty k = 0 from rfl, add_zero] at h

theorem mul_sum {R : Type} [NonUnitalNonAssocSemiring R] (g : ν → R) (t : Table κ ν) (c : R) :
    (t.sum fun v => c * g v) = c * t.sum g := List.sum_map_mul_left _ _ _

theorem cast_sum {R : Type} [AddCommMonoidWithOne R] (g : ν → ℕ) (t : Table κ ν) :
    (t.sum fun v => (g v : R)) = ((t.sum g : ℕ) : R) := by
  unfold sum
  rw [Nat.cast_list_sum, List.map_map]
  rfl

theorem sum_congr {g : ν → M} {t : Table κ ν} (h : ∀ k v, t.get? k = some v → f v = g v) :
    t.sum f = t.sum g := by
  unfold sum
  congr 1
  apply List.map_congr_left
  intro v hv
  obtain ⟨k, hk⟩ := mem_values_iff.1 hv
  exact h k v hk

theorem sum_add (g : ν → M) (t : Table κ ν) : (t.sum fun v => f v + g v) = t.sum f + t.sum g :=
  List.sum_map_add

theorem sum_eq_zero {t : Table κ ν} (h : ∀ k v, t.get? k = some v → f v = 0) : t.sum f = 0 := by
  apply List.sum_eq_zero
  intro x hx
  obtain ⟨v, hv, rfl⟩ := List.mem_map.1 hx
  obtain ⟨k, hk⟩ := mem_values_iff.1 hv
  exact h k v hk

theorem sum_nonneg [PartialOrder M] [IsOrderedAddMonoid M] {t : Table κ ν}
    (h : ∀ k v, t.get? k = some v → 0 ≤ f v) : 0 ≤ t.sum f := by
  apply List.sum_nonneg
  intro x hx
  obtain ⟨v, hv, rfl⟩ := List.mem_map.1 hx
  obtain ⟨k, hk⟩ := mem_values_iff.1 hv
  exact h k v hk

theorem part_le_sum [PartialOrder M] [IsOrderedAddMonoid M] {t : Table κ ν}
    (h : ∀ k v, t.get? k = some v → 0 ≤ f v) (k : κ) : t.part f k ≤ t.sum f := by
  rw [← sum_erase f t k]
  apply le_add_of_nonneg_left
  apply sum_nonneg
  intro j v hj
  rw [get?_erase] at hj
  split at hj
  · cases hj
  · exact h j v hj

end Stablecoin.Table
