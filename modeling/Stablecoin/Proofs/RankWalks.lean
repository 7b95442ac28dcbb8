/-
  Stablecoin theory — walks along a ranking.

  Neighbours are looked up by place, and a walk looks up one neighbour after another.
  In a sound ranking every owner has one place, so that all of this can be read off
  the list of owners: behind `high ++ owner :: low` stands the first of `low`
  (`Sound.next_eq`), before it the last of `high` (`Sound.prev_eq`), so that either
  neighbour is found from the other (`Sound.prev_eq_some_iff_next`), and a walk upward is
  the owner and `high` reversed (`Sound.upwardFrom_eq`).
-/
import Stablecoin.Proofs.Rankings

namespace Stablecoin.Ranking

variable {r : Ranking} {owner other : Address} {high low : List Address}

/-! ## Ends -/

theorem last_eq (r : Ranking) : r.last = r.owners.getLast? := List.getLast?_map.symm

theorem ownerAt_eq (r : Ranking) (place : Nat) : r.ownerAt place = r.owners[place]? :=
  List.getElem?_map.symm

theorem size_eq (r : Ranking) : r.size = r.owners.length := (List.length_map _).symm

theorem exists_last (ho : owner ∈ r.owners) : ∃ last, r.last = some last :=
  ⟨_, (last_eq r).trans (List.getLast?_eq_some_getLast (List.ne_nil_of_mem ho))⟩

/-- Everybody else stands before the last. -/
theorem before_last (hl : r.last = some other) (ho : owner ∈ r.owners) (hne : owner ≠ other) :
    [owner, other].Sublist r.owners := by
  rw [last_eq, List.getLast?_eq_some_iff] at hl
  obtain ⟨init, hinit⟩ := hl
  rw [hinit] at ho ⊢
  rcases List.mem_append.1 ho with ho | ho
  · exact (List.singleton_sublist.2 ho).append_right [other]
  · exact absurd (List.mem_singleton.1 ho) hne

/-! ## Neighbours -/

theorem mem_of_next (h : r.next owner = some other) : other ∈ r.owners := by
  simp only [next, Option.bind_eq_bind, Option.bind_eq_some_iff, ownerAt_eq] at h
  obtain ⟨place, -, h⟩ := h
  exact List.mem_of_getElem? h

theorem before_of_mem (he : r.owners = high ++ owner :: low) (ho : other ∈ high) :
    [other, owner].Sublist r.owners := by
  rw [he, List.append_cons]
  exact ((List.singleton_sublist.2 ho).append_right [owner]).trans (List.sublist_append_left _ _)

namespace Sound

theorem placeOf_of_owners (h : r.Sound) (he : r.owners = high ++ owner :: low) :
    r.placeOf owner = some high.length := by
  obtain ⟨before, rest, hentries, rfl, hrest⟩ := List.map_eq_append_iff.1 he
  obtain ⟨⟨_, ratio⟩, after, rfl, rfl, rfl⟩ := List.map_eq_cons_iff.1 hrest
  rw [h.placeOf_eq hentries, List.length_map]

theorem next_eq (h : r.Sound) (he : r.owners = high ++ owner :: low) :
    r.next owner = low.head? := by
  obtain ⟨before, rest, hentries, rfl, hrest⟩ := List.map_eq_append_iff.1 he
  obtain ⟨⟨_, ratio⟩, after, rfl, rfl, rfl⟩ := List.map_eq_cons_iff.1 hrest
  rw [h.next_entry hentries, List.head?_map]

theorem prev_eq (h : r.Sound) (he : r.owners = high ++ owner :: low) :
    r.prev owner = high.getLast? := by
  simp only [prev, h.placeOf_of_owners he, Option.bind_eq_bind, Option.bind_some]
  cases high using List.reverseRecOn with
  | nil => rfl
  | append_singleton front last =>
    rw [List.length_append, List.length_singleton]
    dsimp only
    rw [ownerAt_eq, he, List.append_assoc, List.getElem?_append_right (Nat.le_refl _), Nat.sub_self,
      List.getLast?_concat]
    rfl

theorem mem_of_placeOf (h : r.Sound) {place : Nat} (hp : r.placeOf owner = some place) :
    owner ∈ r.owners := by
  obtain ⟨ratio, hratio, -⟩ := Option.bind_eq_some_iff.1 hp
  exact h.mem_owners_iff.2 (contains_iff.2 ⟨ratio, hratio⟩)

theorem next_eq_some_iff (h : r.Sound) :
    r.next owner = some other ↔ ∃ high low, r.owners = high ++ owner :: other :: low := by
  constructor
  · intro hn
    obtain ⟨place, hp, -⟩ := Option.bind_eq_some_iff.1 hn
    obtain ⟨high, low, he⟩ := List.append_of_mem (h.mem_of_placeOf hp)
    rw [h.next_eq he, List.head?_eq_some_iff] at hn
    obtain ⟨rest, rfl⟩ := hn
    exact ⟨high, rest, he⟩
  · rintro ⟨high, low, he⟩
    exact h.next_eq he

theorem prev_eq_some_iff (h : r.Sound) :
    r.prev other = some owner ↔ ∃ high low, r.owners = high ++ owner :: other :: low := by
  constructor
  · intro hn
    obtain ⟨place, hp, -⟩ := Option.bind_eq_some_iff.1 hn
    obtain ⟨high, low, he⟩ := List.append_of_mem (h.mem_of_placeOf hp)
    rw [h.prev_eq he, List.getLast?_eq_some_iff] at hn
    obtain ⟨front, rfl⟩ := hn
    exact ⟨front, low, by rw [he, List.append_assoc, List.singleton_append]⟩
  · rintro ⟨high, low, he⟩
    rw [List.append_cons] at he
    rw [h.prev_eq he, List.getLast?_concat]

/-- **Either neighbour is found from the other,** also among equal ratios. -/
theorem prev_eq_some_iff_next (h : r.Sound) :
    r.prev other = some owner ↔ r.next owner = some other :=
  h.prev_eq_some_iff.trans h.next_eq_some_iff.symm

/-- Behind an owner stands who comes after it in the list, and nobody else. -/
theorem before_iff (h : r.Sound) (he : r.owners = high ++ owner :: low) :
    [owner, other].Sublist r.owners ↔ other ∈ low := by
  have hnodup := h.nodup
  rw [he] at hnodup ⊢
  have hfresh : owner ∉ high := by
    intro hm
    exact (List.disjoint_of_nodup_append hnodup) hm List.mem_cons_self
  constructor
  · intro hsub
    obtain ⟨front, back, hpair, hfront, hback⟩ := List.sublist_append_iff.1 hsub
    cases front with
    | nil =>
      rw [List.nil_append] at hpair
      rw [← hpair, List.cons_sublist_cons] at hback
      exact List.singleton_sublist.1 hback
    | cons x front =>
      obtain rfl : owner = x := (List.cons.inj hpair).1
      exact absurd (hfront.subset List.mem_cons_self) hfresh
  · intro hm
    exact ((List.singleton_sublist.2 hm).cons_cons owner).trans (List.sublist_append_right _ _)

/-- Who stands behind the next one stands behind an owner. -/
theorem before_of_next (h : r.Sound) (he : r.owners = high ++ owner :: low) {lower : Address}
    (hn : r.next owner = some lower) (hb : [lower, other].Sublist r.owners) :
    [owner, other].Sublist r.owners := by
  rw [h.next_eq he, List.head?_eq_some_iff] at hn
  obtain ⟨rest, rfl⟩ := hn
  rw [h.before_iff he]
  rw [List.append_cons] at he
  exact List.mem_cons_of_mem _ ((h.before_iff he).1 hb)

/-! ## Walks -/

/-- A walk upward ends with the first owner, or when it has visited as many as it may. -/
theorem upward_eq (h : r.Sound) (he : r.owners = high ++ owner :: low) (most : Nat) :
    r.upward most (some owner) = (owner :: high.reverse).take most := by
  induction most generalizing owner high low with
  | zero => rfl
  | succ most ih =>
    rw [upward, h.prev_eq he, List.take_succ_cons]
    congr 1
    cases high using List.reverseRecOn with
    | nil => cases most <;> rfl
    | append_singleton front last =>
      rw [List.getLast?_concat, List.reverse_append]
      have hlast : r.owners = front ++ last :: owner :: low := by
        rw [he, List.append_assoc]
        rfl
      exact ih hlast

/-- **A walk upward from an owner** visits it and all who stand before it, the nearest first. -/
theorem upwardFrom_eq (h : r.Sound) (he : r.owners = high ++ owner :: low) :
    r.upwardFrom (some owner) = owner :: high.reverse := by
  rw [upwardFrom, h.upward_eq he, size_eq, he]
  refine List.take_of_length_le ?_
  simp only [List.length_append, List.length_cons, List.length_reverse]
  omega

/-- A walk upward from the last owner visits all, or as many as it may. -/
theorem upward_last (h : r.Sound) (most : Nat) :
    r.upward most r.last = r.owners.reverse.take most := by
  rcases hlast : r.last with _ | last
  · rw [last_eq, List.getLast?_eq_none_iff] at hlast
    rw [hlast, List.reverse_nil, List.take_nil]
    cases most <;> rfl
  · rw [last_eq, List.getLast?_eq_some_iff] at hlast
    obtain ⟨init, hinit⟩ := hlast
    rw [h.upward_eq hinit, hinit, List.reverse_append]
    rfl

/-- A walk upward from the last owner visits all. -/
theorem upwardFrom_last (h : r.Sound) : r.upwardFrom r.last = r.owners.reverse := by
  rw [upwardFrom, h.upward_last, size_eq, ← List.length_reverse, List.take_length]

/-- Before an owner of the reversed list stands the one after it there. -/
theorem bind_prev (h : r.Sound) (n : Nat) :
    r.owners.reverse[n]?.bind r.prev = r.owners.reverse[n + 1]? := by
  rcases hn : r.owners.reverse[n]? with _ | owner
  · rw [List.getElem?_eq_none_iff] at hn
    exact (List.getElem?_eq_none (Nat.le_succ_of_le hn)).symm
  · obtain ⟨hlt, howner⟩ := List.getElem?_eq_some_iff.1 hn
    have he : r.owners = (r.owners.reverse.drop (n + 1)).reverse ++
        owner :: (r.owners.reverse.take n).reverse := by
      rw [← List.reverse_inj, List.reverse_append, List.reverse_cons, List.reverse_reverse,
        List.reverse_reverse, List.append_assoc, List.singleton_append, ← howner,
        ← List.drop_eq_getElem_cons hlt, List.take_append_drop]
    rw [Option.bind_some, h.prev_eq he, List.getLast?_reverse, List.head?_drop]

/-- **Step after step from the last owner, a cursor is at each owner once,** the lowest first, and
then at none. -/
theorem iterate_prev (h : r.Sound) (n : Nat) :
    (fun cursor => cursor.bind r.prev)^[n] r.last = r.owners.reverse[n]? := by
  induction n with
  | zero =>
    rw [Function.iterate_zero_apply, last_eq, List.getLast?_eq_head?_reverse,
      List.head?_eq_getElem?]
  | succ n ih => rw [Function.iterate_succ_apply', ih, h.bind_prev]

end Sound

end Stablecoin.Ranking
