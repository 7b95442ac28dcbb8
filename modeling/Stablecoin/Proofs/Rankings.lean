/-
  Stablecoin theory — sound rankings.

  A ranking is *sound* if its ratios never rise from one place to the next, no
  owner has two places, and the table of ratios says the same as the places
  (`Ranking.Sound`).  In a sound ranking every ranked owner is found
  (`Sound.placeOf_eq`), although only ratios are searched for; whatever neighbours
  a caller hints at, a trove is inserted where its ratio belongs
  (`Sound.exists_insert`); and a ranking stays sound
  (`Sound.insert_ok`, `Sound.remove_ok`).  It lists its ratios in one sequence only,
  though owners of equal ratios may change places (`Sound.ratios_eq`).
-/
import Stablecoin.Proofs.Arithmetic
import Stablecoin.Proofs.Totals
import Stablecoin.Ranking

namespace Stablecoin

/-! ## Search -/

section

variable {α : Type} {before : α → Bool} {xs : List α}

/-- The search keeps the point that it looks for between its bounds. -/
theorem partitionFrom_eq {point base size : Nat}
    (hpoint : ∀ i x, xs[i]? = some x → (before x = true ↔ i < point)) (h0 : 0 < size)
    (hlength : base + size ≤ xs.length) (hlow : base ≤ point) (hhigh : point ≤ base + size) :
    partitionFrom before xs base size = point := by
  induction size using Nat.strong_induction_on generalizing base with
  | _ size ih =>
    rw [partitionFrom]
    split
    · obtain ⟨x, hx⟩ : ∃ x, xs[base]? = some x := ⟨_, List.getElem?_eq_getElem (by omega)⟩
      have hbase := hpoint base x hx
      rw [hx]
      dsimp only
      split
      · next hb =>
        have := hbase.1 hb
        omega
      · next hb =>
        rw [hbase] at hb
        omega
    · next hsize =>
      obtain ⟨x, hx⟩ : ∃ x, xs[base + size / 2]? = some x :=
        ⟨_, List.getElem?_eq_getElem (by omega)⟩
      have hmiddle := hpoint _ x hx
      dsimp only
      rw [hx]
      dsimp only
      apply ih _ (by omega) (by omega)
      · split <;> omega
      · split
        · next hb => exact Nat.le_of_lt (hmiddle.1 hb)
        · exact hlow
      · split
        · omega
        · next hb =>
          rw [hmiddle] at hb
          omega

/-- The point is where the items end that come first. -/
theorem partitionPoint_append {high low : List α} (hhigh : ∀ x ∈ high, before x = true)
    (hlow : ∀ x ∈ low, before x = false) :
    partitionPoint before (high ++ low) = high.length := by
  unfold partitionPoint
  split
  · next he =>
    rw [List.isEmpty_iff, List.append_eq_nil_iff] at he
    rw [he.1, List.length_nil]
  · next he =>
    refine partitionFrom_eq ?_ (List.length_pos_iff.2 (by simpa using he)) (by omega) (by omega)
      (by simp)
    intro i x hx
    rw [List.getElem?_append] at hx
    split at hx
    · next hi => exact iff_of_true (hhigh x (List.mem_of_getElem? hx)) hi
    · next hi =>
      refine iff_of_false ?_ hi
      rw [hlow x (List.mem_of_getElem? hx)]
      exact Bool.false_ne_true

/-- A list can be cut where a property ends that is inherited towards the front. -/
theorem exists_cut (h : xs.Pairwise fun x y => before y = true → before x = true) :
    ∃ high low, xs = high ++ low ∧ (∀ x ∈ high, before x = true) ∧
      ∀ x ∈ low, before x = false := by
  induction xs with
  | nil => exact ⟨[], [], rfl, nofun, nofun⟩
  | cons x rest ih =>
    obtain ⟨hx, hrest⟩ := List.pairwise_cons.1 h
    cases hb : before x with
    | true =>
      obtain ⟨high, low, rfl, hhigh, hlow⟩ := ih hrest
      exact ⟨x :: high, low, rfl, List.forall_mem_cons.2 ⟨hb, hhigh⟩, hlow⟩
    | false =>
      refine ⟨[], x :: rest, rfl, nofun, List.forall_mem_cons.2 ⟨hb, ?_⟩⟩
      intro y hy
      rw [Bool.eq_false_iff]
      intro hy'
      rw [hx y hy hy'] at hb
      cases hb

end

namespace Ranking

variable {r r' : Ranking} {owner : Address} {ratio : Amount} {hints : Hints}

/-- The places are in the order of the ratios, and the table agrees with them. -/
structure Sound (r : Ranking) : Prop where
  sorted : r.entries.Pairwise fun a b => b.2 ≤ a.2
  nodup : r.owners.Nodup
  ratioOf_iff : ∀ owner ratio, r.ratioOf owner = some ratio ↔ (owner, ratio) ∈ r.entries

theorem sound_empty : empty.Sound := ⟨.nil, .nil, fun _ _ => ⟨nofun, nofun⟩⟩

/-- Whoever stands before another has at least the ratio. -/
theorem Sound.le_of_before {a b : Address} (h : r.Sound) (hab : [a, b].Sublist r.owners) :
    ∃ ra rb, r.ratioOf a = some ra ∧ r.ratioOf b = some rb ∧ rb ≤ ra := by
  obtain ⟨pair, hpair, hmap⟩ := List.sublist_map_iff.1 hab
  obtain ⟨⟨_, ra⟩, _, rfl, rfl, hrest⟩ := List.map_eq_cons_iff.1 hmap.symm
  obtain ⟨⟨_, rb⟩, _, rfl, rfl, hnil⟩ := List.map_eq_cons_iff.1 hrest
  obtain rfl := List.map_eq_nil_iff.1 hnil
  have hle : rb ≤ ra := List.rel_of_pairwise_cons (h.sorted.sublist hpair) List.mem_cons_self
  refine ⟨ra, rb, (h.ratioOf_iff _ _).2 (hpair.subset ?_), (h.ratioOf_iff _ _).2 (hpair.subset ?_), hle⟩
  · exact List.mem_cons_self
  · exact List.mem_cons_of_mem _ List.mem_cons_self

theorem contains_iff : r.contains owner = true ↔ ∃ ratio, r.ratioOf owner = some ratio :=
  Option.isSome_iff_exists

theorem contains_eq_false_iff : r.contains owner = false ↔ r.ratioOf owner = none :=
  Option.isSome_eq_false_iff.trans Option.isNone_iff_eq_none

namespace Sound

/-! ## Finding -/

theorem cut (h : r.Sound) {p : Amount → Bool} (hp : ∀ a b : Amount, b ≤ a → p b = true → p a = true) :
    ∃ high low, r.entries = high ++ low ∧ (∀ e ∈ high, p e.2 = true) ∧
      ∀ e ∈ low, p e.2 = false :=
  exists_cut (h.sorted.imp fun hle => hp _ _ hle)

/-- What stands before and behind an entry. -/
theorem around {before after : List (Address × Amount)} (h : r.Sound)
    (he : r.entries = before ++ (owner, ratio) :: after) :
    (∀ e ∈ before, ratio ≤ e.2) ∧ (∀ e ∈ after, e.2 ≤ ratio) ∧
      (∀ e ∈ before, e.1 ≠ owner) ∧ ∀ e ∈ after, e.1 ≠ owner := by
  have hsorted := h.sorted
  have hnodup := h.nodup
  rw [he] at hsorted
  rw [owners, he, List.map_append, List.map_cons] at hnodup
  obtain ⟨-, hafter, hbefore⟩ := List.pairwise_append.1 hsorted
  obtain ⟨-, hafter', hbefore'⟩ := List.nodup_append.1 hnodup
  refine ⟨fun e hm => hbefore e hm _ List.mem_cons_self, (List.pairwise_cons.1 hafter).1, ?_, ?_⟩
  · intro e hm
    exact hbefore' e.1 (List.mem_map_of_mem hm) owner List.mem_cons_self
  · intro e hm heq
    exact (List.nodup_cons.1 hafter').1 (List.mem_map.2 ⟨e, hm, heq⟩)

/-- **A ranked owner is found:** the search by ratio ends at the first of equal ratios, and the
owner is among these. -/
theorem placeOf_eq {before after : List (Address × Amount)} (h : r.Sound)
    (he : r.entries = before ++ (owner, ratio) :: after) : r.placeOf owner = some before.length := by
  obtain ⟨hbefore, hafter, hother, -⟩ := h.around he
  have hratio : r.ratioOf owner = some ratio := (h.ratioOf_iff _ _).2 (by simp [he])
  have hsorted := h.sorted
  rw [he] at hsorted
  obtain ⟨high, peers, rfl, hhigh, hpeers⟩ : ∃ high peers, before = high ++ peers ∧
      (∀ e ∈ high, decide (ratio < e.2) = true) ∧ ∀ e ∈ peers, decide (ratio < e.2) = false :=
    exists_cut ((List.pairwise_append.1 hsorted).1.imp (by
      intro a b hle
      simp only [decide_eq_true_eq, Amount.lt_iff_val_lt, Amount.le_iff_val_le] at hle ⊢
      omega))
  -- the peers are those with the same ratio, among which the owner is the first of that name
  have hequal : ∀ e ∈ peers, e.2 = ratio := by
    intro e hm
    have hle := hbefore e (List.mem_append_right _ hm)
    have hnot := hpeers e hm
    simp only [decide_eq_false_iff_not, Amount.lt_iff_val_lt, Amount.le_iff_val_le] at hle hnot
    exact Amount.ext (by omega)
  have hstart : partitionPoint (fun e => decide (ratio < e.2)) r.entries = high.length := by
    rw [he, List.append_assoc]
    refine partitionPoint_append hhigh ?_
    intro e hm
    rw [decide_eq_false_iff_not, Amount.lt_iff_val_lt, Nat.not_lt]
    rcases List.mem_append.1 hm with hm | hm
    · exact Nat.le_of_eq (congrArg Amount.val (hequal e hm))
    rcases List.mem_cons.1 hm with rfl | hm
    · exact Nat.le_refl _
    · exact hafter e hm
  have htake : ∀ e ∈ peers, decide (e.2 = ratio) = true := fun e hm =>
    decide_eq_true (hequal e hm)
  have hfind : ∀ e ∈ peers, decide (e.1 = owner) = false := fun e hm =>
    decide_eq_false (hother e (List.mem_append_right _ hm))
  simp only [placeOf, hratio, Option.bind_eq_bind, Option.bind_some, hstart]
  rw [he, List.append_assoc, List.drop_left, List.takeWhile_append_of_pos htake,
    List.takeWhile_cons_of_pos (by simp), List.findIdx?_append,
    List.findIdx?_eq_none_iff.2 hfind, List.findIdx?_cons]
  simp

theorem exists_around (h : r.Sound) (hr : r.ratioOf owner = some ratio) :
    ∃ before after, r.entries = before ++ (owner, ratio) :: after ∧
      r.placeOf owner = some before.length := by
  obtain ⟨before, after, he⟩ := List.append_of_mem ((h.ratioOf_iff _ _).1 hr)
  exact ⟨before, after, he, h.placeOf_eq he⟩

end Sound

/-! ## Inserting -/

/-- The place in front of an owner, or the end. -/
def frontOf (r : Ranking) : Option Address → Nat
  | some low => (r.placeOf low).getD r.size
  | none => r.size

/-- The place at which a trove is inserted. -/
def placed (r : Ranking) (ratio : Amount) (hints : Hints) : Nat :=
  r.frontOf (r.placeFor ratio hints).next

/-- A place with at least the ratio before it, and at most the ratio behind. -/
def Fits (r : Ranking) (ratio : Amount) (place : Nat) : Prop :=
  ∃ before after, r.entries = before ++ after ∧ place = before.length ∧
    (∀ e ∈ before, ratio ≤ e.2) ∧ ∀ e ∈ after, e.2 ≤ ratio

/-- The neighbours of a place are the last one before it and the first one behind. -/
theorem neighbours_eq {before after : List (Address × Amount)} (he : r.entries = before ++ after) :
    r.neighbours before.length =
      ⟨before.getLast?.map Prod.fst, after.head?.map Prod.fst⟩ := by
  have hnext : r.ownerAt before.length = after.head?.map Prod.fst := by
    rw [ownerAt, he, List.getElem?_append_right (Nat.le_refl _), Nat.sub_self,
      List.head?_eq_getElem?]
  unfold neighbours
  rw [hnext]
  cases before using List.reverseRecOn with
  | nil => rfl
  | append_singleton front e =>
    rw [List.length_append, List.length_singleton, if_neg (Nat.succ_ne_zero _),
      Nat.add_sub_cancel, ownerAt, he, List.append_assoc,
      List.getElem?_append_right (Nat.le_refl _), Nat.sub_self, List.getLast?_concat]
    rfl

namespace Sound

theorem ratioSatisfies_iff {before after : List (Address × Amount)} {condition : Amount → Bool}
    (h : r.Sound) (he : r.entries = before ++ (owner, ratio) :: after) :
    r.ratioSatisfies owner condition = condition ratio := by
  have hratio : r.ratioOf owner = some ratio := (h.ratioOf_iff _ _).2 (by simp [he])
  rw [ratioSatisfies, hratio, Option.any_some]

/-- Behind an entry stands the next one. -/
theorem next_entry {before after : List (Address × Amount)} (h : r.Sound)
    (he : r.entries = before ++ (owner, ratio) :: after) :
    r.next owner = after.head?.map Prod.fst := by
  simp only [next, h.placeOf_eq he, Option.bind_eq_bind, Option.bind_some, ownerAt, he]
  rw [List.getElem?_append_right (by omega), Nat.add_sub_cancel_left, List.getElem?_cons_succ,
    List.head?_eq_getElem?]

theorem fits_before {before after : List (Address × Amount)} {low : Address} {k : Amount}
    (h : r.Sound) (he : r.entries = before ++ (low, k) :: after) (hk : k ≤ ratio)
    (hbefore : ∀ e ∈ before, ratio ≤ e.2) : r.Fits ratio before.length := by
  refine ⟨before, (low, k) :: after, he, rfl, hbefore, List.forall_mem_cons.2 ⟨hk, ?_⟩⟩
  intro e hm
  exact Nat.le_trans ((h.around he).2.1 e hm) hk

theorem forall_le_append {front : List (Address × Amount)} {high : Address} {k : Amount}
    {rest : List (Address × Amount)} (h : r.Sound) (he : r.entries = front ++ (high, k) :: rest)
    (hk : ratio ≤ k) : ∀ e ∈ front ++ [(high, k)], ratio ≤ e.2 := by
  refine List.forall_mem_append.2 ⟨?_, List.forall_mem_singleton.2 hk⟩
  intro e hm
  exact Nat.le_trans hk ((h.around he).1 e hm)

/-- Neighbours that hold stand on both sides of a place that fits. -/
theorem exists_fits (h : r.Sound) (hp : r.isPlaceFor ratio hints = true) :
    ∃ place, r.Fits ratio place ∧ r.neighbours place = hints := by
  obtain ⟨_ | high, _ | low⟩ := hints
  · have he : r.entries = [] ++ [] := List.isEmpty_iff.1 hp
    exact ⟨0, ⟨[], [], he, rfl, nofun, nofun⟩, neighbours_eq he⟩
  · simp only [isPlaceFor, Bool.and_eq_true, decide_eq_true_eq] at hp
    obtain ⟨hfirst, hk⟩ := hp
    obtain ⟨⟨_, k⟩, hhead, rfl⟩ := Option.map_eq_some_iff.1 hfirst
    obtain ⟨rest, he⟩ : ∃ rest, r.entries = [] ++ (_, k) :: rest :=
      List.head?_eq_some_iff.1 hhead
    rw [h.ratioSatisfies_iff he, decide_eq_true_eq] at hk
    exact ⟨_, h.fits_before he hk nofun, neighbours_eq he⟩
  · simp only [isPlaceFor, Bool.and_eq_true, decide_eq_true_eq] at hp
    obtain ⟨hlast, hk⟩ := hp
    obtain ⟨⟨last, k⟩, hend, rfl⟩ := Option.map_eq_some_iff.1 hlast
    obtain ⟨front, he⟩ := List.getLast?_eq_some_iff.1 hend
    rw [h.ratioSatisfies_iff he, decide_eq_true_eq] at hk
    have hall := h.forall_le_append he hk
    have hcut : r.entries = (front ++ [(last, k)]) ++ [] := by rw [he, List.append_nil]
    refine ⟨_, ⟨_, _, hcut, rfl, hall, nofun⟩, ?_⟩
    rw [neighbours_eq hcut, List.getLast?_concat]
    rfl
  · simp only [isPlaceFor, Bool.and_eq_true, decide_eq_true_eq] at hp
    obtain ⟨⟨hneighbour, hhigh⟩, hlow⟩ := hp
    obtain ⟨k, hk, hkratio⟩ := (Option.any_eq_true _ _).1 hhigh
    rw [decide_eq_true_eq] at hkratio
    obtain ⟨front, behind, he, -⟩ := h.exists_around hk
    rw [h.next_entry he] at hneighbour
    obtain ⟨⟨_, k'⟩, hhead, rfl⟩ := Option.map_eq_some_iff.1 hneighbour
    obtain ⟨rest, rfl⟩ := List.head?_eq_some_iff.1 hhead
    have hall := h.forall_le_append he hkratio
    rw [List.append_cons] at he
    rw [h.ratioSatisfies_iff he, decide_eq_true_eq] at hlow
    refine ⟨_, h.fits_before he hlow hall, ?_⟩
    rw [neighbours_eq he, List.getLast?_concat]
    rfl

/-- The neighbours of a place that fits hold. -/
theorem isPlaceFor_neighbours (h : r.Sound) {place : Nat} (hf : r.Fits ratio place) :
    r.isPlaceFor ratio (r.neighbours place) = true := by
  obtain ⟨before, after, he, rfl, hbefore, hafter⟩ := hf
  rw [neighbours_eq he]
  cases before using List.reverseRecOn with
  | nil =>
    cases after with
    | nil => exact List.isEmpty_iff.2 he
    | cons e rest =>
      have hk := hafter e List.mem_cons_self
      have hfirst : r.first = some e.1 := by rw [first, he]; rfl
      simp [isPlaceFor, hfirst, h.ratioSatisfies_iff he, hk]
  | append_singleton front e =>
    have hk := hbefore e (List.mem_append_right _ List.mem_cons_self)
    cases after with
    | nil =>
      rw [List.append_nil] at he
      have hlast : r.last = some e.1 := by rw [last, he, List.getLast?_concat]; rfl
      simp [isPlaceFor, hlast, h.ratioSatisfies_iff he, hk]
    | cons e' rest =>
      have hk' := hafter e' List.mem_cons_self
      have he' : r.entries = front ++ e :: e' :: rest := by rw [he, ← List.append_cons]
      simp [isPlaceFor, h.next_entry he', h.ratioSatisfies_iff he, h.ratioSatisfies_iff he', hk,
        hk']

/-- Behind all troves of at least a ratio, the ratio fits. -/
theorem fits_searched (h : r.Sound) :
    r.Fits ratio (partitionPoint (fun e => decide (ratio ≤ e.2)) r.entries) := by
  obtain ⟨high, low, he, hhigh, hlow⟩ := h.cut (p := fun k => decide (ratio ≤ k)) (by
    intro a b hle hb
    rw [decide_eq_true_eq] at hb ⊢
    exact Nat.le_trans hb hle)
  refine ⟨high, low, he, ?_, ?_, ?_⟩
  · rw [he]
    exact partitionPoint_append hhigh hlow
  · intro e hm
    exact decide_eq_true_eq.mp (hhigh e hm)
  · intro e hm
    have hnot := hlow e hm
    rw [decide_eq_false_iff_not, Amount.le_iff_val_le, Nat.not_le] at hnot
    exact Nat.le_of_lt hnot

/-- **Neighbours that are found hold,** whether they were hinted at or searched for. -/
theorem isPlaceFor_placeFor (h : r.Sound) (ratio : Amount) (hints : Hints) :
    r.isPlaceFor ratio (r.placeFor ratio hints) = true := by
  unfold placeFor
  split
  · next hp => exact hp
  · exact h.isPlaceFor_neighbours h.fits_searched

/-- The place of the lower neighbour is the place between both. -/
theorem frontOf_neighbours {before after : List (Address × Amount)} (h : r.Sound)
    (he : r.entries = before ++ after) :
    r.frontOf (r.neighbours before.length).next = before.length := by
  rw [neighbours_eq he]
  cases after with
  | nil =>
    rw [List.append_nil] at he
    exact congrArg List.length he
  | cons e rest =>
    show (r.placeOf e.1).getD r.size = _
    rw [h.placeOf_eq he]
    rfl

/-- **A trove is inserted where its ratio belongs,** between the neighbours that are found for it,
whatever neighbours are hinted at. -/
theorem exists_insert (h : r.Sound) (hc : r.ratioOf owner = none) (h0 : ratio ≠ 0) (hints : Hints) :
    ∃ before after, r.entries = before ++ after ∧
      r.placeFor ratio hints = r.neighbours before.length ∧
      (∀ e ∈ before, ratio ≤ e.2) ∧ (∀ e ∈ after, e.2 ≤ ratio) ∧
      r.insert owner ratio hints =
        .ok ⟨before ++ (owner, ratio) :: after, r.ratios.insert owner ratio⟩ := by
  obtain ⟨_, ⟨before, after, he, rfl, hbefore, hafter⟩, hfound⟩ :=
    h.exists_fits (h.isPlaceFor_placeFor ratio hints)
  refine ⟨before, after, he, hfound.symm, hbefore, hafter, ?_⟩
  have hplace : r.placed ratio hints = before.length := by
    rw [placed, ← hfound, h.frontOf_neighbours he]
  have hentries : r.entries.take (r.placed ratio hints) ++
      (owner, ratio) :: r.entries.drop (r.placed ratio hints) =
        before ++ (owner, ratio) :: after := by
    rw [hplace, he, List.take_left, List.drop_left]
  unfold insert
  rw [demand_eq_ok_iff.2 (contains_eq_false_iff.2 hc), demand_eq_ok_iff.2 h0]
  exact congrArg (fun entries => Except.ok (Ranking.mk entries _)) hentries

theorem spliced {before after : List (Address × Amount)} (h : r.Sound)
    (he : r.entries = before ++ after) (hc : r.ratioOf owner = none)
    (hbefore : ∀ e ∈ before, ratio ≤ e.2) (hafter : ∀ e ∈ after, e.2 ≤ ratio) :
    (Ranking.mk (before ++ (owner, ratio) :: after) (r.ratios.insert owner ratio)).Sound := by
  have hmissing : ∀ k, (owner, k) ∉ r.entries := by
    intro k hm
    rw [(h.ratioOf_iff _ _).2 hm] at hc
    cases hc
  refine ⟨?_, ?_, ?_⟩
  · have hsorted := h.sorted
    rw [he] at hsorted
    obtain ⟨hb, ha, hacross⟩ := List.pairwise_append.1 hsorted
    refine List.pairwise_append.2 ⟨hb, List.pairwise_cons.2 ⟨hafter, ha⟩, ?_⟩
    intro a hma b hmb
    rcases List.mem_cons.1 hmb with rfl | hmb
    · exact hbefore a hma
    · exact hacross a hma b hmb
  · have hnodup := h.nodup
    have hnot : owner ∉ r.owners := by
      intro hm
      obtain ⟨⟨_, k⟩, hentry, rfl⟩ := List.mem_map.1 hm
      exact hmissing k hentry
    rw [owners, he, List.map_append] at hnodup hnot
    rw [owners, List.map_append, List.map_cons]
    exact List.nodup_middle.2 (List.nodup_cons.2 ⟨hnot, hnodup⟩)
  · intro other k
    have hmem : (other, k) ∈ before ++ (owner, ratio) :: after ↔
        (other = owner ∧ k = ratio) ∨ (other, k) ∈ r.entries := by
      rw [he, List.mem_append, List.mem_cons, List.mem_append, Prod.mk.injEq]
      tauto
    rw [ratioOf, Table.get?_insert_of, hmem]
    split
    · next ho =>
      subst ho
      simp [hmissing, eq_comm]
    · next ho =>
      rw [← h.ratioOf_iff]
      simp [ho, ratioOf]

theorem cut_out {before after : List (Address × Amount)} (h : r.Sound)
    (he : r.entries = before ++ (owner, ratio) :: after) :
    (Ranking.mk (before ++ after) (r.ratios.erase owner)).Sound := by
  obtain ⟨-, -, hbefore, hafter⟩ := h.around he
  have hsub : (before ++ after).Sublist r.entries := by
    rw [he]
    exact List.Sublist.append_left (List.sublist_cons_self _ _) _
  refine ⟨h.sorted.sublist hsub, h.nodup.sublist (hsub.map _), ?_⟩
  intro other k
  rw [ratioOf, Table.get?_erase_of]
  split
  · next ho =>
    subst ho
    refine ⟨nofun, ?_⟩
    intro hm
    rcases List.mem_append.1 hm with hm | hm
    · exact absurd rfl (hbefore _ hm)
    · exact absurd rfl (hafter _ hm)
  · next ho =>
    refine (h.ratioOf_iff other k).trans ?_
    rw [he]
    simp [ho]

theorem insert_ok (h : r.Sound) (hc : r.ratioOf owner = none) (h0 : ratio ≠ 0) (hints : Hints) :
    ∃ r', r.insert owner ratio hints = .ok r' ∧ r'.Sound ∧
      ∀ other, r'.ratioOf other = if other = owner then some ratio else r.ratioOf other := by
  obtain ⟨before, after, he, -, hbefore, hafter, hinsert⟩ := h.exists_insert hc h0 hints
  exact ⟨_, hinsert, h.spliced he hc hbefore hafter, Table.get?_insert_of _ _ _⟩

theorem remove_ok (h : r.Sound) (hr : r.ratioOf owner = some ratio) :
    ∃ r', r.remove owner = .ok r' ∧ r'.Sound ∧
      ∀ other, r'.ratioOf other = if other = owner then none else r.ratioOf other := by
  obtain ⟨before, after, he, hplace⟩ := h.exists_around hr
  have herase : r.entries.eraseIdx before.length = before ++ after := by
    rw [he, List.eraseIdx_append_of_length_le (Nat.le_refl _), Nat.sub_self,
      List.eraseIdx_cons_zero]
  refine ⟨_, ?_, h.cut_out he, Table.get?_erase_of _ _⟩
  unfold remove
  rw [hplace]
  exact congrArg (fun entries => Except.ok (Ranking.mk entries _)) herase

end Sound

/-! ## Owners and ratios -/

theorem Sound.mem_owners_iff (h : r.Sound) : owner ∈ r.owners ↔ r.contains owner = true := by
  simp only [contains_iff, h.ratioOf_iff, owners, List.mem_map, Prod.exists, exists_and_right,
    exists_eq_right]

/-- The table has the entries of the ranking, in the order of the owners. -/
theorem Sound.ratios_perm (h : r.Sound) : r.ratios.entries.Perm r.entries := by
  rw [List.perm_ext_iff_of_nodup r.ratios.keys_nodup.of_map h.nodup.of_map]
  rintro ⟨owner, ratio⟩
  rw [← Table.get?_eq_some_iff, ← h.ratioOf_iff]
  rfl

/-- The ratios from the first place to the last. -/
def ranked (r : Ranking) : List Amount := r.entries.map Prod.snd

theorem Sound.ranked_sorted (h : r.Sound) :
    r.ranked.Pairwise fun a b => b ≤ a := List.pairwise_map.2 h.sorted

/-- **Rankings that agree on every owner list the same ratios.** -/
theorem Sound.ratios_eq {r' : Ranking} (h : r.Sound) (h' : r'.Sound)
    (hsame : ∀ owner, r.ratioOf owner = r'.ratioOf owner) :
    r.ranked = r'.ranked ∧ r.ratios = r'.ratios := by
  have htable : r.ratios = r'.ratios := Table.eq_of_get? hsame
  have hperm : r.entries.Perm r'.entries := h.ratios_perm.symm.trans (htable ▸ h'.ratios_perm)
  refine ⟨(hperm.map Prod.snd).eq_of_pairwise ?_ h.ranked_sorted h'.ranked_sorted, htable⟩
  intro a b _ _ hab hba
  exact Amount.ext (Nat.le_antisymm hba hab)

end Ranking

end Stablecoin
