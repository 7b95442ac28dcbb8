/-
  Stablecoin theory — hinted places.

  Callers may hint at the neighbours of a place, and hints that hold are taken.  They
  save the search, and they can do no more: among troves of the same ratio a hint
  chooses the place of the new one, and that is all that it can choose
  (`Ranking.HintedAlike`).  So it is after any changes of a ranking
  (`Ranking.insert_hinted`).
-/
import Stablecoin.Proofs.RankChanges

namespace Stablecoin.Ranking

variable {r hinted plain : Ranking} {owner : Address} {ratio : Amount} {hints : Hints}

/-! ## With and without hints -/

/-- The trove is put between others that stay in their sequence, and the ratios are in the sequence
in which they are without hints.  Unless there is a choice, so is everything. -/
structure HintedAlike (r : Ranking) (owner : Address) (ratio : Amount) (hints : Hints)
    (hinted plain : Ranking) : Prop where
  sound : hinted.Sound
  spliced : ∃ before after, r.entries = before ++ after ∧
    r.placeFor ratio hints = r.neighbours before.length ∧
    hinted.entries = before ++ (owner, ratio) :: after
  ranked_eq : hinted.ranked = plain.ranked
  eq_of_new : ratio ∉ r.ranked → hinted = plain

/-- Where no ratio is the same, there is one place only. -/
theorem before_eq_filter {before after : List (Address × Amount)}
    (he : r.entries = before ++ after) (hbefore : ∀ e ∈ before, ratio ≤ e.2)
    (hafter : ∀ e ∈ after, e.2 ≤ ratio) (hnew : ratio ∉ r.ranked) :
    before = r.entries.filter fun e => decide (ratio ≤ e.2) := by
  have hbehind : ∀ e ∈ after, ¬ decide (ratio ≤ e.2) = true := by
    intro e hm hle
    rw [decide_eq_true_eq] at hle
    have hsame : e.2 = ratio := Amount.ext (Nat.le_antisymm (hafter e hm) hle)
    refine hnew (List.mem_map.2 ⟨e, ?_, hsame⟩)
    rw [he]
    exact List.mem_append_right _ hm
  have hfront : ∀ e ∈ before, decide (ratio ≤ e.2) = true := fun e hm =>
    decide_eq_true (hbefore e hm)
  rw [he, List.filter_append, List.filter_eq_self.2 hfront, List.filter_eq_nil_iff.2 hbehind,
    List.append_nil]

/-- **Hints do not change the order:** whatever is hinted at, a trove can be inserted, and is
inserted as it is without hints, but for its place among equal ratios. -/
theorem Sound.exists_hinted (h : r.Sound) (hc : r.ratioOf owner = none) (h0 : ratio ≠ 0)
    (hints : Hints) : ∃ hinted plain, r.insert owner ratio hints = .ok hinted ∧
      r.insert owner ratio .none = .ok plain ∧ r.HintedAlike owner ratio hints hinted plain := by
  obtain ⟨before, after, he, hplace, hbefore, hafter, hinsert⟩ := h.exists_insert hc h0 hints
  obtain ⟨before', after', he', -, hbefore', hafter', hinsert'⟩ := h.exists_insert hc h0 .none
  have hsound := h.spliced he hc hbefore hafter
  have hsound' := h.spliced he' hc hbefore' hafter'
  refine ⟨_, _, hinsert, hinsert', ?_⟩
  constructor
  case sound => exact hsound
  case spliced => exact ⟨before, after, he, hplace, rfl⟩
  case ranked_eq => exact (hsound.ratios_eq hsound' fun _ => rfl).1
  case eq_of_new =>
    intro hnew
    obtain rfl : before = before' := (before_eq_filter he hbefore hafter hnew).trans
      (before_eq_filter he' hbefore' hafter' hnew).symm
    obtain rfl : after = after' := List.append_cancel_left (he.symm.trans he')
    rfl

/-! ## After any changes -/

/-- The ranking after changes, those left out that are refused. -/
def after (r : Ranking) (changes : List RankChange) : Ranking :=
  changes.foldl (fun r change => (change.apply r).2) r

theorem Sound.after (h : r.Sound) (changes : List RankChange) : (r.after changes).Sound := by
  induction changes generalizing r with
  | nil => exact h
  | cons change rest ih => exact ih (change.apply_sound h)

/-- **Hints do not change the order, after any changes of a ranking.**  Whoever is not ranked can be
inserted with any ratio but zero and any hints, and the neighbours that are found for the ratio hold:
they stand side by side, with the ratio between theirs. -/
theorem insert_hinted (changes : List RankChange)
    (hc : (empty.after changes).contains owner = false) (h0 : ratio ≠ 0) (hints : Hints) :
    ∃ hinted plain, (empty.after changes).insert owner ratio hints = .ok hinted ∧
      (empty.after changes).insert owner ratio .none = .ok plain ∧
      (empty.after changes).HintedAlike owner ratio hints hinted plain ∧
      (empty.after changes).isPlaceFor ratio
        ((empty.after changes).placeFor ratio hints) = true := by
  have hsound := sound_empty.after changes
  obtain ⟨hinted, plain, hhinted, hplain, halike⟩ :=
    hsound.exists_hinted (contains_eq_false_iff.1 hc) h0 hints
  exact ⟨hinted, plain, hhinted, hplain, halike, hsound.isPlaceFor_placeFor ratio hints⟩

/-- Two troves of the same ratio. -/
def twoPeers : Ranking := empty.after
  [.insert ⟨12, by decide⟩ Amount.unit .none, .insert ⟨13, by decide⟩ Amount.unit .none]

/-- A third one of that ratio comes last without hints, and first if the first of them is hinted at
as its lower neighbour. -/
theorem insert_hinted_twoPeers : ∃ hinted plain : Ranking,
    twoPeers.insert ⟨14, by decide⟩ Amount.unit ⟨none, some ⟨12, by decide⟩⟩ = .ok hinted ∧
    twoPeers.insert ⟨14, by decide⟩ Amount.unit .none = .ok plain ∧
    hinted.owners = [⟨14, by decide⟩, ⟨12, by decide⟩, ⟨13, by decide⟩] ∧
    plain.owners = [⟨12, by decide⟩, ⟨13, by decide⟩, ⟨14, by decide⟩] ∧
    twoPeers.HintedAlike ⟨14, by decide⟩ Amount.unit ⟨none, some ⟨12, by decide⟩⟩ hinted plain := by
  have hnew : twoPeers.contains ⟨14, by decide⟩ = false := by decide +kernel
  have h0 : Amount.unit ≠ 0 := by decide
  obtain ⟨hinted, plain, hhinted, hplain, halike, -⟩ :=
    insert_hinted _ hnew h0 ⟨none, some ⟨12, by decide⟩⟩
  obtain ⟨howners, howners'⟩ :
      (twoPeers.insert ⟨14, by decide⟩ Amount.unit ⟨none, some ⟨12, by decide⟩⟩).map owners =
        .ok [⟨14, by decide⟩, ⟨12, by decide⟩, ⟨13, by decide⟩] ∧
      (twoPeers.insert ⟨14, by decide⟩ Amount.unit .none).map owners =
        .ok [⟨12, by decide⟩, ⟨13, by decide⟩, ⟨14, by decide⟩] := by
    decide +kernel
  rw [twoPeers, hhinted] at howners
  rw [twoPeers, hplain] at howners'
  exact ⟨hinted, plain, hhinted, hplain, Except.ok.inj howners, Except.ok.inj howners', halike⟩

end Stablecoin.Ranking
