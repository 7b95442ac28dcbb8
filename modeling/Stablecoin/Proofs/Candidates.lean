/-
  Stablecoin theory — the candidates of a liquidation.

  A liquidation of the lowest troves gathers its candidates in a loop: a cursor starts
  at the last place and goes to the neighbour before it, until there is none, until
  there are enough, or until it is at the first, where that is to be left out.

  * `Ranking.gathering` is one round of the loop.  On any ranking the loop ends, with
    what `Ranking.gather` lists (`Ranking.exists_gathered`);
  * on a sound ranking these are the last owners, from the last upwards
    (`Ranking.Sound.gather_last`);
  * `Ledger.candidates_exact` says both of every ranking that changes lead to, and that
    its cursor neither skips nor repeats anybody.
-/
import Stablecoin.Ledger.Liquidation
import Stablecoin.Proofs.HintedPlaces
import Stablecoin.Proofs.RankWalks

namespace Stablecoin

namespace Ranking

variable {r : Ranking} {withoutFirst : Bool} {most : Nat} {cursor : Option Address}
  {taken : List Address}

/-! ## The loop -/

/-- Where a loop is, and whom it has gathered. -/
structure Gathering where
  cursor : Option Address
  taken : List Address

/-- One round of the loop, or nothing where it ends. -/
def gathering (r : Ranking) (withoutFirst : Bool) (most : Nat) : Gathering → Option Gathering
  | ⟨none, _⟩ => none
  | ⟨some owner, taken⟩ =>
    if most ≤ taken.length ∨ (withoutFirst = true ∧ r.first = some owner) then none
    else some ⟨r.prev owner, taken ++ [owner]⟩

/-- From wherever it is, the loop ends with those that are gathered from there on, as many as are
missing. -/
theorem exists_gathered_of_taken {left : Nat} (hleft : taken.length + left = most) : ∃ cursor',
    ⟨cursor', taken ++ r.gather withoutFirst left cursor⟩ ∈
      StateTransition.eval (r.gathering withoutFirst most) ⟨cursor, taken⟩ := by
  induction left generalizing cursor taken with
  | zero =>
    refine ⟨cursor, StateTransition.mem_eval.2 ?_⟩
    rw [gather, List.append_nil]
    refine ⟨.refl, ?_⟩
    cases cursor with
    | none => rfl
    | some owner => exact if_pos (Or.inl hleft.ge)
  | succ left ih =>
    rcases cursor with _ | owner
    · refine ⟨none, StateTransition.mem_eval.2 ?_⟩
      rw [gather, List.append_nil]
      exact ⟨.refl, rfl⟩
    rw [gather]
    split
    · next hfirst =>
      refine ⟨some owner, StateTransition.mem_eval.2 ?_⟩
      rw [List.append_nil]
      exact ⟨.refl, if_pos (Or.inr hfirst)⟩
    · next hfirst =>
      -- the loop goes on from the neighbour, with one more gathered and one less missing
      have hlength : (taken ++ [owner]).length + left = most := by
        rw [List.length_append, List.length_singleton]
        omega
      obtain ⟨cursor', hend⟩ := ih hlength
      obtain ⟨hreach, hstop⟩ := StateTransition.mem_eval.1 hend
      rw [List.append_assoc, List.singleton_append] at hreach hstop
      refine ⟨cursor', StateTransition.mem_eval.2 ⟨.head ?_ hreach, hstop⟩⟩
      exact if_neg (not_or.2 ⟨by omega, hfirst⟩)

/-- **The loop ends with those that are gathered,** on any ranking. -/
theorem exists_gathered (r : Ranking) (withoutFirst : Bool) (most : Nat) (cursor : Option Address) :
    ∃ cursor', ⟨cursor', r.gather withoutFirst most cursor⟩ ∈
      StateTransition.eval (r.gathering withoutFirst most) ⟨cursor, []⟩ :=
  exists_gathered_of_taken (Nat.zero_add most)

/-! ## Who is gathered -/

theorem gather_eq (r : Ranking) (withoutFirst : Bool) (most : Nat) (cursor : Option Address) :
    r.gather withoutFirst most cursor = (r.upward most cursor).takeWhile fun owner =>
      !(withoutFirst && r.first = some owner) := by
  induction most generalizing cursor with
  | zero => rfl
  | succ most ih =>
    cases cursor with
    | none => rfl
    | some owner =>
      rw [gather, upward, ih, List.takeWhile_cons]
      by_cases hfirst : withoutFirst = true ∧ r.first = some owner
      · rw [if_pos hfirst]
        simp [hfirst]
      · rw [if_neg hfirst, if_pos]
        rwa [Bool.not_eq_true', Bool.and_eq_false_iff, ← Bool.not_eq_true, decide_eq_false_iff_not,
          ← not_and_or]

/-- Everybody but the first stands before the first in the reversed list. -/
theorem Sound.takeWhile_first (h : r.Sound) :
    (r.owners.reverse.takeWhile fun owner => !decide (r.first = some owner)) =
      r.owners.reverse.take (r.size - 1) := by
  have hfirst : r.first = r.owners.head? := List.head?_map.symm
  have hnodup := h.nodup
  rw [size_eq, hfirst]
  cases howners : r.owners with
  | nil => rfl
  | cons best rest =>
    rw [howners] at hnodup
    have hother : ∀ owner ∈ rest.reverse, (!decide ((best :: rest).head? = some owner)) = true := by
      intro owner hm
      have hne : best ≠ owner := by
        rintro rfl
        exact (List.nodup_cons.1 hnodup).1 (List.mem_reverse.1 hm)
      simpa using hne
    rw [List.reverse_cons, List.takeWhile_append_of_pos hother, List.takeWhile_cons_of_neg (by simp),
      List.append_nil, List.length_cons, Nat.add_sub_cancel, ← List.length_reverse, List.take_left]

/-- **The candidates are the last owners, the very last first:** as many as there are to be, or all,
or all but the first. -/
theorem Sound.gather_last (h : r.Sound) (withoutFirst : Bool) (most : Nat) :
    r.gather withoutFirst most r.last =
      (r.owners.rtake (min most
        (if withoutFirst = true ∧ r.size ≠ 0 then r.size - 1 else r.size))).reverse := by
  rw [gather_eq, h.upward_last, List.rtake_eq_reverse_take_reverse, List.reverse_reverse,
    ← List.take_takeWhile, ← List.take_take]
  congr 1
  cases withoutFirst with
  | false =>
    rw [if_neg (by simp), size_eq, ← List.length_reverse, List.take_length]
    exact List.takeWhile_eq_self_iff.2 fun _ _ => rfl
  | true =>
    simp only [Bool.true_and, h.takeWhile_first, true_and]
    split
    · rfl
    · next h0 =>
      rw [not_not] at h0
      rw [h0]

end Ranking

/-! ## Candidates -/

namespace Ledger

variable {l : Ledger}

/-- **The walk of a liquidation is exact, after any changes of a ranking.**  Step after step from the
last place the cursor is at each owner once, the lowest first, and then at none; either neighbour is
found from the other.  The loop ends, and the candidates are the last owners, from the last upwards. -/
theorem candidates_exact (changes : List RankChange)
    (hr : l.ranking = Ranking.empty.after changes) :
    (∀ n, (fun cursor => cursor.bind l.ranking.prev)^[n] l.ranking.last =
        l.ranking.owners.reverse[n]?) ∧
      l.ranking.owners.Nodup ∧
      (∀ owner other, l.ranking.prev other = some owner ↔ l.ranking.next owner = some other) ∧
      ∀ most withoutFirst,
        (∃ cursor, ⟨cursor, l.lowestCandidates most withoutFirst⟩ ∈
          StateTransition.eval (l.ranking.gathering withoutFirst most) ⟨l.ranking.last, []⟩) ∧
        l.lowestCandidates most withoutFirst =
          (l.ranking.owners.rtake (min most
            (if withoutFirst = true ∧ l.ranking.size ≠ 0 then l.ranking.size - 1
              else l.ranking.size))).reverse := by
  have hsound : l.ranking.Sound := hr ▸ Ranking.sound_empty.after changes
  refine ⟨hsound.iterate_prev, hsound.nodup, fun _ _ => hsound.prev_eq_some_iff_next, ?_⟩
  intro most withoutFirst
  exact ⟨l.ranking.exists_gathered withoutFirst most l.ranking.last,
    hsound.gather_last withoutFirst most⟩

/-- Three troves of the same ratio, the first of which is put back behind the others. -/
def threePeers (first second third : Address) : List RankChange :=
  [.insert first Amount.unit .none, .insert second Amount.unit .none,
    .insert third Amount.unit .none, .reinsert first Amount.unit .none]

/-- It is the first of two candidates, and the one who has come to the front is none. -/
theorem candidates_exact_threePeers : ∃ l : Ledger,
    l.ranking = Ranking.empty.after (threePeers ⟨12, by decide⟩ ⟨13, by decide⟩ ⟨14, by decide⟩) ∧
    l.ranking.owners = [⟨13, by decide⟩, ⟨14, by decide⟩, ⟨12, by decide⟩] ∧
    l.ranking.prev ⟨12, by decide⟩ = some ⟨14, by decide⟩ ∧
    l.ranking.next ⟨14, by decide⟩ = some ⟨12, by decide⟩ ∧
    (fun cursor => cursor.bind l.ranking.prev)^[3] l.ranking.last = none ∧
    l.lowestCandidates 5 true = [⟨12, by decide⟩, ⟨14, by decide⟩] ∧
    ∃ cursor, ⟨cursor, [⟨12, by decide⟩, ⟨14, by decide⟩]⟩ ∈
      StateTransition.eval (l.ranking.gathering true 5) ⟨l.ranking.last, []⟩ := by
  obtain ⟨l, hr⟩ : ∃ l : Ledger, l.ranking = Ranking.empty.after
      (threePeers ⟨12, by decide⟩ ⟨13, by decide⟩ ⟨14, by decide⟩) :=
    ⟨⟨.standard, .standard, .empty, .starting 1, .stable [], _, .empty⟩, rfl⟩
  obtain ⟨hwalk, -, hneighbours, hcandidates⟩ := candidates_exact _ hr
  have howners : l.ranking.owners = [⟨13, by decide⟩, ⟨14, by decide⟩, ⟨12, by decide⟩] := by
    rw [hr]
    decide +kernel
  have hprev : l.ranking.prev ⟨12, by decide⟩ = some ⟨14, by decide⟩ := by
    rw [hr]
    decide +kernel
  have hstop := hwalk 3
  rw [howners] at hstop
  obtain ⟨hend, hlisted⟩ := hcandidates 5 true
  rw [Ranking.size_eq, howners] at hlisted
  rw [hlisted] at hend
  exact ⟨l, hr, howners, hprev, (hneighbours _ _).1 hprev, hstop, hlisted, hend⟩

end Ledger

end Stablecoin
