/-
  Stablecoin theory — the order of the ranking.

  A trove is ranked by the nominal ratio that it has when it is placed.  Where debt
  and collateral are spread over the troves their ratios change, but not those by
  which they are ranked.  A trove that is placed later is compared with these, and
  may stand before one whose nominal ratio is higher (`Ledger.ranked_out_of_order`).

  * `Ledger.Current`: a trove is ranked by the nominal ratio that it has now; this
    is so after it is placed (`obey_placed`), and stays so until something is
    spread (`after_current`);
  * `Ledger.exists_placing`: every trove is ranked by the nominal ratio that it had
    when it was placed;
  * `Ledger.ranked_by_nominalRatio`: two troves stand in the order of their nominal
    ratios, if nothing was spread since they were placed.
-/
import Stablecoin.Proofs.Atomicity

namespace Stablecoin.Ledger

variable {start l : Ledger} {c : Command} {commands : List Command} {answer : Option Answer}
  {owner : Address} {ratio : Amount}

/-! ## Places -/

/-- The trove of an owner is ranked, if it is at all, by the nominal ratio that it has now. -/
def Current (l : Ledger) (owner : Address) : Prop :=
  ∀ ratio, l.ranking.ratioOf owner = some ratio → l.state.nominalRatio owner = .ok ratio

/-- A command gives the trove of an owner its place. -/
def Places (l : Ledger) (c : Command) (owner : Address) : Prop :=
  ∃ r plan change, c = .request r ∧ l.planOf r = .ok plan ∧ change ∈ plan.draft.changes ∧
    change.owner = owner ∧ change.ratioAfter ≠ none

/-- Nothing was spread since some command of a run placed the trove of an owner. -/
def UnspreadSincePlaced (l : Ledger) (commands : List Command) (owner : Address) : Prop :=
  ∃ earlier c later, commands = earlier ++ c :: later ∧ (l.after earlier).Places c owner ∧
    (l.after commands).state.spread.snapshot = (l.after (earlier ++ [c])).state.spread.snapshot

/-! ## One command -/

/-- An accepted command carries out a plan that the ranking follows, or reaches neither the troves
nor the ranking. -/
theorem obey_accepted (hc : l.state.Covered) (hs : l.ranking.Sound)
    (h : (l.obey c).1 = .ok answer) :
    (∃ r plan, c = .request r ∧ l.planOf r = .ok plan ∧
      l.state.Follows plan.draft.changes (l.obey c).2.state ∧
      (∀ d ∈ plan.draft.changes, (l.obey c).2.ranking.ratioOf d.owner = d.ratioAfter) ∧
      ∀ other, other ∉ plan.draft.changes.map RankChange.owner →
        (l.obey c).2.ranking.ratioOf other = l.ranking.ratioOf other) ∨
    (∀ r, c ≠ .request r) ∧ (l.obey c).2.ranking = l.ranking ∧
      (l.obey c).2.state.spread = l.state.spread ∧
      (l.obey c).2.state.activeAt = l.state.activeAt := by
  by_cases hr : ∃ r, c = .request r
  · obtain ⟨r, rfl⟩ := hr
    obtain ⟨plan, hplan, -, hcommit⟩ | ⟨stop, hstop, -⟩ := obey_request_cases (l := l) r
    · obtain ⟨-, hchanges, -, hn⟩ := commit_ok hcommit
      have hfollows := planOf_follows hc hplan
      obtain ⟨hset, hkept⟩ := RankChange.applyInTurn_ok hs hfollows.nodup hchanges
      refine Or.inl ⟨r, plan, rfl, hplan, ?_, hset, hkept⟩
      rw [hn]
      exact hfollows
    · rw [hstop] at h
      cases h
  · have hne : ∀ r, c ≠ .request r := fun r he => hr ⟨r, he⟩
    obtain ⟨-, _, _, _, _, hn, -⟩ := obey_control hne
    rw [hn]
    exact Or.inr ⟨hne, rfl, rfl, rfl⟩

theorem obey_sums_le (hc : l.state.Covered) (hs : l.ranking.Sound)
    (h : (l.obey c).1 = .ok answer) (side : Side) :
    l.state.spread.on side ≤ (l.obey c).2.state.spread.on side := by
  obtain ⟨_, _, -, -, hfollows, -⟩ | ⟨-, -, hspread, -⟩ := obey_accepted hc hs h
  · exact hfollows.sums_le side
  · rw [hspread]

/-- A trove that is placed is ranked by its nominal ratio. -/
theorem obey_placed (hc : l.state.Covered) (hs : l.ranking.Sound)
    (h : (l.obey c).1 = .ok answer) (hp : l.Places c owner) : (l.obey c).2.Current owner := by
  obtain ⟨r, plan, change, rfl, hplan, hm, rfl, -⟩ := hp
  obtain ⟨_, _, he, hplan', hfollows, hset, -⟩ | ⟨hne, -⟩ := obey_accepted hc hs h
  · cases he
    rw [hplan] at hplan'
    cases hplan'
    intro ratio hratio
    rw [hset _ hm] at hratio
    exact hfollows.placed _ hm _ hratio
  · exact absurd rfl (hne r)

/-- A trove that was not placed is ranked as it was, or not any more. -/
theorem obey_unplaced (hc : l.state.Covered) (hs : l.ranking.Sound)
    (h : (l.obey c).1 = .ok answer) (hp : ¬ l.Places c owner)
    (hr : (l.obey c).2.ranking.ratioOf owner = some ratio) :
    l.ranking.ratioOf owner = some ratio ∧
      ((l.obey c).2.state.spread.snapshot = l.state.spread.snapshot →
        (l.obey c).2.state.nominalRatio owner = l.state.nominalRatio owner) := by
  obtain ⟨r, plan, hreq, hplan, hfollows, hset, hkept⟩ | ⟨-, hranking, hspread, hactive⟩ :=
    obey_accepted hc hs h
  · have ho : owner ∉ plan.draft.changes.map RankChange.owner := by
      intro hm
      obtain ⟨change, hchange, rfl⟩ := List.mem_map.1 hm
      refine hp ⟨r, plan, change, hreq, hplan, hchange, rfl, ?_⟩
      rw [← hset _ hchange, hr]
      nofun
    rw [hkept owner ho] at hr
    exact ⟨hr, fun hsame => hfollows.kept hsame owner ho⟩
  · rw [hranking] at hr
    exact ⟨hr, State.nominalRatio_congr (congrFun hactive owner)⟩

theorem obey_current (hc : l.state.Covered) (hs : l.ranking.Sound)
    (h : (l.obey c).1 = .ok answer)
    (hsums : (l.obey c).2.state.spread.snapshot = l.state.spread.snapshot)
    (hl : l.Current owner) : (l.obey c).2.Current owner := by
  by_cases hp : l.Places c owner
  · exact obey_placed hc hs h hp
  · intro ratio hr
    obtain ⟨hr, hsame⟩ := obey_unplaced hc hs h hp hr
    rw [hsame hsums]
    exact hl ratio hr

/-! ## Runs -/

section

variable {params : Parameters} {price : Amount} {earlier later : List Command} {a b : Address}

theorem after_snoc (hok : start.Accepted (commands ++ [c])) : start.Accepted commands ∧
    start.after (commands ++ [c]) = ((start.after commands).obey c).2 ∧
    ∃ answer, ((start.after commands).obey c).1 = .ok answer := by
  obtain ⟨hcommands, hlast⟩ := accepted_append.1 hok
  obtain ⟨⟨answer, ho⟩, -⟩ := accepted_cons.1 hlast
  refine ⟨hcommands, ?_, answer, ho⟩
  rw [after_append hcommands, after_cons ho]
  rfl

theorem after_sums_le (h : starting params price = .ok start)
    (hok : start.Accepted (earlier ++ later)) (side : Side) :
    (start.after earlier).state.spread.on side ≤
      (start.after (earlier ++ later)).state.spread.on side := by
  induction later using List.reverseRecOn with
  | nil =>
    rw [List.append_nil]
  | append_singleton later c ih =>
    rw [← List.append_assoc] at hok ⊢
    obtain ⟨hbefore, hn, answer, ho⟩ := after_snoc hok
    rw [hn]
    exact (ih hbefore).trans
      (obey_sums_le (after_covered h _) (after_orderly h _).sound ho side)

/-- Between equal sums, nothing was spread. -/
theorem sums_between (h : starting params price = .ok start) (earlier between later : List Command)
    (hok : start.Accepted (earlier ++ between ++ later))
    (hsums : (start.after (earlier ++ between ++ later)).state.spread.snapshot =
      (start.after earlier).state.spread.snapshot) :
    (start.after (earlier ++ between)).state.spread.snapshot =
        (start.after earlier).state.spread.snapshot ∧
      (start.after (earlier ++ between ++ later)).state.spread.snapshot =
        (start.after (earlier ++ between)).state.spread.snapshot := by
  simp only [Redistribution.snapshot_eq_iff] at hsums ⊢
  rw [← forall_and]
  intro side
  have hfirst := after_sums_le h (accepted_append.1 hok).1 side
  have hsecond := after_sums_le h hok side
  have hends := hsums side
  omega

/-- **As long as nothing is spread, a trove stays ranked by its nominal ratio.** -/
theorem after_current (h : starting params price = .ok start)
    (hok : start.Accepted (earlier ++ later))
    (hsums : (start.after (earlier ++ later)).state.spread.snapshot =
      (start.after earlier).state.spread.snapshot)
    (hl : (start.after earlier).Current owner) :
    (start.after (earlier ++ later)).Current owner := by
  induction later using List.reverseRecOn with
  | nil =>
    rw [List.append_nil]
    exact hl
  | append_singleton later c ih =>
    rw [← List.append_assoc] at hok hsums ⊢
    obtain ⟨hmiddle, hlast⟩ := sums_between h _ _ _ hok hsums
    obtain ⟨hbefore, hn, answer, ho⟩ := after_snoc hok
    rw [hn] at hlast ⊢
    exact obey_current (after_covered h _) (after_orderly h _).sound ho hlast (ih hbefore hmiddle)

/-- **Every trove is ranked by the nominal ratio that it had when it was placed.** -/
theorem exists_placing (h : starting params price = .ok start) (hok : start.Accepted commands)
    (hr : (start.after commands).ranking.ratioOf owner = some ratio) :
    ∃ earlier c later, commands = earlier ++ c :: later ∧ (start.after earlier).Places c owner ∧
      (start.after (earlier ++ [c])).state.nominalRatio owner = .ok ratio := by
  induction commands using List.reverseRecOn with
  | nil =>
    rw [starting_eq h] at hr
    cases hr
  | append_singleton commands c ih =>
    obtain ⟨hbefore, hn, answer, ho⟩ := after_snoc hok
    have hc := after_covered h commands
    have hs := (after_orderly h commands).sound
    -- the last command placed the trove, or the trove was ranked so before it
    by_cases hp : (start.after commands).Places c owner
    · refine ⟨commands, c, [], rfl, hp, ?_⟩
      rw [hn] at hr ⊢
      exact obey_placed hc hs ho hp ratio hr
    · rw [hn] at hr
      obtain ⟨earlier, c', later, rfl, hplaced, hratio⟩ :=
        ih hbefore (obey_unplaced hc hs ho hp hr).1
      exact ⟨earlier, c', later ++ [c], List.append_assoc _ _ _, hplaced, hratio⟩

/-- Where nothing was ever spread, nothing was since any trove was placed. -/
theorem unspread_of_start (h : starting params price = .ok start) (hok : start.Accepted commands)
    (hsums : (start.after commands).state.spread.snapshot = start.state.spread.snapshot)
    (hr : (start.after commands).ranking.ratioOf owner = some ratio) :
    start.UnspreadSincePlaced commands owner := by
  obtain ⟨earlier, c, later, rfl, hplaced, -⟩ := exists_placing h hok hr
  refine ⟨earlier, c, later, rfl, hplaced, ?_⟩
  rw [List.append_cons] at hok hsums ⊢
  exact (sums_between h [] (earlier ++ [c]) later hok hsums).2

theorem current_of_unspread (h : starting params price = .ok start) (hok : start.Accepted commands)
    (hu : start.UnspreadSincePlaced commands owner) : (start.after commands).Current owner := by
  obtain ⟨earlier, c, later, rfl, hplaced, hsums⟩ := hu
  rw [List.append_cons] at hok hsums ⊢
  obtain ⟨-, hn, answer, ho⟩ := after_snoc (accepted_append.1 hok).1
  refine after_current h hok hsums ?_
  rw [hn]
  exact obey_placed (after_covered h _) (after_orderly h _).sound ho hplaced

/-- **Two troves stand in the order of their nominal ratios,** if nothing was spread since each of
them was placed. -/
theorem ranked_by_nominalRatio (h : starting params price = .ok start)
    (hok : start.Accepted commands) (hl : start.after commands = l)
    (ha : start.UnspreadSincePlaced commands a) (hb : start.UnspreadSincePlaced commands b)
    (hab : [a, b].Sublist l.ranking.owners) :
    ∃ ra rb, l.state.nominalRatio a = .ok ra ∧ l.state.nominalRatio b = .ok rb ∧ rb ≤ ra := by
  subst hl
  obtain ⟨ra, rb, hra, hrb, hle⟩ := (after_orderly h commands).sound.le_of_before hab
  exact ⟨ra, rb, current_of_unspread h hok ha ra hra, current_of_unspread h hok hb rb hrb, hle⟩

end

/-- The better one is ranked first. -/
theorem ranked_by_nominalRatio_betterLast : ∃ start ra rb,
    starting .standard twoThousand = .ok start ∧
    (start.after betterLast).ranking.owners = [⟨3, by decide⟩, ⟨2, by decide⟩] ∧
    (start.after betterLast).state.nominalRatio ⟨3, by decide⟩ = .ok ra ∧
    (start.after betterLast).state.nominalRatio ⟨2, by decide⟩ = .ok rb ∧ rb ≤ ra := by
  obtain ⟨start, h⟩ : ∃ start, starting .standard twoThousand = .ok start :=
    ⟨_, starting_standard _⟩
  have hrun : start.Accepted betterLast ∧
      (start.after betterLast).state.spread.snapshot = start.state.spread.snapshot ∧
      (start.after betterLast).ranking.owners = [⟨3, by decide⟩, ⟨2, by decide⟩] := by
    rw [starting_eq h]
    decide +kernel
  obtain ⟨hok, hsums, howners⟩ := hrun
  have hab : [⟨3, by decide⟩, ⟨2, by decide⟩].Sublist (start.after betterLast).ranking.owners := by
    rw [howners]
  obtain ⟨_, _, hra, hrb, -⟩ := (after_orderly h betterLast).sound.le_of_before hab
  obtain ⟨ra, rb, hratios⟩ := ranked_by_nominalRatio h hok rfl
    (unspread_of_start h hok hsums hra) (unspread_of_start h hok hsums hrb) hab
  exact ⟨start, ra, rb, h, howners, hratios⟩

/-- After a trove was spread over another, a third is ranked by comparing its ratio with the one
that the other had before. -/
theorem ranked_out_of_order : ∃ start commands ra rb,
    starting .standard twoThousand = .ok start ∧ start.Accepted commands ∧
    (start.after commands).ranking.owners = [⟨2, by decide⟩, ⟨5, by decide⟩] ∧
    (start.after commands).state.nominalRatio ⟨2, by decide⟩ = .ok ra ∧
    (start.after commands).state.nominalRatio ⟨5, by decide⟩ = .ok rb ∧ ra < rb :=
  ⟨_, firstSpread ++ [.setPrice twoThousand, opening ⟨5, by decide⟩ 10 5300],
    ⟨174_646_940_147_948_890, by decide⟩, ⟨180_946_349_407_400_705, by decide⟩,
    starting_standard twoThousand, by decide +kernel, by decide +kernel, by decide +kernel,
    by decide +kernel, by decide⟩

end Stablecoin.Ledger
