/-
  Stablecoin theory — the ranking follows the troves.

  A plan changes troves and calls for changes of the ranking, by code of its own
  for each.  `State.Follows` says that the two agree: no owner is named twice, a
  trove is entered on its own, who is removed has no active trove any more, and who
  is placed anew is placed by the nominal ratio that the trove has then.  All
  others keep their nominal ratio, as long as nothing was spread: it counts the
  pending share, and so does not change when that is taken in
  (`Realization.nominalRatio_eq`).

  `Ledger.planOf_follows`: in every plan the ranking follows the troves.
-/
import Stablecoin.Proofs.EntireTroves
import Stablecoin.Proofs.RankChanges

namespace Stablecoin

namespace State

variable {s s₁ s₂ s₃ s' : State} {owner who : Address} {t t' : Trove} {old new : Option Trove}
  {share : PendingShare} {ratio : Amount} {hints : Hints} {changes : List RankChange}

/-! ## Following -/

/-- Troves are only removed. -/
def OnlyRemoves (changes : List RankChange) : Prop := ∀ c ∈ changes, c.ratioAfter = none

/-- The changes of a ranking that follow from what was done to troves.  Of the others, ratios are
compared only where nothing was spread. -/
structure Follows (s : State) (changes : List RankChange) (s' : State) : Prop where
  /-- The sums never fall. -/
  sums_le : ∀ side, s.spread.on side ≤ s'.spread.on side
  nodup : (changes.map RankChange.owner).Nodup
  /-- A trove is entered on its own. -/
  alone : (∀ who ratio hints, .insert who ratio hints ∉ changes) ∨
    ∃ who ratio hints, changes = [.insert who ratio hints]
  removed : ∀ c ∈ changes, c.ratioAfter = none → s'.activeAt c.owner = none
  placed : ∀ c ∈ changes, ∀ ratio, c.ratioAfter = some ratio →
    s'.nominalRatio c.owner = .ok ratio
  kept : s'.spread.snapshot = s.spread.snapshot → ∀ owner, owner ∉ changes.map RankChange.owner →
    s'.nominalRatio owner = s.nominalRatio owner

theorem OnlyRemoves.no_insert {c : RankChange} (honly : OnlyRemoves changes)
    (hc : ∀ who ratio hints, c ≠ .insert who ratio hints) :
    ∀ who ratio hints, .insert who ratio hints ∉ changes ++ [c] := by
  intro who ratio hints hm
  rcases List.mem_append.1 hm with hm | hm
  · cases honly _ hm
  · exact hc _ _ _ (List.mem_singleton.1 hm).symm

theorem OnlyRemoves.append {c : RankChange} (honly : OnlyRemoves changes)
    (hc : c.ratioAfter = none) : OnlyRemoves (changes ++ [c]) :=
  List.forall_mem_append.2 ⟨honly, List.forall_mem_singleton.2 hc⟩

namespace Follows

theorem refl (s : State) : s.Follows [] s :=
  ⟨fun _ => le_rfl, .nil, Or.inl fun _ _ _ => nofun, nofun, nofun, fun _ _ _ => rfl⟩

/-- What leaves the nominal ratios and the missing troves alone leaves the ranking alone. -/
theorem congr (hf : s.Follows changes s₁) (hsums : s₂.spread.snapshot = s₁.spread.snapshot)
    (hratio : ∀ owner, s₂.nominalRatio owner = s₁.nominalRatio owner)
    (hnone : ∀ owner, s₁.activeAt owner = none → s₂.activeAt owner = none) :
    s.Follows changes s₂ where
  sums_le side := by
    rw [Redistribution.snapshot_eq_iff.1 hsums side]
    exact hf.sums_le side
  nodup := hf.nodup
  alone := hf.alone
  removed c hm hc := hnone _ (hf.removed c hm hc)
  placed := by
    simp only [hratio]
    exact hf.placed
  kept := by
    simp only [hsums, hratio]
    exact hf.kept

theorem realization (hf : s.Follows changes s₁) (hc : s₁.Covered)
    (h : s₁.Realization owner share t t' s₂) : s.Follows changes s₂ := by
  refine hf.congr (by rw [h.sums_eq]) (h.nominalRatio_eq hc) ?_
  intro other hnone
  rw [h.replaced.others_eq]
  · exact hnone
  · rintro rfl
    rw [h.replaced.old_eq] at hnone
    cases hnone

theorem rest (hf : s.Follows changes s₁) (hactive : s₂.activeAt = s₁.activeAt)
    (hsums : s₂.spread.snapshot = s₁.spread.snapshot) : s.Follows changes s₂ := by
  refine hf.congr hsums ?_ ?_
  · intro owner
    exact nominalRatio_congr (congrFun hactive owner) hsums
  · intro owner hnone
    rw [hactive]
    exact hnone

/-- More is spread, and no trove was placed. -/
theorem grow (hf : s.Follows changes s₁) (honly : OnlyRemoves changes)
    (hactive : s₂.activeAt = s₁.activeAt)
    (hsums : ∀ side, s₁.spread.on side ≤ s₂.spread.on side) : s.Follows changes s₂ where
  sums_le side := (hf.sums_le side).trans (hsums side)
  nodup := hf.nodup
  alone := hf.alone
  removed := by
    rw [hactive]
    exact hf.removed
  placed := by
    intro c hm ratio hc
    rw [honly c hm] at hc
    cases hc
  kept := by
    -- if the sums are then what they were at first, nothing was spread at all
    intro hsame owner ho
    rw [Redistribution.snapshot_eq_iff] at hsame
    have h₁ : ∀ side, s₁.spread.on side = s.spread.on side := fun side =>
      Nat.le_antisymm ((hsums side).trans (Nat.le_of_eq (hsame side))) (hf.sums_le side)
    have h₂ : ∀ side, s₂.spread.on side = s₁.spread.on side := fun side =>
      (hsame side).trans (h₁ side).symm
    rw [nominalRatio_congr (congrFun hactive owner) (Redistribution.snapshot_eq_iff.2 h₂)]
    exact hf.kept (Redistribution.snapshot_eq_iff.2 h₁) owner ho

/-- One more trove is replaced, and ranked accordingly. -/
theorem extend {c : RankChange} (hf : s.Follows changes s₁)
    (hfresh : c.owner ∉ changes.map RankChange.owner) (h : s₁.Replaced c.owner old new s₂)
    (halone : (∀ who ratio hints, .insert who ratio hints ∉ changes ++ [c]) ∨
      ∃ who ratio hints, changes ++ [c] = [.insert who ratio hints])
    (hremoved : c.ratioAfter = none → new = none)
    (hplaced : ∀ ratio, c.ratioAfter = some ratio → s₂.nominalRatio c.owner = .ok ratio) :
    s.Follows (changes ++ [c]) s₂ := by
  have hsums : s₂.spread.snapshot = s₁.spread.snapshot :=
    Redistribution.snapshot_eq_iff.2 fun side => (h.sums_eq side).1
  have hother : ∀ other, other ≠ c.owner → s₂.nominalRatio other = s₁.nominalRatio other :=
    fun other ho => nominalRatio_congr (h.others_eq other ho) hsums
  have hne : ∀ d ∈ changes, d.owner ≠ c.owner := by
    intro d hd heq
    exact hfresh (heq ▸ List.mem_map_of_mem hd)
  refine ⟨?_, ?_, halone, ?_, ?_, ?_⟩
  · intro side
    rw [(h.sums_eq side).1]
    exact hf.sums_le side
  · rw [List.map_append, List.map_singleton]
    exact List.nodup_append_comm.1 (List.nodup_cons.2 ⟨hfresh, hf.nodup⟩)
  · intro d hd hnone
    rcases List.mem_append.1 hd with hd | hd
    · rw [h.others_eq _ (hne d hd)]
      exact hf.removed d hd hnone
    · obtain rfl := List.mem_singleton.1 hd
      rw [h.new_eq, hremoved hnone]
  · intro d hd ratio hratio
    rcases List.mem_append.1 hd with hd | hd
    · rw [hother _ (hne d hd)]
      exact hf.placed d hd ratio hratio
    · obtain rfl := List.mem_singleton.1 hd
      exact hplaced ratio hratio
  · intro hsame other ho
    rw [List.map_append, List.map_singleton, List.mem_append, List.mem_singleton, not_or] at ho
    rw [hother other ho.2]
    exact hf.kept (hsums ▸ hsame) other ho.1

theorem fresh (hf : s.Follows changes s₁) (honly : OnlyRemoves changes)
    (ht : s₁.activeAt owner = some t) : owner ∉ changes.map RankChange.owner := by
  intro hm
  obtain ⟨c, hc, rfl⟩ := List.mem_map.1 hm
  rw [hf.removed c hc (honly c hc)] at ht
  cases ht

theorem enter (h : s.Replaced owner none new s') (hratio : s'.nominalRatio owner = .ok ratio)
    (hints : Hints) : s.Follows [.insert owner ratio hints] s' := by
  refine (refl s).extend (c := .insert owner ratio hints) (List.not_mem_nil) h
    (Or.inr ⟨_, _, _, rfl⟩) nofun ?_
  rintro _ ⟨⟩
  exact hratio

theorem move (hf : s.Follows changes s₁) (honly : OnlyRemoves changes)
    (h : s₁.Replaced owner (some t) new s₂) (hratio : s₂.nominalRatio owner = .ok ratio)
    (hints : Hints) : s.Follows (changes ++ [.reinsert owner ratio hints]) s₂ := by
  refine hf.extend (c := .reinsert owner ratio hints) (hf.fresh honly h.old_eq) h
    (Or.inl (honly.no_insert fun _ _ _ => nofun)) nofun ?_
  rintro _ ⟨⟩
  exact hratio

theorem leave (hf : s.Follows changes s₁) (honly : OnlyRemoves changes)
    (h : s₁.Replaced owner (some t) none s₂) : s.Follows (changes ++ [.remove owner]) s₂ :=
  hf.extend (c := .remove owner) (hf.fresh honly h.old_eq) h
    (Or.inl (honly.no_insert fun _ _ _ => nofun)) (fun _ => rfl) nofun

/-- A trove takes its share in, is changed, and is placed by the ratio of its record. -/
theorem amend {coll debt stake : Amount} (hf : s.Follows changes s₁) (honly : OnlyRemoves changes)
    (hc : s₁.Covered) (hr : s₁.Realization owner share t t' s₂)
    (h : s₂.Replaced owner (some t')
      (some { t' with coll := coll, debt := debt, stake := stake }) s₃)
    (hratio : Amount.nominalRatio coll debt = .ok ratio) (hints : Hints) :
    s.Follows (changes ++ [.reinsert owner ratio hints]) s₃ := by
  refine (hf.realization hc hr).move honly h ?_ hints
  rw [nominalRatio_of_entire (h.entire_rewritten hc hr)]
  exact hratio

end Follows

end State

namespace Ledger

variable {l : Ledger}

/-! ## Plans -/

/-- A liquidation only removes troves. -/
theorem Liquidation.follows {liquidator : Address} {targets : Targets} {plan : Plan Liquidated}
    (q : Liquidation l liquidator targets plan) :
    l.state.Follows plan.draft.changes plan.draft.state := by
  have hswept : State.OnlyRemoves q.swept.draft.changes ∧
      l.state.Follows q.swept.draft.changes q.swept.draft.state := by
    refine sweep_keeps q.swept_eq ?_ ⟨nofun, .refl _⟩
    rintro u v step ⟨honly, hf⟩
    obtain ⟨t, hreplaced, -⟩ := step.replaced
    rw [step.changes_eq]
    exact ⟨honly.append rfl, hf.leave honly hreplaced⟩
  have hoffset : State.OnlyRemoves q.offset.changes ∧
      l.state.Follows q.offset.changes q.offset.state := by
    obtain ⟨-, hd⟩ | ⟨-, _, _, -, -, hstate, -, hchanges⟩ := settleOffset_cases q.offset_eq
    · rw [hd]
      exact hswept
    · rw [hchanges, hstate]
      exact ⟨hswept.1, hswept.2.rest rfl rfl⟩
  have hspread : l.state.Follows q.spread.changes q.spread.state := by
    obtain ⟨-, hd⟩ | ⟨h0, hr, -, hchanges⟩ := settleSpread_cases q.spread_eq
    · rw [hd]
      exact hoffset.2
    · obtain ⟨hno, -⟩ | ⟨-, spread, active, default, hs, -, -, hstate⟩ :=
        State.redistribute_cases hr
      · exact absurd hno h0
      obtain ⟨-, growth, hgrowth⟩ := Redistribution.spread_ok hs h0
      rw [hchanges, hstate]
      refine hoffset.2.grow hoffset.1 rfl ?_
      intro side
      show _ ≤ spread.on side
      rw [(hgrowth side).1]
      exact Nat.le_add_right _ _
  obtain ⟨_, _, _, -, hn, -, hstate, -, hchanges⟩ := settleRest_ok q.draft_eq
  obtain ⟨_, _, -, -, rfl⟩ := State.note_eq_ok_iff.1 hn
  rw [hchanges, hstate]
  exact hspread.rest rfl rfl

/-- A walk removes troves, until it moves the last one. -/
theorem draw_follows {r : RedeemRequest} {price : Amount} {w w' : Drawing} {owners : List Address}
    (h : l.draw r price w owners = .ok w') (hc : w.draft.state.Covered)
    (hw : w.draft.changes = []) :
    w.draft.state.Follows w'.draft.changes w'.draft.state := by
  have hwalked : w'.draft.state.Covered ∧
      (w'.remaining = 0 ∨ State.OnlyRemoves w'.draft.changes) ∧
      w.draft.state.Follows w'.draft.changes w'.draft.state := by
    refine draw_keeps h ?_ ?_ ?_
    · rintro u v step ⟨hcu, honly, hf⟩
      obtain ⟨t, t', new, change, e⟩ := step.exists_effect
      have honly := honly.resolve_left step.remaining_ne
      have hr := e.realization
      have hreplaced := e.replaced
      refine ⟨step.covered hcu, ?_⟩
      rw [e.changes_eq]
      cases e.drawn with
      | closed =>
        exact ⟨Or.inr (honly.append rfl), (hf.realization hcu hr).leave honly hreplaced⟩
      | part hnominal hremaining =>
        exact ⟨Or.inl hremaining, hf.amend honly hcu hr hreplaced hnominal _⟩
    · rintro u owner share s hs ⟨hcu, honly, hf⟩
      obtain ⟨t, t', hr⟩ := State.exists_realization hs
      exact ⟨hcu.realization hr, honly, hf.realization hcu hr⟩
    · rw [hw]
      exact ⟨hc, Or.inr nofun, .refl _⟩
  exact hwalked.2.2

/-- **In every plan the ranking follows the troves.** -/
theorem planOf_follows (hc : l.state.Covered) {r : Request} {plan : Plan Answer}
    (h : l.planOf r = .ok plan) : l.state.Follows plan.draft.changes plan.draft.state := by
  cases planned_of_planOf h with
  | opened steps =>
    rw [Plan.draft_seen, steps.changes_eq]
    refine .enter steps.replaced ?_ _
    rw [State.nominalRatio_of_entire steps.replaced.entire_entered]
    exact steps.nominal_eq
  | adjusted steps =>
    obtain ⟨t, hr⟩ := steps.realization
    rw [Plan.draft_seen, steps.changes_eq]
    exact (State.Follows.refl _).amend nofun hc hr steps.replaced steps.nominal_eq _
  | closed steps =>
    obtain ⟨t, hr⟩ := steps.realization
    rw [Plan.draft_seen, steps.changes_eq]
    exact ((State.Follows.refl _).realization hc hr).leave nofun steps.replaced
  | realized state_eq _ changes_eq =>
    obtain ⟨t, t', hr⟩ := State.exists_realization state_eq
    rw [Plan.draft_seen, changes_eq]
    exact (State.Follows.refl _).realization hc hr
  | liquidated _ steps => exact steps.follows
  | redeemed steps =>
    rw [Plan.draft_seen, steps.changes_eq, steps.state_eq]
    exact (draw_follows steps.walked_eq hc rfl).rest rfl rfl
  | claimed _ state_eq _ changes_eq =>
    rw [Plan.draft_seen, changes_eq, state_eq]
    exact (State.Follows.refl _).rest rfl rfl
  | deposited _ state_eq _ changes_eq =>
    rw [Plan.draft_seen, changes_eq, state_eq]
    exact (State.Follows.refl _).rest rfl rfl
  | withdrawn _ _ state_eq _ changes_eq =>
    rw [Plan.draft_seen, changes_eq, state_eq]
    exact (State.Follows.refl _).rest rfl rfl

end Ledger

end Stablecoin
