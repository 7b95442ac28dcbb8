/-
  Stablecoin theory — the ranking agrees with the troves.

  Which troves are active is kept three times: in the records, in the ranking, and
  as a count.  A plan computes the records and the count at once, and only stages
  its changes of the ranking, which are made when it is committed.

  * `State.Names`: whose trove is opened or closed is named by a change.  Every
    plan does so (`Ledger.planOf_names`);
  * `Ledger.InStep`: the ranking is sound, and ranked is who has an active trove.
    Accepted commands keep this (`obey_inStep`).  Refused ones may not: a trove
    can lose its place (`refused_but_changed`);
  * `Ledger.ranking_agrees`: so after any accepted run the ranking, the records and
    the count say the same.
-/
import Stablecoin.Proofs.RankOrder
import Stablecoin.Proofs.TroveRecords
import Stablecoin.Proofs.Verification

namespace Stablecoin

/-! ## Naming -/

namespace State

variable {s s₁ s₂ s' : State} {owner : Address} {t t' : Trove} {old new : Option Trove}
  {share : PendingShare} {changes : List RankChange} {c : RankChange}

/-- Who is not named by any change has an active trove if and only if there was one before. -/
def Names (s : State) (changes : List RankChange) (s' : State) : Prop :=
  ∀ owner, owner ∉ changes.map RankChange.owner → s'.isActive owner = s.isActive owner

theorem isActive_of_nominalRatio {ratio : Amount} (h : s.nominalRatio owner = .ok ratio) :
    s.isActive owner = true := by
  simp only [nominalRatio, entire, bind_eq_ok_iff, activeTrove_eq_ok] at h
  obtain ⟨_, ⟨t, ht, -⟩, -⟩ := h
  exact isActive_iff.2 ⟨t, ht⟩

namespace Names

theorem refl (s : State) : s.Names [] s := fun _ _ => rfl

theorem congr (hn : s.Names changes s₁) (htroves : s₂.troves = s₁.troves) :
    s.Names changes s₂ := by
  unfold Names isActive status trove
  rw [htroves]
  exact hn

/-- A trove that takes its share in stays active. -/
theorem realization (hn : s.Names changes s₁) (h : s₁.Realization owner share t t' s₂) :
    s.Names changes s₂ := by
  intro other ho
  rw [h.isActive_eq, hn other ho]

theorem realize (hn : s.Names changes s₁) (h : s₁.realize owner = .ok (share, s₂)) :
    s.Names changes s₂ := by
  obtain ⟨t, t', hr⟩ := exists_realization h
  exact hn.realization hr

/-- One more trove is replaced, and named. -/
theorem extend (hn : s.Names changes s₁) (h : s₁.Replaced c.owner old new s₂) :
    s.Names (changes ++ [c]) s₂ := by
  intro other ho
  rw [List.map_append, List.map_singleton, List.mem_append, List.mem_singleton, not_or] at ho
  rw [isActive_congr (h.others_eq other ho.2), hn other ho.1]

end Names

end State

namespace Ledger

variable {l next : Ledger} {c : Command} {answer : Option Answer}

theorem draw_names {r : RedeemRequest} {price : Amount} {w w' : Drawing} {owners : List Address}
    (h : l.draw r price w owners = .ok w') (hw : w.draft.changes = []) :
    w.draft.state.Names w'.draft.changes w'.draft.state := by
  refine draw_keeps h ?_ ?_ (by rw [hw]; exact .refl _)
  · intro u v step hn
    obtain ⟨_, _, _, _, e⟩ := step.exists_effect
    have hreplaced := e.replaced
    rw [e.changes_eq]
    cases e.drawn with
    | closed => exact (hn.realization e.realization).extend hreplaced
    | part => exact (hn.realization e.realization).extend hreplaced
  · exact fun u owner share s hs hn => hn.realize hs

/-- **Every plan names whose trove it opens or closes.** -/
theorem planOf_names {r : Request} {plan : Plan Answer} (h : l.planOf r = .ok plan) :
    l.state.Names plan.draft.changes plan.draft.state := by
  have hnone : l.state.Names [] l.state := .refl _
  cases planned_of_planOf h with
  | opened steps =>
    rw [Plan.draft_seen, steps.changes_eq]
    exact hnone.extend (c := .insert _ steps.nominal _) steps.replaced
  | adjusted steps =>
    rw [Plan.draft_seen, steps.changes_eq]
    exact (hnone.realize steps.realized_eq).extend (c := .reinsert _ steps.nominal _) steps.replaced
  | closed steps =>
    rw [Plan.draft_seen, steps.changes_eq]
    exact (hnone.realize steps.realized_eq).extend (c := .remove _) steps.replaced
  | realized state_eq _ changes_eq =>
    rw [Plan.draft_seen, changes_eq]
    exact hnone.realize state_eq
  | liquidated _ steps =>
    have hswept : l.state.Names steps.swept.draft.changes steps.swept.draft.state := by
      refine sweep_keeps steps.swept_eq ?_ hnone
      intro u v step hn
      obtain ⟨t, hreplaced, -⟩ := step.replaced
      rw [step.changes_eq]
      exact hn.extend (c := .remove step.owner) hreplaced
    rw [Plan.draft_seen, steps.changes_eq]
    exact hswept.congr steps.settled.troves_eq
  | redeemed steps =>
    rw [Plan.draft_seen, steps.changes_eq, steps.state_eq]
    exact (draw_names steps.walked_eq rfl).congr rfl
  | claimed _ state_eq _ changes_eq =>
    rw [Plan.draft_seen, changes_eq, state_eq]
    exact hnone.congr rfl
  | deposited _ state_eq _ changes_eq =>
    rw [Plan.draft_seen, changes_eq, state_eq]
    exact hnone.congr rfl
  | withdrawn _ _ state_eq _ changes_eq =>
    rw [Plan.draft_seen, changes_eq, state_eq]
    exact hnone.congr rfl

/-! ## Accepted commands -/

/-- The ranking is sound, and ranked is who has an active trove. -/
structure InStep (l : Ledger) : Prop where
  sound : l.ranking.Sound
  contains_eq : ∀ owner, l.ranking.contains owner = l.state.isActive owner

/-- What a change of the ranking says about an owner, the troves say too. -/
theorem commit_inStep {d : Draft} (hl : l.InStep) (hf : l.state.Follows d.changes d.state)
    (hn : l.state.Names d.changes d.state) (h : l.commit d = (.ok (), next)) : next.InStep := by
  obtain ⟨-, hchanges, -, hnext⟩ := commit_ok h
  have hsound := RankChange.applyInTurn_sound hl.sound d.changes
  rw [hchanges] at hsound
  obtain ⟨hset, hkept⟩ := RankChange.applyInTurn_ok hl.sound hf.nodup hchanges
  have hstate : next.state = d.state := by rw [hnext]
  refine ⟨hsound, ?_⟩
  intro owner
  rw [hstate]
  by_cases ho : owner ∈ d.changes.map RankChange.owner
  · obtain ⟨c, hc, rfl⟩ := List.mem_map.1 ho
    have hratio := hset c hc
    cases hafter : c.ratioAfter with
    | none =>
      rw [hafter] at hratio
      rw [Ranking.contains_eq_false_iff.2 hratio,
        State.isActive_eq_false_iff.2 (hf.removed c hc hafter)]
    | some ratio =>
      rw [hafter] at hratio
      rw [Ranking.contains_iff.2 ⟨ratio, hratio⟩]
      exact (State.isActive_of_nominalRatio (hf.placed c hc ratio hafter)).symm
  · rw [hn owner ho, ← hl.contains_eq owner, Ranking.contains, Ranking.contains]
    exact congrArg Option.isSome (hkept owner ho)

theorem obey_inStep (hc : l.state.Covered) (hl : l.InStep) (h : (l.obey c).1 = .ok answer) :
    (l.obey c).2.InStep := by
  by_cases hr : ∃ r, c = .request r
  · obtain ⟨r, rfl⟩ := hr
    obtain ⟨plan, hplan, -, hcommit⟩ | ⟨stop, hstop, -⟩ := obey_request_cases (l := l) r
    · exact commit_inStep hl (planOf_follows hc hplan) (planOf_names hplan) hcommit
    · rw [hstop] at h
      cases h
  · obtain ⟨-, _, _, _, _, hn, -⟩ := obey_control (l := l) fun r he => hr ⟨r, he⟩
    rw [hn]
    exact ⟨hl.sound, hl.contains_eq⟩

end Ledger

/-! ## Owners -/

namespace State

variable {s : State} {owner : Address}

theorem Filed.mem_owners_iff (hs : s.Filed) :
    owner ∈ s.activeTroves.map Trove.owner ↔ s.isActive owner = true := by
  have owner_eq : ∀ owner t, s.activeAt owner = some t → t.owner = owner := fun owner t ht =>
    (hs owner t (Option.filter_eq_some_iff.1 ht).1).1
  rw [isActive_iff, List.mem_map]
  constructor
  · rintro ⟨t, ht, rfl⟩
    obtain ⟨other, ho⟩ := mem_activeTroves.1 ht
    rw [owner_eq other t ho]
    exact ⟨t, ho⟩
  · rintro ⟨t, ht⟩
    exact ⟨t, mem_activeTroves.2 ⟨owner, ht⟩, owner_eq owner t ht⟩

/-- Nobody has two active troves. -/
theorem Filed.owners_nodup (hs : s.Filed) : (s.activeTroves.map Trove.owner).Nodup := by
  have hkeys : s.troves.values.map Trove.owner = s.troves.keys := by
    rw [Table.values, List.map_map]
    apply List.map_congr_left
    rintro ⟨owner, t⟩ hm
    exact (hs owner t (Table.get?_eq_some_iff.2 hm)).1
  have hsub : (s.activeTroves.map Trove.owner).Sublist s.troves.keys :=
    hkeys ▸ List.filter_sublist.map _
  exact s.troves.keys_nodup.sublist hsub

end State

/-! ## Runs -/

namespace Ledger

variable {start : Ledger} {params : Parameters} {accounts : ProtocolAccounts} {feed : PriceFeed}
  {token : TokenBook} {commands : List Command}

theorem after_inStep (h : new params accounts feed token .empty = .ok start)
    (hok : start.Accepted commands) : (start.after commands).InStep := by
  induction commands using List.reverseRecOn with
  | nil =>
    rw [new_eq h]
    exact ⟨Ranking.sound_empty, fun _ => rfl⟩
  | append_singleton commands c ih =>
    obtain ⟨hbefore, hn, answer, ho⟩ := after_snoc hok
    rw [hn]
    exact obey_inStep (after_covered h commands) (ih hbefore) ho

/-- The ranking says the same as the records of troves and their count. -/
structure RankingAgrees (l : Ledger) : Prop where
  /-- Ratios never rise from one place to the next. -/
  sorted : l.ranking.entries.Pairwise fun a b => b.2 ≤ a.2
  /-- The table has the ratios of the places, and no others. -/
  ratios_perm : l.ranking.ratios.entries.Perm l.ranking.entries
  /-- Nobody has two places. -/
  nodup : l.ranking.owners.Nodup
  mem_owners_iff : ∀ owner, owner ∈ l.ranking.owners ↔ l.state.status owner = .active
  owners_perm : l.ranking.owners.Perm (l.state.activeTroves.map Trove.owner)
  size_eq : l.ranking.size = l.state.activeCount.toNat

/-- **The ranking agrees with the troves:** after every run of a new ledger whose commands were all
accepted, it has the owners of active troves, each once and in the order of the ratios in its
table, and as many as are counted. -/
theorem ranking_agrees (h : new params accounts feed token .empty = .ok start)
    (hok : start.Accepted commands) : (start.after commands).RankingAgrees := by
  obtain ⟨hsound, hcontains⟩ := after_inStep h hok
  have hfiled := after_filed h commands
  have hperm : (start.after commands).ranking.owners.Perm
      ((start.after commands).state.activeTroves.map Trove.owner) := by
    rw [List.perm_ext_iff_of_nodup hsound.nodup hfiled.owners_nodup]
    intro owner
    rw [hsound.mem_owners_iff, hfiled.mem_owners_iff, hcontains owner]
  constructor
  case sorted => exact hsound.sorted
  case ratios_perm => exact hsound.ratios_perm
  case nodup => exact hsound.nodup
  case mem_owners_iff =>
    intro owner
    rw [hsound.mem_owners_iff, hcontains owner]
    exact decide_eq_true_iff
  case owners_perm => exact hperm
  case size_eq =>
    rw [(after_tallied h commands).count_eq, ← List.length_map Trove.owner, ← hperm.length_eq]
    exact (List.length_map _).symm

/-- The second trove is closed by redemption, and has left the ranking. -/
theorem ranking_agrees_firstRedemption : ∃ start, starting .standard twoThousand = .ok start ∧
    start.Accepted firstRedemption ∧
    (start.after firstRedemption).ranking.owners = [⟨2, by decide⟩] ∧
    (start.after firstRedemption).state.status ⟨3, by decide⟩ = .closedByRedemption ∧
    (start.after firstRedemption).RankingAgrees := by
  obtain ⟨start, h⟩ : ∃ start, starting .standard twoThousand = .ok start :=
    ⟨_, starting_standard _⟩
  have hrun : start.Accepted firstRedemption ∧
      (start.after firstRedemption).ranking.owners = [⟨2, by decide⟩] ∧
      (start.after firstRedemption).state.status ⟨3, by decide⟩ = .closedByRedemption := by
    rw [starting_eq h]
    decide +kernel
  obtain ⟨hok, howners, hclosed⟩ := hrun
  exact ⟨start, h, hok, howners, hclosed, ranking_agrees h hok⟩

end Ledger

end Stablecoin
