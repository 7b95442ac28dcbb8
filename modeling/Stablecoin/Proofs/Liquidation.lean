/-
  Stablecoin theory — how troves are liquidated.

  A call visits its candidates and takes some of them.  What happens to one that
  is taken is a `Ledger.SweepStep`, and a visit of all candidates is a chain of
  them (`reflTransGen_of_sweep`); so what one step keeps, the visit keeps
  (`sweep_keeps`).
  `Ledger.Liquidation` names the steps of the whole plan.
-/
import Stablecoin.Proofs.Commit
import Stablecoin.Proofs.PoolChanges
import Stablecoin.Ledger.Liquidation

namespace Stablecoin

/-! ## Splits -/

/-- Sums with one more split. -/
theorem SplitTotals.including_ok {t t' : SplitTotals} {s : Split} (h : t.including s = .ok t') :
    t'.collReward.val = t.collReward.val + s.collReward.val ∧
      t'.debtReward.val = t.debtReward.val + s.debtReward.val ∧
      t'.debtOffset.val = t.debtOffset.val + s.debtOffset.val ∧
      t'.collOffset.val = t.collOffset.val + s.collOffset.val ∧
      t'.debtSpread.val = t.debtSpread.val + s.debtSpread.val ∧
      t'.collSpread.val = t.collSpread.val + s.collSpread.val ∧
      t'.surplus.val = t.surplus.val + s.surplus.val := by
  simp only [including, bind_eq_ok_iff, pure_eq_ok_iff, Amount.add_eq_ok_iff] at h
  obtain ⟨_, -, _, -, _, h1, _, h2, _, h3, _, h4, _, h5, _, h6, _, h7, rfl⟩ := h
  exact ⟨h1, h2, h3, h4, h5, h6, h7⟩

namespace Split

variable {debt coll deposits price : Amount} {p : Parameters} {s : Split}

/-- Without debt to cancel, depositors get no collateral. -/
theorem divide_collOffset {d : Division} (h : divide debt coll deposits = .ok d)
    (h0 : d.debtOffset = 0) : d.collOffset = 0 := by
  unfold divide at h
  split at h
  · cases h
    rfl
  next hn =>
  simp only [bind_eq_ok_iff, pure_eq_ok_iff] at h
  obtain ⟨collOffset, -, debtSpread, -, collSpread, -, rfl⟩ := h
  rw [Amount.eq_zero_iff, Amount.val_min] at h0
  rw [not_or, Amount.eq_zero_iff, Amount.eq_zero_iff] at hn
  omega

/-- Whatever the split, the liquidator gets the reserve. -/
theorem normal_debtReward (h : normal debt coll deposits p = .ok s) :
    s.debtReward = p.gasCompensation := by
  simp only [normal, bind_eq_ok_iff, pure_eq_ok_iff] at h
  obtain ⟨reward, -, rest, -, d, -, rfl⟩ := h
  rfl

theorem redistributed_debtReward (h : redistributed debt coll p = .ok s) :
    s.debtReward = p.gasCompensation := by
  simp only [redistributed, bind_eq_ok_iff, pure_eq_ok_iff] at h
  obtain ⟨reward, -, rest, -, rfl⟩ := h
  rfl

theorem capped_debtReward (h : capped debt coll price p = .ok s) :
    s.debtReward = p.gasCompensation := by
  simp only [capped, bind_eq_ok_iff, pure_eq_ok_iff] at h
  obtain ⟨cap, -, reward, -, collOffset, -, surplus, -, rfl⟩ := h
  rfl

theorem normal_collOffset (h : normal debt coll deposits p = .ok s) (h0 : s.debtOffset = 0) :
    s.collOffset = 0 := by
  simp only [normal, bind_eq_ok_iff, pure_eq_ok_iff] at h
  obtain ⟨reward, -, rest, -, d, hd, rfl⟩ := h
  exact divide_collOffset hd h0

theorem redistributed_collOffset (h : redistributed debt coll p = .ok s) : s.collOffset = 0 := by
  simp only [redistributed, bind_eq_ok_iff, pure_eq_ok_iff] at h
  obtain ⟨reward, -, rest, -, rfl⟩ := h
  rfl

theorem capped_collOffset (h : capped debt coll price p = .ok s) (h0 : s.debtOffset = 0) :
    s.collOffset = 0 := by
  simp only [capped, bind_eq_ok_iff, pure_eq_ok_iff, Amount.mulDiv_eq_ok_iff,
    Amount.sub_eq_ok_iff] at h
  obtain ⟨cap, ⟨-, hcap⟩, reward, -, collOffset, ho, surplus, -, rfl⟩ := h
  dsimp only at h0 ⊢
  rw [h0, Amount.val_zero, Nat.zero_mul, Nat.zero_div] at hcap
  rw [Amount.eq_zero_iff]
  omega

/-- Depositors take the whole debt of a trove whose collateral is capped. -/
theorem capped_debtSpread (h : capped debt coll price p = .ok s) : s.debtSpread = 0 := by
  simp only [capped, bind_eq_ok_iff, pure_eq_ok_iff] at h
  obtain ⟨cap, -, reward, -, collOffset, -, surplus, -, rfl⟩ := h
  rfl

theorem inRecovery_cases {ratio systemRatio : Amount}
    (h : inRecovery debt coll ratio systemRatio price deposits p = .ok (some s)) :
    (ratio ≤ Amount.unit ∧ redistributed debt coll p = .ok s) ∨
      (ratio < p.minimumRatio ∧ normal debt coll deposits p = .ok s) ∨
      (ratio < systemRatio ∧ debt ≤ deposits ∧ capped debt coll price p = .ok s) := by
  unfold inRecovery at h
  split at h
  · next hr =>
    simp only [bind_eq_ok_iff, pure_eq_ok_iff, Option.some.injEq] at h
    obtain ⟨_, h, rfl⟩ := h
    exact Or.inl ⟨hr, h⟩
  split at h
  · next hr =>
    simp only [bind_eq_ok_iff, pure_eq_ok_iff, Option.some.injEq] at h
    obtain ⟨_, h, rfl⟩ := h
    exact Or.inr (Or.inl ⟨hr, h⟩)
  split at h
  · next hd =>
    simp only [bind_eq_ok_iff, pure_eq_ok_iff, Option.some.injEq] at h
    obtain ⟨_, h, rfl⟩ := h
    exact Or.inr (Or.inr ⟨hd.1, hd.2, h⟩)
  · cases h

end Split

namespace Ledger

variable {l : Ledger} {price : Amount} {listed : Bool}

/-! ## One trove -/

/-- The terms on which a trove is taken, by the mode of the visit. -/
theorem judge_terms {w : Sweep} {whole : EntireTrove} {split : Split}
    (h : l.judge price listed w whole = .ok (.take split)) :
    ∃ ratio, Amount.ratio whole.coll whole.debt price = .ok ratio ∧
      ((w.normal = true ∧ ratio < l.params.minimumRatio ∧
          Split.normal whole.debt whole.coll w.deposits l.params = .ok split) ∨
        (w.normal = false ∧ ∃ systemRatio, Amount.ratio w.coll w.debt price = .ok systemRatio ∧
          Split.inRecovery whole.debt whole.coll ratio systemRatio price w.deposits l.params =
            .ok (some split))) := by
  simp only [judge, bind_eq_ok_iff] at h
  obtain ⟨ratio, hratio, h⟩ := h
  refine ⟨ratio, hratio, ?_⟩
  split at h
  · next hmode =>
    split at h
    · next hr =>
      simp only [bind_eq_ok_iff, pure_eq_ok_iff, Verdict.take.injEq] at h
      obtain ⟨_, h, rfl⟩ := h
      exact Or.inl ⟨hmode, hr, h⟩
    · rw [pure_eq_ok_iff] at h
      cases listed <;> cases h
  next hmode =>
  split at h
  · rw [pure_eq_ok_iff] at h
    cases listed <;> cases h
  split at h
  · cases h
  simp only [bind_eq_ok_iff] at h
  obtain ⟨systemRatio, hsystem, choice, hchoice, h⟩ := h
  cases choice with
  | none => cases h
  | some _ =>
    cases h
    exact Or.inr ⟨Bool.eq_false_iff.2 hmode, systemRatio, hsystem, hchoice⟩

/-- The ways in which a trove that is taken can be split, by its ratio. -/
theorem judge_take {w : Sweep} {whole : EntireTrove} {split : Split}
    (h : l.judge price listed w whole = .ok (.take split)) :
    ∃ ratio, Amount.ratio whole.coll whole.debt price = .ok ratio ∧
      ((ratio ≤ Amount.unit ∧ Split.redistributed whole.debt whole.coll l.params = .ok split) ∨
        (ratio < l.params.minimumRatio ∧
          Split.normal whole.debt whole.coll w.deposits l.params = .ok split) ∨
        (whole.debt ≤ w.deposits ∧
          Split.capped whole.debt whole.coll price l.params = .ok split)) := by
  obtain ⟨ratio, hratio, ⟨-, h⟩ | ⟨-, _, -, h⟩⟩ := judge_terms h
  · exact ⟨ratio, hratio, Or.inr (Or.inl h)⟩
  · obtain h | h | ⟨-, h⟩ := Split.inRecovery_cases h
    · exact ⟨ratio, hratio, Or.inl h⟩
    · exact ⟨ratio, hratio, Or.inr (Or.inl h)⟩
    · exact ⟨ratio, hratio, Or.inr (Or.inr h)⟩

/-- Depositors get collateral of a trove that is taken only if they cancel debt of it. -/
theorem judge_collOffset {w : Sweep} {whole : EntireTrove} {split : Split}
    (h : l.judge price listed w whole = .ok (.take split)) (h0 : split.debtOffset = 0) :
    split.collOffset = 0 := by
  obtain ⟨-, -, ⟨-, h⟩ | ⟨-, h⟩ | ⟨-, h⟩⟩ := judge_take h
  · exact Split.redistributed_collOffset h
  · exact Split.normal_collOffset h h0
  · exact Split.capped_collOffset h h0

/-- The liquidator gets the reserve of each trove that is taken. -/
theorem judge_debtReward {w : Sweep} {whole : EntireTrove} {split : Split}
    (h : l.judge price listed w whole = .ok (.take split)) :
    split.debtReward = l.params.gasCompensation := by
  obtain ⟨-, -, ⟨-, h⟩ | ⟨-, h⟩ | ⟨-, h⟩⟩ := judge_take h
  · exact Split.redistributed_debtReward h
  · exact Split.normal_debtReward h
  · exact Split.capped_debtReward h

/-- The steps of seizing a trove. -/
theorem seize_ok {d d' : Draft} {owner : Address} {whole : EntireTrove} {split : Split}
    {touch : Touch} (h : seize d owner whole split touch = .ok d') :
    ∃ released unstaked closed surplus, d.state.release whole.pending = .ok released ∧
      released.unstake owner = .ok unstaked ∧
      unstaked.closeTrove owner .closedByLiquidation = .ok closed ∧
      closed.pools.surplus.creditedLeft owner split.surplus = .ok surplus ∧
      d'.state = { closed with pools := { closed.pools with surplus := surplus } } ∧
      d'.moves = d.moves ∧ d'.changes = d.changes ++ [.remove owner] := by
  simp only [seize, bind_eq_ok_iff, pure_eq_ok_iff] at h
  obtain ⟨released, h1, unstaked, h2, closed, h3, surplus, h4, rfl⟩ := h
  refine ⟨released, unstaked, closed, surplus, h1, h2, h3, h4, by simp, by simp, ?_⟩
  unfold Draft.reportingTrove
  split <;> rfl

/-- What is seized stays in the active pool, but for the surplus, which is booked twice until the
totals are settled. -/
theorem seize_books {d d' : Draft} {owner : Address} {whole : EntireTrove} {split : Split}
    {touch : Touch} (h : seize d owner whole split touch = .ok d') :
    d'.state.pools.coll = d.state.pools.coll + split.surplus.val ∧
      d'.state.pools.debt = d.state.pools.debt ∧ d'.state.stability = d.state.stability := by
  obtain ⟨released, unstaked, closed, surplus, hr, hu, hc, hs, hd, -⟩ := seize_ok h
  obtain ⟨hr₁, hr₂, hr₃⟩ := State.release_books hr
  obtain ⟨hu₁, hu₂⟩ := State.unstake_books hu
  obtain ⟨hc₁, hc₂⟩ := State.closeTrove_books hc
  have ht := Surplus.creditedLeft_total hs
  rw [hd]
  refine ⟨?_, ?_, ?_⟩
  · rw [← hr₁, ← hu₁, ← hc₁]
    simp only [Pools.coll]
    omega
  · rw [← hr₂, ← hu₁, ← hc₁]
    rfl
  · rw [← hr₃, ← hu₂, ← hc₂]

/-- A candidate is taken. -/
structure SweepStep (l : Ledger) (price : Amount) (listed : Bool) (w w' : Sweep) where
  owner : Address
  whole : EntireTrove
  split : Split
  touch : Touch
  active : w.draft.state.isActive owner = true
  whole_eq : w.draft.state.entire owner = .ok whole
  judge_eq : l.judge price listed w whole = .ok (.take split)
  take_eq : l.take price w owner whole split = .ok w'
  draft_eq : seize w.draft owner whole split touch = .ok w'.draft
  totals_eq : w.totals.including split = .ok w'.totals
  owners_eq : w'.owners = w.owners ++ [owner]
  deposits_eq : w.deposits.val = w'.deposits.val + split.debtOffset.val

theorem sweepStep_of_take {w w' : Sweep} {owner : Address} {whole : EntireTrove} {split : Split}
    (ha : w.draft.state.isActive owner = true) (hw : w.draft.state.entire owner = .ok whole)
    (hj : l.judge price listed w whole = .ok (.take split))
    (h : l.take price w owner whole split = .ok w') : Nonempty (SweepStep l price listed w w') := by
  have htake := h
  simp only [take, bind_eq_ok_iff, pure_eq_ok_iff, Amount.sub_eq_ok_iff] at h
  obtain ⟨d, hd, u, hu, deposits, hdep, totals, ht, rfl⟩ := h
  have hsame : u.totals = w.totals ∧ u.owners = w.owners ∧ u.deposits = w.deposits := by
    split at hu
    · cases hu
      exact ⟨rfl, rfl, rfl⟩
    · simp only [systemAfter, bind_eq_ok_iff, pure_eq_ok_iff] at hu
      obtain ⟨debt, -, leaving, -, coll, -, recovery, -, rfl⟩ := hu
      exact ⟨rfl, rfl, rfl⟩
  obtain ⟨h1, h2, h3⟩ := hsame
  exact ⟨⟨owner, whole, split, _, ha, hw, hj, htake, hd, h1 ▸ ht, by rw [h2], h3 ▸ hdep⟩⟩

/-! ## All troves -/

/-- A visit of candidates is a chain of steps. -/
theorem reflTransGen_of_sweep {w w' : Sweep} {candidates : List Address}
    (h : l.sweep price listed w candidates = .ok w') :
    Relation.ReflTransGen (fun u v => Nonempty (SweepStep l price listed u v)) w w' := by
  induction candidates generalizing w with
  | nil =>
    cases h
    exact .refl
  | cons owner rest ih =>
    rw [sweep] at h
    split at h
    · next ha =>
      simp only [bind_eq_ok_iff] at h
      obtain ⟨whole, hw, verdict, hj, h⟩ := h
      cases verdict with
      | pass => exact ih h
      | halt =>
        cases h
        exact .refl
      | take split =>
        simp only [bind_eq_ok_iff] at h
        obtain ⟨next, ht, h⟩ := h
        exact .head (sweepStep_of_take ha hw hj ht) (ih h)
    · exact ih h

/-- **What one step keeps, a visit keeps.** -/
@[elab_as_elim]
theorem sweep_keeps {P : Sweep → Prop} {w w' : Sweep} {candidates : List Address}
    (h : l.sweep price listed w candidates = .ok w')
    (hstep : ∀ u v, SweepStep l price listed u v → P u → P v) (hw : P w) : P w' := by
  have hchain := reflTransGen_of_sweep h
  clear h
  induction hchain with
  | refl => exact hw
  | tail _ step ih =>
    obtain ⟨step⟩ := step
    exact hstep _ _ step ih

/-- What a visit of candidates does to the books: only the surplus is booked, deposits are set
aside for the debt that is to be cancelled, and no tokens move. -/
theorem sweep_books {w w' : Sweep} {candidates : List Address}
    (h : l.sweep price listed w candidates = .ok w') :
    w'.draft.state.pools.coll + w.totals.surplus.val =
        w.draft.state.pools.coll + w'.totals.surplus.val ∧
      w'.draft.state.pools.debt = w.draft.state.pools.debt ∧
      w'.draft.state.stability = w.draft.state.stability ∧ w'.draft.moves = w.draft.moves ∧
      w'.totals.debtOffset.val + w'.deposits.val = w.totals.debtOffset.val + w.deposits.val := by
  refine sweep_keeps h ?_ ⟨rfl, rfl, rfl, rfl, rfl⟩
  rintro u v step ⟨ih₁, ih₂, ih₃, ih₄, ih₅⟩
  obtain ⟨h₁, h₂, h₃⟩ := seize_books step.draft_eq
  obtain ⟨-, -, hoffset, -, -, -, hsurplus⟩ := SplitTotals.including_ok step.totals_eq
  obtain ⟨-, -, -, -, -, -, -, -, -, hmoves, -⟩ := seize_ok step.draft_eq
  have hdeposits := step.deposits_eq
  exact ⟨by omega, h₂.trans ih₂, h₃.trans ih₃, hmoves.trans ih₄, by omega⟩

/-- Where no debt is to be cancelled there is no collateral for depositors, so that nothing is
forgotten when they are left out. -/
theorem sweep_collOffset {w w' : Sweep} {candidates : List Address}
    (h : l.sweep price listed w candidates = .ok w')
    (hw : w.totals.debtOffset.val = 0 → w.totals.collOffset.val = 0)
    (h0 : w'.totals.debtOffset.val = 0) : w'.totals.collOffset.val = 0 := by
  revert h0
  refine sweep_keeps h ?_ hw
  intro u v step ih h0
  obtain ⟨-, -, hdebt, hcoll, -, -, -⟩ := SplitTotals.including_ok step.totals_eq
  have hsplit := judge_collOffset step.judge_eq (Amount.eq_zero_iff.2 (by omega))
  rw [hcoll, ih (by omega), hsplit, Amount.val_zero]

/-! ## The plan -/

theorem lessActive_eq_ok_iff {s s' : State} {coll debt : Amount} :
    lessActive s coll debt = .ok s' ↔ ∃ active, s.pools.active.decreased coll debt = .ok active ∧
      s' = { s with pools := { s.pools with active := active } } := by
  simp only [lessActive, bind_eq_ok_iff, pure_eq_ok_iff]
  exact exists_congr fun _ => and_congr_right fun _ => eq_comm

/-- Either there is debt for the depositors, or nothing changes. -/
theorem settleOffset_cases {d d' : Draft} {t : SplitTotals} (h : l.settleOffset d t = .ok d') :
    (t.debtOffset = 0 ∧ d' = d) ∨
      (t.debtOffset ≠ 0 ∧ ∃ stability active,
        d.state.stability.offset t.debtOffset t.collOffset = .ok stability ∧
        d.state.pools.active.decreased t.collOffset t.debtOffset = .ok active ∧
        d'.state = { d.state with
          stability := stability
          pools := { d.state.pools with active := active } } ∧
        d'.moves = d.moves ++ (TokenMove.burn l.accounts.stabilityPool t.debtOffset).orNone ∧
        d'.changes = d.changes) := by
  unfold settleOffset at h
  split at h
  · next h0 => cases h; exact Or.inl ⟨h0, rfl⟩
  next h0 =>
  simp only [bind_eq_ok_iff, pure_eq_ok_iff, lessActive_eq_ok_iff] at h
  obtain ⟨stability, hs, _, ⟨active, ha, rfl⟩, rfl⟩ := h
  exact Or.inr ⟨h0, stability, active, hs, ha, by simp, by simp, by simp⟩

/-- The depositors' part moves from the active to the stability pool, and its debt is burned. -/
theorem settleOffset_books {d d' : Draft} {t : SplitTotals}
    (hready : t.debtOffset ≠ 0 → d.state.stability.deposits ≠ 0)
    (h : l.settleOffset d t = .ok d') :
    d'.state.pools.coll + d'.state.stability.coll.val =
        d.state.pools.coll + d.state.stability.coll.val ∧
      d'.state.pools.debt + TokenMove.burnedBy d'.moves =
        d.state.pools.debt + TokenMove.burnedBy d.moves ∧
      TokenMove.mintedBy d'.moves = TokenMove.mintedBy d.moves := by
  obtain ⟨-, rfl⟩ | ⟨h0, stability, active, hs, ha, hstate, hmoves, -⟩ := settleOffset_cases h
  · exact ⟨rfl, rfl, rfl⟩
  obtain ⟨hno, -⟩ | ⟨⟨b⟩⟩ := StabilityPool.offset_cases hs
  · exact absurd hno (not_or.2 ⟨hready h0, h0⟩)
  have hcoll := b.coll_eq
  have hactive := Balance.decreased_eq_ok_iff.1 ha
  rw [hstate, hmoves]
  simp only [Pools.coll, Pools.debt, TokenMove.burnedBy_append, TokenMove.mintedBy_append,
    TokenMove.burnedBy_orNone, TokenMove.mintedBy_orNone, TokenMove.burned, TokenMove.minted]
  refine ⟨?_, ?_, ?_⟩ <;> omega

/-- Either there is debt for the other troves, or nothing changes. -/
theorem settleSpread_cases {d d' : Draft} {t : SplitTotals} (h : settleSpread d t = .ok d') :
    (t.debtSpread = 0 ∧ d' = d) ∨
      (t.debtSpread ≠ 0 ∧ d.state.redistribute t.collSpread t.debtSpread = .ok d'.state ∧
        d'.moves = d.moves ∧ d'.changes = d.changes) := by
  unfold settleSpread at h
  split at h
  · next h0 => cases h; exact Or.inl ⟨h0, rfl⟩
  next h0 =>
  simp only [bind_eq_ok_iff, pure_eq_ok_iff] at h
  obtain ⟨s, hs, rfl⟩ := h
  exact Or.inr ⟨h0, hs, rfl, rfl⟩

theorem settleSpread_books {d d' : Draft} {t : SplitTotals} (h : settleSpread d t = .ok d') :
    d'.state.pools.coll = d.state.pools.coll ∧ d'.state.pools.debt = d.state.pools.debt ∧
      d'.state.stability = d.state.stability ∧ d'.moves = d.moves := by
  obtain ⟨-, rfl⟩ | ⟨-, hr, hm, -⟩ := settleSpread_cases h
  · exact ⟨rfl, rfl, rfl, rfl⟩
  · obtain ⟨h₁, h₂, h₃⟩ := State.redistribute_books hr
    exact ⟨h₁, h₂, h₃, hm⟩

/-- Surplus and reward leave the active pool, and the reserve goes to the liquidator. -/
theorem settleRest_ok {d d' : Draft} {liquidator : Address} {t : SplitTotals}
    (h : l.settleRest d liquidator t = .ok d') :
    ∃ less noted active, d.state.pools.active.decreased t.surplus 0 = .ok less ∧
      State.note { d.state with pools := { d.state.pools with active := less } } t.collReward =
        .ok noted ∧
      noted.pools.active.decreased t.collReward 0 = .ok active ∧
      d'.state = { noted with pools := { noted.pools with active := active } } ∧
      d'.moves = d.moves ++
        (TokenMove.fromPool l.accounts.gasPool liquidator t.debtReward).orNone ∧
      d'.changes = d.changes := by
  simp only [settleRest, bind_eq_ok_iff, pure_eq_ok_iff, lessActive_eq_ok_iff] at h
  obtain ⟨_, ⟨less, hl, rfl⟩, noted, hn, _, ⟨active, ha, rfl⟩, rfl⟩ := h
  exact ⟨less, noted, active, hl, hn, ha, by simp, by simp, by simp⟩

/-- Surplus and reward leave the pools. -/
theorem settleRest_books {d d' : Draft} {liquidator : Address} {t : SplitTotals}
    (h : l.settleRest d liquidator t = .ok d') :
    d'.state.pools.coll + t.surplus.val + t.collReward.val = d.state.pools.coll ∧
      d'.state.pools.debt = d.state.pools.debt ∧ d'.state.stability = d.state.stability ∧
      TokenMove.burnedBy d'.moves = TokenMove.burnedBy d.moves ∧
      TokenMove.mintedBy d'.moves = TokenMove.mintedBy d.moves := by
  obtain ⟨less, noted, active, hless, hn, ha, hstate, hmoves, -⟩ := settleRest_ok h
  obtain ⟨hn₁, hn₂⟩ := State.note_books hn
  rw [hn₁] at hstate ha
  have hsurplus := Balance.decreased_eq_ok_iff.1 hless
  have hreward := Balance.decreased_eq_ok_iff.1 ha
  rw [hstate, hmoves]
  simp only [Pools.coll, Pools.debt, TokenMove.burnedBy_append, TokenMove.mintedBy_append,
    TokenMove.burnedBy_orNone, TokenMove.mintedBy_orNone, TokenMove.burned, TokenMove.minted,
    Amount.val_zero] at *
  exact ⟨by omega, by omega, hn₂, rfl, rfl⟩

/-- The steps of a liquidation. -/
structure Liquidation (l : Ledger) (liquidator : Address) (targets : Targets)
    (plan : Plan Liquidated) where
  price : Amount
  system : SystemRatio
  /-- What the visit of the candidates has left. -/
  swept : Sweep
  offset : Draft
  spread : Draft
  price_eq : l.price = .ok price
  system_eq : l.evaluate price = .ok system
  swept_eq : l.sweep price targets.areListed
    ⟨.start l.state, .zero, [], system.coll, system.debt, l.state.stability.deposits,
      !system.recovery⟩ (l.candidates system.recovery targets) = .ok swept
  nonempty : swept.totals.isEmpty = false
  offset_eq : l.settleOffset swept.draft swept.totals = .ok offset
  spread_eq : settleSpread offset swept.totals = .ok spread
  draft_eq : l.settleRest spread liquidator swept.totals = .ok plan.draft
  answer_eq : plan.answer = ⟨swept.owners, system.recovery, swept.totals⟩

theorem exists_liquidation {liquidator : Address} {targets : Targets} {plan : Plan Liquidated}
    (h : l.planLiquidation liquidator targets = .ok plan) :
    Nonempty (Liquidation l liquidator targets plan) := by
  simp only [planLiquidation, bind_eq_ok_iff, pure_eq_ok_iff] at h
  obtain ⟨price, h1, system, h2, swept, h3, _, h4, offset, h5, spread, h6, draft, h7, rfl⟩ := h
  exact ⟨⟨price, system, swept, offset, spread, h1, h2, h3, demand_eq_ok_iff.1 h4, h5, h6, h7, rfl⟩⟩

/-- The sweep sets deposits aside for the debt that is to be cancelled, so that there are some. -/
theorem Liquidation.ready {liquidator : Address} {targets : Targets} {plan : Plan Liquidated}
    (q : Liquidation l liquidator targets plan) (h0 : q.swept.totals.debtOffset ≠ 0) :
    q.swept.draft.state.stability.deposits ≠ 0 := by
  obtain ⟨-, -, hpool, -, hdeposits⟩ := sweep_books q.swept_eq
  simp only [Draft.state_start, SplitTotals.zero, Amount.val_zero] at hpool hdeposits
  rw [hpool]
  rw [Amount.ne_zero_iff] at h0 ⊢
  omega

/-- **What a liquidation does to the books:** the reward leaves them, and the debt that deposits
cancel is burned. -/
theorem Liquidation.books {liquidator : Address} {targets : Targets} {plan : Plan Liquidated}
    (q : Liquidation l liquidator targets plan) :
    plan.draft.state.pools.coll + plan.draft.state.stability.coll.val +
        plan.answer.totals.collReward.val = l.state.pools.coll + l.state.stability.coll.val ∧
      plan.draft.state.pools.debt + TokenMove.burnedBy plan.draft.moves = l.state.pools.debt ∧
      TokenMove.mintedBy plan.draft.moves = 0 := by
  obtain ⟨hcoll, hdebt, hpool, hmoves, -⟩ := sweep_books q.swept_eq
  simp only [Draft.state_start, Draft.moves_start, SplitTotals.zero, Amount.val_zero] at *
  obtain ⟨ho₁, ho₂, ho₃⟩ := settleOffset_books q.ready q.offset_eq
  obtain ⟨hs₁, hs₂, hs₃, hs₄⟩ := settleSpread_books q.spread_eq
  obtain ⟨hr₁, hr₂, hr₃, hr₄, hr₅⟩ := settleRest_books q.draft_eq
  rw [hmoves, TokenMove.burnedBy_nil] at ho₂
  rw [hmoves, TokenMove.mintedBy_nil] at ho₃
  rw [hs₃] at hr₃
  rw [hs₄] at hr₄ hr₅
  rw [q.answer_eq, hr₃, hr₄, hr₅, ← hdebt, ← hpool]
  dsimp only
  refine ⟨?_, ?_, ?_⟩ <;> omega

end Ledger

end Stablecoin
