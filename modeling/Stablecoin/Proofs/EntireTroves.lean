/-
  Stablecoin theory — troves with their pending share.

  Every ratio is taken of what a trove holds with its pending share
  (`State.entire`).  Where its record has seen all that was spread, that is the
  record itself (`entire_of_seen`), and before a share is taken in it is what the
  record will be (`Realization.entire_eq`).  So the ratios that a plan computes
  from a record are those of the states before and after it, and taking a share in
  changes none (`Realization.nominalRatio_eq`), and nothing of what anybody holds
  (`Realization.contents_eq`).
-/
import Stablecoin.Proofs.DefaultPool

namespace Stablecoin

/-! ## Sums -/

theorem Redistribution.snapshot_eq_iff {r r' : Redistribution} :
    r'.snapshot = r.snapshot ↔ ∀ side, r'.on side = r.on side := by
  constructor
  · intro h side
    exact congrArg (Snapshot.on · side) h
  · intro h
    exact congrArg₂ Snapshot.mk (Amount.ext (h .coll)) (Amount.ext (h .debt))

theorem Redistribution.shareOf_seen {t : Trove} {sum seen : Amount} (h : seen = sum) :
    shareOf t sum seen = .ok 0 := by
  simp only [shareOf, bind_eq_ok_iff, Amount.sub_eq_ok_iff]
  exact ⟨0, by rw [h, Amount.val_zero, Nat.zero_add], if_pos (Or.inl rfl)⟩

namespace State

variable {s s₁ s' : State} {owner : Address} {t t' : Trove} {share : PendingShare}
  {whole : EntireTrove}

/-! ## Trove and share -/

/-- Only the record and the sums count. -/
theorem entire_congr (ht : s'.activeAt owner = s.activeAt owner)
    (hsums : s'.spread.snapshot = s.spread.snapshot) : s'.entire owner = s.entire owner := by
  have htrove : s'.activeTrove owner = s.activeTrove owner :=
    congrArg (demandSome (.troveNotFound owner)) ht
  have hcoll : s'.spread.coll = s.spread.coll := congrArg Snapshot.coll hsums
  have hdebt : s'.spread.debt = s.spread.debt := congrArg Snapshot.debt hsums
  have hpending : s'.spread.pending = s.spread.pending := by
    funext t
    simp only [Redistribution.pending, Redistribution.pendingColl, Redistribution.pendingDebt,
      hcoll, hdebt]
  have hentire : s'.spread.entire = s.spread.entire := by
    funext t
    simp only [Redistribution.entire, hpending]
  simp only [entire, htrove, hentire]

/-- Where nothing is pending, a trove holds what is in its record. -/
theorem entire_of_seen (ht : s.activeAt owner = some t)
    (hseen : ∀ side, t.snapshot.on side = s.spread.on side) :
    s.entire owner = .ok ⟨t.debt, t.coll, .none⟩ := by
  have hpending : s.spread.pending t = .ok .none := by
    simp only [Redistribution.pending, Redistribution.pendingColl, Redistribution.pendingDebt,
      Redistribution.shareOf_seen (Amount.ext (hseen .coll)),
      Redistribution.shareOf_seen (Amount.ext (hseen .debt))]
    rfl
  rw [entire, activeTrove_eq_ok.2 ht]
  simp only [Redistribution.entire, bind_eq_ok_iff, pure_eq_ok_iff, Amount.add_eq_ok_iff]
  exact ⟨_, rfl, _, hpending, _, rfl, _, rfl, rfl⟩

/-- **What a trove holds is what its record will be** once the share is taken in. -/
theorem Realization.entire_eq (hc : s.Covered) (h : s.Realization owner share t t' s') :
    s.entire owner = .ok ⟨t'.debt, t'.coll, share⟩ := by
  obtain ⟨-, hshare, -⟩ | ⟨-, rfl, rfl, rfl⟩ := h.share_cases
  · rw [entire, activeTrove_eq_ok.2 h.replaced.old_eq]
    simp only [Redistribution.entire, bind_eq_ok_iff, pure_eq_ok_iff, Amount.add_eq_ok_iff]
    exact ⟨_, rfl, share, hshare, _, h.record_eq .debt, _, h.record_eq .coll, rfl⟩
  · exact entire_of_seen h.replaced.old_eq (hc.seen_eq h)

/-- A trove that is entered holds what is in its record. -/
theorem Replaced.entire_entered {coll debt stake : Amount} (h : s.Replaced owner none
    (some ⟨owner, coll, debt, stake, .active, s.spread.snapshot⟩) s') :
    s'.entire owner = .ok ⟨debt, coll, .none⟩ := by
  refine entire_of_seen h.new_eq ?_
  intro side
  rw [(h.sums_eq side).1]
  rfl

/-- So does a trove whose record is written anew once its share is taken in. -/
theorem Replaced.entire_rewritten {coll debt stake : Amount} (hc : s.Covered)
    (hr : s.Realization owner share t t' s₁) (h : s₁.Replaced owner (some t')
      (some { t' with coll := coll, debt := debt, stake := stake }) s') :
    s'.entire owner = .ok ⟨debt, coll, .none⟩ := by
  refine entire_of_seen h.new_eq ?_
  intro side
  rw [(h.sums_eq side).1, hr.sums_eq]
  exact hc.seen_eq hr side

/-! ## Contents -/

/-- Collateral and debt of a trove, its share included. -/
def contents (s : State) (owner : Address) : Attempt Balance := do
  let whole ← s.entire owner
  return ⟨whole.coll, whole.debt⟩

theorem contents_of_entire (h : s.entire owner = .ok whole) :
    s.contents owner = .ok ⟨whole.coll, whole.debt⟩ := by
  rw [contents, h]
  rfl

theorem contents_congr (ht : s'.activeAt owner = s.activeAt owner)
    (hsums : s'.spread.snapshot = s.spread.snapshot) : s'.contents owner = s.contents owner := by
  rw [contents, contents, entire_congr ht hsums]

/-- **Taking a share in does not change what anybody holds.** -/
theorem Realization.contents_eq (hc : s.Covered) (h : s.Realization owner share t t' s')
    (other : Address) : s'.contents other = s.contents other := by
  by_cases ho : other = owner
  · subst ho
    have hseen : ∀ side, t'.snapshot.on side = s'.spread.on side := by
      intro side
      rw [h.sums_eq]
      exact hc.seen_eq h side
    rw [contents_of_entire (entire_of_seen h.replaced.new_eq hseen),
      contents_of_entire (h.entire_eq hc)]
  · exact contents_congr (h.replaced.others_eq other ho) (by rw [h.sums_eq])

/-! ## Ratios -/

/-- A nominal ratio is that of the contents. -/
theorem nominalRatio_eq_contents (s : State) (owner : Address) :
    s.nominalRatio owner =
      s.contents owner >>= fun held => Amount.nominalRatio held.coll held.debt := by
  rw [nominalRatio, contents, bind_assoc]
  rfl

theorem ratio_of_entire (h : s.entire owner = .ok whole) (price : Amount) :
    s.ratio owner price = Amount.ratio whole.coll whole.debt price := by
  rw [ratio, h]
  rfl

theorem nominalRatio_of_entire (h : s.entire owner = .ok whole) :
    s.nominalRatio owner = Amount.nominalRatio whole.coll whole.debt := by
  rw [nominalRatio, h]
  rfl

theorem nominalRatio_congr (ht : s'.activeAt owner = s.activeAt owner)
    (hsums : s'.spread.snapshot = s.spread.snapshot) :
    s'.nominalRatio owner = s.nominalRatio owner := by
  simp only [nominalRatio, entire_congr ht hsums]

/-- The ratio before a share is taken in is that of the record afterwards. -/
theorem Realization.ratio_eq (hc : s.Covered) (h : s.Realization owner share t t' s')
    (price : Amount) : s.ratio owner price = t'.ratio price :=
  ratio_of_entire (h.entire_eq hc) price

/-- **Taking a share in does not change a nominal ratio,** which has counted it before. -/
theorem Realization.nominalRatio_eq (hc : s.Covered) (h : s.Realization owner share t t' s')
    (other : Address) : s'.nominalRatio other = s.nominalRatio other := by
  rw [nominalRatio_eq_contents, nominalRatio_eq_contents, h.contents_eq hc]

end State

end Stablecoin
