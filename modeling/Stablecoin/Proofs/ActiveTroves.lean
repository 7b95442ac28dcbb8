/-
  Stablecoin theory — active troves and their totals.

  What is kept about troves is kept twice: in their records, and in totals that
  are moved along.  Whatever is done to the trove of one owner leaves the others
  alone, so that every total over the active troves moves by the difference of two
  records.  `State.Replaced` says so once, for all totals.

  * `Side` tells collateral from debt where both are treated alike;
  * `State.activeAt` is the active trove of an owner, `State.sumActive` a total;
  * `Replaced.enter`, `Replaced.rewrite` and `Replaced.leave` are what opening,
    changing and closing do to a trove, and `State.Realization` is what taking its
    share in does.
-/
import Stablecoin.Proofs.StateChanges
import Stablecoin.Proofs.Totals

namespace Stablecoin

/-! ## Collateral and debt -/

/-- The two sides of every account. -/
inductive Side
  | coll
  | debt
deriving DecidableEq

/-- The amount on one side. -/
def Side.of (side : Side) (coll debt : Amount) : Nat :=
  match side with
  | .coll => coll.val
  | .debt => debt.val

/-- What a pool holds on one side. -/
def Balance.on (b : Balance) (side : Side) : Nat := side.of b.coll b.debt

/-- What a record holds on one side. -/
def Trove.on (t : Trove) (side : Side) : Nat := side.of t.coll t.debt

/-- What waits on one side. -/
def PendingShare.on (share : PendingShare) (side : Side) : Nat := side.of share.coll share.debt

theorem Balance.increased_on {b b' : Balance} {coll debt : Amount}
    (h : b.increased coll debt = .ok b') (side : Side) : b'.on side = b.on side + side.of coll debt := by
  obtain ⟨hc, hd⟩ := increased_eq_ok_iff.1 h
  cases side
  · exact hc
  · exact hd

theorem Balance.decreased_on {b b' : Balance} {coll debt : Amount}
    (h : b.decreased coll debt = .ok b') (side : Side) : b.on side = b'.on side + side.of coll debt := by
  obtain ⟨hc, hd⟩ := decreased_eq_ok_iff.1 h
  cases side
  · exact hc
  · exact hd

theorem Pools.realized_on {p p' : Pools} {share : PendingShare}
    (h : p.realized share.coll share.debt = .ok p') (side : Side) :
    p'.active.on side = p.active.on side + share.on side ∧
      p.default.on side = p'.default.on side + share.on side := by
  obtain ⟨ha, hd, -, -⟩ := realized_eq_ok_iff.1 h
  exact ⟨Balance.increased_on ha side, Balance.decreased_on hd side⟩

namespace State

variable {s s₁ s₂ s' : State} {owner : Address} {t : Trove} {old mid mid' new : Option Trove}

/-! ## Active troves -/

/-- The active trove of an owner, if there is one. -/
def activeAt (s : State) (owner : Address) : Option Trove := (s.trove owner).filter Trove.isActive

theorem activeTrove_eq_ok : s.activeTrove owner = .ok t ↔ s.activeAt owner = some t := by
  rw [activeTrove, demandSome_eq_ok_iff, activeAt]

theorem isActive_of_activeAt (h : s.activeAt owner = some t) : t.isActive = true :=
  (Option.filter_eq_some_iff.1 h).2

theorem isActive_iff : s.isActive owner = true ↔ ∃ t, s.activeAt owner = some t := by
  unfold isActive status activeAt
  cases s.trove owner with
  | none => simp
  | some t => simp [Trove.isActive]

theorem isActive_eq_false_iff : s.isActive owner = false ↔ s.activeAt owner = none := by
  rw [← Bool.not_eq_true, isActive_iff, Option.eq_none_iff_forall_ne_some]
  exact not_exists

theorem isActive_congr (h : s'.activeAt owner = s.activeAt owner) :
    s'.isActive owner = s.isActive owner := by
  rw [Bool.eq_iff_iff, isActive_iff, isActive_iff, h]

theorem mem_activeTroves : t ∈ s.activeTroves ↔ ∃ owner, s.activeAt owner = some t := by
  simp only [activeTroves, List.mem_filter, Table.mem_values_iff, activeAt, trove,
    Option.filter_eq_some_iff, exists_and_right]

/-! ## Totals -/

/-- The total of a measure over the records of active troves. -/
def sumActive (s : State) (f : Trove → Nat) : Nat := (s.activeTroves.map f).sum

theorem sum_map_filter {α : Type} (p : α → Bool) (f : α → Nat) (xs : List α) :
    ((xs.filter p).map f).sum = (xs.map fun x => if p x then f x else 0).sum := by
  induction xs with
  | nil => rfl
  | cons x rest ih =>
    rw [List.map_cons, List.sum_cons, ← ih]
    cases hp : p x <;> simp [hp]

theorem sumActive_eq (s : State) (f : Trove → Nat) :
    s.sumActive f = s.troves.sum fun t => if t.isActive then f t else 0 := sum_map_filter _ _ _

theorem elim_filter (f : Trove → Nat) (t : Trove) :
    ((some t).filter Trove.isActive).elim 0 f = if t.isActive then f t else 0 := by
  rw [Option.filter_some]
  split <;> rfl

theorem part_troves (s : State) (f : Trove → Nat) (owner : Address) :
    s.troves.part (fun t => if t.isActive then f t else 0) owner =
      (s.activeAt owner).elim 0 f := by
  unfold Table.part activeAt trove
  cases s.troves.get? owner with
  | none => rfl
  | some t => exact (elim_filter f t).symm

theorem elim_le_sumActive (s : State) (f : Trove → Nat) (owner : Address) :
    (s.activeAt owner).elim 0 f ≤ s.sumActive f := by
  rw [← part_troves, sumActive_eq]
  exact Table.part_le_sum _ (fun _ _ _ => Nat.zero_le _) owner

theorem sumActive_congr {f g : Trove → Nat} (h : ∀ owner t, s.activeAt owner = some t → f t = g t) :
    s.sumActive f = s.sumActive g := by
  unfold sumActive
  congr 1
  apply List.map_congr_left
  intro t ht
  obtain ⟨owner, ho⟩ := mem_activeTroves.1 ht
  exact h owner t ho

theorem sumActive_le {f g : Trove → Nat} (h : ∀ owner t, s.activeAt owner = some t → f t ≤ g t) :
    s.sumActive f ≤ s.sumActive g := by
  apply List.sum_le_sum
  intro t ht
  obtain ⟨owner, ho⟩ := mem_activeTroves.1 ht
  exact h owner t ho

/-! ## Replacing a trove -/

/-- The active trove of one owner is replaced, and the sum of the stakes moves with it.  Either
side may be missing: then a trove is entered or removed. -/
structure Replaced (s : State) (owner : Address) (old new : Option Trove) (s' : State) : Prop where
  old_eq : s.activeAt owner = old
  new_eq : s'.activeAt owner = new
  others_eq : ∀ other, other ≠ owner → s'.activeAt other = s.activeAt other
  sum_eq : ∀ f, s'.sumActive f + old.elim 0 f = s.sumActive f + new.elim 0 f
  stakes_eq : s'.spread.totalStakes.val + old.elim 0 (fun t => t.stake.val) =
    s.spread.totalStakes.val + new.elim 0 (fun t => t.stake.val)
  spread_eq : s'.spread = { s.spread with totalStakes := s'.spread.totalStakes }

namespace Replaced

/-- Writing the record of an owner replaces its trove. -/
theorem of_insert (hold : s.activeAt owner = old) (hnew : (some t).filter Trove.isActive = new)
    (htroves : s'.troves = s.troves.insert owner t)
    (hspread : s'.spread = { s.spread with totalStakes := s'.spread.totalStakes })
    (hstakes : s'.spread.totalStakes.val + old.elim 0 (fun t => t.stake.val) =
      s.spread.totalStakes.val + new.elim 0 (fun t => t.stake.val)) :
    s.Replaced owner old new s' := by
  refine ⟨hold, ?_, ?_, ?_, hstakes, hspread⟩
  · rw [← hnew, activeAt, trove, htroves, Table.get?_insert_of, if_pos rfl]
  · intro other ho
    rw [activeAt, trove, htroves, Table.get?_insert_of, if_neg ho]
    rfl
  · intro f
    have hsum := Table.sum_insert (fun t => if t.isActive then f t else 0) s.troves owner t
    rw [part_troves, hold] at hsum
    rw [sumActive_eq, htroves, hsum, sumActive_eq, ← hnew, elim_filter]

/-- What holds of all active troves, holds of all if it holds of the new one. -/
theorem forall_active {Q : Trove → Prop} (h : s.Replaced owner old new s')
    (hs : ∀ owner t, s.activeAt owner = some t → Q t) (hnew : ∀ t, new = some t → Q t) :
    ∀ owner t, s'.activeAt owner = some t → Q t := by
  intro other t ht
  by_cases ho : other = owner
  · rw [ho, h.new_eq] at ht
    exact hnew t ht
  · rw [h.others_eq other ho] at ht
    exact hs other t ht

/-- The count of active troves moves with them. -/
theorem length_eq (h : s.Replaced owner old new s') :
    s'.activeTroves.length + old.elim 0 (fun _ => 1) =
      s.activeTroves.length + new.elim 0 fun _ => 1 := by
  have hsum := h.sum_eq fun _ => 1
  simpa [sumActive] using hsum

/-- What takes the place of an active trove is one active trove or none. -/
theorem length_le (h : s.Replaced owner (some t) new s') :
    s'.activeTroves.length ≤ s.activeTroves.length := by
  have hlength := h.length_eq
  cases new <;> simp only [Option.elim_some, Option.elim_none] at hlength <;> omega

theorem trans (h₁ : s.Replaced owner old mid s₁) (h₂ : s₁.Replaced owner mid' new s₂) :
    s.Replaced owner old new s₂ := by
  obtain rfl : mid' = mid := h₂.old_eq.symm.trans h₁.new_eq
  refine ⟨h₁.old_eq, h₂.new_eq, ?_, ?_, ?_, ?_⟩
  · intro other ho
    rw [h₂.others_eq other ho, h₁.others_eq other ho]
  · intro f
    have := h₁.sum_eq f
    have := h₂.sum_eq f
    omega
  · have := h₁.stakes_eq
    have := h₂.stakes_eq
    omega
  · rw [h₂.spread_eq, h₁.spread_eq]

/-- What else is changed in a state does not matter. -/
theorem congr (h : s.Replaced owner old new s') (hs : s₁.troves = s.troves ∧ s₁.spread = s.spread)
    (hs' : s₂.troves = s'.troves ∧ s₂.spread = s'.spread) : s₁.Replaced owner old new s₂ := by
  have hold : s₁.activeAt = s.activeAt := by
    unfold activeAt trove
    rw [hs.1]
  have hnew : s₂.activeAt = s'.activeAt := by
    unfold activeAt trove
    rw [hs'.1]
  refine ⟨hold ▸ h.old_eq, hnew ▸ h.new_eq, ?_, ?_, ?_, ?_⟩
  · rw [hold, hnew]
    exact h.others_eq
  · intro f
    rw [sumActive_eq, sumActive_eq, hs.1, hs'.1, ← sumActive_eq, ← sumActive_eq]
    exact h.sum_eq f
  · rw [hs.2, hs'.2]
    exact h.stakes_eq
  · rw [hs.2, hs'.2]
    exact h.spread_eq

end Replaced

/-! ## Single changes -/

theorem filter_active (h : t.isActive = true) : (some t).filter Trove.isActive = some t :=
  Option.filter_eq_some_iff.2 ⟨rfl, h⟩

theorem openTrove_replaced {coll debt : Amount} (h : s.openTrove owner coll debt = .ok s') :
    s.Replaced owner none (some ⟨owner, coll, debt, 0, .active, s.spread.snapshot⟩) s' := by
  obtain ⟨hi, count, -, rfl⟩ := openTrove_eq_ok_iff.1 h
  exact .of_insert (isActive_eq_false_iff.1 hi) (filter_active rfl) rfl rfl rfl

theorem restake_replaced {stake : Amount} (h : s.restake owner = .ok (stake, s')) :
    ∃ t, s.activeAt owner = some t ∧
      s.Replaced owner (some t) (some { t with stake := stake }) s' := by
  obtain ⟨t, total, ht, -, htotal, rfl⟩ := restake_eq_ok_iff.1 h
  rw [activeTrove_eq_ok] at ht
  have hactive := isActive_of_activeAt ht
  simp only [Redistribution.stakesAfter, bind_eq_ok_iff, Amount.sub_eq_ok_iff,
    Amount.add_eq_ok_iff] at htotal
  obtain ⟨rest, hrest, htotal⟩ := htotal
  refine ⟨t, ht, .of_insert ht (filter_active hactive) rfl rfl ?_⟩
  simp only [Option.elim_some]
  omega

theorem unstake_replaced (h : s.unstake owner = .ok s') :
    ∃ t, s.activeAt owner = some t ∧
      s.Replaced owner (some t) (some { t with stake := 0 }) s' := by
  obtain ⟨t, total, ht, htotal, rfl⟩ := unstake_eq_ok_iff.1 h
  rw [activeTrove_eq_ok] at ht
  have hactive := isActive_of_activeAt ht
  rw [Amount.sub_eq_ok_iff] at htotal
  refine ⟨t, ht, .of_insert ht (filter_active hactive) rfl rfl ?_⟩
  exact htotal.symm

theorem amend_replaced {coll debt : Amount} (h : s.amend owner coll debt = .ok s') :
    ∃ t, s.activeAt owner = some t ∧
      s.Replaced owner (some t) (some { t with coll := coll, debt := debt }) s' := by
  obtain ⟨t, ht, rfl⟩ := amend_eq_ok_iff.1 h
  rw [activeTrove_eq_ok] at ht
  have hactive := isActive_of_activeAt ht
  exact ⟨t, ht, .of_insert ht (filter_active hactive) rfl rfl rfl⟩

/-- A trove without a stake can be closed. -/
theorem closeTrove_replaced {status : TroveStatus} (h : s.closeTrove owner status = .ok s')
    (ht : s.activeAt owner = some t) (h0 : t.stake = 0) : s.Replaced owner (some t) none s' := by
  obtain ⟨hc, u, hu, -, rfl⟩ := closeTrove_eq_ok_iff.1 h
  rw [activeTrove_eq_ok, ht, Option.some.injEq] at hu
  subst hu
  have hnew : (some (t.closed status)).filter Trove.isActive = none := by
    cases status <;> first | rfl | cases hc
  refine .of_insert ht hnew rfl rfl ?_
  simp [withTrove, h0]

/-! ## Whole changes -/

/-- **A trove is opened.** -/
theorem Replaced.enter {coll debt stake : Amount} (ho : s.openTrove owner coll debt = .ok s₁)
    (hs : s₁.restake owner = .ok (stake, s')) :
    s.Replaced owner none (some ⟨owner, coll, debt, stake, .active, s.spread.snapshot⟩) s' := by
  have hopen := openTrove_replaced ho
  obtain ⟨t, ht, hstake⟩ := restake_replaced hs
  rw [hopen.new_eq, Option.some.injEq] at ht
  subst ht
  exact hopen.trans hstake

/-- **A trove is changed.** -/
theorem Replaced.rewrite {coll debt stake : Amount} (ha : s.amend owner coll debt = .ok s₁)
    (hs : s₁.restake owner = .ok (stake, s')) :
    ∃ t, s.Replaced owner (some t)
      (some { t with coll := coll, debt := debt, stake := stake }) s' := by
  obtain ⟨t, -, hamend⟩ := amend_replaced ha
  obtain ⟨u, hu, hstake⟩ := restake_replaced hs
  rw [hamend.new_eq, Option.some.injEq] at hu
  subst hu
  exact ⟨t, hamend.trans hstake⟩

/-- **A trove is closed.** -/
theorem Replaced.leave {status : TroveStatus} (hu : s.unstake owner = .ok s₁)
    (hc : s₁.closeTrove owner status = .ok s') : ∃ t, s.Replaced owner (some t) none s' := by
  obtain ⟨t, -, hunstake⟩ := unstake_replaced hu
  exact ⟨t, hunstake.trans (closeTrove_replaced hc hunstake.new_eq rfl)⟩

/-- **A trove takes its share in:** its record grows by the share, which comes out of the default
and into the active pool. -/
structure Realization (s : State) (owner : Address) (share : PendingShare) (t t' : Trove)
    (s' : State) : Prop where
  replaced : s.Replaced owner (some t) (some t') s'
  record_eq : ∀ side, t'.on side = t.on side + share.on side
  active_eq : ∀ side, s'.pools.active.on side = s.pools.active.on side + share.on side
  default_eq : ∀ side, s.pools.default.on side = s'.pools.default.on side + share.on side
  stake_eq : t'.stake = t.stake
  sums_eq : s'.spread = s.spread
  share_cases : (s.spread.isBehind t = true ∧ s.spread.pending t = .ok share ∧
      t'.snapshot = s.spread.snapshot) ∨
    (s.spread.isBehind t = false ∧ share = .none ∧ t' = t ∧ s' = s)

/-- A trove that takes its share in stays active. -/
theorem Realization.isActive_eq {share : PendingShare} {t t' : Trove}
    (h : s.Realization owner share t t' s') (other : Address) :
    s'.isActive other = s.isActive other := by
  by_cases ho : other = owner
  · subst ho
    rw [isActive_iff.2 ⟨t, h.replaced.old_eq⟩, isActive_iff.2 ⟨t', h.replaced.new_eq⟩]
  · exact isActive_congr (h.replaced.others_eq other ho)

theorem exists_realization {share : PendingShare} (h : s.realize owner = .ok (share, s')) :
    ∃ t t', Realization s owner share t t' s' := by
  obtain ⟨t, ht, ⟨coll, debt, pools, hb, hs, hcoll, hdebt, hpools, rfl⟩ | ⟨hb, rfl, rfl⟩⟩ :=
    realize_cases h
  · rw [activeTrove_eq_ok] at ht
    have hactive := isActive_of_activeAt ht
    refine ⟨t, { t with coll := coll, debt := debt, snapshot := s.spread.snapshot },
      .of_insert ht (filter_active hactive) rfl rfl rfl, ?_,
      fun side => (Pools.realized_on hpools side).1, fun side => (Pools.realized_on hpools side).2,
      rfl, rfl, Or.inl ⟨hb, hs, rfl⟩⟩
    intro side
    cases side
    · exact hcoll
    · exact hdebt
  · rw [activeTrove_eq_ok] at ht
    have hnone : ∀ side, PendingShare.none.on side = 0 := by
      intro side
      cases side <;> rfl
    refine ⟨t, t, ⟨ht, ht, fun _ _ => rfl, fun _ => rfl, rfl, rfl⟩, ?_, ?_, ?_, rfl, rfl,
      Or.inr ⟨hb, rfl, rfl, rfl⟩⟩ <;> intro side <;> rw [hnone, Nat.add_zero]

/-- Taking a share in leaves claims alone. -/
theorem realize_surplus {share : PendingShare} (h : s.realize owner = .ok (share, s')) :
    s'.pools.surplus = s.pools.surplus := by
  obtain ⟨t, -, ⟨coll, debt, pools, -, -, -, -, hpools, rfl⟩ | ⟨-, -, rfl⟩⟩ := realize_cases h
  · obtain ⟨-, -, hsurplus, -⟩ := Pools.realized_eq_ok_iff.1 hpools
    exact hsurplus
  · rfl

end State

end Stablecoin
