/-
  Stablecoin theory — records are well formed.

  Records are never deleted.  A trove that is closed leaves an empty one behind,
  and an active trove always owes the floor at least and has collateral.  Opening,
  paying back and redeeming check the floor by code of their own; that there is
  collateral is not checked as such, but a nominal ratio of zero is refused where
  the trove is ranked (`RankChange.applyInTurn_ratio_ne_zero`).

  * `State.Filed`: records are filed under their owners, and empty unless active.
    Each change of a record keeps this, so that every plan does
    (`Ledger.planOf_filed`);
  * `State.Viable`: active troves owe the floor and have collateral.  Every plan
    keeps this whose changes of the ranking go through (`Ledger.planOf_viable`);
  * `Ledger.records_kept`: so does every run.
-/
import Stablecoin.Proofs.Consistency
import Stablecoin.Proofs.RankChanges
import Stablecoin.Proofs.TroveChanges

namespace Stablecoin

/-! ## Filing -/

namespace State

variable {s s' : State} {owner : Address} {t t' : Trove} {coll debt stake : Amount}
  {share : PendingShare} {status : TroveStatus}

/-- Every record is filed under its owner, and is empty unless its trove is active. -/
def Filed (s : State) : Prop := ∀ owner t, s.trove owner = some t →
  t.owner = owner ∧ (t.isActive = false → t = t.closed t.status)

namespace Filed

theorem congr (hs : s.Filed) (htroves : s'.troves = s.troves) : s'.Filed := by
  unfold Filed trove
  rw [htroves]
  exact hs

theorem insert (hs : s.Filed) (htroves : s'.troves = s.troves.insert owner t)
    (hkey : t.owner = owner) (hempty : t.isActive = false → t = t.closed t.status) :
    s'.Filed := by
  intro other u hu
  rw [trove, htroves, Table.get?_insert_of] at hu
  split at hu
  · next ho =>
    cases hu
    exact ⟨hkey.trans ho.symm, hempty⟩
  · exact hs other u hu

/-- The record of an active trove is written anew. -/
theorem rewrite (hs : s.Filed) (ht : s.activeTrove owner = .ok t)
    (htroves : s'.troves = s.troves.insert owner t') (hkey : t'.owner = t.owner)
    (hactive : t'.isActive = t.isActive) : s'.Filed := by
  obtain ⟨htrove, ha⟩ := Option.filter_eq_some_iff.1 (activeTrove_eq_ok.1 ht)
  refine hs.insert htroves (hkey.trans (hs owner t htrove).1) ?_
  intro hno
  rw [hactive, ha] at hno
  cases hno

theorem openTrove (hs : s.Filed) (h : s.openTrove owner coll debt = .ok s') : s'.Filed := by
  obtain ⟨-, count, -, rfl⟩ := openTrove_eq_ok_iff.1 h
  exact hs.insert rfl rfl nofun

theorem amend (hs : s.Filed) (h : s.amend owner coll debt = .ok s') : s'.Filed := by
  obtain ⟨t, ht, rfl⟩ := amend_eq_ok_iff.1 h
  exact hs.rewrite ht rfl rfl rfl

theorem restake (hs : s.Filed) (h : s.restake owner = .ok (stake, s')) : s'.Filed := by
  obtain ⟨t, total, ht, -, -, rfl⟩ := restake_eq_ok_iff.1 h
  exact hs.rewrite ht rfl rfl rfl

theorem unstake (hs : s.Filed) (h : s.unstake owner = .ok s') : s'.Filed := by
  obtain ⟨t, total, ht, -, rfl⟩ := unstake_eq_ok_iff.1 h
  exact hs.rewrite ht rfl rfl rfl

theorem realize (hs : s.Filed) (h : s.realize owner = .ok (share, s')) : s'.Filed := by
  obtain ⟨t, ht, ⟨coll, debt, pools, -, -, -, -, -, rfl⟩ | ⟨-, -, rfl⟩⟩ := realize_cases h
  · exact hs.rewrite ht rfl rfl rfl
  · exact hs

theorem release (hs : s.Filed) (h : s.release share = .ok s') : s'.Filed := by
  obtain ⟨pools, -, rfl⟩ := release_eq_ok_iff.1 h
  exact hs

/-- What a closed trove leaves is empty. -/
theorem closeTrove (hs : s.Filed) (h : s.closeTrove owner status = .ok s') : s'.Filed := by
  obtain ⟨-, t, ht, -, rfl⟩ := closeTrove_eq_ok_iff.1 h
  obtain ⟨htrove, -⟩ := Option.filter_eq_some_iff.1 (activeTrove_eq_ok.1 ht)
  exact hs.insert rfl (hs owner t htrove).1 fun _ => rfl

end Filed

end State

namespace Ledger

variable {l : Ledger}

theorem chargeFeeIf_filed {due : Bool} {d d' : Draft} {owner : Address}
    {amount limit fee : Amount} (h : chargeFeeIf due l d owner amount limit = .ok (fee, d'))
    (hd : d.state.Filed) : d'.state.Filed := by
  obtain ⟨⟨rate, hcharged⟩, -⟩ := chargeFeeIf_ok h
  rw [hcharged]
  exact hd.congr rfl

theorem SweepStep.filed {price : Amount} {listed : Bool} {w w' : Sweep}
    (step : SweepStep l price listed w w') (hw : w.draft.state.Filed) : w'.draft.state.Filed := by
  obtain ⟨released, unstaked, closed, surplus, hr, hu, hc, -, hstate, -⟩ := seize_ok step.draft_eq
  have hclosed := ((hw.release hr).unstake hu).closeTrove hc
  rw [hstate]
  exact hclosed.congr rfl

theorem DrawStep.filed {r : RedeemRequest} {price : Amount} {w w' : Drawing}
    (step : DrawStep l r price w w') (hw : w.draft.state.Filed) : w'.draft.state.Filed := by
  have hrealized := hw.realize step.realized_eq
  obtain ⟨_, _, _, _, -, -, -, -, -, -, ⟨-, hclosed⟩ | ⟨-, hpart⟩⟩ := redeemFrom_ok step.drawn_eq
  · obtain ⟨unstaked, closed, active, surplus, hu, hc, -, -, hstate, -⟩ := closeRedeemed_ok hclosed
    have hclosed := (hrealized.unstake hu).closeTrove hc
    rw [hstate]
    exact hclosed.congr rfl
  · obtain ⟨amended, stake, _, ha, hs, -⟩ := redeemPart_ok hpart
    exact (hrealized.amend ha).restake hs

/-- **Every plan keeps records filed under their owners, and empties those of closed troves.** -/
theorem planOf_filed (hl : l.state.Filed) {r : Request} {plan : Plan Answer}
    (h : l.planOf r = .ok plan) : plan.draft.state.Filed := by
  cases planned_of_planOf h with
  | opened steps =>
    have hcharged := chargeFeeIf_filed steps.charged_eq hl
    have hstaked := (hcharged.openTrove steps.opened_eq).restake steps.staked_eq
    simp only [Plan.draft_seen, steps.draft_eq, Draft.state_reportingStakes,
      Draft.state_reportingTrove, Draft.state_moving, Draft.state_ranking, Draft.state_withState]
    exact hstaked.congr rfl
  | adjusted steps =>
    have hcharged := chargeFeeIf_filed steps.charged_eq (hl.realize steps.realized_eq)
    have hstaked := (hcharged.amend steps.amended_eq).restake steps.staked_eq
    simp only [Plan.draft_seen, steps.draft_eq, Draft.state_reportingStakes,
      Draft.state_reportingTrove, Draft.state_moving, Draft.state_ranking, Draft.state_withState]
    exact hstaked.congr rfl
  | closed steps =>
    have hclosed := ((hl.realize steps.realized_eq).unstake steps.unstaked_eq).closeTrove
      steps.closed_eq
    simp only [Plan.draft_seen, steps.draft_eq, Draft.state_reportingStakes,
      Draft.state_reportingTrove, Draft.state_moving, Draft.state_ranking, Draft.state_start]
    exact hclosed.congr rfl
  | realized state_eq => exact hl.realize state_eq
  | liquidated _ steps =>
    have hswept : steps.swept.draft.state.Filed :=
      sweep_keeps steps.swept_eq (fun _ _ step hu => step.filed hu) hl
    exact hswept.congr steps.settled.troves_eq
  | redeemed steps =>
    have hwalked : steps.walked.draft.state.Filed :=
      draw_keeps steps.walked_eq (fun _ _ step hu => step.filed hu)
        (fun _ _ _ _ hs hu => hu.realize hs) hl
    rw [Plan.draft_seen, steps.state_eq]
    exact hwalked.congr rfl
  | claimed _ state_eq =>
    rw [Plan.draft_seen, state_eq]
    exact hl.congr rfl
  | deposited _ state_eq =>
    rw [Plan.draft_seen, state_eq]
    exact hl.congr rfl
  | withdrawn _ _ state_eq =>
    rw [Plan.draft_seen, state_eq]
    exact hl.congr rfl

end Ledger

/-! ## Floor and collateral -/

/-- The trove owes the floor and the reserve at least, and has collateral. -/
structure Trove.Viable (t : Trove) (p : Parameters) : Prop where
  floor_le : p.gasCompensation.val + p.minimumNetDebt.val ≤ t.debt.val
  coll_ne : t.coll ≠ 0

/-- A nominal ratio that is not rounded down to zero shows that there is collateral. -/
theorem Trove.viable_of_nominalRatio {p : Parameters} {t : Trove} {nominal : Amount}
    (hvalid : p.validate = .ok ())
    (hfloor : p.gasCompensation.val + p.minimumNetDebt.val ≤ t.debt.val)
    (hnominal : Amount.nominalRatio t.coll t.debt = .ok nominal) (h0 : nominal ≠ 0) :
    t.Viable p := by
  refine ⟨hfloor, ?_⟩
  intro hcoll
  have hpos := Amount.ne_zero_iff.1 (Parameters.consistent hvalid).minimumNetDebt_ne
  have hdebt : t.debt ≠ 0 := Amount.ne_zero_iff.2 (by omega)
  rw [Amount.nominalRatio, if_neg hdebt, Amount.mulDiv_eq_ok_iff, hcoll, Amount.val_zero,
    Nat.zero_mul, Nat.zero_div] at hnominal
  exact h0 (Amount.eq_zero_iff.2 hnominal.2)

namespace State

variable {s s' : State} {owner : Address} {t t' : Trove} {old new : Option Trove}
  {share : PendingShare} {p : Parameters}

/-- Every active trove is viable. -/
def Viable (s : State) (p : Parameters) : Prop :=
  ∀ owner t, s.activeAt owner = some t → t.Viable p

namespace Viable

theorem congr (hs : s.Viable p) (htroves : s'.troves = s.troves) : s'.Viable p := by
  unfold Viable activeAt trove
  rw [htroves]
  exact hs

theorem replaced (hs : s.Viable p) (h : s.Replaced owner old new s')
    (hnew : ∀ t, new = some t → t.Viable p) : s'.Viable p :=
  h.forall_active hs hnew

/-- A share only adds to a trove. -/
theorem grown (hs : s.Viable p) (h : s.Realization owner share t t' s') : t'.Viable p := by
  obtain ⟨hfloor, hcoll⟩ := hs owner t h.replaced.old_eq
  have hc : t'.coll.val = t.coll.val + share.coll.val := h.record_eq .coll
  have hd : t'.debt.val = t.debt.val + share.debt.val := h.record_eq .debt
  rw [Amount.ne_zero_iff] at hcoll
  exact ⟨by omega, Amount.ne_zero_iff.2 (by omega)⟩

theorem realize (hs : s.Viable p) (h : s.realize owner = .ok (share, s')) : s'.Viable p := by
  obtain ⟨t, t', hr⟩ := exists_realization h
  refine hs.replaced hr.replaced ?_
  rintro _ ⟨⟩
  exact hs.grown hr

end Viable

end State

namespace Ledger

variable {l : Ledger}

theorem demandDebtFloor_eq_ok_iff {netDebt : Amount} :
    l.demandDebtFloor netDebt = .ok () ↔ l.params.minimumNetDebt ≤ netDebt := demand_eq_ok_iff

/-- An adjustment keeps the floor: what is paid back is compared with it, and everything else only
adds to the debt. -/
theorem Adjustment.floor_le {r : AdjustRequest} {plan : Plan Adjusted} (a : Adjustment l r plan)
    (hfloor : l.params.gasCompensation.val + l.params.minimumNetDebt.val ≤ a.trove.debt.val) :
    l.params.gasCompensation.val + l.params.minimumNetDebt.val ≤ a.debt.val := by
  obtain ⟨-, -, hfee, -⟩ := chargeFeeIf_ok a.charged_eq
  have hchange := a.debtChange_eq
  obtain ⟨-, hgrown⟩ | ⟨hshrinks, hshrunk⟩ :=
    Amount.change_eq_ok_iff.1 (Change.apply_eq_ok_iff.1 a.changed_eq).2
  · omega
  have hshrinks : r.debtGrows = false := hshrinks
  have hshrunk : a.trove.debt.val = a.debt.val + a.debtChange.val := hshrunk
  have hfee0 := hfee (by rw [hshrinks, Bool.false_and])
  rw [hfee0, Amount.val_zero, Nat.add_zero] at hchange
  by_cases h0 : r.debt = 0
  · rw [h0, Amount.val_zero] at hchange
    omega
  · have hrepays : repays r = true := by simp [repays, hshrinks, h0]
    have hrepayable := a.repayable_eq hrepays
    simp only [demandRepayable, bind_eq_ok_iff, Trove.netDebt, Amount.sub_eq_ok_iff,
      Amount.minus_eq_ok_iff, demandDebtFloor_eq_ok_iff, Amount.le_iff_val_le] at hrepayable
    obtain ⟨net, hnet, _, -, rest, hrest, hle⟩ := hrepayable
    omega

theorem SweepStep.viable {price : Amount} {listed : Bool} {w w' : Sweep}
    (step : SweepStep l price listed w w') (hw : w.draft.state.Viable l.params) :
    w'.draft.state.Viable l.params := by
  obtain ⟨t, hreplaced, -⟩ := step.replaced
  exact hw.replaced hreplaced nofun

/-- A partial redemption is cancelled if it would leave less than the floor. -/
theorem redeemPart_floor {d d' : Draft} {r : RedeemRequest} {owner : Address} {coll debt : Amount}
    (h : l.redeemPart d r owner coll debt = .ok (some d')) :
    l.params.gasCompensation.val + l.params.minimumNetDebt.val ≤ debt.val := by
  simp only [redeemPart, bind_eq_ok_iff] at h
  obtain ⟨nominal, -, h⟩ := h
  split at h
  · cases h
  simp only [bind_eq_ok_iff, Amount.sub_eq_ok_iff] at h
  obtain ⟨net, hnet, h⟩ := h
  split at h
  · cases h
  next hle =>
  rw [Amount.lt_iff_val_lt] at hle
  omega

theorem DrawStep.viable {r : RedeemRequest} {price : Amount} {w w' : Drawing}
    (step : DrawStep l r price w w') (hvalid : l.params.validate = .ok ())
    (h0 : ∀ c ∈ w'.draft.changes, c.ratioAfter ≠ some 0) (hw : w.draft.state.Viable l.params) :
    w'.draft.state.Viable l.params := by
  have hrealized := hw.realize step.realized_eq
  obtain ⟨trove, _, _, _, htrove, -, -, -, -, -, ⟨-, hclosed⟩ | ⟨-, hpart⟩⟩ :=
    redeemFrom_ok step.drawn_eq
  · rw [State.activeTrove_eq_ok] at htrove
    exact State.Viable.replaced hrealized (closeRedeemed_replaced hclosed htrove).1 nofun
  · rw [State.activeTrove_eq_ok] at htrove
    obtain ⟨⟨stake, hreplaced⟩, -⟩ := redeemPart_replaced hpart htrove
    obtain ⟨_, _, nominal, -, -, -, hnominal, hchanges⟩ := redeemPart_ok hpart
    refine State.Viable.replaced hrealized hreplaced ?_
    rintro _ ⟨⟩
    refine Trove.viable_of_nominalRatio hvalid (redeemPart_floor hpart) hnominal ?_
    rintro rfl
    exact h0 (.reinsert step.owner 0 r.hints) (by rw [hchanges]; simp) rfl

/-- A redemption keeps all troves viable, if its last trove can be ranked again. -/
theorem draw_viable {r : RedeemRequest} {price : Amount} {w w' : Drawing} {owners : List Address}
    (h : l.draw r price w owners = .ok w') (hvalid : l.params.validate = .ok ())
    (h0 : ∀ c ∈ w'.draft.changes, c.ratioAfter ≠ some 0) (hw : w.draft.state.Viable l.params) :
    w'.draft.state.Viable l.params := by
  revert h0
  refine draw_keeps h ?_ ?_ fun _ => hw
  · intro u v step ih h0
    obtain ⟨_, _, _, _, e⟩ := step.exists_effect
    refine step.viable hvalid h0 (ih ?_)
    intro c hc
    refine h0 c ?_
    rw [e.changes_eq]
    exact List.mem_append_left _ hc
  · intro u owner share s hs ih h0
    exact State.Viable.realize (ih h0) hs

/-- **Every plan keeps active troves viable,** if its changes of the ranking go through. -/
theorem planOf_viable (hvalid : l.params.validate = .ok ()) (hl : l.state.Viable l.params)
    {r : Request} {plan : Plan Answer} (h : l.planOf r = .ok plan)
    (h0 : ∀ c ∈ plan.draft.changes, c.ratioAfter ≠ some 0) :
    plan.draft.state.Viable l.params := by
  cases planned_of_planOf h with
  | opened steps =>
    rw [Plan.draft_seen, steps.changes_eq, List.forall_mem_singleton] at h0
    refine hl.replaced steps.replaced ?_
    rintro _ ⟨⟩
    refine Trove.viable_of_nominalRatio hvalid ?_ steps.nominal_eq fun hz => h0 (congrArg some hz)
    have hfloor := demandDebtFloor_eq_ok_iff.1 steps.floor_eq
    have hdebt := steps.debt_eq
    rw [Amount.le_iff_val_le] at hfloor
    show _ ≤ steps.debt.val
    omega
  | adjusted steps =>
    rw [Plan.draft_seen, steps.changes_eq, List.forall_mem_singleton] at h0
    obtain ⟨t, hr⟩ := steps.realization
    refine (hl.realize steps.realized_eq).replaced steps.replaced ?_
    rintro _ ⟨⟩
    exact Trove.viable_of_nominalRatio hvalid (steps.floor_le (hl.grown hr).floor_le)
      steps.nominal_eq fun hz => h0 (congrArg some hz)
  | closed steps => exact (hl.realize steps.realized_eq).replaced steps.replaced nofun
  | realized state_eq => exact hl.realize state_eq
  | liquidated _ steps =>
    have hswept : steps.swept.draft.state.Viable l.params :=
      sweep_keeps steps.swept_eq (fun _ _ step hu => step.viable hu) hl
    exact hswept.congr steps.settled.troves_eq
  | redeemed steps =>
    rw [Plan.draft_seen, steps.changes_eq] at h0
    rw [Plan.draft_seen, steps.state_eq]
    exact (draw_viable steps.walked_eq hvalid h0 hl).congr rfl
  | claimed _ state_eq =>
    rw [Plan.draft_seen, state_eq]
    exact hl.congr rfl
  | deposited _ state_eq =>
    rw [Plan.draft_seen, state_eq]
    exact hl.congr rfl
  | withdrawn _ _ state_eq =>
    rw [Plan.draft_seen, state_eq]
    exact hl.congr rfl

/-! ## Runs -/

section

variable {params : Parameters} {accounts : ProtocolAccounts} {feed : PriceFeed} {token : TokenBook}
  {ranking : Ranking}

theorem after_filed (h : new params accounts feed token ranking = .ok l)
    (commands : List Command) : (l.after commands).state.Filed := by
  refine after_state (fun _ _ _ hl => planOf_filed hl) (fun _ _ _ _ hs => hs.congr rfl) ?_ commands
  rw [new_eq h]
  exact nofun

theorem after_viable (h : new params accounts feed token ranking = .ok l)
    (commands : List Command) : (l.after commands).state.Viable (l.after commands).params := by
  have hvalid : l.params.validate = .ok () := after_validate h []
  refine (after_of_step (P := fun l => l.params.validate = .ok () ∧ l.state.Viable l.params)
    (fun l c (_ : True) hl => ?_) (fun _ _ => trivial) ⟨hvalid, ?_⟩).2
  · obtain ⟨hvalid, hviable⟩ := hl
    rw [(obey_setup c).1]
    refine ⟨hvalid, ?_⟩
    obtain ⟨r, plan, -, hplan, hc⟩ | ⟨now, rate, -, hn⟩ := obey_state (l := l) c
    · obtain ⟨-, hchanges, -, hn⟩ := commit_ok hc
      rw [hn]
      exact planOf_viable hvalid hviable hplan (RankChange.applyInTurn_ratio_ne_zero hchanges)
    · rw [hn]
      exact hviable.congr rfl
  · rw [new_eq h]
    exact nofun

/-- What holds of every record that is stored, whether its trove is active or was closed. -/
structure RecordsKept (l : Ledger) : Prop where
  owner_eq : ∀ owner t, l.state.trove owner = some t → t.owner = owner
  /-- The floor counts the reserve. -/
  floor_le : ∀ owner t, l.state.trove owner = some t → t.status = .active →
    l.params.gasCompensation.val + l.params.minimumNetDebt.val ≤ t.debt.val
  coll_ne : ∀ owner t, l.state.trove owner = some t → t.status = .active → t.coll ≠ 0
  emptied : ∀ owner t, l.state.trove owner = some t → t.status ≠ .active →
    t.coll = 0 ∧ t.debt = 0 ∧ t.stake = 0 ∧ t.snapshot.coll = 0 ∧ t.snapshot.debt = 0

/-- **Records are well formed:** in every run of a new ledger each record is filed under its owner;
an active trove owes the floor at least and has collateral, and the record of any other is empty. -/
theorem records_kept (h : new params accounts feed token ranking = .ok l)
    (commands : List Command) : (l.after commands).RecordsKept := by
  have hfiled := after_filed h commands
  have hviable := after_viable h commands
  have viable_of_active : ∀ owner t, (l.after commands).state.trove owner = some t →
      t.status = .active → t.Viable (l.after commands).params := by
    intro owner t ht hactive
    exact hviable owner t (Option.filter_eq_some_iff.2 ⟨ht, decide_eq_true hactive⟩)
  constructor
  case owner_eq => exact fun owner t ht => (hfiled owner t ht).1
  case floor_le => exact fun owner t ht hactive => (viable_of_active owner t ht hactive).floor_le
  case coll_ne => exact fun owner t ht hactive => (viable_of_active owner t ht hactive).coll_ne
  case emptied =>
    intro owner t ht hclosed
    rw [(hfiled owner t ht).2 (decide_eq_false hclosed)]
    exact ⟨rfl, rfl, rfl, rfl, rfl⟩

end

/-- One trove goes on above the floor, and the other has left an empty record. -/
theorem records_kept_firstRedemption : ∃ l, starting .standard twoThousand = .ok l ∧
    ((l.after firstRedemption).state.trove ⟨2, by decide⟩).map Trove.status = some .active ∧
    ((l.after firstRedemption).state.trove ⟨3, by decide⟩).map Trove.status =
      some .closedByRedemption ∧
    (l.after firstRedemption).RecordsKept := by
  obtain ⟨l, h⟩ : ∃ l, starting .standard twoThousand = .ok l := ⟨_, starting_standard _⟩
  obtain ⟨hactive, hclosed⟩ :
      ((l.after firstRedemption).state.trove ⟨2, by decide⟩).map Trove.status = some .active ∧
      ((l.after firstRedemption).state.trove ⟨3, by decide⟩).map Trove.status =
        some .closedByRedemption := by
    rw [starting_eq h]
    decide +kernel
  exact ⟨l, h, hactive, hclosed, records_kept h firstRedemption⟩

end Ledger

end Stablecoin
