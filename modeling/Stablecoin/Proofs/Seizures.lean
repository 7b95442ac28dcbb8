/-
  Stablecoin theory — what a liquidation takes.

  A visit takes some of its candidates, each at most once, and what it does to one
  reaches no other: whoever comes later is still judged by what they held before the
  call.  So a visit is told by the list of what it took, in terms of the ledger that
  it began with.

  * `Sweep.InMode` is how the mode of a visit goes on from that of the call: never
    from Normal to Recovery Mode, and back only once the system is healthy again;
  * `Seizure` is one trove that was taken, and `Sweep.Took` what a visit has done;
  * `Ledger.Liquidation.took`: every liquidation has taken such a list.
-/
import Stablecoin.Proofs.EntireTroves

namespace Stablecoin

/-- A trove that was taken: whose it was, what it held, and where that went. -/
structure Seizure where
  owner : Address
  whole : EntireTrove
  split : Split

/-- A visit that began in Normal Mode stays in it, and one that is in Recovery Mode sees a system
below the critical ratio. -/
structure Sweep.InMode (w : Sweep) (l : Ledger) (price : Amount) (recovery : Bool) : Prop where
  normal_of : recovery = false → w.normal = true
  recovery_of : w.normal = false → isRecovery w.coll w.debt price l.params = .ok true

/-- What a visit has done since it began with the ledger: which troves it took, one after another,
how each was judged by what it held at the beginning, and what it left alone. -/
structure Sweep.Took (w : Sweep) (l : Ledger) (price : Amount) (recovery listed : Bool)
    (seized : List Seizure) : Prop where
  inMode : w.InMode l price recovery
  owners_eq : w.owners = seized.map Seizure.owner
  owners_nodup : w.owners.Nodup
  totals_eq : seized.foldlM (fun t z => t.including z.split) SplitTotals.zero = .ok w.totals
  judged : ∀ z ∈ seized, ∃ u : Sweep, u.InMode l price recovery ∧
    l.judge price listed u z.whole = .ok (.take z.split)
  entire_eq : ∀ z ∈ seized, l.state.entire z.owner = .ok z.whole
  gone : ∀ owner ∈ w.owners, w.draft.state.activeAt owner = none
  rest_eq : ∀ owner ∉ w.owners, w.draft.state.activeAt owner = l.state.activeAt owner
  sums_eq : w.draft.state.spread.snapshot = l.state.spread.snapshot
  claims_eq : ∀ z ∈ seized, (w.draft.state.pools.surplus.claimable z.owner).val =
    (l.state.pools.surplus.claimable z.owner).val + z.split.surplus.val
  otherClaims_eq : ∀ owner ∉ w.owners,
    w.draft.state.pools.surplus.claimable owner = l.state.pools.surplus.claimable owner

theorem Sweep.Took.owner_mem {w : Sweep} {l : Ledger} {price : Amount} {recovery listed : Bool}
    {seized : List Seizure} (hw : w.Took l price recovery listed seized) {z : Seizure}
    (hz : z ∈ seized) : z.owner ∈ w.owners := by
  rw [hw.owners_eq]
  exact List.mem_map_of_mem hz

/-- A part of the totals is the sum of that part over the troves. -/
theorem SplitTotals.sum_eq {part : SplitTotals → Nat} {partOf : Split → Nat}
    (hpart : ∀ {t t' : SplitTotals} {s : Split}, t.including s = .ok t' →
      part t' = part t + partOf s) {seized : List Seizure} {t t' : SplitTotals}
    (h : seized.foldlM (fun t z => t.including z.split) t = .ok t') :
    part t' = part t + (seized.map fun z => partOf z.split).sum := by
  induction seized generalizing t with
  | nil =>
    cases h
    rfl
  | cons z rest ih =>
    rw [List.foldlM_cons, bind_eq_ok_iff] at h
    obtain ⟨next, hnext, h⟩ := h
    rw [ih h, hpart hnext, List.map_cons, List.sum_cons, Nat.add_assoc]

namespace Ledger

variable {l : Ledger} {price : Amount} {recovery listed : Bool} {w w' : Sweep}
  {seized : List Seizure}

/-! ## One trove -/

theorem isRecovery_eq {coll debt ratio : Amount} {p : Parameters}
    (h : Amount.ratio coll debt price = .ok ratio) :
    isRecovery coll debt price p = .ok (decide (ratio < p.criticalRatio)) := by
  rw [isRecovery, h]
  rfl

/-- In Recovery Mode the mode is found anew after each trove that is taken. -/
theorem take_mode {owner : Address} {whole : EntireTrove} {split : Split}
    (h : l.take price w owner whole split = .ok w') :
    w.normal = true ∧ w'.normal = true ∨
      w.normal = false ∧ isRecovery w'.coll w'.debt price l.params = .ok (!w'.normal) := by
  simp only [take, bind_eq_ok_iff, pure_eq_ok_iff] at h
  obtain ⟨d, -, u, hu, deposits, -, totals, -, rfl⟩ := h
  split at hu
  · next hmode =>
    cases hu
    exact Or.inl ⟨hmode, hmode⟩
  · next hmode =>
    simp only [systemAfter, bind_eq_ok_iff, pure_eq_ok_iff] at hu
    obtain ⟨debt, -, leaving, -, coll, -, mode, hr, rfl⟩ := hu
    refine Or.inr ⟨Bool.eq_false_iff.2 hmode, ?_⟩
    rw [Bool.not_not]
    exact hr

theorem SweepStep.inMode (step : SweepStep l price listed w w') (hw : w.InMode l price recovery) :
    w'.InMode l price recovery := by
  rcases take_mode step.take_eq with ⟨-, hmode⟩ | ⟨hmode, hnext⟩
  · exact ⟨fun _ => hmode, fun hno => absurd (hmode.symm.trans hno) nofun⟩
  · refine ⟨?_, ?_⟩
    · intro hnormal
      exact absurd ((hw.normal_of hnormal).symm.trans hmode) nofun
    · intro hrecovery
      rw [hnext, hrecovery]
      rfl

/-- The trove that a step takes was not taken before. -/
theorem SweepStep.fresh (step : SweepStep l price listed w w')
    (hw : w.Took l price recovery listed seized) : step.owner ∉ w.owners := by
  intro hmem
  obtain ⟨t, ht⟩ := State.isActive_iff.1 step.active
  exact absurd (ht.symm.trans (hw.gone _ hmem)) nofun

/-- A step adds the trove that it takes. -/
theorem SweepStep.took (step : SweepStep l price listed w w')
    (hw : w.Took l price recovery listed seized) :
    w'.Took l price recovery listed (seized ++ [⟨step.owner, step.whole, step.split⟩]) := by
  have hfresh := step.fresh hw
  obtain ⟨t, hreplaced, -⟩ := step.replaced
  obtain ⟨hclaim, hclaims⟩ := Surplus.creditedLeft_claimable step.credited
  have hnot : ∀ {owner : Address}, owner ∉ w'.owners → owner ∉ w.owners ∧ owner ≠ step.owner := by
    intro owner ho
    rw [step.owners_eq, List.mem_append, List.mem_singleton, not_or] at ho
    exact ho
  constructor
  case inMode => exact step.inMode hw.inMode
  case owners_eq => rw [step.owners_eq, hw.owners_eq, List.map_append, List.map_singleton]
  case owners_nodup =>
    rw [step.owners_eq, ← List.concat_eq_append]
    exact hw.owners_nodup.concat hfresh
  case totals_eq =>
    rw [List.foldlM_append, bind_eq_ok_iff]
    refine ⟨_, hw.totals_eq, ?_⟩
    rw [List.foldlM_cons, step.totals_eq]
    rfl
  case judged =>
    rw [List.forall_mem_append, List.forall_mem_singleton]
    exact ⟨hw.judged, w, hw.inMode, step.judge_eq⟩
  case entire_eq =>
    rw [List.forall_mem_append, List.forall_mem_singleton]
    refine ⟨hw.entire_eq, ?_⟩
    -- shares are spread only after the visit, so the sums are those that it began with
    rw [← State.entire_congr (hw.rest_eq _ hfresh) hw.sums_eq]
    exact step.whole_eq
  case gone =>
    rw [step.owners_eq, List.forall_mem_append, List.forall_mem_singleton]
    refine ⟨?_, hreplaced.new_eq⟩
    intro owner ho
    rw [hreplaced.others_eq owner (ne_of_mem_of_not_mem ho hfresh)]
    exact hw.gone owner ho
  case rest_eq =>
    intro owner ho
    rw [hreplaced.others_eq owner (hnot ho).2]
    exact hw.rest_eq owner (hnot ho).1
  case sums_eq =>
    rw [← hw.sums_eq, Redistribution.snapshot_eq_iff]
    exact fun side => (hreplaced.sums_eq side).1
  case claims_eq =>
    rw [List.forall_mem_append, List.forall_mem_singleton]
    refine ⟨?_, ?_⟩
    · intro z hz
      rw [hclaims z.owner (ne_of_mem_of_not_mem (hw.owner_mem hz) hfresh)]
      exact hw.claims_eq z hz
    · rw [hclaim, hw.otherClaims_eq _ hfresh]
  case otherClaims_eq =>
    intro owner ho
    rw [hclaims owner (hnot ho).2]
    exact hw.otherClaims_eq owner (hnot ho).1

/-! ## All troves -/

theorem sweep_took {candidates : List Address} (h : l.sweep price listed w candidates = .ok w')
    (hw : w.Took l price recovery listed []) :
    ∃ seized, w'.Took l price recovery listed seized := by
  refine sweep_keeps h ?_ ⟨[], hw⟩
  rintro u v step ⟨seized, hu⟩
  exact ⟨_, step.took hu⟩

/-- **A liquidation is told by the list of what it took.** -/
theorem Liquidation.took {liquidator : Address} {targets : Targets} {plan : Plan Liquidated}
    (q : Liquidation l liquidator targets plan) :
    ∃ seized, q.swept.Took l q.price q.system.recovery targets.areListed seized := by
  refine sweep_took q.swept_eq ?_
  constructor
  case inMode =>
    obtain ⟨-, -, hratio, hmode⟩ := State.evaluate_ok q.system_eq
    refine ⟨?_, ?_⟩
    · intro hnormal
      rw [hnormal]
      rfl
    · intro hrecovery
      have hon : q.system.recovery = true := by simpa using hrecovery
      show isRecovery q.system.coll q.system.debt q.price l.params = .ok true
      rw [isRecovery_eq hratio, ← hmode, hon]
  case owners_eq => rfl
  case owners_nodup => exact List.nodup_nil
  case judged => exact List.forall_mem_nil _
  case entire_eq => exact List.forall_mem_nil _
  case gone => exact List.forall_mem_nil _
  case claims_eq => exact List.forall_mem_nil _
  case totals_eq => rfl
  case rest_eq => exact fun _ _ => rfl
  case sums_eq => rfl
  case otherClaims_eq => exact fun _ _ => rfl

/-- The steps of a liquidation that is carried out. -/
theorem exists_liquidation_of_obey {r : Request} {details : Liquidated} {next : Ledger}
    (h : l.obey (.request r) = (.ok (some (.liquidated details)), next)) :
    ∃ liquidator targets plan, Nonempty (Liquidation l liquidator targets plan) ∧
      plan.answer = details ∧ next.state = plan.draft.state := by
  obtain ⟨plan, hplan, hanswer, hstate, -⟩ := obey_request_ok h
  have hdetails := Option.some.inj hanswer
  cases planned_of_planOf hplan with
  | liquidated _ q => exact ⟨_, _, _, ⟨q⟩, (Answer.liquidated.inj hdetails).symm, hstate⟩
  | _ => cases hdetails

instance (x : Attempt (Option Answer)) (P : Liquidated → Prop) [DecidablePred P] :
    Decidable (∃ details, x = .ok (some (.liquidated details)) ∧ P details) :=
  match x with
  | .ok (some (.liquidated details)) => decidable_of_iff (P details)
      ⟨fun hp => ⟨details, rfl, hp⟩, fun ⟨_, hx, hp⟩ => by cases hx; exact hp⟩
  | .error _ | .ok none | .ok (some (.opened _)) | .ok (some (.adjusted _)) | .ok (some (.closed _))
  | .ok (some (.realized _)) | .ok (some (.redeemed _)) | .ok (some (.claimed _))
  | .ok (some (.deposited ..)) => .isFalse nofun

end Ledger

end Stablecoin
