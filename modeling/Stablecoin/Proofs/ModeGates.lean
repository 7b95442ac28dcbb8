/-
  Stablecoin theory — what each mode lets through.

  The rules of both modes are applied to ratios that are computed before anything
  is written: that of the system from its totals before a share is taken in, and
  that of a trove from its record after that.  They are the ratios of the state that
  is committed.

  * `demandOpening_ok` and `demandAdjustment_ok` say what the rules let through;
  * `State.systemRatio_of_change`: what is computed for a change of the totals is
    the ratio of the system in every state whose totals have changed alike;
  * `Opening.systemRatio_committed`, `Opening.ratio_committed` and their likes: the
    computed ratios are those of the state that is committed;
  * `Ledger.NormalGate` and `Ledger.RecoveryGate` say what either mode lets through,
    and by `Ledger.mode_gates` they hold in every run.
-/
import Stablecoin.Proofs.EntireTroves
import Stablecoin.Proofs.PlanFailures
import Stablecoin.Ledger.Queries

namespace Stablecoin

/-! ## Rules -/

section Rules

variable {p : Parameters} {recovery debtGrows : Bool} {withdrawal ratio old new system : Amount}

theorem demandOpening_ok (h : demandOpening recovery ratio system p = .ok ()) :
    (recovery = true → p.criticalRatio ≤ ratio) ∧
      (recovery = false → p.minimumRatio ≤ ratio ∧ p.criticalRatio ≤ system) := by
  cases recovery with
  | true => exact ⟨fun _ => demand_eq_ok_iff.1 h, nofun⟩
  | false =>
    obtain ⟨_, hminimum, hcritical⟩ := bind_eq_ok_iff.1 h
    exact ⟨nofun, fun _ => ⟨demand_eq_ok_iff.1 hminimum, demand_eq_ok_iff.1 hcritical⟩⟩

theorem demandAdjustment_ok
    (h : demandAdjustment recovery withdrawal debtGrows old new system p = .ok ()) :
    (recovery = true →
      withdrawal = 0 ∧ (debtGrows = true → p.criticalRatio ≤ new ∧ old ≤ new)) ∧
      (recovery = false → p.minimumRatio ≤ new ∧ p.criticalRatio ≤ system) := by
  cases recovery with
  | true =>
    obtain ⟨_, hwithdrawal, h⟩ := bind_eq_ok_iff.1 h
    refine ⟨fun _ => ⟨demand_eq_ok_iff.1 hwithdrawal, ?_⟩, nofun⟩
    rintro rfl
    obtain ⟨_, hcritical, hold⟩ := bind_eq_ok_iff.1 h
    exact ⟨demand_eq_ok_iff.1 hcritical, demand_eq_ok_iff.1 hold⟩
  | false =>
    obtain ⟨_, hminimum, hcritical⟩ := bind_eq_ok_iff.1 h
    exact ⟨nofun, fun _ => ⟨demand_eq_ok_iff.1 hminimum, demand_eq_ok_iff.1 hcritical⟩⟩

end Rules

/-! ## The ratio of the system -/

@[simp] theorem Side.of_zero (side : Side) : side.of 0 0 = 0 := by cases side <;> rfl

/-- What the active and the default pool hold together on one side. -/
def Pools.system (p : Pools) (side : Side) : Nat := p.active.on side + p.default.on side

theorem State.Realization.system_eq {s s' : State} {owner : Address} {share : PendingShare}
    {t t' : Trove} (h : s.Realization owner share t t' s') (side : Side) :
    s'.pools.system side = s.pools.system side := by
  have hactive := h.active_eq side
  have hdefault := h.default_eq side
  unfold Pools.system
  omega

/-- **The ratio that is computed for a change of the totals** is that of every state whose totals
have changed alike. -/
theorem State.systemRatio_of_change {s s' : State} {p : Parameters} {c : Change}
    {system : SystemRatio} {coll debt coll' debt' price ratio : Amount}
    (hsystem : s.evaluate price p = .ok system)
    (hratio : c.ratio system.coll system.debt price = .ok ratio)
    (hchange : c.apply coll debt = .ok (coll', debt'))
    (hpools : ∀ side : Side,
      s'.pools.system side + side.of coll debt = s.pools.system side + side.of coll' debt') :
    s'.systemRatio price = .ok ratio := by
  obtain ⟨hcoll, hdebt, -⟩ := evaluate_ok hsystem
  obtain ⟨newColl, newDebt, happly, hnew⟩ := Change.ratio_eq_ok_iff.1 hratio
  obtain ⟨hc, hd⟩ := Change.apply_eq_ok_iff.1 happly
  obtain ⟨hc', hd'⟩ := Change.apply_eq_ok_iff.1 hchange
  have hcolls := Amount.change_alike hc hc'
  have hdebts := Amount.change_alike hd hd'
  have hpoolColls := hpools .coll
  have hpoolDebts := hpools .debt
  simp only [Pools.system, Balance.on, Side.of, Pools.debt] at hdebt hpoolColls hpoolDebts
  simp only [systemRatio, systemColl, Pools.systemColl, systemDebt, bind_eq_ok_iff,
    Amount.add_eq_ok_iff, Pools.systemDebt_eq_ok_iff, Pools.debt]
  exact ⟨newColl, by omega, newDebt, by omega, hnew⟩

namespace Ledger

variable {l : Ledger}

/-! ## Computed and committed ratios -/

section Opening

variable {r : OpenRequest} {plan : Plan Opened} (o : Opening l r plan)
include o

theorem Opening.systemRatio_committed :
    plan.draft.state.systemRatio o.price = .ok o.newSystem := by
  have hchange : Change.apply ⟨r.deposit, true, o.debt, true⟩ 0 0 = .ok (r.deposit, o.debt) := by
    simp [Change.apply_eq_ok_iff, Amount.change_eq_ok_iff]
  refine State.systemRatio_of_change o.system_eq o.newSystem_eq hchange ?_
  intro side
  obtain ⟨hactive, hdefault⟩ := o.pools_on side
  unfold Pools.system
  rw [hactive, hdefault, Side.of_zero]
  omega

theorem Opening.ratio_committed : plan.draft.state.ratio r.owner o.price = .ok o.ratio :=
  (State.ratio_of_entire o.replaced.entire_entered _).trans o.ratio_eq

end Opening

section Adjustment

variable {r : AdjustRequest} {plan : Plan Adjusted} (a : Adjustment l r plan)
include a

theorem Adjustment.systemRatio_committed :
    plan.draft.state.systemRatio a.price = .ok a.newSystem := by
  refine State.systemRatio_of_change a.system_eq a.newSystem_eq a.changed_eq ?_
  intro side
  obtain ⟨t, hr⟩ := a.realization
  obtain ⟨hactive, hdefault⟩ := a.pools_on side
  rw [← hr.system_eq side]
  unfold Pools.system
  rw [hdefault]
  have htrove : a.trove.on side = side.of a.trove.coll a.trove.debt := rfl
  omega

/-- The ratio with the pending share, before it is taken in. -/
theorem Adjustment.ratio_before (hc : l.state.Covered) :
    l.state.ratio r.owner a.price = .ok a.oldRatio := by
  obtain ⟨t, hr⟩ := a.realization
  exact (hr.ratio_eq hc _).trans a.oldRatio_eq

/-- The ratio that is judged is that of the record that is written. -/
theorem Adjustment.ratio_eq : Amount.ratio a.coll a.debt a.price = .ok a.newRatio := by
  obtain ⟨coll, debt, happly, hratio⟩ := Change.ratio_eq_ok_iff.1 a.newRatio_eq
  obtain ⟨rfl, rfl⟩ := Prod.mk.inj (Except.ok.inj (happly.symm.trans a.changed_eq))
  exact hratio

theorem Adjustment.ratio_committed (hc : l.state.Covered) :
    plan.draft.state.ratio r.owner a.price = .ok a.newRatio := by
  obtain ⟨t, hr⟩ := a.realization
  exact (State.ratio_of_entire (a.replaced.entire_rewritten hc hr) _).trans a.ratio_eq

/-- In Recovery Mode no adjustment lowers the ratio of its trove. -/
theorem Adjustment.oldRatio_le (hrecovery : a.system.recovery = true) :
    a.oldRatio ≤ a.newRatio := by
  obtain ⟨hwithdrawal, hgrowth⟩ := (demandAdjustment_ok a.rules_eq).1 hrecovery
  cases hg : r.debtGrows with
  | true => exact (hgrowth hg).2
  | false =>
    -- collateral can only have come in, and debt can only have been paid back
    obtain ⟨hcoll, hdebt⟩ := Change.apply_eq_ok_iff.1 a.changed_eq
    rw [Amount.change_eq_ok_iff] at hcoll hdebt
    refine Amount.ratio_mono a.oldRatio_eq a.ratio_eq ?_ ?_
    · rw [Amount.le_iff_val_le]
      by_cases h0 : r.deposit = 0
      · simp [changeOf, h0, hwithdrawal] at hcoll
        omega
      · simp [changeOf, h0] at hcoll
        omega
    · rw [Amount.le_iff_val_le]
      simp [changeOf, hg] at hdebt
      omega

end Adjustment

theorem Closing.systemRatio_committed {owner : Address} {plan : Plan Closed}
    (c : Closing l owner plan) : plan.draft.state.systemRatio c.price = .ok c.newSystem := by
  have hchange : Change.apply ⟨c.trove.coll, false, c.trove.debt, false⟩ c.trove.coll c.trove.debt =
      .ok (0, 0) := by
    simp [Change.apply_eq_ok_iff, Amount.change_eq_ok_iff]
  refine State.systemRatio_of_change c.system_eq c.newSystem_eq hchange ?_
  intro side
  obtain ⟨t, hr⟩ := c.realization
  obtain ⟨hactive, hdefault⟩ := c.pools_on side
  have htrove : c.trove.on side = side.of c.trove.coll c.trove.debt := rfl
  rw [← hr.system_eq side, Side.of_zero]
  unfold Pools.system
  rw [hdefault]
  omega

/-! ## Modes -/

theorem isInRecovery_eq_ok_iff {recovery : Bool} : l.isInRecovery = .ok recovery ↔
    ∃ price, l.price = .ok price ∧ ∃ system, l.evaluate price = .ok system ∧
      system.recovery = recovery := by
  simp only [isInRecovery, bind_eq_ok_iff, pure_eq_ok_iff]

/-- The mode that a plan works in is that of the ledger. -/
theorem recovery_eq {recovery : Bool} (hmode : l.isInRecovery = .ok recovery) {price : Amount}
    {system : SystemRatio} (hprice : l.price = .ok price) (hsystem : l.evaluate price = .ok system) :
    system.recovery = recovery := by
  obtain ⟨price', hprice', system', hsystem', hrecovery⟩ := isInRecovery_eq_ok_iff.1 hmode
  obtain rfl : price = price' := Except.ok.inj (hprice.symm.trans hprice')
  obtain rfl : system = system' := Except.ok.inj (hsystem.symm.trans hsystem')
  exact hrecovery

/-- In Recovery Mode no trove is closed. -/
theorem refused_planClosing (hmode : l.isInRecovery = .ok true) (owner : Address) :
    Refused (l.planClosing owner) := by
  refine refused_of_not_fails ?_ (l.not_fails_planClosing owner)
  intro plan h
  obtain ⟨c⟩ := exists_closing h
  have hnormal := c.normal_eq
  rw [demandNormal, demand_eq_ok_iff, recovery_eq hmode c.price_eq c.system_eq] at hnormal
  cases hnormal

/-- In Recovery Mode no collateral is withdrawn. -/
theorem refused_planAdjustment (hmode : l.isInRecovery = .ok true) {r : AdjustRequest}
    (hr : r.withdrawal ≠ 0) : Refused (l.planAdjustment r) := by
  refine refused_of_not_fails ?_ fun h => nomatch (l.fails_planAdjustment h).2
  intro plan h
  obtain ⟨a⟩ := exists_adjustment h
  have hnormal := a.normal_eq hr
  rw [demandNormal, demand_eq_ok_iff, recovery_eq hmode a.price_eq a.system_eq] at hnormal
  cases hnormal

/-! ## Requests -/

theorem exists_opening_of_obey {r : OpenRequest} {answer : Option Answer} {next : Ledger}
    (h : l.obey (.request (.openTrove r)) = (.ok answer, next)) :
    ∃ plan, ∃ o : Opening l r plan, next.state = plan.draft.state ∧ next.price = .ok o.price := by
  obtain ⟨_, hp, -, hstate, hprice⟩ := obey_request_ok h
  obtain ⟨plan, hplan, rfl⟩ := map_eq_ok_iff.1 hp
  obtain ⟨o⟩ := exists_opening hplan
  exact ⟨plan, o, hstate, hprice.trans o.price_eq⟩

theorem exists_adjustment_of_obey {r : AdjustRequest} {answer : Option Answer} {next : Ledger}
    (h : l.obey (.request (.adjustTrove r)) = (.ok answer, next)) :
    ∃ plan, ∃ a : Adjustment l r plan,
      next.state = plan.draft.state ∧ next.price = .ok a.price := by
  obtain ⟨_, hp, -, hstate, hprice⟩ := obey_request_ok h
  obtain ⟨plan, hplan, rfl⟩ := map_eq_ok_iff.1 hp
  obtain ⟨a⟩ := exists_adjustment hplan
  exact ⟨plan, a, hstate, hprice.trans a.price_eq⟩

theorem exists_closing_of_obey {owner : Address} {answer : Option Answer} {next : Ledger}
    (h : l.obey (.request (.closeTrove owner)) = (.ok answer, next)) :
    ∃ plan, ∃ c : Closing l owner plan,
      next.state = plan.draft.state ∧ next.price = .ok c.price := by
  obtain ⟨_, hp, -, hstate, hprice⟩ := obey_request_ok h
  obtain ⟨plan, hplan, rfl⟩ := map_eq_ok_iff.1 hp
  obtain ⟨c⟩ := exists_closing hplan
  exact ⟨plan, c, hstate, hprice.trans c.price_eq⟩

/-- A request whose plan is refused is refused, and nothing is changed. -/
theorem obey_of_refused {r : Request} (h : Refused (l.planOf r)) :
    Refused (l.obey (.request r)).1 ∧ (l.obey (.request r)).2 = l := by
  obtain ⟨cause, hplan⟩ := h
  have hobey : l.obey (.request r) = answering some (l.perform (l.planOf r)) :=
    congrArg (answering some) (execute_eq_perform r)
  rw [hobey, hplan]
  exact ⟨⟨cause, rfl⟩, rfl⟩

theorem refused_map {α β : Type} {x : Attempt (Plan α)} (h : Refused x) (see : α → β) :
    Refused (x.map (Plan.seen see)) := by
  obtain ⟨cause, rfl⟩ := h
  exact ⟨cause, rfl⟩

theorem systemRatio_eq {price : Amount} (h : l.price = .ok price) :
    l.systemRatio = l.state.systemRatio price := by
  rw [systemRatio, h]
  rfl

/-- The mode is told by the ratio of the system. -/
theorem isInRecovery_of_systemRatio {ratio : Amount} (h : l.systemRatio = .ok ratio) :
    l.isInRecovery = .ok (decide (ratio < l.params.criticalRatio)) := by
  simp only [systemRatio, State.systemRatio, bind_eq_ok_iff] at h
  obtain ⟨price, hprice, coll, hcoll, debt, hdebt, hratio⟩ := h
  simp only [isInRecovery_eq_ok_iff, evaluate, State.evaluate, SystemRatio.evaluate,
    bind_eq_ok_iff, pure_eq_ok_iff]
  exact ⟨price, hprice, _, ⟨coll, hcoll, debt, hdebt, ratio, hratio, rfl⟩, rfl⟩

theorem ratio_eq {price : Amount} (h : l.price = .ok price) (owner : Address) :
    l.ratio owner = l.state.ratio owner price := by
  rw [ratio, h]
  rfl

/-! ## Gates -/

/-- The attempt succeeds, and its value is at the bound or above it. -/
def AtLeast (x : Attempt Amount) (bound : Amount) : Prop := ∃ ratio, x = .ok ratio ∧ bound ≤ ratio

/-- What Normal Mode lets through: requests that leave the system at the critical ratio or above it,
and the trove at the minimum ratio or above it. -/
structure NormalGate (l : Ledger) : Prop where
  opened : ∀ r answer next, l.obey (.request (.openTrove r)) = (.ok answer, next) →
    AtLeast next.systemRatio l.params.criticalRatio ∧
      AtLeast (next.ratio r.owner) l.params.minimumRatio
  adjusted : ∀ r answer next, l.obey (.request (.adjustTrove r)) = (.ok answer, next) →
    AtLeast next.systemRatio l.params.criticalRatio ∧
      AtLeast (next.ratio r.owner) l.params.minimumRatio
  closed : ∀ owner answer next, l.obey (.request (.closeTrove owner)) = (.ok answer, next) →
    AtLeast next.systemRatio l.params.criticalRatio

/-- What Recovery Mode lets through: no closing and no withdrawal of collateral, new troves at the
critical ratio or above it, and adjustments that leave the trove no worse, with more debt at the
critical ratio or above it. -/
structure RecoveryGate (l : Ledger) : Prop where
  closing : ∀ owner, Refused (l.obey (.request (.closeTrove owner))).1 ∧
    (l.obey (.request (.closeTrove owner))).2 = l
  withdrawal : ∀ r, r.withdrawal ≠ 0 → Refused (l.obey (.request (.adjustTrove r))).1 ∧
    (l.obey (.request (.adjustTrove r))).2 = l
  opened : ∀ r answer next, l.obey (.request (.openTrove r)) = (.ok answer, next) →
    AtLeast (next.ratio r.owner) l.params.criticalRatio
  adjusted : ∀ r answer next, l.obey (.request (.adjustTrove r)) = (.ok answer, next) →
    ∃ old new, l.ratio r.owner = .ok old ∧ next.ratio r.owner = .ok new ∧ old ≤ new ∧
      (r.debtGrows = true → l.params.criticalRatio ≤ new)

theorem normalGate (hc : l.state.Covered) (hmode : l.isInRecovery = .ok false) : l.NormalGate := by
  constructor
  case opened =>
    intro r answer next h
    obtain ⟨plan, o, hstate, hprice⟩ := exists_opening_of_obey h
    obtain ⟨hminimum, hcritical⟩ :=
      (demandOpening_ok o.rules_eq).2 (recovery_eq hmode o.price_eq o.system_eq)
    rw [systemRatio_eq hprice, ratio_eq hprice, hstate]
    exact ⟨⟨_, o.systemRatio_committed, hcritical⟩, _, o.ratio_committed, hminimum⟩
  case adjusted =>
    intro r answer next h
    obtain ⟨plan, a, hstate, hprice⟩ := exists_adjustment_of_obey h
    obtain ⟨hminimum, hcritical⟩ :=
      (demandAdjustment_ok a.rules_eq).2 (recovery_eq hmode a.price_eq a.system_eq)
    rw [systemRatio_eq hprice, ratio_eq hprice, hstate]
    exact ⟨⟨_, a.systemRatio_committed, hcritical⟩, _, a.ratio_committed hc, hminimum⟩
  case closed =>
    intro owner answer next h
    obtain ⟨plan, c, hstate, hprice⟩ := exists_closing_of_obey h
    rw [systemRatio_eq hprice, hstate]
    exact ⟨_, c.systemRatio_committed, demand_eq_ok_iff.1 c.rules_eq⟩

theorem recoveryGate (hc : l.state.Covered) (hmode : l.isInRecovery = .ok true) :
    l.RecoveryGate := by
  constructor
  case closing => exact fun owner => obey_of_refused (refused_map (refused_planClosing hmode owner) _)
  case withdrawal =>
    exact fun r hr => obey_of_refused (refused_map (refused_planAdjustment hmode hr) _)
  case opened =>
    intro r answer next h
    obtain ⟨plan, o, hstate, hprice⟩ := exists_opening_of_obey h
    have hcritical := (demandOpening_ok o.rules_eq).1 (recovery_eq hmode o.price_eq o.system_eq)
    rw [ratio_eq hprice, hstate]
    exact ⟨_, o.ratio_committed, hcritical⟩
  case adjusted =>
    intro r answer next h
    obtain ⟨plan, a, hstate, hprice⟩ := exists_adjustment_of_obey h
    have hrecovery := recovery_eq hmode a.price_eq a.system_eq
    obtain ⟨-, hgrowth⟩ := (demandAdjustment_ok a.rules_eq).1 hrecovery
    rw [ratio_eq a.price_eq, ratio_eq hprice, hstate]
    exact ⟨_, _, a.ratio_before hc, a.ratio_committed hc, a.oldRatio_le hrecovery,
      fun hg => (hgrowth hg).1⟩

/-- **The gates of both modes hold of what is committed:** in every run of a new ledger, whatever
mode the system is in before a request of a borrower, its gate holds of the ledger that the request
leaves. -/
theorem mode_gates {params : Parameters} {accounts : ProtocolAccounts} {feed : PriceFeed}
    {token : TokenBook} {ranking : Ranking} (h : new params accounts feed token ranking = .ok l)
    (commands : List Command) :
    ((l.after commands).isInRecovery = .ok false → (l.after commands).NormalGate) ∧
      ((l.after commands).isInRecovery = .ok true → (l.after commands).RecoveryGate) :=
  ⟨normalGate (after_covered h commands), recoveryGate (after_covered h commands)⟩

/-- Before the fall another trove can be opened, and after it collateral can still be added. -/
theorem mode_gates_firstFall : ∃ l, starting .standard twoThousand = .ok l ∧
    (l.after (firstFall.take 1)).NormalGate ∧
    (l.after (firstFall.take 1)).Accepted [opening ⟨3, by decide⟩ 3 2000] ∧
    (l.after firstFall).RecoveryGate ∧ (l.after firstFall).Accepted [firstTopUp] := by
  obtain ⟨l, h⟩ : ∃ l, starting .standard twoThousand = .ok l := ⟨_, starting_standard _⟩
  obtain ⟨hnormal, hopened, hrecovery, hadded⟩ :
      (l.after (firstFall.take 1)).isInRecovery = .ok false ∧
      (l.after (firstFall.take 1)).Accepted [opening ⟨3, by decide⟩ 3 2000] ∧
      (l.after firstFall).isInRecovery = .ok true ∧ (l.after firstFall).Accepted [firstTopUp] := by
    rw [starting_eq h]
    decide +kernel
  exact ⟨l, h, (mode_gates h _).1 hnormal, hopened, (mode_gates h _).2 hrecovery, hadded⟩

end Ledger

end Stablecoin
