/-
  Stablecoin theory — troves stay collateralized while the price does not fall.

  A trove is opened and adjusted at the minimum ratio or above it.  A redemption
  takes collateral worth no more than the debt it takes, so that it does not lower
  the ratio of what is left.  And a trove at the minimum ratio can only be
  liquidated where the deposits take its whole debt, so that nothing is ever spread
  over the others.

  * `Trove.Secured` compares a record with the minimum ratio before rounding, and
    `State.Secured` says so of every active trove, and that nothing was spread;
  * `State.Secured.replaced` and `Trove.Secured.drawn` are what records may be
    replaced by, and `SweepStep.secured` is what a liquidation can do;
  * `Ledger.planOf_secured`: every plan keeps it, and so does a price that does not
    fall (`State.Secured.mono`);
  * `Ledger.collateralized`: a run in which the price never falls keeps it too.
-/
import Stablecoin.Proofs.Consistency
import Stablecoin.Proofs.ModeGates

namespace Stablecoin

/-! ## Records -/

namespace Trove

variable {t rest : Trove} {minimum price price' : Amount}

/-- The record is at the ratio or above it at the price, before rounding. -/
def Secured (t : Trove) (minimum price : Amount) : Prop :=
  minimum.val * t.debt.val ≤ t.coll.val * price.val

theorem Secured.mono (ht : t.Secured minimum price) (hprice : price ≤ price') :
    t.Secured minimum price' :=
  Nat.le_trans ht (Nat.mul_le_mul_left _ hprice)

/-- **Drawing on a trove does not take it below the ratio,** since the collateral that is drawn is
worth no more than the debt. -/
theorem Secured.drawn {coll debt : Amount} (ht : t.Secured minimum price)
    (hminimum : Amount.unit ≤ minimum) (hworth : debt.mulDiv Amount.unit price = .ok coll)
    (hrest : ∀ side, t.on side = rest.on side + side.of coll debt) : rest.Secured minimum price := by
  obtain ⟨-, hcoll⟩ := Amount.mulDiv_eq_ok_iff.1 hworth
  have hvalue : coll.val * price.val ≤ minimum.val * debt.val := calc
    coll.val * price.val ≤ debt.val * Amount.unit.val := by
      rw [hcoll]
      exact Nat.div_mul_le_self _ _
    _ ≤ minimum.val * debt.val := by
      rw [Nat.mul_comm]
      exact Nat.mul_le_mul_right _ hminimum
  have hcolls : t.coll.val = rest.coll.val + coll.val := hrest .coll
  have hdebts : t.debt.val = rest.debt.val + debt.val := hrest .debt
  unfold Secured at ht ⊢
  rw [hcolls, hdebts, Nat.mul_add, Nat.add_mul] at ht
  omega

end Trove

/-! ## States -/

namespace State

variable {s s' : State} {minimum price price' : Amount} {owner : Address}

/-- Nothing was spread, and every active trove is at the ratio or above it. -/
structure Secured (s : State) (minimum price : Amount) : Prop where
  unspread : ∀ side, s.spread.on side = 0
  secured : ∀ owner t, s.activeAt owner = some t → t.Secured minimum price

namespace Secured

theorem replaced {old new : Option Trove} (hs : s.Secured minimum price)
    (h : s.Replaced owner old new s') (hnew : ∀ t, new = some t → t.Secured minimum price) :
    s'.Secured minimum price :=
  ⟨fun side => (h.sums_eq side).1.trans (hs.unspread side), h.forall_active hs.secured hnew⟩

theorem congr (hs : s.Secured minimum price) (htroves : s'.troves = s.troves)
    (hsums : s'.spread.snapshot = s.spread.snapshot) : s'.Secured minimum price := by
  refine ⟨?_, ?_⟩
  · intro side
    rw [Redistribution.snapshot_eq_iff.1 hsums side]
    exact hs.unspread side
  · unfold activeAt trove
    rw [htroves]
    exact hs.secured

theorem mono (hs : s.Secured minimum price) (hprice : price ≤ price') :
    s.Secured minimum price' :=
  ⟨hs.unspread, fun owner t ht => (hs.secured owner t ht).mono hprice⟩

/-- Nothing waits for a trove, so that taking its share in changes nothing. -/
theorem realize_eq {share : PendingShare} (hs : s.Secured minimum price)
    (h : s.realize owner = .ok (share, s')) : s' = s := by
  obtain ⟨t, -, ⟨_, _, _, hbehind, -⟩ | ⟨-, -, rfl⟩⟩ := realize_cases h
  · have hcoll : s.spread.coll.val = 0 := hs.unspread .coll
    have hdebt : s.spread.debt.val = 0 := hs.unspread .debt
    simp only [Redistribution.isBehind, decide_eq_true_iff, Amount.lt_iff_val_lt] at hbehind
    omega
  · rfl

/-- A trove holds what is in its record. -/
theorem entire_ok {whole : EntireTrove} (hs : s.Secured minimum price)
    (h : s.entire owner = .ok whole) :
    ∃ t, s.activeAt owner = some t ∧ whole.coll = t.coll ∧ whole.debt = t.debt := by
  obtain ⟨t, ht, hpending, hwhole⟩ := Ledger.entire_ok h
  have hnone : ∀ side, whole.pending.on side = 0 := by
    intro side
    have hshare := Redistribution.pending_ok hpending side
    rw [Redistribution.owed, hs.unspread side, Nat.zero_sub, Nat.mul_zero, Nat.le_zero] at hshare
    exact (Nat.mul_eq_zero.1 hshare).resolve_right (Nat.ne_of_gt Amount.unit_pos)
  have hcoll := hwhole .coll
  have hdebt := hwhole .debt
  rw [hnone, Nat.add_zero] at hcoll hdebt
  exact ⟨t, ht, Amount.ext hcoll, Amount.ext hdebt⟩

/-- So it is at the ratio or above it. -/
theorem entire_le {whole : EntireTrove} (hs : s.Secured minimum price)
    (h : s.entire owner = .ok whole) :
    minimum.val * whole.debt.val ≤ whole.coll.val * price.val := by
  obtain ⟨t, ht, hcoll, hdebt⟩ := hs.entire_ok h
  rw [hcoll, hdebt]
  exact hs.secured owner t ht

end Secured

end State

namespace Ledger

variable {l : Ledger}

/-! ## Plans -/

theorem price_eq_current {price : Amount} (h : l.price = .ok price) : price = l.feed.current := by
  simp only [Ledger.price, bind_eq_ok_iff, pure_eq_ok_iff] at h
  obtain ⟨_, -, rfl⟩ := h
  rfl

/-- In either mode a trove is opened at the minimum ratio or above it. -/
theorem Opening.minimum_le {r : OpenRequest} {plan : Plan Opened} (o : Opening l r plan)
    (hvalid : l.params.validate = .ok ()) : l.params.minimumRatio ≤ o.ratio := by
  have hratios := (Parameters.consistent hvalid).minimum_lt_critical
  obtain ⟨hrecovery, hnormal⟩ := demandOpening_ok o.rules_eq
  cases hmode : o.system.recovery with
  | true => exact Nat.le_trans (Nat.le_of_lt hratios) (hrecovery hmode)
  | false => exact (hnormal hmode).1

/-- In either mode an adjusted trove is at the minimum ratio or above it, if it was before. -/
theorem Adjustment.minimum_le {r : AdjustRequest} {plan : Plan Adjusted} (a : Adjustment l r plan)
    (hold : l.params.minimumRatio ≤ a.oldRatio) : l.params.minimumRatio ≤ a.newRatio := by
  cases hmode : a.system.recovery with
  | true => exact Nat.le_trans hold (a.oldRatio_le hmode)
  | false => exact ((demandAdjustment_ok a.rules_eq).2 hmode).1

/-- **A trove that is liquidated leaves its debt to the depositors.** -/
theorem SweepStep.secured {price : Amount} {listed : Bool} {w w' : Sweep}
    (step : SweepStep l price listed w w') (hvalid : l.params.validate = .ok ())
    (hw : w.draft.state.Secured l.params.minimumRatio price) :
    w'.draft.state.Secured l.params.minimumRatio price ∧ step.split.debtSpread = 0 := by
  have hunit := (Parameters.consistent hvalid).unit_lt_minimum
  obtain ⟨t, hreplaced, -⟩ := step.replaced
  obtain ⟨ratio, hratio, hsplit⟩ := judge_take step.judge_eq
  have hle := (Amount.le_ratio_iff hratio).2 (hw.entire_le step.whole_eq)
  refine ⟨hw.replaced hreplaced nofun, ?_⟩
  obtain ⟨hworthless, -⟩ | ⟨hbelow, -⟩ | ⟨-, hcapped⟩ := hsplit
  · exact absurd (Nat.le_trans hle hworthless) (Nat.not_le_of_gt hunit)
  · exact absurd hle (Nat.not_le_of_gt hbelow)
  · exact Split.capped_debtSpread hcapped

theorem Liquidation.secured {liquidator : Address} {targets : Targets} {plan : Plan Liquidated}
    (q : Liquidation l liquidator targets plan) (hvalid : l.params.validate = .ok ())
    (hl : l.state.Secured l.params.minimumRatio q.price) :
    plan.draft.state.Secured l.params.minimumRatio q.price ∧
      plan.answer.totals.debtSpread = 0 := by
  have hswept : q.swept.draft.state.Secured l.params.minimumRatio q.price ∧
      q.swept.totals.debtSpread = 0 := by
    refine sweep_keeps q.swept_eq ?_ ⟨hl, rfl⟩
    rintro u v step ⟨hu, hspread⟩
    obtain ⟨hv, hsplit⟩ := step.secured hvalid hu
    obtain ⟨-, -, -, -, htotal, -⟩ := SplitTotals.including_ok step.totals_eq
    rw [hspread, hsplit] at htotal
    exact ⟨hv, Amount.ext htotal⟩
  obtain ⟨hstate, hspread⟩ := hswept
  have hs := q.settled
  rw [q.answer_eq]
  exact ⟨hstate.congr hs.troves_eq (hs.sums_eq hspread), hspread⟩

theorem DrawStep.secured {r : RedeemRequest} {price : Amount} {w w' : Drawing}
    (step : DrawStep l r price w w') (hvalid : l.params.validate = .ok ())
    (hw : w.draft.state.Secured l.params.minimumRatio price) :
    w'.draft.state.Secured l.params.minimumRatio price := by
  have hunit := (Parameters.consistent hvalid).unit_lt_minimum
  obtain ⟨t, u, new, change, e⟩ := step.exists_effect
  obtain ⟨-, -, -, -, -, -, -, hworth, -⟩ := redeemFrom_ok step.drawn_eq
  have hreplaced := e.replaced
  rw [hw.realize_eq step.realized_eq] at hreplaced
  refine hw.replaced hreplaced ?_
  intro rest hrest
  exact (hw.secured _ _ hreplaced.old_eq).drawn (Nat.le_of_lt hunit) hworth (e.rest_eq rest hrest)

theorem draw_secured {r : RedeemRequest} {price : Amount} {w w' : Drawing} {owners : List Address}
    (h : l.draw r price w owners = .ok w') (hvalid : l.params.validate = .ok ())
    (hw : w.draft.state.Secured l.params.minimumRatio price) :
    w'.draft.state.Secured l.params.minimumRatio price := by
  refine draw_keeps h (fun _ _ step hu => step.secured hvalid hu) ?_ hw
  intro u owner share s hs hu
  rw [Draft.state_withState, hu.realize_eq hs]
  exact hu

/-- **Every plan keeps all troves at the minimum ratio or above it.** -/
theorem planOf_secured (hvalid : l.params.validate = .ok ())
    (hl : l.state.Secured l.params.minimumRatio l.feed.current) {r : Request} {plan : Plan Answer}
    (h : l.planOf r = .ok plan) :
    plan.draft.state.Secured l.params.minimumRatio l.feed.current := by
  cases planned_of_planOf h with
  | opened steps =>
    refine hl.replaced steps.replaced ?_
    rintro _ ⟨⟩
    rw [← price_eq_current steps.price_eq]
    exact (Amount.le_ratio_iff steps.ratio_eq).1 (steps.minimum_le hvalid)
  | adjusted steps =>
    have hreplaced := steps.replaced
    rw [hl.realize_eq steps.realized_eq] at hreplaced
    refine hl.replaced hreplaced ?_
    rintro _ ⟨⟩
    have hold := hl.secured _ _ hreplaced.old_eq
    rw [← price_eq_current steps.price_eq] at hold ⊢
    refine (Amount.le_ratio_iff steps.ratio_eq).1 (steps.minimum_le ?_)
    exact (Amount.le_ratio_iff steps.oldRatio_eq).2 hold
  | closed steps =>
    have hreplaced := steps.replaced
    rw [hl.realize_eq steps.realized_eq] at hreplaced
    exact hl.replaced hreplaced nofun
  | realized state_eq =>
    rw [Plan.draft_seen, hl.realize_eq state_eq]
    exact hl
  | liquidated _ steps =>
    rw [← price_eq_current steps.price_eq] at hl ⊢
    exact (steps.secured hvalid hl).1
  | redeemed steps =>
    rw [← price_eq_current steps.price_eq] at hl ⊢
    rw [Plan.draft_seen, steps.state_eq]
    exact (draw_secured steps.walked_eq hvalid hl).congr rfl rfl
  | claimed _ state_eq =>
    rw [Plan.draft_seen, state_eq]
    exact hl.congr rfl rfl
  | deposited _ state_eq =>
    rw [Plan.draft_seen, state_eq]
    exact hl.congr rfl rfl
  | withdrawn _ _ state_eq =>
    rw [Plan.draft_seen, state_eq]
    exact hl.congr rfl rfl

/-! ## Runs -/

/-- The price does not fall in any command of a run. -/
def PriceNeverFalls (l : Ledger) (commands : List Command) : Prop :=
  ∀ n < commands.length, (l.after (commands.take n)).feed.current ≤
    (l.after (commands.take (n + 1))).feed.current

instance (l : Ledger) (commands : List Command) : Decidable (l.PriceNeverFalls commands) :=
  inferInstanceAs (Decidable (∀ n < commands.length, (l.after (commands.take n)).feed.current ≤
    (l.after (commands.take (n + 1))).feed.current))

/-- A command that does not lower the price keeps all troves at the minimum ratio or above it. -/
theorem obey_secured (hvalid : l.params.validate = .ok ())
    (hl : l.state.Secured l.params.minimumRatio l.feed.current) {c : Command}
    (hprice : l.feed.current ≤ (l.obey c).2.feed.current) :
    (l.obey c).2.state.Secured l.params.minimumRatio (l.obey c).2.feed.current := by
  by_cases hr : ∃ r, c = .request r
  · obtain ⟨r, rfl⟩ := hr
    obtain ⟨-, -, hfeed⟩ := obey_request_setup (l := l) r
    rw [hfeed]
    obtain ⟨plan, hplan, -, hc⟩ | ⟨stop, -, hp⟩ := obey_request_cases (l := l) r
    · obtain ⟨-, -, -, hn⟩ := commit_ok hc
      rw [hn]
      exact planOf_secured hvalid hl hplan
    · rw [perform_error_state hp]
      exact hl
  · obtain ⟨-, _, _, _, _, hn, -⟩ := obey_control (l := l) fun r hc => hr ⟨r, hc⟩
    rw [hn] at hprice ⊢
    exact (hl.mono hprice).congr rfl rfl

section

variable {params : Parameters} {accounts : ProtocolAccounts} {feed : PriceFeed} {token : TokenBook}
  {ranking : Ranking} {commands : List Command}

theorem after_secured (h : new params accounts feed token ranking = .ok l)
    (hprice : l.PriceNeverFalls commands) (n : Nat) :
    (l.after (commands.take n)).state.Secured (l.after (commands.take n)).params.minimumRatio
      (l.after (commands.take n)).feed.current := by
  induction n with
  | zero =>
    rw [List.take_zero, new_eq h]
    exact ⟨fun side => by cases side <;> rfl, nofun⟩
  | succ n ih =>
    by_cases hn : n < commands.length
    · have hstep := hprice n hn
      rw [List.take_succ_eq_append_getElem hn] at hstep ⊢
      obtain heq | heq := after_append_singleton (l := l) (commands.take n) commands[n]
      · rw [heq] at hstep ⊢
        rw [(obey_setup _).1]
        exact obey_secured (after_validate h _) ih hstep
      · rw [heq]
        exact ih
    · rw [List.take_of_length_le (by omega)] at ih ⊢
      exact ih

/-- Nobody can be liquidated below the minimum ratio: every active trove, pending share included, is
at the ratio or above it, and no liquidation that is carried out spreads debt. -/
structure Collateralized (l : Ledger) : Prop where
  /-- The comparison before rounding. -/
  entire_le : ∀ owner, l.state.isActive owner = true → ∃ whole, l.state.entire owner = .ok whole ∧
    l.params.minimumRatio.val * whole.debt.val ≤ whole.coll.val * l.feed.current.val
  ratio_le : ∀ owner ratio, l.ratio owner = .ok ratio → l.params.minimumRatio ≤ ratio
  spreads_nothing : ∀ r details next,
    l.obey (.request r) = (.ok (some (.liquidated details)), next) → details.totals.debtSpread = 0

/-- **While the price does not fall, nobody becomes liquidatable:** after each command of such a run
every active trove is at the minimum ratio or above it, and no debt is ever spread. -/
theorem collateralized (h : new params accounts feed token ranking = .ok l)
    (hprice : l.PriceNeverFalls commands) (n : Nat) :
    (l.after (commands.take n)).Collateralized := by
  have hsecured := after_secured h hprice n
  have hcovered := after_covered h (commands.take n)
  have hvalid := after_validate h (commands.take n)
  revert hsecured hcovered hvalid
  generalize l.after (commands.take n) = next
  intro hsecured hcovered hvalid
  constructor
  case entire_le =>
    intro owner hactive
    obtain ⟨t, ht⟩ := State.isActive_iff.1 hactive
    have hseen : ∀ side, t.snapshot.on side = next.state.spread.on side := by
      intro side
      have hle := hcovered.seen_le owner t ht side
      rw [hsecured.unspread side] at hle ⊢
      exact Nat.le_zero.1 hle
    have hentire := State.entire_of_seen ht hseen
    exact ⟨_, hentire, hsecured.entire_le hentire⟩
  case ratio_le =>
    intro owner ratio hratio
    simp only [Ledger.ratio, State.ratio, bind_eq_ok_iff] at hratio
    obtain ⟨price, hcurrent, whole, hwhole, hratio⟩ := hratio
    rw [price_eq_current hcurrent] at hratio
    exact (Amount.le_ratio_iff hratio).2 (hsecured.entire_le hwhole)
  case spreads_nothing =>
    intro r details last hobey
    obtain ⟨plan, hplan, hanswer, -⟩ := obey_request_ok hobey
    cases planned_of_planOf hplan
    case liquidated steps _ =>
      cases hanswer
      rw [← price_eq_current steps.price_eq] at hsecured
      exact (steps.secured hvalid hsecured).2
    all_goals cases hanswer

end

/-- All of it is accepted, and one trove goes on. -/
theorem collateralized_firstRise : ∃ l, starting .standard twoThousand = .ok l ∧
    l.PriceNeverFalls firstRise ∧ l.Accepted firstRise ∧
    (l.after firstRise).state.isActive ⟨2, by decide⟩ = true ∧
    (l.after firstRise).Collateralized := by
  obtain ⟨l, h⟩ : ∃ l, starting .standard twoThousand = .ok l := ⟨_, starting_standard _⟩
  obtain ⟨hprice, haccepted, hactive⟩ : l.PriceNeverFalls firstRise ∧ l.Accepted firstRise ∧
      (l.after firstRise).state.isActive ⟨2, by decide⟩ = true := by
    rw [starting_eq h]
    decide +kernel
  exact ⟨l, h, hprice, haccepted, hactive, collateralized h hprice firstRise.length⟩

end Ledger

end Stablecoin
