/-
  Stablecoin theory — commands that halt the run.

  No command should halt the run.  Those that do are a liquidation whose loss, rounded
  up, is no amount (`Ledger.Overruns`), and those that find a count full
  (`Ledger.Saturated`).

  * No count rises by more than one with a command (`planOf_counted`), so that none is
    full within the first `2 ^ 64` commands (`after_counted`).
  * `Ledger.halts_iff_overruns`: but for full counts, a command halts the run exactly if
    it is a liquidation whose loss is no amount, and then the deposits are close to the
    largest amount.
  * `Ledger.loss_overruns`: there is a run that ends so.
-/
import Stablecoin.Proofs.PlanFailures
import Stablecoin.Proofs.PoolRuns
import Stablecoin.Proofs.Strain
import Stablecoin.Proofs.Verification
import Stablecoin.Ledger.Queries

namespace Stablecoin

/-! ## Counts -/

namespace StabilityPool

variable {s t : StabilityPool} {owner : Address} {debt coll : Amount} {n : Nat}

/-- No count of the pool, and none that a deposit was written at, is above a bound. -/
structure Counted (s : StabilityPool) (n : Nat) : Prop where
  offsets_le : s.offsets.toNat ≤ n
  epoch_le : s.epoch.toNat ≤ n
  scale_le : s.scale.toNat ≤ n
  accounts_le : ∀ owner d, s.account owner = some d → d.snapshot.scale.toNat ≤ n

theorem Counted.mono (h : s.Counted n) : s.Counted (n + 1) :=
  ⟨Nat.le_succ_of_le h.offsets_le, Nat.le_succ_of_le h.epoch_le, Nat.le_succ_of_le h.scale_le,
    fun owner d hd => Nat.le_succ_of_le (h.accounts_le owner d hd)⟩

theorem Counted.not_filled (h : s.Counted n) (hn : n + 1 < UInt64.size) : ¬ s.IsFilled := by
  have := h.offsets_le
  have := h.epoch_le
  have := h.scale_le
  unfold IsFilled Filled
  omega

/-- A deposit is written at the present scale. -/
theorem Rewriting.counted {change : DepositChange} (h : Rewriting s owner change t)
    (hs : s.Counted n) : t.Counted n := by
  have hoffsets : t.offsets = s.offsets := by rw [h.pool_eq]
  obtain ⟨-, hepoch, hscale, -, -, haccounts⟩ := h.factors
  refine ⟨hoffsets ▸ hs.offsets_le, hepoch ▸ hs.epoch_le, hscale ▸ hs.scale_le, ?_⟩
  intro other d hd
  rw [account, haccounts] at hd
  obtain hd | rfl := account_accountsWith s owner change.deposit hd
  · exact hs.accounts_le other d hd
  · exact hs.scale_le

theorem offset_offsets (h : s.offset debt coll = .ok t) :
    t = s ∨ t.offsets.toNat = s.offsets.toNat + 1 := by
  unfold offset at h
  split at h
  · cases h
    exact Or.inl rfl
  · simp only [bind_eq_ok_iff, pure_eq_ok_iff, Prod.exists] at h
    obtain ⟨_, -, _, -, _, -, _, -, _, -, _, -, _, _, -, _, -, _, -, _, -, _, _, _, -, _, -, _, -,
      _, -, offsets, hoffsets, rfl⟩ := h
    exact Or.inr (nextCount_eq_ok_iff.1 hoffsets)

/-- Absorbing a liquidation raises no count by more than one. -/
theorem Counted.offset (hs : s.Counted n) (h : s.offset debt coll = .ok t) : t.Counted (n + 1) := by
  have hoffsets : t.offsets.toNat ≤ n + 1 := by
    have := hs.offsets_le
    obtain rfl | hnext := offset_offsets h <;> omega
  obtain ⟨-, rfl⟩ | ⟨⟨b⟩⟩ := offset_cases h
  · exact hs.mono
  have hepoch := hs.epoch_le
  have hscale := hs.scale_le
  refine ⟨hoffsets, ?_, ?_, ?_⟩
  · obtain ⟨he, -⟩ | ⟨he, -⟩ | ⟨he, -⟩ := b.factors
    · omega
    · exact he ▸ hs.mono.epoch_le
    · exact he ▸ hs.mono.epoch_le
  · obtain ⟨-, hsc⟩ | ⟨-, hsc, -⟩ | ⟨-, hsc, -⟩ := b.factors
    · exact hsc ▸ Nat.zero_le _
    · exact hsc ▸ hs.mono.scale_le
    · omega
  · intro other d hd
    rw [account, b.accounts_eq] at hd
    exact hs.mono.accounts_le other d hd

end StabilityPool

/-- No count of a state is above a bound. -/
structure State.Counted (s : State) (n : Nat) : Prop where
  troves_le : s.activeTroves.length ≤ n
  pool : s.stability.Counted n

namespace Ledger

variable {l : Ledger} {n : Nat}

/-- A request enters one trove at most. -/
theorem planOf_length {r : Request} {plan : Plan Answer} (h : l.planOf r = .ok plan) :
    plan.draft.state.activeTroves.length ≤ l.state.activeTroves.length + 1 := by
  have hkept : ∀ {s : State}, s.troves = l.state.troves →
      s.activeTroves.length ≤ l.state.activeTroves.length + 1 := by
    intro s hs
    rw [State.activeTroves, hs]
    exact Nat.le_succ _
  cases planned_of_planOf h with
  | opened steps => exact Nat.le_of_eq steps.replaced.length_eq
  | adjusted steps =>
    obtain ⟨t, hr⟩ := steps.realization
    exact Nat.le_succ_of_le (steps.replaced.length_le.trans hr.replaced.length_le)
  | closed steps =>
    obtain ⟨t, hr⟩ := steps.realization
    exact Nat.le_succ_of_le (steps.replaced.length_le.trans hr.replaced.length_le)
  | realized state_eq =>
    obtain ⟨t, t', hr⟩ := State.exists_realization state_eq
    exact Nat.le_succ_of_le hr.replaced.length_le
  | liquidated _ steps =>
    rw [Plan.draft_seen, State.activeTroves, steps.settled.troves_eq, ← State.activeTroves]
    refine sweep_keeps (P := fun w => w.draft.state.activeTroves.length ≤ _) steps.swept_eq ?_
      (Nat.le_succ _)
    intro u v step hu
    obtain ⟨t, hr, -⟩ := step.replaced
    exact hr.length_le.trans hu
  | redeemed steps =>
    rw [Plan.draft_seen, steps.state_eq]
    refine draw_keeps (P := fun w => w.draft.state.activeTroves.length ≤ _) steps.walked_eq ?_ ?_
      (Nat.le_succ _)
    · intro u v step hu
      obtain ⟨t, t', new, change, e⟩ := step.exists_effect
      exact (e.replaced.length_le.trans e.realization.replaced.length_le).trans hu
    · intro u owner share s hs hu
      obtain ⟨t, t', hr⟩ := State.exists_realization hs
      exact hr.replaced.length_le.trans hu
  | claimed _ state_eq => exact hkept (state_eq ▸ rfl)
  | deposited _ state_eq => exact hkept (state_eq ▸ rfl)
  | withdrawn _ _ state_eq => exact hkept (state_eq ▸ rfl)

/-- The pool absorbs what was set aside for it. -/
theorem Liquidation.stability_eq {liquidator : Address} {targets : Targets}
    {plan : Plan Liquidated} (q : Liquidation l liquidator targets plan) :
    l.state.stability.offset q.swept.totals.debtOffset q.swept.totals.collOffset =
      .ok plan.draft.state.stability := by
  have hswept := q.swept_spec.stability_eq
  obtain ⟨-, -, hrest, -⟩ := settleRest_books q.draft_eq
  obtain ⟨-, -, hspread, -⟩ := settleSpread_books q.spread_eq
  rw [hrest, hspread]
  obtain ⟨h0, hd⟩ | ⟨-, stability, _, hs, -, hstate, -⟩ := settleOffset_cases q.offset_eq
  · rw [hd, hswept, h0, StabilityPool.offset, if_pos (Or.inr rfl)]
  · rw [hstate, ← hswept, hs]

/-- **No request raises a count by more than one.** -/
theorem planOf_counted (hl : l.state.Counted n) {r : Request} {plan : Plan Answer}
    (h : l.planOf r = .ok plan) : plan.draft.state.Counted (n + 1) := by
  refine ⟨(planOf_length h).trans (Nat.succ_le_succ hl.troves_le), ?_⟩
  have hkept : ∀ {s : State}, s.stability = l.state.stability → s.stability.Counted (n + 1) :=
    fun hs => hs ▸ hl.pool.mono
  cases planned_of_planOf h with
  | opened steps => exact hkept steps.books.2.2.2.2
  | adjusted steps => exact hkept steps.books.2.2.2
  | closed steps => exact hkept steps.books.2.2.2
  | realized state_eq => exact hkept (State.realize_books state_eq).2.2
  | liquidated _ steps => exact hl.pool.offset steps.stability_eq
  | redeemed steps => exact hkept steps.books.2.2.2
  | claimed _ state_eq => exact hkept (state_eq ▸ rfl)
  | deposited deposit_eq state_eq =>
    rw [Plan.draft_seen, state_eq]
    exact ((StabilityPool.deposit_ok deposit_eq).1.counted hl.pool).mono
  | withdrawn _ withdraw_eq state_eq =>
    rw [Plan.draft_seen, state_eq]
    exact ((StabilityPool.withdraw_ok withdraw_eq).1.counted hl.pool).mono

/-! ## Runs -/

/-- No count of a ledger is above a bound, where some updates of the price came before. -/
structure Counted (l : Ledger) (before n : Nat) : Prop where
  state : l.state.Counted n
  updates_le : l.feed.updates.toNat ≤ before + n

theorem obey_updates (c : Command) :
    (l.obey c).2.feed.updates.toNat ≤ l.feed.updates.toNat + 1 := by
  have hsettle : ∀ x : Attempt Ledger, (∀ next, x = .ok next → next.feed = l.feed) →
      (settle l x).2.feed.updates.toNat ≤ l.feed.updates.toNat + 1 := by
    intro x hx
    cases x with
    | error stop => exact Nat.le_succ _
    | ok next => exact hx next rfl ▸ Nat.le_succ _
  cases c with
  | request r =>
    rw [(obey_request_setup r).2.2]
    exact Nat.le_succ _
  | setPrice price =>
    show (settle l (l.setPrice price)).2.feed.updates.toNat ≤ _
    rcases h : l.setPrice price with stop | next
    · exact Nat.le_succ _
    · simp only [setPrice, PriceFeed.priced, bind_eq_ok_iff, pure_eq_ok_iff] at h
      obtain ⟨_, ⟨_, -, updates, hupdates, rfl⟩, rfl⟩ := h
      exact Nat.le_of_eq (nextCount_eq_ok_iff.1 hupdates)
  | setTime now =>
    refine hsettle _ ?_
    intro next h
    rw [setTime_ok h]
  | advance seconds =>
    refine hsettle _ ?_
    intro next h
    simp only [advance, bind_eq_ok_iff] at h
    obtain ⟨_, -, h⟩ := h
    rw [setTime_ok h]
  | seedRate rate clock =>
    refine hsettle _ ?_
    intro next h
    simp only [seedRate, bind_eq_ok_iff, pure_eq_ok_iff] at h
    obtain ⟨_, -, rfl⟩ := h
    rfl
  | transfer source target amount => exact Nat.le_succ _
  | move m => exact Nat.le_succ _

theorem obey_counted {before : Nat} (hl : l.Counted before n) (c : Command) :
    (l.obey c).2.Counted before (n + 1) := by
  refine ⟨?_, (obey_updates c).trans (Nat.succ_le_succ hl.updates_le)⟩
  obtain ⟨r, plan, -, hplan, hc⟩ | ⟨now, rate, -, hn⟩ := obey_state (l := l) c
  · obtain ⟨-, -, -, hn⟩ := commit_ok hc
    rw [hn]
    exact planOf_counted hl.state hplan
  · rw [hn]
    exact ⟨Nat.le_succ_of_le hl.state.troves_le, hl.state.pool.mono⟩

/-- **No count is above the number of commands.** -/
theorem after_counted {params : Parameters} {accounts : ProtocolAccounts} {feed : PriceFeed}
    {token : TokenBook} {ranking : Ranking} (h : new params accounts feed token ranking = .ok l)
    (commands : List Command) :
    (l.after commands).Counted feed.updates.toNat commands.length := by
  induction commands using List.reverseRecOn with
  | nil =>
    rw [new_eq h]
    exact ⟨⟨Nat.le_refl 0, Nat.le_refl 0, Nat.le_refl 0, Nat.le_refl 0, nofun⟩, Nat.le_refl _⟩
  | append_singleton commands c ih =>
    rw [List.length_append, List.length_singleton]
    obtain hn | hn := after_append_singleton (l := l) commands c
    · rw [hn]
      exact obey_counted ih c
    · rw [hn]
      exact ⟨⟨Nat.le_succ_of_le ih.state.troves_le, ih.state.pool.mono⟩,
        Nat.le_succ_of_le ih.updates_le⟩

/-- Whatever is asked of a ledger is answered or refused. -/
structure Answers (l : Ledger) : Prop where
  entire : ∀ owner, ¬ Halts (l.state.entire owner)
  ratio : ∀ owner, ¬ Halts (l.ratio owner)
  nominalRatio : ∀ owner, ¬ Halts (l.state.nominalRatio owner)
  pending : ∀ owner, ¬ Halts (l.pending owner)
  systemColl : ¬ Halts l.state.systemColl
  systemDebt : ¬ Halts l.state.systemDebt
  systemRatio : ¬ Halts l.systemRatio
  isInRecovery : ¬ Halts l.isInRecovery
  borrowingRate : ¬ Halts l.borrowingRate
  borrowingFee : ∀ debt, ¬ Halts (l.borrowingFee debt)
  redemptionRate : ¬ Halts l.redemptionRate
  compounded : ∀ owner, ¬ Halts (l.state.stability.compounded owner)
  gain : ∀ owner, ¬ Halts (l.state.stability.gain owner)
  verify : ¬ Halts l.state.verify

/-- Only the gain of a deposit needs a count that is not full. -/
theorem Counted.answers {before : Nat} (hl : l.Counted before n) (hn : n + 1 < UInt64.size) :
    l.Answers := by
  have hsum : ∀ (troves : List Trove) (first : Amount),
      ¬ Fails (troves.foldlM (fun sum t => sum.add t.stake) first) .fault := by
    intro troves
    induction troves with
    | nil => exact not_fails_ok
    | cons t rest ih => simp [ih]
  constructor <;> simp only [halts_iff_fails]
  case gain =>
    intro owner h
    obtain ⟨-, d, hd, hfilled⟩ := StabilityPool.fails_gain h
    have := hl.state.pool.accounts_le owner d hd
    unfold Filled at hfilled
    omega
  case pending =>
    intro owner
    unfold pending
    split <;> simp
  case verify => simp [State.verify, State.sumStakes, hsum]
  all_goals simp [Ledger.ratio, State.nominalRatio, State.systemColl, State.systemDebt,
    Ledger.systemRatio, State.systemRatio, Pools.systemColl, Pools.systemDebt, isInRecovery,
    Ledger.borrowingRate, Ledger.borrowingFee, Ledger.redemptionRate, BaseRate.borrowingRate,
    BaseRate.borrowingFee, BaseRate.redemptionRate]

theorem Counted.not_saturated {before : Nat} (hl : l.Counted before n) (ht : l.state.Tallied)
    (hroom : before + n + 1 < UInt64.size) (c : Command) : ¬ l.Saturated c := by
  intro h
  cases h with
  | price filled =>
    have := hl.updates_le
    unfold Filled at filled
    omega
  | trove filled =>
    have := hl.state.troves_le
    have := ht.count_eq
    unfold Filled at filled
    omega
  | pool _ filled => exact hl.state.pool.not_filled (by omega) filled
  | deposit _ account_eq filled =>
    have := hl.state.pool.accounts_le _ _ account_eq
    unfold Filled at filled
    omega

theorem halts_obey (hp : l.params.validate = .ok ()) {c : Command} (h : Halts (l.obey c).1) :
    l.Overruns c ∨ l.Saturated c := by
  obtain ⟨_, _, -, ⟨⟩, -⟩ | ⟨-, hfull⟩ := fails_obey (fun _ => hp) (halts_iff_fails.1 h)
  exact hfull

/-- **Only a loss that is no amount can halt the run, but for full counts:** in every run of a new
ledger, a command halts only if it is a liquidation that overruns the pool, or finds a count full.
Within the first `2 ^ 64` commands no count is full: then a command halts exactly if it overruns the
pool, and no question halts.  And a pool is overrun only if its deposits are close to the largest
amount divided by one whole unit. -/
theorem halts_iff_overruns {params : Parameters} {accounts : ProtocolAccounts} {feed : PriceFeed}
    {token : TokenBook} {ranking : Ranking} (h : new params accounts feed token ranking = .ok l)
    (commands : List Command) (c : Command) :
    (Halts ((l.after commands).obey c).1 →
        (l.after commands).Overruns c ∨ (l.after commands).Saturated c) ∧
      (feed.updates.toNat + commands.length + 1 < UInt64.size →
        (Halts ((l.after commands).obey c).1 ↔ (l.after commands).Overruns c) ∧
          (l.after commands).Answers) ∧
      ((l.after commands).Overruns c → Amount.limit <
        (l.after commands).state.stability.deposits.val * (Amount.unit.val + 1)) := by
  have hp := after_validate h commands
  refine ⟨halts_obey hp, ?_, ?_⟩
  · intro hroom
    have hcounted := after_counted h commands
    have hfree := hcounted.not_saturated (after_tallied h commands) hroom c
    exact ⟨⟨fun hhalts => (halts_obey hp hhalts).resolve_right hfree,
      fun hover => halts_iff_fails.2 (hover.fails hp)⟩, hcounted.answers (by omega)⟩
  · rintro ⟨_, _, _, _, -, -, -, hover⟩
    exact hover.loss.limit_lt hover.debt_le

/-- A price at which so little collateral backs a debt that its tokens come close to the largest
amount. -/
def hugePrice : Amount := ⟨10 ^ 38, by decide⟩

/-- A debt of that size is deposited, and a small trove falls below the minimum ratio. -/
def hugeDeposits : List Command := [
  .request (.openTrove ⟨user 2, ⟨10 ^ 58, by decide⟩, ⟨6 * 10 ^ 76, by decide⟩, Amount.unit,
    .none⟩),
  .request (.openTrove ⟨user 3, ⟨2 * 10 ^ 39, by decide⟩, ⟨10 ^ 59, by decide⟩, Amount.unit,
    .none⟩),
  .request (.provide (user 2) ⟨6 * 10 ^ 76, by decide⟩), .setPrice ⟨5 * 10 ^ 37, by decide⟩]

/-- The small trove is liquidated. -/
def hugeLoss : Command := .request (.liquidate (user 4) (user 3))

theorem hugeLoss_outcome {l : Ledger} (h : starting .standard hugePrice = .ok l) :
    l.Accepted hugeDeposits ∧ ((l.after hugeDeposits).obey hugeLoss).1 = fault := by
  rw [starting_eq h]
  decide +kernel

/-- Its loss is no amount. -/
theorem halts_iff_overruns_hugeLoss : ∃ l, starting .standard hugePrice = .ok l ∧
    l.Accepted hugeDeposits ∧ Halts ((l.after hugeDeposits).obey hugeLoss).1 ∧
    (l.after hugeDeposits).Overruns hugeLoss ∧ Amount.limit <
      (l.after hugeDeposits).state.stability.deposits.val * (Amount.unit.val + 1) := by
  obtain ⟨l, h⟩ : ∃ l, starting .standard hugePrice = .ok l := ⟨_, starting_standard _⟩
  obtain ⟨haccepted, hhalts⟩ := hugeLoss_outcome h
  obtain ⟨-, hiff, hlimit⟩ := halts_iff_overruns h hugeDeposits hugeLoss
  have hover := (hiff (by decide)).1.1 hhalts
  exact ⟨l, h, haccepted, hhalts, hover, hlimit hover⟩

/-- **A run can end so,** on the standard parameters and after commands of which none was
refused. -/
theorem loss_overruns : ∃ l, starting .standard hugePrice = .ok l ∧ l.Accepted hugeDeposits ∧
    Halts ((l.after hugeDeposits).obey hugeLoss).1 := by
  obtain ⟨l, h⟩ : ∃ l, starting .standard hugePrice = .ok l := ⟨_, starting_standard _⟩
  obtain ⟨haccepted, hhalts⟩ := hugeLoss_outcome h
  exact ⟨l, h, haccepted, hhalts⟩

end Ledger

end Stablecoin
