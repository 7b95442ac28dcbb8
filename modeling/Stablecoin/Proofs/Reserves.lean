/-
  Stablecoin theory — reserves of tokens.

  Two accounts hold tokens for the protocol itself: the gas pool the reserve of
  every trove, and the stability pool the deposits.  What each must hold is kept in
  the state (`Reserve.due`), and changed by other code than its balance.

  * `Draft.Serves`: a draft moves tokens into a reserve or out of it as what is due
    changes, and not both ways.  Every plan for a user does
    (`Ledger.planOf_serves`);
  * `Ledger.Reserving`: balances and dues agree, which every command of a user
    keeps (`obey_reserving`);
  * `Ledger.reserves_held`: in every run of users both reserves hold what is due,
    so that what a plan takes out of them is always there.
-/
import Stablecoin.Proofs.Backing
import Stablecoin.Proofs.TroveChanges

namespace Stablecoin

/-! ## Users -/

/-- The user for whom a request is made. -/
def Request.user : Request → Address
  | .openTrove r => r.owner
  | .adjustTrove r => r.owner
  | .closeTrove owner | .realize owner | .claim owner => owner
  | .liquidate liquidator _ | .liquidateLowest liquidator _ | .liquidateListed liquidator _ =>
    liquidator
  | .redeem r => r.redeemer
  | .provide owner _ | .withdraw owner _ => owner

theorem Request.user_of_liquidation {r : Request} {liquidator : Address} {targets : Targets}
    (h : r.liquidation = some (liquidator, targets)) : r.user = liquidator := by
  cases r with
  | liquidate | liquidateLowest | liquidateListed =>
    cases h
    rfl
  | _ => cases h

/-- The accounts in which the protocol holds tokens for itself. -/
inductive Reserve
  | gas
  | deposits
deriving DecidableEq

namespace Reserve

instance : Fintype Reserve := ⟨{gas, deposits}, fun reserve => by cases reserve <;> simp⟩

/-- The account of a reserve. -/
def account (a : ProtocolAccounts) : Reserve → Address
  | gas => a.gasPool
  | deposits => a.stabilityPool

/-- What a reserve must hold: a compensation for each active trove, and all deposits. -/
def due (p : Parameters) (s : State) : Reserve → Nat
  | gas => p.gasCompensation.val * s.activeTroves.length
  | deposits => s.stability.deposits.val

end Reserve

/-- A user, and no reserve, makes the request or the transfer. -/
def Command.ByUser (a : ProtocolAccounts) : Command → Prop
  | .request r => ∀ reserve, r.user ≠ Reserve.account a reserve
  | .transfer source _ _ => ∀ reserve, source ≠ Reserve.account a reserve
  | .move _ => False
  | _ => True

/-- The reserves and the account for fees are different accounts. -/
structure ProtocolAccounts.Separate (a : ProtocolAccounts) : Prop where
  reserves_ne : a.gasPool ≠ a.stabilityPool
  staking_ne : ∀ reserve, a.staking ≠ Reserve.account a reserve

theorem ProtocolAccounts.standard_separate : standard.Separate := by
  have h : (standard.gasPool ≠ standard.stabilityPool) ∧
      ∀ reserve, standard.staking ≠ Reserve.account standard reserve := by decide +kernel
  exact ⟨h.1, h.2⟩

theorem Reserve.account_mem_all (a : ProtocolAccounts) (reserve : Reserve) :
    reserve.account a ∈ a.all := by
  cases reserve <;> simp [account, ProtocolAccounts.all]

/-- A draft moves tokens into a reserve or out of it as what is due to the reserve changes. -/
structure Draft.Serves (l : Ledger) (reserve : Reserve) (d : Draft) : Prop where
  due_eq : reserve.due l.params d.state + TokenMove.takenFrom d.moves (reserve.account l.accounts) =
    reserve.due l.params l.state + TokenMove.givenTo d.moves (reserve.account l.accounts)
  one_way : TokenMove.takenFrom d.moves (reserve.account l.accounts) = 0 ∨
    TokenMove.givenTo d.moves (reserve.account l.accounts) = 0

namespace Ledger

variable {l : Ledger} {reserve : Reserve}

/-! ## Plans -/

theorem Opening.serves {r : OpenRequest} {plan : Plan Opened} (o : Opening l r plan)
    (ha : l.accounts.Separate) (hu : ∀ reserve, r.owner ≠ Reserve.account l.accounts reserve) :
    plan.draft.Serves l reserve := by
  obtain ⟨-, hmoves, -⟩ := chargeFeeIf_ok o.charged_eq
  obtain ⟨-, -, -, -, hpool⟩ := o.books
  have hlength := o.replaced.length_eq
  have hstaking := (ha.staking_ne reserve).symm
  have howner := (hu reserve).symm
  have htaken : TokenMove.takenFrom plan.draft.moves (reserve.account l.accounts) = 0 := by
    simp [o.draft_eq, hmoves]
  have hgiven : TokenMove.givenTo plan.draft.moves (reserve.account l.accounts) =
      if reserve.account l.accounts = l.accounts.gasPool then l.params.gasCompensation.val else 0 := by
    simp [o.draft_eq, hmoves, hstaking, howner]
  refine ⟨?_, Or.inl htaken⟩
  rw [htaken, hgiven]
  simp only [Option.elim_none, Option.elim_some, Nat.add_zero] at hlength
  cases reserve
  · simp only [Reserve.due, Reserve.account, if_true, hlength, Nat.mul_add, Nat.mul_one, Nat.add_zero]
  · simp [Reserve.due, Reserve.account, ha.reserves_ne.symm, hpool]

theorem Adjustment.serves {r : AdjustRequest} {plan : Plan Adjusted} (a : Adjustment l r plan)
    (ha : l.accounts.Separate) (hu : ∀ reserve, r.owner ≠ Reserve.account l.accounts reserve) :
    plan.draft.Serves l reserve := by
  obtain ⟨-, hmoves, -⟩ := chargeFeeIf_ok a.charged_eq
  obtain ⟨-, -, -, hpool⟩ := a.books
  obtain ⟨t, hr⟩ := a.realization
  have hlength := Nat.add_right_cancel (a.replaced.length_eq)
  have hrealized := Nat.add_right_cancel (hr.replaced.length_eq)
  have hstaking := (ha.staking_ne reserve).symm
  have howner := (hu reserve).symm
  have htaken : TokenMove.takenFrom plan.draft.moves (reserve.account l.accounts) = 0 := by
    cases hg : r.debtGrows <;>
      simp [a.draft_eq, hmoves, hg, howner]
  have hgiven : TokenMove.givenTo plan.draft.moves (reserve.account l.accounts) = 0 := by
    cases hg : r.debtGrows <;>
      simp [a.draft_eq, hmoves, hg, hstaking, howner]
  refine ⟨?_, Or.inl htaken⟩
  rw [htaken, hgiven]
  cases reserve
  · simp only [Reserve.due, hlength, hrealized]
  · simp only [Reserve.due, hpool]

theorem Closing.serves {owner : Address} {plan : Plan Closed} (c : Closing l owner plan)
    (ha : l.accounts.Separate) (hu : ∀ reserve, owner ≠ Reserve.account l.accounts reserve) :
    plan.draft.Serves l reserve := by
  obtain ⟨-, -, -, hpool⟩ := c.books
  obtain ⟨t, hr⟩ := c.realization
  have hlength := c.replaced.length_eq
  have hrealized := Nat.add_right_cancel hr.replaced.length_eq
  have howner := (hu reserve).symm
  have hgiven : TokenMove.givenTo plan.draft.moves (reserve.account l.accounts) = 0 := by
    simp [c.draft_eq]
  have htaken : TokenMove.takenFrom plan.draft.moves (reserve.account l.accounts) =
      if reserve.account l.accounts = l.accounts.gasPool then l.params.gasCompensation.val else 0 := by
    simp [c.draft_eq, howner]
  refine ⟨?_, Or.inr hgiven⟩
  rw [htaken, hgiven]
  simp only [Option.elim_none, Option.elim_some, Nat.add_zero] at hlength
  cases reserve
  · simp only [Reserve.due, Reserve.account, if_true, ← hrealized, ← hlength, Nat.mul_add,
      Nat.mul_one, Nat.add_zero]
  · simp [Reserve.due, Reserve.account, ha.reserves_ne.symm, hpool]

/-- While candidates are visited, the reserves of those taken are set aside for the liquidator. -/
theorem sweep_reserve {price : Amount} {listed : Bool} {w w' : Sweep} {candidates : List Address}
    (h : l.sweep price listed w candidates = .ok w') :
    w'.totals.debtReward.val + l.params.gasCompensation.val * w'.draft.state.activeTroves.length =
      w.totals.debtReward.val + l.params.gasCompensation.val * w.draft.state.activeTroves.length := by
  refine sweep_keeps h ?_ rfl
  intro u v step ih
  obtain ⟨t, hreplaced, -⟩ := step.replaced
  obtain ⟨-, hreward, -⟩ := SplitTotals.including_ok step.totals_eq
  have hlength := hreplaced.length_eq
  simp only [Option.elim_none, Option.elim_some, Nat.add_zero] at hlength
  rw [judge_debtReward step.judge_eq] at hreward
  rw [← ih, hreward, ← hlength, Nat.mul_add, Nat.mul_one]
  omega

theorem Liquidation.serves {liquidator : Address} {targets : Targets} {plan : Plan Liquidated}
    (q : Liquidation l liquidator targets plan) (ha : l.accounts.Separate)
    (hu : ∀ reserve, liquidator ≠ Reserve.account l.accounts reserve) :
    plan.draft.Serves l reserve := by
  have hs := q.settled
  have hreserve := sweep_reserve q.swept_eq
  have hactive : plan.draft.state.activeTroves = q.swept.draft.state.activeTroves := by
    unfold State.activeTroves
    rw [hs.troves_eq]
  have hliquidator := (hu reserve).symm
  have hgiven : TokenMove.givenTo plan.draft.moves (reserve.account l.accounts) = 0 := by
    simp [hs.moves_eq, hliquidator]
  refine ⟨?_, Or.inr hgiven⟩
  rw [hgiven, hs.moves_eq]
  simp only [Draft.state_start, SplitTotals.zero, Amount.val_zero, Nat.zero_add] at hreserve
  cases reserve
  · simp [Reserve.due, Reserve.account, ha.reserves_ne, hactive]
    omega
  · simp [Reserve.due, Reserve.account, ha.reserves_ne.symm]
    exact hs.deposits_eq.symm

/-- While troves are drawn on, the reserves of those closed are burned. -/
theorem draw_reserve {r : RedeemRequest} {price : Amount} {w w' : Drawing} {owners : List Address}
    (h : l.draw r price w owners = .ok w') (account : Address) :
    TokenMove.givenTo w'.draft.moves account = TokenMove.givenTo w.draft.moves account ∧
      TokenMove.takenFrom w'.draft.moves account +
          (if account = l.accounts.gasPool then
            l.params.gasCompensation.val * w'.draft.state.activeTroves.length else 0) =
        TokenMove.takenFrom w.draft.moves account +
          if account = l.accounts.gasPool then
            l.params.gasCompensation.val * w.draft.state.activeTroves.length else 0 := by
  refine draw_keeps h ?_ ?_ ⟨rfl, rfl⟩
  · rintro u v step ⟨ih₁, ih₂⟩
    obtain ⟨t, t', new, change, e⟩ := step.exists_effect
    have hrealized := Nat.add_right_cancel e.realization.replaced.length_eq
    have hlength := e.replaced.length_eq
    rw [← ih₁, ← ih₂, e.moves_eq]
    cases e.drawn with
    | closed =>
      simp only [Option.elim_none, Option.elim_some, Nat.add_zero] at hlength
      rw [← hrealized, ← hlength]
      simp [TokenMove.given, TokenMove.credit]
      split <;> ring
    | part =>
      simp [Nat.add_right_cancel hlength, hrealized]
  · rintro u owner share s hs hu
    obtain ⟨t, t', hr⟩ := State.exists_realization hs
    rw [Draft.state_withState, Draft.moves_withState, Nat.add_right_cancel hr.replaced.length_eq]
    exact hu

theorem Redemption.serves {r : RedeemRequest} {plan : Plan Redeemed} (q : Redemption l r plan)
    (ha : l.accounts.Separate) (hu : ∀ reserve, r.redeemer ≠ Reserve.account l.accounts reserve) :
    plan.draft.Serves l reserve := by
  obtain ⟨-, -, -, hpool⟩ := q.books
  obtain ⟨hgiven, htaken⟩ := draw_reserve q.walked_eq (reserve.account l.accounts)
  have hactive : plan.draft.state.activeTroves = q.walked.draft.state.activeTroves := by
    rw [q.state_eq]
    rfl
  have hredeemer := (hu reserve).symm
  have hnone : TokenMove.givenTo plan.draft.moves (reserve.account l.accounts) = 0 := by
    simp [q.moves_eq, hgiven]
  have hwalked : TokenMove.takenFrom plan.draft.moves (reserve.account l.accounts) =
      TokenMove.takenFrom q.walked.draft.moves (reserve.account l.accounts) := by
    simp [q.moves_eq, hredeemer]
  refine ⟨?_, Or.inr hnone⟩
  rw [hnone, hwalked]
  cases reserve
  · simp [Reserve.due, Reserve.account, hactive] at htaken ⊢
    omega
  · simp [Reserve.due, Reserve.account, ha.reserves_ne.symm, hpool] at htaken ⊢
    exact htaken

/-- **Every plan for a user serves both reserves.** -/
theorem planOf_serves (ha : l.accounts.Separate) {r : Request}
    (hu : ∀ reserve, r.user ≠ Reserve.account l.accounts reserve) {plan : Plan Answer}
    (h : l.planOf r = .ok plan) (reserve : Reserve) : plan.draft.Serves l reserve := by
  cases planned_of_planOf h with
  | opened steps => exact steps.serves ha hu
  | adjusted steps => exact steps.serves ha hu
  | closed steps => exact steps.serves ha hu
  | realized state_eq moves_eq =>
    obtain ⟨-, -, hpool⟩ := State.realize_books state_eq
    obtain ⟨t, t', hr⟩ := State.exists_realization state_eq
    refine ⟨?_, Or.inl (by simp [moves_eq])⟩
    cases reserve
    · simp [Reserve.due, moves_eq, Nat.add_right_cancel hr.replaced.length_eq]
    · simp [Reserve.due, moves_eq, hpool]
  | liquidated request_eq steps =>
    rw [Request.user_of_liquidation request_eq] at hu
    exact steps.serves ha hu
  | redeemed steps => exact steps.serves ha hu
  | claimed _ state_eq moves_eq =>
    refine ⟨?_, Or.inl (by simp [moves_eq])⟩
    cases reserve <;> simp [Reserve.due, moves_eq, state_eq, State.activeTroves]
  | @deposited owner amount _ _ deposit_eq state_eq moves_eq =>
    have hgas : l.accounts.gasPool ≠ owner := (hu .gas).symm
    have hpool : l.accounts.stabilityPool ≠ owner := (hu .deposits).symm
    obtain ⟨-, hdeposits⟩ := StabilityPool.deposit_ok deposit_eq
    cases reserve
    · refine ⟨?_, Or.inl ?_⟩ <;>
        simp [Reserve.due, Reserve.account, moves_eq, state_eq, State.activeTroves, hgas,
          ha.reserves_ne]
    · refine ⟨?_, Or.inl ?_⟩ <;>
        simp [Reserve.due, Reserve.account, moves_eq, state_eq, hdeposits, hpool]
  | @withdrawn owner amount _ _ _ withdraw_eq state_eq moves_eq =>
    have hgas : l.accounts.gasPool ≠ owner := (hu .gas).symm
    have hpool : l.accounts.stabilityPool ≠ owner := (hu .deposits).symm
    obtain ⟨-, -, hdeposits⟩ := StabilityPool.withdraw_ok withdraw_eq
    cases reserve
    · refine ⟨?_, Or.inr ?_⟩ <;>
        simp [Reserve.due, Reserve.account, moves_eq, state_eq, State.activeTroves, hgas,
          ha.reserves_ne]
    · refine ⟨?_, Or.inr ?_⟩ <;>
        simp [Reserve.due, Reserve.account, moves_eq, state_eq, hdeposits, hpool]

/-! ## Commands -/

/-- Both reserves hold what is due, and users cannot send tokens to them. -/
structure Reserving (l : Ledger) : Prop where
  backed : l.Backed
  separate : l.accounts.Separate
  guarded : ∀ reserve, l.token.isGuarded (Reserve.account l.accounts reserve) = true
  held : ∀ reserve, (l.token.balance (Reserve.account l.accounts reserve)).val =
    reserve.due l.params l.state

/-- What a plan takes out of a reserve is there. -/
theorem Reserving.taken_le (h : l.Reserving) {r : Request}
    (hu : ∀ reserve, r.user ≠ Reserve.account l.accounts reserve) {plan : Plan Answer}
    (hplan : l.planOf r = .ok plan) (reserve : Reserve) :
    TokenMove.takenFrom plan.draft.moves (reserve.account l.accounts) ≤
      (l.token.balance (reserve.account l.accounts)).val := by
  obtain ⟨hdue, hone⟩ := planOf_serves h.separate hu hplan reserve
  rw [h.held reserve]
  omega

/-- A request for a user moves balances as it moves what is due. -/
theorem obey_request_held (h : l.Reserving) {r : Request}
    (hu : ∀ reserve, r.user ≠ Reserve.account l.accounts reserve) :
    (l.obey (.request r)).2.token.guarded = l.token.guarded ∧ ∀ reserve,
      ((l.obey (.request r)).2.token.balance (Reserve.account l.accounts reserve)).val =
        reserve.due l.params (l.obey (.request r)).2.state := by
  obtain ⟨plan, hplan, -, happly, hstate⟩ | hn := obey_request_backed h.backed r
  · obtain ⟨hguarded, hbalance⟩ := TokenMove.applyInTurn_ok happly
    refine ⟨hguarded, ?_⟩
    intro reserve
    have hmoved := hbalance (reserve.account l.accounts)
    have hdue := (planOf_serves h.separate hu hplan reserve).due_eq
    have hheld := h.held reserve
    rw [hstate]
    omega
  · rw [hn]
    exact ⟨rfl, h.held⟩

/-- So does a transfer of a user, since a reserve takes no transfers. -/
theorem transfer_held (h : l.Reserving) {source target : Address} {amount : Amount}
    {token : TokenBook} (hsource : ∀ reserve, source ≠ Reserve.account l.accounts reserve)
    (ht : l.token.transfer source target amount = .ok token) :
    token.guarded = l.token.guarded ∧ ∀ reserve,
      token.balance (Reserve.account l.accounts reserve) =
        l.token.balance (Reserve.account l.accounts reserve) := by
  obtain ⟨-, -, hopen, hmove⟩ := TokenBook.transfer_ok ht
  obtain ⟨-, -, hbalance⟩ := TokenBook.move_ok hmove
  refine ⟨TokenBook.move_guarded hmove, ?_⟩
  intro reserve
  have htarget : Reserve.account l.accounts reserve ≠ target := by
    rintro rfl
    rw [h.guarded reserve] at hopen
    cases hopen
  have hsame := hbalance (Reserve.account l.accounts reserve)
  rw [if_neg (hsource reserve).symm, if_neg htarget] at hsame
  exact Amount.ext hsame

/-- **What users do keeps both reserves.** -/
theorem obey_reserving {c : Command} (hc : c.ByUser l.accounts) (h : l.Reserving) :
    (l.obey c).2.Reserving := by
  obtain ⟨hparams, haccounts⟩ := obey_setup (l := l) c
  have hmove : ∀ m, c ≠ .move m := by
    rintro m rfl
    exact hc
  have hheld : (l.obey c).2.token.guarded = l.token.guarded ∧ ∀ reserve,
      ((l.obey c).2.token.balance (Reserve.account l.accounts reserve)).val =
        reserve.due l.params (l.obey c).2.state := by
    by_cases hr : ∃ r, c = .request r
    · obtain ⟨r, rfl⟩ := hr
      exact obey_request_held h hc
    obtain ⟨-, _, _, _, token, hn, -, ht⟩ := obey_control (l := l) fun r he => hr ⟨r, he⟩
    rw [hn]
    obtain rfl | ⟨source, target, amount, rfl, ht⟩ | ⟨m, hm⟩ := ht
    · exact ⟨rfl, h.held⟩
    · obtain ⟨hguarded, hbalance⟩ := transfer_held h hc ht
      refine ⟨hguarded, ?_⟩
      intro reserve
      rw [hbalance]
      exact h.held reserve
    · exact absurd hm (hmove m)
  refine ⟨obey_backed hmove h.backed, ?_, ?_, ?_⟩
  · rw [haccounts]
    exact h.separate
  · intro reserve
    rw [haccounts, TokenBook.isGuarded, hheld.1]
    exact h.guarded reserve
  · rw [haccounts, hparams]
    exact hheld.2

/-! ## Runs -/

theorem starting_reserving {params : Parameters} {price : Amount}
    (h : starting params price = .ok l) : l.Reserving := by
  rw [starting_eq h]
  refine ⟨⟨rfl, rfl⟩, ProtocolAccounts.standard_separate, ?_, ?_⟩
  · intro reserve
    exact TokenBook.isGuarded_stable (reserve.account_mem_all _)
  · intro reserve
    cases reserve <;> rfl

theorem after_reserving {params : Parameters} {price : Amount} (h : starting params price = .ok l)
    {commands : List Command} (hc : ∀ c ∈ commands, c.ByUser l.accounts) :
    (l.after commands).Reserving := by
  have hrun : (l.after commands).accounts = l.accounts ∧ (l.after commands).Reserving := by
    refine after_of_step (P := fun next => next.accounts = l.accounts ∧ next.Reserving)
      (fun next c hm hn => ?_) hc ⟨rfl, starting_reserving h⟩
    obtain ⟨haccounts, hreserving⟩ := hn
    rw [← haccounts] at hm
    exact ⟨(obey_setup c).2.trans haccounts, obey_reserving hm hreserving⟩
  exact hrun.2

/-- **The reserves hold what is due:** in every run of a ledger from its start in which all requests
and transfers are made by users, the gas pool holds a compensation for each active trove, and the
stability pool all deposits; and whatever a request of a user is planned to take out of them is
there. -/
theorem reserves_held {params : Parameters} {price : Amount} (h : starting params price = .ok l)
    {commands : List Command} (hc : ∀ c ∈ commands, c.ByUser l.accounts) :
    ((l.after commands).token.balance l.accounts.gasPool).val =
        params.gasCompensation.val * (l.after commands).state.activeTroves.length ∧
      (l.after commands).token.balance l.accounts.stabilityPool =
        (l.after commands).state.stability.deposits ∧
      ∀ r plan, (Command.request r).ByUser l.accounts → (l.after commands).planOf r = .ok plan →
        ∀ reserve, TokenMove.takenFrom plan.draft.moves (Reserve.account l.accounts reserve) ≤
          ((l.after commands).token.balance (Reserve.account l.accounts reserve)).val := by
  have hafter := after_reserving h hc
  obtain ⟨hparams, haccounts⟩ := after_setup (l := l) commands
  have hheld := hafter.held
  rw [haccounts, hparams] at hheld
  have hstart : l.params = params := by rw [starting_eq h]
  refine ⟨?_, Amount.ext (hheld .deposits), ?_⟩
  · rw [← hstart]
    exact hheld .gas
  · intro r plan hu hplan
    rw [← haccounts] at hu ⊢
    exact hafter.taken_le hu hplan

instance (a : ProtocolAccounts) (c : Command) : Decidable (c.ByUser a) :=
  match c with
  | .request r => inferInstanceAs (Decidable (∀ reserve, r.user ≠ Reserve.account a reserve))
  | .transfer source _ _ =>
    inferInstanceAs (Decidable (∀ reserve, source ≠ Reserve.account a reserve))
  | .move _ => .isFalse id
  | .setPrice _ | .setTime _ | .advance _ | .seedRate _ _ => .isTrue trivial

/-- One reserve is left, and the deposits without the debt that they took. -/
theorem reserves_held_firstOffset : ∃ l, starting .standard twoThousand = .ok l ∧
    (∀ c ∈ firstOffset, c.ByUser l.accounts) ∧
    (l.after firstOffset).state.activeTroves.length = 1 ∧
    (l.after firstOffset).token.balance l.accounts.gasPool = .whole 200 ∧
    (l.after firstOffset).token.balance l.accounts.stabilityPool = .whole 790 ∧
    ((l.after firstOffset).token.balance l.accounts.gasPool).val =
      Parameters.standard.gasCompensation.val * (l.after firstOffset).state.activeTroves.length ∧
    (l.after firstOffset).token.balance l.accounts.stabilityPool =
      (l.after firstOffset).state.stability.deposits := by
  obtain ⟨l, h⟩ : ∃ l, starting .standard twoThousand = .ok l := ⟨_, starting_standard _⟩
  obtain ⟨hc, hlength, hgas, hdeposits⟩ : (∀ c ∈ firstOffset, c.ByUser l.accounts) ∧
      (l.after firstOffset).state.activeTroves.length = 1 ∧
      (l.after firstOffset).token.balance l.accounts.gasPool = .whole 200 ∧
      (l.after firstOffset).token.balance l.accounts.stabilityPool = .whole 790 := by
    rw [starting_eq h]
    decide +kernel
  obtain ⟨hheld, hdue, -⟩ := reserves_held h hc
  exact ⟨l, h, hc, hlength, hgas, hdeposits, hheld, hdue⟩

end Ledger

end Stablecoin
