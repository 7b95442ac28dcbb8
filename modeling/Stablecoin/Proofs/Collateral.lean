/-
  Stablecoin theory — collateral is neither created nor lost.

  Collateral enters with opened and adjusted troves, and leaves with what a request
  reports as sent.  In between it is held in one of five places: the active, the
  default and the surplus pool, the fees of the stakers, and the stability pool.

  * `State.collHeld` is what is held, `Request.collIn` and `Answer.collOut` what
    goes in and out with one request;
  * `Ledger.planOf_collHeld` is the balance of one request, and
    `Ledger.run_collHeld` that of a run.
-/
import Stablecoin.Proofs.Requests

namespace Stablecoin

/-! ## In, out, and held -/

/-- The collateral in all pools, deposits included. -/
def State.collHeld (s : State) : Nat := s.pools.coll + s.stability.coll.val

/-- The collateral put in with a request that is carried out. -/
def Request.collIn : Request → Nat
  | .openTrove r => r.deposit.val
  | .adjustTrove r => r.deposit.val
  | _ => 0

/-- The collateral that an answer reports as sent. -/
def Answer.collOut : Answer → Nat
  | .opened _ => 0
  | .adjusted details => details.sent.val
  | .closed details => details.sent.val
  | .realized _ => 0
  | .liquidated details => details.totals.collReward.val
  | .redeemed details => details.sent.val
  | .claimed amount => amount.val
  | .deposited _ change => change.gain.val

/-- The collateral put in with a command, which depends on its outcome. -/
def Command.collIn : Command → Attempt (Option Answer) → Nat
  | .request r, .ok _ => r.collIn
  | _, _ => 0

/-- The collateral sent with an outcome. -/
def collOut : Attempt (Option Answer) → Nat
  | .ok (some answer) => answer.collOut
  | _ => 0

/-- The collateral put in with commands. -/
def totalCollIn (commands : List Command) (outcomes : List (Attempt (Option Answer))) : Nat :=
  (List.zipWith Command.collIn commands outcomes).sum

/-- The collateral sent with outcomes. -/
def totalCollOut (outcomes : List (Attempt (Option Answer))) : Nat := (outcomes.map collOut).sum

namespace Ledger

variable {l : Ledger}

/-! ## One request -/

theorem collIn_of_liquidation {r : Request} {liquidator : Address} {targets : Targets}
    (h : r.liquidation = some (liquidator, targets)) : r.collIn = 0 := by
  cases r with
  | liquidate | liquidateLowest | liquidateListed => rfl
  | _ => cases h

/-- **The balance of a request:** what was held and what it puts in is what it sends and what is
held then. -/
theorem planOf_collHeld {r : Request} {plan : Plan Answer} (h : l.planOf r = .ok plan) :
    plan.draft.state.collHeld + plan.answer.collOut = l.state.collHeld + r.collIn := by
  cases planned_of_planOf h with
  | opened steps =>
    obtain ⟨hcoll, -, -, -, hpool⟩ := steps.books
    simp only [Plan.draft_seen, Plan.answer_seen, State.collHeld, Answer.collOut,
      Request.collIn, hpool]
    omega
  | adjusted steps =>
    obtain ⟨hcoll, -, -, hpool⟩ := steps.books
    simp only [Plan.draft_seen, Plan.answer_seen, State.collHeld, Answer.collOut,
      Request.collIn, hpool]
    omega
  | closed steps =>
    obtain ⟨hcoll, -, -, hpool⟩ := steps.books
    simp only [Plan.draft_seen, Plan.answer_seen, State.collHeld, Answer.collOut,
      Request.collIn, hpool]
    omega
  | realized state_eq =>
    obtain ⟨hcoll, -, hpool⟩ := State.realize_books state_eq
    simp only [Plan.draft_seen, Plan.answer_seen, State.collHeld, Answer.collOut,
      Request.collIn, hcoll, hpool]
  | liquidated request_eq steps =>
    rw [collIn_of_liquidation request_eq]
    exact steps.books.1
  | redeemed steps =>
    obtain ⟨hcoll, -, -, hpool⟩ := steps.books
    simp only [Plan.draft_seen, Plan.answer_seen, State.collHeld, Answer.collOut,
      Request.collIn, hpool]
    omega
  | claimed paid_eq state_eq =>
    obtain ⟨-, -, htotal, -⟩ := Surplus.paidOut_eq_ok_iff.1 paid_eq
    simp only [Plan.draft_seen, Plan.answer_seen, State.collHeld, Answer.collOut,
      Request.collIn, state_eq, Pools.coll]
    omega
  | deposited deposit_eq state_eq =>
    have hcoll := (StabilityPool.deposit_ok deposit_eq).1.coll_eq
    simp only [Plan.draft_seen, Plan.answer_seen, State.collHeld, Answer.collOut,
      Request.collIn, state_eq]
    omega
  | withdrawn _ withdraw_eq state_eq =>
    have hcoll := (StabilityPool.withdraw_ok withdraw_eq).1.coll_eq
    simp only [Plan.draft_seen, Plan.answer_seen, State.collHeld, Answer.collOut,
      Request.collIn, state_eq]
    omega

/-! ## Runs -/

theorem obey_collHeld (c : Command) : (l.obey c).2.state.collHeld + collOut (l.obey c).1 =
    l.state.collHeld + c.collIn (l.obey c).1 := by
  by_cases hr : ∃ r, c = .request r
  · obtain ⟨r, rfl⟩ := hr
    rcases obey_request_cases (l := l) r with ⟨plan, hplan, ho, hc⟩ | ⟨stop, ho, hp⟩
    · have hstate : (l.obey (.request r)).2.state = plan.draft.state := by
        obtain ⟨-, -, -, hn⟩ := commit_ok hc
        rw [hn]
      rw [ho, hstate]
      exact planOf_collHeld hplan
    · rw [ho, perform_error_state hp]
      rfl
  · obtain ⟨hnone, _, _, _, _, hn, -⟩ :=
      obey_control (l := l) fun r hc => hr ⟨r, hc⟩
    have hout : collOut (l.obey c).1 = 0 := by
      unfold collOut
      split
      · next answer ho => exact absurd ho (hnone answer)
      · rfl
    have hin : c.collIn (l.obey c).1 = 0 := by
      unfold Command.collIn
      split
      · next r _ _ => exact absurd ⟨r, rfl⟩ hr
      · rfl
    rw [hout, hin, hn]
    rfl

/-- **The balance of a run.** -/
theorem run_collHeld (commands : List Command) :
    (l.after commands).state.collHeld + totalCollOut (l.run commands).1 =
      l.state.collHeld + totalCollIn commands (l.run commands).1 := by
  induction commands generalizing l with
  | nil => rfl
  | cons c rest ih =>
    have hc := obey_collHeld (l := l) c
    have hrest := ih (l := (l.obey c).2)
    rw [after] at hrest ⊢
    rcases run_cons (l := l) c rest with hr | ⟨ho, hr⟩
    · simp only [hr, totalCollOut, totalCollIn, List.map_cons, List.zipWith_cons_cons,
        List.sum_cons] at hrest ⊢
      omega
    · simp only [hr, totalCollOut, totalCollIn, List.map_cons, List.zipWith_cons_cons,
        List.sum_cons, List.map_nil, List.zipWith_nil_right, List.sum_nil, Nat.add_zero, ← ho]
      exact hc

/-- **Collateral is neither created nor lost:** in every run of a ledger from its start, what was
put in is what was sent and what is held. -/
theorem coll_conserved {params : Parameters} {price : Amount} (h : starting params price = .ok l)
    (commands : List Command) :
    totalCollIn commands (l.run commands).1 =
      totalCollOut (l.run commands).1 + (l.after commands).state.collHeld := by
  have hstart : l.state.collHeld = 0 := by
    simp only [starting, new, bind_eq_ok_iff, pure_eq_ok_iff] at h
    obtain ⟨_, -, _, -, rfl⟩ := h
    rfl
  have hrun := run_collHeld (l := l) commands
  omega

/-- The collateral of a first trove, at a price of two thousand. -/
theorem coll_conserved_firstOpening : ∃ l, starting .standard twoThousand = .ok l ∧
    totalCollIn [firstOpening] (l.run [firstOpening]).1 = 10_000_000_000_000_000_000 ∧
    totalCollIn [firstOpening] (l.run [firstOpening]).1 =
      totalCollOut (l.run [firstOpening]).1 + (l.after [firstOpening]).state.collHeld :=
  ⟨_, starting_standard _, by decide +kernel, coll_conserved (starting_standard _) _⟩

end Ledger

end Stablecoin
