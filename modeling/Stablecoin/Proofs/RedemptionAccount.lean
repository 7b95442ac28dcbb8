/-
  Stablecoin theory — the account of a redemption.

  A walk takes pending shares in, closes troves, and stops in the middle of the last
  one or before it.  Here is the account that it leaves: a `Portion` for each trove
  that it drew on, in order, and nothing else that anybody would see.  What is left to
  redeem tells whether the walk can go on: while there is something, every trove so
  far was closed, so that no trove is drawn on twice and only the last can remain open.

  * `Portion.Settled` is what became of one trove;
  * `Drawing.Drew` is the account of a walk, kept by each step (`DrawStep.drew`);
  * `Ledger.redemption_accounted`: the account of every redemption that is carried
    out, in every run.
-/
import Stablecoin.Proofs.EntireTroves
import Stablecoin.Proofs.TokenMoves
import Stablecoin.Ledger.Queries

namespace Stablecoin

/-! ## One trove -/

/-- A trove that was drawn on: whose it was, what it held, what was drawn, and the rest. -/
structure Portion where
  owner : Address
  held : Balance
  lot : Lot
  rest : Balance

/-- What became of a trove between two states: the lot is taken from it at face value, rounded down,
and the rest stays in it, or, if it was closed, only the reserve was left of its debt, and the
collateral goes to the claim of the owner. -/
structure Portion.Settled (x : Portion) (p : Parameters) (price : Amount) (s s' : State) :
    Prop where
  held_eq : s.contents x.owner = .ok x.held
  lot_eq : x.lot.coll.val = x.lot.debt.val * Amount.unit.val / price.val
  debt_parts : x.held.debt.val = x.rest.debt.val + x.lot.debt.val
  coll_parts : x.held.coll.val = x.rest.coll.val + x.lot.coll.val
  closed : x.lot.closed = true → x.rest.debt = p.gasCompensation ∧
    s'.isActive x.owner = false ∧
    (s'.pools.surplus.claimable x.owner).val =
      (s.pools.surplus.claimable x.owner).val + x.rest.coll.val
  part : x.lot.closed = false → s'.contents x.owner = .ok x.rest ∧
    s'.pools.surplus.claimable x.owner = s.pools.surplus.claimable x.owner

namespace Portion.Settled

variable {x : Portion} {p : Parameters} {price : Amount} {s s₁ s' : State}

/-- What a later state leaves alone is settled in it. -/
theorem later (hx : x.Settled p price s s₁) (hactive : s'.isActive x.owner = s₁.isActive x.owner)
    (hcontents : s'.contents x.owner = s₁.contents x.owner)
    (hclaim : s'.pools.surplus.claimable x.owner = s₁.pools.surplus.claimable x.owner) :
    x.Settled p price s s' where
  held_eq := hx.held_eq
  lot_eq := hx.lot_eq
  debt_parts := hx.debt_parts
  coll_parts := hx.coll_parts
  closed := by
    rw [hactive, hclaim]
    exact hx.closed
  part := by
    rw [hcontents, hclaim]
    exact hx.part

/-- What was as it is in an earlier state is settled since then. -/
theorem since (hx : x.Settled p price s₁ s') (hcontents : s₁.contents x.owner = s.contents x.owner)
    (hclaim : s₁.pools.surplus.claimable x.owner = s.pools.surplus.claimable x.owner) :
    x.Settled p price s s' where
  held_eq := by
    rw [← hcontents]
    exact hx.held_eq
  lot_eq := hx.lot_eq
  debt_parts := hx.debt_parts
  coll_parts := hx.coll_parts
  closed := by
    rw [← hclaim]
    exact hx.closed
  part := by
    rw [← hclaim]
    exact hx.part

end Portion.Settled

namespace Ledger

variable {l : Ledger} {r : RedeemRequest} {price : Amount} {w w' : Drawing}

/-- What drawing on a trove does to the others: nothing that they hold or can claim changes. -/
theorem DrawStep.others_eq (step : DrawStep l r price w w') (hc : w.draft.state.Covered)
    {other : Address} (ho : other ≠ step.owner) :
    w'.draft.state.isActive other = w.draft.state.isActive other ∧
      w'.draft.state.contents other = w.draft.state.contents other ∧
      w'.draft.state.pools.surplus.claimable other =
        w.draft.state.pools.surplus.claimable other := by
  obtain ⟨t, u, new, change, e⟩ := step.exists_effect
  have hactive := e.replaced.others_eq other ho
  have hsums : w'.draft.state.spread.snapshot = step.realized.spread.snapshot :=
    Redistribution.snapshot_eq_iff.2 fun side => (e.replaced.sums_eq side).1
  refine ⟨?_, ?_, ?_⟩
  · rw [State.isActive_congr hactive, e.realization.isActive_eq]
  · rw [State.contents_congr hactive hsums, e.realization.contents_eq hc]
  · rw [← State.realize_surplus step.realized_eq]
    cases new with
    | none =>
      obtain ⟨left, -, hcredited⟩ := e.credited rfl
      exact (Surplus.creditedLeft_claimable hcredited).2 other ho
    | some rest => rw [e.uncredited rest rfl]

/-- What drawing on a trove does to it. -/
theorem DrawStep.exists_portion (step : DrawStep l r price w w') (hc : w.draft.state.Covered) :
    ∃ x : Portion, x.owner = step.owner ∧ x.lot = step.lot ∧
      x.Settled l.params price w.draft.state w'.draft.state ∧
      (x.lot.closed = false → w'.remaining = 0) ∧
      w'.draft.moves = w.draft.moves ++
        if x.lot.closed then (TokenMove.burn l.accounts.gasPool l.params.gasCompensation).orNone
        else [] := by
  obtain ⟨t, u, new, change, e⟩ := step.exists_effect
  have hheld := State.contents_of_entire (e.realization.entire_eq hc)
  obtain ⟨-, hlot⟩ := Amount.mulDiv_eq_ok_iff.1 e.lot_eq
  have hsurplus := State.realize_surplus step.realized_eq
  have hclosed := e.closed_eq
  have hmoves := e.moves_eq
  cases e.drawn with
  | closed =>
    have hshut : step.lot.closed = true := hclosed
    obtain ⟨left, hleft, hcredited⟩ := e.credited rfl
    refine ⟨⟨step.owner, ⟨u.coll, u.debt⟩, step.lot, ⟨left, l.params.gasCompensation⟩⟩, rfl, rfl,
      ?_, fun hopen => absurd (hshut.symm.trans hopen) nofun, ?_⟩
    · constructor
      case held_eq => exact hheld
      case lot_eq => exact hlot
      case debt_parts => exact (e.net_eq rfl).trans (Nat.add_comm _ _)
      case coll_parts => exact hleft
      case closed =>
        intro _
        refine ⟨rfl, State.isActive_eq_false_iff.2 e.replaced.new_eq, ?_⟩
        rw [← hsurplus]
        exact (Surplus.creditedLeft_claimable hcredited).1
      case part => exact fun hopen => absurd (hshut.symm.trans hopen) nofun
    · rw [hmoves, if_pos hshut]
      rfl
  | @part coll debt stake nominal hnominal hremaining =>
    have hopen : step.lot.closed = false := hclosed
    have hrest := e.rest_eq _ rfl
    refine ⟨⟨step.owner, ⟨u.coll, u.debt⟩, step.lot, ⟨coll, debt⟩⟩, rfl, rfl, ?_,
      fun _ => hremaining, ?_⟩
    · constructor
      case held_eq => exact hheld
      case lot_eq => exact hlot
      case debt_parts => exact hrest .debt
      case coll_parts => exact hrest .coll
      case closed => exact fun hshut => absurd (hopen.symm.trans hshut) nofun
      case part =>
        intro _
        refine ⟨State.contents_of_entire (e.replaced.entire_rewritten hc e.realization), ?_⟩
        rw [e.uncredited _ rfl, hsurplus]
    · rw [hmoves, if_neg (Bool.eq_false_iff.1 hopen)]
      rfl

end Ledger

/-! ## The walk -/

/-- The account of a walk over a ledger: what it drew, from whom, and what it left alone.  While
there is something left to redeem, every trove that it drew on was closed. -/
structure Drawing.Drew (w : Drawing) (l : Ledger) (r : RedeemRequest) (price : Amount)
    (portions : List Portion) : Prop where
  covered : w.draft.state.Covered
  owners_eq : w.owners = portions.map Portion.owner
  owners_nodup : w.owners.Nodup
  closed_eq : w.closed = (portions.filter fun x => x.lot.closed).map Portion.owner
  closed_before : ∀ x ∈ portions.dropLast, x.lot.closed = true
  closed_of_rest : w.remaining ≠ 0 → ∀ x ∈ portions, x.lot.closed = true
  redeemed_eq : w.redeemed.val = (portions.map fun x => x.lot.debt.val).sum
  drawn_eq : w.drawn.val = (portions.map fun x => x.lot.coll.val).sum
  amount_eq : r.amount.val = w.redeemed.val + w.remaining.val
  moves_eq : ∀ account, TokenMove.givenTo w.draft.moves account = 0 ∧
    TokenMove.takenFrom w.draft.moves account =
      if account = l.accounts.gasPool then l.params.gasCompensation.val * w.closed.length else 0
  settled : ∀ x ∈ portions, x.Settled l.params price l.state w.draft.state
  contents_eq : ∀ owner ∉ w.owners, w.draft.state.contents owner = l.state.contents owner
  claims_eq : ∀ owner ∉ w.owners,
    w.draft.state.pools.surplus.claimable owner = l.state.pools.surplus.claimable owner

namespace Drawing.Drew

variable {l : Ledger} {r : RedeemRequest} {price : Amount} {w : Drawing} {portions : List Portion}
  (hw : w.Drew l r price portions)
include hw

theorem owner_mem {x : Portion} (hx : x ∈ portions) : x.owner ∈ w.owners := by
  rw [hw.owners_eq]
  exact List.mem_map_of_mem hx

/-- Taking a share in is not seen in the account. -/
theorem realize {owner : Address} {share : PendingShare} {s : State}
    (h : w.draft.state.realize owner = .ok (share, s)) :
    Drew { w with draft := w.draft.withState s } l r price portions := by
  obtain ⟨t, u, hr⟩ := State.exists_realization h
  have hsurplus := State.realize_surplus h
  have hcontents := hr.contents_eq hw.covered
  constructor
  case covered => exact hw.covered.realization hr
  case owners_eq => exact hw.owners_eq
  case owners_nodup => exact hw.owners_nodup
  case closed_eq => exact hw.closed_eq
  case closed_before => exact hw.closed_before
  case closed_of_rest => exact hw.closed_of_rest
  case redeemed_eq => exact hw.redeemed_eq
  case drawn_eq => exact hw.drawn_eq
  case amount_eq => exact hw.amount_eq
  case moves_eq => exact hw.moves_eq
  case settled =>
    intro x hx
    exact (hw.settled x hx).later (hr.isActive_eq _) (hcontents _) (by rw [← hsurplus]; rfl)
  case contents_eq =>
    intro other ho
    exact (hcontents other).trans (hw.contents_eq other ho)
  case claims_eq =>
    intro other ho
    rw [← hw.claims_eq other ho, ← hsurplus]
    rfl

/-- Each lot is rounded down, and so nothing is drawn above face value. -/
theorem worth_le : w.drawn.val * price.val ≤ w.redeemed.val * Amount.unit.val := by
  rw [hw.drawn_eq, hw.redeemed_eq, ← List.sum_map_mul_right, ← List.sum_map_mul_right]
  refine List.sum_le_sum ?_
  intro x hx
  rw [(hw.settled x hx).lot_eq]
  exact Nat.div_mul_le_self _ _

end Drawing.Drew

namespace Ledger

variable {l : Ledger} {r : RedeemRequest} {price : Amount} {w w' : Drawing}
  {portions : List Portion}

/-- No trove is drawn on twice: those before were closed. -/
theorem DrawStep.fresh (step : DrawStep l r price w w') (hw : w.Drew l r price portions) :
    step.owner ∉ w.owners := by
  rw [hw.owners_eq]
  intro hmem
  obtain ⟨x, hx, howner⟩ := List.mem_map.1 hmem
  obtain ⟨-, hgone, -⟩ := (hw.settled x hx).closed (hw.closed_of_rest step.remaining_ne x hx)
  obtain ⟨t, u, hr⟩ := State.exists_realization step.realized_eq
  rw [howner, State.isActive_eq_false_iff, hr.replaced.old_eq] at hgone
  cases hgone

/-- **A step adds what it has drawn to the account.** -/
theorem DrawStep.drew (step : DrawStep l r price w w') (hw : w.Drew l r price portions) :
    ∃ x, w'.Drew l r price (portions ++ [x]) := by
  obtain ⟨x, howner, hlot, hsettled, hremaining, hmoves⟩ := step.exists_portion hw.covered
  have hshut := hw.closed_of_rest step.remaining_ne
  have hfresh := step.fresh hw
  have hredeemed := step.redeemed_eq
  have hdrawn := step.coll_eq
  have hrest := step.remaining_eq
  have hamount := hw.amount_eq
  rw [← hlot] at hredeemed hdrawn hrest
  have hnot : ∀ {owner : Address}, owner ∉ w'.owners → owner ∉ w.owners ∧ owner ≠ step.owner := by
    intro owner ho
    rw [step.owners_eq, List.mem_append, List.mem_singleton, not_or] at ho
    exact ho
  have hclosed : w'.closed = w.closed ++ if x.lot.closed then [step.owner] else [] := by
    rw [step.closed_eq, hlot]
    split
    · rfl
    · exact (List.append_nil _).symm
  refine ⟨x, ?_⟩
  constructor
  case covered => exact step.covered hw.covered
  case owners_eq => rw [step.owners_eq, hw.owners_eq, List.map_append, List.map_singleton, howner]
  case owners_nodup =>
    rw [step.owners_eq, ← List.concat_eq_append]
    exact hw.owners_nodup.concat hfresh
  case closed_eq =>
    rw [hclosed, hw.closed_eq, List.filter_append, List.map_append, List.filter_singleton]
    cases x.lot.closed
    · rfl
    · simp [howner]
  case closed_before =>
    rw [List.dropLast_concat]
    exact hshut
  case closed_of_rest =>
    intro hne
    rw [List.forall_mem_append, List.forall_mem_singleton]
    refine ⟨hshut, ?_⟩
    -- a lot that leaves its trove open was all that there was to redeem
    by_contra hopen
    exact hne (hremaining (Bool.eq_false_iff.2 hopen))
  case redeemed_eq =>
    rw [List.map_append, List.sum_append, List.map_singleton, List.sum_singleton, hredeemed,
      hw.redeemed_eq]
  case drawn_eq =>
    rw [List.map_append, List.sum_append, List.map_singleton, List.sum_singleton, hdrawn,
      hw.drawn_eq]
  case amount_eq => omega
  case moves_eq =>
    intro account
    obtain ⟨hgiven, htaken⟩ := hw.moves_eq account
    rw [hmoves, hclosed, TokenMove.givenTo_append, TokenMove.takenFrom_append, hgiven, htaken]
    cases x.lot.closed
    · simp
    · simp only [if_true, TokenMove.givenTo_orNone, TokenMove.takenFrom_orNone,
        TokenMove.given_burn, TokenMove.taken_burn, List.length_append, List.length_singleton]
      split
      · simp [Nat.mul_succ]
      · simp
  case settled =>
    rw [List.forall_mem_append, List.forall_mem_singleton]
    constructor
    · intro y hy
      have hne := ne_of_mem_of_not_mem (hw.owner_mem hy) hfresh
      obtain ⟨hactive, hcontents, hclaim⟩ := step.others_eq hw.covered hne
      exact (hw.settled y hy).later hactive hcontents hclaim
    · -- what this trove held when the walk came to it is what it held before the walk
      rw [← howner] at hfresh
      exact hsettled.since (hw.contents_eq _ hfresh) (hw.claims_eq _ hfresh)
  case contents_eq =>
    intro owner ho
    obtain ⟨-, hcontents, -⟩ := step.others_eq hw.covered (hnot ho).2
    rw [hcontents, hw.contents_eq owner (hnot ho).1]
  case claims_eq =>
    intro owner ho
    obtain ⟨-, -, hclaim⟩ := step.others_eq hw.covered (hnot ho).2
    rw [hclaim, hw.claims_eq owner (hnot ho).1]

theorem draw_drew {owners : List Address} (h : l.draw r price w owners = .ok w')
    (hw : w.Drew l r price []) : ∃ portions, w'.Drew l r price portions := by
  refine draw_keeps h ?_ ?_ ⟨[], hw⟩
  · rintro u v step ⟨portions, hu⟩
    obtain ⟨x, hv⟩ := step.drew hu
    exact ⟨_, hv⟩
  · rintro u owner share s hs ⟨portions, hu⟩
    exact ⟨portions, hu.realize hs⟩

end Ledger

/-! ## Redemptions -/

/-- The account of a redemption: the troves that it drew on, each once and not more than were allowed,
all closed but for the last; the tokens that it redeemed, which are burned, no more than were
offered; the collateral that it drew, at face value at most, and where that goes; and what nobody
else has lost. -/
structure Redeemed.Accounted (details : Redeemed) (l next : Ledger) (r : RedeemRequest)
    (price : Amount) (portions : List Portion) : Prop where
  price_eq : l.price = .ok price
  owners_eq : details.owners = portions.map Portion.owner
  owners_nodup : details.owners.Nodup
  length_le : r.most ≠ 0 → details.owners.length ≤ r.most.toNat
  closed_eq : details.closed = (portions.filter fun x => x.lot.closed).map Portion.owner
  closed_before : ∀ owner ∈ details.owners.dropLast, owner ∈ details.closed
  attempted_eq : details.attempted = r.amount
  redeemed_le : details.redeemed ≤ details.attempted
  redeemed_eq : details.redeemed.val = (portions.map fun x => x.lot.debt.val).sum
  burned_eq : ∀ account, (l.token.balance account).val = (next.token.balance account).val +
    (if account = r.redeemer then details.redeemed.val else 0) +
    if account = l.accounts.gasPool then
      l.params.gasCompensation.val * details.closed.length else 0
  drawn_eq : details.drawn.val = (portions.map fun x => x.lot.coll.val).sum
  drawn_parts : details.drawn.val = details.sent.val + details.fee.val
  worth_le : details.drawn.val * price.val ≤ details.redeemed.val * Amount.unit.val
  settled : ∀ x ∈ portions, x.Settled l.params price l.state next.state
  contents_eq : ∀ owner ∉ details.owners, next.state.contents owner = l.state.contents owner
  claims_eq : ∀ owner ∉ details.owners, next.claimable owner = l.claimable owner

namespace Ledger

variable {l start next : Ledger} {r : RedeemRequest} {details : Redeemed}

/-- Every redemption on covered books leaves such an account of its walk. -/
theorem Redemption.drew {plan : Plan Redeemed} (q : Redemption l r plan) (hc : l.state.Covered) :
    ∃ portions, q.walked.Drew l r q.price portions := by
  refine draw_drew q.walked_eq ?_
  constructor
  case covered => exact hc
  case owners_eq => rfl
  case owners_nodup => exact List.nodup_nil
  case closed_eq => rfl
  case closed_before => exact List.forall_mem_nil _
  case closed_of_rest => exact fun _ => List.forall_mem_nil _
  case redeemed_eq => rfl
  case drawn_eq => rfl
  case amount_eq => exact (Nat.zero_add _).symm
  case moves_eq => simp
  case settled => exact List.forall_mem_nil _
  case contents_eq => exact fun _ _ => rfl
  case claims_eq => exact fun _ _ => rfl

/-- After the walk only fees and the active pool are settled. -/
theorem Redemption.settled_eq {plan : Plan Redeemed} (q : Redemption l r plan) (owner : Address) :
    plan.draft.state.isActive owner = q.walked.draft.state.isActive owner ∧
      plan.draft.state.contents owner = q.walked.draft.state.contents owner ∧
      plan.draft.state.pools.surplus = q.walked.draft.state.pools.surplus := by
  rw [q.state_eq]
  exact ⟨State.isActive_congr rfl, State.contents_congr rfl rfl, rfl⟩

theorem Redemption.length_owners_le {plan : Plan Redeemed} (q : Redemption l r plan)
    (hmost : r.most ≠ 0) : q.walked.owners.length ≤ r.most.toNat := by
  obtain ⟨drawn, hprefix, howners⟩ := draw_owners q.walked_eq
  rw [howners, List.nil_append]
  exact hprefix.length_le.trans (q.length_le hmost)

/-- The redeemed tokens are burned, and the reserve of each trove that was closed. -/
theorem Redemption.burned_eq {plan : Plan Redeemed} {portions : List Portion} {token : TokenBook}
    (q : Redemption l r plan) (hw : q.walked.Drew l r q.price portions)
    (h : applyInTurn TokenMove.apply l.token plan.draft.moves = (.ok (), token))
    (account : Address) : (l.token.balance account).val = (token.balance account).val +
      (if account = r.redeemer then q.walked.redeemed.val else 0) +
      if account = l.accounts.gasPool then
        l.params.gasCompensation.val * q.walked.closed.length else 0 := by
  obtain ⟨-, hbalance⟩ := TokenMove.applyInTurn_ok h
  obtain ⟨hgiven, htaken⟩ := hw.moves_eq account
  have hbalance := hbalance account
  rw [q.moves_eq, TokenMove.takenFrom_append, TokenMove.givenTo_append, hgiven, htaken,
    TokenMove.takenFrom_orNone, TokenMove.givenTo_orNone, TokenMove.taken_burn,
    TokenMove.given_burn] at hbalance
  omega

/-- The account of the walk is that of the redemption: what follows it pays out and burns, and
leaves troves and claims alone. -/
theorem Redemption.accounted {plan : Plan Redeemed} {portions : List Portion}
    (q : Redemption l r plan) (hw : q.walked.Drew l r q.price portions)
    (htoken : applyInTurn TokenMove.apply l.token plan.draft.moves = (.ok (), next.token))
    (hstate : next.state = plan.draft.state) :
    plan.answer.Accounted l next r q.price portions := by
  rw [q.answer_eq]
  constructor
  case price_eq => exact q.price_eq
  case owners_eq => exact hw.owners_eq
  case owners_nodup => exact hw.owners_nodup
  case length_le => exact q.length_owners_le
  case closed_eq => exact hw.closed_eq
  case closed_before =>
    dsimp only
    rw [hw.owners_eq, hw.closed_eq, ← List.map_dropLast, List.forall_mem_map]
    intro x hx
    exact List.mem_map_of_mem (List.mem_filter.2 ⟨List.mem_of_mem_dropLast hx,
      hw.closed_before x hx⟩)
  case attempted_eq => rfl
  case redeemed_le =>
    rw [Amount.le_iff_val_le]
    exact Nat.le.intro hw.amount_eq.symm
  case redeemed_eq => exact hw.redeemed_eq
  case burned_eq => exact q.burned_eq hw htoken
  case drawn_eq => exact hw.drawn_eq
  case drawn_parts => exact q.sent_eq
  case worth_le => exact hw.worth_le
  case settled =>
    intro x hx
    obtain ⟨hactive, hcontents, hsurplus⟩ := q.settled_eq x.owner
    rw [hstate]
    exact (hw.settled x hx).later hactive hcontents (by rw [hsurplus])
  case contents_eq =>
    intro owner ho
    obtain ⟨-, hcontents, -⟩ := q.settled_eq owner
    rw [hstate, hcontents]
    exact hw.contents_eq owner ho
  case claims_eq =>
    intro owner ho
    obtain ⟨-, -, hsurplus⟩ := q.settled_eq owner
    rw [claimable, hstate, hsurplus]
    exact hw.claims_eq owner ho

/-- The steps of a redemption that is carried out. -/
theorem exists_redemption_of_obey
    (h : l.obey (.request (.redeem r)) = (.ok (some (.redeemed details)), next)) :
    ∃ plan, Nonempty (Redemption l r plan) ∧ plan.answer = details ∧
      next.state = plan.draft.state ∧
      applyInTurn TokenMove.apply l.token plan.draft.moves = (.ok (), next.token) := by
  have hcases := obey_request_cases (l := l) (.redeem r)
  rw [h] at hcases
  obtain ⟨_, hplan, hanswer, hc⟩ | ⟨_, hstop, -⟩ := hcases
  · obtain ⟨plan, hp, rfl⟩ := map_eq_ok_iff.1 hplan
    obtain ⟨-, -, htoken, hnext⟩ := commit_ok (show _ = (_, next) from hc)
    refine ⟨plan, exists_redemption hp, ?_, ?_, htoken⟩
    · exact (Answer.redeemed.inj (Option.some.inj (Except.ok.inj hanswer))).symm
    · rw [hnext]
      rfl
  · cases hstop

variable {params : Parameters} {accounts : ProtocolAccounts} {feed : PriceFeed} {token : TokenBook}
  {ranking : Ranking}

/-- **Every redemption is accounted for:** in every run of a ledger from its start, a redemption that
is carried out leaves the account of `Redeemed.Accounted`. -/
theorem redemption_accounted (h : new params accounts feed token ranking = .ok start)
    (commands : List Command)
    (hr : (start.after commands).obey (.request (.redeem r)) =
      (.ok (some (.redeemed details)), next)) :
    ∃ price portions, details.Accounted (start.after commands) next r price portions := by
  obtain ⟨plan, ⟨q⟩, rfl, hstate, htoken⟩ := exists_redemption_of_obey hr
  obtain ⟨portions, hw⟩ := q.drew (after_covered h commands)
  exact ⟨q.price, portions, q.accounted hw htoken hstate⟩

instance (x : Attempt (Option Answer)) (P : Redeemed → Prop) [DecidablePred P] :
    Decidable (∃ details, x = .ok (some (.redeemed details)) ∧ P details) :=
  match x with
  | .ok (some (.redeemed details)) => decidable_of_iff (P details)
      ⟨fun hp => ⟨details, rfl, hp⟩, fun ⟨_, hx, hp⟩ => by cases hx; exact hp⟩
  | .error _ | .ok none | .ok (some (.opened _)) | .ok (some (.adjusted _)) | .ok (some (.closed _))
  | .ok (some (.realized _)) | .ok (some (.liquidated _)) | .ok (some (.claimed _))
  | .ok (some (.deposited ..)) => .isFalse nofun

/-- The lower trove is closed, and the other goes on with less. -/
theorem redemption_accounted_deepRedemption : ∃ start next details price portions,
    starting .standard twoThousand = .ok start ∧
    (start.after lowerLast).obey (.request (.redeem deepRedemption)) =
      (.ok (some (.redeemed details)), next) ∧
    details.owners = [⟨3, by decide⟩, ⟨2, by decide⟩] ∧ details.closed = [⟨3, by decide⟩] ∧
    details.Accounted (start.after lowerLast) next deepRedemption price portions := by
  obtain ⟨start, h⟩ : ∃ start, starting .standard twoThousand = .ok start :=
    ⟨_, starting_standard _⟩
  obtain ⟨details, hdetails, howners, hclosed⟩ : ∃ details,
      ((start.after lowerLast).obey (.request (.redeem deepRedemption))).1 =
        .ok (some (.redeemed details)) ∧
      details.owners = [⟨3, by decide⟩, ⟨2, by decide⟩] ∧ details.closed = [⟨3, by decide⟩] := by
    rw [starting_eq h]
    decide +kernel
  obtain ⟨price, portions, haccount⟩ := redemption_accounted h lowerLast (Prod.ext hdetails rfl)
  exact ⟨start, _, details, price, portions, h, Prod.ext hdetails rfl, howners, hclosed, haccount⟩

end Ledger

end Stablecoin
