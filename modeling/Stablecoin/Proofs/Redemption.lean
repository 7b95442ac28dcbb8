/-
  Stablecoin theory — how tokens are redeemed.

  A redemption draws on one trove after another.  `Ledger.DrawStep` is what it
  does to one, and the whole walk is a chain of such steps, at whose end the
  pending share of a trove may be taken in whose partial redemption is then
  cancelled (`reflTransGen_of_draw`); so what these keep, the walk keeps
  (`draw_keeps`).  `Ledger.Redemption` names the steps of the whole operation.
-/
import Stablecoin.Proofs.Commit
import Stablecoin.Ledger.Redemption

namespace Stablecoin.Ledger

variable {l : Ledger} {r : RedeemRequest} {price : Amount}

/-! ## One trove -/

/-- The steps of closing a trove whose net debt is redeemed. -/
theorem closeRedeemed_ok {d d' : Draft} {owner : Address} {left : Amount}
    (h : l.closeRedeemed d owner left = .ok d') :
    ∃ unstaked closed active surplus, d.state.unstake owner = .ok unstaked ∧
      unstaked.closeTrove owner .closedByRedemption = .ok closed ∧
      closed.pools.active.decreased left l.params.gasCompensation = .ok active ∧
      closed.pools.surplus.creditedLeft owner left = .ok surplus ∧
      d'.state = { closed with
        pools := { closed.pools with active := active, surplus := surplus } } ∧
      d'.moves = d.moves ++
        (TokenMove.burn l.accounts.gasPool l.params.gasCompensation).orNone ∧
      d'.changes = d.changes ++ [.remove owner] := by
  simp only [closeRedeemed, bind_eq_ok_iff, pure_eq_ok_iff] at h
  obtain ⟨unstaked, h1, closed, h2, active, h3, surplus, h4, rfl⟩ := h
  exact ⟨unstaked, closed, active, surplus, h1, h2, h3, h4, by simp, by simp, by simp⟩

/-- A trove that is closed leaves the reserve, which is burned, and a surplus. -/
theorem closeRedeemed_books {d d' : Draft} {owner : Address} {left : Amount}
    (h : l.closeRedeemed d owner left = .ok d') :
    d'.state.pools.coll = d.state.pools.coll ∧
      d'.state.pools.debt + TokenMove.burnedBy d'.moves =
        d.state.pools.debt + TokenMove.burnedBy d.moves ∧
      TokenMove.mintedBy d'.moves = TokenMove.mintedBy d.moves ∧
      d'.state.stability = d.state.stability := by
  obtain ⟨unstaked, closed, active, surplus, hu, hc, ha, hs, hstate, hmoves, -⟩ :=
    closeRedeemed_ok h
  obtain ⟨hu₁, hu₂⟩ := State.unstake_books hu
  obtain ⟨hc₁, hc₂⟩ := State.closeTrove_books hc
  have hactive := Balance.decreased_eq_ok_iff.1 ha
  have hsurplus := Surplus.creditedLeft_total hs
  rw [hc₁, hu₁] at hactive hsurplus
  rw [hstate, hmoves, hc₁, hu₁]
  simp only [Pools.coll, Pools.debt, TokenMove.burnedBy_append, TokenMove.mintedBy_append,
    TokenMove.burnedBy_orNone, TokenMove.mintedBy_orNone, TokenMove.burned, TokenMove.minted]
  exact ⟨by omega, by omega, rfl, hc₂.trans hu₂⟩

/-- A partial redemption that is not cancelled writes the record anew, ranks the trove by it, and
moves no tokens. -/
theorem redeemPart_ok {d d' : Draft} {owner : Address} {coll debt : Amount}
    (h : l.redeemPart d r owner coll debt = .ok (some d')) :
    ∃ amended stake nominal, d.state.amend owner coll debt = .ok amended ∧
      amended.restake owner = .ok (stake, d'.state) ∧ d'.moves = d.moves ∧
      Amount.nominalRatio coll debt = .ok nominal ∧
      d'.changes = d.changes ++ [.reinsert owner nominal r.hints] := by
  simp only [redeemPart, bind_eq_ok_iff] at h
  obtain ⟨nominal, hn, h⟩ := h
  split at h
  · cases h
  simp only [bind_eq_ok_iff] at h
  obtain ⟨net, -, h⟩ := h
  split at h
  · cases h
  simp only [bind_eq_ok_iff, pure_eq_ok_iff, Prod.exists, Option.some.injEq] at h
  obtain ⟨amended, ha, stake, s, hs, rfl⟩ := h
  exact ⟨amended, stake, nominal, ha, by simpa using hs, by simp, hn, by simp⟩

/-- What is drawn from a trove, and whether the trove is closed or goes on. -/
theorem redeemFrom_ok {d d' : Draft} {owner : Address} {most : Amount} {lot : Lot}
    (h : l.redeemFrom d r owner most price = .ok (some (lot, d'))) :
    ∃ trove net debtLeft collLeft, d.state.activeTrove owner = .ok trove ∧
      trove.debt.val = net.val + l.params.gasCompensation.val ∧ lot.debt = min most net ∧
      lot.debt.mulDiv Amount.unit price = .ok lot.coll ∧
      trove.debt.val = debtLeft.val + lot.debt.val ∧ trove.coll.val = collLeft.val + lot.coll.val ∧
      (debtLeft = l.params.gasCompensation ∧ l.closeRedeemed d owner collLeft = .ok d' ∨
        debtLeft ≠ l.params.gasCompensation ∧
          l.redeemPart d r owner collLeft debtLeft = .ok (some d')) := by
  simp only [redeemFrom, bind_eq_ok_iff, Trove.netDebt, Amount.sub_eq_ok_iff] at h
  obtain ⟨trove, ht, net, hn, coll, hc, debtLeft, hd, collLeft, hl, h⟩ := h
  split at h
  · next hg =>
    simp only [bind_eq_ok_iff, pure_eq_ok_iff, Option.some.injEq, Prod.mk.injEq] at h
    obtain ⟨_, h, rfl, rfl⟩ := h
    exact ⟨trove, net, debtLeft, collLeft, ht, hn, rfl, hc, hd, hl, Or.inl ⟨hg, h⟩⟩
  · next hg =>
    simp only [bind_eq_ok_iff, pure_eq_ok_iff, Option.map_eq_some_iff, Prod.mk.injEq] at h
    obtain ⟨_, h, _, rfl, rfl, rfl⟩ := h
    exact ⟨trove, net, debtLeft, collLeft, ht, hn, rfl, hc, hd, hl, Or.inr ⟨hg, h⟩⟩

/-- A lot closes the trove if it leaves no more than the reserve. -/
theorem redeemFrom_closed_iff {d d' : Draft} {owner : Address} {most : Amount} {lot : Lot}
    {trove : Trove} (h : l.redeemFrom d r owner most price = .ok (some (lot, d')))
    (ht : d.state.activeTrove owner = .ok trove) :
    lot.closed = true ↔ trove.debt.val = lot.debt.val + l.params.gasCompensation.val := by
  simp only [redeemFrom, ht, bind_eq_ok_iff, Except.ok.injEq, exists_eq_left',
    Amount.sub_eq_ok_iff] at h
  obtain ⟨net, hn, coll, hc, debtLeft, hd, collLeft, hl, h⟩ := h
  split at h
  · next hg =>
    simp only [bind_eq_ok_iff, pure_eq_ok_iff, Option.some.injEq, Prod.mk.injEq] at h
    obtain ⟨_, -, rfl, -⟩ := h
    rw [hg] at hd
    exact iff_of_true rfl (hd.trans (Nat.add_comm _ _))
  · next hg =>
    simp only [bind_eq_ok_iff, pure_eq_ok_iff, Option.map_eq_some_iff, Prod.mk.injEq] at h
    obtain ⟨_, -, _, -, rfl, -⟩ := h
    refine iff_of_false nofun ?_
    intro heq
    rw [← Amount.val_inj] at hg
    dsimp only at heq
    omega

theorem redeemFrom_books {d d' : Draft} {owner : Address} {most : Amount} {lot : Lot}
    (h : l.redeemFrom d r owner most price = .ok (some (lot, d'))) :
    d'.state.pools.coll = d.state.pools.coll ∧
      d'.state.pools.debt + TokenMove.burnedBy d'.moves =
        d.state.pools.debt + TokenMove.burnedBy d.moves ∧
      TokenMove.mintedBy d'.moves = TokenMove.mintedBy d.moves ∧
      d'.state.stability = d.state.stability := by
  obtain ⟨_, _, _, _, -, -, -, -, -, -, ⟨-, h⟩ | ⟨-, h⟩⟩ := redeemFrom_ok h
  · exact closeRedeemed_books h
  · obtain ⟨amended, stake, _, ha, hs, hmoves, -⟩ := redeemPart_ok h
    obtain ⟨ha₁, ha₂⟩ := State.amend_books ha
    obtain ⟨hs₁, hs₂⟩ := State.restake_books hs
    rw [hmoves, hs₁, hs₂, ha₁, ha₂]
    exact ⟨rfl, rfl, rfl, rfl⟩

/-- A trove is drawn on. -/
structure DrawStep (l : Ledger) (r : RedeemRequest) (price : Amount) (w w' : Drawing) where
  owner : Address
  share : PendingShare
  realized : State
  lot : Lot
  realized_eq : w.draft.state.realize owner = .ok (share, realized)
  drawn_eq :
    l.redeemFrom (w.draft.withState realized) r owner w.remaining price = .ok (some (lot, w'.draft))
  redeemed_eq : w'.redeemed.val = w.redeemed.val + lot.debt.val
  coll_eq : w'.drawn.val = w.drawn.val + lot.coll.val
  remaining_ne : w.remaining ≠ 0
  remaining_eq : w.remaining.val = w'.remaining.val + lot.debt.val
  owners_eq : w'.owners = w.owners ++ [owner]
  closed_eq : w'.closed = if lot.closed then w.closed ++ [owner] else w.closed

/-! ## All troves -/

/-- A walk is a chain of steps, and a last trove may be visited in vain. -/
theorem reflTransGen_of_draw {w w' : Drawing} {owners : List Address}
    (h : l.draw r price w owners = .ok w') :
    ∃ u, Relation.ReflTransGen (fun u v => Nonempty (DrawStep l r price u v)) w u ∧
      (w' = u ∨ ∃ owner share s, u.draft.state.realize owner = .ok (share, s) ∧
        w' = { u with draft := u.draft.withState s }) := by
  induction owners generalizing w with
  | nil =>
    cases h
    exact ⟨_, .refl, Or.inl rfl⟩
  | cons owner rest ih =>
    rw [draw] at h
    split at h
    · cases h
      exact ⟨_, .refl, Or.inl rfl⟩
    next h0 =>
    simp only [bind_eq_ok_iff, Prod.exists] at h
    obtain ⟨share, s, hs, outcome, ho, h⟩ := h
    cases outcome with
    | none =>
      cases h
      exact ⟨w, .refl, Or.inr ⟨owner, share, s, hs, rfl⟩⟩
    | some found =>
      obtain ⟨lot, d⟩ := found
      simp only [bind_eq_ok_iff, Amount.add_eq_ok_iff, Amount.sub_eq_ok_iff] at h
      obtain ⟨redeemed, hr, drawn, hd, remaining, hm, h⟩ := h
      obtain ⟨u, hu, hlast⟩ := ih h
      exact ⟨u, .head ⟨owner, share, s, lot, hs, ho, hr, hd, h0, hm, rfl, rfl⟩ hu, hlast⟩

/-- **What one step keeps, a walk keeps,** if a last trove that takes its share in keeps it too. -/
@[elab_as_elim]
theorem draw_keeps {P : Drawing → Prop} {w w' : Drawing} {owners : List Address}
    (h : l.draw r price w owners = .ok w')
    (hstep : ∀ u v, DrawStep l r price u v → P u → P v)
    (hlast : ∀ u owner share s, u.draft.state.realize owner = .ok (share, s) → P u →
      P { u with draft := u.draft.withState s })
    (hw : P w) : P w' := by
  obtain ⟨u, hchain, hend⟩ := reflTransGen_of_draw h
  have hu : P u := by
    clear h hend
    induction hchain with
    | refl => exact hw
    | tail _ step ih =>
      obtain ⟨step⟩ := step
      exact hstep _ _ step ih
  obtain rfl | ⟨owner, share, s, hs, rfl⟩ := hend
  · exact hu
  · exact hlast u owner share s hs hu

/-- The troves that a walk draws on are the first that it visits. -/
theorem draw_owners {w w' : Drawing} {owners : List Address} (h : l.draw r price w owners = .ok w') :
    ∃ drawn, drawn <+: owners ∧ w'.owners = w.owners ++ drawn := by
  induction owners generalizing w with
  | nil =>
    cases h
    exact ⟨[], List.nil_prefix, (List.append_nil _).symm⟩
  | cons owner rest ih =>
    rw [draw] at h
    split at h
    · cases h
      exact ⟨[], List.nil_prefix, (List.append_nil _).symm⟩
    simp only [bind_eq_ok_iff, Prod.exists] at h
    obtain ⟨_, _, -, outcome, -, h⟩ := h
    cases outcome with
    | none =>
      cases h
      exact ⟨[], List.nil_prefix, (List.append_nil _).symm⟩
    | some found =>
      simp only [bind_eq_ok_iff] at h
      obtain ⟨_, -, _, -, _, -, h⟩ := h
      obtain ⟨drawn, hdrawn, howners⟩ := ih h
      refine ⟨owner :: drawn, List.cons_prefix_cons.2 ⟨rfl, hdrawn⟩, ?_⟩
      rw [howners, List.append_assoc, List.singleton_append]

/-- What a walk does to the books: the reserves of closed troves are burned, and what is drawn
stays in the active pool until the end. -/
theorem draw_books {w w' : Drawing} {owners : List Address} (h : l.draw r price w owners = .ok w') :
    w'.draft.state.pools.coll = w.draft.state.pools.coll ∧
      w'.draft.state.pools.debt + TokenMove.burnedBy w'.draft.moves =
        w.draft.state.pools.debt + TokenMove.burnedBy w.draft.moves ∧
      TokenMove.mintedBy w'.draft.moves = TokenMove.mintedBy w.draft.moves ∧
      w'.draft.state.stability = w.draft.state.stability := by
  refine draw_keeps h ?_ ?_ ⟨rfl, rfl, rfl, rfl⟩
  · rintro u v step ⟨ih₁, ih₂, ih₃, ih₄⟩
    obtain ⟨hr₁, hr₂, hr₃⟩ := State.realize_books step.realized_eq
    obtain ⟨hd₁, hd₂, hd₃, hd₄⟩ := redeemFrom_books step.drawn_eq
    rw [Draft.state_withState] at hd₁ hd₂ hd₄
    rw [Draft.moves_withState] at hd₂ hd₃
    exact ⟨hd₁.trans (hr₁.trans ih₁), by omega, hd₃.trans ih₃, hd₄.trans (hr₃.trans ih₄)⟩
  · intro u owner share s hs hu
    obtain ⟨hs₁, hs₂, hs₃⟩ := State.realize_books hs
    rw [Draft.state_withState, Draft.moves_withState, hs₁, hs₂, hs₃]
    exact hu

/-- The steps of a redemption. -/
structure Redemption (l : Ledger) (r : RedeemRequest) (plan : Plan Redeemed) where
  price : Amount
  system : SystemRatio
  /-- The owners to visit. -/
  visited : List Address
  /-- What the walk has left. -/
  walked : Drawing
  quote : FeeQuote
  sent : Amount
  staking : Amount
  active : Balance
  price_eq : l.price = .ok price
  system_eq : l.evaluate price = .ok system
  balance_eq : l.demandBalance r.redeemer r.amount = .ok ()
  length_le : r.most ≠ 0 → visited.length ≤ r.most.toNat
  walked_eq : l.draw r price ⟨.start l.state, r.amount, 0, 0, [], []⟩ visited = .ok walked
  drawn_ne : walked.drawn ≠ 0
  quote_eq : walked.draft.state.baseRate.quoteRedemption l.params walked.draft.state.now
    walked.drawn price system.debt r.limit = .ok quote
  sent_eq : walked.drawn.val = sent.val + quote.fee.val
  staking_eq : staking.val = walked.draft.state.pools.stakingColl.val + quote.fee.val
  active_eq : walked.draft.state.pools.active.decreased walked.drawn walked.redeemed = .ok active
  answer_eq : plan.answer = ⟨r.amount, walked.redeemed, walked.drawn, quote.fee, sent,
    walked.owners, walked.closed, quote.next.rate⟩
  state_eq : plan.draft.state = { walked.draft.state with
    baseRate := quote.next
    pools := { walked.draft.state.pools with stakingColl := staking, active := active } }
  moves_eq : plan.draft.moves =
    walked.draft.moves ++ (TokenMove.burn r.redeemer walked.redeemed).orNone
  changes_eq : plan.draft.changes = walked.draft.changes

theorem exists_redemption {plan : Plan Redeemed} (h : l.planRedemption r = .ok plan) :
    Nonempty (Redemption l r plan) := by
  simp only [planRedemption, bind_eq_ok_iff, pure_eq_ok_iff, Amount.add_eq_ok_iff,
    Amount.sub_eq_ok_iff, Draft.state_settingRate] at h
  obtain ⟨_, -, price, h1, system, h2, _, -, _, -, _, h3, walk, -, walked, h4, _, h5, quote, h6,
    sent, h7, staking, h8, active, h9, rfl⟩ := h
  refine ⟨⟨price, system, _, walked, quote, sent, staking, active, h1, h2, h3, ?_, h4,
    demand_eq_ok_iff.1 h5, h6, h7, h8, h9, by simp, by simp, by simp, by simp⟩⟩
  intro hmost
  rw [if_neg hmost]
  exact List.length_take_le _ _

/-- **What a redemption does to the books:** what is sent leaves them, and what is redeemed is
burned. -/
theorem Redemption.books {plan : Plan Redeemed} (q : Redemption l r plan) :
    plan.draft.state.pools.coll + plan.answer.sent.val = l.state.pools.coll ∧
      plan.draft.state.pools.debt + TokenMove.burnedBy plan.draft.moves = l.state.pools.debt ∧
      TokenMove.mintedBy plan.draft.moves = 0 ∧
      plan.draft.state.stability = l.state.stability := by
  obtain ⟨hcoll, hdebt, hminted, hpool⟩ := draw_books q.walked_eq
  have hactive := Balance.decreased_eq_ok_iff.1 q.active_eq
  have hsent := q.sent_eq
  have hstaking := q.staking_eq
  rw [q.state_eq, q.moves_eq, q.answer_eq]
  simp only [Draft.state_start, Draft.moves_start, Pools.coll, Pools.debt,
    TokenMove.burnedBy_append, TokenMove.mintedBy_append, TokenMove.burnedBy_orNone,
    TokenMove.mintedBy_orNone, TokenMove.burnedBy_nil, TokenMove.mintedBy_nil, TokenMove.burned,
    TokenMove.minted] at *
  exact ⟨by omega, by omega, by omega, hpool⟩

/-! ## Surplus -/

theorem planClaim_ok {owner : Address} {plan : Plan Amount} (h : l.planClaim owner = .ok plan) :
    ∃ surplus, l.state.pools.surplus.paidOut owner = .ok (plan.answer, surplus) ∧
      plan.draft.state = { l.state with pools := { l.state.pools with surplus := surplus } } ∧
      plan.draft.moves = [] ∧ plan.draft.changes = [] := by
  simp only [planClaim, bind_eq_ok_iff, pure_eq_ok_iff, Prod.exists] at h
  obtain ⟨amount, surplus, hs, rfl⟩ := h
  exact ⟨surplus, hs, rfl, rfl, rfl⟩

end Stablecoin.Ledger
