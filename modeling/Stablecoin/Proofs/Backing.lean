/-
  Stablecoin theory — every token is backed by recorded debt.

  The debt is kept in the pools and the tokens in their book, and each operation
  changes both, by code of its own.  A draft *matches* if it moves tokens as it
  moves debt (`Draft.Matches`); every plan does (`Ledger.planOf_matches`), so that
  supply, debt and the sum of balances stay equal (`Ledger.Backed`).  This needs
  that a commit never stops halfway: what was rehearsed can be made.
-/
import Stablecoin.Proofs.Requests
import Stablecoin.Proofs.Rehearsals

namespace Stablecoin

/-- A draft moves tokens as it moves debt, with room for what it mints. -/
structure Draft.Matches (s : State) (d : Draft) : Prop where
  debt_eq : d.state.pools.debt + TokenMove.burnedBy d.moves =
    s.pools.debt + TokenMove.mintedBy d.moves
  room : s.pools.debt + TokenMove.mintedBy d.moves < Amount.limit
  proper : TokenMove.Proper d.moves

/-- A draft that mints nothing has room enough. -/
theorem Draft.Matches.of_unminted {s : State} {d : Draft} (hlt : s.pools.debt < Amount.limit)
    (hminted : TokenMove.mintedBy d.moves = 0)
    (hburned : d.state.pools.debt + TokenMove.burnedBy d.moves = s.pools.debt)
    (hproper : TokenMove.Proper d.moves) : d.Matches s :=
  ⟨by omega, by omega, hproper⟩

/-- The supply is the debt of the pools, and the sum of the balances. -/
structure Ledger.Backed (l : Ledger) : Prop where
  supply_eq : l.token.supply.val = l.state.pools.debt
  balanced : l.token.Balanced

namespace Ledger

variable {l next : Ledger}

/-! ## Plans -/

theorem Liquidation.proper {liquidator : Address} {targets : Targets} {plan : Plan Liquidated}
    (q : Liquidation l liquidator targets plan) : TokenMove.Proper plan.draft.moves := by
  obtain ⟨-, -, -, hswept, -⟩ := sweep_books q.swept_eq
  have hoffset : TokenMove.Proper q.offset.moves := by
    obtain ⟨-, hd⟩ | ⟨-, _, _, -, -, -, hm, -⟩ := settleOffset_cases q.offset_eq
    · rw [hd, hswept]
      simp
    · rw [hm, hswept]
      simp
  obtain ⟨-, -, -, hspread⟩ := settleSpread_books q.spread_eq
  obtain ⟨_, _, _, -, -, -, -, hm, -⟩ := settleRest_ok q.draft_eq
  rw [hm, hspread]
  simpa using hoffset

theorem redeemFrom_proper {r : RedeemRequest} {d d' : Draft} {owner : Address} {most price : Amount}
    {lot : Lot} (hd : TokenMove.Proper d.moves)
    (h : l.redeemFrom d r owner most price = .ok (some (lot, d'))) : TokenMove.Proper d'.moves := by
  obtain ⟨_, _, _, _, -, -, -, -, -, -, ⟨-, h⟩ | ⟨-, h⟩⟩ := redeemFrom_ok h
  · obtain ⟨_, _, _, _, -, -, -, -, -, hm, -⟩ := closeRedeemed_ok h
    rw [hm]
    simpa using hd
  · obtain ⟨_, _, _, -, -, hm, -⟩ := redeemPart_ok h
    rw [hm]
    exact hd

theorem Redemption.proper {r : RedeemRequest} {plan : Plan Redeemed} (q : Redemption l r plan) :
    TokenMove.Proper plan.draft.moves := by
  have hwalked : TokenMove.Proper q.walked.draft.moves := by
    refine draw_keeps q.walked_eq ?_ (fun _ _ _ _ _ hu => hu) TokenMove.proper_nil
    intro u v step hu
    refine redeemFrom_proper ?_ step.drawn_eq
    exact hu
  rw [q.moves_eq]
  simpa using hwalked

/-- No plan moves nothing. -/
theorem planOf_proper {r : Request} {plan : Plan Answer} (h : l.planOf r = .ok plan) :
    TokenMove.Proper plan.draft.moves := by
  cases planned_of_planOf h with
  | opened steps =>
    obtain ⟨-, hmoves, -⟩ := chargeFeeIf_ok steps.charged_eq
    simp [steps.draft_eq, hmoves]
  | adjusted steps =>
    obtain ⟨-, hmoves, -⟩ := chargeFeeIf_ok steps.charged_eq
    simp [steps.draft_eq, hmoves]
  | closed steps => simp [steps.draft_eq]
  | realized _ moves_eq => simp [moves_eq]
  | liquidated _ steps => exact steps.proper
  | redeemed steps => exact steps.proper
  | claimed _ _ moves_eq => simp [moves_eq]
  | deposited _ _ moves_eq => simp [moves_eq]
  | withdrawn _ _ _ moves_eq => simp [moves_eq]

/-- **Every plan matches:** it mints the debt that it adds, and burns the debt that it takes off. -/
theorem planOf_matches (hlt : l.state.pools.debt < Amount.limit) {r : Request} {plan : Plan Answer}
    (h : l.planOf r = .ok plan) : plan.draft.Matches l.state := by
  have hproper := planOf_proper h
  cases planned_of_planOf h with
  | opened steps =>
    obtain ⟨-, hdebt, hroom, hburned, -⟩ := steps.books
    rw [Plan.draft_seen]
    exact ⟨by omega, hroom, hproper⟩
  | adjusted steps =>
    obtain ⟨-, hdebt, hroom, -⟩ := steps.books
    exact ⟨hdebt, hroom, hproper⟩
  | closed steps =>
    obtain ⟨-, hdebt, hminted, -⟩ := steps.books
    exact .of_unminted hlt hminted hdebt hproper
  | realized state_eq moves_eq =>
    obtain ⟨-, hdebt, -⟩ := State.realize_books state_eq
    exact .of_unminted hlt (by simp [moves_eq]) (by simp [moves_eq, hdebt]) hproper
  | liquidated _ steps =>
    obtain ⟨-, hdebt, hminted⟩ := steps.books
    exact .of_unminted hlt hminted hdebt hproper
  | redeemed steps =>
    obtain ⟨-, hdebt, hminted, -⟩ := steps.books
    exact .of_unminted hlt hminted hdebt hproper
  | claimed _ state_eq moves_eq =>
    exact .of_unminted hlt (by simp [moves_eq]) (by simp [moves_eq, state_eq, Pools.debt]) hproper
  | deposited _ state_eq moves_eq =>
    exact .of_unminted hlt (by simp [moves_eq, TokenMove.minted])
      (by simp [moves_eq, state_eq, TokenMove.burned]) hproper
  | withdrawn _ _ state_eq moves_eq =>
    exact .of_unminted hlt (by simp [moves_eq, TokenMove.minted])
      (by simp [moves_eq, state_eq, TokenMove.burned]) hproper

/-! ## Commands -/

/-- The movements of a draft that matches can all be made, once they are rehearsed. -/
theorem exists_tokens {d : Draft} (hb : l.Backed) (hd : d.Matches l.state)
    (hc : l.check d = .ok ()) :
    ∃ token, applyInTurn TokenMove.apply l.token d.moves = (.ok (), token) ∧ token.Balanced ∧
      token.supply.val = d.state.pools.debt := by
  simp only [check, bind_eq_ok_iff] at hc
  obtain ⟨_, hrehearsed, -⟩ := hc
  have hsupply := hb.supply_eq
  have hroom := hd.room
  have hdebt := hd.debt_eq
  obtain ⟨token, happly, hbalanced, hbooks⟩ :=
    Draft.exists_applyInTurn hd.proper hb.balanced (by omega) (fun _ => rfl) hrehearsed
  exact ⟨token, happly, hbalanced, by omega⟩

/-- A commit that stops has touched neither state nor tokens. -/
theorem commit_error_token {d : Draft} {stop : Stop} (hb : l.Backed) (hd : d.Matches l.state)
    (h : l.commit d = (.error stop, next)) : next = { l with ranking := next.ranking } := by
  obtain hn | ⟨hc, happly, -⟩ := commit_error h
  · exact hn
  · obtain ⟨token, htoken, -⟩ := exists_tokens hb hd hc
    rw [htoken] at happly
    cases happly

theorem Backed.debt_lt_limit (hb : l.Backed) : l.state.pools.debt < Amount.limit :=
  hb.supply_eq ▸ l.token.supply.val_lt

/-- A request is carried out with all its movements, or it reaches at most the ranking. -/
theorem obey_request_backed (hb : l.Backed) (r : Request) :
    (∃ plan, l.planOf r = .ok plan ∧ l.check plan.draft = .ok () ∧
      applyInTurn TokenMove.apply l.token plan.draft.moves =
        (.ok (), (l.obey (.request r)).2.token) ∧
      (l.obey (.request r)).2.state = plan.draft.state) ∨
    (l.obey (.request r)).2 = { l with ranking := (l.obey (.request r)).2.ranking } := by
  obtain ⟨plan, hplan, -, hcommit⟩ | ⟨stop, -, hperform⟩ := obey_request_cases (l := l) r
  · obtain ⟨hcheck, -, happly, hn⟩ := commit_ok hcommit
    exact Or.inl ⟨plan, hplan, hcheck, happly, by rw [hn]⟩
  · obtain hn | ⟨plan, hplan, hcommit⟩ := perform_error hperform
    · exact Or.inr (by rw [hn])
    · exact Or.inr (commit_error_token hb (planOf_matches hb.debt_lt_limit hplan) hcommit)

theorem obey_backed {c : Command} (hc : ∀ m, c ≠ .move m) (hb : l.Backed) :
    (l.obey c).2.Backed := by
  by_cases hr : ∃ r, c = .request r
  · obtain ⟨r, rfl⟩ := hr
    obtain ⟨plan, hplan, hcheck, happly, hstate⟩ | hn := obey_request_backed hb r
    · obtain ⟨token, htoken, hbalanced, hsupply⟩ :=
        exists_tokens hb (planOf_matches hb.debt_lt_limit hplan) hcheck
      rw [htoken] at happly
      have hsame : (l.obey (.request r)).2.token = token := by
        rw [Prod.mk.injEq] at happly
        exact happly.2.symm
      exact ⟨by rw [hsame, hstate]; exact hsupply, by rw [hsame]; exact hbalanced⟩
    · rw [hn]
      exact ⟨hb.supply_eq, hb.balanced⟩
  obtain ⟨-, _, _, _, token, hn, -, ht⟩ := obey_control (l := l) fun r he => hr ⟨r, he⟩
  rw [hn]
  obtain rfl | ⟨source, target, amount, -, ht⟩ | ⟨m, hm⟩ := ht
  · exact ⟨hb.supply_eq, hb.balanced⟩
  · obtain ⟨hs, htotal, -⟩ := TokenBook.transfer_ok ht
    exact ⟨hs ▸ hb.supply_eq, show token.supply.val = token.total from hs ▸ htotal ▸ hb.balanced⟩
  · exact absurd hm (hc m)

/-- **Every token is backed by recorded debt:** in every run of a ledger from its start in which no
tokens are moved but by requests and transfers, the supply is the debt of the active and the
default pool, and the sum of all balances. -/
theorem supply_backed {params : Parameters} {price : Amount} (h : starting params price = .ok l)
    {commands : List Command} (hc : ∀ c ∈ commands, ∀ m, c ≠ .move m) :
    (l.after commands).token.supply.val =
        (l.after commands).state.pools.active.debt.val +
          (l.after commands).state.pools.default.debt.val ∧
      (l.after commands).token.supply.val =
        (l.after commands).token.balances.sum Amount.val := by
  have hstart : l.Backed := by
    simp only [starting, new, bind_eq_ok_iff, pure_eq_ok_iff] at h
    obtain ⟨_, -, _, -, rfl⟩ := h
    exact ⟨rfl, rfl⟩
  have hafter := after_of_step (fun _ _ hm hb => obey_backed hm hb) hc hstart
  exact ⟨hafter.supply_eq, hafter.balanced⟩

/-- The tokens of a first trove, fee and reserve included. -/
theorem supply_backed_firstOpening : ∃ l, starting .standard twoThousand = .ok l ∧
    (∀ c ∈ [firstOpening], ∀ m, c ≠ .move m) ∧
    (l.after [firstOpening]).token.supply.val = 2_210_000_000_000_000_000_000 ∧
    (l.after [firstOpening]).token.supply.val =
        (l.after [firstOpening]).state.pools.active.debt.val +
          (l.after [firstOpening]).state.pools.default.debt.val ∧
      (l.after [firstOpening]).token.supply.val =
        (l.after [firstOpening]).token.balances.sum Amount.val := by
  have hc : ∀ c ∈ [firstOpening], ∀ m, c ≠ .move m := by
    intro c hm m
    rw [List.mem_singleton.1 hm]
    nofun
  exact ⟨_, starting_standard _, hc, by decide +kernel, supply_backed (starting_standard _) hc⟩

end Ledger

end Stablecoin
