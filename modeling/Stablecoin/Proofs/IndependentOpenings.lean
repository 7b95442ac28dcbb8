/-
  Stablecoin theory — openings in either order.

  Two users open their troves one after the other, in Normal Mode and at the same time.
  The first of them lets the base rate decay, and then no minute is left to decay for
  the second.  All else that they share is a sum, or a table in which each of them has
  a place of their own.

  * `BaseRate.quoteBorrowing_advanced`: a rate that has just decayed is charged again,
    not decayed again;
  * `TokenMove.mints_perm`: creating tokens leaves the same balances in any order;
  * `Ranking.Sound.ratios_eq`: two rankings that agree on every owner list the same
    ratios, though owners of equal ratios may have changed places;
  * `Ledger.terms` is what an opening is charged and entered with, `Ledger.Entered` what
    it leaves of the ledger, and by `Ledger.Entered.terms_same` it leaves the terms of
    others alone;
  * `Ledger.openings_commute` puts these together.
-/
import Stablecoin.Proofs.DecayClock
import Stablecoin.Proofs.ModeGates
import Stablecoin.Proofs.RankAgreement
import Stablecoin.Proofs.Verification

namespace Stablecoin

/-! ## Entering a trove -/

/-- What an opening is charged and entered with. -/
structure OpeningTerms where
  fee : Amount
  debt : Amount
  stake : Amount
  nominal : Amount
  /-- The base rate that the fee leaves. -/
  rate : BaseRate

namespace State

variable {s sa sb sab sba s₁ s₂ : State} {a b r : OpenRequest} {t ta tb : OpeningTerms}
  {active : Balance}

/-- A trove is entered on its terms, and the base rate with it. -/
structure Entered (s : State) (r : OpenRequest) (t : OpeningTerms) (s' : State) : Prop where
  state_eq : ∃ count total active,
    s' = { s with
      troves := s.troves.insert r.owner
        ⟨r.owner, r.deposit, t.debt, t.stake, .active, s.spread.snapshot⟩
      activeCount := count
      spread := { s.spread with totalStakes := total }
      baseRate := t.rate
      pools := { s.pools with active := active } } ∧
    nextCount s.activeCount = .ok count ∧ total.val = s.spread.totalStakes.val + t.stake.val ∧
    s.pools.active.increased r.deposit t.debt = .ok active

/-- The steps of an opening enter the trove, with the stake for its collateral. -/
theorem entered_of_steps
    (ho : openTrove { s with baseRate := t.rate } r.owner r.deposit t.debt = .ok s₁)
    (hs : s₁.restake r.owner = .ok (t.stake, s₂))
    (ha : s₂.pools.active.increased r.deposit t.debt = .ok active) :
    s.spread.stakeFor r.deposit = .ok t.stake ∧
      s.Entered r t { s₂ with pools := { s₂.pools with active := active } } := by
  obtain ⟨-, count, hcount, rfl⟩ := openTrove_eq_ok_iff.1 ho
  obtain ⟨trove, total, htrove, hstake, htotal, rfl⟩ := restake_eq_ok_iff.1 hs
  obtain rfl : trove = ⟨r.owner, r.deposit, t.debt, 0, .active, s.spread.snapshot⟩ := by
    rw [activeTrove_eq_ok, (openTrove_replaced ho).new_eq] at htrove
    exact (Option.some.inj htrove).symm
  simp only [Redistribution.stakesAfter, bind_eq_ok_iff, Amount.sub_eq_ok_iff,
    Amount.add_eq_ok_iff, Amount.val_zero, Nat.add_zero] at htotal
  obtain ⟨rest, hrest, htotal⟩ := htotal
  refine ⟨hstake, ⟨count, total, active, ?_, hcount, hrest ▸ htotal, ha⟩⟩
  simp only [withTrove, Table.insert_insert]

/-- **Two troves can be entered in either order,** if both leave the same base rate. -/
theorem Entered.comm (ha : s.Entered a ta sa) (hab : sa.Entered b tb sab) (hb : s.Entered b tb sb)
    (hba : sb.Entered a ta sba) (hrate : ta.rate = tb.rate) (hne : a.owner ≠ b.owner) :
    sab = sba := by
  obtain ⟨_, _, _, rfl, hcountA, htotalA, hactiveA⟩ := ha.state_eq
  obtain ⟨_, _, _, rfl, hcountB, htotalB, hactiveB⟩ := hb.state_eq
  obtain ⟨_, totalAB, _, rfl, hcountAB, htotalAB, hactiveAB⟩ := hab.state_eq
  obtain ⟨_, totalBA, _, rfl, hcountBA, htotalBA, hactiveBA⟩ := hba.state_eq
  obtain rfl := Except.ok.inj (hcountA.symm.trans hcountB)
  obtain rfl := Except.ok.inj (hcountAB.symm.trans hcountBA)
  obtain rfl := Balance.increased_comm hactiveA hactiveAB hactiveB hactiveBA
  obtain rfl : totalAB = totalBA := Amount.ext (by dsimp only at htotalAB htotalBA; omega)
  rw [State.mk.injEq]
  exact ⟨Table.insert_comm _ hne _ _, rfl, rfl, hrate.symm, rfl, rfl, rfl⟩

end State

/-! ## Openings -/

namespace Ledger

variable {start l la lb lab lba next : Ledger} {a b r : OpenRequest} {t ta tb : OpeningTerms}

/-- What a request is charged and entered with in Normal Mode. -/
def terms (l : Ledger) (r : OpenRequest) : Attempt OpeningTerms := do
  let quote ← l.state.baseRate.quoteBorrowing l.params l.state.now r.debt r.limit
  let netDebt ← r.debt.add quote.fee
  let debt ← netDebt.add l.params.gasCompensation
  let nominal ← Amount.nominalRatio r.deposit debt
  let stake ← l.state.spread.stakeFor r.deposit
  return ⟨quote.fee, debt, stake, nominal, quote.next⟩

/-- The tokens that are created for an opening. -/
def mintsFor (l : Ledger) (r : OpenRequest) (t : OpeningTerms) : List TokenMove :=
  (TokenMove.mint l.accounts.staking t.fee).orNone ++ (TokenMove.mint r.owner r.debt).orNone ++
    (TokenMove.mint l.accounts.gasPool l.params.gasCompensation).orNone

theorem onlyMints_mintsFor (l : Ledger) (r : OpenRequest) (t : OpeningTerms) :
    TokenMove.OnlyMints (l.mintsFor r t) :=
  ((TokenMove.onlyMints_orNone _ _).append (TokenMove.onlyMints_orNone _ _)).append
    (TokenMove.onlyMints_orNone _ _)

/-- A trove is opened on its terms: it is entered, its tokens are created, and it is ranked. -/
structure Entered (l : Ledger) (r : OpenRequest) (t : OpeningTerms) (next : Ledger) : Prop where
  terms_eq : l.terms r = .ok t
  params_eq : next.params = l.params
  accounts_eq : next.accounts = l.accounts
  state_entered : l.state.Entered r t next.state
  mints_eq : applyInTurn TokenMove.apply l.token (l.mintsFor r t) = (.ok (), next.token)
  insert_eq : (RankChange.insert r.owner t.nominal r.hints).apply l.ranking = (.ok (), next.ranking)

/-- In Normal Mode an opening that is committed is one on its terms. -/
theorem Opening.entered {plan : Plan Opened} (o : Opening l r plan)
    (hnormal : o.system.recovery = false) (hc : l.commit plan.draft = (.ok (), next)) :
    ∃ t, l.Entered r t next := by
  have hcharged := o.charged_eq
  rw [hnormal] at hcharged
  obtain ⟨quote, hquote, hfee, hstate, hmoves, -⟩ := chargeFee_ok hcharged
  obtain ⟨-, hranking, htoken, hn⟩ := commit_ok hc
  have hopened := o.opened_eq
  rw [hstate] at hopened
  obtain ⟨hstake, hentered⟩ :=
    State.entered_of_steps (t := ⟨o.fee, o.debt, o.stake, o.nominal, quote.next⟩) hopened
      o.staked_eq o.active_eq
  refine ⟨⟨o.fee, o.debt, o.stake, o.nominal, quote.next⟩, ?_, ?_, ?_, ?_, ?_, ?_⟩
  · simp only [terms, bind_eq_ok_iff, pure_eq_ok_iff, Amount.add_eq_ok_iff]
    exact ⟨quote, hquote, o.netDebt, hfee ▸ o.netDebt_eq, o.debt, o.debt_eq, o.nominal,
      o.nominal_eq, o.stake, hstake, by rw [hfee]⟩
  · rw [hn]
  · rw [hn]
  · rw [hn, o.draft_eq]
    simpa using hentered
  · rw [o.draft_eq] at htoken
    simpa [hmoves, mintsFor] using htoken
  · rw [o.changes_eq] at hranking
    exact applyInTurn_singleton.1 hranking

/-! ## One opening after another -/

section

variable (hp : l.params.validate = .ok ()) (hrate : l.state.baseRate.rate ≤ Amount.unit)
include hp hrate

/-- **An opening leaves the terms of others alone.** -/
theorem Entered.terms_same (h : l.Entered a ta la) (b : OpenRequest) : la.terms b = l.terms b := by
  have hterms := h.terms_eq
  simp only [terms, bind_eq_ok_iff, pure_eq_ok_iff] at hterms
  obtain ⟨quote, hquote, _, -, _, -, _, -, _, -, rfl⟩ := hterms
  obtain ⟨decayed, hdecayed, -, -, -, hnext⟩ := BaseRate.quoteBorrowing_eq_ok_iff.1 hquote
  obtain ⟨_, _, _, hstate, -⟩ := h.state_entered.state_eq
  rw [terms, hstate, h.params_eq]
  dsimp only
  rw [hnext, BaseRate.quoteBorrowing_advanced hp hrate hdecayed]
  rfl

/-- The second of two openings has the terms that it would have had as the first. -/
theorem Entered.terms_second (ha : l.Entered a ta la) (hab : la.Entered b t lab)
    (hb : l.Entered b tb lb) : t = tb := by
  have hterms := hab.terms_eq
  rw [ha.terms_same hp hrate, hb.terms_eq] at hterms
  exact (Except.ok.inj hterms).symm

end

/-- The fee for any amount leaves the same base rate. -/
theorem Entered.rate_eq (ha : l.Entered a ta la) (hb : l.Entered b tb lb) : ta.rate = tb.rate := by
  have hterms := ha.terms_eq
  have hterms' := hb.terms_eq
  simp only [terms, bind_eq_ok_iff, pure_eq_ok_iff, BaseRate.quoteBorrowing_eq_ok_iff]
    at hterms hterms'
  obtain ⟨_, ⟨decayed, hdecayed, -, -, -, hnext⟩, _, -, _, -, _, -, _, -, rfl⟩ := hterms
  obtain ⟨_, ⟨decayed', hdecayed', -, -, -, hnext'⟩, _, -, _, -, _, -, _, -, rfl⟩ := hterms'
  obtain rfl := Except.ok.inj (hdecayed.symm.trans hdecayed')
  exact hnext.trans hnext'.symm

theorem Entered.mints_after (ha : l.Entered a ta la) (hab : la.Entered b tb lab) :
    applyInTurn TokenMove.apply l.token (l.mintsFor a ta ++ l.mintsFor b tb) =
      (.ok (), lab.token) := by
  have hmints := hab.mints_eq
  rw [mintsFor, ha.params_eq, ha.accounts_eq] at hmints
  rw [applyInTurn_append ha.mints_eq]
  exact hmints

theorem Entered.ranking_after (hs : l.ranking.Sound) (ha : l.Entered a ta la)
    (hab : la.Entered b tb lab) : lab.ranking.Sound ∧ ∀ owner, lab.ranking.ratioOf owner =
      if owner = b.owner then some tb.nominal else
        if owner = a.owner then some ta.nominal else l.ranking.ratioOf owner := by
  obtain ⟨hsound, hratios⟩ := RankChange.apply_ok hs ha.insert_eq
  obtain ⟨hsound', hratios'⟩ := RankChange.apply_ok hsound hab.insert_eq
  refine ⟨hsound', ?_⟩
  intro owner
  rw [hratios', hratios]
  rfl

/-- Two ledgers agree on the state, on balances and supply, on the sequence of the ratios in the
ranking and on the ratio of each owner.  Who of two owners with equal ratios stands first is left
open, and so is the order of what was noted and reported. -/
structure SameOutcome (l l' : Ledger) : Prop where
  state_eq : l.state = l'.state
  balances_eq : l.token.balances = l'.token.balances
  supply_eq : l.token.supply = l'.token.supply
  ranked_eq : l.ranking.ranked = l'.ranking.ranked
  ratios_eq : l.ranking.ratios = l'.ranking.ratios

/-- **Troves of different owners are opened in either order.** -/
theorem Entered.comm (hs : l.ranking.Sound) (hp : l.params.validate = .ok ())
    (hrate : l.state.baseRate.rate ≤ Amount.unit) (hne : a.owner ≠ b.owner) {ta' tb'}
    (ha : l.Entered a ta la) (hab : la.Entered b tb' lab) (hb : l.Entered b tb lb)
    (hba : lb.Entered a ta' lba) : lab.SameOutcome lba := by
  obtain rfl := ha.terms_second hp hrate hab hb
  obtain rfl := hb.terms_second hp hrate hba ha
  obtain ⟨hbalances, hsupply⟩ := TokenMove.mints_perm List.perm_append_comm
    ((l.onlyMints_mintsFor _ _).append (l.onlyMints_mintsFor _ _))
    (ha.mints_after hab) (hb.mints_after hba)
  obtain ⟨hsound, hratios⟩ := ha.ranking_after hs hab
  obtain ⟨hsound', hratios'⟩ := hb.ranking_after hs hba
  obtain ⟨hranked, htable⟩ := hsound.ratios_eq hsound' (by
    intro owner
    rw [hratios, hratios']
    by_cases ho : owner = a.owner
    · rw [ho, if_neg hne, if_pos rfl, if_pos rfl]
    · simp only [if_neg ho])
  exact ⟨ha.state_entered.comm hab.state_entered hb.state_entered hba.state_entered
    (ha.rate_eq hb) hne, hbalances, hsupply, hranked, htable⟩

/-! ## Accepted openings -/

/-- **An opening that is accepted in Normal Mode is one on its terms, and leaves the system in
Normal Mode.** -/
theorem exists_entered (hnormal : l.isInRecovery = .ok false) {answer : Option Answer}
    (h : (l.obey (.request (.openTrove r))).1 = .ok answer) :
    (∃ t, l.Entered r t (l.obey (.request (.openTrove r))).2) ∧
      (l.obey (.request (.openTrove r))).2.isInRecovery = .ok false := by
  obtain ⟨plan, hplan, -, hcommit⟩ | ⟨_, hstop, -⟩ := obey_request_cases (l := l) (.openTrove r)
  · generalize (l.obey (.request (.openTrove r))).2 = next at hcommit ⊢
    obtain ⟨opened, hopened, rfl⟩ := map_eq_ok_iff.1 hplan
    obtain ⟨o⟩ := exists_opening hopened
    have hmode := recovery_eq hnormal o.price_eq o.system_eq
    obtain ⟨-, hcritical⟩ := (demandOpening_ok o.rules_eq).2 hmode
    obtain ⟨t, hentered⟩ := o.entered hmode hcommit
    obtain ⟨-, -, -, hn⟩ := commit_ok hcommit
    have hprice : next.price = .ok o.price := by
      rw [hn]
      exact o.price_eq
    have hratio : next.systemRatio = .ok o.newSystem := by
      rw [systemRatio_eq hprice, hn]
      exact o.systemRatio_committed
    have hnot : ¬ o.newSystem < l.params.criticalRatio := Nat.not_lt.2 hcritical
    refine ⟨⟨t, hentered⟩, ?_⟩
    rw [isInRecovery_of_systemRatio hratio, hentered.params_eq, decide_eq_false hnot]
  · rw [hstop] at h
    cases h

/-- One trove is opened, and then another. -/
def openBoth (a b : OpenRequest) : List Command :=
  [.request (.openTrove a), .request (.openTrove b)]

theorem exists_entered_twice (hnormal : l.isInRecovery = .ok false)
    (hok : l.Accepted (openBoth a b)) :
    ∃ ta tb middle, l.Entered a ta middle ∧ middle.Entered b tb (l.after (openBoth a b)) := by
  obtain ⟨⟨_, hfirst⟩, hrest⟩ := accepted_cons.1 hok
  obtain ⟨⟨_, hsecond⟩, -⟩ := accepted_cons.1 hrest
  obtain ⟨⟨ta, ha⟩, hstill⟩ := exists_entered hnormal hfirst
  obtain ⟨⟨tb, hb⟩, -⟩ := exists_entered hstill hsecond
  rw [openBoth, after_cons hfirst, after_cons hsecond]
  exact ⟨ta, tb, _, ha, hb⟩

/-- **Independent openings commute.**  After any commands, in Normal Mode, let two requests to open
a trove for different owners be accepted one after the other, and likewise in the other order.  Both
orders end with the same state, the same balances and supply, and the same ratios in the ranking,
listed in the same sequence. -/
theorem openings_commute {params : Parameters} {accounts : ProtocolAccounts} {feed : PriceFeed}
    {token : TokenBook} (h : new params accounts feed token .empty = .ok start)
    (commands : List Command) (hl : start.after commands = l)
    (hnormal : l.isInRecovery = .ok false) (hne : a.owner ≠ b.owner)
    (hab : l.Accepted (openBoth a b)) (hba : l.Accepted (openBoth b a)) :
    SameOutcome (l.after (openBoth a b)) (l.after (openBoth b a)) := by
  subst hl
  obtain ⟨_, _, _, ha, hab⟩ := exists_entered_twice hnormal hab
  obtain ⟨_, _, _, hb, hba⟩ := exists_entered_twice hnormal hba
  exact ha.comm (after_sound h commands) (after_validate h commands)
    (after_tallied h commands).rate_le hne hab hb hba

/-- Two thousand tokens are borrowed against three units of collateral. -/
def threeUnits (owner : Address) : OpenRequest :=
  ⟨owner, .whole 3, .whole 2000, Amount.unit, .none⟩

/-- Two hours after a redemption, the same is borrowed against the same collateral by two owners.
Whoever comes first stands first, and nothing else tells the orders apart. -/
theorem openings_commute_threeUnits : ∃ start l, starting .standard twoThousand = .ok start ∧
    start.after (firstRedemption ++ [.advance 7_200]) = l ∧ 0 < l.state.baseRate.rate ∧
    (l.after (openBoth (threeUnits ⟨5, by decide⟩) (threeUnits ⟨6, by decide⟩))).ranking.owners =
      [⟨2, by decide⟩, ⟨5, by decide⟩, ⟨6, by decide⟩] ∧
    (l.after (openBoth (threeUnits ⟨6, by decide⟩) (threeUnits ⟨5, by decide⟩))).ranking.owners =
      [⟨2, by decide⟩, ⟨6, by decide⟩, ⟨5, by decide⟩] ∧
    SameOutcome (l.after (openBoth (threeUnits ⟨5, by decide⟩) (threeUnits ⟨6, by decide⟩)))
      (l.after (openBoth (threeUnits ⟨6, by decide⟩) (threeUnits ⟨5, by decide⟩))) := by
  obtain ⟨start, h⟩ : ∃ start, starting .standard twoThousand = .ok start :=
    ⟨_, starting_standard _⟩
  obtain ⟨l, hl⟩ : ∃ l, start.after (firstRedemption ++ [.advance 7_200]) = l := ⟨_, rfl⟩
  have hrun : l.isInRecovery = .ok false ∧ 0 < l.state.baseRate.rate ∧
      l.Accepted (openBoth (threeUnits ⟨5, by decide⟩) (threeUnits ⟨6, by decide⟩)) ∧
      l.Accepted (openBoth (threeUnits ⟨6, by decide⟩) (threeUnits ⟨5, by decide⟩)) ∧
      (l.after (openBoth (threeUnits ⟨5, by decide⟩) (threeUnits ⟨6, by decide⟩))).ranking.owners =
        [⟨2, by decide⟩, ⟨5, by decide⟩, ⟨6, by decide⟩] ∧
      (l.after (openBoth (threeUnits ⟨6, by decide⟩) (threeUnits ⟨5, by decide⟩))).ranking.owners =
        [⟨2, by decide⟩, ⟨6, by decide⟩, ⟨5, by decide⟩] := by
    rw [← hl, starting_eq h]
    decide +kernel
  obtain ⟨hnormal, hrate, hab, hba, howners, howners'⟩ := hrun
  have hne : (threeUnits ⟨5, by decide⟩).owner ≠ (threeUnits ⟨6, by decide⟩).owner := by decide
  exact ⟨start, l, h, hl, hrate, howners, howners',
    openings_commute h _ hl hnormal hne hab hba⟩

end Ledger

end Stablecoin
