/-
  Stablecoin theory — the terms of a liquidation.

  The mode can change within a call, and deposits run out.  The terms of the call
  hold all the same: a trove is taken below the minimum ratio, or, in a call that
  began in Recovery Mode, below the critical one (`judge_below`); and one that is at
  the minimum ratio or above it is paid for by the depositors alone, who take
  collateral for no more than the minimum ratio (`judge_capped`).

  * `Seizure.OnTerms` are the terms for one trove;
  * `Ledger.liquidated_on_terms`: every liquidation that is carried out keeps them.
-/
import Stablecoin.Proofs.ActivePool
import Stablecoin.Proofs.Collateralization
import Stablecoin.Proofs.Seizures

namespace Stablecoin

/-- The ratio below which a call can take troves, by the mode that it began in. -/
def Parameters.liquidationRatio (p : Parameters) (recovery : Bool) : Amount :=
  if recovery then p.criticalRatio else p.minimumRatio

/-- Where collateral is capped, depositors cancel the whole debt, and what is above the cap goes
back. -/
theorem Split.capped_parts {debt coll price : Amount} {p : Parameters} {s : Split}
    (h : capped debt coll price p = .ok s) : s.debtOffset = debt ∧
      s.surplus.val + debt.val * p.minimumRatio.val / price.val = coll.val := by
  simp only [capped, bind_eq_ok_iff, pure_eq_ok_iff, Amount.mulDiv_eq_ok_iff,
    Amount.sub_eq_ok_iff] at h
  obtain ⟨cap, ⟨-, hcap⟩, reward, -, offset, -, surplus, hsurplus, rfl⟩ := h
  exact ⟨rfl, by rw [← hcap, hsurplus]⟩

/-- The terms on which a trove is taken: it was active, and below the bound; its debt and collateral
were split completely; and if it was at the minimum ratio, depositors cancelled all its debt, and
its owner can claim what it held above that ratio. -/
structure Seizure.OnTerms (z : Seizure) (l next : Ledger) (price bound : Amount) : Prop where
  active : l.state.isActive z.owner = true
  entire_eq : l.state.entire z.owner = .ok z.whole
  below : ∃ ratio, l.ratio z.owner = .ok ratio ∧ ratio < bound
  complete : z.split.Complete z.whole.debt z.whole.coll
  claim_eq : (next.claimable z.owner).val = (l.claimable z.owner).val + z.split.surplus.val
  capped : ∀ ratio, l.ratio z.owner = .ok ratio → l.params.minimumRatio ≤ ratio →
    z.split.debtOffset = z.whole.debt ∧
      (next.claimable z.owner).val +
          z.whole.debt.val * l.params.minimumRatio.val / price.val =
        (l.claimable z.owner).val + z.whole.coll.val

/-- A liquidation on terms: the troves that it reports are those that it took, and the debt that
depositors cancelled of them is what the deposits have lost. -/
structure Liquidated.OnTerms (details : Liquidated) (l next : Ledger) (price : Amount)
    (seized : List Seizure) : Prop where
  price_eq : l.price = .ok price
  mode_eq : l.isInRecovery = .ok details.recovery
  owners_eq : details.owners = seized.map Seizure.owner
  owners_nodup : details.owners.Nodup
  offset_eq : details.totals.debtOffset.val = (seized.map fun z => z.split.debtOffset.val).sum
  deposits_eq : l.state.stability.deposits.val =
    next.state.stability.deposits.val + details.totals.debtOffset.val
  each : ∀ z ∈ seized, z.OnTerms l next price (l.params.liquidationRatio details.recovery)

namespace Ledger

variable {l : Ledger} {price : Amount} {recovery listed : Bool} {whole : EntireTrove}
  {split : Split} {u : Sweep}

/-! ## One trove -/

/-- **A trove is taken below the ratio of its call,** whatever the mode has become. -/
theorem judge_below (hp : l.params.validate = .ok ()) (hu : u.InMode l price recovery)
    (h : l.judge price listed u whole = .ok (.take split)) :
    ∃ ratio, Amount.ratio whole.coll whole.debt price = .ok ratio ∧
      ratio < l.params.liquidationRatio recovery := by
  have hunit := (Parameters.consistent hp).unit_lt_minimum
  have hcritical := (Parameters.consistent hp).minimum_lt_critical
  obtain ⟨ratio, hratio, ⟨-, hmin, -⟩ | ⟨hmode, systemRatio, hsystem, hchoice⟩⟩ := judge_terms h
  · -- the mode may have become Normal since, and then the lower bound holds
    refine ⟨ratio, hratio, ?_⟩
    cases recovery
    · exact hmin
    · exact Nat.lt_trans hmin hcritical
  · have hrecovery : recovery = true := by
      by_contra hno
      exact absurd (hmode.symm.trans (hu.normal_of (Bool.eq_false_iff.2 hno))) nofun
    subst hrecovery
    refine ⟨ratio, hratio, ?_⟩
    show ratio < l.params.criticalRatio
    rcases Split.inRecovery_cases hchoice with ⟨hle, -⟩ | ⟨hmin, -⟩ | ⟨hlt, -⟩
    · exact Nat.lt_of_le_of_lt hle (Nat.lt_trans hunit hcritical)
    · exact Nat.lt_trans hmin hcritical
    · -- still in Recovery Mode, the system itself is below the critical ratio
      have hbelow := hu.recovery_of hmode
      rw [isRecovery_eq hsystem, Except.ok.injEq, decide_eq_true_eq] at hbelow
      exact Nat.lt_trans hlt hbelow

/-- **At the minimum ratio or above it collateral is capped.** -/
theorem judge_capped (hp : l.params.validate = .ok ())
    (h : l.judge price listed u whole = .ok (.take split)) {ratio : Amount}
    (hratio : Amount.ratio whole.coll whole.debt price = .ok ratio)
    (hmin : l.params.minimumRatio ≤ ratio) :
    Split.capped whole.debt whole.coll price l.params = .ok split := by
  have hunit := (Parameters.consistent hp).unit_lt_minimum
  obtain ⟨same, hsame, hcases⟩ := judge_take h
  obtain rfl : same = ratio := Except.ok.inj (hsame.symm.trans hratio)
  rcases hcases with ⟨hle, -⟩ | ⟨hlt, -⟩ | ⟨-, hcapped⟩
  · exact absurd (Nat.lt_of_le_of_lt hle hunit) (Nat.not_lt.2 hmin)
  · exact absurd hlt (Nat.not_lt.2 hmin)
  · exact hcapped

/-- A trove that a visit took was taken on terms. -/
theorem onTerms_of_took {w : Sweep} {seized : List Seizure} {next : Ledger} {z : Seizure}
    (hp : l.params.validate = .ok ()) (hprice : l.price = .ok price)
    (hw : w.Took l price recovery listed seized) (hz : z ∈ seized)
    (hclaims : next.state.pools.surplus = w.draft.state.pools.surplus) :
    z.OnTerms l next price (l.params.liquidationRatio recovery) := by
  obtain ⟨u, hu, hjudge⟩ := hw.judged z hz
  have hentire := hw.entire_eq z hz
  have hratio : l.ratio z.owner = Amount.ratio z.whole.coll z.whole.debt price := by
    rw [ratio_eq hprice, State.ratio_of_entire hentire]
  have hclaim : (next.claimable z.owner).val =
      (l.claimable z.owner).val + z.split.surplus.val := by
    rw [claimable, hclaims]
    exact hw.claims_eq z hz
  constructor
  case active =>
    obtain ⟨t, ht, -⟩ := entire_ok hentire
    exact State.isActive_iff.2 ⟨t, ht⟩
  case entire_eq => exact hentire
  case below =>
    rw [hratio]
    exact judge_below hp hu hjudge
  case complete => exact judge_complete hjudge
  case claim_eq => exact hclaim
  case capped =>
    intro ratio hr hmin
    obtain ⟨hdebt, hsurplus⟩ := Split.capped_parts (judge_capped hp hjudge (hratio ▸ hr) hmin)
    exact ⟨hdebt, by omega⟩

/-! ## All troves -/

variable {params : Parameters} {accounts : ProtocolAccounts} {feed : PriceFeed} {token : TokenBook}
  {ranking : Ranking} {start next : Ledger} {details : Liquidated} {r : Request}

/-- **Troves are liquidated on terms only:** in every run of a ledger from its start, a liquidation
takes active troves, below the minimum ratio if it began in Normal Mode and below the critical one
if it began in Recovery Mode.  Of a trove that is not below the minimum ratio depositors cancel all
debt, and its owner can claim all that it held above that ratio. -/
theorem liquidated_on_terms (h : new params accounts feed token ranking = .ok start)
    (commands : List Command)
    (hr : (start.after commands).obey (.request r) = (.ok (some (.liquidated details)), next)) :
    ∃ price seized, details.OnTerms (start.after commands) next price seized := by
  have hvalid := after_validate h commands
  obtain ⟨liquidator, targets, plan, ⟨q⟩, rfl, hstate⟩ := exists_liquidation_of_obey hr
  obtain ⟨seized, hw⟩ := q.took
  have hsettled := q.settled
  rw [q.answer_eq]
  refine ⟨q.price, seized, ?_⟩
  constructor
  case price_eq => exact q.price_eq
  case mode_eq => exact isInRecovery_eq_ok_iff.2 ⟨_, q.price_eq, _, q.system_eq, rfl⟩
  case owners_eq => exact hw.owners_eq
  case owners_nodup => exact hw.owners_nodup
  case offset_eq =>
    have hsum := SplitTotals.sum_eq (fun h => (SplitTotals.including_ok h).2.2.1) hw.totals_eq
    rw [hsum]
    exact Nat.zero_add _
  case deposits_eq =>
    rw [hstate]
    exact hsettled.deposits_eq
  case each =>
    intro z hz
    refine onTerms_of_took hvalid q.price_eq hw hz ?_
    rw [hstate]
    exact hsettled.surplus_eq

/-- Two troves are taken in Recovery Mode.  One was above the minimum ratio: its debt is cancelled,
and its owner can claim the rest. -/
theorem liquidated_on_terms_twoFallen : ∃ start next details price seized,
    starting .standard twoThousand = .ok start ∧
    (start.after twoFallen).obey (.request takeFallen) = (.ok (some (.liquidated details)), next) ∧
    details.owners = [⟨4, by decide⟩, ⟨3, by decide⟩] ∧ details.recovery = true ∧
    (next.claimable ⟨3, by decide⟩).val = 35_365_853_658_536_586 ∧
    details.OnTerms (start.after twoFallen) next price seized := by
  obtain ⟨start, h⟩ : ∃ start, starting .standard twoThousand = .ok start :=
    ⟨_, starting_standard _⟩
  obtain ⟨⟨details, hdetails, howners, hrecovery⟩, hclaim⟩ :
      (∃ details, ((start.after twoFallen).obey (.request takeFallen)).1 =
          .ok (some (.liquidated details)) ∧
        details.owners = [⟨4, by decide⟩, ⟨3, by decide⟩] ∧ details.recovery = true) ∧
      (((start.after twoFallen).obey (.request takeFallen)).2.claimable ⟨3, by decide⟩).val =
        35_365_853_658_536_586 := by
    rw [starting_eq h]
    decide +kernel
  obtain ⟨price, seized, hterms⟩ := liquidated_on_terms h twoFallen (Prod.ext hdetails rfl)
  exact ⟨start, _, details, price, seized, h, Prod.ext hdetails rfl, howners, hrecovery, hclaim,
    hterms⟩

end Ledger

end Stablecoin
