/-
  Stablecoin theory — stops that do not blame the request.

  A computation should stop for a cause in the request only.  It *fails* with any
  other stop (`Fails`), and there are two kinds of these:
  * it *halts* the run (`Halts`), where a plain operator has no result or a counter is
    full;
  * it *breaks* (`Breaks`): an assertion about the books has failed, or a step was
    asked for that nothing should ask for.

  A chain fails where one of its links does (`fails_bind_iff`), so that the links are
  settled one by one, for both kinds at once.  Nearly all of them never fail: most plain
  operators stand behind a check that rules the fault out, or divide by a parameter that
  validation has found not to be zero.  These are the others, each with its one stop:
  * `Redistribution.fails_stakeFor_iff`: no stakes were noted, but collateral was;
  * `Redistribution.fails_spread_iff`: there is debt, but nobody has a stake;
  * `BaseRate.fails_quoteRedemption_iff`: the base rate has decayed to zero, and too
    little is redeemed to raise it;
  * `State.fails_openTrove_iff`, `PriceFeed.fails_priced_iff`: a count is full.
-/
import Stablecoin.Proofs.Consistency
import Stablecoin.Proofs.StateChanges
import Stablecoin.Ledger.Basic
import Stablecoin.Liquidation.Split

namespace Stablecoin

/-! ## Failures -/

/-- The cause is not in the request. -/
@[simp]
def Refusal.isBreakage : Refusal → Bool
  | invariantViolation _ | internal _ => true
  | _ => false

/-- Collateral was noted after a liquidation, but no stakes. -/
abbrev Refusal.noStakesNoted : Refusal :=
  .invariantViolation "stake snapshot is zero while collateral snapshot is not"

/-- There is debt to spread, but nobody has a stake. -/
abbrev Refusal.nobodyStaked : Refusal :=
  .invariantViolation "redistribution with no remaining stakes"

/-- A redemption does not raise the base rate. -/
abbrev Refusal.rateAtZero : Refusal :=
  .invariantViolation "redemption left the base rate at zero"

/-- A loss leaves no product. -/
abbrev Refusal.productAtZero : Refusal := .invariantViolation "product factor reached zero"

/-- The stop does not blame the request. -/
@[simp]
def Stop.isFailure : Stop → Bool
  | refused cause => cause.isBreakage
  | fault => true

/-- The attempt halts the run. -/
def Halts {α : Type} (x : Attempt α) : Prop := x = fault

/-- The attempt is refused for a cause that is not in the request. -/
def Breaks {α : Type} (x : Attempt α) (cause : Refusal) : Prop :=
  x = refuse cause ∧ cause.isBreakage = true

/-- The attempt ends in a stop that does not blame the request. -/
def Fails {α : Type} (x : Attempt α) (stop : Stop) : Prop :=
  x = .error stop ∧ stop.isFailure = true

/-- The attempt is refused; it does not halt the run either. -/
def Refused {α : Type} (x : Attempt α) : Prop := ∃ cause, x = refuse cause

/-- There is no count after this one. -/
def Filled (n : UInt64) : Prop := UInt64.size ≤ n.toNat + 1

/-! ## Attempts -/

section

variable {α β : Type} {x : Attempt α} {stop : Stop}

theorem halts_iff_fails : Halts x ↔ Fails x .fault := (and_iff_left rfl).symm

theorem breaks_iff_fails {cause : Refusal} : Breaks x cause ↔ Fails x (.refused cause) := Iff.rfl

/-- What neither succeeds nor halts is refused. -/
theorem refused_of_not_fails (hok : ∀ a, x ≠ .ok a) (h : ¬ Fails x .fault) : Refused x := by
  rcases x with (⟨cause⟩ | -) | a
  · exact ⟨cause, rfl⟩
  · exact absurd ⟨rfl, rfl⟩ h
  · exact absurd rfl (hok a)

theorem Fails.ne_ok (h : Fails x stop) (a : α) : x ≠ .ok a := h.1 ▸ nofun

@[simp] theorem not_fails_ok (a : α) : ¬ Fails (.ok a) stop := fun h => nomatch h.1

@[simp] theorem not_fails_pure (a : α) : ¬ Fails (pure a : Attempt α) stop := not_fails_ok a

@[simp] theorem fails_error_iff {e : Stop} :
    Fails (.error e : Attempt α) stop ↔ stop = e ∧ e.isFailure = true := by
  rw [Fails, Except.error.injEq]
  constructor <;>
  · rintro ⟨rfl, h⟩
    exact ⟨rfl, h⟩

@[simp] theorem fails_fault_iff : Fails (fault : Attempt α) stop ↔ stop = .fault := by
  simp [fault]

@[simp] theorem fails_refuse_iff {cause : Refusal} :
    Fails (refuse cause : Attempt α) stop ↔ stop = .refused cause ∧ cause.isBreakage = true := by
  simp [refuse]

/-- A chain fails where one of its links does. -/
@[simp] theorem fails_bind_iff {f : α → Attempt β} :
    Fails (x >>= f) stop ↔ Fails x stop ∨ ∃ a, x = .ok a ∧ Fails (f a) stop := by
  cases x with
  | ok a =>
    constructor
    · intro h
      exact Or.inr ⟨a, rfl, h⟩
    · rintro (h | ⟨_, ⟨⟩, h⟩)
      · exact absurd h (not_fails_ok a)
      · exact h
  | error e =>
    have hlast : Fails (.error e >>= f) stop ↔ Fails (.error e : Attempt α) stop :=
      fails_error_iff.trans fails_error_iff.symm
    rw [hlast]
    exact (or_iff_left fun ⟨_, h, _⟩ => nomatch h).symm

@[simp] theorem fails_map_iff {f : α → β} : Fails (x.map f) stop ↔ Fails x stop := by
  cases x <;> simp [Except.map]

@[simp] theorem fails_seen_iff {f : α → β} : Fails (f <$> x) stop ↔ Fails x stop := fails_map_iff

@[simp] theorem fails_ite_iff {p : Prop} [Decidable p] {y : Attempt α} :
    Fails (if p then x else y) stop ↔ (p ∧ Fails x stop) ∨ (¬ p ∧ Fails y stop) := by
  split <;> simp [*]

@[simp] theorem fails_demand_iff {p : Prop} [Decidable p] {cause : Refusal} :
    Fails (demand p cause) stop ↔ ¬ p ∧ stop = .refused cause ∧ cause.isBreakage = true := by
  simp [demand]

/-- What is behind a check fails only if the check is passed. -/
@[simp] theorem demand_eq_iff {p : Prop} [Decidable p] {cause : Refusal} {passed : Unit} :
    demand p cause = .ok passed ↔ p := demand_eq_ok_iff

@[simp] theorem fails_demandSome_iff {o : Option α} {cause : Refusal} :
    Fails (demandSome cause o) stop ↔
      o = none ∧ stop = .refused cause ∧ cause.isBreakage = true := by
  cases o <;> simp [demandSome]

@[simp] theorem fails_onlyIf_iff {called : Bool} {check : Attempt Unit} :
    Fails (onlyIf called check) stop ↔ called = true ∧ Fails check stop := by
  cases called <;> simp [onlyIf]

@[simp] theorem fails_nextCount_iff {n : UInt64} :
    Fails (nextCount n) stop ↔ Filled n ∧ stop = .fault := by
  simp [nextCount, Filled]

end

/-! ## Amounts -/

namespace Amount

variable {stop : Stop} (a b c : Amount)

@[simp] theorem not_fails_add : ¬ Fails (a.add b) stop := by simp [add, orRefuse]

@[simp] theorem not_fails_sub : ¬ Fails (a.sub b) stop := by simp [sub]

@[simp] theorem not_fails_mul : ¬ Fails (a.mul b) stop := by simp [mul, orRefuse]

@[simp] theorem not_fails_mulDiv : ¬ Fails (a.mulDiv b c) stop := by simp [mulDiv, orRefuse]

@[simp] theorem not_fails_decMul : ¬ Fails (a.decMul b) stop := by simp [decMul, orRefuse]

@[simp] theorem not_fails_change (up : Bool) : ¬ Fails (a.change b up) stop := by simp [change]

@[simp] theorem not_fails_ratio : ¬ Fails (ratio a b c) stop := by simp [ratio]

@[simp] theorem not_fails_nominalRatio : ¬ Fails (nominalRatio a b) stop := by
  simp [nominalRatio]

theorem not_fails_decPowFrom (n : Nat) : ¬ Fails (decPowFrom n a b) stop := by
  induction n using Nat.strong_induction_on generalizing a b with
  | _ n ih =>
    rw [decPowFrom]
    split
    · exact not_fails_decMul a b
    next hn =>
    have hhalf := fun x y => ih (n / 2) (by omega) x y
    have hodd := fun x y => ih ((n - 1) / 2) (by omega) x y
    split <;> simp [hhalf, hodd]

@[simp] theorem not_fails_decPow (n : Nat) : ¬ Fails (a.decPow n) stop := by
  simp [decPow, not_fails_decPowFrom]

variable {a b c} {n : Nat}

theorem fails_orFault_iff : Fails (orFault n) stop ↔ limit ≤ n ∧ stop = .fault := by
  unfold orFault ofNat?
  split
  · next h =>
    split at h
    · next hn => simp [Nat.not_le_of_lt hn]
    · cases h
  · next h =>
    split at h
    · cases h
    · next hn => simp [Nat.le_of_not_lt hn]

@[simp] theorem fails_plus_iff :
    Fails (a.plus b) stop ↔ limit ≤ a.val + b.val ∧ stop = .fault := fails_orFault_iff

@[simp] theorem fails_minus_iff : Fails (a.minus b) stop ↔ ¬ b ≤ a ∧ stop = .fault := by
  simp [minus]

/-- What is behind a comparison can be taken off. -/
theorem not_fails_minus (h : b ≤ a) : ¬ Fails (a.minus b) stop := by
  rw [fails_minus_iff]
  exact fun hno => hno.1 h

@[simp] theorem fails_times_iff :
    Fails (a.times b) stop ↔ limit ≤ a.val * b.val ∧ stop = .fault := fails_orFault_iff

@[simp] theorem fails_dividedBy_iff : Fails (a.dividedBy b) stop ↔ b = 0 ∧ stop = .fault := by
  simp [dividedBy]

/-- A quotient times its divisor is at most what was divided. -/
theorem times_le_of_dividedBy (h : a.dividedBy b = .ok c) : c.val * b.val ≤ a.val := by
  obtain ⟨-, hc⟩ := dividedBy_eq_ok_iff.1 h
  rw [hc]
  exact Nat.div_mul_le_self a.val b.val

/-- A quotient times its divisor is an amount. -/
theorem not_fails_times (h : a.dividedBy b = .ok c) : ¬ Fails (c.times b) stop := by
  rw [fails_times_iff]
  exact fun hlimit =>
    Nat.not_le_of_lt (lt_of_le_of_lt (times_le_of_dividedBy h) a.val_lt) hlimit.1

/-- And it can be taken off what was divided. -/
theorem not_fails_remainder {taken : Amount} (h : a.dividedBy b = .ok c)
    (ht : c.times b = .ok taken) : ¬ Fails (a.minus taken) stop := by
  refine not_fails_minus ?_
  rw [le_iff_val_le, times_eq_ok_iff.1 ht]
  exact times_le_of_dividedBy h

end Amount

/-! ## Parameters -/

namespace Parameters

variable {p : Parameters} {stop : Stop}

/-- No division by a parameter halts the run where the parameters are validated. -/
theorem not_fails_beta (hp : stop = .fault → p.validate = .ok ()) (a : Amount) :
    ¬ Fails (a.dividedBy (.ofWord p.beta)) stop := by
  rw [Amount.fails_dividedBy_iff]
  rintro ⟨h0, rfl⟩
  exact Amount.ofWord_ne_zero (consistent (hp rfl)).beta_ne h0

theorem not_fails_percentDivisor (hp : stop = .fault → p.validate = .ok ()) (a : Amount) :
    ¬ Fails (a.dividedBy (.ofWord p.percentDivisor)) stop := by
  rw [Amount.fails_dividedBy_iff]
  rintro ⟨h0, rfl⟩
  exact Amount.ofWord_ne_zero (consistent (hp rfl)).percentDivisor_ne h0

end Parameters

/-! ## Pools -/

section

variable {stop : Stop}

@[simp] theorem Balance.not_fails_increased (b : Balance) (coll debt : Amount) :
    ¬ Fails (b.increased coll debt) stop := by simp [increased]

@[simp] theorem Balance.not_fails_decreased (b : Balance) (coll debt : Amount) :
    ¬ Fails (b.decreased coll debt) stop := by simp [decreased]

@[simp] theorem Surplus.not_fails_creditedLeft (s : Surplus) (owner : Address) (left : Amount) :
    ¬ Fails (s.creditedLeft owner left) stop := by simp [creditedLeft, credited]

@[simp] theorem Surplus.not_fails_paidOut (s : Surplus) (owner : Address) :
    ¬ Fails (s.paidOut owner) stop := by simp [paidOut]

@[simp] theorem Pools.not_fails_realized (p : Pools) (coll debt : Amount) :
    ¬ Fails (p.realized coll debt) stop := by simp [realized]

@[simp] theorem PriceFeed.fails_priced_iff {f : PriceFeed} {price : Amount} :
    Fails (f.priced price) stop ↔ price ≠ 0 ∧ Filled f.updates ∧ stop = .fault := by
  simp [priced]

/-- The change of a price in hundredths of a percent: the difference, from whichever is more, is
multiplied before it is divided. -/
theorem PriceFeed.fails_change_iff {f : PriceFeed} : Fails f.change stop ↔ f.previous ≠ 0 ∧
    Amount.limit ≤
      (f.previous.val - f.current.val + (f.current.val - f.previous.val)) * 10000 ∧
    stop = .fault := by
  by_cases h0 : f.previous = 0
  · simp [change, h0]
  obtain hlt | hle := Nat.lt_or_ge f.current.val f.previous.val
  · obtain ⟨rest, hrest⟩ := Amount.exists_rest (Nat.le_of_lt hlt)
    have hminus : f.previous.minus f.current = .ok rest := Amount.minus_eq_ok_iff.2 hrest
    have hdifference : f.previous.val - f.current.val + (f.current.val - f.previous.val) =
        rest.val := by omega
    rw [hdifference]
    simp [change, h0, Amount.lt_iff_val_lt, hlt, hminus]
  · obtain ⟨rest, hrest⟩ := Amount.exists_rest hle
    have hminus : f.current.minus f.previous = .ok rest := Amount.minus_eq_ok_iff.2 hrest
    have hdifference : f.previous.val - f.current.val + (f.current.val - f.previous.val) =
        rest.val := by omega
    rw [hdifference]
    simp [change, h0, Amount.lt_iff_val_lt, Nat.not_lt_of_le hle, hminus]

end

/-! ## Ratios -/

section

variable {stop : Stop} (p : Parameters)

@[simp] theorem SystemRatio.not_fails_evaluate (coll debt price : Amount) :
    ¬ Fails (evaluate coll debt price p) stop := by simp [evaluate]

@[simp] theorem not_fails_isRecovery (coll debt price : Amount) :
    ¬ Fails (isRecovery coll debt price p) stop := by simp [isRecovery]

@[simp] theorem Change.not_fails_apply (c : Change) (coll debt : Amount) :
    ¬ Fails (c.apply coll debt) stop := by simp [apply]

@[simp] theorem Change.not_fails_ratio (c : Change) (coll debt price : Amount) :
    ¬ Fails (c.ratio coll debt price) stop := by simp [ratio]

@[simp] theorem not_fails_demandNormal (recovery : Bool) (operation : String) :
    ¬ Fails (demandNormal recovery operation) stop := by simp [demandNormal]

@[simp] theorem not_fails_demandSystemCritical (ratio : Amount) :
    ¬ Fails (demandSystemCritical ratio p) stop := by simp [demandSystemCritical]

@[simp] theorem not_fails_demandSystemMinimum (ratio : Amount) :
    ¬ Fails (demandSystemMinimum ratio p) stop := by simp [demandSystemMinimum]

@[simp] theorem not_fails_demandOpening (recovery : Bool) (ratio system : Amount) :
    ¬ Fails (demandOpening recovery ratio system p) stop := by
  simp [demandOpening, demandCritical, demandMinimum]

@[simp] theorem not_fails_demandAdjustment (recovery grows : Bool)
    (withdrawal old new system : Amount) :
    ¬ Fails (demandAdjustment recovery withdrawal grows old new system p) stop := by
  simp [demandAdjustment, demandCritical, demandMinimum, demandNotWorse]

end

/-! ## Stakes and sums -/

namespace Redistribution

variable {stop : Stop} (r : Redistribution)

/-- Collateral was noted after the latest liquidation, but no stakes. -/
def Unstaked (r : Redistribution) : Prop := r.collSnapshot ≠ 0 ∧ r.stakesSnapshot = 0

@[simp] theorem not_fails_pending (t : Trove) : ¬ Fails (r.pending t) stop := by
  simp [pending, pendingColl, pendingDebt, shareOf]

@[simp] theorem not_fails_entire (t : Trove) : ¬ Fails (r.entire t) stop := by simp [entire]

@[simp] theorem not_fails_stakesAfter (old new : Amount) :
    ¬ Fails (r.stakesAfter old new) stop := by simp [stakesAfter]

variable {r} {coll debt : Amount}

theorem fails_stakeFor_iff :
    Fails (r.stakeFor coll) stop ↔ r.Unstaked ∧ stop = .refused .noStakesNoted := by
  simp [stakeFor, Unstaked, and_assoc]

/-- Behind the check there are stakes to divide by, and what is carried on is a remainder. -/
theorem fails_spread_iff : Fails (r.spread coll debt) stop ↔
    (debt ≠ 0 ∧ r.totalStakes = 0) ∧ stop = .refused .nobodyStaked := by
  simp only [spread, fails_ite_iff, not_fails_ok, and_false, false_or, fails_bind_iff,
    fails_demand_iff, ne_eq, Decidable.not_not, Refusal.isBreakage, and_true, demand_eq_iff,
    exists_const, Amount.not_fails_mul, Amount.not_fails_add, Amount.fails_dividedBy_iff,
    not_fails_pure, or_false]
  constructor
  · rintro ⟨hdebt, ⟨hstakes, hstop⟩ |
      ⟨hstakes, _, -, collNumerator, -, _, -, debtNumerator, -, h⟩⟩
    · exact ⟨⟨hdebt, hstakes⟩, hstop⟩
    obtain ⟨h0, -⟩ | ⟨collPerStake, hcoll, ⟨h0, -⟩ | ⟨debtPerStake, hdebt, _, -, _, -, h⟩⟩ := h
    · exact absurd h0 hstakes
    · exact absurd h0 hstakes
    obtain h | ⟨_, hcollTaken, h | ⟨_, -, h | ⟨_, hdebtTaken, h⟩⟩⟩ := h
    · exact absurd h (Amount.not_fails_times hcoll)
    · exact absurd h (Amount.not_fails_remainder hcoll hcollTaken)
    · exact absurd h (Amount.not_fails_times hdebt)
    · exact absurd h (Amount.not_fails_remainder hdebt hdebtTaken)
  · rintro ⟨⟨hdebt, hstakes⟩, hstop⟩
    exact ⟨hdebt, Or.inl ⟨hstakes, hstop⟩⟩

end Redistribution

/-! ## The base rate -/

namespace BaseRate

variable {stop : Stop} (b : BaseRate) (p : Parameters)

@[simp] theorem not_fails_decayed (now : UInt64) : ¬ Fails (b.decayed p now) stop := by
  simp [decayed]

@[simp] theorem not_fails_demandFeeWithin (fee amount limit : Amount) :
    ¬ Fails (demandFeeWithin fee amount limit) stop := by simp [demandFeeWithin]

@[simp] theorem not_fails_demandBorrowingLimit (limit : Amount) (recovery : Bool) :
    ¬ Fails (demandBorrowingLimit p limit recovery) stop := by
  simp [demandBorrowingLimit, limitRange]

@[simp] theorem not_fails_demandRedemptionLimit (limit : Amount) :
    ¬ Fails (demandRedemptionLimit p limit) stop := by simp [demandRedemptionLimit, limitRange]

@[simp] theorem not_fails_quoteBorrowing (now : UInt64) (requested limit : Amount) :
    ¬ Fails (b.quoteBorrowing p now requested limit) stop := by simp [quoteBorrowing]

/-- What is redeemed is too small a share of the debt to raise a rate of zero. -/
def Unraised (b : BaseRate) (p : Parameters) (now : UInt64) (drawn price supply : Amount) : Prop :=
  b.decayed p now = .ok 0 ∧ ∃ share, drawn.mulDiv price supply = .ok share ∧
    share.val < p.beta.toNat

variable {b p} {now : UInt64} {drawn price supply limit : Amount}

theorem raised_eq_zero_iff {decayed bump raised : Amount} (h : decayed.add bump = .ok raised) :
    min raised Amount.unit = 0 ↔ decayed = 0 ∧ bump = 0 := by
  have hunit := Amount.unit_pos
  rw [Amount.add_eq_ok_iff] at h
  simp only [Amount.eq_zero_iff, Amount.val_min]
  omega

theorem fails_quoteRedemption_iff (hp : stop = .fault → p.validate = .ok ()) :
    Fails (b.quoteRedemption p now drawn price supply limit) stop ↔
      b.Unraised p now drawn price supply ∧ stop = .refused .rateAtZero := by
  simp only [quoteRedemption, bind_pure_comp, fails_bind_iff, not_fails_decayed,
    Amount.not_fails_mulDiv, Parameters.not_fails_beta hp, Amount.not_fails_add, fails_demand_iff,
    ne_eq, Decidable.not_not, Refusal.isBreakage, and_true, Bool.false_eq_true, and_false,
    fails_seen_iff, not_fails_demandFeeWithin, exists_const, or_self, or_false, false_or]
  constructor
  · rintro ⟨decayed, hdecayed, share, hshare, bump, hbump, raised, hraised, h0, hstop⟩
    obtain ⟨rfl, rfl⟩ := (raised_eq_zero_iff hraised).1 h0
    obtain ⟨hbeta, hquotient⟩ := Amount.dividedBy_eq_ok_iff.1 hbump
    have hlt := (Nat.div_eq_zero_iff_lt (Amount.ne_zero_iff.1 hbeta)).1 hquotient.symm
    exact ⟨⟨hdecayed, share, hshare, hlt⟩, hstop⟩
  · rintro ⟨⟨hdecayed, share, hshare, hlt⟩, hstop⟩
    have hbeta : Amount.ofWord p.beta ≠ 0 := Amount.ne_zero_iff.2 (Nat.zero_lt_of_lt hlt)
    have hbump : share.dividedBy (.ofWord p.beta) = .ok 0 :=
      Amount.dividedBy_eq_ok_iff.2 ⟨hbeta, (Nat.div_eq_of_lt hlt).symm⟩
    have hraised : Amount.add 0 0 = .ok 0 := Amount.add_eq_ok_iff.2 rfl
    exact ⟨0, hdecayed, share, hshare, 0, hbump, 0, hraised,
      (raised_eq_zero_iff hraised).2 ⟨rfl, rfl⟩, hstop⟩

end BaseRate

/-! ## Splits -/

namespace Split

variable {stop : Stop} {p : Parameters} (debt coll ratio systemRatio price deposits : Amount)

/-- The depositors' part is at most the debt. -/
@[simp] theorem not_fails_divide : ¬ Fails (divide debt coll deposits) stop := by
  simp [divide, Amount.min_le_left]

theorem not_fails_rewardOf (hp : stop = .fault → p.validate = .ok ()) :
    ¬ Fails (rewardOf coll p) stop := Parameters.not_fails_percentDivisor hp coll

theorem not_fails_normal (hp : stop = .fault → p.validate = .ok ()) :
    ¬ Fails (normal debt coll deposits p) stop := by
  simp [normal, not_fails_rewardOf coll hp]

theorem not_fails_inRecovery (hp : stop = .fault → p.validate = .ok ()) :
    ¬ Fails (inRecovery debt coll ratio systemRatio price deposits p) stop := by
  simp [inRecovery, redistributed, capped, not_fails_rewardOf _ hp, not_fails_normal _ _ _ hp]

@[simp] theorem not_fails_collLeaving (s : Split) : ¬ Fails s.collLeaving stop := by
  simp [collLeaving]

@[simp] theorem not_fails_including (t : SplitTotals) (s : Split) :
    ¬ Fails (t.including s) stop := by simp [SplitTotals.including]

end Split

/-! ## The state -/

@[simp] theorem Trove.not_fails_netDebt {stop : Stop} (t : Trove) (reserve : Amount) :
    ¬ Fails (t.netDebt reserve) stop := by simp [netDebt]

@[simp] theorem Trove.not_fails_ratio {stop : Stop} (t : Trove) (price : Amount) :
    ¬ Fails (t.ratio price) stop := by simp [ratio]

namespace State

variable {stop : Stop} (s : State) (owner : Address) (coll debt : Amount)

@[simp] theorem not_fails_activeTrove : ¬ Fails (s.activeTrove owner) stop := by
  simp [activeTrove]

@[simp] theorem not_fails_entire : ¬ Fails (s.entire owner) stop := by simp [entire]

@[simp] theorem not_fails_ratio (price : Amount) : ¬ Fails (s.ratio owner price) stop := by
  simp [ratio]

@[simp] theorem not_fails_evaluate (price : Amount) (p : Parameters) :
    ¬ Fails (s.evaluate price p) stop := by
  simp [evaluate, systemColl, systemDebt, Pools.systemColl, Pools.systemDebt]

@[simp] theorem not_fails_realize : ¬ Fails (s.realize owner) stop := by simp [realize]

@[simp] theorem not_fails_release (share : PendingShare) : ¬ Fails (s.release share) stop := by
  simp [release]

@[simp] theorem not_fails_unstake : ¬ Fails (s.unstake owner) stop := by simp [unstake]

@[simp] theorem not_fails_note (owed : Amount) : ¬ Fails (s.note owed) stop := by simp [note]

@[simp] theorem not_fails_amend : ¬ Fails (s.amend owner coll debt) stop := by simp [amend]

variable {s owner coll debt}

@[simp] theorem fails_openTrove_iff : Fails (s.openTrove owner coll debt) stop ↔
    s.isActive owner = false ∧ Filled s.activeCount ∧ stop = .fault := by
  simp [openTrove]

/-- Only a status that closes nothing is a failure. -/
@[simp] theorem fails_closeTrove_iff {status : TroveStatus} :
    Fails (s.closeTrove owner status) stop ↔ status.isClosed = false ∧
      stop = .refused (.internal (status.name ++ " is not a closed status")) := by
  simp only [closeTrove, fails_bind_iff, fails_demand_iff, not_fails_activeTrove, not_fails_pure,
    Refusal.isBreakage, Bool.not_eq_true, Bool.false_eq_true, and_true, and_false, exists_false,
    or_self, or_false]

theorem fails_restake (h : Fails (s.restake owner) stop) :
    s.spread.Unstaked ∧ stop = .refused .noStakesNoted := by
  simp only [restake, fails_bind_iff, not_fails_activeTrove, not_fails_pure,
    Redistribution.not_fails_stakesAfter, Redistribution.fails_stakeFor_iff, false_or, and_false,
    exists_const, or_false] at h
  obtain ⟨t, -, h⟩ := h
  exact h

theorem restake_ne_ok (h : s.spread.Unstaked) (stake : Amount) (s' : State) :
    s.restake owner ≠ .ok (stake, s') := by
  intro hs
  obtain ⟨t, -, -, hstake, -⟩ := restake_eq_ok_iff.1 hs
  exact (Redistribution.fails_stakeFor_iff.2 ⟨h, rfl⟩).ne_ok stake hstake

theorem fails_redistribute_iff : Fails (s.redistribute coll debt) stop ↔
    (debt ≠ 0 ∧ s.spread.totalStakes = 0) ∧ stop = .refused .nobodyStaked := by
  simp only [redistribute, fails_ite_iff, not_fails_ok, and_false, false_or, fails_bind_iff,
    Redistribution.fails_spread_iff, Balance.not_fails_decreased, Balance.not_fails_increased,
    not_fails_pure, exists_false, or_false]
  exact and_iff_right_of_imp fun h => h.1.1

end State

/-! ## Movements and ranks -/

section

variable {stop : Stop} {σ χ : Type}

@[simp] theorem fails_settle_iff {s : σ} {x : Attempt σ} :
    Fails (settle s x).1 stop ↔ Fails x stop := by
  cases x <;> simp [settle]

theorem not_fails_applyInTurn {apply : σ → χ → Attempt Unit × σ}
    (h : ∀ s c, ¬ Fails (apply s c).1 stop) (s : σ) (changes : List χ) :
    ¬ Fails (applyInTurn apply s changes).1 stop := by
  induction changes generalizing s with
  | nil => exact not_fails_ok ()
  | cons c rest ih =>
    have hc := h s c
    rw [applyInTurn]
    split
    · exact ih _
    · next heq =>
      rw [heq] at hc
      exact hc

@[simp] theorem Ranking.not_fails_insert (r : Ranking) (who : Address) (ratio : Amount)
    (hints : Hints) : ¬ Fails (r.insert who ratio hints) stop := by simp [insert]

@[simp] theorem Ranking.not_fails_remove (r : Ranking) (who : Address) :
    ¬ Fails (r.remove who) stop := by simp [remove]

@[simp] theorem Ranking.not_fails_reinsert (r : Ranking) (who : Address) (ratio : Amount)
    (hints : Hints) : ¬ Fails (r.reinsert who ratio hints).1 stop := by
  have hremove : ¬ Fails (r.remove who) stop := not_fails_remove r who
  unfold reinsert
  split
  · next h =>
    rw [h, fails_error_iff] at hremove
    rwa [fails_error_iff]
  · simp

theorem RankChange.not_fails_apply (r : Ranking) (c : RankChange) :
    ¬ Fails (c.apply r).1 stop := by
  cases c <;> simp [apply]

@[simp] theorem RankChange.not_fails_check (r : Ranking) (c : RankChange) :
    ¬ Fails (c.check r) stop := by
  cases c <;> simp [check]

@[simp] theorem TokenBook.not_fails_debited (b : TokenBook) (account : Address) (amount : Amount) :
    ¬ Fails (b.debited account amount) stop := by
  simp +contextual [debited]

@[simp] theorem TokenBook.not_fails_credited (b : TokenBook) (account : Address)
    (amount : Amount) : ¬ Fails (b.credited account amount) stop := by simp [credited]

@[simp] theorem TokenBook.not_fails_move (b : TokenBook) (source target : Address)
    (amount : Amount) : ¬ Fails (b.move source target amount) stop := by simp [move]

@[simp] theorem TokenBook.not_fails_transfer (b : TokenBook) (source target : Address)
    (amount : Amount) : ¬ Fails (b.transfer source target amount) stop := by simp [transfer]

@[simp] theorem TokenBook.not_fails_burn (b : TokenBook) (source : Address) (amount : Amount) :
    ¬ Fails (b.burn source amount).1 stop := by
  have hzero : ¬ Fails (demand (amount ≠ 0) .zeroAmount) stop := by simp
  have hdebit : ¬ Fails (b.debited source amount) stop := not_fails_debited b source amount
  unfold burn
  split
  · next h =>
    rw [h] at hzero
    exact hzero
  · next h =>
    rw [h, fails_error_iff] at hdebit
    rwa [fails_error_iff]
  · simp

theorem TokenMove.not_fails_apply (b : TokenBook) (m : TokenMove) :
    ¬ Fails (m.apply b).1 stop := by
  cases m <;> simp [apply, TokenBook.mint]

@[simp] theorem Draft.not_fails_rehearse (b : TokenBook) (moves : List TokenMove) :
    ¬ Fails (Draft.rehearse b moves) stop := by
  have hmove : ∀ balances m, ¬ Fails (rehearseMove b balances m) stop := by
    intro balances m
    cases m <;>
      simp +contextual [rehearseMove, rehearseDebit, rehearseCredit, TokenMove.debit,
        TokenMove.credit]
  have hall : ∀ balances, ¬ Fails (moves.foldlM (rehearseMove b) balances) stop := by
    induction moves with
    | nil => exact not_fails_ok
    | cons m rest ih => simp [hmove, ih]
  exact hall _

end

end Stablecoin
