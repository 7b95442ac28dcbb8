/-
  Stablecoin theory — what a place says about the minimum ratio.

  Redemptions and withdrawals look at one trove and go by its place: who stands
  before a trove at the minimum ratio is taken to be there too.  That follows from
  the ratios by which the two are ranked, as far as these still say what the troves
  hold (`Ledger.atMinimum_of_before`).  They may not:

  * `Ledger.Sunken`, `Ledger.Risen`: by a share of what was spread, a trove has less
    collateral for its debt than it is ranked by, or more;
  * `Ledger.Straddled`: two troves are ranked by the same rounded ratio, and the
    minimum lies between it and the next.

  Troves over which nothing was spread since they were placed are neither sunken nor
  risen (`Ledger.straddled_of_unspread`).
-/
import Stablecoin.Proofs.Collateralization
import Stablecoin.Proofs.RankAgreement
import Stablecoin.Proofs.RankWalks
import Stablecoin.Proofs.SystemTotals

namespace Stablecoin.Ledger

variable {l : Ledger} {owner high low : Address} {ranked price ratio : Amount} {held : Balance}

/-! ## One trove -/

/-- The trove of an owner, its share included, is at the minimum ratio or above it.  The comparison
is that before rounding, and says the same of a ratio that would be no amount. -/
def AtMinimum (l : Ledger) (owner : Address) : Prop :=
  ∃ held, l.state.contents owner = .ok held ∧
    l.params.minimumRatio.val * held.debt.val ≤ held.coll.val * l.feed.current.val

/-- The trove of an owner is ranked by a ratio, and this is what it holds. -/
structure Ranked (l : Ledger) (owner : Address) (ranked : Amount) (held : Balance) : Prop where
  ratioOf_eq : l.ranking.ratioOf owner = some ranked
  contents_eq : l.state.contents owner = .ok held
  debt_ne : held.debt ≠ 0

/-- A trove has less collateral for its debt than it is ranked by. -/
def Sunken (l : Ledger) (owner : Address) : Prop :=
  ∃ ranked held, l.Ranked owner ranked held ∧
    held.coll.val * Amount.nominalScale.val < ranked.val * held.debt.val

/-- A trove has more collateral for its debt than it is ranked by, by a step of nominal ratios. -/
def Risen (l : Ledger) (owner : Address) : Prop :=
  ∃ ranked held, l.Ranked owner ranked held ∧
    (ranked.val + 1) * held.debt.val ≤ held.coll.val * Amount.nominalScale.val

theorem price_ne_zero (h : l.price = .ok price) : l.feed.current ≠ 0 := by
  simp only [Ledger.price, bind_eq_ok_iff] at h
  obtain ⟨_, hdemand, -⟩ := h
  exact demand_eq_ok_iff.1 hdemand

/-- A trove is at the minimum if its ratio is, where that is an amount. -/
theorem atMinimum_iff_of_ratio (hprice : l.price = .ok price)
    (h : l.state.ratio owner price = .ok ratio) :
    l.AtMinimum owner ↔ l.params.minimumRatio ≤ ratio := by
  simp only [State.ratio, bind_eq_ok_iff] at h
  obtain ⟨whole, hwhole, hratio⟩ := h
  rw [Amount.le_ratio_iff hratio, price_eq_current hprice]
  constructor
  · rintro ⟨held, hheld, hle⟩
    rw [State.contents_of_entire hwhole, Except.ok.injEq] at hheld
    subst hheld
    exact hle
  · intro hle
    exact ⟨_, State.contents_of_entire hwhole, hle⟩

theorem atMinimum_iff (h : l.ratio owner = .ok ratio) :
    l.AtMinimum owner ↔ l.params.minimumRatio ≤ ratio := by
  simp only [Ledger.ratio, bind_eq_ok_iff] at h
  obtain ⟨price, hprice, hratio⟩ := h
  exact atMinimum_iff_of_ratio hprice hratio

namespace Ranked

variable (hr : l.Ranked owner ranked held)
include hr

theorem unique {ranked' : Amount} {held' : Balance} (hr' : l.Ranked owner ranked' held') :
    ranked' = ranked ∧ held' = held :=
  ⟨Option.some.inj (hr'.ratioOf_eq.symm.trans hr.ratioOf_eq),
    Except.ok.inj (hr'.contents_eq.symm.trans hr.contents_eq)⟩

theorem atMinimum_iff : l.AtMinimum owner ↔
    l.params.minimumRatio.val * held.debt.val ≤ held.coll.val * l.feed.current.val := by
  constructor
  · rintro ⟨held', hheld, hle⟩
    rw [hr.contents_eq, Except.ok.injEq] at hheld
    subst hheld
    exact hle
  · intro hle
    exact ⟨held, hr.contents_eq, hle⟩

theorem sunken_iff : l.Sunken owner ↔
    held.coll.val * Amount.nominalScale.val < ranked.val * held.debt.val := by
  constructor
  · rintro ⟨ranked', held', hr', hlt⟩
    obtain ⟨rfl, rfl⟩ := hr.unique hr'
    exact hlt
  · intro hlt
    exact ⟨ranked, held, hr, hlt⟩

theorem risen_iff : l.Risen owner ↔
    (ranked.val + 1) * held.debt.val ≤ held.coll.val * Amount.nominalScale.val := by
  constructor
  · rintro ⟨ranked', held', hr', hle⟩
    obtain ⟨rfl, rfl⟩ := hr.unique hr'
    exact hle
  · intro hle
    exact ⟨ranked, held, hr, hle⟩

/-- A trove that is ranked by its nominal ratio is neither sunken nor risen. -/
theorem of_current (hc : l.Current owner) : ¬ l.Sunken owner ∧ ¬ l.Risen owner := by
  have hnominal := hc ranked hr.ratioOf_eq
  rw [State.nominalRatio_eq_contents, hr.contents_eq] at hnominal
  have hvalue : ranked.val = held.coll.val * Amount.nominalScale.val / held.debt.val := by
    have heq : Amount.nominalRatio held.coll held.debt = .ok ranked := hnominal
    rw [Amount.nominalRatio, if_neg hr.debt_ne, Amount.mulDiv_eq_ok_iff] at heq
    exact heq.2
  have hpos := Amount.ne_zero_iff.1 hr.debt_ne
  rw [hr.sunken_iff, hr.risen_iff, Nat.not_lt, Nat.not_le, hvalue]
  refine ⟨Nat.div_mul_le_self _ _, ?_⟩
  rw [Nat.mul_comm (_ + 1)]
  exact Nat.lt_mul_div_succ _ hpos

/-- Where a trove at the minimum has not risen, the next nominal ratio is above the minimum. -/
theorem minimum_lt_next (hprice : l.feed.current ≠ 0) (hm : l.AtMinimum owner)
    (hn : ¬ l.Risen owner) : l.params.minimumRatio.val * Amount.nominalScale.val <
      (ranked.val + 1) * l.feed.current.val := by
  rw [hr.atMinimum_iff] at hm
  rw [hr.risen_iff, Nat.not_le] at hn
  refine Nat.lt_of_mul_lt_mul_right (a := held.debt.val) ?_
  calc
    l.params.minimumRatio.val * Amount.nominalScale.val * held.debt.val
      = l.params.minimumRatio.val * held.debt.val * Amount.nominalScale.val := Nat.mul_right_comm ..
    _ ≤ held.coll.val * l.feed.current.val * Amount.nominalScale.val := Nat.mul_le_mul_right _ hm
    _ = held.coll.val * Amount.nominalScale.val * l.feed.current.val := Nat.mul_right_comm ..
    _ < (ranked.val + 1) * held.debt.val * l.feed.current.val :=
      Nat.mul_lt_mul_of_pos_right hn (Amount.ne_zero_iff.1 hprice)
    _ = (ranked.val + 1) * l.feed.current.val * held.debt.val := Nat.mul_right_comm ..

/-- A trove that is ranked by the minimum at least and has not sunken is at the minimum. -/
theorem atMinimum_of_le (hn : ¬ l.Sunken owner)
    (hle : l.params.minimumRatio.val * Amount.nominalScale.val ≤
      ranked.val * l.feed.current.val) : l.AtMinimum owner := by
  rw [hr.sunken_iff, Nat.not_lt] at hn
  rw [hr.atMinimum_iff]
  refine Nat.le_of_mul_le_mul_right (c := Amount.nominalScale.val) ?_ (by decide)
  calc
    l.params.minimumRatio.val * held.debt.val * Amount.nominalScale.val
      = l.params.minimumRatio.val * Amount.nominalScale.val * held.debt.val := Nat.mul_right_comm ..
    _ ≤ ranked.val * l.feed.current.val * held.debt.val := Nat.mul_le_mul_right _ hle
    _ = ranked.val * held.debt.val * l.feed.current.val := Nat.mul_right_comm ..
    _ ≤ held.coll.val * Amount.nominalScale.val * l.feed.current.val := Nat.mul_le_mul_right _ hn
    _ = held.coll.val * l.feed.current.val * Amount.nominalScale.val := Nat.mul_right_comm ..

end Ranked

/-! ## Two troves -/

/-- Two troves are ranked by one nominal ratio, and the minimum lies between it and the next. -/
def Straddled (l : Ledger) (high low : Address) : Prop :=
  ∃ ranked, l.ranking.ratioOf high = some ranked ∧ l.ranking.ratioOf low = some ranked ∧
    ranked.val * l.feed.current.val < l.params.minimumRatio.val * Amount.nominalScale.val ∧
    l.params.minimumRatio.val * Amount.nominalScale.val < (ranked.val + 1) * l.feed.current.val

/-- Their places do not say whether the first of two troves is at the minimum if the second is. -/
def Misranks (l : Ledger) (high low : Address) : Prop :=
  l.Sunken high ∨ l.Risen low ∨ l.Straddled high low

/-- **Who stands before a trove at the minimum is at the minimum too,** unless the ratios by which
the two are ranked do not say so. -/
theorem Ranked.before {rankedHigh rankedLow : Amount} {heldHigh heldLow : Balance}
    (hhigh : l.Ranked high rankedHigh heldHigh) (hlow : l.Ranked low rankedLow heldLow)
    (hle : rankedLow ≤ rankedHigh) (hprice : l.feed.current ≠ 0) (hm : l.AtMinimum low) :
    l.AtMinimum high ∨ l.Misranks high low := by
  by_cases hsunken : l.Sunken high
  · exact Or.inr (Or.inl hsunken)
  by_cases hrisen : l.Risen low
  · exact Or.inr (Or.inr (Or.inl hrisen))
  have hnext := hlow.minimum_lt_next hprice hm hrisen
  by_cases hranked : l.params.minimumRatio.val * Amount.nominalScale.val ≤
      rankedHigh.val * l.feed.current.val
  · exact Or.inl (hhigh.atMinimum_of_le hsunken hranked)
  -- the first is ranked below the minimum, and so by less than one step above the second
  rw [Nat.not_le] at hranked
  have hlt : rankedHigh.val < rankedLow.val + 1 :=
    Nat.lt_of_mul_lt_mul_right (hranked.trans hnext)
  rw [Amount.le_iff_val_le] at hle
  obtain rfl : rankedHigh = rankedLow := Amount.ext (by omega)
  exact Or.inr (Or.inr (Or.inr ⟨_, hhigh.ratioOf_eq, hlow.ratioOf_eq, hranked, hnext⟩))

/-! ## Runs -/

section

variable {start next : Ledger} {params : Parameters} {accounts : ProtocolAccounts}
  {feed : PriceFeed} {token : TokenBook} {commands : List Command}

/-- Whoever is ranked holds amounts, and some debt. -/
theorem exists_ranked (h : new params accounts feed token .empty = .ok start)
    (hok : start.Accepted commands) (ho : owner ∈ (start.after commands).ranking.owners) :
    ∃ ranked held, (start.after commands).Ranked owner ranked held := by
  obtain ⟨hsound, hcontains⟩ := after_inStep h hok
  rw [hsound.mem_owners_iff] at ho
  obtain ⟨ranked, hranked⟩ := Ranking.contains_iff.1 ho
  obtain ⟨held, hheld, hdebt⟩ := exists_contents h commands ((hcontains owner).symm.trans ho)
  exact ⟨ranked, held, hranked, hheld, hdebt⟩

/-- **In every accepted run,** who stands before a trove at the minimum is at the minimum too,
unless the ratios by which the two are ranked do not say so. -/
theorem atMinimum_of_before (h : new params accounts feed token .empty = .ok start)
    (hok : start.Accepted commands) (hprice : (start.after commands).price = .ok price)
    (hab : [high, low].Sublist (start.after commands).ranking.owners)
    (hm : (start.after commands).AtMinimum low) :
    (start.after commands).AtMinimum high ∨ (start.after commands).Misranks high low := by
  obtain ⟨rankedHigh, heldHigh, hhigh⟩ := exists_ranked h hok (hab.subset List.mem_cons_self)
  obtain ⟨rankedLow, heldLow, hlow⟩ :=
    exists_ranked h hok (hab.subset (List.mem_cons_of_mem _ List.mem_cons_self))
  obtain ⟨_, _, hratioHigh, hratioLow, hle⟩ := (after_inStep h hok).sound.le_of_before hab
  rw [hhigh.ratioOf_eq, Option.some.injEq] at hratioHigh
  rw [hlow.ratioOf_eq, Option.some.injEq] at hratioLow
  subst hratioHigh hratioLow
  exact hhigh.before hlow hle (price_ne_zero hprice) hm

/-- Where nothing was spread since two troves were placed, only rounding is left. -/
theorem straddled_of_unspread (h : starting params price = .ok start)
    (hok : start.Accepted commands) (hhigh : start.UnspreadSincePlaced commands high)
    (hlow : start.UnspreadSincePlaced commands low)
    (hm : (start.after commands).Misranks high low) :
    (start.after commands).Straddled high low := by
  rcases hm with ⟨ranked, held, hr, hlt⟩ | ⟨ranked, held, hr, hle⟩ | hstraddled
  · exact absurd (hr.sunken_iff.2 hlt) (hr.of_current (current_of_unspread h hok hhigh)).1
  · exact absurd (hr.risen_iff.2 hle) (hr.of_current (current_of_unspread h hok hlow)).2
  · exact hstraddled

/-! ## Withdrawals -/

variable {answer : Option Answer} {other last : Address} {amount : Amount}

/-- The last trove is looked at. -/
theorem atMinimum_of_demand (h : l.demandNoneBelow = .ok ()) (hl : l.ranking.last = some last) :
    (∃ price, l.price = .ok price) ∧ l.AtMinimum last := by
  simp only [demandNoneBelow, hl, bind_eq_ok_iff] at h
  obtain ⟨price, hprice, ratio, hratio, hdemand⟩ := h
  exact ⟨⟨price, hprice⟩, (atMinimum_iff_of_ratio hprice hratio).2 (demand_eq_ok_iff.1 hdemand)⟩

/-- **While anything is withdrawn, the last trove is at the minimum ratio, and so is every other,**
unless the ratios by which it and the last one are ranked do not say so. -/
theorem withdrawal_at_minimum (h : new params accounts feed token .empty = .ok start)
    (hok : start.Accepted commands) (hl : start.after commands = l)
    (hw : l.obey (.request (.withdraw owner amount)) = (.ok answer, next)) (h0 : amount ≠ 0)
    (hactive : l.state.isActive other = true) :
    ∃ last, l.ranking.last = some last ∧ l.AtMinimum last ∧
      (l.AtMinimum other ∨ l.Misranks other last) := by
  subst hl
  obtain ⟨hsound, hcontains⟩ := after_inStep h hok
  have hother : other ∈ (start.after commands).ranking.owners := by
    rw [hsound.mem_owners_iff, hcontains other, hactive]
  obtain ⟨plan, hplan, -⟩ := obey_request_ok hw
  obtain ⟨withdrawal, hwithdrawal, -⟩ := map_eq_ok_iff.1 hplan
  obtain ⟨hdemand, -⟩ := planWithdrawal_ok hwithdrawal
  obtain ⟨last, hlast⟩ := Ranking.exists_last hother
  obtain ⟨⟨price, hprice⟩, hm⟩ := atMinimum_of_demand (hdemand h0) hlast
  refine ⟨last, hlast, hm, ?_⟩
  by_cases hne : other = last
  · exact Or.inl (hne ▸ hm)
  · exact atMinimum_of_before h hok hprice (Ranking.before_last hlast hother hne) hm

end

/-- Both of two troves are at the minimum. -/
theorem withdrawal_at_minimum_lowerLast : ∃ start l next answer last,
    starting .standard twoThousand = .ok start ∧ start.Accepted (lowerLast ++ [firstDeposit]) ∧
    start.after (lowerLast ++ [firstDeposit]) = l ∧
    l.obey firstWithdrawal = (.ok answer, next) ∧
    l.state.isActive ⟨2, by decide⟩ = true ∧ l.ranking.last = some last ∧ l.AtMinimum last ∧
    (l.AtMinimum ⟨2, by decide⟩ ∨ l.Misranks ⟨2, by decide⟩ last) := by
  obtain ⟨start, h⟩ : ∃ start, starting .standard twoThousand = .ok start :=
    ⟨_, starting_standard _⟩
  have hrun : start.Accepted (lowerLast ++ [firstDeposit]) ∧
      (start.after (lowerLast ++ [firstDeposit])).state.isActive ⟨2, by decide⟩ = true ∧
      ∃ answer, ((start.after (lowerLast ++ [firstDeposit])).obey firstWithdrawal).1 =
        .ok answer := by
    rw [starting_eq h]
    decide +kernel
  obtain ⟨hok, hactive, answer, hanswer⟩ := hrun
  obtain ⟨last, hlast⟩ :=
    withdrawal_at_minimum h hok rfl (Prod.ext hanswer rfl) (by decide) hactive
  exact ⟨start, _, _, answer, last, h, hok, rfl, Prod.ext hanswer rfl, hactive, hlast⟩

/-- The last trove is at the minimum ratio, and the one before it is not; its owner withdraws. -/
theorem withdrawal_below_minimum : ∃ start commands ratio,
    starting .standard twoThousand = .ok start ∧ start.Accepted commands ∧
    (start.after commands).ranking.owners = [⟨2, by decide⟩, ⟨5, by decide⟩] ∧
    (start.after commands).ratio ⟨2, by decide⟩ = .ok ratio ∧
    ratio < (start.after commands).params.minimumRatio ∧
    ∃ answer, ((start.after commands).obey firstWithdrawal).1 = .ok answer :=
  ⟨_, sunkenFirst, ⟨1_095_036_314_727_639_542, by decide⟩, starting_standard twoThousand,
    by decide +kernel⟩

end Stablecoin.Ledger
