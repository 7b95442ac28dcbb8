/-
  Stablecoin theory — how a trove is split.

  A split loses nothing (`Split.Complete`), and on validated parameters there always
  is one: no quotient on the way is too large, and nothing is taken from less.
  Where collateral is capped this is so because of the test that chose the cap: a
  ratio at the minimum means that the cap is at most what the trove holds, with
  every rounding (`exists_capped`).

  * `Split.Exact` is what depositors may rely on besides;
  * `splits_exact`: every split that is tried succeeds and is exact.
-/
import Stablecoin.Proofs.ActivePool
import Stablecoin.Proofs.Collateralization
import Stablecoin.Proofs.Consistency

namespace Stablecoin

/-- A part of the whole, rounded down, is an amount and at most the whole. -/
theorem Amount.exists_part {a b c : Amount} (h0 : c ≠ 0) (hle : b ≤ c) :
    ∃ d, a.mulDiv b c = .ok d ∧ d ≤ a := by
  have hpart : a.val * b.val / c.val ≤ a.val := by
    refine Nat.div_le_of_le_mul ?_
    rw [Nat.mul_comm c.val]
    exact Nat.mul_le_mul_left a.val hle
  obtain ⟨d, hd, hda⟩ := exists_within hpart
  exact ⟨d, mulDiv_eq_ok_iff.2 ⟨h0, hd⟩, hda⟩

/-- What is left of the larger of two amounts is an amount. -/
theorem Amount.exists_sub {a b : Amount} (h : b ≤ a) : ∃ c, a.sub b = .ok c := by
  obtain ⟨c, hc⟩ := exists_rest h
  exact ⟨c, sub_eq_ok_iff.2 hc⟩

/-- A complete split that depositors can bear: they cancel no more debt than they have deposited,
and get collateral only together with debt. -/
structure Split.Exact (s : Split) (debt coll deposits : Amount) : Prop extends
    Split.Complete s debt coll where
  offset_le : s.debtOffset ≤ deposits
  offset_zero : s.debtOffset = 0 → s.collOffset = 0

namespace Split

variable {debt coll deposits price ratio systemRatio : Amount} {p : Parameters} {s : Split}

/-! ## Parts -/

/-- The liquidator's share can be taken, and the rest divided on. -/
theorem exists_reward (hp : p.validate = .ok ()) (coll : Amount) :
    ∃ reward rest, rewardOf coll p = .ok reward ∧ coll.sub reward = .ok rest := by
  have h0 := Amount.ofWord_ne_zero (Parameters.consistent hp).percentDivisor_ne
  obtain ⟨reward, hreward, hle⟩ :=
    Amount.exists_within (Nat.div_le_self coll.val (Amount.ofWord p.percentDivisor).val)
  obtain ⟨rest, hrest⟩ := Amount.exists_sub hle
  exact ⟨reward, rest, Amount.dividedBy_eq_ok_iff.2 ⟨h0, hreward⟩, hrest⟩

theorem exists_division (debt coll deposits : Amount) : ∃ d, divide debt coll deposits = .ok d := by
  unfold divide
  split
  · exact ⟨_, rfl⟩
  next hn =>
  rw [not_or] at hn
  have hmin : min debt deposits ≤ debt := Amount.min_le_left debt deposits
  obtain ⟨collOffset, hoffset, hle⟩ := Amount.exists_part (a := coll) hn.2 hmin
  obtain ⟨debtSpread, hspread⟩ := Amount.exists_rest hmin
  obtain ⟨collSpread, hrest⟩ := Amount.exists_sub hle
  simp only [bind_eq_ok_iff]
  exact ⟨_, _, hoffset, _, Amount.minus_eq_ok_iff.2 hspread, _, hrest, rfl⟩

/-- Depositors cancel no more than there is. -/
theorem divide_offset_le {d : Division} (h : divide debt coll deposits = .ok d) :
    d.debtOffset ≤ deposits := by
  unfold divide at h
  split at h
  · cases h
    exact Nat.zero_le _
  simp only [bind_eq_ok_iff, pure_eq_ok_iff] at h
  obtain ⟨collOffset, -, debtSpread, -, collSpread, -, rfl⟩ := h
  exact Amount.min_le_right debt deposits

/-! ## The three splits -/

theorem exists_normal (hp : p.validate = .ok ()) (debt coll deposits : Amount) :
    ∃ s, normal debt coll deposits p = .ok s := by
  obtain ⟨reward, rest, hreward, hrest⟩ := exists_reward hp coll
  obtain ⟨d, hd⟩ := exists_division debt rest deposits
  simp only [normal, bind_eq_ok_iff]
  exact ⟨_, reward, hreward, rest, hrest, d, hd, rfl⟩

theorem normal_exact (h : normal debt coll deposits p = .ok s) (h0 : debt ≠ 0) :
    s.Exact debt coll deposits := by
  refine ⟨normal_complete h h0, ?_, normal_collOffset h⟩
  simp only [normal, bind_eq_ok_iff, pure_eq_ok_iff] at h
  obtain ⟨reward, -, rest, -, d, hd, rfl⟩ := h
  exact divide_offset_le hd

theorem exists_redistributed (hp : p.validate = .ok ()) (debt coll : Amount) :
    ∃ s, redistributed debt coll p = .ok s := by
  obtain ⟨reward, rest, hreward, hrest⟩ := exists_reward hp coll
  simp only [redistributed, bind_eq_ok_iff]
  exact ⟨_, reward, hreward, rest, hrest, rfl⟩

theorem redistributed_exact (h : redistributed debt coll p = .ok s) (h0 : debt ≠ 0) :
    s.Exact debt coll deposits := by
  have hcoll := redistributed_collOffset h
  refine ⟨redistributed_complete h h0, ?_, fun _ => hcoll⟩
  simp only [redistributed, bind_eq_ok_iff, pure_eq_ok_iff] at h
  obtain ⟨reward, -, rest, -, rfl⟩ := h
  exact Nat.zero_le _

/-- **A trove at the minimum ratio holds the cap.**  The ratio was rounded down, and so is the cap:
`minimumRatio * debt ≤ coll * price`, and what that leaves of `coll` is never less than nothing. -/
theorem exists_cap (hratio : Amount.ratio coll debt price = .ok ratio)
    (hmin : p.minimumRatio ≤ ratio) (h0 : debt ≠ 0) (hm : p.minimumRatio ≠ 0) :
    ∃ cap, debt.mulDiv p.minimumRatio price = .ok cap ∧ cap ≤ coll := by
  have hheld := (Amount.le_ratio_iff hratio).1 hmin
  rw [Amount.ne_zero_iff] at h0 hm
  have hprice : 0 < price.val := by
    by_contra hn
    rw [Nat.eq_zero_of_not_pos hn, Nat.mul_zero] at hheld
    exact absurd hheld (Nat.not_le.2 (Nat.mul_pos hm h0))
  have hcap : debt.val * p.minimumRatio.val / price.val ≤ coll.val := by
    refine Nat.div_le_of_le_mul ?_
    rw [Nat.mul_comm debt.val, Nat.mul_comm price.val]
    exact hheld
  obtain ⟨cap, hval, hle⟩ := Amount.exists_within hcap
  exact ⟨cap, Amount.mulDiv_eq_ok_iff.2 ⟨Amount.ne_zero_iff.2 hprice, hval⟩, hle⟩

theorem exists_capped (hp : p.validate = .ok ())
    (hratio : Amount.ratio coll debt price = .ok ratio) (hmin : p.minimumRatio ≤ ratio)
    (h0 : debt ≠ 0) : ∃ s, capped debt coll price p = .ok s := by
  have hm : p.minimumRatio ≠ 0 := by
    have hunit := (Parameters.consistent hp).unit_lt_minimum
    rw [Amount.lt_iff_val_lt] at hunit
    rw [Amount.ne_zero_iff]
    omega
  obtain ⟨cap, hcap, hle⟩ := exists_cap hratio hmin h0 hm
  obtain ⟨reward, rest, hreward, hrest⟩ := exists_reward hp cap
  obtain ⟨surplus, hsurplus⟩ := Amount.exists_sub hle
  simp only [capped, bind_eq_ok_iff]
  exact ⟨_, cap, hcap, reward, hreward, rest, hrest, surplus, hsurplus, rfl⟩

theorem capped_exact (h : capped debt coll price p = .ok s) (hle : debt ≤ deposits) :
    s.Exact debt coll deposits := by
  refine ⟨capped_complete h, ?_, capped_collOffset h⟩
  simp only [capped, bind_eq_ok_iff, pure_eq_ok_iff] at h
  obtain ⟨cap, -, reward, -, offset, -, surplus, -, rfl⟩ := h
  exact hle

/-! ## The choice -/

/-- In Recovery Mode a choice is always made. -/
theorem exists_inRecovery (hp : p.validate = .ok ())
    (hratio : Amount.ratio coll debt price = .ok ratio) (h0 : debt ≠ 0)
    (systemRatio deposits : Amount) :
    ∃ choice, inRecovery debt coll ratio systemRatio price deposits p = .ok choice := by
  unfold inRecovery
  split
  · obtain ⟨s, hs⟩ := exists_redistributed hp debt coll
    exact ⟨some s, bind_eq_ok_iff.2 ⟨s, hs, rfl⟩⟩
  split
  · obtain ⟨s, hs⟩ := exists_normal hp debt coll deposits
    exact ⟨some s, bind_eq_ok_iff.2 ⟨s, hs, rfl⟩⟩
  next hmin =>
  split
  · obtain ⟨s, hs⟩ := exists_capped hp hratio (Nat.le_of_not_lt hmin) h0
    exact ⟨some s, bind_eq_ok_iff.2 ⟨s, hs, rfl⟩⟩
  · exact ⟨none, rfl⟩

theorem inRecovery_exact
    (h : inRecovery debt coll ratio systemRatio price deposits p = .ok (some s)) (h0 : debt ≠ 0) :
    s.Exact debt coll deposits := by
  obtain ⟨-, h⟩ | ⟨-, h⟩ | ⟨-, hle, h⟩ := inRecovery_cases h
  · exact redistributed_exact h h0
  · exact normal_exact h h0
  · exact capped_exact h hle

/-- **Splitting never fails and loses nothing:** on validated parameters a trove with debt can be
split in Normal Mode, and in Recovery Mode it is split or left alone, by any ratio of the system
and with any deposits; every split that comes out is exact. -/
theorem splits_exact (hp : p.validate = .ok ()) (h0 : debt ≠ 0)
    (coll price systemRatio deposits : Amount) :
    (∃ s, normal debt coll deposits p = .ok s ∧ s.Exact debt coll deposits) ∧
      ∀ ratio, Amount.ratio coll debt price = .ok ratio →
        ∃ choice, inRecovery debt coll ratio systemRatio price deposits p = .ok choice ∧
          ∀ s, choice = some s → s.Exact debt coll deposits := by
  constructor
  · obtain ⟨s, hs⟩ := exists_normal hp debt coll deposits
    exact ⟨s, hs, normal_exact hs h0⟩
  · intro ratio hratio
    obtain ⟨choice, hchoice⟩ := exists_inRecovery hp hratio h0 systemRatio deposits
    refine ⟨choice, hchoice, ?_⟩
    rintro s rfl
    exact inRecovery_exact hchoice h0

/-- A trove just above the minimum ratio, in a system below one and a half: deposits cover it, its
collateral is capped, and what is above the cap goes back. -/
theorem splits_exact_capped :
    Amount.ratio (.whole 3) (.whole 2210) (.whole 820) = .ok ⟨1_113_122_171_945_701_357, by decide⟩ ∧
      (∃ s, inRecovery (.whole 2210) (.whole 3) ⟨1_113_122_171_945_701_357, by decide⟩
          Parameters.standard.criticalRatio (.whole 820) (.whole 3000) .standard = .ok (some s) ∧
        s.surplus.val = 35_365_853_658_536_586 ∧ s.debtSpread = 0 ∧
        s.Exact (.whole 2210) (.whole 3) (.whole 3000)) ∧
      ∃ s, normal (.whole 2210) (.whole 3) (.whole 1000) .standard = .ok s ∧
        s.Exact (.whole 2210) (.whole 3) (.whole 1000) := by
  have hvalid : Parameters.standard.validate = .ok () := by decide
  have hdebt : Amount.whole 2210 ≠ 0 := by decide
  have hratio : Amount.ratio (.whole 3) (.whole 2210) (.whole 820) =
      .ok ⟨1_113_122_171_945_701_357, by decide⟩ := by decide +kernel
  obtain ⟨-, hrecovery⟩ := splits_exact hvalid hdebt (.whole 3) (.whole 820)
    Parameters.standard.criticalRatio (.whole 3000)
  obtain ⟨choice, hchoice, hexact⟩ := hrecovery _ hratio
  refine ⟨hratio, ?_, (splits_exact hvalid hdebt (.whole 3) (.whole 820) 0 (.whole 1000)).1⟩
  obtain ⟨s, hs, hsurplus, hspread⟩ : ∃ s, inRecovery (.whole 2210) (.whole 3)
      ⟨1_113_122_171_945_701_357, by decide⟩ Parameters.standard.criticalRatio (.whole 820)
      (.whole 3000) .standard = .ok (some s) ∧
      s.surplus.val = 35_365_853_658_536_586 ∧ s.debtSpread = 0 :=
    ⟨_, rfl, by decide +kernel, rfl⟩
  exact ⟨s, hs, hsurplus, hspread, hexact s (Except.ok.inj (hchoice.symm.trans hs))⟩

end Split

end Stablecoin
