/-
  Stablecoin theory — spreading over changing stakes.

  What is spread is divided by the stakes of the time.  The remainder is kept for
  the next call, which divides it again, by the stakes that there are by then.

  * `Spreading` is a call that spreads something, with what it finds and leaves.  What
    there is to be divided goes into the growth of a sum, for each unit of stake, and
    into the new remainder, which is less than the stakes (`Spreading.balanced`);
  * `Spreading.Shared`: troves hold all the stakes, and have seen what was spread before
    the call.  They can claim what there was to be divided, but for the remainder and for
    less than one in the rounding of each share (`Shared.exists_shares`);
  * `Redistribution.Course` is a sequence of calls between which stakes change in any way:
    over all of them nothing is lost, and no more than one remainder is kept back
    (`Course.nothing_lost`).
-/
import Stablecoin.Proofs.DefaultPool

namespace Stablecoin

/-! ## Rounding of shares -/

/-- What shares come to on one side. -/
def PendingShare.sumOn (shares : List PendingShare) (side : Side) : Nat :=
  (shares.map (·.on side)).sum

namespace Redistribution

variable {r : Redistribution} {t : Trove} {troves : List Trove} {share : PendingShare}
  {shares : List PendingShare}

/-- Less than one is lost in rounding the share of an active trove. -/
theorem owed_lt (h : r.pending t = .ok share) (ha : t.isActive = true) (side : Side) :
    r.owed side t < (share.on side + 1) * Amount.unit.val := by
  have hshare := (pending_eq_ok_iff.1 h side).2
  rw [if_pos ha] at hshare
  rw [← Nat.div_lt_iff_lt_mul Amount.unit_pos, hshare]
  exact Nat.lt_succ_self _

theorem sum_owed_le (h : troves.mapM r.pending = .ok shares)
    (ha : ∀ t ∈ troves, t.isActive = true) (side : Side) :
    (troves.map (r.owed side)).sum ≤
      (PendingShare.sumOn shares side + troves.length) * Amount.unit.val := by
  induction troves generalizing shares with
  | nil => exact Nat.zero_le _
  | cons t rest ih =>
    rw [List.mapM_cons] at h
    simp only [bind_eq_ok_iff, pure_eq_ok_iff] at h
    obtain ⟨share, hshare, others, hothers, rfl⟩ := h
    have hone := owed_lt hshare (ha t List.mem_cons_self) side
    have hrest := ih hothers fun u hu => ha u (List.mem_cons_of_mem _ hu)
    simp only [PendingShare.sumOn, List.map_cons, List.sum_cons, List.length_cons] at hrest ⊢
    calc
      r.owed side t + (rest.map (r.owed side)).sum ≤
          (share.on side + 1) * Amount.unit.val +
            ((others.map (·.on side)).sum + rest.length) * Amount.unit.val :=
        Nat.add_le_add hone.le hrest
      _ = (share.on side + (others.map (·.on side)).sum + (rest.length + 1)) *
          Amount.unit.val := by ring

end Redistribution

/-! ## One call -/

/-- A call that spreads debt and is accepted, with what it finds and what it leaves. -/
structure Spreading where
  before : Redistribution
  coll : Amount
  debt : Amount
  after : Redistribution
  debt_ne : debt ≠ 0
  spread_eq : before.spread coll debt = .ok after

namespace Spreading

/-- The stakes of the time. -/
def stakes (c : Spreading) : Nat := c.before.totalStakes.val

/-- What is spread on one side. -/
def amount (c : Spreading) (side : Side) : Nat := side.of c.coll c.debt

/-- What there is to be divided, scaled by a unit: what is spread, and what was carried. -/
def divided (c : Spreading) (side : Side) : Nat :=
  c.amount side * Amount.unit.val + c.before.carry side

/-- The growth of one sum. -/
def growth (c : Spreading) (side : Side) : Nat := c.after.on side - c.before.on side

/-- Troves hold all the stakes, and have seen all that was spread before the call. -/
structure Shared (c : Spreading) (troves : List Trove) : Prop where
  active : ∀ t ∈ troves, t.isActive = true
  snapshot_eq : ∀ t ∈ troves, t.snapshot = c.before.snapshot
  stakes_eq : (troves.map fun t => t.stake.val).sum = c.stakes

variable {c : Spreading} {troves : List Trove}

/-- **What there is to be divided** is an amount, and goes to the stakes and into the new remainder,
which would not be enough for them. -/
theorem balanced (c : Spreading) (side : Side) :
    c.after.on side = c.before.on side + c.growth side ∧
      c.growth side * c.stakes + c.after.carry side = c.divided side ∧
      c.divided side < Amount.limit ∧ c.after.carry side < c.stakes := by
  obtain ⟨-, growth, hgrowth⟩ := Redistribution.spread_ok c.spread_eq c.debt_ne
  obtain ⟨hsum, hdivided, hlt, hcarry⟩ := hgrowth side
  have heq : c.growth side = growth side := by
    rw [Spreading.growth, hsum, Nat.add_sub_cancel_left]
  rw [heq]
  exact ⟨hsum, hdivided, hlt, hcarry⟩

namespace Shared

theorem owed_eq (h : c.Shared troves) {t : Trove} (ht : t ∈ troves) (side : Side) :
    c.after.owed side t = t.stake.val * c.growth side := by
  rw [Redistribution.owed, h.snapshot_eq t ht]
  rfl

theorem sum_owed (h : c.Shared troves) (side : Side) :
    (troves.map (c.after.owed side)).sum = c.growth side * c.stakes := by
  have hmap : troves.map (c.after.owed side) = troves.map fun t => t.stake.val * c.growth side :=
    List.map_congr_left fun t ht => h.owed_eq ht side
  rw [hmap, List.sum_map_mul_right, h.stakes_eq, Nat.mul_comm]

/-- No share is too large for an amount. -/
theorem exists_pending (h : c.Shared troves) {t : Trove} (ht : t ∈ troves) :
    ∃ share, c.after.pending t = .ok share := by
  have hlt : ∀ side, c.divided side < Amount.limit := fun side => (c.balanced side).2.2.1
  refine Redistribution.exists_pending ?_ ?_ hlt
  · intro side
    rw [h.snapshot_eq t ht, Redistribution.snapshot_on, (c.balanced side).1]
    exact Nat.le_add_right _ _
  · intro side
    have hone : c.after.owed side t ≤ (troves.map (c.after.owed side)).sum :=
      List.single_le_sum (fun _ _ => Nat.zero_le _) _ (List.mem_map_of_mem ht)
    have hdivided := (c.balanced side).2.1
    have hunit := Nat.le_mul_of_pos_right (c.divided side) Amount.unit_pos
    rw [h.sum_owed] at hone
    omega

/-- **The shares are what was divided, rounded down:** each by less than one, and all of them by
the remainder. -/
theorem exists_shares (h : c.Shared troves) :
    ∃ shares, troves.mapM c.after.pending = .ok shares ∧ ∀ side,
      (PendingShare.sumOn shares side : ℚ) ≤ c.divided side / Amount.unit.val ∧
      (c.divided side : ℚ) / Amount.unit.val - PendingShare.sumOn shares side <
        troves.length + c.stakes / Amount.unit.val := by
  obtain ⟨shares, hshares, hle⟩ := Redistribution.exists_shares fun t ht => h.exists_pending ht
  refine ⟨shares, hshares, ?_⟩
  intro side
  obtain ⟨-, hdivided, -, hcarry⟩ := c.balanced side
  have howed := Redistribution.sum_owed_le hshares h.active side
  have hclaimed : PendingShare.sumOn shares side * Amount.unit.val ≤ _ := hle side
  rw [h.sum_owed] at howed hclaimed
  -- between what is owed and what was divided stands the new remainder, which is below the stakes
  have hunit : (0 : ℚ) < Amount.unit.val := by exact_mod_cast Amount.unit_pos
  have hhigh : PendingShare.sumOn shares side * Amount.unit.val ≤ c.divided side := by omega
  have hlow : c.divided side <
      (troves.length + PendingShare.sumOn shares side) * Amount.unit.val + c.stakes := by
    rw [Nat.add_comm troves.length]
    omega
  constructor
  · rw [le_div_iff₀ hunit]
    exact_mod_cast hhigh
  · rw [sub_lt_iff_lt_add, div_lt_iff₀ hunit, add_right_comm, add_mul _ (_ / _),
      div_mul_cancel₀ _ hunit.ne']
    exact_mod_cast hlow

end Shared

end Spreading

/-! ## Calls in turn -/

namespace Redistribution

variable {r r' : Redistribution}

/-- Nothing happens to the sums and to what is carried: stakes are taken up, given up and noted. -/
def Restaked (r r' : Redistribution) : Prop :=
  ∃ total noted coll, r' = { r with
    totalStakes := total, stakesSnapshot := noted, collSnapshot := coll }

theorem Restaked.sums_eq (h : r.Restaked r') (side : Side) :
    r'.on side = r.on side ∧ r'.carry side = r.carry side := by
  obtain ⟨total, noted, coll, rfl⟩ := h
  exact ⟨rfl, rfl⟩

/-- Calls in turn, between which stakes change in any way. -/
inductive Course : Redistribution → List Spreading → Redistribution → Prop
  | done (r : Redistribution) : Course r [] r
  | call {r r' : Redistribution} {c : Spreading} {rest : List Spreading} :
    r.Restaked c.before → Course c.after rest r' → Course r (c :: rest) r'

namespace Course

variable {calls : List Spreading}

/-- What the sums have grown by, times the stakes of the time, and what is carried at last are what
was spread and what was carried at first. -/
theorem sum_eq (h : Course r calls r') (side : Side) :
    (calls.map fun c => c.growth side * c.stakes).sum + r'.carry side =
      (calls.map fun c => c.amount side * Amount.unit.val).sum + r.carry side := by
  induction h with
  | done => rfl
  | @call r r' c rest hr _ ih =>
    obtain ⟨-, hdivided, -, -⟩ := c.balanced side
    have hcarry := (hr.sums_eq side).2
    rw [Spreading.divided] at hdivided
    simp only [List.map_cons, List.sum_cons]
    omega

/-- What is carried at last would not be enough for the stakes of the last call. -/
theorem carry_lt (h : Course r calls r') (side : Side) :
    ∀ c ∈ calls.getLast?, r'.carry side < c.stakes := by
  induction h with
  | done => nofun
  | @call r r' c rest _ hrest ih =>
    cases hrest with
    | done =>
      rintro _ ⟨⟩
      exact (c.balanced side).2.2.2
    | call _ _ =>
      rw [List.getLast?_cons_cons]
      exact ih

/-- **Nothing is lost in spreading, however the stakes change** between the calls.  What is carried
at last is less than the last stakes, and after each call the troves that hold all stakes can claim
what there was to be divided, but for less than one for each of them and for the remainder. -/
theorem nothing_lost (h : Course r calls r') (side : Side) :
    (calls.map fun c => c.growth side * c.stakes).sum + r'.carry side =
        (calls.map fun c => c.amount side * Amount.unit.val).sum + r.carry side ∧
      (∀ c ∈ calls.getLast?, r'.carry side < c.stakes) ∧
      ∀ c ∈ calls, ∀ troves, c.Shared troves →
        ∃ shares, troves.mapM c.after.pending = .ok shares ∧
          (PendingShare.sumOn shares side : ℚ) ≤ c.divided side / Amount.unit.val ∧
          (c.divided side : ℚ) / Amount.unit.val - PendingShare.sumOn shares side <
            troves.length + c.stakes / Amount.unit.val := by
  refine ⟨h.sum_eq side, h.carry_lt side, ?_⟩
  intro c _ troves hshared
  obtain ⟨shares, hshares, hclaims⟩ := hshared.exists_shares
  exact ⟨shares, hshares, hclaims side⟩

/-- The least amounts that there are, spread over three. -/
def overThree : Spreading where
  before := { start with totalStakes := .ofWord 3 }
  coll := .ofWord 1
  debt := .ofWord 1
  after :=
    ⟨.ofWord 333_333_333_333_333_333, .ofWord 333_333_333_333_333_333, .ofWord 1, .ofWord 1,
      .ofWord 3, 0, 0⟩
  debt_ne := by decide
  spread_eq := by decide +kernel

/-- More of them, spread over seven, with what was carried. -/
def overSeven : Spreading where
  before := { overThree.after with totalStakes := .ofWord 7 }
  coll := .ofWord 2
  debt := .ofWord 5
  after :=
    ⟨.ofWord 619_047_619_047_619_047, .ofWord 1_047_619_047_619_047_618, .ofWord 3, .ofWord 6,
      .ofWord 7, 0, 0⟩
  debt_ne := by decide
  spread_eq := by decide +kernel

/-- A trove that shares in what was spread over seven. -/
def sharer (stake : Amount) : Trove :=
  { Trove.vacant .zero with
    stake := stake, status := .active, snapshot := overSeven.before.snapshot }

/-- Two troves that hold all seven. -/
def twoSharers : List Trove := [sharer (.ofWord 3), sharer (.ofWord 4)]

/-- Three are carried in the end; of the two that were spread last, the larger trove can claim
one, and the smaller one nothing. -/
theorem nothing_lost_changedStakes :
    Course start [overThree, overSeven] overSeven.after ∧
      overThree.growth .coll * 3 + overSeven.growth .coll * 7 + 3 = 3 * Amount.unit.val ∧
      overSeven.after.carry .coll < 7 ∧ overSeven.Shared twoSharers ∧
      ∃ shares, twoSharers.mapM overSeven.after.pending = .ok shares ∧
        shares.map (·.on .coll) = [0, 1] ∧
        (PendingShare.sumOn shares .coll : ℚ) ≤ overSeven.divided .coll / Amount.unit.val ∧
        (overSeven.divided .coll : ℚ) / Amount.unit.val - PendingShare.sumOn shares .coll <
          2 + 7 / Amount.unit.val := by
  have h : Course start [overThree, overSeven] overSeven.after :=
    .call ⟨_, _, _, rfl⟩ (.call ⟨_, _, _, rfl⟩ (.done _))
  have hshared : overSeven.Shared twoSharers :=
    ⟨by decide, by decide +kernel, by decide +kernel⟩
  obtain ⟨hsum, hlast, hclaims⟩ := h.nothing_lost .coll
  obtain ⟨shares, hshares, hle, hlt⟩ := hclaims overSeven (by simp) twoSharers hshared
  have hvalues : (twoSharers.mapM overSeven.after.pending).map (·.map (·.on .coll)) =
      .ok [0, 1] := by decide +kernel
  rw [hshares] at hvalues
  exact ⟨h, hsum, hlast overSeven rfl, hshared, shares, hshares, Except.ok.inj hvalues, hle, hlt⟩

end Course

end Redistribution

end Stablecoin
