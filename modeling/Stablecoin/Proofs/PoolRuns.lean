/-
  Stablecoin theory — histories of a stability pool.

  * `StabilityPool.obey` makes one call, and `StabilityPool.after` a list of them;
    a call that is refused leaves the pool as it was;
  * `StabilityPool.attempt` and `StabilityPool.accept` do so where every call is to be
    accepted;
  * `StabilityPool.obey_cases`: a call changes nothing, or rewrites one deposit, or
    absorbs a liquidation;
  * `StabilityPool.bare` is the pool without what it holds: values of a deposit depend
    on it and on the deposit (`values_congr`);
  * `StabilityPool.Valid` is what holds of the factors of every pool that calls lead
    to (`valid_after`): deposits were written at factors that the pool went through,
    and sums that are still to come are zero.
-/
import Stablecoin.Proofs.PoolChanges
import Stablecoin.Proofs.Totals

namespace Stablecoin

/-- A call of a pool. -/
inductive PoolCall
  | deposit (owner : Address) (amount : Amount)
  | withdraw (owner : Address) (amount : Amount)
  | offset (debt coll : Amount)

/-- The account that a call writes; an offset writes none. -/
def PoolCall.owner? : PoolCall → Option Address
  | .deposit owner _ | .withdraw owner _ => some owner
  | .offset _ _ => none

/-- A deposit was written at factors that a pool has gone through. -/
structure Deposit.FitsIn (s : StabilityPool) (d : Deposit) : Prop where
  product_pos : 0 < d.snapshot.product.val
  epoch_le : d.snapshot.epoch.toNat ≤ s.epoch.toNat
  scale_le : d.snapshot.epoch = s.epoch → d.snapshot.scale.toNat ≤ s.scale.toNat
  sum_le : d.snapshot.sum.val ≤ (s.sumAt d.snapshot.epoch d.snapshot.scale).val

namespace StabilityPool

variable {s t : StabilityPool} {owner other : Address} {debt coll factor product : Amount}
  {epoch scale : UInt64} {c : PoolCall}

/-! ## Calls -/

/-- The pool that an attempt leads to, or the pool as it was. -/
def orSame (s : StabilityPool) : Attempt StabilityPool → StabilityPool
  | .ok t => t
  | .error _ => s

/-- The pool after a call. -/
def obey (s : StabilityPool) : PoolCall → StabilityPool
  | .deposit owner amount => s.orSame ((s.deposit owner amount).map Prod.snd)
  | .withdraw owner amount => s.orSame ((s.withdraw owner amount).map Prod.snd)
  | .offset debt coll => s.orSame (s.offset debt coll)

/-- The pool after calls. -/
def after (s : StabilityPool) (calls : List PoolCall) : StabilityPool := calls.foldl obey s

/-- The pool that a call leads to if it is accepted. -/
def attempt (s : StabilityPool) : PoolCall → Attempt StabilityPool
  | .deposit owner amount => (s.deposit owner amount).map Prod.snd
  | .withdraw owner amount => (s.withdraw owner amount).map Prod.snd
  | .offset debt coll => s.offset debt coll

/-- The pool that calls lead to if all of them are accepted. -/
def accept (s : StabilityPool) (calls : List PoolCall) : Attempt StabilityPool :=
  calls.foldlM attempt s

theorem obey_eq (s : StabilityPool) (c : PoolCall) : s.obey c = s.orSame (s.attempt c) := by
  cases c <;> rfl

theorem accept_nil_eq_ok_iff : s.accept [] = .ok t ↔ s = t := pure_eq_ok_iff

theorem accept_cons_eq_ok_iff {rest : List PoolCall} :
    s.accept (c :: rest) = .ok t ↔ ∃ u, s.attempt c = .ok u ∧ u.accept rest = .ok t := by
  rw [accept, List.foldlM_cons, bind_eq_ok_iff]
  rfl

/-- Calls that are accepted are made. -/
theorem after_of_accept {calls : List PoolCall} (h : s.accept calls = .ok t) :
    s.after calls = t := by
  induction calls generalizing s with
  | nil => exact accept_nil_eq_ok_iff.1 h
  | cons c rest ih =>
    obtain ⟨u, hu, hrest⟩ := accept_cons_eq_ok_iff.1 h
    rw [after, List.foldl_cons, obey_eq, hu]
    exact ih hrest

/-- Either the attempt succeeds, or nothing changes. -/
theorem orSame_cases (x : Attempt StabilityPool) : s.orSame x = s ∨ x = .ok (s.orSame x) := by
  cases x with
  | error stop => exact Or.inl rfl
  | ok t => exact Or.inr rfl

theorem map_snd_eq_ok {α : Type} {x : Attempt (α × StabilityPool)} (h : x.map Prod.snd = .ok t) :
    ∃ a, x = .ok (a, t) := by
  rcases x with stop | ⟨a, u⟩
  · cases h
  · cases h
    exact ⟨a, rfl⟩

/-- A call that is accepted changes nothing, or rewrites the deposit of its account, or absorbs a
liquidation. -/
theorem attempt_cases (h : s.attempt c = .ok t) :
    t = s ∨ (∃ owner change, c.owner? = some owner ∧ Rewriting s owner change t) ∨
      ∃ debt coll, c = .offset debt coll ∧ Nonempty (Absorption s debt coll t) := by
  cases c with
  | deposit owner amount =>
    obtain ⟨change, h⟩ := map_snd_eq_ok h
    exact Or.inr (Or.inl ⟨owner, change, rfl, (deposit_ok h).1⟩)
  | withdraw owner amount =>
    obtain ⟨change, h⟩ := map_snd_eq_ok h
    exact Or.inr (Or.inl ⟨owner, change, rfl, (withdraw_ok h).1⟩)
  | offset debt coll =>
    obtain ⟨-, h⟩ | h := offset_cases h
    · exact Or.inl h
    · exact Or.inr (Or.inr ⟨debt, coll, rfl, h⟩)

/-- A call changes nothing, or rewrites the deposit of its account, or absorbs a liquidation. -/
theorem obey_cases (s : StabilityPool) (c : PoolCall) :
    s.obey c = s ∨ (∃ owner change, c.owner? = some owner ∧ Rewriting s owner change (s.obey c)) ∨
      ∃ debt coll, c = .offset debt coll ∧ Nonempty (Absorption s debt coll (s.obey c)) := by
  rw [obey_eq]
  obtain h | h := orSame_cases (s := s) (s.attempt c)
  · exact Or.inl h
  · exact attempt_cases h

/-! ## Factors -/

/-- Rewriting a deposit leaves the factors as they were. -/
theorem Rewriting.factors {change : DepositChange} (h : Rewriting s owner change t) :
    t.product = s.product ∧ t.epoch = s.epoch ∧ t.scale = s.scale ∧ t.sums = s.sums ∧
      t.collCarry = s.collCarry ∧ t.accounts = s.accountsWith owner change.deposit := by
  rw [h.pool_eq]
  exact ⟨rfl, rfl, rfl, rfl, rfl, rfl⟩

theorem Rewriting.sumAt_eq {change : DepositChange} (h : Rewriting s owner change t)
    (epoch scale : UInt64) : t.sumAt epoch scale = s.sumAt epoch scale := by
  rw [sumAt, h.factors.2.2.2.1, sumAt]

/-- The deposits of others stay, and a deposit of nothing is dropped. -/
theorem get?_accountsWith (s : StabilityPool) (owner : Address) (amount : Amount) (a : Address) :
    (s.accountsWith owner amount).get? a =
      if a = owner then if amount = 0 then none else some ⟨amount, s.snapshot⟩
      else s.account a := by
  unfold accountsWith
  split
  · exact Table.get?_erase_of _ _ _
  · exact Table.get?_insert_of _ _ _ _

theorem account_accountsWith (s : StabilityPool) (owner : Address) (amount : Amount)
    {a : Address} {d : Deposit} (h : (s.accountsWith owner amount).get? a = some d) :
    s.account a = some d ∨ d = ⟨amount, s.snapshot⟩ := by
  rw [get?_accountsWith] at h
  split at h
  · split at h
    · cases h
    · exact Or.inr (Option.some.inj h).symm
  · exact Or.inl h

theorem Rewriting.account_eq {change : DepositChange} (h : Rewriting s owner change t)
    (ho : other ≠ owner) : t.account other = s.account other := by
  rw [account, h.factors.2.2.2.2.2, get?_accountsWith, if_neg ho]

/-- The pool without what it holds. -/
def bare (s : StabilityPool) : StabilityPool :=
  { s with deposits := 0, coll := 0, accounts := .empty }

/-- A pool is told by its factors and by what it holds. -/
theorem eq_of_bare (hbare : s.bare = t.bare) (hdeposits : s.deposits = t.deposits)
    (hcoll : s.coll = t.coll) (haccounts : s.accounts = t.accounts) : s = t := by
  cases s
  cases t
  simp_all [bare]

theorem snapshot_congr (hbare : s.bare = t.bare) : s.snapshot = t.snapshot :=
  (congrArg snapshot hbare :)

/-- What a deposit is worth and has gained depends on the deposit and on the factors. -/
theorem values_congr (hbare : s.bare = t.bare) (haccount : s.account owner = t.account owner) :
    s.compounded owner = t.compounded owner ∧ s.gain owner = t.gain owner := by
  have hworth : s.worth = t.worth := (congrArg worth hbare :)
  have hgain : s.gainOf = t.gainOf := (congrArg gainOf hbare :)
  simp only [compounded, gain, haccount, hworth, hgain, and_self]

theorem Rewriting.bare_eq {change : DepositChange} (h : Rewriting s owner change t) :
    t.bare = s.bare := by
  rw [h.pool_eq]
  rfl

/-- **Writing one deposit anew leaves the others their worth and their gain,** because the factors
stay. -/
theorem Rewriting.others_eq {change : DepositChange} (h : Rewriting s owner change t)
    (ho : other ≠ owner) :
    t.compounded other = s.compounded other ∧ t.gain other = s.gain other :=
  values_congr h.bare_eq (h.account_eq ho)

/-- A liquidation begins an epoch, or goes on in the present one at this scale or the next. -/
theorem Absorption.factors (b : Absorption s debt coll t) :
    (t.epoch.toNat = s.epoch.toNat + 1 ∧ t.scale = 0) ∨
      (t.epoch = s.epoch ∧ t.scale = s.scale ∧
        t.product.val = s.product.val * b.factor.val / Amount.unit.val) ∨
      (t.epoch = s.epoch ∧ t.scale.toNat = s.scale.toNat + 1 ∧
        t.product.val = s.product.val * b.factor.val * scaleFactor.val / Amount.unit.val) := by
  obtain ⟨-, -, he, hs⟩ | ⟨-, -, he, hs, hp⟩ | ⟨-, -, he, hs, hp⟩ := shrunk_cases b.shrunk_eq
  · exact Or.inl ⟨nextCount_eq_ok_iff.1 he, hs⟩
  · exact Or.inr (Or.inl ⟨he, hs, hp⟩)
  · exact Or.inr (Or.inr ⟨he, nextCount_eq_ok_iff.1 hs, hp⟩)

theorem Absorption.factor_le (b : Absorption s debt coll t) : b.factor ≤ Amount.unit := by
  rw [Amount.le_iff_val_le, b.factor_eq]
  exact Nat.le_add_right _ _

/-- The product stays at a unit at most: it is scaled up only from below the least one. -/
theorem shrunk_le (hp : s.product ≤ Amount.unit) (hf : factor ≤ Amount.unit)
    (h : s.shrunk factor = .ok (product, epoch, scale)) : product ≤ Amount.unit := by
  rw [Amount.le_iff_val_le] at hp hf ⊢
  obtain ⟨-, rfl, -⟩ | ⟨-, -, -, -, hproduct⟩ | ⟨-, hlt, -, -, hproduct⟩ := shrunk_cases h
  · exact Nat.le_refl _
  · rw [hproduct]
    exact Nat.div_le_of_le_mul (Nat.mul_le_mul hp hf)
  · rw [hproduct]
    refine Nat.div_le_of_le_mul ?_
    have hunit : Amount.unit.val * Amount.unit.val =
        scaleFactor.val * Amount.unit.val * scaleFactor.val := by decide
    rw [hunit]
    exact Nat.mul_le_mul_right _ (Nat.le_of_lt hlt)

theorem product_le_obey (hs : s.product ≤ Amount.unit) (c : PoolCall) :
    (s.obey c).product ≤ Amount.unit := by
  obtain h | ⟨owner, change, -, h⟩ | ⟨debt, coll, rfl, ⟨b⟩⟩ := s.obey_cases c
  · rw [h]
    exact hs
  · rw [h.factors.1]
    exact hs
  · exact shrunk_le hs b.factor_le b.shrunk_eq

theorem product_le_after (hs : s.product ≤ Amount.unit) (calls : List PoolCall) :
    (s.after calls).product ≤ Amount.unit := by
  induction calls generalizing s with
  | nil => exact hs
  | cons c rest ih => exact ih (product_le_obey hs c)

theorem Absorption.accounts_eq (b : Absorption s debt coll t) : t.accounts = s.accounts := by
  rw [b.pool_eq]

/-- A liquidation writes the sum of the present epoch and scale. -/
theorem Absorption.sumAt_eq (b : Absorption s debt coll t) (epoch scale : UInt64) :
    t.sumAt epoch scale =
      if epoch = s.epoch ∧ scale = s.scale then b.sum else s.sumAt epoch scale := by
  have hsums : t.sums =
      s.sums.insert s.epoch (((s.sums.get? s.epoch).getD .empty).insert s.scale b.sum) :=
    congrArg sums b.pool_eq
  unfold sumAt
  rw [hsums, Table.get?_insert_of]
  by_cases he : epoch = s.epoch
  · rw [if_pos he, Option.bind_some, Table.get?_insert_of, he]
    by_cases hs : scale = s.scale
    · simp [hs]
    · rw [if_neg hs, if_neg (fun h => hs h.2)]
      cases s.sums.get? s.epoch <;> rfl
  · rw [if_neg he, if_neg (fun h => he h.1)]

theorem Absorption.sumAt_le (b : Absorption s debt coll t) (epoch scale : UInt64) :
    (s.sumAt epoch scale).val ≤ (t.sumAt epoch scale).val := by
  have hsum := b.sum_eq
  rw [b.sumAt_eq]
  split
  · next h =>
    rw [h.1, h.2]
    omega
  · exact le_rfl

/-! ## Validity -/

/-- The factors of a pool, and those at which its deposits were written. -/
structure Valid (s : StabilityPool) : Prop where
  product_pos : 0 < s.product.val
  fits : ∀ owner d, s.account owner = some d → d.FitsIn s
  /-- Sums that are still to come are zero. -/
  sumAt_eq_zero : ∀ epoch scale, s.epoch.toNat < epoch.toNat ∨
    epoch = s.epoch ∧ s.scale.toNat < scale.toNat → s.sumAt epoch scale = 0

theorem valid_empty : Valid empty := ⟨by decide, nofun, fun _ _ _ => rfl⟩

/-- A deposit that is written now fits in. -/
theorem Valid.fits_snapshot (hs : Valid s) (amount : Amount) :
    Deposit.FitsIn s ⟨amount, s.snapshot⟩ :=
  ⟨hs.product_pos, le_rfl, fun _ => le_rfl, le_rfl⟩

/-- What fitted in before a liquidation fits in after it. -/
theorem Absorption.fits (b : Absorption s debt coll t) {d : Deposit} (hd : d.FitsIn s) :
    d.FitsIn t := by
  have hepoch := hd.epoch_le
  have hscale := hd.scale_le
  refine ⟨hd.product_pos, ?_, ?_, hd.sum_le.trans (b.sumAt_le _ _)⟩
  · obtain ⟨he, -⟩ | ⟨he, -⟩ | ⟨he, -⟩ := b.factors
    · omega
    · exact he ▸ hepoch
    · exact he ▸ hepoch
  · intro he
    obtain ⟨hn, -⟩ | ⟨hn, hsc, -⟩ | ⟨hn, hsc, -⟩ := b.factors
    · rw [he] at hepoch
      omega
    · exact hsc ▸ hscale (he.trans hn)
    · have := hscale (he.trans hn)
      omega

/-- Rewriting a deposit leaves the others where they fit in. -/
theorem Rewriting.fits {change : DepositChange} (h : Rewriting s owner change t) {d : Deposit}
    (hd : d.FitsIn s) : d.FitsIn t := by
  obtain ⟨-, he, hsc, -⟩ := h.factors
  refine ⟨hd.product_pos, he ▸ hd.epoch_le, ?_, h.sumAt_eq _ _ ▸ hd.sum_le⟩
  intro hepoch
  exact hsc ▸ hd.scale_le (hepoch.trans he)

theorem Rewriting.valid {change : DepositChange} (h : Rewriting s owner change t) (hs : Valid s) :
    Valid t := by
  obtain ⟨hp, he, hsc, -, -, ha⟩ := h.factors
  refine ⟨hp ▸ hs.product_pos, ?_, ?_⟩
  · intro a d hd
    rw [account, ha] at hd
    obtain hd | rfl := account_accountsWith s owner change.deposit hd
    · exact h.fits (hs.fits a d hd)
    · exact h.fits (hs.fits_snapshot change.deposit)
  · intro epoch scale hlt
    rw [he, hsc] at hlt
    rw [h.sumAt_eq]
    exact hs.sumAt_eq_zero epoch scale hlt

theorem Absorption.valid (b : Absorption s debt coll t) (hs : Valid s) : Valid t := by
  refine ⟨Amount.ne_zero_iff.1 b.product_ne, ?_, ?_⟩
  · intro a d hd
    rw [account, b.accounts_eq] at hd
    exact b.fits (hs.fits a d hd)
  · intro epoch scale hlt
    have hbehind : s.epoch.toNat < epoch.toNat ∨ epoch = s.epoch ∧ s.scale.toNat < scale.toNat := by
      obtain ⟨he, hsc⟩ | ⟨he, hsc, -⟩ | ⟨he, hsc, -⟩ := b.factors
      · left
        obtain hlt | ⟨heq, -⟩ := hlt
        · omega
        · rw [heq]
          omega
      · rwa [he, hsc] at hlt
      · obtain hlt | ⟨heq, hlt⟩ := hlt
        · exact Or.inl (he ▸ hlt)
        · exact Or.inr ⟨heq.trans he, by omega⟩
    rw [b.sumAt_eq, if_neg]
    · exact hs.sumAt_eq_zero epoch scale hbehind
    · rintro ⟨rfl, rfl⟩
      omega

theorem valid_obey (hs : Valid s) (c : PoolCall) : Valid (s.obey c) := by
  obtain h | ⟨owner, change, -, h⟩ | ⟨debt, coll, -, ⟨b⟩⟩ := s.obey_cases c
  · rw [h]
    exact hs
  · exact h.valid hs
  · exact b.valid hs

/-- Calls lead to valid pools only. -/
theorem valid_after (hs : Valid s) (calls : List PoolCall) : Valid (s.after calls) := by
  induction calls generalizing s with
  | nil => exact hs
  | cons c rest ih => exact ih (valid_obey hs c)

/-! ## Sums over deposits -/

/-- What rewriting a deposit does to a sum over deposits. -/
theorem sum_accountsWith {M : Type} [AddCommMonoid M] (f : Deposit → M) (s : StabilityPool)
    (owner : Address) (amount : Amount) (h0 : f ⟨0, s.snapshot⟩ = 0) :
    (s.accountsWith owner amount).sum f + s.accounts.part f owner =
      s.accounts.sum f + f ⟨amount, s.snapshot⟩ := by
  unfold accountsWith
  split
  · next h => rw [Table.sum_erase, h, h0, add_zero]
  · exact Table.sum_insert f s.accounts owner _

end StabilityPool

end Stablecoin
