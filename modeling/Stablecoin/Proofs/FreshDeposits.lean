/-
  Stablecoin theory — deposits that were just written.

  Every deposit and withdrawal writes the deposit of its owner anew and pays the gain.
  Until the next liquidation there is nothing more to pay, whatever others do.

  * `StabilityPool.IsFresh`: the deposit of an account was written at the factors of the
    pool.  Whoever writes it leaves it fresh, and calls of others keep it so;
  * `IsFresh.compounded_eq` and `IsFresh.gain_eq_zero`: it is worth what was written, and
    has gained nothing;
  * `StabilityPool.Ahead`: two pools that differ in one deposit alone.  Calls of others
    keep them so (`Ahead.accept`), which is why two deposits can be taken together;
  * `StabilityPool.gains_paid_once` puts the two together.
-/
import Stablecoin.Proofs.EarlyClaims
import Stablecoin.Proofs.PoolPrecision

namespace Stablecoin

/-- A call by which another account than the owner's is written. -/
def PoolCall.isOthers (owner : Address) (c : PoolCall) : Bool :=
  match c.owner? with
  | some writer => writer != owner
  | none => false

namespace StabilityPool

variable {s t u : StabilityPool} {owner : Address} {amount g : Amount} {change : DepositChange}
  {c : PoolCall} {calls : List PoolCall}

theorem attempt_of_isOthers (hc : c.isOthers owner = true) (h : s.attempt c = .ok t) :
    ∃ writer change, writer ≠ owner ∧ Rewriting s writer change t := by
  cases c with
  | deposit writer amount =>
    obtain ⟨change, h⟩ := map_snd_eq_ok h
    exact ⟨writer, change, bne_iff_ne.1 hc, (deposit_ok h).1⟩
  | withdraw writer amount =>
    obtain ⟨change, h⟩ := map_snd_eq_ok h
    exact ⟨writer, change, bne_iff_ne.1 hc, (withdraw_ok h).1⟩
  | offset debt coll => cases hc

/-! ## Fresh deposits -/

/-- The deposit of an account is an amount that was written at the factors of the pool; a deposit of
nothing is none. -/
def IsFresh (s : StabilityPool) (owner : Address) (amount : Amount) : Prop :=
  s.account owner = if amount = 0 then none else some ⟨amount, s.snapshot⟩

/-- Whoever writes a deposit leaves it fresh. -/
theorem Rewriting.isFresh (h : Rewriting s owner change t) : t.IsFresh owner change.deposit := by
  rw [IsFresh, account, h.factors.2.2.2.2.2, get?_accountsWith, if_pos rfl,
    snapshot_congr h.bare_eq]

theorem IsFresh.obey (h : s.IsFresh owner amount) (hc : c.isOthers owner = true) :
    (s.obey c).IsFresh owner amount ∧ (s.obey c).scale = s.scale := by
  rw [obey_eq]
  obtain hsame | hmade := orSame_cases (s := s) (s.attempt c)
  · rw [hsame]
    exact ⟨h, rfl⟩
  · obtain ⟨writer, change, hne, hw⟩ := attempt_of_isOthers hc hmade
    exact ⟨(hw.account_eq hne.symm).trans (snapshot_congr hw.bare_eq ▸ h), hw.factors.2.2.1⟩

theorem IsFresh.after (h : s.IsFresh owner amount) (hcalls : ∀ c ∈ calls, c.isOthers owner = true) :
    (s.after calls).IsFresh owner amount ∧ (s.after calls).scale = s.scale := by
  induction calls generalizing s with
  | nil => exact ⟨h, rfl⟩
  | cons c rest ih =>
    obtain ⟨hc, hrest⟩ := List.forall_mem_cons.1 hcalls
    obtain ⟨hnext, hscale⟩ := h.obey hc
    obtain ⟨hlast, hscale'⟩ := ih hnext hrest
    exact ⟨hlast, hscale'.trans hscale⟩

/-- A fresh deposit is worth what was written. -/
theorem IsFresh.compounded_eq (h : s.IsFresh owner amount) (hs : Valid s) (hk : Kept s) :
    s.compounded owner = .ok amount := by
  unfold IsFresh at h
  split at h
  · next h0 => rw [compounded, h, h0]
  · rw [compounded_of_account h, (keptIn_snapshot hk.product_le amount).worth_eq_ok_iff
      hs.product_pos ⟨rfl, rfl⟩]
    exact (Nat.mul_div_cancel _ hs.product_pos).symm

theorem sumSince_snapshot (hs : Valid s) : s.sumSince s.snapshot = 0 := by
  have hsince := sumSince_of_isCurrent (d := ⟨0, s.snapshot⟩) hs ⟨rfl, rfl⟩
  exact hsince.trans (Nat.sub_self _)

/-- A fresh deposit has gained nothing. -/
theorem IsFresh.gain_eq_zero (h : s.IsFresh owner amount) (hs : Valid s)
    (hg : s.gain owner = .ok g) : g = 0 := by
  unfold IsFresh at h
  split at h
  · rw [gain, h] at hg
    exact (Except.ok.inj hg).symm
  · rw [gain_of_account h] at hg
    apply Amount.ext
    rw [(gainOf_eq_ok_iff.1 hg).2.2.2, sumSince_snapshot hs, Nat.mul_zero, Nat.zero_div,
      Nat.zero_div, Amount.val_zero]

/-- And it can be told so, unless there is no scale after the present one. -/
theorem IsFresh.gain_eq (h : s.IsFresh owner amount) (hs : Valid s) (hscale : ¬ Filled s.scale) :
    s.gain owner = .ok 0 := by
  unfold IsFresh at h
  split at h
  · rw [gain, h]
  · rw [gain_of_account h, gainOf_eq_ok_iff]
    simp only [sumSince_snapshot hs, Nat.mul_zero, Nat.zero_div, Amount.val_zero, and_true]
    exact ⟨⟨le_refl (s.sumAt s.epoch s.scale).val, Amount.ne_zero_iff.2 hs.product_pos,
      exists_nextCount hscale⟩, by decide, by decide⟩

/-- **Once a gain is paid there is nothing more to pay,** and the deposit is worth what was written,
as long as only others make calls that are no liquidations. -/
theorem Rewriting.paid (h : Rewriting s owner change t) (hs : Valid s) (hk : Kept s)
    (calls : List PoolCall) (hcalls : ∀ c ∈ calls, c.isOthers owner = true) :
    (t.after calls).compounded owner = .ok change.deposit ∧
      (∀ g, (t.after calls).gain owner = .ok g → g = 0) ∧
      (¬ Filled s.scale → (t.after calls).gain owner = .ok 0) := by
  have hvalid := valid_after (h.valid hs) calls
  have hkept := kept_after (h.valid hs) (h.kept hk) calls
  obtain ⟨hfresh, hscale⟩ := h.isFresh.after hcalls
  refine ⟨hfresh.compounded_eq hvalid hkept, fun _ => hfresh.gain_eq_zero hvalid, ?_⟩
  intro hnext
  rw [← h.factors.2.2.1, ← hscale] at hnext
  exact hfresh.gain_eq hvalid hnext

/-! ## One deposit ahead -/

/-- One pool is ahead of the other by what one owner has deposited. -/
structure Ahead (s t : StabilityPool) (owner : Address) (more : ℕ) : Prop where
  bare_eq : t.bare = s.bare
  deposits_eq : t.deposits.val = s.deposits.val + more
  coll_eq : t.coll = s.coll
  others_eq : ∀ other, other ≠ owner → t.account other = s.account other

variable {s' t' v : StabilityPool} {writer : Address} {change' : DepositChange} {more : ℕ}

/-- To write the deposit of another anew is the same in both. -/
theorem Ahead.rewriting (h : Ahead s t owner more) (hne : writer ≠ owner)
    (hs : Rewriting s writer change s') (ht : Rewriting t writer change' t')
    (hmoved : t'.deposits.val + s.deposits.val = t.deposits.val + s'.deposits.val) :
    Ahead s' t' owner more := by
  obtain ⟨hcompounded, hgain⟩ := values_congr h.bare_eq (h.others_eq writer hne)
  rw [hs.compounded_eq, ht.compounded_eq, Except.ok.injEq] at hcompounded
  rw [hs.gain_eq, ht.gain_eq, Except.ok.injEq] at hgain
  have hdeposit : change'.deposit = change.deposit := by
    have := hs.deposits_eq
    have := ht.deposits_eq
    rw [hcompounded] at this
    exact Amount.ext (by omega)
  refine ⟨?_, ?_, ?_, ?_⟩
  · rw [ht.bare_eq, hs.bare_eq, h.bare_eq]
  · have := h.deposits_eq
    omega
  · have hcoll := hs.coll_eq
    have hcoll' := ht.coll_eq
    rw [h.coll_eq, hgain] at hcoll'
    exact Amount.ext (by omega)
  · intro other ho
    rw [account, account, hs.factors.2.2.2.2.2, ht.factors.2.2.2.2.2, get?_accountsWith,
      get?_accountsWith, hdeposit, snapshot_congr h.bare_eq, h.others_eq other ho]

theorem Ahead.attempt (h : Ahead s t owner more) (hc : c.isOthers owner = true)
    (hs : s.attempt c = .ok s') (ht : t.attempt c = .ok t') : Ahead s' t' owner more := by
  cases c with
  | deposit writer amount =>
    obtain ⟨change, hs⟩ := map_snd_eq_ok hs
    obtain ⟨change', ht⟩ := map_snd_eq_ok ht
    obtain ⟨hw, hdeposits⟩ := deposit_ok hs
    obtain ⟨hw', hdeposits'⟩ := deposit_ok ht
    exact h.rewriting (bne_iff_ne.1 hc) hw hw' (by omega)
  | withdraw writer amount =>
    obtain ⟨change, hs⟩ := map_snd_eq_ok hs
    obtain ⟨change', ht⟩ := map_snd_eq_ok ht
    obtain ⟨hw, hwithdrawn, hdeposits⟩ := withdraw_ok hs
    obtain ⟨hw', hwithdrawn', hdeposits'⟩ := withdraw_ok ht
    have hsame : change'.withdrawn = change.withdrawn := by
      obtain ⟨hcompounded, -⟩ := values_congr h.bare_eq (h.others_eq writer (bne_iff_ne.1 hc))
      rw [hw.compounded_eq, hw'.compounded_eq, Except.ok.injEq] at hcompounded
      rw [hwithdrawn, hwithdrawn', hcompounded]
    rw [hsame] at hdeposits'
    exact h.rewriting (bne_iff_ne.1 hc) hw hw' (by omega)
  | offset debt coll => cases hc

theorem Ahead.accept (h : Ahead s t owner more) (hcalls : ∀ c ∈ calls, c.isOthers owner = true)
    (hs : s.accept calls = .ok s') (ht : t.accept calls = .ok t') : Ahead s' t' owner more := by
  induction calls generalizing s t with
  | nil =>
    rw [accept_nil_eq_ok_iff] at hs ht
    exact hs ▸ ht ▸ h
  | cons c rest ih =>
    obtain ⟨hc, hrest⟩ := List.forall_mem_cons.1 hcalls
    obtain ⟨_, hs, hs'⟩ := accept_cons_eq_ok_iff.1 hs
    obtain ⟨_, ht, ht'⟩ := accept_cons_eq_ok_iff.1 ht
    exact ih (h.attempt hc hs ht) hrest hs' ht'

/-! ## Two deposits -/

/-- Two deposits of an owner, with calls of others in between, pay gains and lead to a pool. -/
def DepositsTwice (s : StabilityPool) (owner : Address) (a b : Amount) (others : List PoolCall)
    (paid : ℕ) (u : StabilityPool) : Prop :=
  ∃ x t y v, s.deposit owner a = .ok (x, t) ∧ t.accept others = .ok v ∧
    v.deposit owner b = .ok (y, u) ∧ paid = x.gain.val + y.gain.val

/-- One deposit and then the calls of others. -/
def DepositsOnce (s : StabilityPool) (owner : Address) (both : Amount) (others : List PoolCall)
    (paid : ℕ) (u : StabilityPool) : Prop :=
  ∃ x t, s.deposit owner both = .ok (x, t) ∧ t.accept others = .ok u ∧ paid = x.gain.val

variable {a b both : Amount} {others : List PoolCall} {paid paid' : ℕ} {u' : StabilityPool}

/-- A deposit adds to what the deposit is worth. -/
theorem deposit_eq {change : DepositChange} (h : s.deposit owner amount = .ok (change, t)) :
    change.deposit.val = change.compounded.val + amount.val := by
  obtain ⟨hw, hdeposits⟩ := deposit_ok h
  have := hw.deposits_eq
  omega

/-- A larger deposit leads ahead of a smaller one by the difference, and pays the same. -/
theorem ahead_of_deposit (h : s.deposit owner a = .ok (change, t))
    (h' : s.deposit owner both = .ok (change', t')) (hboth : both.val = a.val + b.val) :
    Ahead t t' owner b.val ∧ change'.deposit.val = change.deposit.val + b.val ∧
      change'.gain = change.gain := by
  obtain ⟨hw, hdeposits⟩ := deposit_ok h
  obtain ⟨hw', hdeposits'⟩ := deposit_ok h'
  have hcompounded : change'.compounded = change.compounded :=
    Except.ok.inj (hw'.compounded_eq.symm.trans hw.compounded_eq)
  have hgain : change'.gain = change.gain := Except.ok.inj (hw'.gain_eq.symm.trans hw.gain_eq)
  have hnew := deposit_eq h
  have hnew' := deposit_eq h'
  have hcoll := hw.coll_eq
  have hcoll' := hw'.coll_eq
  rw [hcompounded] at hnew'
  rw [hgain] at hcoll'
  refine ⟨⟨hw'.bare_eq.trans hw.bare_eq.symm, by omega, Amount.ext (by omega), ?_⟩, by omega, hgain⟩
  intro other ho
  rw [hw'.account_eq ho, hw.account_eq ho]

/-- A deposit of the difference makes up for it, if there is no gain to pay. -/
theorem Ahead.eq_of_deposit {written new : Amount} (h : Ahead s t owner amount.val)
    (hworth : s.compounded owner = .ok written) (hfresh : t.IsFresh owner new)
    (hnew : new.val = written.val + amount.val)
    (hdeposit : s.deposit owner amount = .ok (change, u)) (hgain : change.gain = 0) : u = t := by
  obtain ⟨hw, hdeposits⟩ := deposit_ok hdeposit
  have hsame : change.deposit = new := by
    have hwritten := deposit_eq hdeposit
    rw [Except.ok.inj (hw.compounded_eq.symm.trans hworth)] at hwritten
    exact Amount.ext (by omega)
  have hbare : u.bare = t.bare := hw.bare_eq.trans h.bare_eq.symm
  refine eq_of_bare hbare ?_ ?_ ?_
  · have hahead := h.deposits_eq
    exact Amount.ext (by omega)
  · have hcoll := hw.coll_eq
    rw [hgain, Amount.val_zero, Nat.add_zero] at hcoll
    exact (Amount.ext hcoll).symm.trans h.coll_eq.symm
  · apply Table.eq_of_get?
    intro other
    show u.account other = t.account other
    by_cases ho : other = owner
    · rw [ho, hw.isFresh, hfresh, hsame, snapshot_congr hbare]
    · rw [hw.account_eq ho, h.others_eq other ho]

/-- **Two deposits with no liquidation in between are one:** where both ways are accepted they lead
to the same pool and pay the same. -/
theorem DepositsTwice.eq_once (hs : Valid s) (hk : Kept s) (hboth : both.val = a.val + b.val)
    (hothers : ∀ c ∈ others, c.isOthers owner = true)
    (htwice : DepositsTwice s owner a b others paid u)
    (honce : DepositsOnce s owner both others paid' u') : u = u' ∧ paid = paid' := by
  obtain ⟨x, t, y, v, hx, hv, hy, rfl⟩ := htwice
  obtain ⟨z, t', hz, hu', rfl⟩ := honce
  obtain ⟨hahead, hnew, hgain⟩ := ahead_of_deposit hx hz hboth
  obtain ⟨hworth, hnothing, -⟩ := (deposit_ok hx).1.paid hs hk others hothers
  rw [after_of_accept hv] at hworth hnothing
  have hfresh : u'.IsFresh owner z.deposit := by
    rw [← after_of_accept hu']
    exact ((deposit_ok hz).1.isFresh.after hothers).1
  have hzero : y.gain = 0 := hnothing _ (deposit_ok hy).1.gain_eq
  refine ⟨(hahead.accept hothers hv hu').eq_of_deposit hworth hfresh hnew hy hzero, ?_⟩
  rw [hzero, hgain]
  rfl

/-- A deposit of something is accepted where the sums that it computes are amounts. -/
theorem exists_deposit {compounded new deposits rest : Amount} (h0 : amount ≠ 0)
    (hcompounded : s.compounded owner = .ok compounded) (hgain : s.gain owner = .ok g)
    (hnew : new.val = compounded.val + amount.val)
    (hdeposits : deposits.val = s.deposits.val + amount.val)
    (hrest : s.coll.val = rest.val + g.val) :
    ∃ change t, s.deposit owner amount = .ok (change, t) ∧ change.deposit = new ∧
      change.gain = g ∧ t.deposits = deposits ∧ t.coll = rest := by
  simp only [deposit, hcompounded, hgain, bind_eq_ok_iff, pure_eq_ok_iff, Amount.add_eq_ok_iff,
    Amount.sub_eq_ok_iff, Prod.mk.injEq, Except.ok.injEq]
  exact ⟨_, _, ⟨(), demand_eq_ok_iff.2 h0, compounded, rfl, g, rfl, new, hnew, deposits, hdeposits,
    rest, hrest, rfl, rfl⟩, rfl, rfl, rfl, rfl⟩

/-- Two deposits in a row can be made as one. -/
theorem DepositsTwice.once (hs : Valid s) (hk : Kept s) (ha : a ≠ 0)
    (hboth : both.val = a.val + b.val) (htwice : DepositsTwice s owner a b [] paid u) :
    DepositsOnce s owner both [] paid u := by
  obtain ⟨x, t, y, v, hx, hv, hy, hpaid⟩ := id htwice
  obtain rfl := accept_nil_eq_ok_iff.1 hv
  obtain ⟨hwx, hdx⟩ := deposit_ok hx
  obtain ⟨hwy, hdy⟩ := deposit_ok hy
  have hworth : y.compounded = x.deposit :=
    Except.ok.inj
      (hwy.compounded_eq.symm.trans (hwx.paid hs hk [] (List.forall_mem_nil _)).1)
  have hboth0 : both ≠ 0 := by
    rw [Amount.ne_zero_iff] at ha ⊢
    omega
  have hnew : y.deposit.val = x.compounded.val + both.val := by
    have hx := deposit_eq hx
    have hy := deposit_eq hy
    rw [hworth] at hy
    omega
  obtain ⟨z, t', hz, -⟩ := exists_deposit hboth0 hwx.compounded_eq hwx.gain_eq hnew
    (by omega : u.deposits.val = s.deposits.val + both.val) hwx.coll_eq
  have honce : DepositsOnce s owner both [] z.gain.val t' :=
    ⟨z, t', hz, accept_nil_eq_ok_iff.2 rfl, rfl⟩
  obtain ⟨rfl, rfl⟩ := htwice.eq_once hs hk hboth (List.forall_mem_nil _) honce
  exact honce

/-- One deposit can be made in two, unless there is no scale after the present one. -/
theorem DepositsOnce.twice (hs : Valid s) (hk : Kept s) (hscale : ¬ Filled s.scale) (ha : a ≠ 0)
    (hb : b ≠ 0) (hboth : both.val = a.val + b.val) (honce : DepositsOnce s owner both [] paid u) :
    DepositsTwice s owner a b [] paid u := by
  obtain ⟨z, t, hz, ht, -⟩ := id honce
  obtain rfl := accept_nil_eq_ok_iff.1 ht
  obtain ⟨hwz, hdz⟩ := deposit_ok hz
  have hnew := deposit_eq hz
  obtain ⟨half, hhalf, -⟩ := Amount.exists_within (a := z.deposit)
    (by omega : z.compounded.val + a.val ≤ z.deposit.val)
  obtain ⟨deposits, hdeposits, -⟩ := Amount.exists_within (a := t.deposits)
    (by omega : s.deposits.val + a.val ≤ t.deposits.val)
  obtain ⟨x, v, hx, hxdeposit, -, hvdeposits, hvcoll⟩ :=
    exists_deposit ha hwz.compounded_eq hwz.gain_eq hhalf hdeposits hwz.coll_eq
  have hpaid := (deposit_ok hx).1.paid hs hk [] (List.forall_mem_nil _)
  have hworth : v.compounded owner = .ok half := hxdeposit ▸ hpaid.1
  have hgain : v.gain owner = .ok 0 := hpaid.2.2 hscale
  rw [← hvdeposits] at hdeposits
  obtain ⟨y, u, hy, -⟩ := exists_deposit hb hworth hgain
    (by omega : z.deposit.val = half.val + b.val)
    (by omega : t.deposits.val = v.deposits.val + b.val)
    (congrArg Amount.val hvcoll)
  have htwice : DepositsTwice s owner a b [] (x.gain.val + y.gain.val) u :=
    ⟨x, v, y, v, hx, accept_nil_eq_ok_iff.2 rfl, hy, rfl⟩
  obtain ⟨rfl, rfl⟩ := htwice.eq_once hs hk hboth (List.forall_mem_nil _) honce
  exact htwice

/-! ## Runs -/

/-- The scales of a run do not come to an end. -/
theorem not_filled_scale (hlength : calls.length + 1 < UInt64.size) :
    ¬ Filled (empty.after calls).scale := by
  have hcounted := counted_after counted_empty calls
  rw [Nat.zero_add] at hcounted
  intro h
  exact hcounted.not_filled hlength (Or.inr (Or.inl h))

/-- **Gains are paid once.**  After a deposit or a withdrawal, and any calls of others that are no
liquidations, the deposit is worth what was written and has gained nothing.  Hence two deposits with
no liquidation in between lead to the same pool as one of their sum, and pay the same gain; made in
a row they are accepted just where the one is.  Gains can be told unless there is no scale after the
present one, to which no run of less than `2 ^ 64 - 1` calls comes. -/
theorem gains_paid_once (calls : List PoolCall) (owner : Address) :
    (calls.length + 1 < UInt64.size → ¬ Filled (empty.after calls).scale) ∧
    (∀ amount change t, (empty.after calls).deposit owner amount = .ok (change, t) ∨
        (empty.after calls).withdraw owner amount = .ok (change, t) →
      ∀ others : List PoolCall, (∀ c ∈ others, c.isOthers owner = true) →
        (t.after others).compounded owner = .ok change.deposit ∧
        (∀ g, (t.after others).gain owner = .ok g → g = 0) ∧
        (¬ Filled (empty.after calls).scale → (t.after others).gain owner = .ok 0)) ∧
    ∀ a b both : Amount, a ≠ 0 → b ≠ 0 → both.val = a.val + b.val →
      (∀ others : List PoolCall, (∀ c ∈ others, c.isOthers owner = true) →
        ∀ paid paid' u u', (empty.after calls).DepositsTwice owner a b others paid u →
          (empty.after calls).DepositsOnce owner both others paid' u' → u = u' ∧ paid = paid') ∧
      (∀ paid u, (empty.after calls).DepositsTwice owner a b [] paid u →
        (empty.after calls).DepositsOnce owner both [] paid u) ∧
      (¬ Filled (empty.after calls).scale →
        ∀ paid u, (empty.after calls).DepositsOnce owner both [] paid u →
          (empty.after calls).DepositsTwice owner a b [] paid u) := by
  have hs := valid_after valid_empty calls
  have hk := kept_after valid_empty kept_empty calls
  refine ⟨not_filled_scale, ?_, ?_⟩
  · intro amount change t h
    have hw : Rewriting (empty.after calls) owner change t := by
      obtain h | h := h
      · exact (deposit_ok h).1
      · exact (withdraw_ok h).1
    exact hw.paid hs hk
  · intro a b both ha hb hboth
    refine ⟨?_, ?_, ?_⟩
    · intro others hothers paid paid' u u' htwice honce
      exact htwice.eq_once hs hk hboth hothers honce
    · intro paid u htwice
      exact htwice.once hs hk ha hboth
    · intro hscale paid u honce
      exact honce.twice hs hk hscale ha hb hboth

/-- What ten tokens more do for a depositor with a gain. -/
def tenMore : DepositChange :=
  ⟨⟨899_999_999_999_999_999_000_000, by decide⟩, ⟨900_009_999_999_999_999_000_000, by decide⟩, 0,
    .whole 50, ⟨100_000_000_000_000_001_000_000, by decide⟩⟩

/-- Calls of another depositor. -/
def othersCalls : List PoolCall :=
  [.deposit laterDepositor (.whole 5), .withdraw laterDepositor (.whole 2)]

/-- A gain of fifty units is paid with the first deposit, or with the sum of both. -/
theorem gains_paid_once_fairCalls : ∃ t,
    (empty.after fairCalls).deposit depositor (.whole 10) = .ok (tenMore, t) ∧
    (t.after othersCalls).compounded depositor = .ok tenMore.deposit ∧
    (t.after othersCalls).gain depositor = .ok 0 ∧
    (empty.after fairCalls).DepositsOnce depositor (.whole 10) []
      (Amount.whole 50).val t ∧
    (empty.after fairCalls).DepositsTwice depositor (.whole 4) (.whole 6) []
      (Amount.whole 50).val t := by
  obtain ⟨hfilled, hpaid, hmerged⟩ := gains_paid_once fairCalls depositor
  have hscale := hfilled (by decide)
  have hdeposit : (empty.after fairCalls).deposit depositor (.whole 10) =
      .ok (tenMore, empty.after (fairCalls ++ [.deposit depositor (.whole 10)])) := by
    decide +kernel
  obtain ⟨hworth, -, hgain⟩ := hpaid _ _ _ (Or.inl hdeposit) othersCalls (by decide)
  have honce : (empty.after fairCalls).DepositsOnce depositor (.whole 10) []
      (Amount.whole 50).val (empty.after (fairCalls ++ [.deposit depositor (.whole 10)])) :=
    ⟨tenMore, _, hdeposit, rfl, rfl⟩
  obtain ⟨-, -, htwice⟩ := hmerged (.whole 4) (.whole 6) (.whole 10) (by decide) (by decide)
    (by decide)
  exact ⟨_, hdeposit, hworth, hgain hscale, honce, htwice hscale _ _ honce⟩

end StabilityPool

end Stablecoin
