/-
  Stablecoin theory — movements of tokens.

  * `TokenBook.total` is the sum of the balances, and a book is *balanced* if it
    is the supply;
  * `TokenBook.mint_eq_ok_iff`, `burn_eq_ok_iff` and `move_eq_ok_iff` take a movement
    apart into its steps;
  * `TokenMove.apply_ok` says what a movement does to supply, sum and balances,
    and `TokenMove.exists_apply` when it can be made; one that is refused leaves
    the book as it was (`TokenMove.apply_error`); `TokenMove.applyInTurn_ok` is
    what several do to the balances;
  * `TokenMove.mints_perm`: creating tokens leaves the same balances in any order.
-/
import Stablecoin.Proofs.Commit
import Stablecoin.Proofs.Totals

namespace Stablecoin

/-! ## Balances and their sum -/

namespace TokenBook

variable {b b' : TokenBook} {account source target : Address} {amount : Amount}

/-- The sum of all balances. -/
def total (b : TokenBook) : Nat := b.balances.sum Amount.val

/-- The supply is the sum of all balances. -/
def Balanced (b : TokenBook) : Prop := b.supply.val = b.total

theorem part_balances (b : TokenBook) (account : Address) :
    b.balances.part Amount.val account = (b.balance account).val := by
  unfold Table.part balance
  cases b.balances.get? account <;> rfl

theorem balance_le_total (b : TokenBook) (account : Address) :
    (b.balance account).val ≤ b.total := by
  rw [← part_balances]
  exact Table.part_le_sum _ (fun _ _ _ => Nat.zero_le _) account

/-- Two accounts hold no more than all. -/
theorem balance_add_le_total (b : TokenBook) (h : source ≠ target) :
    (b.balance source).val + (b.balance target).val ≤ b.total := by
  have herase := Table.sum_erase Amount.val b.balances source
  have hpart := Table.part_le_sum Amount.val (t := b.balances.erase source)
    (fun _ _ _ => Nat.zero_le _) target
  rw [part_balances] at herase
  have hsame : (b.balances.erase source).part Amount.val target = (b.balance target).val := by
    rw [← part_balances, Table.part, Table.get?_erase_of, if_neg h.symm]
    rfl
  rw [hsame] at hpart
  change _ ≤ Table.sum Amount.val b.balances
  omega

/-- Balances are told by who has an entry, and by what everybody holds. -/
theorem balances_ext
    (hentries : ∀ a, b.balances.contains a = true ↔ b'.balances.contains a = true)
    (hbalance : ∀ a, b.balance a = b'.balance a) : b.balances = b'.balances := by
  apply Table.eq_of_get?
  intro a
  have hentry := hentries a
  have hheld := hbalance a
  unfold Table.contains at hentry
  unfold balance at hheld
  cases h : b.balances.get? a <;> cases h' : b'.balances.get? a <;> simp_all

/-- Crediting an account. -/
theorem credited_eq_ok_iff : b.credited account amount = .ok b' ↔
    ∃ held : Amount, held.val = (b.balance account).val + amount.val ∧
      b' = { b with balances := b.balances.insert account held } := by
  simp only [credited, bind_eq_ok_iff, pure_eq_ok_iff, Amount.add_eq_ok_iff]
  constructor
  · rintro ⟨held, hheld, rfl⟩
    exact ⟨held, hheld, rfl⟩
  · rintro ⟨held, hheld, rfl⟩
    exact ⟨held, hheld, rfl⟩

theorem credited_ok (h : b.credited account amount = .ok b') :
    b'.supply = b.supply ∧ b'.total = b.total + amount.val ∧
      ∀ a, (b'.balance a).val = (b.balance a).val + if a = account then amount.val else 0 := by
  obtain ⟨held, hheld, rfl⟩ := credited_eq_ok_iff.1 h
  refine ⟨rfl, ?_, ?_⟩
  · have hsum := Table.sum_insert Amount.val b.balances account held
    rw [part_balances] at hsum
    simp only [total]
    omega
  · intro a
    simp only [balance, Table.get?_insert_of]
    by_cases ha : a = account
    · rw [if_pos ha, if_pos ha, ha]
      exact hheld
    · rw [if_neg ha, if_neg ha, Nat.add_zero]

theorem exists_credited (b : TokenBook) (account : Address) (amount : Amount)
    (h : (b.balance account).val + amount.val < Amount.limit) :
    ∃ b', b.credited account amount = .ok b' := by
  obtain ⟨held, hheld⟩ := Amount.exists_val_eq h
  exact ⟨_, credited_eq_ok_iff.2 ⟨held, hheld, rfl⟩⟩

/-- Debiting an account. -/
theorem debited_eq_ok_iff : b.debited account amount = .ok b' ↔
    ∃ held : Amount, (b.balance account).val = held.val + amount.val ∧
      b' = { b with balances :=
        if held = 0 then b.balances.erase account else b.balances.insert account held } := by
  simp only [debited, bind_eq_ok_iff, pure_eq_ok_iff, Amount.minus_eq_ok_iff]
  constructor
  · rintro ⟨_, -, held, hheld, rfl⟩
    exact ⟨held, hheld, rfl⟩
  · rintro ⟨held, hheld, rfl⟩
    refine ⟨(), demand_eq_ok_iff.2 ?_, held, hheld, rfl⟩
    rw [Amount.le_iff_val_le]
    omega

theorem debited_ok (h : b.debited account amount = .ok b') :
    b'.supply = b.supply ∧ b.total = b'.total + amount.val ∧
      ∀ a, (b.balance a).val = (b'.balance a).val + if a = account then amount.val else 0 := by
  obtain ⟨held, hheld, rfl⟩ := debited_eq_ok_iff.1 h
  refine ⟨rfl, ?_, ?_⟩
  · simp only [total]
    split
    · next h0 =>
      have hsum := Table.sum_erase Amount.val b.balances account
      rw [h0, Amount.val_zero] at hheld
      rw [part_balances] at hsum
      omega
    · have hsum := Table.sum_insert Amount.val b.balances account held
      rw [part_balances] at hsum
      omega
  · intro a
    by_cases ha : a = account
    · rw [if_pos ha, ha, hheld]
      congr 1
      simp only [balance]
      split
      · next h0 => simp [Table.get?_erase_of, h0]
      · simp [Table.get?_insert_of]
    · rw [if_neg ha, Nat.add_zero]
      simp only [balance]
      split
      · rw [Table.get?_erase_of, if_neg ha]
      · rw [Table.get?_insert_of, if_neg ha]

theorem exists_debited (h : amount ≤ b.balance account) :
    ∃ b', b.debited account amount = .ok b' := by
  obtain ⟨held, hheld⟩ := Amount.exists_rest h
  exact ⟨_, debited_eq_ok_iff.2 ⟨held, hheld, rfl⟩⟩

/-! ## The movements -/

/-- Tokens are created. -/
theorem mint_eq_ok_iff : b.mint target amount = .ok b' ↔ amount ≠ 0 ∧
    ∃ (supply : Amount) (credit : TokenBook), supply.val = b.supply.val + amount.val ∧
      b.credited target amount = .ok credit ∧
      b' = { credit with supply := supply }.noted .mint none (some target) amount := by
  simp only [mint, bind_eq_ok_iff, pure_eq_ok_iff, Amount.add_eq_ok_iff]
  constructor
  · rintro ⟨_, h0, supply, hsupply, credit, hc, rfl⟩
    exact ⟨demand_eq_ok_iff.1 h0, supply, credit, hsupply, hc, rfl⟩
  · rintro ⟨h0, supply, credit, hsupply, hc, rfl⟩
    exact ⟨(), demand_eq_ok_iff.2 h0, supply, hsupply, credit, hc, rfl⟩

theorem mint_ok (h : b.mint target amount = .ok b') :
    b'.supply.val = b.supply.val + amount.val ∧ b'.total = b.total + amount.val ∧
      ∀ a, (b'.balance a).val = (b.balance a).val + if a = target then amount.val else 0 := by
  obtain ⟨-, supply, credit, hsupply, hc, rfl⟩ := mint_eq_ok_iff.1 h
  obtain ⟨-, htotal, hbalance⟩ := credited_ok hc
  exact ⟨hsupply, htotal, hbalance⟩

/-- Whoever tokens are created for has an entry. -/
theorem mint_contains (h : b.mint target amount = .ok b')
    (a : Address) :
    b'.balances.contains a = true ↔ a = target ∨ b.balances.contains a = true := by
  obtain ⟨-, _, _, -, hc, rfl⟩ := mint_eq_ok_iff.1 h
  obtain ⟨held, -, rfl⟩ := credited_eq_ok_iff.1 hc
  simp only [noted, Table.contains, Table.get?_insert_of]
  by_cases ha : a = target
  · simp [ha]
  · simp [ha]

theorem exists_mint (target : Address) (h0 : amount ≠ 0) (hb : b.Balanced)
    (hroom : b.supply.val + amount.val < Amount.limit) : ∃ b', b.mint target amount = .ok b' := by
  have hle := balance_le_total b target
  unfold Balanced at hb
  obtain ⟨supply, hsupply⟩ := Amount.exists_val_eq hroom
  obtain ⟨credit, hc⟩ := exists_credited b target amount (by omega)
  exact ⟨_, mint_eq_ok_iff.2 ⟨h0, supply, credit, hsupply, hc, rfl⟩⟩

/-- Tokens are destroyed. -/
theorem burn_eq_ok_iff : b.burn source amount = (.ok (), b') ↔ amount ≠ 0 ∧
    ∃ (debit : TokenBook) (supply : Amount), b.debited source amount = .ok debit ∧
      debit.supply.val = supply.val + amount.val ∧
      b' = { debit with supply := supply }.noted .burn (some source) none amount := by
  constructor
  · intro h
    unfold burn at h
    split at h
    · cases h
    · cases h
    next debit hzero hd =>
    simp only [settle_eq_ok_iff, bind_eq_ok_iff, pure_eq_ok_iff, Amount.sub_eq_ok_iff] at h
    obtain ⟨supply, hsupply, rfl⟩ := h
    exact ⟨demand_eq_ok_iff.1 hzero, debit, supply, hd, hsupply, rfl⟩
  · rintro ⟨h0, debit, supply, hd, hsupply, rfl⟩
    unfold burn
    rw [demand_eq_ok_iff.2 h0, hd]
    simp only [settle_eq_ok_iff, bind_eq_ok_iff, pure_eq_ok_iff, Amount.sub_eq_ok_iff]
    exact ⟨supply, hsupply, rfl⟩

theorem burn_ok (h : b.burn source amount = (.ok (), b')) :
    b.supply.val = b'.supply.val + amount.val ∧ b.total = b'.total + amount.val ∧
      ∀ a, (b.balance a).val = (b'.balance a).val + if a = source then amount.val else 0 := by
  obtain ⟨-, debit, supply, hd, hsupply, rfl⟩ := burn_eq_ok_iff.1 h
  obtain ⟨hs, htotal, hbalance⟩ := debited_ok hd
  exact ⟨hs ▸ hsupply, htotal, hbalance⟩

theorem exists_burn (h0 : amount ≠ 0) (hb : b.Balanced) (hle : amount ≤ b.balance source) :
    ∃ b', b.burn source amount = (.ok (), b') := by
  obtain ⟨debit, hd⟩ := exists_debited hle
  obtain ⟨hs, htotal, -⟩ := debited_ok hd
  unfold Balanced at hb
  have hsupply_le : amount ≤ b.supply := by
    rw [Amount.le_iff_val_le]
    omega
  obtain ⟨supply, hsupply⟩ := Amount.exists_rest hsupply_le
  exact ⟨_, burn_eq_ok_iff.2 ⟨h0, debit, supply, hd, hs ▸ hsupply, rfl⟩⟩

/-- What a holder has can also be taken off the supply, so that burning does not stop halfway. -/
theorem burn_error {stop : Stop} (hb : b.Balanced)
    (h : b.burn source amount = (.error stop, b')) : b' = b := by
  unfold burn at h
  split at h
  · cases h
    rfl
  · cases h
    rfl
  next debit hzero hd =>
  obtain ⟨held, hheld, -⟩ := debited_eq_ok_iff.1 hd
  have hle : amount ≤ b.balance source := by
    rw [Amount.le_iff_val_le]
    omega
  obtain ⟨next, hok⟩ := exists_burn (demand_eq_ok_iff.1 hzero) hb hle
  unfold burn at hok
  rw [hzero, hd] at hok
  cases hok.symm.trans h

/-- Tokens are moved; from an account to itself there is nothing to do. -/
theorem move_eq_ok_iff : b.move source target amount = .ok b' ↔ amount ≠ 0 ∧
    ((source = target ∧ b' = b) ∨ (source ≠ target ∧ ∃ (held : Amount) (debit credit : TokenBook),
      held.val = (b.balance target).val + amount.val ∧ b.debited source amount = .ok debit ∧
      debit.credited target amount = .ok credit ∧
      b' = credit.noted .transfer (some source) (some target) amount)) := by
  simp only [move, bind_eq_ok_iff]
  constructor
  · rintro ⟨_, h0, h⟩
    refine ⟨demand_eq_ok_iff.1 h0, ?_⟩
    split at h
    · next heq =>
      cases h
      exact Or.inl ⟨heq, rfl⟩
    · next hne =>
      simp only [bind_eq_ok_iff, pure_eq_ok_iff, Amount.add_eq_ok_iff] at h
      obtain ⟨held, hheld, debit, hd, credit, hc, rfl⟩ := h
      exact Or.inr ⟨hne, held, debit, credit, hheld, hd, hc, rfl⟩
  · rintro ⟨h0, ⟨heq, rfl⟩ | ⟨hne, held, debit, credit, hheld, hd, hc, rfl⟩⟩
    · exact ⟨(), demand_eq_ok_iff.2 h0, if_pos heq⟩
    · refine ⟨(), demand_eq_ok_iff.2 h0, ?_⟩
      rw [if_neg hne]
      simp only [bind_eq_ok_iff, pure_eq_ok_iff, Amount.add_eq_ok_iff]
      exact ⟨held, hheld, debit, hd, credit, hc, rfl⟩

theorem move_ok (h : b.move source target amount = .ok b') :
    b'.supply = b.supply ∧ b'.total = b.total ∧
      ∀ a, (b'.balance a).val + (if a = source then amount.val else 0) =
        (b.balance a).val + if a = target then amount.val else 0 := by
  obtain ⟨-, ⟨rfl, rfl⟩ | ⟨-, _, debit, credit, -, hd, hc, rfl⟩⟩ := move_eq_ok_iff.1 h
  · exact ⟨rfl, rfl, fun _ => rfl⟩
  obtain ⟨hs, htotal, hbalance⟩ := debited_ok hd
  obtain ⟨hs', htotal', hbalance'⟩ := credited_ok hc
  refine ⟨hs'.trans hs, ?_, ?_⟩
  · change credit.total = b.total
    omega
  · intro a
    have hda := hbalance a
    have hca := hbalance' a
    change (credit.balance a).val + _ = _
    omega

theorem exists_move (target : Address) (h0 : amount ≠ 0) (hb : b.Balanced)
    (hle : amount ≤ b.balance source) :
    ∃ b', b.move source target amount = .ok b' := by
  by_cases heq : source = target
  · exact ⟨b, move_eq_ok_iff.2 ⟨h0, Or.inl ⟨heq, rfl⟩⟩⟩
  have hsum := balance_add_le_total b heq
  have hlt := b.supply.val_lt
  unfold Balanced at hb
  obtain ⟨debit, hd⟩ := exists_debited hle
  obtain ⟨-, -, hbalance⟩ := debited_ok hd
  have htarget := hbalance target
  rw [if_neg (Ne.symm heq)] at htarget
  rw [Amount.le_iff_val_le] at hle
  obtain ⟨held, hheld⟩ :=
    Amount.exists_val_eq (n := (b.balance target).val + amount.val) (by omega)
  obtain ⟨credit, hc⟩ := exists_credited debit target amount (by omega)
  exact ⟨_, move_eq_ok_iff.2 ⟨h0, Or.inr ⟨heq, held, debit, credit, hheld, hd, hc, rfl⟩⟩⟩

/-- Users move tokens among themselves. -/
theorem transfer_ok (h : b.transfer source target amount = .ok b') :
    b'.supply = b.supply ∧ b'.total = b.total ∧ b.isGuarded target = false ∧
      b.move source target amount = .ok b' := by
  simp only [transfer, bind_eq_ok_iff] at h
  obtain ⟨_, hguarded, h⟩ := h
  obtain ⟨hs, ht, -⟩ := move_ok h
  exact ⟨hs, ht, (demand_eq_ok_iff.1 hguarded).2, h⟩

/-! ## Guarded accounts -/

theorem contains_foldl_insert {accounts : List Address} {t : Table Address Unit}
    (h : t.contains account = true ∨ account ∈ accounts) :
    ((accounts.map (·, ())).foldl (fun t e => t.insert e.1 e.2) t).contains account = true := by
  induction accounts generalizing t with
  | nil => exact h.resolve_right List.not_mem_nil
  | cons a rest ih =>
    refine ih ?_
    rw [Table.contains, Table.get?_insert_of]
    by_cases ha : account = a
    · rw [if_pos ha]
      exact Or.inl rfl
    · rw [if_neg ha]
      exact h.imp_right fun hm => (List.mem_cons.1 hm).resolve_left ha

/-- A book guards the accounts that it is started with. -/
theorem isGuarded_stable {accounts : List Address} (h : account ∈ accounts) :
    (stable accounts).isGuarded account = true := contains_foldl_insert (Or.inr h)

theorem credited_guarded (h : b.credited account amount = .ok b') : b'.guarded = b.guarded := by
  obtain ⟨_, -, rfl⟩ := credited_eq_ok_iff.1 h
  rfl

theorem debited_guarded (h : b.debited account amount = .ok b') : b'.guarded = b.guarded := by
  obtain ⟨_, -, rfl⟩ := debited_eq_ok_iff.1 h
  rfl

theorem mint_guarded (h : b.mint target amount = .ok b') : b'.guarded = b.guarded := by
  obtain ⟨-, _, credit, -, hc, rfl⟩ := mint_eq_ok_iff.1 h
  have hguarded := credited_guarded hc
  exact hguarded

theorem burn_guarded (h : b.burn source amount = (.ok (), b')) : b'.guarded = b.guarded := by
  obtain ⟨-, debit, _, hd, -, rfl⟩ := burn_eq_ok_iff.1 h
  have hguarded := debited_guarded hd
  exact hguarded

theorem move_guarded (h : b.move source target amount = .ok b') : b'.guarded = b.guarded := by
  obtain ⟨-, ⟨-, rfl⟩ | ⟨-, _, debit, credit, -, hd, hc, rfl⟩⟩ := move_eq_ok_iff.1 h
  · rfl
  · exact (credited_guarded hc).trans (debited_guarded hd)

end TokenBook

namespace TokenMove

variable {b b' : TokenBook} {m : TokenMove}

/-- What a movement takes from an account. -/
def taken (m : TokenMove) (account : Address) : Nat :=
  match m.debit with
  | some (source, amount) => if account = source then amount.val else 0
  | none => 0

/-- What a movement gives to an account. -/
def given (m : TokenMove) (account : Address) : Nat :=
  match m.credit with
  | some (target, amount) => if account = target then amount.val else 0
  | none => 0

section

variable (source target account : Address) (amount : Amount)

@[simp] theorem taken_mint : (mint target amount).taken account = 0 := rfl

@[simp] theorem given_mint :
    (mint target amount).given account = if account = target then amount.val else 0 := rfl

@[simp] theorem taken_burn :
    (burn source amount).taken account = if account = source then amount.val else 0 := rfl

@[simp] theorem given_burn : (burn source amount).given account = 0 := rfl

@[simp] theorem taken_toPool : (toPool source target amount).taken account =
    if account = source then amount.val else 0 := rfl

@[simp] theorem given_toPool : (toPool source target amount).given account =
    if account = target then amount.val else 0 := rfl

@[simp] theorem taken_fromPool : (fromPool source target amount).taken account =
    if account = source then amount.val else 0 := rfl

@[simp] theorem given_fromPool : (fromPool source target amount).given account =
    if account = target then amount.val else 0 := rfl

end

/-- What a movement does to supply, sum, and balances. -/
theorem apply_ok (h : m.apply b = (.ok (), b')) :
    b'.supply.val + m.burned = b.supply.val + m.minted ∧ b'.total + m.burned = b.total + m.minted ∧
      ∀ a, (b'.balance a).val + m.taken a = (b.balance a).val + m.given a := by
  cases m with
  | mint target amount =>
    obtain ⟨hs, ht, hb⟩ := TokenBook.mint_ok (settle_eq_ok_iff.1 h)
    exact ⟨hs, ht, hb⟩
  | burn source amount =>
    obtain ⟨hs, ht, hb⟩ := TokenBook.burn_ok h
    refine ⟨hs.symm, ht.symm, ?_⟩
    intro a
    exact (hb a).symm
  | toPool source pool amount =>
    obtain ⟨hs, ht, hb⟩ := TokenBook.move_ok (settle_eq_ok_iff.1 h)
    exact ⟨congrArg Amount.val hs, ht, hb⟩
  | fromPool pool target amount =>
    obtain ⟨hs, ht, hb⟩ := TokenBook.move_ok (settle_eq_ok_iff.1 h)
    exact ⟨congrArg Amount.val hs, ht, hb⟩

theorem apply_guarded (h : m.apply b = (.ok (), b')) : b'.guarded = b.guarded := by
  cases m with
  | mint target amount => exact TokenBook.mint_guarded (settle_eq_ok_iff.1 h)
  | burn source amount => exact TokenBook.burn_guarded h
  | toPool source pool amount => exact TokenBook.move_guarded (settle_eq_ok_iff.1 h)
  | fromPool pool target amount => exact TokenBook.move_guarded (settle_eq_ok_iff.1 h)

theorem apply_balanced (hb : b.Balanced) (h : m.apply b = (.ok (), b')) : b'.Balanced := by
  obtain ⟨hs, ht, -⟩ := apply_ok h
  unfold TokenBook.Balanced at hb ⊢
  omega

/-- A movement can be made if the one who pays holds the amount and there is room for what is
minted. -/
theorem exists_apply (h0 : m.amount ≠ 0) (hb : b.Balanced)
    (hpays : ∀ a amount, m.debit = some (a, amount) → amount ≤ b.balance a)
    (hroom : b.supply.val + m.minted < Amount.limit) : ∃ b', m.apply b = (.ok (), b') := by
  cases m with
  | mint target amount =>
    obtain ⟨b', h⟩ := TokenBook.exists_mint target h0 hb hroom
    exact ⟨b', settle_eq_ok_iff.2 h⟩
  | burn source amount => exact TokenBook.exists_burn h0 hb (hpays _ _ rfl)
  | toPool source pool amount =>
    obtain ⟨b', h⟩ := TokenBook.exists_move pool h0 hb (hpays _ _ rfl)
    exact ⟨b', settle_eq_ok_iff.2 h⟩
  | fromPool pool target amount =>
    obtain ⟨b', h⟩ := TokenBook.exists_move target h0 hb (hpays _ _ rfl)
    exact ⟨b', settle_eq_ok_iff.2 h⟩

/-- A movement that is refused leaves the book as it was. -/
theorem apply_error {stop : Stop} (hb : b.Balanced) (h : m.apply b = (.error stop, b')) :
    b' = b := by
  cases m with
  | burn source amount => exact TokenBook.burn_error hb h
  | mint | toPool | fromPool => exact settle_error h

theorem apply_snd_balanced (hb : b.Balanced) (m : TokenMove) : (m.apply b).2.Balanced := by
  rcases h : m.apply b with ⟨stop | ⟨⟩, b'⟩
  · rw [apply_error hb h]
    exact hb
  · exact apply_balanced hb h

/-! ## Several movements -/

theorem applyInTurn_balanced (hb : b.Balanced) (moves : List TokenMove) :
    (applyInTurn apply b moves).2.Balanced := by
  induction moves generalizing b with
  | nil => exact hb
  | cons m rest ih =>
    have hm := apply_snd_balanced hb m
    rw [applyInTurn]
    split
    · next b' h =>
      rw [h] at hm
      exact ih hm
    · next b' h =>
      rw [h] at hm
      exact hm

/-- What movements take from an account. -/
def takenFrom (moves : List TokenMove) (account : Address) : Nat :=
  (moves.map (taken · account)).sum

/-- What movements give to an account. -/
def givenTo (moves : List TokenMove) (account : Address) : Nat :=
  (moves.map (given · account)).sum

section

variable (moves others : List TokenMove) (account : Address)

@[simp] theorem takenFrom_nil : takenFrom [] account = 0 := rfl

@[simp] theorem givenTo_nil : givenTo [] account = 0 := rfl

@[simp] theorem takenFrom_append :
    takenFrom (moves ++ others) account = takenFrom moves account + takenFrom others account := by
  simp [takenFrom]

@[simp] theorem givenTo_append :
    givenTo (moves ++ others) account = givenTo moves account + givenTo others account := by
  simp [givenTo]

@[simp] theorem takenFrom_orNone (m : TokenMove) : takenFrom m.orNone account = m.taken account := by
  unfold orNone
  split
  · next h => cases m <;> simp_all [taken, debit, amount]
  · simp [takenFrom]

@[simp] theorem givenTo_orNone (m : TokenMove) : givenTo m.orNone account = m.given account := by
  unfold orNone
  split
  · next h => cases m <;> simp_all [given, credit, amount]
  · simp [givenTo]

end

/-- What movements do to the balances. -/
theorem applyInTurn_ok {moves : List TokenMove} (h : applyInTurn apply b moves = (.ok (), b')) :
    b'.guarded = b.guarded ∧
      ∀ a, (b'.balance a).val + takenFrom moves a = (b.balance a).val + givenTo moves a := by
  induction moves generalizing b with
  | nil =>
    cases h
    exact ⟨rfl, fun _ => rfl⟩
  | cons m rest ih =>
    rw [applyInTurn] at h
    split at h
    · next middle hm =>
      obtain ⟨hguarded, hrest⟩ := ih h
      obtain ⟨-, -, hone⟩ := apply_ok hm
      refine ⟨hguarded.trans (apply_guarded hm), ?_⟩
      intro a
      have h₁ := hone a
      have h₂ := hrest a
      simp only [takenFrom, givenTo, List.map_cons, List.sum_cons] at h₂ ⊢
      omega
    · cases h

/-! ## Tokens that are created -/

section

variable {b₁ b₂ : TokenBook} {moves others : List TokenMove}

/-- Tokens are only created. -/
def OnlyMints (moves : List TokenMove) : Prop := ∀ m ∈ moves, ∃ target amount, m = .mint target amount

theorem OnlyMints.append (h : OnlyMints moves) (h' : OnlyMints others) :
    OnlyMints (moves ++ others) := List.forall_mem_append.2 ⟨h, h'⟩

theorem onlyMints_orNone (target : Address) (amount : Amount) :
    OnlyMints (mint target amount).orNone := by
  unfold orNone
  split
  · exact nofun
  · exact List.forall_mem_singleton.2 ⟨target, amount, rfl⟩

theorem applyInTurn_contains (hm : OnlyMints moves)
    (h : applyInTurn apply b moves = (.ok (), b')) (a : Address) :
    b'.balances.contains a = true ↔
      (∃ amount, mint a amount ∈ moves) ∨ b.balances.contains a = true := by
  induction moves generalizing b with
  | nil =>
    cases h
    simp
  | cons m rest ih =>
    obtain ⟨⟨target, amount, rfl⟩, hrest⟩ := List.forall_mem_cons.1 hm
    rw [applyInTurn] at h
    split at h
    · next hfirst =>
      rw [ih hrest h, TokenBook.mint_contains (settle_eq_ok_iff.1 hfirst)]
      simp only [List.mem_cons, mint.injEq, exists_or, exists_and_left, exists_eq, and_true]
      tauto
    · cases h

theorem applyInTurn_supply (h : applyInTurn apply b moves = (.ok (), b')) :
    b'.supply.val + burnedBy moves = b.supply.val + mintedBy moves := by
  induction moves generalizing b with
  | nil =>
    cases h
    rfl
  | cons m rest ih =>
    rw [applyInTurn] at h
    split at h
    · next hm =>
      obtain ⟨hfirst, -⟩ := apply_ok hm
      have hrest := ih h
      simp only [mintedBy, burnedBy, List.map_cons, List.sum_cons] at hrest ⊢
      omega
    · cases h

/-- **Creating tokens leaves the same balances and the same supply in any order.** -/
theorem mints_perm (hperm : moves.Perm others) (hm : OnlyMints moves)
    (h₁ : applyInTurn apply b moves = (.ok (), b₁))
    (h₂ : applyInTurn apply b others = (.ok (), b₂)) :
    b₁.balances = b₂.balances ∧ b₁.supply = b₂.supply := by
  have hm' : OnlyMints others := fun m h => hm m (hperm.mem_iff.2 h)
  constructor
  · apply TokenBook.balances_ext
    · intro a
      rw [applyInTurn_contains hm h₁, applyInTurn_contains hm' h₂]
      simp only [hperm.mem_iff]
    · intro a
      obtain ⟨-, hfirst⟩ := applyInTurn_ok h₁
      obtain ⟨-, hsecond⟩ := applyInTurn_ok h₂
      have htaken : takenFrom moves a = takenFrom others a := (hperm.map _).sum_eq
      have hgiven : givenTo moves a = givenTo others a := (hperm.map _).sum_eq
      have hone := hfirst a
      have htwo := hsecond a
      exact Amount.ext (by omega)
  · have hminted : mintedBy moves = mintedBy others := (hperm.map _).sum_eq
    have hburned : burnedBy moves = burnedBy others := (hperm.map _).sum_eq
    have hone := applyInTurn_supply h₁
    have htwo := applyInTurn_supply h₂
    exact Amount.ext (by omega)

end

end TokenMove

end Stablecoin
