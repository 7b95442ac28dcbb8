/-
  Stablecoin theory — calls of a token book.

  Supply and balances are kept apart, and a call changes them one after the other,
  with checks in between.  That no call stops halfway is due to the supply: it bounds
  every balance, and every two of them together, so that what a holder has can be taken
  off it, and can be credited to anybody else.

  * `TokenBook.Rewritten` says what becomes of the entries: they are as they were, or
    of accounts that are named, and then not zero.  So it is for every movement
    (`TokenMove.rewritten`);
  * `TokenCall` is what can be asked of a book, and `TokenCall.Effect` what comes of it
    if it is accepted;
  * `TokenBook.Conserving`: the supply is the sum of the balances, and stays so
    whatever is asked next.  So it is after any calls (`TokenBook.after_conserving`).
-/
import Stablecoin.Proofs.Failures
import Stablecoin.Proofs.TokenMoves

namespace Stablecoin

/-! ## Entries -/

namespace TokenBook

variable {b b₁ b' : TokenBook} {account source target : Address} {amount held : Amount}
  {named others : List Address}

/-- No balance of zero is kept. -/
def Tidy (b : TokenBook) : Prop := ∀ a, b.balances.get? a ≠ some 0

/-- Entries are as they were, or of accounts that are named; and then they are not zero. -/
def Rewritten (b : TokenBook) (named : List Address) (b' : TokenBook) : Prop :=
  ∀ a, b'.balances.get? a = b.balances.get? a ∨ (a ∈ named ∧ b'.balances.get? a ≠ some 0)

namespace Rewritten

theorem refl (b : TokenBook) (named : List Address) : b.Rewritten named b := fun _ => Or.inl rfl

theorem trans (h : b.Rewritten named b₁) (h' : b₁.Rewritten others b') :
    b.Rewritten (named ++ others) b' := by
  intro a
  obtain hsame | ⟨hother, hpos⟩ := h' a
  · rw [hsame]
    exact (h a).imp_right fun ⟨hnamed, hpos⟩ => ⟨List.mem_append_left _ hnamed, hpos⟩
  · exact Or.inr ⟨List.mem_append_right _ hother, hpos⟩

theorem of_insert (h0 : held ≠ 0) (hb : b'.balances = b.balances.insert account held) :
    b.Rewritten [account] b' := by
  intro a
  rw [hb, Table.get?_insert_of]
  by_cases ha : a = account
  · rw [if_pos ha]
    exact Or.inr ⟨List.mem_singleton.2 ha, fun h => h0 (Option.some.inj h)⟩
  · rw [if_neg ha]
    exact Or.inl rfl

theorem of_erase (hb : b'.balances = b.balances.erase account) : b.Rewritten [account] b' := by
  intro a
  rw [hb, Table.get?_erase_of]
  by_cases ha : a = account
  · rw [if_pos ha]
    exact Or.inr ⟨List.mem_singleton.2 ha, nofun⟩
  · rw [if_neg ha]
    exact Or.inl rfl

theorem others_eq (h : b.Rewritten named b') (ha : account ∉ named) :
    b'.balances.get? account = b.balances.get? account :=
  (h account).resolve_right fun hnamed => ha hnamed.1

theorem tidy (h : b.Rewritten named b') (hb : b.Tidy) : b'.Tidy := by
  intro a
  obtain hsame | ⟨-, hpos⟩ := h a
  · rw [hsame]
    exact hb a
  · exact hpos

end Rewritten

theorem credited_rewritten (h0 : amount ≠ 0) (h : b.credited account amount = .ok b') :
    b.Rewritten [account] b' := by
  obtain ⟨held, hheld, rfl⟩ := credited_eq_ok_iff.1 h
  refine .of_insert ?_ rfl
  rw [Amount.ne_zero_iff] at h0 ⊢
  omega

theorem debited_rewritten (h : b.debited account amount = .ok b') : b.Rewritten [account] b' := by
  obtain ⟨held, -, rfl⟩ := debited_eq_ok_iff.1 h
  by_cases h0 : held = 0
  · exact .of_erase (if_pos h0)
  · exact .of_insert h0 (if_neg h0)

theorem mint_rewritten (h : b.mint target amount = .ok b') : b.Rewritten [target] b' := by
  obtain ⟨h0, _, credit, -, hc, rfl⟩ := mint_eq_ok_iff.1 h
  have hcredit := credited_rewritten h0 hc
  exact hcredit

theorem burn_rewritten (h : b.burn source amount = (.ok (), b')) : b.Rewritten [source] b' := by
  obtain ⟨-, debit, _, hd, -, rfl⟩ := burn_eq_ok_iff.1 h
  have hdebit := debited_rewritten hd
  exact hdebit

theorem move_rewritten (h : b.move source target amount = .ok b') :
    b.Rewritten [source, target] b' := by
  obtain ⟨h0, ⟨-, rfl⟩ | ⟨-, _, debit, credit, -, hd, hc, rfl⟩⟩ := move_eq_ok_iff.1 h
  · exact .refl b' _
  · have hmoved := (debited_rewritten hd).trans (credited_rewritten h0 hc)
    exact hmoved

theorem Balanced.isConsistent (hb : b.Balanced) : b.isConsistent = true :=
  decide_eq_true (Amount.foldl_addClamped_eq hb)

end TokenBook

namespace TokenMove

/-- The accounts that a movement names. -/
def accounts (m : TokenMove) : List Address := (m.debit.toList ++ m.credit.toList).map Prod.fst

theorem rewritten {b b' : TokenBook} {m : TokenMove} (h : m.apply b = (.ok (), b')) :
    b.Rewritten m.accounts b' := by
  cases m with
  | mint target amount => exact TokenBook.mint_rewritten (settle_eq_ok_iff.1 h)
  | burn source amount => exact TokenBook.burn_rewritten h
  | toPool source pool amount => exact TokenBook.move_rewritten (settle_eq_ok_iff.1 h)
  | fromPool pool target amount => exact TokenBook.move_rewritten (settle_eq_ok_iff.1 h)

end TokenMove

/-! ## Calls -/

/-- What can be asked of a token book. -/
inductive TokenCall
  | move (move : TokenMove)
  /-- A transfer between users. -/
  | transfer (source target : Address) (amount : Amount)
deriving DecidableEq

namespace TokenCall

variable {b b' : TokenBook} {c : TokenCall}

/-- Makes the call. -/
def apply (b : TokenBook) : TokenCall → Attempt Unit × TokenBook
  | move m => m.apply b
  | transfer source target amount => settle b (b.transfer source target amount)

/-- The movement that is asked for: a transfer that is accepted is one as into a pool. -/
def asMove : TokenCall → TokenMove
  | move m => m
  | transfer source target amount => .toPool source target amount

theorem apply_asMove (h : c.apply b = (.ok (), b')) : c.asMove.apply b = (.ok (), b') := by
  cases c with
  | move m => exact h
  | transfer source target amount =>
    obtain ⟨-, -, -, hmove⟩ := TokenBook.transfer_ok (settle_eq_ok_iff.1 h)
    exact settle_eq_ok_iff.2 hmove

theorem apply_error {stop : Stop} (hb : b.Balanced) (h : c.apply b = (.error stop, b')) :
    b' = b := by
  cases c with
  | move m => exact TokenMove.apply_error hb h
  | transfer source target amount => exact settle_error h

theorem not_halts_apply (b : TokenBook) (c : TokenCall) : ¬ Halts (c.apply b).1 := by
  rw [halts_iff_fails]
  cases c with
  | move m => exact m.not_fails_apply b
  | transfer source target amount => simp [apply]

/-- What a call does that is accepted: the supply moves with what is created and destroyed, and
balances with what is given and taken; accounts that are not named keep their entries. -/
structure Effect (c : TokenCall) (b b' : TokenBook) : Prop where
  supply_eq : b'.supply.val + c.asMove.burned = b.supply.val + c.asMove.minted
  balance_eq : ∀ a, (b'.balance a).val + c.asMove.taken a = (b.balance a).val + c.asMove.given a
  others_eq : ∀ a, a ∉ c.asMove.accounts → b'.balances.get? a = b.balances.get? a
  /-- Only creating and destroying tokens changes the supply. -/
  supply_kept : (∀ target amount, c ≠ .move (.mint target amount)) →
    (∀ source amount, c ≠ .move (.burn source amount)) → b'.supply = b.supply

theorem effect (h : c.apply b = (.ok (), b')) : c.Effect b b' := by
  obtain ⟨hsupply, -, hbalance⟩ := TokenMove.apply_ok (apply_asMove h)
  have hrewritten := TokenMove.rewritten (apply_asMove h)
  refine ⟨hsupply, hbalance, fun a ha => hrewritten.others_eq ha, ?_⟩
  intro hmint hburn
  refine Amount.ext ?_
  cases c with
  | move m =>
    cases m with
    | mint target amount => exact absurd rfl (hmint target amount)
    | burn source amount => exact absurd rfl (hburn source amount)
    | toPool source pool amount => exact hsupply
    | fromPool pool target amount => exact hsupply
  | transfer source target amount => exact hsupply

theorem apply_snd_tidy (hb : b.Balanced) (ht : b.Tidy) (c : TokenCall) :
    (c.apply b).2.Balanced ∧ (c.apply b).2.Tidy := by
  rcases h : c.apply b with ⟨stop | ⟨⟩, b'⟩
  · rw [apply_error hb h]
    exact ⟨hb, ht⟩
  · have hmove := apply_asMove h
    exact ⟨TokenMove.apply_balanced hb hmove, (TokenMove.rewritten hmove).tidy ht⟩

end TokenCall

/-! ## Any calls -/

namespace TokenBook

variable {b : TokenBook}

/-- The book after calls, accepted or refused. -/
def after (b : TokenBook) (calls : List TokenCall) : TokenBook :=
  calls.foldl (fun b c => (c.apply b).2) b

/-- The supply is the sum of the balances, none of which is zero, and whatever is asked next is
refused without a trace, or changes what it names. -/
structure Conserving (b : TokenBook) : Prop where
  supply_eq : b.supply.val = (b.balances.values.map Amount.val).sum
  isConsistent : b.isConsistent = true
  nonzero : ∀ account held, b.balances.get? account = some held → held ≠ 0
  answered : ∀ c : TokenCall, ¬ Halts (c.apply b).1
  refused : ∀ (c : TokenCall) stop b', c.apply b = (.error stop, b') → b' = b
  accepted : ∀ (c : TokenCall) b', c.apply b = (.ok (), b') → c.Effect b b'

theorem Balanced.conserving (hb : b.Balanced) (ht : b.Tidy) : b.Conserving where
  supply_eq := hb
  isConsistent := hb.isConsistent
  nonzero account _ h h0 := ht account (h0 ▸ h)
  answered := TokenCall.not_halts_apply b
  refused _ _ _ h := TokenCall.apply_error hb h
  accepted _ _ h := TokenCall.effect h

theorem after_balanced (hb : b.Balanced) (ht : b.Tidy) (calls : List TokenCall) :
    (b.after calls).Balanced ∧ (b.after calls).Tidy := by
  induction calls generalizing b with
  | nil => exact ⟨hb, ht⟩
  | cons c rest ih =>
    obtain ⟨hb', ht'⟩ := TokenCall.apply_snd_tidy hb ht c
    exact ih hb' ht'

/-- **A token book conserves its supply,** from its start and after any calls, accepted or
refused. -/
theorem after_conserving (name symbol : String) (guarded : List Address)
    (calls : List TokenCall) : ((empty name symbol guarded).after calls).Conserving := by
  obtain ⟨hb, ht⟩ := after_balanced (b := empty name symbol guarded) rfl (fun _ => nofun) calls
  exact hb.conserving ht

end TokenBook

end Stablecoin
