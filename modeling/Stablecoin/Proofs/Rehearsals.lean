/-
  Stablecoin theory — movements that were rehearsed.

  Movements of tokens are rehearsed on balances of their own before any of them is made.
  The rehearsal demands of each account what the book demands of it, also where accounts
  repeat or pay themselves.  But it keeps no supply, and the book does: a supply without
  room stops the movements halfway, with those before it made.

  * `TokenBook.HasRoomFor`: at no point is more created than the supply can take;
  * `TokenBook.StopsFull`: the first movement without room is refused, and leaves the book as
    the ones before it made it;
  * `Draft.made_or_stops` goes through rehearsal and book in step: before each movement
    they hold the same balances.  The movements are all made, and leave what was
    rehearsed, or stop there; which of the two, only the room decides.  There is room if
    the supply can take all that is created (`Draft.exists_applyInTurn`).
-/
import Stablecoin.Proofs.TokenCalls

namespace Stablecoin

/-! ## Room in the supply -/

namespace TokenBook

variable {b next : TokenBook} {target : Address} {amount : Amount} {m : TokenMove}
  {moves rest : List TokenMove}

/-- At no point of the movements is more created than the supply can take. -/
def HasRoomFor (b : TokenBook) (moves : List TokenMove) : Prop := ∀ done, done <+: moves →
  b.supply.val + TokenMove.mintedBy done < Amount.limit + TokenMove.burnedBy done

/-- The movements stop at one that creates tokens, where the supply has no room for them; those
before it are made. -/
def StopsFull (b : TokenBook) (moves : List TokenMove) : Prop :=
  ∃ (done rest : List TokenMove) (target : Address) (amount : Amount) (reached : TokenBook),
    moves = done ++ .mint target amount :: rest ∧
    applyInTurn TokenMove.apply b done = (.ok (), reached) ∧
    Amount.limit ≤ reached.supply.val + amount.val ∧
    applyInTurn TokenMove.apply b moves =
      (refuse (.overflow s!"{reached.supply} + {amount}"), reached)

theorem hasRoomFor_nil (b : TokenBook) : b.HasRoomFor [] := by
  intro done hdone
  rw [List.prefix_nil.1 hdone]
  exact b.supply.val_lt

theorem hasRoomFor_of_lt (h : b.supply.val + TokenMove.mintedBy moves < Amount.limit) :
    b.HasRoomFor moves := by
  rintro done ⟨rest, rfl⟩
  rw [TokenMove.mintedBy_append] at h
  omega

/-- Once a movement is made, what is left needs room in the supply that it leaves. -/
theorem hasRoomFor_cons_iff (h : m.apply b = (.ok (), next)) :
    b.HasRoomFor (m :: rest) ↔ next.HasRoomFor rest := by
  obtain ⟨hsupply, -, -⟩ := TokenMove.apply_ok h
  have hstep (done : List TokenMove) :
      b.supply.val + TokenMove.mintedBy (m :: done) <
          Amount.limit + TokenMove.burnedBy (m :: done) ↔
        next.supply.val + TokenMove.mintedBy done < Amount.limit + TokenMove.burnedBy done := by
    simp only [TokenMove.mintedBy, TokenMove.burnedBy, List.map_cons, List.sum_cons]
    omega
  constructor
  · intro hroom done hdone
    exact (hstep done).1 (hroom (m :: done) (List.cons_prefix_cons.2 ⟨rfl, hdone⟩))
  · intro hroom done hdone
    cases done with
    | nil => exact b.supply.val_lt
    | cons first done =>
      obtain ⟨rfl, hmore⟩ := List.cons_prefix_cons.1 hdone
      exact (hstep done).2 (hroom done hmore)

theorem not_hasRoomFor_mint (hfull : Amount.limit ≤ b.supply.val + amount.val) :
    ¬ b.HasRoomFor (.mint target amount :: rest) := by
  intro hroom
  have hfirst := hroom [.mint target amount] (List.cons_prefix_cons.2 ⟨rfl, List.nil_prefix⟩)
  exact absurd hfirst (Nat.not_lt.2 hfull)

theorem mint_of_full (h0 : amount ≠ 0) (hfull : Amount.limit ≤ b.supply.val + amount.val) :
    b.mint target amount = refuse (.overflow s!"{b.supply} + {amount}") := by
  have hsupply : b.supply.add amount = refuse (.overflow s!"{b.supply} + {amount}") := by
    rw [Amount.add, Amount.orRefuse, Amount.ofNat?, dif_neg (Nat.not_lt.2 hfull)]
    rfl
  rw [mint, demand_eq_ok_iff.2 h0, hsupply]
  rfl

theorem stopsFull_mint (h0 : amount ≠ 0) (hfull : Amount.limit ≤ b.supply.val + amount.val) :
    b.StopsFull (.mint target amount :: rest) := by
  refine ⟨[], rest, target, amount, b, rfl, rfl, hfull, ?_⟩
  rw [applyInTurn, TokenMove.apply, mint_of_full h0 hfull]
  rfl

theorem StopsFull.cons (h : m.apply b = (.ok (), next)) (hrest : next.StopsFull rest) :
    b.StopsFull (m :: rest) := by
  obtain ⟨done, behind, target, amount, reached, rfl, hdone, hfull, hstop⟩ := hrest
  refine ⟨m :: done, behind, target, amount, reached, rfl, ?_, hfull, ?_⟩
  · rw [applyInTurn, h]
    exact hdone
  · rw [applyInTurn, h]
    exact hstop

end TokenBook

/-! ## Rehearsal -/

namespace Draft

variable {book now : TokenBook} {balances balances' : Table Address Amount}
  {moves : List TokenMove}

theorem balanceIn_insert (account : Address) (held : Amount) (a : Address) :
    balanceIn book (balances.insert account held) a =
      if a = account then held else balanceIn book balances a := by
  unfold balanceIn
  rw [Table.get?_insert_of]
  split <;> rfl

theorem rehearseDebit_ok {m : TokenMove} (h : rehearseDebit book balances m.debit = .ok balances') :
    (∀ a amount, m.debit = some (a, amount) → amount ≤ balanceIn book balances a) ∧
      ∀ a, (balanceIn book balances' a).val + m.taken a = (balanceIn book balances a).val := by
  unfold TokenMove.taken
  rcases hd : m.debit with - | ⟨source, amount⟩ <;> rw [hd] at h
  · cases h
    exact ⟨nofun, fun _ => rfl⟩
  simp only [rehearseDebit, bind_eq_ok_iff, pure_eq_ok_iff, Amount.minus_eq_ok_iff] at h
  obtain ⟨_, hle, held, hheld, rfl⟩ := h
  constructor
  · intro a n he
    cases he
    exact demand_eq_ok_iff.1 hle
  · intro a
    dsimp only
    rw [balanceIn_insert]
    by_cases ha : a = source
    · rw [if_pos ha, if_pos ha, ha, hheld]
    · rw [if_neg ha, if_neg ha, Nat.add_zero]

theorem rehearseCredit_ok {m : TokenMove}
    (h : rehearseCredit book balances m.credit = .ok balances') (a : Address) :
    (balanceIn book balances' a).val = (balanceIn book balances a).val + m.given a := by
  unfold TokenMove.given
  rcases hc : m.credit with - | ⟨target, amount⟩ <;> rw [hc] at h
  · cases h
    rfl
  simp only [rehearseCredit, bind_eq_ok_iff, pure_eq_ok_iff, Amount.add_eq_ok_iff] at h
  obtain ⟨held, hheld, rfl⟩ := h
  dsimp only
  rw [balanceIn_insert]
  by_cases ha : a = target
  · rw [if_pos ha, if_pos ha, ha, hheld]
  · rw [if_neg ha, if_neg ha, Nat.add_zero]

/-- What a rehearsed movement demands, and what it does to the balances. -/
theorem rehearseMove_ok {m : TokenMove} (h : rehearseMove book balances m = .ok balances') :
    (∀ a amount, m.debit = some (a, amount) → amount ≤ balanceIn book balances a) ∧
      ∀ a, (balanceIn book balances' a).val + m.taken a =
        (balanceIn book balances a).val + m.given a := by
  obtain ⟨paid, hpaid, h⟩ := bind_eq_ok_iff.1 h
  obtain ⟨hpays, hdebit⟩ := rehearseDebit_ok hpaid
  refine ⟨hpays, ?_⟩
  intro a
  have h₁ := hdebit a
  have h₂ := rehearseCredit_ok h a
  omega

theorem pays_of_rehearseMove {m : TokenMove}
    (hsame : ∀ a, balanceIn book balances a = now.balance a)
    (h : rehearseMove book balances m = .ok balances') :
    ∀ a amount, m.debit = some (a, amount) → amount ≤ now.balance a := by
  intro a amount hd
  exact hsame a ▸ (rehearseMove_ok h).1 a amount hd

/-- A movement changes the balances of the book as it does in the rehearsal. -/
theorem balanceIn_eq_of_apply {m : TokenMove} {next : TokenBook}
    (hsame : ∀ a, balanceIn book balances a = now.balance a)
    (h : rehearseMove book balances m = .ok balances') (happly : m.apply now = (.ok (), next))
    (a : Address) : balanceIn book balances' a = next.balance a := by
  obtain ⟨-, -, hbalance⟩ := TokenMove.apply_ok happly
  have h₁ := (rehearseMove_ok h).2 a
  have h₂ := hbalance a
  rw [hsame a] at h₁
  exact Amount.ext (by omega)

/-! ## Rehearsal and book in step -/

/-- **Movements that were rehearsed** are all made, and leave the balances that were rehearsed, or
they stop where the supply has no room. -/
theorem made_or_stops (hproper : ∀ m ∈ moves, m.amount ≠ 0) (hb : now.Balanced)
    (hsame : ∀ a, balanceIn book balances a = now.balance a)
    (h : moves.foldlM (rehearseMove book) balances = .ok balances') :
    (now.HasRoomFor moves ∧ ∃ next, applyInTurn TokenMove.apply now moves = (.ok (), next) ∧
      ∀ a, next.balance a = balanceIn book balances' a) ∨
    (¬ now.HasRoomFor moves ∧ now.StopsFull moves) := by
  induction moves generalizing now balances with
  | nil =>
    cases h
    exact Or.inl ⟨now.hasRoomFor_nil, now, rfl, fun a => (hsame a).symm⟩
  | cons m rest ih =>
    rw [List.foldlM_cons] at h
    obtain ⟨middle, hm, hrest⟩ := bind_eq_ok_iff.1 h
    obtain ⟨h0, hproper⟩ := List.forall_mem_cons.1 hproper
    -- Balances agree before `m`, so that only the supply can refuse it.
    by_cases hroom : now.supply.val + m.minted < Amount.limit
    · obtain ⟨after, hafter⟩ := TokenMove.exists_apply h0 hb (pays_of_rehearseMove hsame hm) hroom
      rw [TokenBook.hasRoomFor_cons_iff hafter]
      obtain ⟨hfits, next, hnext, hbalance⟩ | ⟨hfull, hstops⟩ :=
        ih hproper (TokenMove.apply_balanced hb hafter) (balanceIn_eq_of_apply hsame hm hafter)
          hrest
      · refine Or.inl ⟨hfits, next, ?_, hbalance⟩
        rw [applyInTurn, hafter]
        exact hnext
      · exact Or.inr ⟨hfull, hstops.cons hafter⟩
    · rw [Nat.not_lt] at hroom
      cases m with
      | mint target amount =>
        exact Or.inr ⟨TokenBook.not_hasRoomFor_mint hroom, TokenBook.stopsFull_mint h0 hroom⟩
      | burn | toPool | fromPool => exact absurd now.supply.val_lt (Nat.not_lt.2 hroom)

/-- **Movements that were rehearsed can be made,** as long as there is room for what they mint. -/
theorem exists_applyInTurn (hproper : ∀ m ∈ moves, m.amount ≠ 0)
    (hb : now.Balanced) (hroom : now.supply.val + TokenMove.mintedBy moves < Amount.limit)
    (hsame : ∀ a, balanceIn book balances a = now.balance a)
    (h : moves.foldlM (rehearseMove book) balances = .ok balances') :
    ∃ next, applyInTurn TokenMove.apply now moves = (.ok (), next) ∧ next.Balanced ∧
      next.supply.val + TokenMove.burnedBy moves = now.supply.val + TokenMove.mintedBy moves := by
  obtain ⟨-, next, hnext, -⟩ | ⟨hfull, -⟩ := made_or_stops hproper hb hsame h
  · have hbalanced := TokenMove.applyInTurn_balanced hb moves
    rw [hnext] at hbalanced
    exact ⟨next, hnext, hbalanced, TokenMove.applyInTurn_supply hnext⟩
  · exact absurd (TokenBook.hasRoomFor_of_lt hroom) hfull

/-- **A rehearsal is right about balances:** of a book after any calls, movements that were
rehearsed are all made if and only if the supply has room for them; then every account holds what
was rehearsed, and otherwise they stop where the room ends. -/
theorem rehearsed_made_iff (name symbol : String) (guarded : List Address)
    (calls : List TokenCall) (hbook : book = (TokenBook.empty name symbol guarded).after calls)
    (hproper : ∀ m ∈ moves, m.amount ≠ 0) (h : rehearse book moves = .ok balances) :
    ((∃ next, applyInTurn TokenMove.apply book moves = (.ok (), next)) ↔ book.HasRoomFor moves) ∧
      (∀ next, applyInTurn TokenMove.apply book moves = (.ok (), next) →
        ∀ a, next.balance a = balanceIn book balances a) ∧
      (¬ book.HasRoomFor moves → book.StopsFull moves) := by
  have hb : book.Balanced := by
    rw [hbook]
    exact (TokenBook.after_balanced (b := .empty name symbol guarded) rfl (fun _ => nofun) calls).1
  obtain ⟨hroom, next, hnext, hbalance⟩ | ⟨hfull, hstops⟩ :=
    made_or_stops hproper hb (fun _ => rfl) h
  · refine ⟨⟨fun _ => hroom, fun _ => ⟨next, hnext⟩⟩, ?_, fun hfull => absurd hroom hfull⟩
    intro other hother
    cases hnext.symm.trans hother
    exact hbalance
  · have hrefused : ∀ next, applyInTurn TokenMove.apply book moves ≠ (.ok (), next) := by
      obtain ⟨_, _, _, _, _, -, -, -, hstop⟩ := hstops
      rw [hstop]
      exact fun _ => nofun
    refine ⟨⟨fun ⟨next, hnext⟩ => absurd hnext (hrefused next), fun hroom => absurd hroom hfull⟩,
      fun next hnext => absurd hnext (hrefused next), fun _ => hstops⟩

/-- A book with a single unit. -/
def oneUnit (holder : Address) : TokenBook :=
  (TokenBook.empty "" "" []).after [.move (.mint holder 1)]

/-- The unit is paid on, paid to the account that has it, paid back, and destroyed. -/
def paidBack (holder payee : Address) : List TokenMove :=
  [.toPool holder payee 1, .toPool payee payee 1, .fromPool payee holder 1, .burn holder 1]

theorem rehearsed_made_iff_paidBack : ∃ holder payee, holder ≠ payee ∧
    (oneUnit holder).HasRoomFor (paidBack holder payee) ∧ ∃ balances next,
      rehearse (oneUnit holder) (paidBack holder payee) = .ok balances ∧
      applyInTurn TokenMove.apply (oneUnit holder) (paidBack holder payee) = (.ok (), next) ∧
      ∀ a, next.balance a = balanceIn (oneUnit holder) balances a := by
  refine ⟨⟨1, by decide⟩, ⟨2, by decide⟩, by decide, ?_⟩
  have hproper : ∀ m ∈ paidBack ⟨1, by decide⟩ ⟨2, by decide⟩, m.amount ≠ 0 := by decide
  have hrehearsed :
      rehearse (oneUnit ⟨1, by decide⟩) (paidBack ⟨1, by decide⟩ ⟨2, by decide⟩) =
        .ok (.ofList [(⟨1, by decide⟩, 0), (⟨2, by decide⟩, 0)]) := by
    decide +kernel
  obtain ⟨next, hmade⟩ : ∃ next, applyInTurn TokenMove.apply (oneUnit ⟨1, by decide⟩)
      (paidBack ⟨1, by decide⟩ ⟨2, by decide⟩) = (.ok (), next) :=
    ⟨(applyInTurn TokenMove.apply (oneUnit ⟨1, by decide⟩)
      (paidBack ⟨1, by decide⟩ ⟨2, by decide⟩)).2, by decide +kernel⟩
  obtain ⟨hiff, hbalances, -⟩ := rehearsed_made_iff "" "" [] _ rfl hproper hrehearsed
  exact ⟨hiff.1 ⟨next, hmade⟩, _, next, hrehearsed, hmade, hbalances next hmade⟩

/-- A book whose supply has room for a single unit. -/
def almostFull (holder : Address) : TokenBook :=
  (TokenBook.empty "" "" []).after [.move (.mint holder (Amount.maximum.subClamped 1))]

/-- Two units are created, one by one. -/
def twoUnits (target : Address) : List TokenMove := [.mint target 1, .mint target 1]

/-- The account has room for what it is given, so that the rehearsal accepts it.  The supply has
not: the second movement is refused, after the first was made. -/
theorem rehearsed_but_refused : ∃ holder target,
    (∀ m ∈ twoUnits target, m.amount ≠ 0) ∧
    rehearse (almostFull holder) (twoUnits target) = .ok (.ofList [(target, ⟨2, by decide⟩)]) ∧
    (applyInTurn TokenMove.apply (almostFull holder) (twoUnits target)).1 =
      refuse (.overflow s!"{Amount.maximum} + {(1 : Amount)}") ∧
    (applyInTurn TokenMove.apply (almostFull holder) (twoUnits target)).2.supply = .maximum ∧
    (applyInTurn TokenMove.apply (almostFull holder) (twoUnits target)).2.balance target = 1 :=
  ⟨⟨1, by decide⟩, ⟨2, by decide⟩, by decide, by decide +kernel, by decide +kernel,
    by decide +kernel, by decide +kernel⟩

end Draft

end Stablecoin
