/-
  Stablecoin theory — the bytes of a state are read back.

  * `Form.Restores` says of one value that it is read back from its bytes, whatever
    follows them; a form is lossless if it restores every value.  Sequences and
    tables are restored as long as a word can count their entries, and records as
    long as their fields are;
  * `Table.ofList_entries`: a table is what its entries make when they are entered in
    turn;
  * `State.bytes_lossless`: a state is read back from its bytes, and so no two states
    have the same.
-/
import Stablecoin.Proofs.HexTexts
import Stablecoin.Proofs.Runs

namespace Stablecoin

/-! ## Tables -/

namespace Table

variable {κ ν : Type} [Key κ]

theorem insertEntry_of_lt {k : κ} {v : ν} {l : List (κ × ν)}
    (h : ∀ e ∈ l, Key.rank e.1 < Key.rank k) : insertEntry k v l = l ++ [(k, v)] := by
  induction l with
  | nil => rfl
  | cons e rest ih =>
    have he := h e List.mem_cons_self
    rw [insertEntry, if_neg (by omega), if_neg (by omega),
      ih fun x hx => h x (List.mem_cons_of_mem _ hx)]
    rfl

/-- Entering pairs behind all others appends them. -/
theorem entries_foldl_insert {pairs : List (κ × ν)} {t : Table κ ν}
    (h : (t.entries ++ pairs).Pairwise fun a b => Key.rank a.1 < Key.rank b.1) :
    (pairs.foldl (fun t e => t.insert e.1 e.2) t).entries = t.entries ++ pairs := by
  induction pairs generalizing t with
  | nil => exact (List.append_nil _).symm
  | cons e rest ih =>
    have hinsert : (t.insert e.1 e.2).entries = t.entries ++ [e] :=
      insertEntry_of_lt fun x hx => (List.pairwise_append.1 h).2.2 x hx e List.mem_cons_self
    rw [List.foldl_cons, ih, hinsert, List.append_assoc]
    · rfl
    · rw [hinsert, List.append_assoc]
      exact h

/-- **A table is made by its entries.** -/
theorem ofList_entries (t : Table κ ν) : ofList t.entries = t :=
  ext (entries_foldl_insert t.ordered)

end Table

namespace Form

variable {α β κ ν τ : Type}

/-- The value is read back from its bytes, whatever follows them. -/
def Restores (form : Form α) (a : α) : Prop :=
  ∀ rest, form.ofBytes? (form.toBytes a ++ rest) = some (a, rest)

/-! ## Words and texts -/

theorem takeNumber_count {n : Nat} (h : n < UInt64.size) (rest : Bytes) :
    takeNumber 8 (Bytes.little 8 n ++ rest) = some (n, rest) :=
  have hlt : n < Nat.pow 256 8 := h
  takeNumber_little hlt rest

/-- A text is restored if a word can count its bytes. -/
theorem restores_text {s : String} (h : (Bytes.ofText s).length < UInt64.size) :
    text.Restores s := by
  intro rest
  simp [text, takeNumber_count h, Bytes.toText?_ofText]

theorem restores_spelled {print : α → String} {read : String → Option α} {a : α}
    (hlength : (Bytes.ofText (print a)).length < UInt64.size) (hread : read (print a) = some a) :
    (spelled print read).Restores a := by
  intro rest
  have htext := restores_text hlength rest
  simp [spelled, htext, hread]

/-! ## Sequences and tables -/

theorem takeMany_flatMap {form : Form α} {xs : List α} (h : ∀ x ∈ xs, form.Restores x)
    (rest : Bytes) :
    takeMany form.ofBytes? xs.length (xs.flatMap form.toBytes ++ rest) = some (xs, rest) := by
  induction xs with
  | nil => rfl
  | cons x more ih =>
    have hx := h x List.mem_cons_self (more.flatMap form.toBytes ++ rest)
    simp [takeMany, hx, ih fun y hy => h y (List.mem_cons_of_mem _ hy)]

/-- A sequence is restored if its items are, and a word can count them. -/
theorem restores_seq {form : Form α} {xs : List α} (hlength : xs.length < UInt64.size)
    (h : ∀ x ∈ xs, form.Restores x) : (seq form).Restores xs := by
  intro rest
  simp [seq, takeNumber_count hlength, takeMany_flatMap h]

theorem restores_pair {first : Form α} {second : Form β} {x : α × β} (hf : first.Restores x.1)
    (hs : second.Restores x.2) : (pair first second).Restores x := by
  intro rest
  simp [pair, hf (second.toBytes x.2 ++ rest), hs rest]

/-- **A table is restored** if its values are, and a word can count its entries. -/
theorem restores_table [Key κ] {key : OfKey κ} {value : Form ν} {t : Table κ ν}
    (hkey : key.form.Lossless) (hsize : t.size < UInt64.size)
    (hvalues : ∀ e ∈ t.entries, value.Restores e.2) : (table key value).Restores t := by
  intro rest
  have hentries : (seq (pair key.form value)).Restores t.entries :=
    restores_seq hsize fun e he => restores_pair (hkey e.1) (hvalues e he)
  simp [table, hentries rest, Table.ofList_entries]

/-! ## Names -/

/-- A value that carries nothing is restored if it is one of those that have a name. -/
theorem restores_names [DecidableEq α] {cases : List (String × α)} {a : α}
    (hlength : cases.length < Nat.pow 256 4) (ha : ∃ c ∈ cases, c.2 = a) :
    (names cases).Restores a := by
  intro rest
  have hplace : placeIn cases a < cases.length :=
    List.findIdx_lt_length_of_exists (by simpa using ha)
  have hfound : cases[placeIn cases a].2 = a := by
    have hp := List.findIdx_getElem (w := hplace)
    exact of_decide_eq_true hp
  simp [names, takeNumber_little (Nat.lt_trans hplace hlength), hplace, hfound]

end Form

/-! ## Records -/

namespace Fields

variable {α τ : Type}

/-- The values are read back from their bytes, whatever follows them. -/
def Restores (fields : Fields τ) (x : τ) : Prop :=
  ∀ rest, fields.ofBytes? (fields.toBytes x ++ rest) = some (x, rest)

theorem restores_done : done.Restores () := fun _ => rfl

theorem restores_field {name : String} {form : Form α} {more : Fields τ} {x : α × τ}
    (hform : form.Restores x.1) (hmore : more.Restores x.2) :
    (field name form more).Restores x := by
  intro rest
  simp [field, hform (more.toBytes x.2 ++ rest), hmore rest]

end Fields

/-- **A record is restored if its fields are,** and they make the value they were taken from. -/
theorem Form.restores_record {α τ : Type} {fields : Fields τ} {view : α → τ} {make : τ → α} {a : α}
    (hfields : fields.Restores (view a)) (hmake : make (view a) = a) :
    (record fields view make).Restores a := by
  intro rest
  simp [record, hfields rest, hmake]

/-! ## Amounts, addresses and statuses -/

theorem Amount.lossless_form : Amount.form.Lossless := fun a =>
  Form.restores_spelled (Nat.lt_of_le_of_lt a.length_hex_le (by decide)) a.ofHex?_hex

theorem Address.lossless_form : Address.form.Lossless := fun a =>
  Form.restores_spelled (by rw [a.length_hex]; decide) a.ofHex?_hex

theorem TroveStatus.lossless_form : TroveStatus.form.Lossless := fun status =>
  Form.restores_names (by decide) (by cases status <;> decide)

/-! ## Troves and pools -/

open Fields (restores_field restores_done)
open Form (restores_record lossless_word)

theorem Snapshot.lossless_form : Snapshot.form.Lossless := fun _ =>
  restores_record (restores_field (Amount.lossless_form _) <|
    restores_field (Amount.lossless_form _) restores_done) rfl

theorem Trove.lossless_form : Trove.form.Lossless := fun _ =>
  restores_record (restores_field (Address.lossless_form _) <|
    restores_field (Amount.lossless_form _) <| restores_field (Amount.lossless_form _) <|
    restores_field (Amount.lossless_form _) <| restores_field (TroveStatus.lossless_form _) <|
    restores_field (Snapshot.lossless_form _) restores_done) rfl

theorem Redistribution.lossless_form : Redistribution.form.Lossless := fun _ =>
  restores_record (restores_field (Amount.lossless_form _) <|
    restores_field (Amount.lossless_form _) <| restores_field (Amount.lossless_form _) <|
    restores_field (Amount.lossless_form _) <| restores_field (Amount.lossless_form _) <|
    restores_field (Amount.lossless_form _) <|
    restores_field (Amount.lossless_form _) restores_done) rfl

theorem BaseRate.lossless_form : BaseRate.form.Lossless := fun _ =>
  restores_record (restores_field (Amount.lossless_form _) <|
    restores_field (lossless_word _) restores_done) rfl

theorem Balance.lossless_form : Balance.form.Lossless := fun _ =>
  restores_record (restores_field (Amount.lossless_form _) <|
    restores_field (Amount.lossless_form _) restores_done) rfl

theorem Surplus.restores_form {s : Surplus} (h : s.claims.size < UInt64.size) :
    Surplus.form.Restores s :=
  restores_record (restores_field
    (Form.restores_table Address.lossless_form h fun _ _ => Amount.lossless_form _) <|
    restores_field (Amount.lossless_form _) restores_done) rfl

theorem Pools.restores_form {p : Pools} (h : p.surplus.claims.size < UInt64.size) :
    Pools.form.Restores p :=
  restores_record (restores_field (Balance.lossless_form _) <|
    restores_field (Balance.lossless_form _) <| restores_field (Surplus.restores_form h) <|
    restores_field (Amount.lossless_form _) restores_done) rfl

/-! ## The stability pool -/

theorem PoolSnapshot.lossless_form : PoolSnapshot.form.Lossless := fun _ =>
  restores_record (restores_field (Amount.lossless_form _) <|
    restores_field (Amount.lossless_form _) <| restores_field (lossless_word _) <|
    restores_field (lossless_word _) restores_done) rfl

theorem Deposit.lossless_form : Deposit.form.Lossless := fun _ =>
  restores_record (restores_field (Amount.lossless_form _) <|
    restores_field (PoolSnapshot.lossless_form _) restores_done) rfl

/-- No table of the pool has more entries than a word can count. -/
def StabilityPool.Countable (s : StabilityPool) : Prop :=
  s.accounts.size < UInt64.size ∧ s.sums.size < UInt64.size ∧
    ∀ e ∈ s.sums.entries, e.2.size < UInt64.size

instance (s : StabilityPool) : Decidable s.Countable :=
  inferInstanceAs (Decidable (_ ∧ _ ∧ ∀ e ∈ s.sums.entries, e.2.size < UInt64.size))

theorem StabilityPool.restores_form {s : StabilityPool} (h : s.Countable) :
    StabilityPool.form.Restores s := by
  obtain ⟨haccounts, hsums, hscales⟩ := h
  have hscale : ∀ e ∈ s.sums.entries,
      (Form.table Form.keyOfWord Amount.form).Restores e.2 := fun e he =>
    Form.restores_table lossless_word (hscales e he) fun _ _ => Amount.lossless_form _
  exact restores_record (restores_field (Amount.lossless_form _) <|
    restores_field (Amount.lossless_form _) <| restores_field (Amount.lossless_form _) <|
    restores_field (lossless_word _) <| restores_field (lossless_word _) <|
    restores_field (Form.restores_table lossless_word hsums hscale) <|
    restores_field (Amount.lossless_form _) <| restores_field (Amount.lossless_form _) <|
    restores_field (Form.restores_table Address.lossless_form haccounts fun _ _ =>
      Deposit.lossless_form _) <|
    restores_field (lossless_word _) restores_done) rfl

/-! ## The state -/

namespace State

/-- No table of the state has more entries than a word can count. -/
def Countable (s : State) : Prop :=
  s.troves.size < UInt64.size ∧ s.pools.surplus.claims.size < UInt64.size ∧ s.stability.Countable

instance (s : State) : Decidable s.Countable :=
  inferInstanceAs (Decidable (_ ∧ _ ∧ s.stability.Countable))

theorem restores_form {s : State} (h : s.Countable) : State.form.Restores s := by
  obtain ⟨htroves, hclaims, hpool⟩ := h
  exact restores_record (restores_field
    (Form.restores_table Address.lossless_form htroves fun _ _ => Trove.lossless_form _) <|
    restores_field (lossless_word _) <| restores_field (Redistribution.lossless_form _) <|
    restores_field (BaseRate.lossless_form _) <| restores_field (Pools.restores_form hclaims) <|
    restores_field (StabilityPool.restores_form hpool) <|
    restores_field (lossless_word _) restores_done) rfl

/-- **A state is read back from its bytes,** whatever follows them, and so no other state has the
same bytes; as long as its tables have no more entries than a word can count. -/
theorem bytes_lossless {s : State} (h : s.Countable) :
    (∀ rest, ofBytes (s.bytes ++ rest) = .ok s) ∧
      ∀ s', s'.Countable → s'.bytes = s.bytes → s' = s := by
  have hread : ∀ {s : State} (rest : Bytes), s.Countable → ofBytes (s.bytes ++ rest) = .ok s := by
    intro s rest h
    rw [ofBytes, bytes, restores_form h rest]
    rfl
  refine ⟨fun rest => hread rest h, ?_⟩
  intro s' h' heq
  have hs := hread [] h
  rw [← heq, hread [] h'] at hs
  exact Except.ok.inj hs

/-- The state after a liquidation against deposits, with the sums of the pool and troves both open
and closed. -/
theorem bytes_lossless_firstOffset : ∃ start,
    Ledger.starting .standard Ledger.twoThousand = .ok start ∧
    (start.after Ledger.firstOffset).state.Countable ∧
    ∀ rest, ofBytes ((start.after Ledger.firstOffset).state.bytes ++ rest) =
      .ok (start.after Ledger.firstOffset).state := by
  obtain ⟨start, h⟩ : ∃ start, Ledger.starting .standard Ledger.twoThousand = .ok start :=
    ⟨_, Ledger.starting_standard _⟩
  have hcountable : (start.after Ledger.firstOffset).state.Countable := by
    rw [Ledger.starting_eq h]
    decide +kernel
  exact ⟨start, h, hcountable, (bytes_lossless hcountable).1⟩

end State

end Stablecoin
