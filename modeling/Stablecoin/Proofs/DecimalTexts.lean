/-
  Stablecoin theory — the grammar of decimal texts.

  People write amounts in whole units with up to 18 places.  A text that is read is
  taken apart: blanks around it, the first point, the digits on either side.

  * `Text.number?_eq_some_iff`, `Text.splitPoint_eq_iff`, `Text.surrounds_trim` and
    `Text.trim_of_surrounds` say what each part of a reader finds;
  * `Amount.Writes` is the grammar, without the reader, and `Amount.ofDecimal_eq_ok_iff`
    that these texts are read and no others;
  * `Amount.decimal_writes`: zeros before the places, and none behind them, leave the
    value as it is, so that an amount is read back from its own text
    (`Amount.ofDecimal_decimal`).
-/
import Stablecoin.Proofs.Failures
import Stablecoin.Proofs.HexTexts

namespace Stablecoin

namespace Text

variable {text body before whole places : List Char} {c : Char} {n : Nat}

/-! ## Digits -/

/-- Nothing but ASCII digits. -/
def Digits (text : List Char) : Prop := ∀ c ∈ text, c.isDigit = true

/-- The number that digits write; no digits write zero. -/
def value (text : List Char) : Nat := Nat.ofDigitChars 10 text 0

theorem digits_cons : Digits (c :: text) ↔ c.isDigit = true ∧ Digits text := List.forall_mem_cons

theorem digits_append : Digits (whole ++ places) ↔ Digits whole ∧ Digits places :=
  List.forall_mem_append

theorem digit?_eq (c : Char) : digit? c = if c.isDigit then some (c.toNat - 48) else none := by
  have hiff : c.isDigit = true ↔ '0' ≤ c ∧ c ≤ '9' := Char.isDigit_iff_toNat
  simp only [digit?, hiff]

/-- What is read is digits, and the number that they write. -/
theorem number?_eq_some_iff {acc : Nat} :
    number? acc text = some n ↔ Digits text ∧ Nat.ofDigitChars 10 text acc = n := by
  induction text generalizing acc with
  | nil => exact ⟨fun h => ⟨nofun, Option.some.inj h⟩, fun h => congrArg some h.2⟩
  | cons c rest ih =>
    rw [number?, digit?_eq, digits_cons, Nat.ofDigitChars_cons]
    by_cases hc : c.isDigit = true
    · rw [if_pos hc]
      simp only [ih, hc, true_and]
      rfl
    · simp [hc]

theorem byteLength_of_digits (h : Digits text) : byteLength text = text.length := by
  have hascii : ∀ c ∈ text, c.toNat < 128 := fun c hc =>
    Nat.lt_of_le_of_lt (Char.isDigit_iff_toNat.1 (h c hc)).2 (by decide)
  exact (congrArg List.length (Bytes.ofChars_of_ascii hascii)).trans (List.length_map _)

/-! ## The point -/

/-- A text is split at its first point. -/
theorem splitPoint_eq_iff : splitPoint text = (whole, places) ↔
    '.' ∉ whole ∧ (text = whole ∧ places = [] ∨ text = whole ++ '.' :: places) := by
  induction text generalizing whole with
  | nil => cases whole <;> simp [splitPoint, eq_comm]
  | cons c rest ih =>
    rw [splitPoint]
    by_cases hc : c = '.'
    · cases whole <;> simp_all [eq_comm]
    · rw [if_neg hc]
      cases whole with
      | nil => simp [hc]
      | cons d whole =>
        have hsplit : splitPoint rest = (whole, places) ↔
            (splitPoint rest).1 = whole ∧ (splitPoint rest).2 = places := Prod.ext_iff
        rw [ih] at hsplit
        simp only [Prod.mk.injEq, List.cons.injEq, List.mem_cons, List.cons_append]
        have hpoint (h : c = d) : '.' ≠ d := h ▸ Ne.symm hc
        tauto

/-! ## Blanks -/

/-- The text has the body between blanks. -/
def Surrounds (text body : List Char) : Prop := ∃ before behind : List Char,
  (∀ c ∈ before, isBlank c = true) ∧ (∀ c ∈ behind, isBlank c = true) ∧
    text = before ++ body ++ behind

theorem surrounds_self (text : List Char) : Surrounds text text :=
  ⟨[], [], nofun, nofun, (List.append_nil text).symm⟩

theorem dropBlanks_of_blank (h : ∀ c ∈ text, isBlank c = true) : dropBlanks text = [] :=
  List.dropWhile_eq_nil_iff.2 h

theorem dropBlanks_append (hbefore : ∀ c ∈ before, isBlank c = true)
    (h : ∀ c ∈ body.head?, isBlank c = false) : dropBlanks (before ++ body) = body := by
  rw [dropBlanks, List.dropWhile_append_of_pos hbefore]
  cases body with
  | nil => rfl
  | cons c rest => simp_all

theorem surrounds_trim (text : List Char) : Surrounds text (trim text) := by
  have hfront : text = text.takeWhile isBlank ++ dropBlanks text :=
    List.takeWhile_append_dropWhile.symm
  have hback : (dropBlanks text).reverse =
      (dropBlanks text).reverse.takeWhile isBlank ++ dropBlanks (dropBlanks text).reverse :=
    List.takeWhile_append_dropWhile.symm
  refine ⟨text.takeWhile isBlank, ((dropBlanks text).reverse.takeWhile isBlank).reverse,
    fun _ hc => List.mem_takeWhile_imp hc, ?_, ?_⟩
  · intro c hc
    exact List.mem_takeWhile_imp (List.mem_reverse.1 hc)
  · rw [trim, List.append_assoc, ← List.reverse_append, ← hback, List.reverse_reverse, ← hfront]

/-- Blanks around a text that has none itself are dropped. -/
theorem trim_of_surrounds (hbody : ∀ c ∈ body, isBlank c = false) (h : Surrounds text body) :
    trim text = body := by
  obtain ⟨before, behind, hbefore, hbehind, rfl⟩ := h
  have hhead {l : List Char} (hl : ∀ c ∈ l, isBlank c = false) :
      ∀ c ∈ l.head?, isBlank c = false := fun c hc => hl c (List.mem_of_mem_head? hc)
  rw [trim, List.append_assoc]
  by_cases hnil : body = []
  · subst hnil
    have hblank : ∀ c ∈ before ++ ([] ++ behind), isBlank c = true :=
      List.forall_mem_append.2 ⟨hbefore, hbehind⟩
    rw [dropBlanks_of_blank hblank]
    rfl
  · rw [dropBlanks_append hbefore, List.reverse_append, dropBlanks_append, List.reverse_reverse]
    · intro c hc
      exact hbehind c (List.mem_reverse.1 hc)
    · exact hhead fun c hc => hbody c (List.mem_reverse.1 hc)
    · rw [List.head?_append_of_ne_nil _ hnil]
      exact hhead hbody

theorem isBlank_of_isDigit (h : c.isDigit = true) : isBlank c = false := by
  obtain ⟨hlow, hhigh⟩ := Char.isDigit_iff_toNat.1 h
  change 48 ≤ c.toNat at hlow
  change c.toNat ≤ 57 at hhigh
  simp only [isBlank, Bool.or_eq_false_iff, Bool.and_eq_false_iff, decide_eq_false_iff_not,
    beq_eq_false_iff_ne]
  omega

/-! ## Numbers as they are written -/

theorem digits_toString (n : Nat) : Digits (toString n).toList := by
  rw [Nat.toString_eq_repr, Nat.toList_repr]
  exact fun c => Nat.isDigit_of_mem_toDigits (by decide) (by decide)

theorem value_toString (n : Nat) : value (toString n).toList = n := by
  rw [Nat.toString_eq_repr, Nat.toList_repr, value, Nat.ofDigitChars_ten_toDigits]

theorem toString_ne_nil (n : Nat) : (toString n).toList ≠ [] := by
  rw [Nat.toString_eq_repr, Nat.toList_repr]
  exact Nat.toDigits_ne_nil

theorem length_toString_le {width : Nat} (hw : 0 < width) (h : n < 10 ^ width) :
    (toString n).toList.length ≤ width := by
  rw [Nat.toString_eq_repr, Nat.toList_repr]
  exact (Nat.length_toDigits_le_iff (by decide) hw).2 h

theorem value_lt (h : Digits text) : value text < 10 ^ text.length := by
  induction text using List.reverseRecOn with
  | nil => decide
  | append_singleton rest c ih =>
    obtain ⟨hrest, hc⟩ := digits_append.1 h
    have hdigit : c.toNat ≤ 57 := (Char.isDigit_iff_toNat.1 (digits_cons.1 hc).1).2
    have hstep : value (rest ++ [c]) = 10 * value rest + (c.toNat - 48) := by
      rw [value, Nat.ofDigitChars_append, Nat.ofDigitChars_cons, Nat.ofDigitChars_nil]
      rfl
    have hlt := ih hrest
    rw [hstep, List.length_append, List.length_singleton, Nat.pow_succ]
    omega

theorem digits_replicate (n : Nat) : Digits (List.replicate n '0') := by
  intro c hc
  rw [List.eq_of_mem_replicate hc]
  rfl

theorem value_append_zeros (text : List Char) (n : Nat) :
    value (text ++ List.replicate n '0') = value text * 10 ^ n := by
  rw [value, Nat.ofDigitChars_append, Nat.ofDigitChars_replicate_zero, Nat.mul_comm, value]

theorem value_padZeros (n : Nat) (text : List Char) : value (padZeros n text) = value text := by
  rw [value, padZeros, Nat.ofDigitChars_append, Nat.ofDigitChars_replicate_zero, Nat.mul_zero,
    value]

theorem digits_padZeros (h : Digits text) : Digits (padZeros n text) :=
  digits_append.2 ⟨digits_replicate _, h⟩

theorem length_padZeros (h : text.length ≤ n) : (padZeros n text).length = n := by
  rw [padZeros, List.length_append, List.length_replicate]
  omega

/-- Zeros are all that is dropped. -/
theorem exists_dropTrailingZeros (text : List Char) :
    ∃ n, text = dropTrailingZeros text ++ List.replicate n '0' := by
  refine ⟨(text.reverse.takeWhile (· == '0')).length, ?_⟩
  have hzeros : (text.reverse.takeWhile (· == '0')).reverse =
      List.replicate (text.reverse.takeWhile (· == '0')).length '0' := by
    rw [List.eq_replicate_iff, List.length_reverse]
    refine ⟨rfl, ?_⟩
    intro c hc
    exact eq_of_beq (List.mem_takeWhile_imp (p := (· == '0')) (List.mem_reverse.1 hc))
  rw [← hzeros, dropTrailingZeros, ← List.reverse_append, List.takeWhile_append_dropWhile,
    List.reverse_reverse]

/-- Digits behind a point may be filled up with zeros, and zeros at their end be dropped. -/
theorem writtenPlaces {width : Nat} (hw : 0 < width) (h : n < 10 ^ width) :
    Digits (dropTrailingZeros (padZeros width (toString n).toList)) ∧
      (dropTrailingZeros (padZeros width (toString n).toList)).length ≤ width ∧
      value (dropTrailingZeros (padZeros width (toString n).toList)) *
        10 ^ (width - (dropTrailingZeros (padZeros width (toString n).toList)).length) = n := by
  have hlength := length_padZeros (length_toString_le hw h)
  have hdigits := digits_padZeros (n := width) (digits_toString n)
  have hvalue := value_padZeros width (toString n).toList
  obtain ⟨zeros, hzeros⟩ := exists_dropTrailingZeros (padZeros width (toString n).toList)
  rw [hzeros, List.length_append, List.length_replicate] at hlength
  rw [hzeros, digits_append] at hdigits
  rw [hzeros, value_append_zeros, value_toString] at hvalue
  refine ⟨hdigits.1, Nat.le.intro hlength, ?_⟩
  rw [Nat.sub_eq_of_eq_add' hlength.symm, hvalue]

end Text

/-! ## Amounts -/

namespace Amount

open Text (Digits Surrounds value)

variable {text : String} {whole places : List Char} {a : Amount} {n : Nat}

/-- The digits before and behind the point write the amount. -/
structure IsOf (a : Amount) (whole places : List Char) : Prop where
  whole_digits : Digits whole
  places_digits : Digits places
  some_digit : whole ≠ [] ∨ places ≠ []
  places_le : places.length ≤ 18
  val_eq : a.val = value whole * 10 ^ 18 + value places * 10 ^ (18 - places.length)

/-- The text writes the amount: digits between blanks, with or without a point. -/
def Writes (text : String) (a : Amount) : Prop := ∃ whole places, a.IsOf whole places ∧
  ((Surrounds text.toList whole ∧ places = []) ∨ Surrounds text.toList (whole ++ '.' :: places))

theorem ofDigits?_eq_some_iff : ofDigits? whole = some a ↔ Digits whole ∧ a.val = value whole := by
  simp only [ofDigits?, Option.bind_eq_some_iff, Text.number?_eq_some_iff, ofNat?_eq_some_iff]
  constructor
  · rintro ⟨n, ⟨hdigits, hn⟩, ha⟩
    exact ⟨hdigits, ha.trans hn.symm⟩
  · rintro ⟨hdigits, ha⟩
    exact ⟨_, ⟨hdigits, rfl⟩, ha⟩

theorem pow10_eq_ok_iff : pow10 n = .ok a ↔ n < 78 ∧ a.val = 10 ^ n := by
  unfold pow10
  split
  · next h => simp [h, orFault_eq_ok_iff]
  · next h => simp [h, fault_eq_ok_iff]

theorem ofDecimal_eq_ok_iff_isOf (h : Text.splitPoint (Text.trim text.toList) = (whole, places)) :
    ofDecimal text = .ok a ↔ a.IsOf whole places := by
  unfold ofDecimal
  rw [h]
  simp only [bind_eq_ok_iff, demandSome_eq_ok_iff, ofDigits?_eq_some_iff, times_eq_ok_iff,
    pow10_eq_ok_iff, orRefuse_eq_ok_iff, add_eq_ok_iff, Unique.exists_iff]
  simp only [PUnit.default_eq_unit, demand_eq_ok_iff]
  constructor
  · rintro ⟨hsome, hbytes, units, ⟨hwhole, hunits⟩, digits, ⟨hplaces, hdigits⟩, scale,
      ⟨-, hscale⟩, parts, hparts, scaled, hscaled, ha⟩
    rw [Text.byteLength_of_digits hplaces] at hbytes
    refine ⟨hwhole, hplaces, ?_, hbytes, ?_⟩
    · by_contra hnone
      simp only [not_or, not_not] at hnone
      exact hsome hnone
    · rw [ha, hscaled, hunits, hparts, hdigits, hscale]
      rfl
  · intro h
    have hone : 1 ≤ 10 ^ (18 - places.length) := Nat.one_le_pow _ _ (by decide)
    have hval := h.val_eq
    have hdigits_le : value places ≤ value places * 10 ^ (18 - places.length) :=
      Nat.le_mul_of_pos_right _ hone
    obtain ⟨units, hunits, -⟩ := exists_within (a := a) (n := value whole) (by omega)
    obtain ⟨digits, hdigits, -⟩ := exists_within (a := a) (n := value places) (by omega)
    obtain ⟨parts, hparts, -⟩ :=
      exists_within (a := a) (n := value places * 10 ^ (18 - places.length)) (by omega)
    obtain ⟨scaled, hscaled, -⟩ := exists_within (a := a) (n := value whole * 10 ^ 18) (by omega)
    have hscale_lt : 10 ^ (18 - places.length) < limit :=
      lt_of_le_of_lt (Nat.pow_le_pow_right (by decide) (Nat.sub_le 18 _)) (by decide)
    obtain ⟨scale, hscale⟩ := exists_val_eq hscale_lt
    refine ⟨?_, ?_, units, ⟨h.whole_digits, hunits⟩, digits, ⟨h.places_digits, hdigits⟩, scale,
      ⟨?_, hscale⟩, parts, ?_, scaled, ?_, ?_⟩
    · rintro ⟨hwhole, hplaces⟩
      exact h.some_digit.elim (fun hne => hne hwhole) fun hne => hne hplaces
    · rw [Text.byteLength_of_digits h.places_digits]
      exact h.places_le
    · exact lt_of_le_of_lt (Nat.sub_le _ _) (by decide)
    · rw [hparts, hdigits, hscale]
    · rw [hscaled, hunits]
      rfl
    · rw [hscaled, hparts, hval]

theorem IsOf.isBlank_eq_false (h : a.IsOf whole places) :
    (∀ c ∈ whole, Text.isBlank c = false) ∧
      ∀ c ∈ whole ++ '.' :: places, Text.isBlank c = false := by
  have hwhole : ∀ c ∈ whole, Text.isBlank c = false :=
    fun c hc => Text.isBlank_of_isDigit (h.whole_digits c hc)
  have hplaces : ∀ c ∈ places, Text.isBlank c = false :=
    fun c hc => Text.isBlank_of_isDigit (h.places_digits c hc)
  exact ⟨hwhole, List.forall_mem_append.2 ⟨hwhole, List.forall_mem_cons.2 ⟨by decide, hplaces⟩⟩⟩

/-- **A text is read as an amount if it writes one.** -/
theorem ofDecimal_eq_ok_iff : ofDecimal text = .ok a ↔ Writes text a := by
  constructor
  · intro h
    rcases hsplit : Text.splitPoint (Text.trim text.toList) with ⟨whole, places⟩
    have hbody := Text.surrounds_trim text.toList
    refine ⟨whole, places, (ofDecimal_eq_ok_iff_isOf hsplit).1 h, ?_⟩
    obtain ⟨-, ⟨htrim, hnone⟩ | htrim⟩ := Text.splitPoint_eq_iff.1 hsplit
    · exact Or.inl ⟨htrim ▸ hbody, hnone⟩
    · exact Or.inr (htrim ▸ hbody)
  · rintro ⟨whole, places, hof, htext⟩
    have hpoint : '.' ∉ whole := fun hmem => absurd (hof.whole_digits _ hmem) (by decide)
    refine (ofDecimal_eq_ok_iff_isOf (Text.splitPoint_eq_iff.2 ⟨hpoint, ?_⟩)).2 hof
    obtain ⟨hs, hnone⟩ | hs := htext
    · exact Or.inl ⟨Text.trim_of_surrounds hof.isBlank_eq_false.1 hs, hnone⟩
    · exact Or.inr (Text.trim_of_surrounds hof.isBlank_eq_false.2 hs)

/-- What is written is the amount: whole units, and behind a point what is left, if there is any. -/
theorem decimal_writes (a : Amount) : Writes a.decimal a := by
  have hsplit : a.val / unit.val * 10 ^ 18 + a.val % unit.val = a.val := Nat.div_add_mod' _ _
  have hwhole := Text.digits_toString (a.val / unit.val)
  have hne := Text.toString_ne_nil (a.val / unit.val)
  unfold decimal
  dsimp only
  split
  · next h =>
    refine ⟨_, [], ⟨hwhole, nofun, Or.inl hne, Nat.zero_le _, ?_⟩,
      Or.inl ⟨Text.surrounds_self _, rfl⟩⟩
    rw [Text.value_toString]
    change _ = _ + 0 * 10 ^ 18
    omega
  · next h =>
    have hlt : a.val % unit.val < 10 ^ 18 := Nat.mod_lt _ (by decide)
    obtain ⟨hplaces, hle, hvalue⟩ := Text.writtenPlaces (by decide) hlt
    refine ⟨_, _, ⟨hwhole, hplaces, Or.inl hne, hle, ?_⟩, Or.inr ?_⟩
    · rw [Text.value_toString, hvalue, hsplit]
    · rw [String.toList_append, String.toList_append, String.toList_ofList, String.toList_ofList,
        List.append_assoc, List.singleton_append]
      exact Text.surrounds_self _

theorem not_fails_pow10 {stop : Stop} (h : n < 78) : ¬ Fails (pow10 n) stop := by
  rw [pow10, if_pos h, fails_orFault_iff]
  refine mt And.left (Nat.not_le_of_lt ?_)
  calc
    10 ^ n ≤ 10 ^ 77 := Nat.pow_le_pow_right (by decide) (Nat.le_of_lt_succ h)
    _ < limit := by decide

/-- No text halts its reader: what is behind the point is less than a unit when it is scaled. -/
theorem not_halts_ofDecimal (text : String) : ¬ Halts (ofDecimal text) := by
  rw [halts_iff_fails]
  unfold ofDecimal
  rcases Text.splitPoint (Text.trim text.toList) with ⟨whole, places⟩
  simp only [fails_bind_iff, fails_demand_iff, demand_eq_iff, fails_demandSome_iff, reduceCtorEq,
    demandSome_eq_ok_iff, ofDigits?_eq_some_iff, pow10_eq_ok_iff, fails_times_iff, orRefuse,
    not_fails_add, false_and, and_true, false_or, or_false, and_false, exists_false, not_exists,
    not_and, not_or]
  rintro _ _ _ hbytes _ _ digits ⟨hplaces, hdigits⟩
  have hle : places.length ≤ 18 := Text.byteLength_of_digits hplaces ▸ hbytes
  refine ⟨not_fails_pow10 (lt_of_le_of_lt (Nat.sub_le 18 _) (by decide)), ?_⟩
  rintro scale ⟨-, hscale⟩
  rw [Nat.not_le, hdigits, hscale]
  calc
    value places * 10 ^ (18 - places.length)
      ≤ 10 ^ places.length * 10 ^ (18 - places.length) :=
        Nat.mul_le_mul_right _ (Nat.le_of_lt (Text.value_lt hplaces))
    _ = 10 ^ 18 := by rw [← Nat.pow_add, Nat.add_sub_cancel' hle]
    _ < limit := by decide

/-- **An amount is read back from its text.** -/
theorem ofDecimal_decimal (a : Amount) : ofDecimal a.decimal = .ok a :=
  ofDecimal_eq_ok_iff.2 a.decimal_writes

/-- **Decimal texts are read as they are written:** a text is read as an amount if and only if it
writes that amount, no text halts its reader, and every amount is read back from its own text. -/
theorem decimals_exact : (∀ (text : String) (a : Amount), ofDecimal text = .ok a ↔ Writes text a) ∧
    (∀ text : String, ¬ Halts (ofDecimal text)) ∧ ∀ a : Amount, ofDecimal a.decimal = .ok a :=
  ⟨fun _ _ => ofDecimal_eq_ok_iff, not_halts_ofDecimal, ofDecimal_decimal⟩

end Amount

end Stablecoin
