/-
  Stablecoin theory — documents are read as they are printed.

  A saved file is a value over many lines.  Its reader finds the value again, whatever
  texts and numbers stand in it, for three reasons: a spelling ends at its closing
  quote and stands for its text, a numeral ends at what cannot go on with it, and the
  blanks of a margin are passed over.

  * `Json.textOf?_spell` and `Json.spelling?_spell` read a text, `Json.natural?_ofNat` and
    `Json.numeral?_toString` a number;
  * `Json.Written` are the values that this library makes: their texts and keys are
    spelled, and their numbers natural;
  * `Json.Written.reads`: each of them is read from its pages, by induction on how it is
    made, and `Json.ofDocument?_pages` for the document.
-/
import Stablecoin.Json.Printer
import Stablecoin.Json.Reader
import Stablecoin.Proofs.DecimalTexts

namespace Stablecoin.Json

variable {c : Char} {s : String} {n level closing depth : Nat}
  {source before behind rest : List Char} {v item : Json} {items : List Json} {key : List Char}
  {entries : List (List Char × Json)}

/-! ## Spellings -/

theorem codeUnit?_digits (h : n < 32) :
    codeUnit? ['0', '0', Hex.digit (n / 16), Hex.digit (n % 16)] = some n := by
  have hall : ∀ n : Fin 32,
      codeUnit? ['0', '0', Hex.digit (n.val / 16), Hex.digit (n.val % 16)] = some n.val := by
    decide
  exact hall ⟨n, h⟩

/-- The characters that are spelled by a letter, each with its letter. -/
def letters : List (Char × Char) := [('"', '"'), ('\\', '\\'), ('\x08', 'b'), ('\x0c', 'f'),
  ('\n', 'n'), ('\r', 'r'), ('\t', 't')]

/-- What the reader makes of each letter is the character it was put for. -/
theorem escape_of_mem_letters : ∀ p ∈ letters,
    escape p.1 = ['\\', p.2] ∧ p.2 ≠ 'u' ∧ escaped? p.2 = some p.1 := by
  decide

theorem escape_of_not_mem_letters (h : ∀ p ∈ letters, c ≠ p.1) : escape c = if c.toNat < 32 then
    ['\\', 'u', '0', '0', Hex.digit (c.toNat / 16), Hex.digit (c.toNat % 16)] else [c] := by
  simp only [letters, List.forall_mem_cons] at h
  obtain ⟨hquote, hslash, hb, hf, hn, hr, ht, -⟩ := h
  simp only [escape, hquote, hslash, hb, hf, hn, hr, ht, or_self, if_false]

/-- A character is spelled as it is, by a letter behind a backslash, or by its number. -/
theorem escape_cases (c : Char) :
    (escape c = [c] ∧ 32 ≤ c.toNat ∧ c ≠ '"' ∧ c ≠ '\\') ∨
    (∃ letter, escape c = ['\\', letter] ∧ letter ≠ 'u' ∧ escaped? letter = some c) ∨
    ∃ w x y z, escape c = ['\\', 'u', w, x, y, z] ∧ codeUnit? [w, x, y, z] = some c.toNat ∧
      c.toNat < 32 := by
  by_cases hletter : ∃ p ∈ letters, c = p.1
  · obtain ⟨p, hp, rfl⟩ := hletter
    exact Or.inr (Or.inl ⟨p.2, escape_of_mem_letters p hp⟩)
  have hplain : ∀ p ∈ letters, c ≠ p.1 := fun p hp heq => hletter ⟨p, hp, heq⟩
  have hescape := escape_of_not_mem_letters hplain
  by_cases hlow : c.toNat < 32
  · rw [if_pos hlow] at hescape
    exact Or.inr (Or.inr ⟨_, _, _, _, hescape, codeUnit?_digits hlow, hlow⟩)
  · rw [if_neg hlow] at hescape
    exact Or.inl ⟨hescape, Nat.le_of_not_lt hlow, hplain ('"', '"') (by decide),
      hplain ('\\', '\\') (by decide)⟩

theorem unescapeFrom_escape (c : Char) (rest : List Char) :
    unescapeFrom none (escape c ++ rest) = (unescapeFrom none rest).map (c :: ·) := by
  obtain ⟨h, -, -, hslash⟩ | ⟨letter, h, hu, hc⟩ | ⟨w, x, y, z, h, hcode, hlow⟩ := escape_cases c
  · rw [h]
    exact unescapeFrom.eq_6 c rest (fun _ _ _ _ _ hc _ => hslash hc) fun _ _ hc _ => hslash hc
  · rw [h]
    exact unescapeFrom.eq_4 letter rest c (fun _ _ _ _ _ hletter _ => hu hletter) hc
  · have hfirst : ¬ (0xd800 ≤ c.toNat ∧ c.toNat < 0xdc00) := by omega
    have hsecond : ¬ (0xdc00 ≤ c.toNat ∧ c.toNat < 0xe000) := by omega
    rw [h]
    refine (unescapeFrom.eq_2 w x y z rest _ hcode).trans ?_
    rw [if_neg hfirst, if_neg hsecond, Char.ofNat_toNat]

theorem spelling?_escape (c : Char) (rest : List Char) : spelling? (escape c ++ rest) =
    (spelling? rest).map fun (s, behind) => (escape c ++ s, behind) := by
  obtain ⟨h, hlow, hquote, hslash⟩ | ⟨letter, h, hu, hc⟩ | ⟨w, x, y, z, h, hcode, -⟩ :=
    escape_cases c
  · have hplain : ¬ (c.toNat < 32 ∨ c = '\\') := fun hc => hc.elim (by omega) hslash
    rw [h]
    refine (spelling?.eq_5 c rest hquote (fun _ _ _ _ _ hc _ => hslash hc)
      fun _ _ hc _ => hslash hc).trans ?_
    rw [if_neg hplain]
    rfl
  · rw [h]
    refine (spelling?.eq_4 letter rest fun _ _ _ _ _ hletter _ => hu hletter).trans ?_
    rw [hc]
    rfl
  · rw [h]
    refine (spelling?.eq_3 w x y z rest).trans ?_
    rw [hcode]
    rfl

/-- **A text is read back from its spelling.** -/
theorem textOf?_spell (s : String) : textOf? (spell s) = some s := by
  have hread : ∀ cs : List Char, unescapeFrom none (cs.flatMap escape) = some cs := by
    intro cs
    induction cs with
    | nil => rfl
    | cons c cs ih => rw [List.flatMap_cons, unescapeFrom_escape, ih, Option.map_some]
  rw [textOf?, spell, hread, Option.map_some, String.ofList_toList]

/-- A spelling ends at its closing quote. -/
theorem spelling?_spell (s : String) (rest : List Char) :
    spelling? (spell s ++ '"' :: rest) = some (spell s, rest) := by
  unfold spell
  induction s.toList with
  | nil => rw [List.flatMap_nil, List.nil_append, spelling?]
  | cons c cs ih =>
    rw [List.flatMap_cons, List.append_assoc, spelling?_escape, ih, Option.map_some]

/-! ## Numerals -/

/-- What is behind a numeral that ends here. -/
def Ends (rest : List Char) : Prop :=
  ∀ c ∈ rest.head?, isDigit c = false ∧ c ≠ '.' ∧ c ≠ 'e' ∧ c ≠ 'E'

theorem isDigit_eq (c : Char) : isDigit c = c.isDigit := by
  rw [isDigit, Text.digit?_eq]
  cases c.isDigit <;> rfl

theorem ne_of_isDigit {d : Char} (hc : c.isDigit = true) (hd : d.isDigit = false) : c ≠ d := by
  rintro rfl
  exact Bool.noConfusion (hc.symm.trans hd)

/-- **A number is read back from its numeral.** -/
theorem natural?_ofNat (n : Nat) : (ofNat n).natural? = some n := by
  rw [ofNat, natural?, naturalOf?, if_neg (Text.toString_ne_nil n)]
  exact Text.number?_eq_some_iff.2 ⟨Text.digits_toString n, Text.value_toString n⟩

/-- Only zero is written with a leading zero. -/
theorem head_toDigits_ne (h : n ≠ 0) : (Nat.toDigits 10 n).head? ≠ some '0' := by
  induction n using Nat.strongRecOn with
  | ind n ih =>
    by_cases hn : n < 10
    · have hdigit : ∀ n : Fin 10, n.val ≠ 0 → n.val.digitChar ≠ '0' := by decide
      rw [Nat.toDigits_of_lt_base hn, List.head?_cons]
      exact fun hzero => hdigit ⟨n, hn⟩ h (Option.some.inj hzero)
    · have hfront : n / 10 ≠ 0 := by omega
      rw [Nat.toDigits_of_base_le (by decide) (Nat.le_of_not_lt hn),
        List.head?_append_of_ne_nil _ Nat.toDigits_ne_nil]
      exact ih (n / 10) (by omega) hfront

theorem wholePart?_toString (h : Ends rest) :
    wholePart? ((toString n).toList ++ rest) = some ((toString n).toList, rest) := by
  have hdigits : ∀ c ∈ (toString n).toList, isDigit c = true := fun c hc =>
    (isDigit_eq c).trans (Text.digits_toString n c hc)
  have htake : rest.takeWhile isDigit = [] ∧ rest.dropWhile isDigit = rest := by
    cases rest with
    | nil => exact ⟨rfl, rfl⟩
    | cons c rest => simp [(h c rfl).1]
  have hread : digits? ((toString n).toList ++ rest) = some ((toString n).toList, rest) := by
    rw [digits?, List.takeWhile_append_of_pos hdigits, List.dropWhile_append_of_pos hdigits,
      htake.1, htake.2, List.append_nil]
    split
    · next hnil => exact absurd hnil (Text.toString_ne_nil n)
    · rfl
  have hzero : ¬ ((toString n).toList.head? = some '0' ∧ (toString n).toList.length ≠ 1) := by
    by_cases hn : n = 0
    · subst hn
      decide
    · rw [Nat.toString_eq_repr, Nat.toList_repr]
      exact fun hhead => head_toDigits_ne hn hhead.1
  rw [wholePart?, hread]
  exact if_neg hzero

/-- A number is read up to where its numeral ends. -/
theorem numeral?_toString (h : Ends rest) :
    numeral? ((toString n).toList ++ rest) = some ((toString n).toList, rest) := by
  have hsign : ((toString n).toList ++ rest).head? ≠ some '-' := by
    rw [List.head?_append_of_ne_nil _ (Text.toString_ne_nil n)]
    intro hhead
    exact absurd (Text.digits_toString n _ (List.mem_of_mem_head? hhead)) (by decide)
  have hplaces : places? rest = some ([], rest) := by
    cases rest with
    | nil => rfl
    | cons c rest => exact places?.eq_2 _ fun _ hc => (h c rfl).2.1 (List.cons.inj hc).1
  have hexponent : exponent? rest = some ([], rest) := by
    cases rest with
    | nil => rfl
    | cons c rest => exact if_neg fun hc => hc.elim (h c rfl).2.2.1 (h c rfl).2.2.2
  simp only [numeral?, if_neg hsign, wholePart?_toString h, hplaces, hexponent,
    Option.bind_eq_bind, Option.bind_some, List.nil_append, List.append_nil]

/-! ## Blanks -/

theorem toList_margin (level : Nat) :
    (margin level).toList = '\n' :: List.replicate (2 * level) ' ' := by
  rw [margin, String.toList_append]
  exact congrArg _ (String.toList_ofList ..)

theorem isSpace_margin (level : Nat) : ∀ c ∈ (margin level).toList, isSpace c = true := by
  rw [toList_margin, List.forall_mem_cons]
  refine ⟨rfl, ?_⟩
  intro c hc
  rw [List.eq_of_mem_replicate hc]
  rfl

theorem skipSpace_append (h : ∀ c ∈ before, isSpace c = true) :
    skipSpace (before ++ rest) = skipSpace rest :=
  List.dropWhile_append_of_pos h

theorem value?_append (h : ∀ c ∈ before, isSpace c = true) :
    value? depth (before ++ rest) = value? depth rest := by
  cases depth with
  | zero => rfl
  | succ depth => rw [value?, value?, skipSpace_append h]

theorem elements?_append (h : ∀ c ∈ before, isSpace c = true) :
    elements? depth (before ++ rest) = elements? depth rest := by
  cases depth with
  | zero => rfl
  | succ depth => rw [elements?, elements?, value?_append h]

theorem members?_append (h : ∀ c ∈ before, isSpace c = true) :
    members? depth (before ++ rest) = members? depth rest := by
  cases depth with
  | zero => rfl
  | succ depth => rw [members?, members?, skipSpace_append h]

/-! ## Values by their first character -/

theorem value?_quote : value? (depth + 1) ('"' :: rest) =
    (spelling? rest).map fun (s, behind) => (.text s, behind) := rfl

theorem value?_digit (h : c.isDigit = true) : value? (depth + 1) (c :: rest) =
    (numeral? (c :: rest)).map fun (n, behind) => (.number n, behind) := by
  have hne {d : Char} (hd : d.isDigit = false) : ¬ c = d := ne_of_isDigit h hd
  have hblank : ¬ isSpace c = true := by simp [isSpace, hne]
  have hopen : skipSpace (c :: rest) = c :: rest := List.dropWhile_cons_of_neg hblank
  rw [value?, hopen]
  simp [hne]

/-- Where a value begins there is no closing bracket, so that its array is not taken for empty. -/
theorem skipSpace_ne_of_value? (h : value? depth source = some (v, rest)) :
    skipSpace source ≠ ']' :: behind := by
  intro hclosing
  cases depth with
  | zero => exact nomatch h
  | succ depth =>
    rw [value?, hclosing] at h
    exact nomatch h

/-! ## Arrays and objects by what stands behind a part -/

theorem elements?_comma (h : value? depth source = some (item, ',' :: rest)) :
    elements? (depth + 1) source =
      (elements? depth rest).map fun (items, behind) => (item :: items, behind) := by
  rw [elements?, h]
  rfl

theorem elements?_last (hbefore : ∀ c ∈ before, isSpace c = true)
    (h : value? depth source = some (item, before ++ ']' :: rest)) :
    elements? (depth + 1) source = some ([item], rest) := by
  have hclosing : skipSpace (before ++ ']' :: rest) = ']' :: rest := skipSpace_append hbefore
  rw [elements?, h]
  simp only [Option.bind_eq_bind, Option.bind_some, hclosing]

theorem value?_bracket (h : elements? depth source = some (items, rest)) :
    value? (depth + 1) ('[' :: source) = some (.array items, rest) := by
  have hopen : skipSpace ('[' :: source) = '[' :: source := rfl
  have hne : ∀ behind, skipSpace source ≠ ']' :: behind := by
    intro behind
    cases depth with
    | zero => exact nomatch h
    | succ depth =>
      rw [elements?] at h
      obtain ⟨⟨item, rest⟩, hitem, -⟩ := Option.bind_eq_some_iff.1 h
      exact skipSpace_ne_of_value? hitem
  rw [value?, hopen]
  simp [h]

theorem value?_space (h : value? depth source = some (v, rest)) :
    value? depth (' ' :: source) = some (v, rest) := by
  have hspace : ∀ c ∈ [' '], isSpace c = true := List.forall_mem_singleton.2 rfl
  exact (value?_append hspace).trans h

theorem members?_comma (key : String) (h : value? depth source = some (v, ',' :: rest)) :
    members? (depth + 1) ('"' :: (spell key ++ '"' :: ':' :: ' ' :: source)) =
      (members? depth rest).map fun (entries, behind) => ((spell key, v) :: entries, behind) := by
  have hquote (rest : List Char) : skipSpace ('"' :: rest) = '"' :: rest := rfl
  have hcolon (rest : List Char) : skipSpace (':' :: rest) = ':' :: rest := rfl
  have hcomma : skipSpace (',' :: rest) = ',' :: rest := rfl
  rw [members?, hquote]
  simp only [spelling?_spell, hcolon, value?_space h, hcomma, Option.bind_eq_bind,
    Option.bind_some]

theorem members?_last (key : String) (hbefore : ∀ c ∈ before, isSpace c = true)
    (h : value? depth source = some (v, before ++ '\x7d' :: rest)) :
    members? (depth + 1) ('"' :: (spell key ++ '"' :: ':' :: ' ' :: source)) =
      some ([(spell key, v)], rest) := by
  have hquote (rest : List Char) : skipSpace ('"' :: rest) = '"' :: rest := rfl
  have hcolon (rest : List Char) : skipSpace (':' :: rest) = ':' :: rest := rfl
  have hclosing : skipSpace (before ++ '\x7d' :: rest) = '\x7d' :: rest :=
    skipSpace_append hbefore
  rw [members?, hquote]
  simp only [spelling?_spell, hcolon, value?_space h, hclosing, Option.bind_eq_bind,
    Option.bind_some]

theorem value?_brace (hbefore : ∀ c ∈ before, isSpace c = true)
    (h : members? depth ('"' :: source) = some (entries, rest)) :
    value? (depth + 1) ('\x7b' :: (before ++ '"' :: source)) = some (.object entries, rest) := by
  have hopen : skipSpace ('\x7b' :: (before ++ '"' :: source)) =
    '\x7b' :: (before ++ '"' :: source) := rfl
  have hfirst : skipSpace (before ++ '"' :: source) = '"' :: source := skipSpace_append hbefore
  rw [value?, hopen]
  simp [hfirst, members?_append hbefore, h]

/-! ## Values by their parts -/

theorem ends_cons (h : isDigit c = false ∧ c ≠ '.' ∧ c ≠ 'e' ∧ c ≠ 'E') : Ends (c :: rest) := by
  intro d hd
  exact Option.some.inj hd ▸ h

theorem ends_margin : Ends ((margin level).toList ++ rest) := by
  rw [toList_margin, List.cons_append]
  exact ends_cons (by decide)

/-- The value is read from its pages at every level, up to what is behind them.  Their length is
depth enough: a value nests no deeper than it has brackets. -/
def Reads (v : Json) : Prop := ∀ (level depth : Nat) (rest : List Char),
  (pagesAt level v).toList.length ≤ depth → Ends rest →
    value? depth ((pagesAt level v).toList ++ rest) = some (v, rest)

theorem reads_null : Reads .null := by
  intro level depth rest hdepth _
  rw [pagesAt] at hdepth ⊢
  obtain _ | depth := depth
  · exact absurd hdepth (by decide)
  · rfl

theorem reads_bool (b : Bool) : Reads (.bool b) := by
  intro level depth rest hdepth _
  rw [pagesAt] at hdepth ⊢
  obtain _ | depth := depth
  · exact absurd hdepth (by decide +revert)
  · cases b <;> rfl

theorem reads_ofNat (n : Nat) : Reads (ofNat n) := by
  intro level depth rest hdepth hends
  rw [ofNat, pagesAt, String.toList_ofList] at hdepth ⊢
  obtain ⟨c, cs, hcs⟩ := List.exists_cons_of_ne_nil (Text.toString_ne_nil n)
  have hread := numeral?_toString (n := n) hends
  have hdigit : c.isDigit = true := Text.digits_toString n c (hcs ▸ List.mem_cons_self)
  rw [hcs] at hdepth
  rw [hcs, List.cons_append] at hread ⊢
  obtain _ | depth := depth
  · exact absurd hdepth (Nat.not_succ_le_zero _)
  · rw [value?_digit hdigit, hread, Option.map_some]

theorem toList_pagesAt_text : (pagesAt level (.text key)).toList = '"' :: (key ++ ['"']) := by
  rw [pagesAt, String.toList_append, String.toList_append]
  exact congrArg (fun key => '"' :: (key ++ ['"'])) String.toList_ofList

theorem reads_ofText (s : String) : Reads (ofText s) := by
  intro level depth rest hdepth _
  rw [ofText, toList_pagesAt_text] at hdepth ⊢
  obtain _ | depth := depth
  · exact absurd hdepth (Nat.not_succ_le_zero _)
  · rw [List.cons_append, value?_quote, List.append_assoc, List.singleton_append, spelling?_spell,
      Option.map_some]

/-! ## Arrays -/

theorem toList_pagesAt_array : (pagesAt level (.array (item :: items))).toList =
    '[' :: ((margin (level + 1)).toList ++ ((pagesAt (level + 1) item).toList ++
      ((pagesItems (level + 1) items).toList ++ ((margin level).toList ++ [']'])))) := by
  simp only [pagesAt, String.toList_append, List.append_assoc]
  rfl

theorem toList_pagesItems_cons : (pagesItems level (item :: items)).toList =
    ',' :: ((margin level).toList ++ ((pagesAt level item).toList ++
      (pagesItems level items).toList)) := by
  simp only [pagesItems, String.toList_append, List.append_assoc]
  rfl

theorem ends_pagesItems : Ends ((pagesItems level items).toList ++
    ((margin closing).toList ++ rest)) := by
  cases items with
  | nil => exact ends_margin
  | cons item items =>
    rw [toList_pagesItems_cons]
    exact ends_cons (by decide)

/-- The items of an array are read in turn; the comma before each makes up for the depth that the
one before it took. -/
theorem elements?_pages (hitem : Reads item) (hitems : ∀ item ∈ items, Reads item)
    (h : (pagesAt level item).toList.length + (pagesItems level items).toList.length < depth) :
    elements? depth ((pagesAt level item).toList ++ ((pagesItems level items).toList ++
      ((margin closing).toList ++ ']' :: rest))) = some (item :: items, rest) := by
  induction items generalizing item depth with
  | nil =>
    obtain _ | depth := depth
    · exact absurd h (Nat.not_lt_zero _)
    exact elements?_last (isSpace_margin closing)
      (hitem level depth _ (by omega) ends_margin)
  | cons next items ih =>
    have hends : Ends ((pagesItems level (next :: items)).toList ++
        ((margin closing).toList ++ ']' :: rest)) := ends_pagesItems
    rw [toList_pagesItems_cons] at h hends ⊢
    simp only [List.length_cons, List.length_append] at h
    simp only [List.cons_append, List.append_assoc] at hends ⊢
    obtain _ | depth := depth
    · exact absurd h (Nat.not_lt_zero _)
    obtain ⟨hnext, hitems⟩ := List.forall_mem_cons.1 hitems
    rw [elements?_comma (hitem level depth _ (by omega) hends),
      elements?_append (isSpace_margin level), ih hnext hitems (by omega), Option.map_some]

theorem reads_array (h : ∀ item ∈ items, Reads item) : Reads (.array items) := by
  intro level depth rest hdepth _
  cases items with
  | nil =>
    rw [pagesAt] at hdepth ⊢
    obtain _ | depth := depth
    · exact absurd hdepth (by decide)
    · rfl
  | cons item items =>
    rw [toList_pagesAt_array] at hdepth ⊢
    simp only [List.length_cons, List.length_append] at hdepth
    simp only [List.cons_append, List.append_assoc, List.nil_append]
    obtain _ | depth := depth
    · exact absurd hdepth (Nat.not_succ_le_zero _)
    obtain ⟨hitem, hitems⟩ := List.forall_mem_cons.1 h
    refine value?_bracket ?_
    rw [elements?_append (isSpace_margin _)]
    exact elements?_pages hitem hitems (by omega)

/-! ## Objects -/

theorem toList_pagesAt_object : (pagesAt level (.object ((key, v) :: entries))).toList =
    '\x7b' :: ((margin (level + 1)).toList ++ '"' :: (key ++ '"' :: ':' :: ' ' ::
      ((pagesAt (level + 1) v).toList ++ ((pagesEntries (level + 1) entries).toList ++
        ((margin level).toList ++ ['\x7d']))))) := by
  simp only [pagesAt, String.toList_append, String.toList_ofList, List.append_assoc]
  rfl

theorem toList_pagesEntries_cons : (pagesEntries level ((key, v) :: entries)).toList =
    ',' :: ((margin level).toList ++ '"' :: (key ++ '"' :: ':' :: ' ' ::
      ((pagesAt level v).toList ++ (pagesEntries level entries).toList))) := by
  simp only [pagesEntries, String.toList_append, String.toList_ofList, List.append_assoc]
  rfl

theorem ends_pagesEntries : Ends ((pagesEntries level entries).toList ++
    ((margin closing).toList ++ rest)) := by
  cases entries with
  | nil => exact ends_margin
  | cons entry entries =>
    rw [toList_pagesEntries_cons]
    exact ends_cons (by decide)

/-- The entries of an object are read in turn, as items are. -/
theorem members?_pages {name : String} (hv : Reads v)
    (hentries : ∀ e ∈ entries, (∃ name, e.1 = spell name) ∧ Reads e.2)
    (h : (pagesAt level v).toList.length + (pagesEntries level entries).toList.length < depth) :
    members? depth ('"' :: (spell name ++ '"' :: ':' :: ' ' :: ((pagesAt level v).toList ++
      ((pagesEntries level entries).toList ++ ((margin closing).toList ++ '\x7d' :: rest))))) =
        some ((spell name, v) :: entries, rest) := by
  induction entries generalizing name v depth with
  | nil =>
    obtain _ | depth := depth
    · exact absurd h (Nat.not_lt_zero _)
    exact members?_last name (isSpace_margin closing) (hv level depth _ (by omega) ends_margin)
  | cons entry entries ih =>
    obtain ⟨key, value⟩ := entry
    obtain ⟨⟨⟨next, rfl⟩, (hvalue : Reads value)⟩, hmore⟩ := List.forall_mem_cons.1 hentries
    have hends : Ends ((pagesEntries level ((spell next, value) :: entries)).toList ++
        ((margin closing).toList ++ '\x7d' :: rest)) := ends_pagesEntries
    rw [toList_pagesEntries_cons] at h hends ⊢
    simp only [List.length_cons, List.length_append] at h
    simp only [List.cons_append, List.append_assoc] at hends ⊢
    obtain _ | depth := depth
    · exact absurd h (Nat.not_lt_zero _)
    rw [members?_comma name (hv level depth _ (by omega) hends),
      members?_append (isSpace_margin level), ih hvalue hmore (by omega), Option.map_some]

theorem reads_object (h : ∀ e ∈ entries, (∃ name, e.1 = spell name) ∧ Reads e.2) :
    Reads (.object entries) := by
  intro level depth rest hdepth _
  cases entries with
  | nil =>
    rw [pagesAt] at hdepth ⊢
    obtain _ | depth := depth
    · exact absurd hdepth (by decide)
    · rfl
  | cons entry entries =>
    obtain ⟨key, v⟩ := entry
    obtain ⟨⟨⟨name, rfl⟩, hv⟩, hentries⟩ := List.forall_mem_cons.1 h
    rw [toList_pagesAt_object] at hdepth ⊢
    simp only [List.length_cons, List.length_append] at hdepth
    simp only [List.cons_append, List.append_assoc, List.nil_append]
    obtain _ | depth := depth
    · exact absurd hdepth (Nat.not_succ_le_zero _)
    exact value?_brace (isSpace_margin _) (members?_pages hv hentries (by omega))

/-! ## Documents -/

/-- The values that this library makes: texts and keys are spelled, and numbers are natural. -/
inductive Written : Json → Prop
  | null : Written .null
  | bool (b : Bool) : Written (.bool b)
  | number (n : Nat) : Written (ofNat n)
  | text (s : String) : Written (ofText s)
  | array {items : List Json} (h : ∀ item ∈ items, Written item) : Written (.array items)
  | object {entries : List (List Char × Json)} (hkeys : ∀ e ∈ entries, ∃ name, e.1 = spell name)
      (h : ∀ e ∈ entries, Written e.2) : Written (.object entries)

/-- **A value is read from its pages**, whatever stands behind them. -/
theorem Written.reads (h : Written v) : Reads v := by
  induction h with
  | null => exact reads_null
  | bool b => exact reads_bool b
  | number n => exact reads_ofNat n
  | text s => exact reads_ofText s
  | array h ih => exact reads_array ih
  | object hkeys h ih => exact reads_object fun e he => ⟨hkeys e he, ih e he⟩

/-- **A document is read as it is printed.** -/
theorem ofDocument?_pages (h : Written v) : ofDocument? v.pages = some v := by
  have hread : value? (v.pages.toList.length + 1) v.pages.toList = some (v, []) := by
    have hends : Ends [] := nofun
    have hfront := h.reads 0 (v.pages.toList.length + 1) [] (Nat.le_succ _) hends
    rwa [List.append_nil] at hfront
  simp only [ofDocument?, hread, Option.bind_eq_bind, Option.bind_some]
  rfl

end Stablecoin.Json
