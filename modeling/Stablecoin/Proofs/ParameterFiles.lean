/-
  Stablecoin theory — parameters that are saved and loaded.

  Every field of a parameter file may be left out and then takes its standard value, so
  that a field written under one name and read under another would be lost without a
  word.  It is not: a record is read back from what it writes if its fields are, and if
  no two of them have the same name.

  * `Form.Legible`: what a form writes in JSON is read back; it holds of words, of texts
    that stand for values, and of records (`Form.legible_record`) field by field;
  * `Parameters.ofText?_document`: a file holds the parameters it was written from, before
    they are validated;
  * `Parameters.checks_validate`: they are consistent, or refused by a parameter's name;
    one or the other is what loading the file answers (`Parameters.load_document`).
-/
import Stablecoin.Parameters.Document
import Stablecoin.Proofs.JsonDocuments

namespace Stablecoin

/-! ## Forms that are read back -/

namespace Form

variable {α : Type}

/-- What the form writes is a value of this library, and it is read back. -/
structure Legible (form : Form α) : Prop where
  written : ∀ a, (form.toJson a).Written
  ofJson?_toJson : ∀ a, form.ofJson? (form.toJson a) = some a

theorem legible_word : word.Legible where
  written n := Json.Written.number n.toNat
  ofJson?_toJson n := by
    have hlt : n.toNat < UInt64.size := n.toNat_lt
    simp only [word, Json.natural?_ofNat, Option.bind_some, if_pos hlt, UInt64.ofNat_toNat]

theorem legible_spelled {print : α → String} {read : String → Option α}
    (h : ∀ a, read (print a) = some a) : (spelled print read).Legible where
  written a := Json.Written.text (print a)
  ofJson?_toJson a := by
    change (Json.textOf? (Json.spell (print a))).bind read = some a
    rw [Json.textOf?_spell, Option.bind_some, h]

end Form

theorem Amount.legible_decimalForm : Amount.decimalForm.Legible :=
  Form.legible_spelled fun a => by rw [ofDecimal_decimal]; rfl

/-! ## Fields -/

namespace Fields

variable {α τ : Type} {form : Form α} {more : Fields τ}

/-- The fields write their names in order, and are read back where each name is looked up. -/
structure Legible (fields : Fields τ) : Prop where
  names_eq : ∀ x, (fields.toEntries x).map Prod.fst = fields.names
  written : ∀ x, ∀ e ∈ fields.toEntries x, e.2.Written
  ofEntries?_eq : ∀ x lookup, (∀ e ∈ fields.toEntries x, lookup e.1 = some e.2) →
    fields.ofEntries? lookup = some x

theorem legible_done : done.Legible where
  names_eq _ := rfl
  written _ := nofun
  ofEntries?_eq _ _ _ := rfl

theorem legible_field (name : String) (hform : form.Legible) (hmore : more.Legible) :
    (field name form more).Legible where
  names_eq x := congrArg (name :: ·) (hmore.names_eq x.2)
  written x := List.forall_mem_cons.2 ⟨hform.written x.1, hmore.written x.2⟩
  ofEntries?_eq x lookup hlookup := by
    obtain ⟨hfirst, hrest⟩ := List.forall_mem_cons.1 hlookup
    simp only [field, hfirst, hform.ofJson?_toJson, hmore.ofEntries?_eq x.2 lookup hrest,
      Option.bind_eq_bind, Option.bind_some]

/-- A value for where the field is left out changes nothing where it is written. -/
theorem legible_fieldOr (name : String) (value : α) (hform : form.Legible) (hmore : more.Legible) :
    (fieldOr name form value more).Legible := by
  have hgiven : Form.Legible { form with absent? := some value } :=
    ⟨hform.written, hform.ofJson?_toJson⟩
  have hfield := legible_field name hgiven hmore
  exact ⟨hfield.names_eq, hfield.written, hfield.ofEntries?_eq⟩

end Fields

/-! ## Records -/

namespace Form

variable {α τ : Type} {entries : List (String × Json)} {e : String × Json} {fields : Fields τ}
  {view : α → τ} {make : τ → α}

/-- Of different names each has the value that stands behind it. -/
theorem lookup_eq_some (hnodup : (entries.map Prod.fst).Nodup) (he : e ∈ entries) :
    lookup entries e.1 = some e.2 := by
  induction entries with
  | nil => exact absurd he List.not_mem_nil
  | cons first entries ih =>
    rw [List.map_cons, List.nodup_cons] at hnodup
    rcases List.mem_cons.1 he with rfl | he
    · simp [lookup]
    · have hne : first.1 ≠ e.1 := fun heq => hnodup.1 (heq ▸ List.mem_map_of_mem he)
      have hmore := ih hnodup.2 he
      simp only [lookup, List.find?_cons, beq_eq_false_iff_ne.2 hne] at hmore ⊢
      exact hmore

theorem distinct_of_nodup (names : List String) (hnodup : (entries.map Prod.fst).Nodup) :
    distinct names entries = true := by
  refine List.all_eq_true.2 ?_
  intro name _
  have hcount := List.nodup_iff_count_le_one.1 hnodup name
  rw [List.count, List.countP_map] at hcount
  exact decide_eq_true hcount

theorem entries?_ofFields (entries : List (String × Json)) :
    (Json.ofFields entries).entries? = some entries := by
  change List.mapM _ (entries.map _) = some entries
  rw [List.mapM_map]
  induction entries with
  | nil => rfl
  | cons e entries ih =>
    rw [List.mapM_cons, ih]
    simp only [Function.comp_apply, Json.textOf?_spell]
    rfl

theorem written_ofFields (h : ∀ e ∈ entries, e.2.Written) : (Json.ofFields entries).Written := by
  refine Json.Written.object ?_ ?_
  · intro e he
    obtain ⟨field, -, rfl⟩ := List.mem_map.1 he
    exact ⟨field.1, rfl⟩
  · intro e he
    obtain ⟨field, hfield, rfl⟩ := List.mem_map.1 he
    exact h field hfield

theorem ofJson?_ofFields (entries : List (String × Json)) :
    (record fields view make).ofJson? (Json.ofFields entries) =
      if distinct fields.names entries then (fields.ofEntries? (lookup entries)).map make
      else none := by
  change (Json.ofFields entries).entries?.bind _ = _
  rw [entries?_ofFields, Option.bind_some]

/-- **A record is read back** if its fields are, no two have the same name, and the structure is
made of them again. -/
theorem legible_record (hnames : fields.names.Nodup) (hfields : fields.Legible)
    (hmake : ∀ a, make (view a) = a) : (record fields view make).Legible where
  written a := written_ofFields (hfields.written (view a))
  ofJson?_toJson a := by
    have hnodup : ((fields.toEntries (view a)).map Prod.fst).Nodup :=
      hfields.names_eq (view a) ▸ hnames
    have hread : fields.ofEntries? (lookup (fields.toEntries (view a))) = some (view a) :=
      hfields.ofEntries?_eq _ _ fun e he => lookup_eq_some hnodup he
    refine (ofJson?_ofFields _).trans ?_
    rw [if_pos (distinct_of_nodup _ hnodup), hread, Option.map_some, hmake]

end Form

/-! ## Parameters -/

namespace Parameters

theorem legible_form : form.Legible := by
  refine Form.legible_record (by decide) ?_ fun _ => rfl
  have hamount {τ : Type} (name : String) (value : Amount) {more : Fields τ} (h : more.Legible) :
      (Fields.fieldOr name Amount.decimalForm value more).Legible :=
    Fields.legible_fieldOr name value Amount.legible_decimalForm h
  have hword {τ : Type} (name : String) (value : UInt64) {more : Fields τ} (h : more.Legible) :
      (Fields.fieldOr name Form.word value more).Legible :=
    Fields.legible_fieldOr name value Form.legible_word h
  exact hamount _ _ <| hamount _ _ <| hamount _ _ <| hamount _ _ <| hamount _ _ <|
    hamount _ _ <| hamount _ _ <| hamount _ _ <| hword _ _ <| hword _ _ Fields.legible_done

/-- A file holds the parameters it was written from, consistent or not. -/
theorem ofText?_document (p : Parameters) : ofText? p.document = some p := by
  rw [ofText?, document, Json.ofDocument?_pages (legible_form.written p), Option.bind_some,
    legible_form.ofJson?_toJson]

/-- The check passes, or refuses and names a parameter. -/
def Checks (check : Attempt Unit) : Prop :=
  check = .ok () ∨ ∃ name reason, check = refuse (wrong name reason)

theorem checks_demand {condition : Prop} [Decidable condition] (name reason : String) :
    Checks (demand condition (wrong name reason)) := by
  unfold demand
  split
  · exact Or.inl rfl
  · exact Or.inr ⟨name, reason, rfl⟩

theorem Checks.bind {first second : Attempt Unit} (hfirst : Checks first)
    (hsecond : Checks second) : Checks (first >>= fun _ => second) := by
  obtain rfl | ⟨name, reason, rfl⟩ := hfirst
  · exact hsecond
  · exact Or.inr ⟨name, reason, rfl⟩

/-- Validation stops with nothing but a refusal that names a parameter. -/
theorem checks_validate (p : Parameters) : Checks p.validate :=
  (checks_demand _ _).bind <| (checks_demand _ _).bind <| (checks_demand _ _).bind <|
    (checks_demand _ _).bind <| (checks_demand _ _).bind <| (checks_demand _ _).bind <|
      (checks_demand _ _).bind (checks_demand _ _)

/-- **Saved parameters load back unchanged** if they are valid, and otherwise with the refusal of
their validation, which is one of the configuration. -/
theorem load_document (p : Parameters) :
    (p.validate = .ok () ∧ ofDocument p.document = .ok p) ∨
    ∃ reason, p.validate = refuse (.configuration reason) ∧
      ofDocument p.document = refuse (.configuration reason) := by
  have hload : ofDocument p.document = p.validate >>= fun _ => return p := by
    rw [ofDocument, ofText?_document]
    rfl
  obtain h | ⟨name, reason, h⟩ := checks_validate p
  · exact Or.inl ⟨h, by rw [hload, h]; rfl⟩
  · exact Or.inr ⟨_, h, by rw [hload, h]; rfl⟩

end Parameters

end Stablecoin
