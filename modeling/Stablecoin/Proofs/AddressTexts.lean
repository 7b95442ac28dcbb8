/-
  Stablecoin theory — which texts are addresses.

  An address is written in 40 digits of lower case behind a mark, and read from
  digits of either case with the mark or without.  The reader works on the bytes of a
  text, of which a character may have several; but only a digit has the byte of a digit.

  * `Hex.IsDigit` is the property of one character, and `Hex.decode_eq_ok_iff` says
    which texts are read as bytes: those that the bytes are written in, but for case;
  * `Address.WrittenIn` is the grammar, without the reader, and `Address.ofHex_eq_ok_iff`
    that these texts are read and no others;
  * `Address.texts_exact`: any 40 digits are those of an address, and different addresses
    are written differently.
-/
import Stablecoin.Proofs.HexTexts
import Stablecoin.Proofs.Arithmetic

namespace Stablecoin

/-! ## Bytes -/

namespace Bytes

/-- **Different texts have different bytes.** -/
theorem ofText_injective : Function.Injective ofText := by
  intro s t h
  have hs := toText?_ofText s
  rw [h, toText?_ofText t] at hs
  exact (Option.some.inj hs).symm

theorem ofText_eq_ofChars_iff {s : String} {cs : List Char} :
    ofText s = ofChars cs ↔ s.toList = cs := by
  rw [← ofText_ofList, ofText_injective.eq_iff]
  constructor
  · rintro rfl
    exact String.toList_ofList
  · rintro rfl
    exact String.ofList_toList.symm

theorem little_ofLittle (bytes : Bytes) : little bytes.length (ofLittle bytes) = bytes := by
  induction bytes with
  | nil => rfl
  | cons b rest ih =>
    have hb := b.toNat_lt
    have hlow : (b.toNat + 256 * ofLittle rest) % 256 = b.toNat := by omega
    have hhigh : (b.toNat + 256 * ofLittle rest) / 256 = ofLittle rest := by omega
    rw [List.length_cons, ofLittle, little, hlow, hhigh, ih, UInt8.ofNat_toNat]

end Bytes

/-! ## Digits of either case -/

namespace Hex

variable {c : Char} {cs : List Char} {b : UInt8} {bytes text : Bytes}

/-- A hexadecimal digit of either case. -/
def IsDigit (c : Char) : Prop :=
  ('0' ≤ c ∧ c ≤ '9') ∨ ('a' ≤ c ∧ c ≤ 'f') ∨ ('A' ≤ c ∧ c ≤ 'F')

instance (c : Char) : Decidable (IsDigit c) := inferInstanceAs (Decidable (_ ∨ _ ∨ _))

theorem IsDigit.lt (h : IsDigit c) : c.toNat < 128 := by
  have hle {d e : Char} (he : e.toNat < 128) (hd : d ≤ c ∧ c ≤ e) : c.toNat < 128 :=
    Nat.lt_of_le_of_lt hd.2 he
  obtain h | h | h := h
  · exact hle (by decide) h
  · exact hle (by decide) h
  · exact hle (by decide) h

/-- A digit stands for a number, which is written by the same digit in lower case. -/
theorem IsDigit.exists_value (h : IsDigit c) :
    ∃ n < 16, value? c.toUInt8 = some n ∧ c.toLower = digit n := by
  have hall : ∀ k : Fin 128, IsDigit (Char.ofNat k) → ∃ n : Fin 16,
      value? (Char.ofNat k).toUInt8 = some n.val ∧ (Char.ofNat k).toLower = digit n := by
    decide +kernel
  obtain ⟨n, hn⟩ := hall ⟨c.toNat, h.lt⟩ (by rwa [Char.ofNat_toNat])
  rw [Char.ofNat_toNat] at hn
  exact ⟨n, n.isLt, hn⟩

/-- Bytes that stand for numbers are those of digits. -/
theorem exists_isDigit (h : (value? b).isSome) : ∃ c, IsDigit c ∧ c.toUInt8 = b := by
  have hall : ∀ k : Fin 256, (value? (UInt8.ofNat k)).isSome →
      IsDigit (Char.ofNat k) ∧ (Char.ofNat k).toUInt8 = UInt8.ofNat k := by
    decide +kernel
  have hb := hall ⟨b.toNat, b.toNat_lt⟩
  simp only [UInt8.ofNat_toNat] at hb
  exact ⟨_, hb h⟩

/-! ## Reading pairs -/

theorem toList_encode_cons (b : UInt8) (bytes : Bytes) : (encode (b :: bytes)).toList =
    digit (b.toNat / 16) :: digit (b.toNat % 16) :: (encode bytes).toList := by
  simp only [encode, String.toList_ofList, List.flatMap_cons, List.cons_append, List.nil_append]

theorem length_toList_encode (bytes : Bytes) : (encode bytes).toList.length = 2 * bytes.length := by
  induction bytes with
  | nil => rfl
  | cons b rest ih =>
    rw [toList_encode_cons, List.length_cons, List.length_cons, ih, List.length_cons]
    omega

theorem encode_injective : Function.Injective encode := by
  intro bytes others h
  have hread := decode_encode bytes
  rw [h, decode_encode others] at hread
  exact (Except.ok.inj hread).symm

theorem ofChars_digits_eq (h : ∀ c ∈ cs, IsDigit c) : Bytes.ofChars cs = cs.map Char.toUInt8 :=
  Bytes.ofChars_of_ascii fun c hc => (h c hc).lt

/-- Digits that pair up are read, and are those of the bytes but for their case. -/
theorem exists_pairs {count : Nat} (place : Nat) (h : ∀ c ∈ cs, IsDigit c)
    (hlength : cs.length = 2 * count) : ∃ bytes, pairs place (Bytes.ofChars cs) = .ok bytes ∧
      (encode bytes).toList = cs.map Char.toLower := by
  rw [ofChars_digits_eq h]
  induction count generalizing cs place with
  | zero =>
    rw [List.eq_nil_of_length_eq_zero hlength]
    exact ⟨[], rfl, rfl⟩
  | succ count ih =>
    match cs, hlength with
    | c :: d :: rest, hlength =>
      obtain ⟨hc, hd, hrest⟩ := List.forall_mem_cons.1 h |>.imp_right List.forall_mem_cons.1
      obtain ⟨high, hhigh, hcvalue, hclower⟩ := hc.exists_value
      obtain ⟨low, hlow, hdvalue, hdlower⟩ := hd.exists_value
      obtain ⟨bytes, hpairs, hencode⟩ := ih (place + 2) hrest (by simp at hlength; omega)
      have hbyte : (UInt8.ofNat (16 * high + low)).toNat = 16 * high + low :=
        UInt8.toNat_ofNat_of_lt' (by change _ < 256; omega)
      refine ⟨UInt8.ofNat (16 * high + low) :: bytes, ?_, ?_⟩
      · simp only [List.map_cons, pairs, hcvalue, hdvalue, hpairs]
      · have hdiv : (16 * high + low) / 16 = high := by omega
        have hmod : (16 * high + low) % 16 = low := by omega
        rw [toList_encode_cons, hbyte, hdiv, hmod, hencode, ← hclower, ← hdlower]
        rfl

/-- Whatever is read consists of digits. -/
theorem exists_digits {place : Nat} (h : pairs place text = .ok bytes) :
    ∃ cs, (∀ c ∈ cs, IsDigit c) ∧ text = Bytes.ofChars cs := by
  fun_induction pairs place text generalizing bytes with
  | case1 => exact ⟨[], nofun, rfl⟩
  | case2 => cases h
  | case3 => cases h
  | case4 => cases h
  | case5 => cases h
  | case6 place high low rest n m hlow hhigh bytes hpairs ih =>
    obtain ⟨cs, hcs, rfl⟩ := ih hpairs
    obtain ⟨c, hc, rfl⟩ := exists_isDigit (b := high) (by rw [hhigh]; rfl)
    obtain ⟨d, hd, rfl⟩ := exists_isDigit (b := low) (by rw [hlow]; rfl)
    have hall : ∀ x ∈ c :: d :: cs, IsDigit x :=
      List.forall_mem_cons.2 ⟨hc, List.forall_mem_cons.2 ⟨hd, hcs⟩⟩
    refine ⟨c :: d :: cs, hall, ?_⟩
    rw [ofChars_digits_eq hall, ofChars_digits_eq hcs]
    rfl

theorem exists_decode {count : Nat} (h : ∀ c ∈ cs, IsDigit c) (hlength : cs.length = 2 * count) :
    ∃ bytes, decode (Bytes.ofChars cs) = .ok bytes ∧
      (encode bytes).toList = cs.map Char.toLower := by
  obtain ⟨bytes, hpairs, hencode⟩ := exists_pairs 0 h hlength
  have heven : (Bytes.ofChars cs).length % 2 = 0 := by
    rw [ofChars_digits_eq h, List.length_map, hlength, Nat.mul_mod_right]
  exact ⟨bytes, by rw [decode, if_pos heven, hpairs], hencode⟩

/-- **A string of bytes is read from its digits,** of either case, and from nothing else. -/
theorem decode_eq_ok_iff : decode text = .ok bytes ↔ ∃ cs, (∀ c ∈ cs, IsDigit c) ∧
    text = Bytes.ofChars cs ∧ (encode bytes).toList = cs.map Char.toLower := by
  constructor
  · intro h
    have hdecode := h
    unfold decode at h
    split at h
    · next heven =>
      obtain ⟨cs, hcs, rfl⟩ := exists_digits h
      rw [ofChars_digits_eq hcs, List.length_map] at heven
      obtain ⟨count, hcount⟩ := Nat.dvd_of_mod_eq_zero heven
      obtain ⟨bytes', hread, hencode⟩ := exists_decode hcs hcount
      cases hread.symm.trans hdecode
      exact ⟨cs, hcs, rfl, hencode⟩
    · cases h
  · rintro ⟨cs, hcs, rfl, hencode⟩
    have hlength := length_toList_encode bytes
    rw [hencode, List.length_map] at hlength
    obtain ⟨bytes', hread, hencode'⟩ := exists_decode hcs hlength
    rw [← hencode, String.toList_inj, encode_injective.eq_iff] at hencode'
    exact hencode' ▸ hread

end Hex

/-! ## Addresses -/

namespace Address

open Hex (IsDigit)

variable {text : String} {a b : Address} {bytes : Bytes} {digits : List Char}

/-- The text is 40 digits, which the mark of a hexadecimal number may precede once. -/
structure WrittenIn (digits : List Char) (text : String) : Prop where
  isDigit : ∀ c ∈ digits, IsDigit c
  length_eq : digits.length = 40
  text_eq : text.toList = digits ∨ text.toList = '0' :: 'x' :: digits

theorem ofBytes?_eq_some_iff : ofBytes? bytes = some a ↔ bytes = a.bytes := by
  constructor
  · intro h
    unfold ofBytes? at h
    split at h
    · next hlength =>
      cases h
      have hlittle := Bytes.little_ofLittle bytes.reverse
      rw [List.length_reverse, hlength] at hlittle
      exact (congrArg List.reverse hlittle).trans (List.reverse_reverse bytes) |>.symm
    · cases h
  · rintro rfl
    exact ofBytes?_bytes a

/-- The mark is no digit, so that digits without it are not mistaken for digits behind it. -/
theorem withoutMark_eq_iff {text : Bytes} (h : ∀ c ∈ digits, IsDigit c) :
    withoutMark text = Bytes.ofChars digits ↔
      text = Bytes.ofChars digits ∨ text = Bytes.ofChars ('0' :: 'x' :: digits) := by
  have hmarked : Bytes.ofChars ('0' :: 'x' :: digits) = 48 :: 120 :: Bytes.ofChars digits := rfl
  have hunmarked : ∀ rest, 48 :: 120 :: rest ≠ Bytes.ofChars digits := by
    intro rest heq
    have hmem : (120 : UInt8) ∈ Bytes.ofChars digits :=
      heq ▸ List.mem_cons_of_mem _ List.mem_cons_self
    rw [Hex.ofChars_digits_eq h] at hmem
    obtain ⟨c, hc, hx⟩ := List.mem_map.1 hmem
    obtain ⟨n, -, hvalue, -⟩ := (h c hc).exists_value
    rw [hx] at hvalue
    cases hvalue
  rw [hmarked, withoutMark.eq_def]
  split
  · next rest => simp [hunmarked rest]
  · next hno =>
    refine (or_iff_left ?_).symm
    exact fun heq => hno _ heq

theorem hex_eq_iff :
    a.hex = "0x" ++ String.ofList digits ↔ (Hex.encode a.bytes).toList = digits := by
  rw [hex, ← String.toList_inj, String.toList_append, String.toList_append,
    List.append_cancel_left_eq, String.toList_ofList]

/-- **A text is read as an address if it is its digits,** of either case. -/
theorem ofHex_eq_ok_iff : ofHex text = .ok a ↔ ∃ digits, WrittenIn digits text ∧
    a.hex = "0x" ++ String.ofList (digits.map Char.toLower) := by
  have hread : ofHex text = .ok a ↔
      Hex.decode (withoutMark (Bytes.ofText text)) = .ok a.bytes := by
    unfold ofHex
    split
    · next h => simp [h, refuse_eq_ok_iff]
    · next h => rw [demandSome_eq_ok_iff, ofBytes?_eq_some_iff, h, Except.ok.injEq]
  rw [hread, Hex.decode_eq_ok_iff]
  constructor
  · rintro ⟨digits, hdigits, htext, hencode⟩
    have hlength := Hex.length_toList_encode a.bytes
    rw [hencode, List.length_map, bytes, Bytes.length_big] at hlength
    rw [withoutMark_eq_iff hdigits, Bytes.ofText_eq_ofChars_iff,
      Bytes.ofText_eq_ofChars_iff] at htext
    exact ⟨digits, ⟨hdigits, hlength, htext⟩, hex_eq_iff.2 hencode⟩
  · rintro ⟨digits, ⟨hdigits, -, htext⟩, hhex⟩
    refine ⟨digits, hdigits, ?_, hex_eq_iff.1 hhex⟩
    rw [withoutMark_eq_iff hdigits, Bytes.ofText_eq_ofChars_iff, Bytes.ofText_eq_ofChars_iff]
    exact htext

/-- Any 40 digits are those of an address. -/
theorem exists_hex (h : WrittenIn digits text) :
    ∃ a : Address, a.hex = "0x" ++ String.ofList (digits.map Char.toLower) := by
  have hdigits : digits.length = 2 * width := h.length_eq
  obtain ⟨bytes, -, hencode⟩ := Hex.exists_decode h.isDigit hdigits
  have hlength := Hex.length_toList_encode bytes
  rw [hencode, List.length_map, hdigits] at hlength
  have hwidth : bytes.length = width := by omega
  obtain ⟨a, ha⟩ : ∃ a, ofBytes? bytes = some a := ⟨_, dif_pos hwidth⟩
  rw [ofBytes?_eq_some_iff.1 ha] at hencode
  exact ⟨a, hex_eq_iff.2 hencode⟩

/-- **An address is read back from its own text.** -/
theorem ofHex_hex (a : Address) : ofHex a.hex = .ok a := by
  have hread := ofHex?_hex a
  unfold ofHex? at hread
  cases h : ofHex a.hex with
  | error stop =>
    rw [h] at hread
    cases hread
  | ok b =>
    rw [h] at hread
    cases hread
    rfl

theorem hex_injective : Function.Injective hex := by
  intro a b h
  have hread := ofHex_hex a
  rw [h, ofHex_hex b] at hread
  exact (Except.ok.inj hread).symm

/-- **Addresses are read as they are written:** from 40 digits of either case, with the mark or
without, and from nothing else; in lower case and with the mark, these digits are the text of the
address that is read.  Every address is read back from its own text, so that no other has it. -/
theorem texts_exact :
    (∀ text : String, (∃ a, ofHex text = .ok a) ↔ ∃ digits, WrittenIn digits text) ∧
    (∀ (text : String) (a : Address), ofHex text = .ok a ↔ ∃ digits, WrittenIn digits text ∧
      a.hex = "0x" ++ String.ofList (digits.map Char.toLower)) ∧
    (∀ a : Address, ofHex a.hex = .ok a) ∧ Function.Injective hex := by
  refine ⟨?_, fun _ _ => ofHex_eq_ok_iff, ofHex_hex, hex_injective⟩
  intro text
  constructor
  · rintro ⟨a, ha⟩
    obtain ⟨digits, hdigits, -⟩ := ofHex_eq_ok_iff.1 ha
    exact ⟨digits, hdigits⟩
  · rintro ⟨digits, hdigits⟩
    obtain ⟨a, ha⟩ := exists_hex hdigits
    exact ⟨a, ofHex_eq_ok_iff.2 ⟨digits, hdigits, ha⟩⟩

end Address

end Stablecoin
