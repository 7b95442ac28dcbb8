/-
  Stablecoin theory — reading back hexadecimal texts.

  Amounts and addresses are written as hexadecimal texts.  What is written is read
  back (`Amount.ofHex?_hex`, `Address.ofHex?_hex`), and no such text is longer than
  66 bytes.

  * every digit is one byte, which stands for what was written
    (`Hex.utf8EncodeChar_digit`, `Hex.value?_byte`);
  * `Hex.number?_digits` reads a number of any length, `Hex.pairs_encode` a string of
    bytes.
-/
import Stablecoin.Form.Leaf

namespace Stablecoin

/-! ## Texts -/

namespace Bytes

/-- The bytes of characters. -/
def ofChars (cs : List Char) : Bytes := cs.flatMap String.utf8EncodeChar

theorem ofText_ofList (cs : List Char) : ofText (String.ofList cs) = ofChars cs := by
  rw [ofText, String.toList_ofList, ofChars]

@[simp] theorem ofChars_append (cs ds : List Char) :
    ofChars (cs ++ ds) = ofChars cs ++ ofChars ds :=
  List.flatMap_append

/-- An ASCII text has a byte for each character. -/
theorem ofChars_of_ascii {cs : List Char} (h : ∀ c ∈ cs, c.toNat < 128) :
    ofChars cs = cs.map Char.toUInt8 := by
  induction cs with
  | nil => rfl
  | cons c rest ih =>
    obtain ⟨hc, hrest⟩ := List.forall_mem_cons.1 h
    have hsize : c.utf8Size = 1 := by
      rw [Char.utf8Size_eq_one_iff, UInt32.le_iff_toNat_le]
      exact Nat.le_of_lt_succ hc
    have htail := ih hrest
    rw [ofChars] at htail ⊢
    rw [List.flatMap_cons, htail, String.utf8EncodeChar_eq_singleton hsize]
    rfl

/-- **A text is read back from its bytes.** -/
theorem toText?_ofText (s : String) : toText? (ofText s) = some s := by
  have hbytes : (⟨(ofText s).toArray⟩ : ByteArray) = s.toByteArray := by
    rw [← String.utf8Encode_toList]
    exact ByteArray.ext (List.data_toByteArray).symm
  rw [toText?, hbytes, String.fromUTF8?, dif_pos s.isValidUTF8]
  rfl

end Bytes

namespace Hex

/-! ## Digits -/

/-- The byte of the digit for a number below sixteen. -/
def byte (n : Nat) : UInt8 := UInt8.ofNat (digit n).toNat

theorem utf8EncodeChar_digit {n : Nat} (h : n < 16) :
    String.utf8EncodeChar (digit n) = [byte n] := by
  have hall : ∀ n : Fin 16, String.utf8EncodeChar (digit n) = [byte n] := by decide
  exact hall ⟨n, h⟩

theorem value?_byte {n : Nat} (h : n < 16) : value? (byte n) = some n := by
  have hall : ∀ n : Fin 16, value? (byte n) = some n.val := by decide
  exact hall ⟨n, h⟩

theorem isBlank_byte {n : Nat} (h : n < 16) : isBlank (byte n) = false := by
  have hall : ∀ n : Fin 16, isBlank (byte n) = false := by decide
  exact hall ⟨n, h⟩

/-! ## Numbers -/

/-- The bytes of the digits of a number. -/
theorem ofChars_digits (n : Nat) : Bytes.ofChars (digits n) =
    if n < 16 then [byte n] else Bytes.ofChars (digits (n / 16)) ++ [byte (n % 16)] := by
  rw [digits]
  split
  · next h => simp [Bytes.ofChars, utf8EncodeChar_digit h]
  · next h =>
    rw [Bytes.ofChars_append]
    simp [Bytes.ofChars, utf8EncodeChar_digit (Nat.mod_lt n (by decide : 0 < 16))]

theorem number?_append (acc : Nat) (bytes : Bytes) (b : UInt8) :
    number? acc (bytes ++ [b]) =
      (number? acc bytes).bind fun n => (value? b).map fun d => 16 * n + d := by
  induction bytes generalizing acc with
  | nil => cases h : value? b <;> simp [number?, h]
  | cons c rest ih => cases h : value? c <;> simp [number?, h, ih]

/-- **A number is read back from its digits.** -/
theorem number?_digits (n : Nat) : number? 0 (Bytes.ofChars (digits n)) = some n := by
  induction n using digits.induct with
  | case1 n h => simp [ofChars_digits, h, number?, value?_byte h]
  | case2 n h ih =>
    rw [ofChars_digits, if_neg h, number?_append, ih, value?_byte (Nat.mod_lt n (by decide))]
    simp only [Option.bind_some, Option.map_some, Option.some.injEq]
    omega

/-- There is no blank among digits. -/
theorem isBlank_digits (n : Nat) : ∀ b ∈ Bytes.ofChars (digits n), isBlank b = false := by
  induction n using digits.induct with
  | case1 n h => simp [ofChars_digits, h, isBlank_byte h]
  | case2 n h ih =>
    rw [ofChars_digits, if_neg h]
    intro b hb
    obtain hb | hb := List.mem_append.1 hb
    · exact ih b hb
    · rw [List.mem_singleton.1 hb]
      exact isBlank_byte (Nat.mod_lt n (by decide))

theorem spacedNumber?_digits (n : Nat) : spacedNumber? (Bytes.ofChars (digits n)) = some n := by
  have hfilter : (Bytes.ofChars (digits n)).filter (fun b => !isBlank b) =
      Bytes.ofChars (digits n) := by
    rw [List.filter_eq_self]
    intro b hb
    rw [isBlank_digits n b hb]
    rfl
  have hcount : (Bytes.ofChars (digits n)).countP isBlank = 0 := by
    rw [List.countP_eq_zero]
    intro b hb
    rw [isBlank_digits n b hb]
    exact Bool.false_ne_true
  rw [spacedNumber?, hfilter, hcount, number?_digits]
  rfl

/-- A number has one digit at least, and no more than a limit of its size says. -/
theorem length_digits {n width : Nat} (h : n < Nat.pow 16 width) (hw : 1 ≤ width) :
    1 ≤ (Bytes.ofChars (digits n)).length ∧ (Bytes.ofChars (digits n)).length ≤ width := by
  induction n using digits.induct generalizing width with
  | case1 n h16 => simpa [ofChars_digits, h16] using hw
  | case2 n h16 ih =>
    rw [ofChars_digits, if_neg h16, List.length_append, List.length_singleton]
    match width, hw, h with
    | 1, _, h => exact absurd h h16
    | width + 2, _, h =>
      have hp : Nat.pow 16 (width + 2) = Nat.pow 16 (width + 1) * 16 := rfl
      have hlt : n / 16 < Nat.pow 16 (width + 1) := by omega
      obtain ⟨-, hle⟩ := ih hlt (Nat.succ_pos width)
      omega

/-! ## Byte strings -/

theorem ofText_encode (bytes : Bytes) : Bytes.ofText (encode bytes) =
    bytes.flatMap fun b => [byte (b.toNat / 16), byte (b.toNat % 16)] := by
  rw [encode, Bytes.ofText_ofList]
  induction bytes with
  | nil => rfl
  | cons b rest ih =>
    have hhigh : b.toNat / 16 < 16 := by
      have := b.toNat_lt
      omega
    rw [List.flatMap_cons, Bytes.ofChars_append, ih, List.flatMap_cons]
    simp [Bytes.ofChars, utf8EncodeChar_digit hhigh,
      utf8EncodeChar_digit (Nat.mod_lt b.toNat (by decide : 0 < 16))]

@[simp] theorem length_encode (bytes : Bytes) :
    (Bytes.ofText (encode bytes)).length = 2 * bytes.length := by
  rw [ofText_encode]
  induction bytes with
  | nil => rfl
  | cons b rest ih =>
    rw [List.flatMap_cons, List.length_append, ih, List.length_cons]
    simp only [List.length_cons, List.length_nil]
    omega

theorem pairs_encode (place : Nat) (bytes : Bytes) :
    pairs place (bytes.flatMap fun b => [byte (b.toNat / 16), byte (b.toNat % 16)]) =
      .ok bytes := by
  induction bytes generalizing place with
  | nil => rfl
  | cons b rest ih =>
    have hhigh : b.toNat / 16 < 16 := by
      have := b.toNat_lt
      omega
    have hb : UInt8.ofNat (16 * (b.toNat / 16) + b.toNat % 16) = b := by
      rw [Nat.div_add_mod]
      exact UInt8.ofNat_toNat
    simp only [List.flatMap_cons, List.cons_append, List.nil_append, pairs, value?_byte hhigh,
      value?_byte (Nat.mod_lt b.toNat (by decide : 0 < 16)), ih, hb]

/-- **A string of bytes is read back from its digits.** -/
theorem decode_encode (bytes : Bytes) : decode (Bytes.ofText (encode bytes)) = .ok bytes := by
  rw [decode, length_encode, if_pos (Nat.mul_mod_right 2 _), ofText_encode, pairs_encode]

end Hex

/-! ## Amounts and addresses -/

namespace Amount

theorem ofText_hex (a : Amount) :
    Bytes.ofText a.hex = 48 :: 120 :: Bytes.ofChars (Hex.digits a.val) := by
  rw [hex, Bytes.ofText_ofList]
  rfl

theorem length_digits (a : Amount) : 1 ≤ (Bytes.ofChars (Hex.digits a.val)).length ∧
    (Bytes.ofChars (Hex.digits a.val)).length ≤ 64 :=
  Hex.length_digits (Nat.lt_of_lt_of_le a.val_lt (by decide)) (by decide)

theorem length_hex_le (a : Amount) : (Bytes.ofText a.hex).length ≤ 66 := by
  have hle := (length_digits a).2
  rw [ofText_hex]
  simp only [List.length_cons]
  omega

/-- **An amount is read back from its text.** -/
theorem ofHex?_hex (a : Amount) : ofHex? a.hex = some a := by
  rw [ofHex?, ofText_hex, Address.withoutMark, if_pos (length_digits a),
    Hex.spacedNumber?_digits, Option.bind_some]
  exact ofNat?_eq_some_iff.2 rfl

end Amount

namespace Address

theorem ofText_hex (a : Address) :
    Bytes.ofText a.hex = 48 :: 120 :: Bytes.ofText (Hex.encode a.bytes) := by
  rw [hex, Bytes.ofText, String.toList_append, List.flatMap_append]
  rfl

@[simp] theorem length_hex (a : Address) : (Bytes.ofText a.hex).length = 42 := by
  rw [ofText_hex, List.length_cons, List.length_cons, Hex.length_encode, bytes, Bytes.length_big]
  rfl

/-- **An address is read back from its text.** -/
theorem ofHex?_hex (a : Address) : ofHex? a.hex = some a := by
  rw [ofHex?, ofHex, ofText_hex, withoutMark, Hex.decode_encode]
  dsimp only
  rw [ofBytes?_bytes]
  rfl

end Address

end Stablecoin
