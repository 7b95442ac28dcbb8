/-
  Stablecoin accounting — byte strings.

  Numbers as a fixed count of bytes, in either order, and text as UTF-8.

  * `Bytes.little` and `Bytes.big` write a number with its least or its most
    significant byte first, `Bytes.ofLittle` and `Bytes.ofBig` read it back;
  * **reading back**: `ofLittle (little w n) = n` for `n` below `256 ^ w`
    (`ofLittle_little`), and likewise for `big`.
-/
namespace Stablecoin

/-- A string of bytes. -/
abbrev Bytes := List UInt8

namespace Bytes

/-- The number in `width` bytes, least significant first. -/
def little : Nat → Nat → Bytes
  | 0, _ => []
  | width + 1, n => UInt8.ofNat (n % 256) :: little width (n / 256)

/-- The number that the bytes write, least significant first. -/
def ofLittle : Bytes → Nat
  | [] => 0
  | b :: rest => b.toNat + 256 * ofLittle rest

/-- The number in `width` bytes, most significant first. -/
def big (width n : Nat) : Bytes := (little width n).reverse

/-- The number that the bytes write, most significant first. -/
def ofBig (bytes : Bytes) : Nat := ofLittle bytes.reverse

/-- The bytes of a text in UTF-8. -/
def ofText (text : String) : Bytes := text.toList.flatMap String.utf8EncodeChar

/-- The text that the bytes write in UTF-8, if they write one. -/
def toText? (bytes : Bytes) : Option String := String.fromUTF8? ⟨bytes.toArray⟩

@[simp] theorem length_little (width n : Nat) : (little width n).length = width := by
  induction width generalizing n with
  | zero => rfl
  | succ width ih => simp [little, ih]

@[simp] theorem length_big (width n : Nat) : (big width n).length = width := by
  simp [big]

theorem ofLittle_little {width n : Nat} (h : n < Nat.pow 256 width) : ofLittle (little width n) = n := by
  induction width generalizing n with
  | zero => simp_all [little, ofLittle]
  | succ width ih =>
    have hp : Nat.pow 256 (width + 1) = Nat.pow 256 width * 256 := rfl
    have hq : n / 256 < Nat.pow 256 width := Nat.div_lt_of_lt_mul (by omega)
    simp only [little, ofLittle, ih hq, UInt8.toNat_ofNat']
    omega

theorem ofLittle_lt (bytes : Bytes) : ofLittle bytes < Nat.pow 256 bytes.length := by
  induction bytes with
  | nil => decide
  | cons b rest ih =>
    have hb : b.toNat < 256 := b.toNat_lt
    have hp : Nat.pow 256 (rest.length + 1) = Nat.pow 256 rest.length * 256 := rfl
    rw [ofLittle, List.length_cons, hp]
    omega

theorem ofBig_big {width n : Nat} (h : n < Nat.pow 256 width) : ofBig (big width n) = n := by
  simp [ofBig, big, ofLittle_little h]

theorem ofBig_lt (bytes : Bytes) : ofBig bytes < Nat.pow 256 bytes.length := by
  have h := ofLittle_lt bytes.reverse
  simpa [ofBig] using h

end Bytes

end Stablecoin
