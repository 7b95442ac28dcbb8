/-
  Stablecoin accounting — addresses.

  An address names an account: a borrower, a depositor, or one of the
  protocol's own accounts.  It is 20 bytes, held as the number below
  `2 ^ 160` that they write with the most significant byte first, so that the
  order of addresses is the order of their bytes.

  * `Address.ofLabel` gives every text its own address;
  * `Address.hex` is the text of an address, and `Address.ofBytes?` its inverse
    on bytes; texts are read in `Stablecoin.Address.Text`.
-/
import Stablecoin.Digest

namespace Stablecoin

/-- The first natural number that is no address: `2 ^ 160`. -/
def Address.limit : Nat := 0x10000000000000000000000000000000000000000

/-- An account: 20 bytes, as the number they write. -/
structure Address where
  val : Nat
  val_lt : val < Address.limit
deriving DecidableEq

namespace Address

@[ext] theorem ext {a b : Address} (h : a.val = b.val) : a = b := by
  cases a; cases b; cases h; rfl

/-- The count of bytes of an address. -/
def width : Nat := 20

/-- The address of nobody. -/
def zero : Address := ⟨0, by decide⟩

instance : Inhabited Address := ⟨zero⟩

/-! ## Bytes -/

/-- The 20 bytes of an address. -/
def bytes (a : Address) : Bytes := Bytes.big width a.val

/-- The address with these bytes, if there are 20 of them. -/
def ofBytes? (bytes : Bytes) : Option Address :=
  if h : bytes.length = width then
    some ⟨Bytes.ofBig bytes, by
      have := Bytes.ofBig_lt bytes
      rw [h] at this
      exact Nat.lt_of_lt_of_le this (by decide)⟩
  else none

theorem ofBytes?_bytes (a : Address) : ofBytes? a.bytes = some a := by
  have h : a.bytes.length = width := by simp [bytes]
  have hv : Bytes.ofBig a.bytes = a.val :=
    Bytes.ofBig_big (Nat.lt_of_lt_of_le a.val_lt (by decide))
  simp only [ofBytes?, h, dif_pos, Option.some.injEq]
  exact ext hv

/-- The address of a label: the first 20 bytes of the digest of its text. -/
def ofLabel (label : String) : Address :=
  ⟨Bytes.ofBig ((sha256 (Bytes.ofText label)).take width), by
    have := Bytes.ofBig_lt ((sha256 (Bytes.ofText label)).take width)
    refine Nat.lt_of_lt_of_le this ?_
    rw [List.length_take, length_sha256]
    decide⟩

/-! ## Text -/

/-- The bytes in lower-case digits, after the mark of a hexadecimal number. -/
def hex (a : Address) : String := "0x" ++ Hex.encode a.bytes

/-- The digits of the first four bytes. -/
def short (a : Address) : String := Hex.encode (a.bytes.take 4)

/-- The short form, named. -/
def brief (a : Address) : String := "Address(" ++ a.short ++ ")"

instance : ToString Address := ⟨hex⟩

end Address

end Stablecoin
