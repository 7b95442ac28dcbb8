/-
  Stablecoin accounting — digests.

  A `Digest` is a fingerprint of 32 bytes.  It is shown in full as 64 digits,
  and by its first 16 where it is named in passing.
-/
import Stablecoin.Hex
import Stablecoin.Sha256

namespace Stablecoin

/-- The count of bytes of a digest. -/
def Digest.width : Nat := 32

/-- A fingerprint of 32 bytes. -/
structure Digest where
  bytes : Bytes
  length_bytes : bytes.length = Digest.width
deriving DecidableEq

namespace Digest

/-- The digest of a message. -/
def ofMessage (message : Bytes) : Digest := ⟨sha256 message, length_sha256 message⟩

/-- The bytes as a digest, if there are 32 of them. -/
def ofBytes? (bytes : Bytes) : Option Digest :=
  if h : bytes.length = width then some ⟨bytes, h⟩ else none

/-- The digest that stands for nothing: all bytes zero. -/
def zero : Digest := ⟨List.replicate width 0, List.length_replicate⟩

instance : Inhabited Digest := ⟨zero⟩

/-- Its 64 digits. -/
def hex (d : Digest) : String := Hex.encode d.bytes

/-- Its first eight bytes, named. -/
def brief (d : Digest) : String := "Hash(" ++ Hex.encode (d.bytes.take 8) ++ ")"

instance : ToString Digest := ⟨hex⟩

end Digest

end Stablecoin
