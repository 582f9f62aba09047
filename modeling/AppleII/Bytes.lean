/-!
# Little-endian words

Words of two and four bytes, lowest byte first, in an array of bytes.
-/

namespace AppleII.Bytes

/-- The 16-bit word at an offset. -/
def word16 (b : Array UInt8) (i : Nat) (_h : i + 1 < b.size) : Nat :=
  b[i].toNat + 0x100 * b[i + 1].toNat

/-- The 32-bit word at an offset. -/
def word32 (b : Array UInt8) (i : Nat) (_h : i + 3 < b.size) : Nat :=
  b[i].toNat + 0x100 * b[i + 1].toNat + 0x10000 * b[i + 2].toNat + 0x1000000 * b[i + 3].toNat

/-- The `n` lowest bytes of a number. -/
def ofNat : Nat → Nat → List UInt8
  | 0, _ => []
  | n + 1, v => (v % 0x100).toUInt8 :: ofNat n (v / 0x100)

/-- The bytes of a text of ASCII characters. -/
def ofAscii (s : String) : List UInt8 := s.toList.map fun c => c.toNat.toUInt8

end AppleII.Bytes
