/-!
# CRC-32

The reflected cyclic redundancy check with the polynomial `EDB88320`, a byte at a time from a table
of 256 words.  The register starts with all bits set and is complemented at the end.
-/

namespace AppleII.Crc32

/-- The polynomial, its lowest power in bit 31. -/
def polynomial : UInt32 := 0xEDB88320

/-- The register after one bit has left it. -/
def shift (r : UInt32) : UInt32 := if r &&& 1 != 0 then polynomial ^^^ (r >>> 1) else r >>> 1

/-- The register after `n` bits have left it. -/
def shifts : Nat → UInt32 → UInt32
  | 0, r => r
  | n + 1, r => shifts n (shift r)

/-- Eight shifts of each byte. -/
def table : Vector UInt32 256 := Vector.ofFn fun i => shifts 8 i.val.toUInt32

/-- The register after one more byte. -/
@[inline] def update (r : UInt32) (b : UInt8) : UInt32 :=
  let i := (r ^^^ b.toUInt32).toUInt8
  getElem table i.toNat i.toNat_lt ^^^ (r >>> 8)

/-- The check value of a row of bytes. -/
def checksum (bytes : Array UInt8) : UInt32 := ~~~bytes.foldl update 0xFFFFFFFF

end AppleII.Crc32
