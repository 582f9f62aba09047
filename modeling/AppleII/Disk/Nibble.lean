/-!
# Nibbles

On a track every byte has bit 7 set.  A byte of an address field is written as two nibbles of four
bits each (`fourAndFour`).  A sector is written as 343 nibbles of six bits each (`encodeSector`): 86
nibbles hold the two low bits of three bytes, 256 nibbles hold the six high bits of one, each is
combined with the one before it, and the last nibble closes the chain.  `decodeSector?` reads them
back.
-/

namespace AppleII.Disk

/-- The number of bytes in a sector. -/
abbrev sectorSize : Nat := 256

/-- The number of nibbles that hold low bits. -/
abbrev lowCount : Nat := 86

/-- The number of nibbles that hold data. -/
abbrev valueCount : Nat := 342

/-- The number of nibbles of a sector, the last of which closes the chain. -/
abbrev nibbleCount : Nat := 343

/-- The nibbles of the 64 six-bit values. -/
def nibbles : Vector UInt8 64 :=
  #v[0x96, 0x97, 0x9A, 0x9B, 0x9D, 0x9E, 0x9F, 0xA6,
     0xA7, 0xAB, 0xAC, 0xAD, 0xAE, 0xAF, 0xB2, 0xB3,
     0xB4, 0xB5, 0xB6, 0xB7, 0xB9, 0xBA, 0xBB, 0xBC,
     0xBD, 0xBE, 0xBF, 0xCB, 0xCD, 0xCE, 0xCF, 0xD3,
     0xD6, 0xD7, 0xD9, 0xDA, 0xDB, 0xDC, 0xDD, 0xDE,
     0xDF, 0xE5, 0xE6, 0xE7, 0xE9, 0xEA, 0xEB, 0xEC,
     0xED, 0xEE, 0xEF, 0xF2, 0xF3, 0xF4, 0xF5, 0xF6,
     0xF7, 0xF9, 0xFA, 0xFB, 0xFC, 0xFD, 0xFE, 0xFF]

/-- The nibble of the six low bits of a value. -/
def nibbleOf (v : UInt8) : UInt8 := getElem nibbles (v.toNat % 64) (Nat.mod_lt _ (by decide))

/-- The six-bit value of a nibble. -/
def valueOf? (nibble : UInt8) : Option UInt8 :=
  (nibbles.toList.findIdx? (· == nibble)).map Nat.toUInt8

/-- The two nibbles of a byte of an address field: its odd bits, then its even bits. -/
def fourAndFour (b : UInt8) : List UInt8 := [(b >>> 1) ||| 0xAA, b ||| 0xAA]

/-- Bits 0 and 1 exchanged. -/
def swapLow (b : UInt8) : UInt8 := ((b &&& 0x01) <<< 1) ||| ((b &&& 0x02) >>> 1)

/-- The byte at a place of a sector; beyond its end there are zeros. -/
def byteAt (data : Vector UInt8 sectorSize) (i : Nat) : UInt8 := data[i]?.getD 0

/-- The six-bit values of a sector, before they are chained: first the low bits of three bytes each,
86 apart, then the high bits of every byte. -/
def sectorValues (data : Vector UInt8 sectorSize) : Vector UInt8 valueCount :=
  Vector.ofFn fun i =>
    if i.val < lowCount then
      swapLow (byteAt data i.val) ||| (swapLow (byteAt data (i.val + 86)) <<< 2) |||
        (swapLow (byteAt data (i.val + 172)) <<< 4)
    else byteAt data (i.val - lowCount) >>> 2

/-- The value at a place of the chain; both ends are closed by zero. -/
def chainValue (values : Vector UInt8 valueCount) (i : Nat) : UInt8 := values[i]?.getD 0

def encodeSector (data : Vector UInt8 sectorSize) : Vector UInt8 nibbleCount :=
  let values := sectorValues data
  Vector.ofFn fun i =>
    nibbleOf (chainValue values i.val ^^^
      (if i.val = 0 then 0 else chainValue values (i.val - 1)))

/-- The values of a chain of nibbles, from the value before them on. -/
def unchain? (previous : UInt8) : List UInt8 → Option (List UInt8)
  | [] => some []
  | n :: ns => do
    let v := (← valueOf? n) ^^^ previous
    return v :: (← unchain? v ns)

/-- The byte at a place of a sector with the given values. -/
def sectorByte (values : List UInt8) (i : Nat) : UInt8 :=
  let low := (values.getD (i % lowCount) 0 >>> (2 * (i / lowCount)).toUInt8) &&& 0x03
  (values.getD (lowCount + i) 0 <<< 2) ||| swapLow low

/-- The sector that 343 nibbles stand for: all are nibbles of some value, and the last one closes the
chain. -/
def decodeSector? (encoded : Vector UInt8 nibbleCount) : Option (Vector UInt8 sectorSize) := do
  let values ← unchain? 0 encoded.toList
  if values.getLast? == some 0 then
    return Vector.ofFn fun i => sectorByte values i.val
  else none

end AppleII.Disk
