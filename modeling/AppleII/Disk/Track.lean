import AppleII.Disk.Nibble

/-!
# Formatted tracks

A track is a row of bytes and of self-synchronising bytes, which are followed by two 0 bits.  Each of
the 16 sectors of a track has an address field and a data field, with synchronising bytes around
them.
-/

namespace AppleII.Disk

/-- What is laid down on a track. -/
inductive TrackItem where
  | byte (b : UInt8)
  /-- Eight 1 bits and two 0 bits. -/
  | sync
  deriving DecidableEq, Repr

namespace TrackItem

/-- The bits of a byte from bit 7 down, before the bits `r`. -/
def prependBits (b : UInt8) (r : List Bool) : List Bool :=
  (b &&& 0x80 != 0) :: (b &&& 0x40 != 0) :: (b &&& 0x20 != 0) :: (b &&& 0x10 != 0) ::
    (b &&& 0x08 != 0) :: (b &&& 0x04 != 0) :: (b &&& 0x02 != 0) :: (b &&& 0x01 != 0) :: r

def bits : TrackItem → List Bool
  | byte b => prependBits b []
  | sync => prependBits 0xFF [false, false]

/-- What a reader takes an item for. -/
def nibble : TrackItem → UInt8
  | byte b => b
  | sync => 0xFF

def allBits : List TrackItem → List Bool
  | [] => []
  | byte b :: r => prependBits b (allBits r)
  | sync :: r => prependBits 0xFF (false :: false :: allBits r)

end TrackItem

/-- The bytes of a row of bits, from bit 7 down; the last one is filled up with 0 bits. -/
def packBits (acc : Array UInt8) : List Bool → Array UInt8
  | a :: b :: c :: d :: e :: f :: g :: h :: r =>
    packBits (acc.push (byteOf a b c d e f g h)) r
  | [] => acc
  | r =>
    let bit (i : Nat) := r.getD i false
    acc.push (byteOf (bit 0) (bit 1) (bit 2) (bit 3) (bit 4) (bit 5) (bit 6) (bit 7))
where
  /-- The byte with the given bits. -/
  byteOf (a b c d e f g h : Bool) : UInt8 :=
    let w (v : UInt8) (b : Bool) : UInt8 := if b then v else 0
    w 0x80 a ||| w 0x40 b ||| w 0x20 c ||| w 0x10 d ||| w 0x08 e ||| w 0x04 f ||| w 0x02 g ||| w 0x01 h

/-- The volume number in every address field. -/
def volume : UInt8 := 254

def addressField (track sector : UInt8) : List UInt8 :=
  [0xD5, 0xAA, 0x96] ++ fourAndFour volume ++ fourAndFour track ++ fourAndFour sector ++
    fourAndFour (volume ^^^ track ^^^ sector) ++ [0xDE, 0xAA, 0xEB]

def dataField (data : Vector UInt8 sectorSize) : List UInt8 :=
  [0xD5, 0xAA, 0xAD] ++ (encodeSector data).toList ++ [0xDE, 0xAA, 0xEB]

/-- One sector with the gaps behind its fields. -/
def sectorItems (track sector : UInt8) (data : Vector UInt8 sectorSize) : List TrackItem :=
  (addressField track sector).map .byte ++ List.replicate 7 .sync ++
    (dataField data).map .byte ++ List.replicate 16 .sync

/-- A track whose sectors have the given data, in the order in which they pass the head. -/
def trackItems (track : UInt8) (data : Fin 16 → Vector UInt8 sectorSize) : List TrackItem :=
  List.replicate 16 .sync ++
    (List.finRange 16).flatMap fun s => sectorItems track s.val.toUInt8 (data s)

end AppleII.Disk
