import AppleII.Bytes
import AppleII.Crc32
import AppleII.Disk.Track

/-!
# Sector images

A sector image holds the 35 tracks of 16 sectors of a disk, in one of two orders.  `toWoz` lays the
sectors down on formatted tracks and puts the tracks into a WOZ 2 container: a header with a checksum,
then the chunks `INFO`, `TMAP` (which track the head meets at each quarter-track) and `TRKS`.
-/

namespace AppleII.Disk

/-- The first bytes of a WOZ 2 container. -/
def woz2Magic : List UInt8 := [0x57, 0x4F, 0x5A, 0x32, 0xFF, 0x0A, 0x0D, 0x0A]

/-- The first bytes of a WOZ 1 container. -/
def woz1Magic : List UInt8 := [0x57, 0x4F, 0x5A, 0x31, 0xFF, 0x0A, 0x0D, 0x0A]

/-- The entry of a track map where there is no track. -/
def noTrack : UInt8 := 0xFF

/-- Where the checksum of a container lies. -/
def checksumOffset : Nat := 8

/-- The first byte that the checksum covers. -/
def checkedOffset : Nat := 12

/-- The checksum that a container ought to have. -/
def containerChecksum (image : Array UInt8) : UInt32 :=
  Crc32.checksum (image.extract checkedOffset image.size)

/-- A container with its checksum computed anew; a shorter row of bytes is left alone. -/
def updateChecksum (image : Array UInt8) : Array UInt8 :=
  if image.size < checkedOffset then image
  else
    let crc := containerChecksum image
    (((image.setIfInBounds 8 crc.toUInt8).setIfInBounds 9 (crc >>> 8).toUInt8).setIfInBounds 10
      (crc >>> 16).toUInt8).setIfInBounds 11 (crc >>> 24).toUInt8

inductive SectorOrder where
  | dos
  | proDos
  deriving DecidableEq, Repr

namespace SectorOrder

/-- The sector of the image for each sector of a track, in the order in which they pass the head. -/
def table : SectorOrder → Vector (Fin 16) 16
  | dos => #v[0, 7, 14, 6, 13, 5, 12, 4, 11, 3, 10, 2, 9, 1, 8, 15]
  | proDos => #v[0, 8, 1, 9, 2, 10, 3, 11, 4, 12, 5, 13, 6, 14, 7, 15]

end SectorOrder

namespace SectorImage

/-- The number of tracks. -/
abbrev tracks : Nat := 35

abbrev trackSize : Nat := 16 * sectorSize

abbrev size : Nat := tracks * trackSize

/-- The size of a block of a container. -/
abbrev blockSize : Nat := 512

/-- The blocks that a track takes in a container. -/
abbrev blocksPerTrack : Nat := 13

abbrev firstTrackBlock : Nat := 3

/-- The sector of a track with the given place in the image. -/
def sector (image : Array UInt8) (track : Nat) (s : Fin 16) : Vector UInt8 sectorSize :=
  Vector.ofFn fun i => image.getD (trackSize * track + sectorSize * s.val + i.val) 0

/-- The formatted track of an image. -/
def items (image : Array UInt8) (order : SectorOrder) (track : Nat) : List TrackItem :=
  trackItems track.toUInt8 fun s => sector image track order.table[s]

/-- A chunk of a container: its name, its size and its contents. -/
def chunk (name : String) (size : Nat) (contents : List UInt8) : List UInt8 :=
  Bytes.ofAscii name ++ Bytes.ofNat 4 size ++ contents

/-- The program named in the containers made here. -/
def creator : String := "a2core dsk2woz"

/-- The `INFO` chunk: version 2, a 5.25 inch disk, not write protected, synchronised, cleaned; the
creator; one side, 16 sectors, a bit every 4 microseconds; and the largest track in blocks. -/
def infoChunk : List UInt8 :=
  chunk "INFO" 60 <|
    [2, 1, 0, 1, 1] ++ Bytes.ofAscii creator ++ List.replicate (32 - creator.length) 0x20 ++
      [1, 1, 32] ++ List.replicate 4 0 ++ Bytes.ofNat 2 blocksPerTrack ++ List.replicate 14 0

/-- The track that the head meets at a quarter-track: the head reads a track up to one quarter-track
away. -/
def trackAtQuarter (q : Nat) : UInt8 :=
  if (q + 1) % 4 ≤ 2 ∧ (q + 1) / 4 < tracks then ((q + 1) / 4).toUInt8 else noTrack

/-- The `TMAP` chunk. -/
def mapChunk : List UInt8 := chunk "TMAP" 160 ((List.range 160).map trackAtQuarter)

/-- The entry of a track in the `TRKS` chunk: its first block, its blocks and its bits. -/
def trackRecord (bits : List Nat) (track : Nat) : List UInt8 :=
  match bits[track]? with
  | some n =>
    Bytes.ofNat 2 (firstTrackBlock + blocksPerTrack * track) ++ Bytes.ofNat 2 blocksPerTrack ++
      Bytes.ofNat 4 n
  | none => List.replicate 8 0

/-- The bytes of a track, filled up to whole blocks. -/
def trackBytes (bits : List Bool) : Array UInt8 :=
  let bytes := packBits #[] bits
  bytes ++ Array.replicate (blocksPerTrack * blockSize - bytes.size) 0

/-- The container before its checksum is computed. -/
def container (tracks : List (List Bool)) : Array UInt8 :=
  let header := woz2Magic ++ List.replicate 4 0 ++ infoChunk ++ mapChunk ++
    chunk "TRKS" (160 * 8 + SectorImage.tracks * blocksPerTrack * blockSize)
      ((List.range 160).flatMap (trackRecord (tracks.map List.length)))
  tracks.foldl (fun acc bits => acc ++ trackBytes bits) header.toArray

/-- The WOZ 2 container of a sector image, if it has the right size. -/
def toWoz? (image : Array UInt8) (order : SectorOrder) : Option (Array UInt8) :=
  if image.size = size then
    some <| updateChecksum <| container <|
      (List.range tracks).map fun t => TrackItem.allBits (items image order t)
  else none

end SectorImage

end AppleII.Disk
