import AppleII.Bytes
import AppleII.Disk.Error
import AppleII.Disk.SectorImage
import AppleII.FilePath
import AppleII.Text.Blank

/-!
# Disk images

A drive turns a WOZ container: a row of bytes in which a map gives, for each of the 80 half-tracks,
where its bits start and how many they are.  `Image.decode` reads the map of a WOZ 1 or WOZ 2
container, and makes a container of a sector image first.
-/

namespace AppleII.Disk

inductive Format where
  | woz2
  | woz1
  /-- A sector image in DOS order. -/
  | dsk
  /-- A sector image in ProDOS order. -/
  | po
  deriving DecidableEq, Repr

/-- The number of half-tracks. -/
abbrev halfTracks : Nat := 80

/-- The number of bits of a half-track without a track. -/
def emptyTrackBits : Nat := 51200

/-- The bits of a half-track in a container: the byte at which they start, 0 where there is no track,
and their number. -/
structure Track where
  start : Nat := 0
  bits : Nat := emptyTrackBits
  deriving DecidableEq, Repr, Inhabited

/-- The bytes that a number of bits takes. -/
def bytesFor (bits : Nat) : Nat := (bits + 7) / 8

/-- The end of a track in its container. -/
def Track.stop (t : Track) : Nat := t.start + bytesFor t.bits

/-- A decoded image. -/
structure Image where
  fileName : String
  format : Format
  /-- The container. -/
  bytes : Array UInt8
  tracks : Vector Track halfTracks
  writeProtected : Bool
  warning : Option Warning
  /-- The container was made from a sector image. -/
  converted : Bool

namespace Image

/-- The format of an image: its first bytes decide, and else the extension of its name. -/
def detect (fileName : String) (bytes : Array UInt8) : Except Error Format :=
  if woz2Magic.isPrefixOf (bytes.extract 0 8).toList then .ok .woz2
  else if woz1Magic.isPrefixOf (bytes.extract 0 8).toList then .ok .woz1
  else
    match (FilePath.extension? fileName).map Text.lower with
    | some "dsk" => .ok .dsk
    | some "do" => .ok .dsk
    | some "po" => .ok .po
    | _ => .error (.unknownFormat fileName)

/-- The size of the part of a container before its tracks. -/
def headerSize : Nat := 256

/-- Where the write-protect flag lies. -/
def protectOffset : Nat := 22

/-- Where the track map starts. -/
def mapOffset : Nat := 88

/-- What a container is said to be short of when half-track `h` needs `needed` bytes. -/
def require (bytes : Array UInt8) (h needed : Nat) : Except Error (PLift (needed ≤ bytes.size)) :=
  if fits : needed ≤ bytes.size then .ok ⟨fits⟩ else .error (.truncated h needed bytes.size)

/-- The track of a half-track in a WOZ 2 container: the map entry names a record of eight bytes,
which holds the first block and the number of bits. -/
def woz2Track (bytes : Array UInt8) (header : headerSize ≤ bytes.size) (h : Fin halfTracks) :
    Except Error Track := do
  have hlt : h.val < 80 := h.isLt
  have hm : mapOffset + 2 * h.val < bytes.size := by simp only [mapOffset, headerSize] at *; omega
  let entry := bytes[mapOffset + 2 * h.val]
  if entry = noTrack then return {}
  let record := headerSize + 8 * entry.toNat
  let ⟨hr⟩ ← require bytes h.val (record + 8)
  let start := 512 * Bytes.word16 bytes record (by omega)
  let bits := Bytes.word32 bytes (record + 4) (by omega)
  let _ ← require bytes h.val (start + bytesFor bits)
  return { start, bits }

/-- The size of a track of a WOZ 1 container. -/
def woz1TrackSize : Nat := 6656

/-- Where a track of a WOZ 1 container holds its number of bits. -/
def woz1BitsOffset : Nat := 6648

/-- The track of a half-track in a WOZ 1 container: the map entry counts tracks of one size. -/
def woz1Track (bytes : Array UInt8) (header : headerSize ≤ bytes.size) (h : Fin halfTracks) :
    Except Error Track := do
  have hlt : h.val < 80 := h.isLt
  have hm : mapOffset + 2 * h.val < bytes.size := by simp only [mapOffset, headerSize] at *; omega
  let entry := bytes[mapOffset + 2 * h.val]
  if entry = noTrack then return {}
  let start := headerSize + woz1TrackSize * entry.toNat
  let ⟨hr⟩ ← require bytes h.val (start + woz1TrackSize)
  have hb : start + woz1BitsOffset + 1 < bytes.size := by
    simp only [woz1TrackSize, woz1BitsOffset] at *
    omega
  return { start, bits := Bytes.word16 bytes (start + woz1BitsOffset) hb }

/-- The mismatch of the checksum of a container, if there is one.  A stored checksum of zero fits
every container. -/
def checkChecksum (bytes : Array UInt8) : Option Warning :=
  if h : bytes.size < checkedOffset then none
  else
    let stored := (Bytes.word32 bytes checksumOffset (by
      simp only [checkedOffset, checksumOffset] at *
      omega)).toUInt32
    if stored = 0 then none
    else
      let computed := containerChecksum bytes
      if stored = computed then none else some (.checksumMismatch stored computed)

/-- The container of an image of the given format, with its name and whether it was made here. -/
def container (fileName : String) (bytes : Array UInt8) (f : Format) :
    Except Error (String × Array UInt8 × Bool) :=
  let convert (order : SectorOrder) :=
    match SectorImage.toWoz? bytes order with
    | some c => .ok (FilePath.withExtension fileName "woz", c, true)
    | none => .error (.sectorImageSize SectorImage.size bytes.size)
  match f with
  | .woz2 | .woz1 => .ok (fileName, bytes, false)
  | .dsk => convert .dos
  | .po => convert .proDos

/-- The tracks of a container. -/
def tracksOf (bytes : Array UInt8) (header : headerSize ≤ bytes.size) (f : Format) :
    Except Error (Vector Track halfTracks) :=
  let track := if f = .woz1 then woz1Track bytes header else woz2Track bytes header
  (Vector.finRange halfTracks).mapM track

/-- The disk that a file holds. -/
def decode (fileName : String) (bytes : Array UInt8) : Except Error Image := do
  let format ← detect fileName bytes
  let (fileName, bytes, converted) ← container fileName bytes format
  let ⟨header⟩ ← require bytes 0 headerSize
  have hp : protectOffset < bytes.size := by simp only [protectOffset, headerSize] at *; omega
  let tracks ← tracksOf bytes header format
  return {
    fileName, format, bytes, tracks, converted
    writeProtected := bytes[protectOffset] == 1
    warning := if format = .woz1 then none else checkChecksum bytes }

end Image

end AppleII.Disk
