import AppleII.Disk.Image

/-!
# Drives

A drive turns a disk under a head.  The head stands on a half-track, and `location` counts the bits of
the track that have gone by.  Reading is self-synchronising: a byte starts at the first 1 bit.  A track
is read and written round and round.
-/

namespace AppleII.Disk

/-- The half-track at which the head stops. -/
def lastHalfTrack : Nat := 68

/-- The half-track where the head stands at first. -/
def homeHalfTrack : Fin halfTracks := ⟨lastHalfTrack, by decide⟩

/-- The name of a drive without a disk. -/
def emptyDiskName : String := "(empty)"

structure Drive where
  fileName : String := emptyDiskName
  format : Option Format := none
  motorRunning : Bool := false
  writeMode : Bool := false
  writeProtected : Bool := false
  halfTrack : Fin halfTracks := homeHalfTrack
  /-- The last half-track with a track that the head stood on when it was moved. -/
  previousHalfTrack : Fin halfTracks := homeHalfTrack
  /-- The phase of the stepper motor. -/
  phase : Fin 4 := ⟨0, by decide⟩
  /-- The container; empty without a disk. -/
  image : Array UInt8 := #[]
  tracks : Vector Track halfTracks := Vector.replicate _ {}
  /-- The place of the head in its track, in bits. -/
  location : Nat := 0
  /-- There are changes that are not saved. -/
  dirty : Bool := false
  deriving DecidableEq, Repr, Inhabited

/-- What a drive shows of itself. -/
structure DriveStatus where
  fileName : String
  hasDisk : Bool
  halfTrack : Nat
  motorRunning : Bool
  writeProtected : Bool
  dirty : Bool
  deriving DecidableEq, Repr

/-- What came of moving the head. -/
inductive HeadMove where
  | moved
  | atStop
  deriving DecidableEq, Repr

/-- The half-track nearest to a number, within the range of the head. -/
def clampHalfTrack (n : Nat) : Fin halfTracks :=
  ⟨min n lastHalfTrack, Nat.lt_of_le_of_lt (Nat.min_le_right ..) (by decide)⟩

namespace Phase

/-- The phase of a number. -/
def ofNat (n : Nat) : Fin 4 := Fin.ofNat 4 n

/-- The phase after a phase. -/
def next (p : Fin 4) : Fin 4 := p + 1

/-- The phase before a phase. -/
def previous (p : Fin 4) : Fin 4 := p - 1

end Phase

namespace Drive

/-- A drive without a disk. -/
def empty : Drive := {}

/-- Whether there is a disk in the drive. -/
@[inline] def hasDisk (d : Drive) : Bool := !d.image.isEmpty

@[inline] def trackAt (d : Drive) (h : Fin halfTracks) : Track :=
  getElem d.tracks h.val h.isLt

/-- The track under the head. -/
@[inline] def track (d : Drive) : Track := d.trackAt d.halfTrack

/-- Whether a half-track has no track. -/
@[inline] def isEmptyAt (d : Drive) (h : Fin halfTracks) : Bool := (d.trackAt h).start == 0

/-- A disk put into the drive; the head stays where it is. -/
def load (d : Drive) (disk : Image) : Drive :=
  { d with
    fileName := disk.fileName
    format := some disk.format
    image := disk.bytes
    tracks := disk.tracks
    writeProtected := disk.writeProtected
    dirty := disk.converted
    location := 0 }

/-- The disk taken out; motor and head stay as they are. -/
def clear (d : Drive) : Drive :=
  { d with
    fileName := emptyDiskName
    format := none
    image := #[]
    tracks := Vector.replicate _ {}
    writeProtected := false
    dirty := false
    location := 0 }

/-! ## The head -/

/-- The place on a track of `new` bits that corresponds to a place on a track of `old` bits, less the
four bits that pass meanwhile. -/
def rescale (location old new : Nat) : Nat :=
  let q := location * new / max old 1 % 0x100000000
  if q > 3 then q - 4 else q

/-- The head moved by a number of half-tracks, within its range. -/
def moveHead (d : Drive) (offset : Int) : HeadMove × Drive :=
  let previous := if d.isEmptyAt d.halfTrack then d.previousHalfTrack else d.halfTrack
  let target := (d.halfTrack.val : Int) + offset
  let move := if 0 ≤ target ∧ target ≤ lastHalfTrack then HeadMove.moved else HeadMove.atStop
  let halfTrack := clampHalfTrack target.toNat
  let location :=
    if !d.isEmptyAt halfTrack && previous != halfTrack then
      rescale d.location (d.trackAt previous).bits (d.trackAt halfTrack).bits
    else d.location
  (move, { d with halfTrack, previousHalfTrack := previous, location })

/-! ## Bits -/

/-- The location brought into the track under the head. -/
@[inline] def settle (d : Drive) : Drive :=
  { d with location := if d.track.bits = 0 then 0 else d.location % d.track.bits }

/-- The byte of the image and the bit in it, from bit 7 down, that a settled head meets; none where
there is no track. -/
@[inline] def cell? (d : Drive) : Option (Nat × UInt8) :=
  let t := d.track
  let offset := t.start + d.location / 8
  if t.bits ≠ 0 ∧ t.start ≠ 0 ∧ offset < d.image.size then some (offset, (d.location % 8).toUInt8)
  else none

/-- The mask of a bit, counted from bit 7 down. -/
@[inline] def bitMask (bit : UInt8) : UInt8 := 0x80 >>> bit

/-- The next bit; 1 where there is no track. -/
def nextBit (d : Drive) : Bool × Drive :=
  let d := d.settle
  let bit := match d.cell? with
    | some (i, b) => d.image.getD i 0 &&& bitMask b != 0
    | none => true
  (bit, { d with location := d.location + 1 })

/-- Bits read until one is 1, at most `n` of them. -/
def seekOne : Nat → Drive → Bool × Drive
  | 0, d => (false, d)
  | n + 1, d =>
    let (b, d) := d.nextBit
    if b then (true, d) else seekOne n d

/-- `n` more bits read, below those of `acc`. -/
def readBits : Nat → UInt8 → Drive → UInt8 × Drive
  | 0, acc, d => (acc, d)
  | n + 1, acc, d =>
    let (b, d) := d.nextBit
    readBits n ((acc <<< 1) ||| (if b then 1 else 0)) d

/-- The next byte: 0 bits are passed over up to the first 1 bit.  It is 0 without a disk, and when a
whole revolution has no 1 bit. -/
def nextByte (d : Drive) : UInt8 × Drive :=
  if d.hasDisk then
    let (found, d) := seekOne (max d.track.bits 1) d
    if found then readBits 7 1 d else (0, d)
  else (0, d)

/-- A bit written; where there is no track it only goes by. -/
def writeBit (d : Drive) (bit : Bool) : Drive :=
  let d := d.settle
  let d := match d.cell? with
    | some (i, b) =>
      { d with image := d.image.modify i fun v =>
          if bit then v ||| bitMask b else v &&& ~~~bitMask b }
    | none => d
  { d with location := d.location + 1 }

/-- Bits written one after the other. -/
def writeBits (d : Drive) (bits : List Bool) : Drive := bits.foldl writeBit d

/-- The bits that a value is written as when `delta` cycles have gone by since it was loaded: its
eight bits after 16 cycles, a 0 bit after 36 and one more after 40. -/
def bitsWritten (value : UInt8) (delta : Nat) : List Bool :=
  (if 16 ≤ delta then TrackItem.prependBits value [] else []) ++
    (if 36 ≤ delta then [false] else []) ++ (if 40 ≤ delta then [false] else [])

/-- A value written: the number of its bits, or none when it stays where it is.  Nothing is written
without a disk, off the tracks, and of a value without bits. -/
def writeByte (d : Drive) (value : UInt8) (delta : Nat) : Option Nat × Drive :=
  if !d.hasDisk || d.isEmptyAt d.halfTrack || value == 0 then (none, d)
  else
    let bits := bitsWritten value delta
    (some bits.length, { d.writeBits bits with dirty := true })

/-- What the drive shows of itself. -/
def status (d : Drive) : DriveStatus where
  fileName := d.fileName
  hasDisk := d.hasDisk
  halfTrack := d.halfTrack.val
  motorRunning := d.motorRunning
  writeProtected := d.writeProtected
  dirty := d.dirty

end Drive

/-- The two drives of a controller. -/
structure Drives where
  first : Drive
  second : Drive
  deriving DecidableEq, Repr, Inhabited

/-- The first drive. -/
def driveOne : Fin 2 := 0

/-- The second drive. -/
def driveTwo : Fin 2 := 1

namespace Drives

/-- Two drives without disks. -/
def empty : Drives := ⟨.empty, .empty⟩

/-- The other one of two drives. -/
def other (i : Fin 2) : Fin 2 := i + 1

@[inline] def get (ds : Drives) (i : Fin 2) : Drive := if i = 0 then ds.first else ds.second

/-- One of the drives changed, with what the change gives. -/
@[inline] def update {α : Type} (ds : Drives) (i : Fin 2) (f : Drive → α × Drive) : α × Drives :=
  match ds with
  | ⟨first, second⟩ =>
    if i = 0 then
      let (a, first) := f first
      (a, ⟨first, second⟩)
    else
      let (a, second) := f second
      (a, ⟨first, second⟩)

/-- One of the drives changed. -/
@[inline] def modify (ds : Drives) (i : Fin 2) (f : Drive → Drive) : Drives :=
  match ds with
  | ⟨first, second⟩ => if i = 0 then ⟨f first, second⟩ else ⟨first, f second⟩

@[simp] theorem get_modify_self (ds : Drives) (i : Fin 2) (f : Drive → Drive) :
    (ds.modify i f).get i = f (ds.get i) := by
  by_cases h : i = 0 <;> simp [get, modify, h]

theorem get_modify_of_ne (ds : Drives) {i j : Fin 2} (f : Drive → Drive) (h : i ≠ j) :
    (ds.modify i f).get j = ds.get j := by
  by_cases hi : i = 0
  · have hj : j ≠ 0 := fun e => h (hi.trans e.symm)
    simp [get, modify, hi, hj]
  · have hj : j = 0 := by omega
    simp [get, modify, hi, hj]

theorem update_eq {α : Type} (ds : Drives) (i : Fin 2) (f : Drive → α × Drive) :
    ds.update i f = ((f (ds.get i)).1, ds.modify i fun d => (f d).2) := by
  by_cases h : i = 0 <;> simp [get, update, modify, h]

end Drives

end AppleII.Disk
