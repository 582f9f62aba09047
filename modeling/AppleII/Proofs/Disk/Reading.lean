import AppleII.Proofs.Disk.Conversion
import Mathlib.Data.List.FinRange

/-!
# The reads of the decoder

The decoder once more, with reads that may miss: a read past the end of the bytes gives nothing at all, not
even an error.  No read misses (`decode?_eq`).
-/

namespace AppleII.Disk

/-- A computation that may end with an error, and whose reads may miss. -/
abbrev Reads (α : Type) : Type := ExceptT Error Option α

namespace Reads

variable {α β : Type}

/-- A computation whose reads do not miss. -/
def hit (x : Except Error α) : Reads α := ExceptT.mk (some x)

/-- A read that misses. -/
def miss : Reads α := ExceptT.mk none

theorem hit_ok_bind (a : α) (f : α → Reads β) : hit (.ok a) >>= f = f a := rfl

theorem mapM_hit (f : α → Except Error β) (l : List α) : (l.mapM fun a => hit (f a)) = hit (l.mapM f) := by
  induction l with
  | nil => rfl
  | cons a l ih =>
    rw [List.mapM_cons, List.mapM_cons, ih]
    cases f a with
    | error e => rfl
    | ok b => cases l.mapM f <;> rfl

theorem map_hit (f : α → β) (x : Except Error α) : f <$> hit x = hit (f <$> x) := by
  cases x <;> rfl

theorem eq_of_map_eq {f : α → β} (hf : ∀ a b, f a = f b → a = b) {x y : Reads α} (h : f <$> x = f <$> y) :
    x = y := by
  match x, y with
  | none, none => rfl
  | none, some (.error e) => cases h
  | none, some (.ok b) => cases h
  | some (.error e), none => cases h
  | some (.error e), some (.error e') =>
    cases Option.some.inj h
    rfl
  | some (.error e), some (.ok b) => cases Option.some.inj h
  | some (.ok a), none => cases h
  | some (.ok a), some (.error e) => cases Option.some.inj h
  | some (.ok a), some (.ok b) => rw [hf a b (Except.ok.inj (Option.some.inj h))]

theorem vectorMapM_hit {n : Nat} (f : α → Except Error β) (v : Vector α n) :
    (v.mapM fun a => hit (f a)) = hit (v.mapM f) := by
  refine eq_of_map_eq (f := Vector.toList) (fun _ _ => Vector.toList_inj.mp) ?_
  calc Vector.toList <$> (v.mapM fun a => hit (f a))
    _ = Array.toList <$> (Vector.toArray <$> v.mapM fun a => hit (f a)) := by
      rw [← comp_map]
      rfl
    _ = v.toList.mapM fun a => hit (f a) := by
      rw [Vector.toArray_mapM, Array.toList_mapM]
      rfl
    _ = Vector.toList <$> hit (v.mapM f) := by rw [mapM_hit, map_hit, toList_mapM]

end Reads

open Reads

/-! ## The decoder, read by read -/

/-- The byte at a place. -/
def byte? (bytes : Array UInt8) (i : Nat) : Reads UInt8 :=
  match bytes[i]? with
  | some b => hit (.ok b)
  | none => miss

/-- The word of two bytes at a place. -/
def word16? (bytes : Array UInt8) (i : Nat) : Reads Nat := do
  return (← byte? bytes i).toNat + 0x100 * (← byte? bytes (i + 1)).toNat

/-- The word of four bytes at a place. -/
def word32? (bytes : Array UInt8) (i : Nat) : Reads Nat := do
  return (← byte? bytes i).toNat + 0x100 * (← byte? bytes (i + 1)).toNat +
    0x10000 * (← byte? bytes (i + 2)).toNat + 0x1000000 * (← byte? bytes (i + 3)).toNat

/-- The bytes from a place on, which may be the end. -/
def bytesFrom? (bytes : Array UInt8) (i : Nat) : Reads (Array UInt8) :=
  if i ≤ bytes.size then hit (.ok (bytes.extract i bytes.size)) else miss

/-- What half-track `h` is refused for when there are too few bytes. -/
def require? (bytes : Array UInt8) (h needed : Nat) : Reads Unit :=
  hit (if needed ≤ bytes.size then .ok () else .error (.truncated h needed bytes.size))

/-- The track of a half-track in a WOZ 2 container. -/
def woz2Track? (bytes : Array UInt8) (h : Fin halfTracks) : Reads Track := do
  let entry ← byte? bytes (Image.mapOffset + 2 * h.val)
  if entry = noTrack then return {}
  let record := Image.headerSize + 8 * entry.toNat
  require? bytes h.val (record + 8)
  let block ← word16? bytes record
  let bits ← word32? bytes (record + 4)
  require? bytes h.val (512 * block + bytesFor bits)
  return { start := 512 * block, bits }

/-- The track of a half-track in a WOZ 1 container. -/
def woz1Track? (bytes : Array UInt8) (h : Fin halfTracks) : Reads Track := do
  let entry ← byte? bytes (Image.mapOffset + 2 * h.val)
  if entry = noTrack then return {}
  let start := Image.headerSize + Image.woz1TrackSize * entry.toNat
  require? bytes h.val (start + Image.woz1TrackSize)
  return { start, bits := ← word16? bytes (start + Image.woz1BitsOffset) }

/-- The mismatch of the checksum of a container, if there is one. -/
def checkChecksum? (bytes : Array UInt8) : Reads (Option Warning) := do
  if bytes.size < checkedOffset then return none
  let stored := (← word32? bytes checksumOffset).toUInt32
  if stored = 0 then return none
  let computed := Crc32.checksum (← bytesFrom? bytes checkedOffset)
  return if stored = computed then none else some (.checksumMismatch stored computed)

/-- The warning about a container of a format. -/
def warning? (bytes : Array UInt8) (f : Format) : Reads (Option Warning) :=
  if f = .woz1 then hit (.ok none) else checkChecksum? bytes

/-- A sector of an image. -/
def sector? (image : Array UInt8) (track : Nat) (s : Fin 16) : Reads (Vector UInt8 sectorSize) :=
  (Vector.finRange sectorSize).mapM fun i =>
    byte? image (SectorImage.trackSize * track + sectorSize * s.val + i.val)

/-- The formatted track of an image. -/
def items? (image : Array UInt8) (order : SectorOrder) (track : Nat) : Reads (List TrackItem) := do
  let sectors ← (Vector.finRange 16).mapM fun s => sector? image track (order.table.get s)
  return trackItems track.toUInt8 sectors.get

/-- The container that is made of a sector image. -/
def convert? (image : Array UInt8) (order : SectorOrder) : Reads (Array UInt8) := do
  if image.size ≠ SectorImage.size then
    hit (.error (.sectorImageSize SectorImage.size image.size))
  let tracks ← (List.finRange SectorImage.tracks).mapM fun t => items? image order t.val
  return updateChecksum (SectorImage.container (tracks.map TrackItem.allBits))

def container? (fileName : String) (bytes : Array UInt8) : Format → Reads (String × Array UInt8 × Bool)
  | .woz2 | .woz1 => return (fileName, bytes, false)
  | .dsk => return (FilePath.withExtension fileName "woz", ← convert? bytes .dos, true)
  | .po => return (FilePath.withExtension fileName "woz", ← convert? bytes .proDos, true)

/-- The disk that a file holds. -/
def decode? (fileName : String) (bytes : Array UInt8) : Reads Image := do
  let format ← hit (Image.detect fileName bytes)
  let (fileName, bytes, converted) ← container? fileName bytes format
  require? bytes 0 Image.headerSize
  let warning ← warning? bytes format
  let tracks ← (Vector.finRange halfTracks).mapM
    (if format = .woz1 then woz1Track? bytes else woz2Track? bytes)
  let flag ← byte? bytes Image.protectOffset
  return { fileName, format, bytes, tracks, warning, converted, writeProtected := flag == 1 }

/-! ## No read misses -/

theorem byte?_eq {bytes : Array UInt8} {i : Nat} (hi : i < bytes.size) : byte? bytes i = hit (.ok bytes[i]) := by
  unfold byte?
  rw [Array.getElem?_eq_getElem hi]

theorem word16?_eq {bytes : Array UInt8} {i : Nat} (hi : i + 1 < bytes.size) :
    word16? bytes i = hit (.ok (Bytes.word16 bytes i hi)) := by
  unfold word16?
  rw [byte?_eq (Nat.lt_of_succ_lt hi), hit_ok_bind, byte?_eq hi]
  rfl

theorem word32?_eq {bytes : Array UInt8} {i : Nat} (hi : i + 3 < bytes.size) :
    word32? bytes i = hit (.ok (Bytes.word32 bytes i hi)) := by
  unfold word32?
  rw [byte?_eq (by omega), hit_ok_bind, byte?_eq (by omega), hit_ok_bind, byte?_eq (by omega), hit_ok_bind,
    byte?_eq hi]
  rfl

theorem require?_of_le {bytes : Array UInt8} {needed : Nat} (h : Nat) (fits : needed ≤ bytes.size) :
    require? bytes h needed = hit (.ok ()) := by
  rw [require?, if_pos fits]

theorem require?_of_lt {bytes : Array UInt8} {needed : Nat} (h : Nat) (short : bytes.size < needed) :
    require? bytes h needed = hit (.error (.truncated h needed bytes.size)) := by
  rw [require?, if_neg (Nat.not_le.mpr short)]

theorem require_of_lt {bytes : Array UInt8} {needed : Nat} (h : Nat) (short : bytes.size < needed) :
    Image.require bytes h needed = .error (.truncated h needed bytes.size) :=
  dif_neg (Nat.not_le.mpr short)

/-- The map lies in the header. -/
theorem mapOffset_lt {bytes : Array UInt8} (header : Image.headerSize ≤ bytes.size) (h : Fin halfTracks) :
    Image.mapOffset + 2 * h.val < bytes.size := by
  have hh : h.val < 80 := h.isLt
  simp only [Image.mapOffset, Image.headerSize] at *
  omega

theorem woz2Track?_eq {bytes : Array UInt8} (header : Image.headerSize ≤ bytes.size) (h : Fin halfTracks) :
    woz2Track? bytes h = hit (Image.woz2Track bytes header h) := by
  unfold woz2Track? Image.woz2Track
  have hm := mapOffset_lt header h
  rw [byte?_eq hm, hit_ok_bind]
  dsimp only
  by_cases hnone : bytes[Image.mapOffset + 2 * h.val] = noTrack
  · rw [if_pos hnone, if_pos hnone]
    rfl
  rw [if_neg hnone, if_neg hnone]
  by_cases hr : Image.headerSize + 8 * bytes[Image.mapOffset + 2 * h.val].toNat + 8 ≤ bytes.size
  · rw [require?_of_le h.val hr, hit_ok_bind, SectorImage.require_eq_ok h.val hr, ok_bind, word16?_eq (by omega),
      hit_ok_bind, word32?_eq (by omega), hit_ok_bind]
    generalize Bytes.word16 bytes _ _ = block, Bytes.word32 bytes _ _ = bits
    by_cases hstop : 512 * block + bytesFor bits ≤ bytes.size
    · rw [require?_of_le h.val hstop, SectorImage.require_eq_ok h.val hstop]
      rfl
    · rw [require?_of_lt h.val (Nat.lt_of_not_le hstop), require_of_lt h.val (Nat.lt_of_not_le hstop)]
      rfl
  · rw [require?_of_lt h.val (Nat.lt_of_not_le hr), require_of_lt h.val (Nat.lt_of_not_le hr)]
    rfl

theorem woz1Track?_eq {bytes : Array UInt8} (header : Image.headerSize ≤ bytes.size) (h : Fin halfTracks) :
    woz1Track? bytes h = hit (Image.woz1Track bytes header h) := by
  unfold woz1Track? Image.woz1Track
  have hm := mapOffset_lt header h
  rw [byte?_eq hm, hit_ok_bind]
  dsimp only
  by_cases hnone : bytes[Image.mapOffset + 2 * h.val] = noTrack
  · rw [if_pos hnone, if_pos hnone]
    rfl
  rw [if_neg hnone, if_neg hnone]
  by_cases hr : Image.headerSize + Image.woz1TrackSize * bytes[Image.mapOffset + 2 * h.val].toNat +
      Image.woz1TrackSize ≤ bytes.size
  · have hbits : Image.headerSize + Image.woz1TrackSize * bytes[Image.mapOffset + 2 * h.val].toNat +
        Image.woz1BitsOffset + 1 < bytes.size := by
      have hlast : Image.woz1BitsOffset + 1 < Image.woz1TrackSize := by decide
      omega
    rw [require?_of_le h.val hr, hit_ok_bind, SectorImage.require_eq_ok h.val hr, ok_bind, word16?_eq hbits,
      hit_ok_bind]
    rfl
  · rw [require?_of_lt h.val (Nat.lt_of_not_le hr), require_of_lt h.val (Nat.lt_of_not_le hr)]
    rfl

theorem checkChecksum?_eq (bytes : Array UInt8) :
    checkChecksum? bytes = hit (.ok (Image.checkChecksum bytes)) := by
  unfold checkChecksum? Image.checkChecksum
  by_cases hsize : bytes.size < checkedOffset
  · rw [if_pos hsize, dif_pos hsize]
    rfl
  have hstored : checksumOffset + 3 < bytes.size := Nat.le_of_not_lt hsize
  rw [if_neg hsize, dif_neg hsize, word32?_eq hstored, hit_ok_bind]
  dsimp only
  generalize (Bytes.word32 bytes checksumOffset hstored).toUInt32 = stored
  by_cases hzero : stored = 0
  · rw [if_pos hzero, if_pos hzero]
    rfl
  rw [if_neg hzero, if_neg hzero, bytesFrom?, if_pos (Nat.le_of_not_lt hsize), hit_ok_bind]
  rfl

theorem sector?_eq {image : Array UInt8} (hsize : image.size = SectorImage.size) {track : Nat}
    (ht : track < SectorImage.tracks) (s : Fin 16) :
    sector? image track s = hit (.ok (SectorImage.sector image track s)) := by
  have hread (i : Fin sectorSize) : byte? image (SectorImage.trackSize * track + sectorSize * s.val + i.val) =
      hit (pure (image.getD (SectorImage.trackSize * track + sectorSize * s.val + i.val) 0)) := by
    have hi : SectorImage.trackSize * track + sectorSize * s.val + i.val < image.size := by
      have ht' : track < 35 := ht
      have hi' : i.val < 256 := i.isLt
      simp only [hsize, SectorImage.size, SectorImage.tracks, SectorImage.trackSize, sectorSize]
      omega
    rw [byte?_eq hi, Array.getD_eq_getD_getElem?, Array.getElem?_eq_getElem hi]
    rfl
  unfold sector?
  rw [funext hread, vectorMapM_hit, Vector.mapM_pure]
  refine congrArg (fun v => hit (.ok v)) (Vector.ext fun i hi => ?_)
  simp [SectorImage.sector]

theorem items?_eq {image : Array UInt8} (hsize : image.size = SectorImage.size) (order : SectorOrder) {track : Nat}
    (ht : track < SectorImage.tracks) : items? image order track = hit (.ok (SectorImage.items image order track)) := by
  have hsectors : (fun s => sector? image track (order.table.get s)) =
      fun s : Fin 16 => hit (pure (SectorImage.sector image track order.table[s])) :=
    funext fun s => sector?_eq hsize ht _
  unfold items? SectorImage.items
  rw [hsectors, vectorMapM_hit, Vector.mapM_pure]
  refine congrArg (fun f => hit (.ok (trackItems track.toUInt8 f))) (funext fun s => ?_)
  show (Vector.map _ (Vector.finRange 16))[s.val] = _
  simp

theorem convert?_eq (image : Array UInt8) (order : SectorOrder) : convert? image order =
    hit (match SectorImage.toWoz? image order with
      | some c => .ok c
      | none => .error (.sectorImageSize SectorImage.size image.size)) := by
  unfold convert? SectorImage.toWoz?
  by_cases hsize : image.size = SectorImage.size
  · have hitems : (fun t : Fin SectorImage.tracks => items? image order t.val) =
        fun t => hit (pure (SectorImage.items image order t.val)) :=
      funext fun t => items?_eq hsize order t.isLt
    have hrange : (List.finRange SectorImage.tracks).map (fun t => SectorImage.items image order t.val) =
        (List.range SectorImage.tracks).map (SectorImage.items image order) := by
      rw [← List.map_coe_finRange_eq_range, List.map_map]
      rfl
    rw [if_neg (not_not_intro hsize), if_pos hsize, hitems, mapM_hit, List.mapM_pure, hrange]
    show hit (.ok _) = hit (.ok _)
    rw [List.map_map]
    rfl
  · rw [if_pos hsize, if_neg hsize]
    rfl

theorem container?_eq (fileName : String) (bytes : Array UInt8) (f : Format) :
    container? fileName bytes f = hit (Image.container fileName bytes f) := by
  cases f with
  | woz2 => rfl
  | woz1 => rfl
  | dsk =>
    unfold container? Image.container
    dsimp only
    rw [convert?_eq]
    cases SectorImage.toWoz? bytes .dos <;> rfl
  | po =>
    unfold container? Image.container
    dsimp only
    rw [convert?_eq]
    cases SectorImage.toWoz? bytes .proDos <;> rfl

/-- **The decoder never reads past the end of the bytes**: with reads that may miss, it gives the same. -/
theorem decode?_eq (fileName : String) (bytes : Array UInt8) :
    decode? fileName bytes = hit (Image.decode fileName bytes) := by
  unfold decode? Image.decode
  cases Image.detect fileName bytes with
  | error e => rfl
  | ok f =>
    rw [hit_ok_bind, ok_bind, container?_eq]
    cases Image.container fileName bytes f with
    | error e => rfl
    | ok c =>
      obtain ⟨name, image, converted⟩ := c
      rw [hit_ok_bind, ok_bind]
      dsimp only
      by_cases header : Image.headerSize ≤ image.size
      · rw [require?_of_le 0 header, hit_ok_bind, SectorImage.require_eq_ok 0 header, ok_bind]
        have hp : Image.protectOffset < image.size := Nat.lt_of_lt_of_le (by decide) header
        have hwarning : warning? image f = hit (.ok (if f = .woz1 then none else Image.checkChecksum image)) := by
          unfold warning?
          split
          · rfl
          · exact checkChecksum?_eq image
        have htrack : (if f = .woz1 then woz1Track? image else woz2Track? image) =
            fun h => hit ((if f = .woz1 then Image.woz1Track image header else Image.woz2Track image header) h) := by
          split
          · exact funext (woz1Track?_eq header)
          · exact funext (woz2Track?_eq header)
        rw [hwarning, hit_ok_bind, htrack, vectorMapM_hit]
        show (hit (Image.tracksOf image header f) >>= _) = _
        cases Image.tracksOf image header f with
        | error e => rfl
        | ok tracks =>
          rw [hit_ok_bind, ok_bind, byte?_eq hp]
          rfl
      · rw [require?_of_lt 0 (Nat.lt_of_not_le header), require_of_lt 0 (Nat.lt_of_not_le header)]
        rfl

end AppleII.Disk
