import AppleII.Proofs.Disk.Container
import AppleII.Proofs.Except

/-!
# Decoding a sector image

A sector image is decoded as the container that is made of it (`decode_sectorImage`): every other one
of the first 70 half-tracks has a track, and the checksum fits.  The name of the file tells the order of
the sectors, unless the file begins as a WOZ container.
-/

namespace AppleII.Disk

/-- The extensions of the files that hold sector images in an order. -/
def SectorOrder.extensions : SectorOrder → List String
  | dos => ["dsk", "do"]
  | proDos => ["po"]

/-- The format of sector images in an order. -/
def SectorOrder.format : SectorOrder → Format
  | dos => .dsk
  | proDos => .po

/-- The name of a file is that of a sector image in an order. -/
def SectorOrder.Names (order : SectorOrder) (fileName : String) : Prop :=
  ∃ e ∈ order.extensions, (FilePath.extension? fileName).map Text.lower = some e

/-- The file begins as a WOZ container. -/
def HasWozMagic (bytes : Array UInt8) : Prop :=
  woz2Magic <+: bytes.toList ∨ woz1Magic <+: bytes.toList

/-! ## The container of a sector image -/

namespace SectorImage

/-- The bits of the tracks of an image. -/
def bitTracks (image : Array UInt8) (order : SectorOrder) : List (List Bool) :=
  (List.range tracks).map fun t => TrackItem.allBits (items image order t)

/-- The container of an image. -/
def woz (image : Array UInt8) (order : SectorOrder) : Array UInt8 :=
  updateChecksum (container (bitTracks image order))

/-- The track of a half-track in the container of an image. -/
def trackAt (h : Nat) : Track :=
  if h % 2 = 0 ∧ h / 2 < tracks then
    { start := tracksStart + trackSpan * (h / 2), bits := trackBitCount }
  else {}

variable (image : Array UInt8) (order : SectorOrder)

theorem length_bitTracks : (bitTracks image order).length = tracks := by simp [bitTracks]

theorem getElem_bitTracks {t : Nat} (ht : t < (bitTracks image order).length) :
    (bitTracks image order)[t] = TrackItem.allBits (items image order t) := by
  simp [bitTracks]

theorem bitTracks_fit : ∀ b ∈ bitTracks image order, bytesFor b.length ≤ trackSpan := by
  intro b hb
  obtain ⟨t, -, rfl⟩ := List.mem_map.mp hb
  show bytesFor (TrackItem.allBits (trackItems _ _)).length ≤ trackSpan
  rw [length_allBits_trackItems]
  decide

theorem size_woz : (woz image order).size = 234496 := by
  rw [woz, size_updateChecksum, size_container (bitTracks_fit image order), length_bitTracks]
  rfl

theorem bits_trackRecord {t : Nat} (ht : t < tracks) :
    trackRecord ((bitTracks image order).map List.length) t =
      Bytes.ofNat 2 (firstTrackBlock + blocksPerTrack * t) ++ Bytes.ofNat 2 blocksPerTrack ++
        Bytes.ofNat 4 trackBitCount := by
  have hlen : t < ((bitTracks image order).map List.length).length := by
    rwa [List.length_map, length_bitTracks]
  unfold trackRecord
  rw [List.getElem?_eq_getElem hlen, List.getElem_map, getElem_bitTracks]
  show _ ++ Bytes.ofNat 4 (TrackItem.allBits (trackItems _ _)).length = _
  rw [length_allBits_trackItems]

/-- The map entry of a half-track: a track for every other half-track of the first 70. -/
theorem trackAtQuarter_even (h : Nat) :
    trackAtQuarter (2 * h) = if h % 2 = 0 ∧ h / 2 < tracks then (h / 2).toUInt8 else noTrack := by
  unfold trackAtQuarter
  have hiff : ((2 * h + 1) % 4 ≤ 2 ∧ (2 * h + 1) / 4 < tracks) ↔ (h % 2 = 0 ∧ h / 2 < tracks) := by
    omega
  by_cases hc : h % 2 = 0 ∧ h / 2 < tracks
  · have hdiv : (2 * h + 1) / 4 = h / 2 := by omega
    rw [if_pos (hiff.mpr hc), if_pos hc, hdiv]
  · rw [if_neg (fun hq => hc (hiff.mp hq)), if_neg hc]

theorem getElem?_mapEntry (h : Fin halfTracks) :
    (woz image order)[Image.mapOffset + 2 * h.val]? = some (trackAtQuarter (2 * h.val)) := by
  have hh : 2 * h.val < 160 := by
    have := h.isLt
    simp only [halfTracks] at this
    omega
  have hmap := hasAt_updateChecksum (hasAt_trackMap (bitTracks image order)) (by decide)
  rw [← Array.getElem?_toList]
  refine (hmap (2 * h.val) (by rwa [length_trackMap])).trans ?_
  simp [trackMap, hh]

/-- The first block and the number of bits of a track are in its record. -/
theorem hasAt_record {t : Nat} (ht : t < tracks) :
    HasAt (woz image order).toList (256 + 8 * t) (Bytes.ofNat 2 (firstTrackBlock + blocksPerTrack * t)) ∧
      HasAt (woz image order).toList (256 + 8 * t + 4) (Bytes.ofNat 4 trackBitCount) := by
  have ht' : t < 35 := ht
  have hrecord := hasAt_updateChecksum (hasAt_trackRecord (bitTracks image order) (t := t) (by omega))
    (show 12 ≤ 256 + 8 * t by omega)
  rw [bits_trackRecord image order ht] at hrecord
  refine ⟨hrecord.left.left, ?_⟩
  have hbits := hrecord.right
  rw [List.length_append, Bytes.length_ofNat, Bytes.length_ofNat] at hbits
  exact hbits

theorem require_eq_ok {bytes : Array UInt8} {needed : Nat} (h : Nat) (fits : needed ≤ bytes.size) :
    Image.require bytes h needed = .ok ⟨fits⟩ := dif_pos fits

/-- A container is accepted when every half-track is. -/
theorem tracksOf_eq_ok_iff {bytes : Array UInt8} {header : Image.headerSize ≤ bytes.size} {f : Format}
    {tracks : Vector Track halfTracks} :
    Image.tracksOf bytes header f = .ok tracks ↔ ∀ h : Fin halfTracks,
      (if f = .woz1 then Image.woz1Track bytes header else Image.woz2Track bytes header) h =
        .ok (getElem tracks h.val h.isLt) := by
  constructor
  · intro htracks h
    have htrack := getElem_of_mapM htracks h.isLt
    rwa [Vector.getElem_finRange] at htrack
  · intro htracks
    unfold Image.tracksOf
    dsimp only
    rw [show (if f = .woz1 then Image.woz1Track bytes header else Image.woz2Track bytes header) =
      fun h => (pure (getElem tracks h.val h.isLt) : Except Error Track) from funext htracks, Vector.mapM_pure]
    refine congrArg Except.ok (Vector.ext fun h hh => ?_)
    simp

/-- A track of a WOZ 1 container that does not fit is refused. -/
theorem woz1Track_truncated {bytes : Array UInt8} (header : Image.headerSize ≤ bytes.size) {h : Fin halfTracks}
    {entry : UInt8} (hentry : bytes[Image.mapOffset + 2 * h.val]? = some entry) (hne : entry ≠ noTrack)
    (hshort : bytes.size < Image.headerSize + Image.woz1TrackSize * entry.toNat + Image.woz1TrackSize) :
    Image.woz1Track bytes header h = .error (.truncated h.val
      (Image.headerSize + Image.woz1TrackSize * entry.toNat + Image.woz1TrackSize) bytes.size) := by
  obtain ⟨hlt, rfl⟩ := Array.getElem?_eq_some_iff.mp hentry
  unfold Image.woz1Track
  exact (if_neg hne).trans (bind_eq_error (dif_neg (Nat.not_le.mpr hshort)) _)

/-- A half-track of a WOZ 2 container has no track, or the one that the record of its map entry tells. -/
theorem woz2Track_eq_ok_iff {bytes : Array UInt8} {header : Image.headerSize ≤ bytes.size} {h : Fin halfTracks}
    {t : Track} : Image.woz2Track bytes header h = .ok t ↔
      ∃ entry, bytes[Image.mapOffset + 2 * h.val]? = some entry ∧
        if entry = noTrack then t = {} else
          ∃ hr : Image.headerSize + 8 * entry.toNat + 8 ≤ bytes.size,
            t.start = 512 * Bytes.word16 bytes (Image.headerSize + 8 * entry.toNat) (by omega) ∧
            t.bits = Bytes.word32 bytes (Image.headerSize + 8 * entry.toNat + 4) (by omega) ∧
            t.stop ≤ bytes.size := by
  have hlt : Image.mapOffset + 2 * h.val < bytes.size := by
    have hh : h.val < 80 := h.isLt
    have hsize : 256 ≤ bytes.size := header
    simp only [Image.mapOffset]
    omega
  unfold Image.woz2Track
  constructor
  · intro ht
    refine ⟨_, Array.getElem?_eq_getElem hlt, ?_⟩
    dsimp only at ht
    split at ht
    · next hnone =>
      cases ht
      rw [if_pos hnone]
    · next hsome =>
      obtain ⟨⟨hr⟩, -, ht⟩ := bind_eq_ok_iff.mp ht
      obtain ⟨⟨fits⟩, -, ht⟩ := bind_eq_ok_iff.mp ht
      cases ht
      rw [if_neg hsome]
      exact ⟨hr, rfl, rfl, fits⟩
  · rintro ⟨entry, hentry, ht⟩
    obtain ⟨hlt', rfl⟩ := Array.getElem?_eq_some_iff.mp hentry
    split at ht
    · next hnone =>
      rw [ht]
      exact if_pos hnone
    · next hsome =>
      obtain ⟨hr, hstart, hbits, hstop⟩ := ht
      obtain ⟨start, bits⟩ := t
      dsimp only at hstart hbits
      subst hstart hbits
      refine (if_neg hsome).trans (bind_eq_ok_iff.mpr ⟨⟨hr⟩, require_eq_ok _ hr, ?_⟩)
      exact bind_eq_ok_iff.mpr ⟨⟨hstop⟩, require_eq_ok _ hstop, rfl⟩

/-- A half-track that the map gives no track has none. -/
theorem woz2Track_of_noTrack {bytes : Array UInt8} (header : Image.headerSize ≤ bytes.size)
    {h : Fin halfTracks} (hentry : bytes[Image.mapOffset + 2 * h.val]? = some noTrack) :
    Image.woz2Track bytes header h = .ok {} :=
  woz2Track_eq_ok_iff.mpr ⟨noTrack, hentry, by rw [if_pos rfl]⟩

/-- A half-track has the track whose record its map entry names. -/
theorem woz2Track_of_record {bytes : Array UInt8} (header : Image.headerSize ≤ bytes.size)
    {h : Fin halfTracks} {entry : UInt8} {block bits : Nat}
    (hentry : bytes[Image.mapOffset + 2 * h.val]? = some entry) (hne : entry ≠ noTrack)
    (hrecord : Image.headerSize + 8 * entry.toNat + 8 ≤ bytes.size)
    (hblock : HasAt bytes.toList (Image.headerSize + 8 * entry.toNat) (Bytes.ofNat 2 block))
    (hbits : HasAt bytes.toList (Image.headerSize + 8 * entry.toNat + 4) (Bytes.ofNat 4 bits))
    (hblock' : block < 0x10000) (hbits' : bits < 0x100000000)
    (hfit : 512 * block + bytesFor bits ≤ bytes.size) :
    Image.woz2Track bytes header h = .ok { start := 512 * block, bits } := by
  refine woz2Track_eq_ok_iff.mpr ⟨entry, hentry, ?_⟩
  rw [if_neg hne]
  refine ⟨hrecord, ?_, (Bytes.word32_of_hasAt _ hbits' hbits).symm, hfit⟩
  rw [Bytes.word16_of_hasAt _ hblock' hblock]

theorem woz2Track_woz (header : Image.headerSize ≤ (woz image order).size) (h : Fin halfTracks) :
    Image.woz2Track (woz image order) header h = .ok (trackAt h.val) := by
  have hsize := size_woz image order
  have hentry := getElem?_mapEntry image order h
  rw [trackAtQuarter_even] at hentry
  unfold trackAt
  by_cases hc : h.val % 2 = 0 ∧ h.val / 2 < tracks
  · have ht : h.val / 2 < 35 := hc.2
    rw [if_pos hc] at hentry ⊢
    have hnat : (h.val / 2).toUInt8.toNat = h.val / 2 := by
      simp only [Nat.toUInt8_eq, UInt8.toNat_ofNat']
      omega
    have hne : (h.val / 2).toUInt8 ≠ noTrack := by
      intro he
      rw [he] at hnat
      have : (255 : Nat) = h.val / 2 := hnat
      omega
    obtain ⟨hblock, hbits⟩ := hasAt_record image order hc.2
    have hstart : tracksStart + trackSpan * (h.val / 2) = 512 * (firstTrackBlock + blocksPerTrack * (h.val / 2)) := by
      simp only [tracksStart, trackSpan, firstTrackBlock, blocksPerTrack, blockSize]
      omega
    rw [hstart]
    refine woz2Track_of_record header hentry hne ?_ ?_ ?_ ?_ (by decide) ?_
    · rw [hnat, hsize]
      simp only [Image.headerSize]
      omega
    · rw [hnat]
      exact hblock
    · rw [hnat]
      exact hbits
    · simp only [firstTrackBlock, blocksPerTrack]
      omega
    · rw [hsize]
      simp only [firstTrackBlock, blocksPerTrack, bytesFor, trackBitCount]
      omega
  · rw [if_neg hc] at hentry ⊢
    exact woz2Track_of_noTrack header hentry

theorem tracksOf_woz (header : Image.headerSize ≤ (woz image order).size) :
    Image.tracksOf (woz image order) header order.format = .ok (Vector.ofFn fun h => trackAt h.val) := by
  have hformat : order.format ≠ .woz1 := by cases order <;> decide
  refine tracksOf_eq_ok_iff.mpr fun h => ?_
  rw [if_neg hformat, woz2Track_woz image order header h]
  simp

theorem toWoz?_eq (hsize : image.size = size) : toWoz? image order = some (woz image order) := by
  unfold toWoz?
  rw [if_pos hsize]
  rfl

end SectorImage

open SectorImage

/-- Whether a file begins with a magic of eight bytes is seen from its first eight bytes. -/
theorem isPrefixOf_extract_eight {bytes : Array UInt8} {magic : List UInt8} (hlength : magic.length = 8) :
    magic.isPrefixOf (bytes.extract 0 8).toList ↔ magic <+: bytes.toList := by
  have htake : (bytes.extract 0 8).toList = bytes.toList.take 8 := by
    rw [Array.toList_extract]
    simp
  rw [htake, List.isPrefixOf_iff_prefix]
  constructor
  · intro h
    exact h.trans (List.take_prefix 8 bytes.toList)
  · intro h
    have hmagic := List.prefix_iff_eq_take.mp h
    rw [hlength] at hmagic
    exact ⟨[], (List.append_nil magic).trans hmagic⟩

theorem detect_sectorImage {order : SectorOrder} {fileName : String} {bytes : Array UInt8}
    (hname : order.Names fileName) (hmagic : ¬ HasWozMagic bytes) :
    Image.detect fileName bytes = .ok order.format := by
  have hwoz2 : ¬ woz2Magic.isPrefixOf (bytes.extract 0 8).toList := fun h =>
    hmagic (.inl ((isPrefixOf_extract_eight rfl).mp h))
  have hwoz1 : ¬ woz1Magic.isPrefixOf (bytes.extract 0 8).toList := fun h =>
    hmagic (.inr ((isPrefixOf_extract_eight rfl).mp h))
  obtain ⟨e, he, hext⟩ := hname
  unfold Image.detect
  rw [if_neg hwoz2, if_neg hwoz1, hext]
  cases order with
  | dos =>
    rcases List.mem_cons.mp he with rfl | he
    · rfl
    · rw [List.mem_singleton.mp he]
      rfl
  | proDos =>
    rw [List.mem_singleton.mp he]
    rfl

/-- Both kinds of containers begin with the same byte. -/
theorem not_hasWozMagic {bytes : Array UInt8} (h : bytes[0]? ≠ some 0x57) : ¬ HasWozMagic bytes := by
  rw [← Array.getElem?_toList] at h
  rintro (⟨rest, hrest⟩ | ⟨rest, hrest⟩)
  · exact h (by rw [← hrest]; rfl)
  · exact h (by rw [← hrest]; rfl)

/-- The first eight bytes of a file are those that it begins with. -/
theorem toList_extract_eight {bytes : Array UInt8} {magic : List UInt8} (hlength : magic.length = 8)
    (hmagic : magic <+: bytes.toList) : (bytes.extract 0 8).toList = magic := by
  have htake : bytes.toList.take 8 = magic := by
    rw [← hlength]
    exact (List.prefix_iff_eq_take.mp hmagic).symm
  rw [Array.toList_extract]
  simpa using htake

theorem detect_woz1 {bytes : Array UInt8} (hmagic : woz1Magic <+: bytes.toList) (fileName : String) :
    Image.detect fileName bytes = .ok .woz1 := by
  unfold Image.detect
  rw [toList_extract_eight rfl hmagic]
  rfl

theorem detect_woz2 {bytes : Array UInt8} (hmagic : woz2Magic <+: bytes.toList) (fileName : String) :
    Image.detect fileName bytes = .ok .woz2 := by
  unfold Image.detect
  rw [toList_extract_eight rfl hmagic]
  rfl

theorem container_sectorImage {bytes : Array UInt8} (hsize : bytes.size = SectorImage.size)
    (order : SectorOrder) (fileName : String) : Image.container fileName bytes order.format =
      .ok (FilePath.withExtension fileName "woz", woz bytes order, true) := by
  cases order with
  | dos => simp only [Image.container, SectorOrder.format, toWoz?_eq bytes _ hsize]
  | proDos => simp only [Image.container, SectorOrder.format, toWoz?_eq bytes _ hsize]

/-- What an image is decoded as, once its container and its tracks are known. -/
theorem decode_eq_ok {fileName name : String} {bytes image : Array UInt8} {f : Format} {converted : Bool}
    {tracks : Vector Track halfTracks} (hdetect : Image.detect fileName bytes = .ok f)
    (hcontainer : Image.container fileName bytes f = .ok (name, image, converted))
    (header : Image.headerSize ≤ image.size) (htracks : Image.tracksOf image header f = .ok tracks) :
    ∃ writeProtected, Image.decode fileName bytes = .ok {
      fileName := name, format := f, bytes := image, tracks, converted, writeProtected
      warning := if f = .woz1 then none else Image.checkChecksum image } := by
  have hp : Image.protectOffset < image.size := Nat.lt_of_lt_of_le (by decide) header
  refine ⟨image[Image.protectOffset] == 1, bind_eq_ok_iff.mpr ⟨f, hdetect, ?_⟩⟩
  refine bind_eq_ok_iff.mpr ⟨_, hcontainer, ?_⟩
  exact bind_eq_ok_iff.mpr ⟨⟨header⟩, require_eq_ok 0 header, bind_eq_ok_iff.mpr ⟨tracks, htracks, rfl⟩⟩

/-- A container with a track that is refused is refused. -/
theorem decode_eq_error {fileName name : String} {bytes image : Array UInt8} {f : Format} {converted : Bool}
    {e : Error} (hdetect : Image.detect fileName bytes = .ok f)
    (hcontainer : Image.container fileName bytes f = .ok (name, image, converted))
    (header : Image.headerSize ≤ image.size) (htracks : Image.tracksOf image header f = .error e) :
    Image.decode fileName bytes = .error e := by
  unfold Image.decode
  rw [hdetect]
  show (Image.container fileName bytes f >>= _) = _
  rw [hcontainer]
  show (Image.require image 0 Image.headerSize >>= _) = _
  rw [require_eq_ok 0 header]
  exact bind_eq_error htracks _

/-- A sector image is decoded, without a warning, as the container that is made of it. -/
theorem decode_sectorImage {order : SectorOrder} {fileName : String} {bytes : Array UInt8}
    (hname : order.Names fileName) (hsize : bytes.size = SectorImage.size) (hmagic : ¬ HasWozMagic bytes) :
    ∃ image, Image.decode fileName bytes = .ok image ∧ image.bytes = woz bytes order ∧
      image.tracks = Vector.ofFn (fun h => trackAt h.val) ∧ image.warning = none := by
  have hformat : order.format ≠ .woz1 := by cases order <;> decide
  have header : Image.headerSize ≤ (woz bytes order).size := by
    rw [size_woz]
    decide
  obtain ⟨writeProtected, hdecode⟩ := decode_eq_ok (detect_sectorImage hname hmagic)
    (container_sectorImage hsize order fileName) header (tracksOf_woz bytes order header)
  have hchecksum : (if order.format = .woz1 then none else Image.checkChecksum (woz bytes order)) = none := by
    rw [if_neg hformat, woz, checkChecksum_updateChecksum]
  rw [hchecksum] at hdecode
  refine ⟨_, hdecode, ?_, ?_, ?_⟩
  · dsimp only
  · dsimp only
  · dsimp only

end AppleII.Disk
