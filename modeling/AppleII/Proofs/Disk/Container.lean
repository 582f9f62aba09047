import AppleII.Proofs.Disk.Checksum
import AppleII.Proofs.Disk.Track

/-!
# The layout of a container

Where the parts of the container of a sector image lie: the track map at byte 88, the records of the
tracks from byte 256 on, and the tracks from block 3 on, 13 blocks each.
-/

namespace AppleII.Disk.SectorImage

/-- The header of a container up to its track map. -/
def headerStart : List UInt8 :=
  woz2Magic ++ List.replicate 4 0 ++ infoChunk ++ (Bytes.ofAscii "TMAP" ++ Bytes.ofNat 4 160)

/-- The header of a container between its track map and its records. -/
def recordsStart : List UInt8 :=
  Bytes.ofAscii "TRKS" ++ Bytes.ofNat 4 (160 * 8 + tracks * blocksPerTrack * blockSize)

/-- The track map. -/
def trackMap : List UInt8 := (List.range 160).map trackAtQuarter

/-- The records of some tracks. -/
def records (bits : List (List Bool)) : List UInt8 :=
  (List.range 160).flatMap (trackRecord (bits.map List.length))

theorem length_trackRecord (bits : List Nat) (track : Nat) : (trackRecord bits track).length = 8 := by
  unfold trackRecord
  split <;> simp [Bytes.length_ofNat]

theorem length_records (bits : List (List Bool)) : (records bits).length = 1280 := by
  unfold records
  rw [List.length_flatMap]
  simp only [length_trackRecord, List.map_const', List.length_range, List.sum_replicate_nat]

theorem length_headerStart : headerStart.length = 88 := by decide +kernel

theorem length_recordsStart : recordsStart.length = 8 := by decide +kernel

theorem length_trackMap : trackMap.length = 160 := by simp [trackMap]

theorem toList_foldl_trackBytes (bits : List (List Bool)) (acc : Array UInt8) :
    (bits.foldl (fun acc b => acc ++ trackBytes b) acc).toList =
      acc.toList ++ bits.flatMap fun b => (trackBytes b).toList := by
  induction bits generalizing acc with
  | nil => simp
  | cons b bits ih => rw [List.foldl_cons, ih, Array.toList_append, List.flatMap_cons, List.append_assoc]

/-- The bytes of a container are its header and its tracks. -/
theorem container_toList (bits : List (List Bool)) :
    (container bits).toList = headerStart ++ trackMap ++ recordsStart ++ records bits ++
      bits.flatMap fun b => (trackBytes b).toList := by
  unfold container
  rw [toList_foldl_trackBytes]
  simp only [mapChunk, chunk, headerStart, recordsStart, trackMap, records, List.append_assoc]

/-! ## Where the parts lie -/

/-- The size of a track in a container. -/
def trackSpan : Nat := blocksPerTrack * blockSize

/-- The byte at which the first track starts. -/
def tracksStart : Nat := firstTrackBlock * blockSize

theorem length_trackBytes {b : List Bool} (hb : bytesFor b.length ≤ trackSpan) :
    (trackBytes b).toList.length = trackSpan := by
  have hsize := size_packBits #[] b
  rw [Array.size_empty, Nat.zero_add] at hsize
  unfold trackBytes
  simp only [Array.length_toList, Array.size_append, Array.size_replicate, hsize]
  exact Nat.add_sub_cancel' hb

section Parts

variable (bits : List (List Bool))

theorem hasAt_trackMap : HasAt (container bits).toList 88 trackMap := by
  rw [container_toList, List.append_assoc (headerStart ++ trackMap), List.append_assoc (headerStart ++ trackMap),
    ← length_headerStart]
  exact hasAt_append _ _ _

theorem hasAt_records : HasAt (container bits).toList 256 (records bits) := by
  have hlen : (headerStart ++ trackMap ++ recordsStart).length = 256 := by
    rw [List.length_append, List.length_append, length_headerStart, length_trackMap, length_recordsStart]
  rw [container_toList, ← hlen]
  exact hasAt_append _ _ _

theorem hasAt_trackRecord {t : Nat} (ht : t < 160) :
    HasAt (container bits).toList (256 + 8 * t) (trackRecord (bits.map List.length) t) := by
  have hrecord := hasAt_flatMap (l := List.range 160) (f := trackRecord (bits.map List.length))
    (fun n _ => length_trackRecord _ n) (t := t) (by rwa [List.length_range])
  rw [List.getElem_range] at hrecord
  exact (hasAt_records bits).trans hrecord

variable {bits} (hfit : ∀ b ∈ bits, bytesFor b.length ≤ trackSpan)
include hfit

theorem size_container : (container bits).size = tracksStart + trackSpan * bits.length := by
  have htracks : (bits.map fun b => (trackBytes b).toList.length) = List.replicate bits.length trackSpan := by
    refine List.eq_replicate_iff.mpr ⟨List.length_map _, fun n hn => ?_⟩
    obtain ⟨b, hb, rfl⟩ := List.mem_map.mp hn
    exact length_trackBytes (hfit b hb)
  rw [← Array.length_toList, container_toList, List.length_append, List.length_flatMap, htracks,
    List.sum_replicate_nat]
  simp only [List.length_append, length_headerStart, length_trackMap, length_recordsStart, length_records]
  rw [Nat.mul_comm bits.length]
  rfl

theorem hasAt_trackBytes {t : Nat} (ht : t < bits.length) :
    HasAt (container bits).toList (tracksStart + trackSpan * t) (trackBytes bits[t]).toList := by
  have hlen : (headerStart ++ trackMap ++ recordsStart ++ records bits).length = tracksStart := by
    simp only [List.length_append, length_headerStart, length_trackMap, length_recordsStart, length_records]
    rfl
  have htrack := hasAt_flatMap (l := bits) (f := fun b => (trackBytes b).toList)
    (fun b hb => length_trackBytes (hfit b hb)) ht
  have htail := hasAt_append (headerStart ++ trackMap ++ recordsStart ++ records bits)
    (bits.flatMap fun b => (trackBytes b).toList) []
  rw [List.append_nil, hlen, ← container_toList] at htail
  exact htail.trans htrack

/-- The bits of a track lie from its first byte on. -/
theorem bitsAt_of_hasAt {t : Nat} (ht : t < bits.length) {image : Array UInt8}
    (himage : HasAt image.toList (tracksStart + trackSpan * t) (trackBytes bits[t]).toList) :
    BitsAt image (tracksStart + trackSpan * t) bits[t] := by
  intro i hi
  obtain ⟨v, hv, hbit⟩ := bitsAt_packBits #[] bits[t] i hi
  refine ⟨v, ?_, hbit⟩
  rw [Array.size_empty, Nat.zero_add] at hv
  have hlt : i / 8 < (packBits #[] bits[t]).size := (Array.getElem?_eq_some_iff.mp hv).1
  have hbyte := himage (i / 8) (by
    rw [length_trackBytes (hfit _ (List.getElem_mem ht))]
    have hfit' := hfit _ (List.getElem_mem ht)
    rw [size_packBits, Array.size_empty, Nat.zero_add] at hlt
    omega)
  rw [Array.getElem?_toList, Array.getElem?_toList] at hbyte
  rw [hbyte]
  unfold trackBytes
  rw [Array.getElem?_append_left hlt, hv]

end Parts

end AppleII.Disk.SectorImage
