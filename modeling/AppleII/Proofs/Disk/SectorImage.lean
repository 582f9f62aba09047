import AppleII.Disk.Controller
import AppleII.Proofs.Disk.Conversion
import AppleII.Proofs.Disk.Nibble
import AppleII.Proofs.Disk.Revolution

/-!
# Sector images on a drive

A sector image that is put into a drive turns under the head as the formatted tracks of its sectors
(`insert_sectorImage`): the half-tracks 0, 2, …, 68 have tracks, each of them gives the nibbles of the
format round and round, and the nibbles of every sector stand for its 256 bytes of the image.
-/

namespace AppleII.Disk

open SectorImage

/-! ## The nibbles of the format -/

/-- The address field of a sector. -/
def addressNibbles (track sector : UInt8) : List UInt8 :=
  [0xD5, 0xAA, 0x96] ++ fourAndFour 254 ++ fourAndFour track ++ fourAndFour sector ++
    fourAndFour (254 ^^^ track ^^^ sector) ++ [0xDE, 0xAA, 0xEB]

/-- The nibbles of one sector: its address field, 7 nibbles, its data field, and 16 nibbles. -/
def sectorNibbles (track sector : UInt8) (data : Vector UInt8 sectorSize) : List UInt8 :=
  addressNibbles track sector ++ List.replicate 7 0xFF ++ [0xD5, 0xAA, 0xAD] ++ (encodeSector data).toList ++
    ([0xDE, 0xAA, 0xEB] ++ List.replicate 16 0xFF)

/-- The nibbles of a track of a sector image, once round. -/
def trackNibbles (image : Array UInt8) (order : SectorOrder) (track : Nat) : List UInt8 :=
  List.replicate 16 (0xFF : UInt8) ++ (List.finRange 16).flatMap fun p =>
    sectorNibbles track.toUInt8 p.val.toUInt8 (sector image track (order.table.get p))

theorem map_nibble_items (image : Array UInt8) (order : SectorOrder) (track : Nat) :
    (items image order track).map TrackItem.nibble = trackNibbles image order track := by
  have hbytes : ∀ l : List UInt8, (l.map TrackItem.byte).map TrackItem.nibble = l := by
    intro l
    rw [List.map_map]
    exact List.map_id'' (fun _ => rfl) l
  unfold items trackItems trackNibbles
  rw [List.map_append, List.map_replicate, List.map_flatMap]
  refine congrArg _ (congrArg (List.flatMap · (List.finRange 16)) (funext fun p => ?_))
  simp only [sectorItems, List.map_append, hbytes, List.map_replicate, sectorNibbles, dataField,
    List.append_assoc]
  rfl

theorem nibbleOf_high (v : UInt8) : nibbleOf v &&& 0x80 != 0 := by
  have key : ∀ i : Fin 64, nibbles[i] &&& 0x80 != 0 := by decide
  exact key ⟨v.toNat % 64, Nat.mod_lt _ (by decide)⟩

theorem fourAndFour_high (v : UInt8) : ∀ b ∈ fourAndFour v, b &&& 0x80 != 0 := by
  have table := forall_byte (P := fun v => (fourAndFour v).all fun b => b &&& 0x80 != 0)
    (by decide +kernel) v
  exact List.all_eq_true.mp table

theorem encodeSector_high (data : Vector UInt8 sectorSize) :
    ∀ b ∈ (encodeSector data).toList, b &&& 0x80 != 0 := by
  intro b hb
  obtain ⟨i, hi, rfl⟩ := Vector.mem_iff_getElem.mp (Vector.mem_toList_iff.mp hb)
  simp only [encodeSector, Vector.getElem_ofFn]
  exact nibbleOf_high _

theorem sectorNibbles_high (track sector : UInt8) (data : Vector UInt8 sectorSize) :
    ∀ b ∈ sectorNibbles track sector data, b &&& 0x80 != 0 := by
  unfold sectorNibbles addressNibbles
  simp only [List.forall_mem_append]
  refine ⟨⟨⟨⟨⟨⟨⟨⟨⟨?_, fourAndFour_high _⟩, fourAndFour_high _⟩, fourAndFour_high _⟩, fourAndFour_high _⟩, ?_⟩,
    ?_⟩, ?_⟩, encodeSector_high data⟩, ?_, ?_⟩
  all_goals exact List.all_eq_true.mp (by decide)

/-- On a track every nibble has bit 7 set. -/
theorem trackNibbles_high (image : Array UInt8) (order : SectorOrder) (track : Nat) :
    ∀ b ∈ trackNibbles image order track, b &&& 0x80 != 0 := by
  unfold trackNibbles
  rw [List.forall_mem_append]
  constructor
  · exact List.all_eq_true.mp (by decide)
  · intro b hb
    obtain ⟨p, -, hb⟩ := List.mem_flatMap.mp hb
    exact sectorNibbles_high _ _ _ b hb

theorem length_sectorNibbles (track sector : UInt8) (data : Vector UInt8 sectorSize) :
    (sectorNibbles track sector data).length = 386 := by
  have haddress : (addressNibbles track sector).length = 14 := rfl
  have hdata : (encodeSector data).toList.length = 343 := Vector.length_toList
  simp only [sectorNibbles, List.length_append, haddress, hdata, List.length_replicate, List.length_cons,
    List.length_nil]

/-- Every sector has its place on the track. -/
theorem hasAt_sectorNibbles (image : Array UInt8) (order : SectorOrder) (track : Nat) (p : Fin 16) :
    HasAt (trackNibbles image order track) (16 + 386 * p.val)
      (sectorNibbles track.toUInt8 p.val.toUInt8 (sector image track (order.table.get p))) := by
  have hlen : p.val < (List.finRange 16).length := by
    rw [List.length_finRange]
    exact p.isLt
  have hsector := hasAt_flatMap (l := List.finRange 16) (m := 386)
    (f := fun p => sectorNibbles track.toUInt8 p.val.toUInt8 (sector image track (order.table.get p)))
    (fun _ _ => length_sectorNibbles _ _ _) hlen
  have htail := hasAt_append (List.replicate 16 (0xFF : UInt8)) ((List.finRange 16).flatMap fun p =>
    sectorNibbles track.toUInt8 p.val.toUInt8 (sector image track (order.table.get p))) []
  rw [List.append_nil, List.length_replicate] at htail
  rw [List.getElem_finRange] at hsector
  exact htail.trans hsector

/-- The bytes of a sector are those of the image from its place on. -/
theorem toArray_sector {image : Array UInt8} (hsize : image.size = SectorImage.size) {t : Nat}
    (ht : t < tracks) (s : Fin 16) : (sector image t s).toArray =
      image.extract (4096 * t + 256 * s.val) (4096 * t + 256 * s.val + 256) := by
  have hs := s.isLt
  have ht' : t < 35 := ht
  have hsize' : image.size = 143360 := hsize
  refine Array.ext ?_ fun i hi hi' => ?_
  · rw [Vector.size_toArray, Array.size_extract, hsize']
    show 256 = _
    omega
  · have hlt : i < 256 := by simpa using hi
    simp only [sector, Vector.getElem_toArray, Vector.getElem_ofFn, Array.getElem_extract]
    rw [Array.getD_eq_getD_getElem?, Array.getElem?_eq_getElem (by rw [hsize']; simp only [trackSize, sectorSize]; omega)]
    rfl

/-! ## The disk in the drive -/

/-- The half-track on which a track of a sector image lies. -/
def halfTrackOf (t : Fin 35) : Fin halfTracks := ⟨2 * t.val, show 2 * t.val < 80 by omega⟩

theorem trackAt_halfTrackOf (t : Fin 35) :
    SectorImage.trackAt (halfTrackOf t).val = { start := tracksStart + trackSpan * t.val, bits := trackBitCount } := by
  have hdiv : 2 * t.val / 2 = t.val := by omega
  unfold SectorImage.trackAt halfTrackOf
  rw [hdiv, if_pos ⟨Nat.mul_mod_right 2 _, t.isLt⟩]

/-- The half-tracks with a track are every other one of the first 69. -/
theorem start_trackAt_eq_zero_iff (h : Nat) :
    (SectorImage.trackAt h).start = 0 ↔ ¬ (h % 2 = 0 ∧ h ≤ 68) := by
  have hiff : (h % 2 = 0 ∧ h / 2 < 35) ↔ (h % 2 = 0 ∧ h ≤ 68) := by omega
  have hpos : tracksStart + trackSpan * (h / 2) ≠ 0 := by
    simp only [tracksStart, firstTrackBlock, blockSize]
    omega
  rw [← hiff]
  unfold SectorImage.trackAt
  by_cases hc : h % 2 = 0 ∧ h / 2 < 35
  · rw [if_pos hc]
    exact ⟨fun hz => absurd hz hpos, fun hn => absurd hc hn⟩
  · rw [if_neg hc]
    exact ⟨fun _ => hc, fun _ => rfl⟩

/-- The head of a drive that was given a sector image meets the bits of its tracks. -/
theorem holds_atStart {order : SectorOrder} {bytes : Array UInt8} {d : Drive}
    (himage : d.image = woz bytes order)
    (htracks : d.tracks = Vector.ofFn fun h => SectorImage.trackAt h.val) (t : Fin 35) :
    (d.atStart (halfTrackOf t)).Holds (TrackItem.allBits (items bytes order t.val)) := by
  have hbits : t.val < (bitTracks bytes order).length := by
    rw [length_bitTracks]
    exact t.isLt
  have htrack : (d.atStart (halfTrackOf t)).track =
      { start := tracksStart + trackSpan * t.val, bits := trackBitCount } := by
    rw [← trackAt_halfTrackOf]
    simp only [Drive.track, Drive.trackAt, Drive.atStart, htracks, Vector.getElem_ofFn]
  have hlen : (TrackItem.allBits (items bytes order t.val)).length = trackBitCount :=
    length_allBits_trackItems _ _
  refine ⟨?_, ?_, ?_, ?_⟩
  · rw [htrack]
    simp only [tracksStart, firstTrackBlock, blockSize]
    omega
  · rw [htrack, hlen]
  · intro hnil
    rw [hnil] at hlen
    cases hlen
  · rw [htrack, ← getElem_bitTracks bytes order hbits]
    show BitsAt d.image _ _
    rw [himage]
    refine bitsAt_of_hasAt (bitTracks_fit bytes order) hbits (hasAt_updateChecksum ?_ ?_)
    · exact hasAt_trackBytes (bitTracks_fit bytes order) hbits
    · simp only [checkedOffset, tracksStart, firstTrackBlock, blockSize]
      omega

/-- The bytes that are read of a sector image, from the start of a track on. -/
theorem nextBytes_sectorImage {order : SectorOrder} {bytes : Array UInt8} {d : Drive}
    (himage : d.image = woz bytes order)
    (htracks : d.tracks = Vector.ofFn fun h => SectorImage.trackAt h.val) (t : Fin 35) (n : Nat) :
    ((d.atStart (halfTrackOf t)).nextBytes n).1 =
      (List.replicate n (trackNibbles bytes order t.val)).flatten.take n := by
  have hne : d.image ≠ #[] := by
    intro h
    have hsize := size_woz bytes order
    rw [← himage, h] at hsize
    cases hsize
  have hdisk : (d.atStart (halfTrackOf t)).hasDisk := by
    simpa [Drive.hasDisk, Drive.atStart] using hne
  have hhigh : ∀ i ∈ items bytes order t.val, i.nibble &&& 0x80 != 0 := by
    intro i hi
    have hmem := List.mem_map_of_mem (f := TrackItem.nibble) hi
    rw [map_nibble_items] at hmem
    exact trackNibbles_high _ _ _ _ hmem
  have hread := Drive.nextBytes_revolutions hhigh hdisk (holds_atStart himage htracks t) rfl n
  have hlen : n * (items bytes order t.val).length = n + n * ((items bytes order t.val).length - 1) := by
    have hitems : (items bytes order t.val).length = trackItemCount := length_trackItems _ _
    rw [hitems, Nat.mul_sub, Nat.mul_one]
    simp only [trackItemCount, sectorItemCount]
    omega
  rw [hlen, map_nibble_items] at hread
  rw [Drive.nextBytes_take, hread]

/-- **Sector images on a drive.** A sector image is put into a drive without a warning.  Then the
half-tracks with a track are 0, 2, …, 68; from the start of its track on, each gives the nibbles of the
format again and again; and the data field behind the address field of a sector stands for the 256 bytes
of the image that its order gives the sector. -/
theorem insert_sectorImage (order : SectorOrder) (fileName : String) (hname : order.Names fileName)
    (bytes : Array UInt8) (hsize : bytes.size = 143360) (hmagic : ¬ HasWozMagic bytes) (c : Controller)
    (drive : Fin 2) :
    ∃ c', c.insert drive.val fileName bytes = .ok (none, c') ∧
      (∀ h, (c'.drives.get drive).isEmptyAt h = false ↔ h.val % 2 = 0 ∧ h.val ≤ 68) ∧
      ∀ t : Fin 35,
        (∀ n, (((c'.drives.get drive).atStart (halfTrackOf t)).nextBytes n).1 =
          (List.replicate n (trackNibbles bytes order t.val)).flatten.take n) ∧
        ∀ p : Fin 16, ∃ encoded : Vector UInt8 343,
          HasAt (trackNibbles bytes order t.val) (16 + 386 * p.val)
            (addressNibbles t.val.toUInt8 p.val.toUInt8 ++ List.replicate 7 0xFF ++ [0xD5, 0xAA, 0xAD] ++
              encoded.toList) ∧
          (decodeSector? encoded).map Vector.toArray =
            some (bytes.extract (4096 * t.val + 256 * order.table[p].val)
              (4096 * t.val + 256 * order.table[p].val + 256)) := by
  obtain ⟨image, hdecode, himage, htracks, hwarning⟩ := decode_sectorImage hname hsize hmagic
  have hdrive : Controller.driveNumber drive.val = .ok drive := dif_pos drive.isLt
  refine ⟨{ c with drives := c.drives.modify drive fun u => u.load image }.emit (.diskInserted drive), ?_, ?_⟩
  · unfold Controller.insert
    rw [hdrive]
    simp only [bind, Except.bind, hdecode, hwarning]
    rfl
  have hload : (Controller.emit { c with drives := c.drives.modify drive fun u => u.load image }
      (.diskInserted drive)).drives.get drive = (c.drives.get drive).load image :=
    Drives.get_modify_self _ _ _
  rw [hload]
  refine ⟨fun h => ?_, fun t => ⟨nextBytes_sectorImage himage htracks t, fun p => ?_⟩⟩
  · have hstart : (((c.drives.get drive).load image).trackAt h).start = (SectorImage.trackAt h.val).start := by
      simp only [Drive.trackAt, Drive.load, htracks, Vector.getElem_ofFn]
    rw [Drive.isEmptyAt, hstart, beq_eq_false_iff_ne, ne_eq, start_trackAt_eq_zero_iff,
      Decidable.not_not]
  · refine ⟨encodeSector (sector bytes t.val order.table[p]), ?_, ?_⟩
    · exact (hasAt_sectorNibbles bytes order t.val p).left
    · rw [decodeSector?_encodeSector, Option.map_some, toArray_sector hsize t.isLt]

theorem names_blank : SectorOrder.dos.Names "blank.dsk" := by
  have hext : FilePath.extension? "blank.dsk" = some "dsk" := rfl
  have hlower : Text.lower "dsk" = "dsk" := by
    apply String.toList_injective
    rw [Text.lower, String.toList_map]
    rfl
  exact ⟨"dsk", List.mem_cons_self, by rw [hext, Option.map_some, hlower]⟩

theorem not_hasWozMagic_blank : ¬ HasWozMagic (Array.replicate 143360 0) := not_hasWozMagic (by
  rw [Array.getElem?_replicate, if_pos (by decide)]
  decide)

/-- A blank sector image in the first drive. -/
theorem insert_sectorImage_blank :
    SectorOrder.dos.Names "blank.dsk" ∧ ¬ HasWozMagic (Array.replicate 143360 0) ∧
      ∃ c', Controller.empty.insert 0 "blank.dsk" (Array.replicate 143360 0) = .ok (none, c') ∧
        ∀ n, (((c'.drives.get 0).atStart (halfTrackOf 17)).nextBytes n).1 =
          (List.replicate n (trackNibbles (Array.replicate 143360 0) .dos 17)).flatten.take n := by
  have hmagic : ¬ HasWozMagic (Array.replicate 143360 0) := not_hasWozMagic (by
    rw [Array.getElem?_replicate, if_pos (by decide)]
    decide)
  obtain ⟨c', hinsert, -, hread⟩ := insert_sectorImage .dos "blank.dsk" names_blank (Array.replicate 143360 0)
    Array.size_replicate hmagic .empty 0
  exact ⟨names_blank, hmagic, c', hinsert, (hread 17).1⟩

/-- A file of the size of a sector image that begins as a WOZ 1 container. -/
def wozLookalike : Array UInt8 := (woz1Magic ++ List.replicate 143352 0xE5).toArray

theorem size_wozLookalike : wozLookalike.size = 143360 := by
  rw [wozLookalike, List.size_toArray, List.length_append, List.length_replicate]
  rfl

theorem getElem?_wozLookalike : wozLookalike[Image.mapOffset + 2 * 0]? = some 0xE5 := by
  unfold wozLookalike
  rw [List.getElem?_toArray, List.getElem?_append_right (by decide), List.getElem?_replicate]
  rfl

/-- The name of a sector image does not make one of a file that begins as a WOZ container: such a file of
the right size is refused. -/
theorem insert_wozLookalike :
    wozLookalike.size = 143360 ∧ SectorOrder.dos.Names "blank.dsk" ∧
      Controller.empty.insert 0 "blank.dsk" wozLookalike = .error (.truncated 0 1531136 143360) := by
  refine ⟨size_wozLookalike, names_blank, ?_⟩
  have header : Image.headerSize ≤ wozLookalike.size := by
    rw [size_wozLookalike]
    decide
  have htracks : Image.tracksOf wozLookalike header .woz1 = .error (.truncated 0 1531136 143360) := by
    have hfirst : (Vector.finRange halfTracks)[0] = ⟨0, by decide⟩ := by simp [Vector.finRange]
    have htrack := woz1Track_truncated header (h := ⟨0, by decide⟩) getElem?_wozLookalike (by decide)
      (by rw [size_wozLookalike]; decide)
    rw [size_wozLookalike] at htrack
    unfold Image.tracksOf
    simp only [if_true]
    refine mapM_eq_error (by decide) ?_
    rw [hfirst]
    exact htrack
  have hdecode : Image.decode "blank.dsk" wozLookalike = .error (.truncated 0 1531136 143360) :=
    decode_eq_error (detect_woz1 (List.prefix_append _ _) _) rfl header htracks
  unfold Controller.insert
  rw [hdecode]
  rfl

end AppleII.Disk
