import AppleII.Proofs.Disk.Decoding
import AppleII.Proofs.Disk.Handling
import AppleII.Proofs.Disk.SectorImage

/-!
# A saved disk is the same disk

What is written to a disk goes to its tracks, and its header only changes in the checksum (`SameHeader`), when
the tracks come after the records that tell where they are (`Image.Separate`).  A container with the same header
is decoded as the same tracks (`SameHeader.decode`), so that a disk that is saved, whatever was done to it
before, can be put in again (`save_reloads`).
-/

namespace AppleII.Disk

/-- Where the header of a container ends that has all of its 160 records. -/
def headerEnd : Nat := 1536

/-- Two containers of the same size whose headers differ in the checksum at most. -/
structure SameHeader (b b' : Array UInt8) : Prop where
  size : b'.size = b.size
  byte : ∀ i, i < headerEnd → i < checksumOffset ∨ checkedOffset ≤ i → b'[i]? = b[i]?

/-- The records and the tracks of an image do not overlap: a record that the map names ends before the header
does, and a track starts behind it. -/
def Image.Separate (image : Image) : Prop :=
  ∀ h : Fin halfTracks,
    (∀ entry, image.bytes[Image.mapOffset + 2 * h.val]? = some entry → entry ≠ noTrack →
      Image.headerSize + 8 * entry.toNat + 8 ≤ headerEnd) ∧
    ((image.trackAt h).start ≠ 0 → headerEnd ≤ (image.trackAt h).start)

/-! ## Containers with the same header -/

namespace SameHeader

variable {b b' b'' : Array UInt8}

theorem refl (b : Array UInt8) : SameHeader b b := ⟨rfl, fun _ _ _ => rfl⟩

theorem trans (h : SameHeader b b') (h' : SameHeader b' b'') : SameHeader b b'' :=
  ⟨h'.size.trans h.size, fun i hi hsum => (h'.byte i hi hsum).trans (h.byte i hi hsum)⟩

theorem updateChecksum (b : Array UInt8) : SameHeader b (updateChecksum b) :=
  ⟨size_updateChecksum b, fun _ _ hsum => getElem?_updateChecksum b hsum⟩

theorem detect (h : SameHeader b b') (fileName : String) : Image.detect fileName b' = Image.detect fileName b := by
  have hmagic : b'.extract 0 8 = b.extract 0 8 := by
    refine Array.ext_getElem? fun i => ?_
    rw [Array.getElem?_extract, Array.getElem?_extract, h.size]
    split
    · next hi => exact h.byte _ (by simp only [headerEnd]; omega) (.inl (by simp only [checksumOffset]; omega))
    · rfl
  unfold Image.detect
  rw [hmagic]

/-- A half-track whose record lies in the header has the same track. -/
theorem woz2Track (hsame : SameHeader b b') {header : Image.headerSize ≤ b.size}
    (header' : Image.headerSize ≤ b'.size) {h : Fin halfTracks} {t : Track}
    (hrecord : ∀ entry, b[Image.mapOffset + 2 * h.val]? = some entry → entry ≠ noTrack →
      Image.headerSize + 8 * entry.toNat + 8 ≤ headerEnd)
    (ht : Image.woz2Track b header h = .ok t) : Image.woz2Track b' header' h = .ok t := by
  have hh : h.val < 80 := h.isLt
  obtain ⟨entry, hentry, ht⟩ := SectorImage.woz2Track_eq_ok_iff.mp ht
  have hmap := hsame.byte (Image.mapOffset + 2 * h.val)
    (by simp only [Image.mapOffset, headerEnd]; omega) (.inr (by simp only [Image.mapOffset, checkedOffset]; omega))
  refine SectorImage.woz2Track_eq_ok_iff.mpr ⟨entry, hmap.trans hentry, ?_⟩
  split
  · next hnone => rwa [if_pos hnone] at ht
  · next hsome =>
    have hend := hrecord entry hentry hsome
    have hbyte (k : Nat) (hk : k < 8) : b'[Image.headerSize + 8 * entry.toNat + k]? =
        b[Image.headerSize + 8 * entry.toNat + k]? :=
      hsame.byte _ (by omega) (.inr (by simp only [Image.headerSize, checkedOffset]; omega))
    rw [if_neg hsome] at ht
    obtain ⟨hr, hstart, hbits, hstop⟩ := ht
    rw [← hsame.size] at hr hstop
    refine ⟨hr, hstart.trans ?_, hbits.trans ?_, hstop⟩
    · rw [Bytes.word16_congr _ _ fun k hk => hbyte k (by omega)]
    · exact (Bytes.word32_congr _ _ fun k hk => by rw [Nat.add_assoc]; exact hbyte (4 + k) (by omega)).symm

end SameHeader

/-! ## Images in WOZ 2 containers -/

open SectorImage

section Images

variable {fileName : String} {bytes : Array UInt8} {image : Image}

/-- An image that is no WOZ 1 container is a WOZ 2 container, or one that was made of a sector image. -/
theorem container_cases (hdecode : Image.decode fileName bytes = .ok image) (hformat : image.format ≠ .woz1) :
    (image.format = .woz2 ∧ image.bytes = bytes) ∨
      ∃ order : SectorOrder, image.format = order.format ∧ image.bytes = woz bytes order := by
  obtain ⟨-, hcontainer, -⟩ := decode_cases hdecode
  have hconvert (order : SectorOrder) (hf : image.format = order.format) : image.bytes = woz bytes order := by
    rw [hf] at hcontainer
    by_cases hsize : bytes.size = SectorImage.size
    · rw [container_sectorImage hsize order fileName, Except.ok.injEq, Prod.mk.injEq, Prod.mk.injEq] at hcontainer
      exact hcontainer.2.1.symm
    · have hnone : toWoz? bytes order = none := if_neg hsize
      cases order with
      | dos | proDos =>
        simp only [Image.container, SectorOrder.format, hnone] at hcontainer
        cases hcontainer
  cases hf : image.format with
  | woz2 =>
    rw [hf] at hcontainer
    simp only [Image.container, Except.ok.injEq, Prod.mk.injEq] at hcontainer
    exact .inl ⟨rfl, hcontainer.2.1.symm⟩
  | woz1 => exact absurd hf hformat
  | dsk => exact .inr ⟨.dos, rfl, hconvert .dos hf⟩
  | po => exact .inr ⟨.proDos, rfl, hconvert .proDos hf⟩

theorem detect_container (hdecode : Image.decode fileName bytes = .ok image) (hformat : image.format ≠ .woz1)
    (name : String) : Image.detect name image.bytes = .ok .woz2 := by
  rcases container_cases hdecode hformat with ⟨hf, hbytes⟩ | ⟨order, -, hbytes⟩
  · -- Only the first bytes make a WOZ 2 container of a file, whatever its name is.
    have hdetect := (decode_cases hdecode).1
    rw [hf] at hdetect
    rw [hbytes]
    unfold Image.detect at hdetect ⊢
    split at hdetect
    · next hmagic => rw [if_pos hmagic]
    · split at hdetect
      · cases hdetect
      · split at hdetect <;> cases hdetect
  · rw [hbytes, woz, (SameHeader.updateChecksum _).detect]
    refine detect_woz2 ?_ name
    rw [container_toList]
    unfold headerStart
    simp only [List.append_assoc]
    exact List.prefix_append _ _

/-- The records of a container that is made of a sector image come before its tracks. -/
theorem separate_of_converted {order : SectorOrder} (hdecode : Image.decode fileName bytes = .ok image)
    (hf : image.format = order.format) (hbytes : image.bytes = woz bytes order) : image.Separate := by
  obtain ⟨-, -, ⟨header, htracks⟩, -⟩ := decode_cases hdecode
  have hformat : order.format ≠ .woz1 := by cases order <;> decide
  have htrack (h : Fin halfTracks) : image.trackAt h = trackAt h.val := by
    have hdecoded := trackAt_eq htracks h
    rw [hf, if_neg hformat] at hdecoded
    have hwoz := woz2Track_woz bytes order
    rw [← hbytes] at hwoz
    exact Except.ok.inj (hdecoded.symm.trans (hwoz header h))
  intro h
  refine ⟨fun entry hentry hne => ?_, fun hstart => ?_⟩
  · rw [hbytes, getElem?_mapEntry, Option.some.injEq, trackAtQuarter_even] at hentry
    split at hentry
    · next hc =>
      have ht : h.val / 2 < 35 := hc.2
      have hnat : entry.toNat = h.val / 2 := by
        rw [← hentry]
        simp only [Nat.toUInt8_eq, UInt8.toNat_ofNat']
        omega
      rw [hnat]
      simp only [Image.headerSize, headerEnd]
      omega
    · exact absurd hentry.symm hne
  · rw [htrack] at hstart ⊢
    unfold trackAt at hstart ⊢
    split
    · exact Nat.le_add_right _ _
    · next hc =>
      rw [if_neg hc] at hstart
      exact absurd rfl hstart

/-- **A container with the header of an image** is decoded as the same tracks. -/
theorem SameHeader.decode (hdecode : Image.decode fileName bytes = .ok image) (hformat : image.format ≠ .woz1)
    (hseparate : image.Separate) {saved : Array UInt8} (hsame : SameHeader image.bytes saved)
    (hchecksum : Image.checkChecksum saved = none) (name : String) :
    Image.decode name saved = .ok {
      fileName := name
      format := .woz2
      bytes := saved
      tracks := image.tracks
      writeProtected := image.writeProtected
      warning := none
      converted := false } := by
  obtain ⟨-, -, ⟨header, htracks⟩, hprotected, -⟩ := decode_cases hdecode
  have header' : Image.headerSize ≤ saved.size := by rwa [hsame.size]
  have hdetect : Image.detect name saved = .ok .woz2 := by
    rw [hsame.detect]
    exact detect_container hdecode hformat name
  have htracks' : Image.tracksOf saved header' .woz2 = .ok image.tracks := by
    refine tracksOf_eq_ok_iff.mpr fun h => ?_
    have htrack := trackAt_eq htracks h
    rw [if_neg hformat] at htrack
    exact hsame.woz2Track header' (hseparate h).1 htrack
  obtain ⟨writeProtected, hdecode'⟩ := decode_eq_ok hdetect rfl header' htracks'
  obtain ⟨-, -, -, hprotected', -⟩ := decode_cases hdecode'
  have hbyte := hsame.byte Image.protectOffset (by decide) (.inr (by decide))
  have hflag : writeProtected = image.writeProtected := by
    dsimp only at hprotected'
    rw [hbyte, hprotected] at hprotected'
    exact (Option.some.inj hprotected').symm
  rw [hdecode', hflag, hchecksum]
  rfl

end Images

/-! ## The disk in its drive -/

namespace Drive

/-- A drive has the disk of an image, of which at most the tracks and the checksum were written. -/
structure Carries (d : Drive) (image : Image) : Prop where
  fileName : d.fileName = image.fileName
  tracks : d.tracks = image.tracks
  writeProtected : d.writeProtected = image.writeProtected
  header : SameHeader image.bytes d.image

variable {d d' : Drive} {image : Image}

theorem carries_load (d : Drive) (image : Image) : (d.load image).Carries image := ⟨rfl, rfl, rfl, .refl _⟩

theorem Carries.hasDisk {fileName : String} {bytes : Array UInt8} (h : d.Carries image)
    (hdecode : Image.decode fileName bytes = .ok image) : d.hasDisk := by
  obtain ⟨-, -, ⟨header, -⟩, -⟩ := decode_cases hdecode
  have hsize := h.header.size
  have hne : d.image ≠ #[] := by
    rintro hempty
    rw [hempty] at hsize
    rw [← hsize] at header
    cases header
  simpa [Drive.hasDisk] using hne

/-- No step reaches the header of a disk whose tracks come behind it. -/
theorem Carries.step (hseparate : image.Separate) (hstep : Step d d') (h : d.Carries image) : d'.Carries image := by
  obtain ⟨hname, htracks, hprotected, hheader⟩ := h
  -- Only a bit that is written and a save change the container.
  cases hstep with
  | writeBit bit =>
    obtain ⟨written, location, heq, hsize, hbyte⟩ := d.writeBit_cases bit
    have hwritten : SameHeader d.image written := by
      refine ⟨hsize, fun i hi _ => hbyte i fun hstart => ?_⟩
      have htrack : d.track = image.trackAt d.halfTrack := by
        unfold track trackAt
        rw [htracks]
        rfl
      rw [htrack] at hstart ⊢
      exact Nat.lt_of_lt_of_le hi ((hseparate d.halfTrack).2 hstart)
    rw [heq]
    exact ⟨hname, htracks, hprotected, hheader.trans hwritten⟩
  | save => exact ⟨hname, htracks, hprotected, hheader.trans (.updateChecksum _)⟩
  | nextBit | moveHead | setPhase | setWriteMode | change | home => exact ⟨hname, htracks, hprotected, hheader⟩

theorem Carries.handled (hseparate : image.Separate) (hhandled : d.Handled d') (h : d.Carries image) :
    d'.Carries image :=
  hhandled.keeps (P := fun d => d.Carries image) (fun hstep hd => hd.step hseparate hstep)
    (fun _ ⟨hname, htracks, hprotected, hheader⟩ => ⟨hname, htracks, hprotected, hheader⟩) h

end Drive

/-! ## The disk in use -/

namespace Controller

/-- What is done to a controller while a disk stays in one of its drives. -/
inductive Use where
  | access (reg : UInt8) (value : Option UInt8) (cycle : Nat) (switches : Switches)
  | update (cycle : Nat) (switches : Switches)
  | reset (switches : Switches)
  | resume
  | takeEvents
  | save (drive : Nat)
  | motor (drive : Fin 2) (running : Bool)
  | moveHead (drive : Fin 2) (offset : Int)
  | nextBit (drive : Fin 2)
  | nextByte (drive : Fin 2)
  | writeBit (drive : Fin 2) (bit : Bool)
  | writeByte (drive : Fin 2) (value : UInt8) (delta : Nat)
  /-- A disk is put into the other drive. -/
  | insertOther (fileName : String) (bytes : Array UInt8)
  | ejectOther

def modifyDrive (c : Controller) (i : Fin 2) (f : Drive → Drive) : Controller :=
  { c with drives := c.drives.modify i f }

/-- The controller after a use, while the disk stays in drive `i`.  What is refused changes nothing. -/
def use (i : Fin 2) (c : Controller) : Use → Controller
  | .access reg value cycle switches => (c.access reg value cycle switches).2
  | .update cycle switches => c.update cycle switches
  | .reset switches => (c.reset switches).1
  | .resume => c.resume
  | .takeEvents => c.takeEvents.2
  | .save drive => (c.save drive).2
  | .motor drive motorRunning => c.modifyDrive drive fun d => { d with motorRunning }
  | .moveHead drive offset => c.modifyDrive drive fun d => (d.moveHead offset).2
  | .nextBit drive => c.modifyDrive drive fun d => d.nextBit.2
  | .nextByte drive => c.modifyDrive drive fun d => d.nextByte.2
  | .writeBit drive bit => c.modifyDrive drive fun d => d.writeBit bit
  | .writeByte drive value delta => c.modifyDrive drive fun d => (d.writeByte value delta).2
  | .insertOther fileName bytes =>
    match c.insert (Drives.other i).val fileName bytes with
    | .ok (_, c) => c
    | .error _ => c
  | .ejectOther =>
    match c.eject (Drives.other i).val with
    | .ok c => c
    | .error _ => c

def useAll (i : Fin 2) (c : Controller) (uses : List Use) : Controller := uses.foldl (use i) c

theorem handled_modifyDrive (c : Controller) (i : Fin 2) {f : Drive → Drive}
    (h : (c.drives.get i).Handled (f (c.drives.get i))) : c.Handled (c.modifyDrive i f) :=
  get_modify_of (fun _ => .refl) c.drives i h

theorem get_insertOther (i : Fin 2) (c : Controller) (fileName : String) (bytes : Array UInt8) :
    (c.use i (.insertOther fileName bytes)).drives.get i = c.drives.get i := by
  unfold use
  dsimp only
  split
  · next w c' hinsert =>
    obtain ⟨j, image, hj, -, -, rfl⟩ := insert_eq_ok_iff.mp hinsert
    have hne : j ≠ i := Fin.ext hj ▸ Drives.other_ne i
    exact Drives.get_modify_of_ne _ _ hne
  · rfl

theorem get_ejectOther (i : Fin 2) (c : Controller) : (c.use i .ejectOther).drives.get i = c.drives.get i := by
  unfold use
  dsimp only
  split
  · next c' heject =>
    rcases eject_cases heject with rfl | ⟨j, hj, rfl⟩
    · rfl
    · have hne : j ≠ i := Fin.ext hj ▸ Drives.other_ne i
      exact Drives.get_modify_of_ne _ _ hne
  · rfl

/-- In the drive where the disk stays there are small steps only. -/
theorem handled_use (i : Fin 2) (c : Controller) (u : Use) :
    (c.drives.get i).Handled ((c.use i u).drives.get i) := by
  cases u with
  | access reg value cycle switches => exact c.handled_access reg value cycle switches i
  | update cycle switches => exact c.handled_update cycle switches i
  | reset switches => exact c.handled_reset switches i
  | resume => exact c.worked_resume.handled i
  | takeEvents => exact .refl
  | save drive => exact (c.worked_save drive).handled i
  | motor drive running => exact c.handled_modifyDrive drive (Drive.handled_motor _ running) i
  | moveHead drive offset => exact c.handled_modifyDrive drive (Drive.Worked.handled (.single (.moveHead _ offset))) i
  | nextBit drive => exact c.handled_modifyDrive drive (Drive.Worked.handled (.single (.nextBit _))) i
  | nextByte drive => exact c.handled_modifyDrive drive (Drive.worked_nextByte _).handled i
  | writeBit drive bit => exact c.handled_modifyDrive drive (Drive.Worked.handled (.single (.writeBit _ bit))) i
  | writeByte drive value delta => exact c.handled_modifyDrive drive (Drive.worked_writeByte _ value delta).handled i
  | insertOther fileName bytes =>
    rw [get_insertOther]
  | ejectOther => rw [get_ejectOther]

theorem handled_useAll (i : Fin 2) (c : Controller) (uses : List Use) :
    (c.drives.get i).Handled ((c.useAll i uses).drives.get i) := by
  induction uses generalizing c with
  | nil => exact .refl
  | cons u uses ih => exact (c.handled_use i u).trans (ih (c.use i u))

/-- What a save gives of a drive with a disk, and what it leaves of that drive. -/
theorem save_of_hasDisk {c : Controller} {i : Fin 2} (h : (c.drives.get i).hasDisk) :
    (c.save i.val).1 = some ((c.drives.get i).fileName, updateChecksum (c.drives.get i).image) ∧
      ((c.save i.val).2.drives.get i) =
        { c.drives.get i with image := updateChecksum (c.drives.get i).image, dirty := false } := by
  unfold save
  rw [dif_pos i.isLt]
  dsimp only
  rw [if_pos h, Drives.get_modify_self]
  exact ⟨rfl, rfl⟩

end Controller

/-- **A saved disk is the same disk.** An accepted image, made of a sector image or a WOZ 2 container whose tracks
come behind its records, is put into a drive; then the controller and the drives are used in any way while it
stays there.  It is saved under its name, and what is saved is decoded, without a warning, as a container with
the same tracks and the same write protection, which is the one in the drive but for the checksum before, and
altogether after the save.  Saved once more, it is the same. -/
theorem save_reloads {fileName : String} {bytes : Array UInt8} {image : Image}
    (hdecode : Image.decode fileName bytes = .ok image) (hformat : image.format ≠ .woz1)
    (hseparate : image.format = .woz2 → image.Separate) (c : Controller) (i : Fin 2)
    (uses : List Controller.Use) :
    ∃ inserted, c.insert i.val fileName bytes = .ok (image.warning, inserted) ∧
      let used := inserted.useAll i uses
      let d := used.drives.get i
      ∃ saved, (used.save i.val).1 = some (image.fileName, saved) ∧
        Image.decode image.fileName saved = .ok {
          fileName := image.fileName
          format := .woz2
          bytes := saved
          tracks := image.tracks
          writeProtected := image.writeProtected
          warning := none
          converted := false } ∧
        d.tracks = image.tracks ∧ d.writeProtected = image.writeProtected ∧
        (saved.size = d.image.size ∧
          ∀ n, n < checksumOffset ∨ checkedOffset ≤ n → saved[n]? = d.image[n]?) ∧
        ((used.save i.val).2.drives.get i).image = saved ∧
        ((used.save i.val).2.save i.val).1 = some (image.fileName, saved) := by
  have hseparate : image.Separate := by
    rcases container_cases hdecode hformat with ⟨hf, -⟩ | ⟨order, hf, hbytes⟩
    · exact hseparate hf
    · exact separate_of_converted hdecode hf hbytes
  have hinsert := (c.insert_eq_ok_iff).mpr ⟨i, image, rfl, hdecode, rfl, rfl⟩
  generalize Controller.emit _ _ = inserted at hinsert
  refine ⟨inserted, hinsert, ?_⟩
  intro used d
  have hload : (inserted.drives.get i).Carries image := by
    rw [Controller.get_of_insert hinsert hdecode]
    exact Drive.carries_load _ image
  have hcarries : d.Carries image := hload.handled hseparate (inserted.handled_useAll i uses)
  obtain ⟨hsaved, hleft⟩ := Controller.save_of_hasDisk (hcarries.hasDisk hdecode)
  have hheader := hcarries.header.trans (.updateChecksum d.image)
  have hagain : ((used.save i.val).2.drives.get i).Carries image := by
    rw [hleft]
    exact hcarries.step hseparate (.save d)
  refine ⟨updateChecksum d.image, ?_, hheader.decode hdecode hformat hseparate (checkChecksum_updateChecksum _) _,
    hcarries.tracks, hcarries.writeProtected, ⟨size_updateChecksum _, fun n hn => getElem?_updateChecksum _ hn⟩,
    ?_, ?_⟩
  · rw [hsaved, hcarries.fileName]
  · rw [hleft]
  · rw [(Controller.save_of_hasDisk (hagain.hasDisk hdecode)).1, hleft]
    dsimp only
    rw [updateChecksum_updateChecksum, hcarries.fileName]

/-- The container of a blank sector image in the first drive, saved after a byte was written. -/
theorem save_reloads_blank :
    ∃ image, Image.decode "blank.woz" (woz (Array.replicate 143360 0) .dos) = .ok image ∧ image.format = .woz2 ∧
      image.Separate ∧ ∃ c saved again,
        Controller.empty.insert 0 "blank.woz" (woz (Array.replicate 143360 0) .dos) = .ok (none, c) ∧
        ((c.useAll 0 [.writeByte 0 0xD5 32]).save 0).1 = some ("blank.woz", saved) ∧
        Image.decode "blank.woz" saved = .ok again ∧ again.warning = none ∧ again.tracks = image.tracks := by
  obtain ⟨blank, hblank, hbytes, -, -⟩ :=
    @decode_sectorImage .dos "blank.dsk" (Array.replicate 143360 0) names_blank Array.size_replicate not_hasWozMagic_blank
  have hf : blank.format = SectorOrder.dos.format := format_of_sectorImage names_blank not_hasWozMagic_blank hblank
  have hformat : blank.format ≠ .woz1 := by
    rw [hf]
    decide
  have hseparate : blank.Separate := separate_of_converted hblank hf hbytes
  have hchecksum : Image.checkChecksum blank.bytes = none := by
    rw [hbytes]
    exact checkChecksum_updateChecksum _
  have hdecode := SameHeader.decode hblank hformat hseparate (.refl _) hchecksum "blank.woz"
  obtain ⟨c, hinsert, saved, hsaved, hagain, -⟩ :=
    save_reloads hdecode (by simp) (fun _ => hseparate) .empty 0 [.writeByte 0 0xD5 32]
  rw [← hbytes]
  exact ⟨_, hdecode, rfl, hseparate, c, saved, _, hinsert, hsaved, hagain, rfl, rfl⟩

end AppleII.Disk
