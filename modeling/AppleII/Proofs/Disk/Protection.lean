import AppleII.Proofs.Disk.Recording
import AppleII.Proofs.Disk.Registers
import AppleII.Proofs.Disk.Saved

/-!
# Write protection

A disk tells whether it is write-protected, and the register for read mode passes that on.  Nothing else looks at
it: the data register is written to a protected disk as to any other (`Drive.writeByte_withProtection`), and it is
left to the programs not to ask for it.  Only two registers ever write (`Controller.WritesTo`), so that a protected
disk is safe as long as none of them finds it under a spinning head in write mode (`protected_unless_written`).
-/

namespace AppleII.Disk

namespace Drive

/-- The container, the protection and the mark of unsaved changes are left alone. -/
structure Spared (d d' : Drive) : Prop where
  image : d'.image = d.image
  writeProtected : d'.writeProtected = d.writeProtected
  dirty : d'.dirty = d.dirty

theorem Spared.refl (d : Drive) : d.Spared d := ⟨rfl, rfl, rfl⟩

theorem Spared.trans {d d' d'' : Drive} (h : d.Spared d') (h' : d'.Spared d'') : d.Spared d'' :=
  ⟨h'.image.trans h.image, h'.writeProtected.trans h.writeProtected, h'.dirty.trans h.dirty⟩

theorem Quiet.spared {d d' : Drive} (h : d.Quiet d') : d.Spared d' := by
  obtain ⟨_, _, _, _, _, rfl⟩ := h
  exact ⟨rfl, rfl, rfl⟩

/-! ## The flag -/

theorem Step.writeProtected {d d' : Drive} (h : Step d d') : d'.writeProtected = d.writeProtected := by
  cases h with
  | writeBit bit =>
    obtain ⟨image, location, heq, -⟩ := d.writeBit_cases bit
    rw [heq]
  | nextBit | moveHead | setPhase | setWriteMode | change | home | save => rfl

theorem Handled.writeProtected {d d' : Drive} (h : d.Handled d') : d'.writeProtected = d.writeProtected :=
  h.keeps (P := fun d' => d'.writeProtected = d.writeProtected) (fun hstep hd => hstep.writeProtected.trans hd)
    (fun _ hd => hd) rfl

/-! ## Writing -/

theorem OnTrack.takes {d : Drive} (h : d.OnTrack) {value : UInt8} (hvalue : value ≠ 0) : d.Takes value := by
  have hstart : d.isEmptyAt d.halfTrack = false := by
    simpa [isEmptyAt, track] using h.start
  exact ⟨h.hasDisk, hstart, hvalue⟩

theorem writeBit_withProtection (d : Drive) (bit writeProtected : Bool) :
    Drive.writeBit { d with writeProtected } bit = { d.writeBit bit with writeProtected } := by
  have hcell : (settle { d with writeProtected }).cell? = d.settle.cell? := rfl
  unfold writeBit
  dsimp only
  rw [hcell]
  cases d.settle.cell? with
  | none => rfl
  | some p => rfl

theorem writeBits_withProtection (d : Drive) (bits : List Bool) (writeProtected : Bool) :
    Drive.writeBits { d with writeProtected } bits = { d.writeBits bits with writeProtected } := by
  induction bits generalizing d with
  | nil => rfl
  | cons bit bits ih =>
    show Drive.writeBits (Drive.writeBit { d with writeProtected } bit) bits = _
    rw [writeBit_withProtection, ih]
    rfl

/-- **Protection plays no part in writing.** -/
theorem writeByte_withProtection (d : Drive) (value : UInt8) (delta : Nat) (writeProtected : Bool) :
    Drive.writeByte { d with writeProtected } value delta =
      ((d.writeByte value delta).1, { (d.writeByte value delta).2 with writeProtected }) := by
  by_cases h : d.Takes value
  · obtain ⟨hdisk, htrack, hvalue⟩ := h
    have hdisk' : hasDisk { d with writeProtected } = true := hdisk
    have htrack' : isEmptyAt { d with writeProtected } d.halfTrack = false := htrack
    simp only [writeByte, hdisk, hdisk', htrack, htrack', beq_eq_false_iff_ne.mpr hvalue]
    simp only [Bool.not_true, Bool.or_self, Bool.false_eq_true, if_false, writeBits_withProtection]
  · have h' : ¬Takes { d with writeProtected } value := h
    rw [writeByte_of_not_takes h, writeByte_of_not_takes h']

end Drive

namespace Controller

variable {c : Controller} {i : Fin 2}

/-- The uses that write to the disk of a drive: two registers do, when the data register goes to it, and so does
what is done to the disk without a register. -/
def WritesTo (c : Controller) (i : Fin 2) : Use → Prop
  | .access reg _ _ _ => (reg &&& 0x0F = 0xD ∨ reg &&& 0x0F = 0xE) ∧ c.Writing i
  | .save drive => drive = i.val
  | .writeBit drive _ | .writeByte drive _ _ => drive = i
  | _ => False

/-- None of some uses writes to the disk of a drive when its turn comes. -/
def LeavesAlone (i : Fin 2) : Controller → List Use → Prop
  | _, [] => True
  | c, u :: uses => ¬c.WritesTo i u ∧ LeavesAlone i (c.use i u) uses

/-- A drive that an access does not write to is spared. -/
theorem spared_access {reg : UInt8} {value : Option UInt8} {cycle : Nat} {sw : Switches}
    (h : ¬c.WritesTo i (.access reg value cycle sw)) :
    (c.drives.get i).Spared ((c.access reg value cycle sw).2.drives.get i) := by
  have htouched := c.touched_access reg value cycle sw
  generalize (c.access reg value cycle sw).2 = c' at htouched ⊢
  have hmode (ds : Drives) (on : Bool) := get_modify_of (R := Drive.Spared) Drive.Spared.refl ds c.current
    (f := fun d => { d with writeMode := on }) ⟨rfl, rfl, rfl⟩ i
  -- Where the data register is written, it is not written to this drive.
  have hflush (hreg : reg &&& 0x0F = 0xD ∨ reg &&& 0x0F = 0xE) :
      (c.flushIfWriting cycle).drives.get i = c.drives.get i :=
    (c.get_flushIfWriting cycle i).2 fun hwriting => h ⟨hreg, hwriting⟩
  cases htouched with
  | load hreg hdrives =>
    rw [hdrives, hflush (.inl hreg)]
    exact .refl _
  | readMode hreg hdrives =>
    have hspared := hmode (c.flushIfWriting cycle).drives false
    rwa [hflush (.inr hreg), ← hdrives] at hspared
  | writeMode _ hdrives =>
    rw [hdrives]
    exact hmode c.drives true
  | quiet _ hquiet => exact (hquiet i).spared

/-- Of an access that writes to a drive, the data register is what it writes. -/
theorem spared_access_of_writesTo {reg : UInt8} {value : Option UInt8} {cycle : Nat} {sw : Switches}
    (h : c.WritesTo i (.access reg value cycle sw)) :
    ((c.drives.get i).writeByte c.dataRegister (cycle - c.previousCycle)).2.Spared
      ((c.access reg value cycle sw).2.drives.get i) := by
  obtain ⟨hreg, hwriting⟩ := h
  have htouched := c.touched_access reg value cycle sw
  generalize (c.access reg value cycle sw).2 = c' at htouched ⊢
  rw [← (c.get_flushIfWriting cycle i).1 hwriting]
  cases htouched with
  | load _ hdrives =>
    rw [hdrives]
    exact .refl _
  | readMode _ hdrives =>
    rw [hdrives]
    exact get_modify_of Drive.Spared.refl _ c.current (f := fun d => { d with writeMode := false }) ⟨rfl, rfl, rfl⟩ i
  | writeMode hnot =>
    rw [hnot] at hreg
    exact absurd hreg (by decide)
  | quiet hnot => exact absurd hreg (not_or.mpr ⟨hnot.1, hnot.2.1⟩)

/-! ## Any use -/

/-- What is done to one of the drives does not reach the other one. -/
theorem spared_modifyDrive_of_ne (c : Controller) {j : Fin 2} (h : j ≠ i) (f : Drive → Drive) :
    (c.drives.get i).Spared ((c.modifyDrive j f).drives.get i) := by
  have hget : (c.modifyDrive j f).drives.get i = c.drives.get i := Drives.get_modify_of_ne _ _ h
  rw [hget]
  exact .refl _

/-- **A step.** A drive that a use does not write to is spared. -/
theorem spared_use {u : Use} (h : ¬c.WritesTo i u) :
    (c.drives.get i).Spared ((c.use i u).drives.get i) := by
  cases u with
  | access reg value cycle switches => exact spared_access h
  | update cycle switches => exact (c.quiet_update cycle switches i).spared
  | reset switches => exact (c.quiet_reset switches i).spared
  | resume => exact (c.quiet_resume i).spared
  | takeEvents => exact .refl _
  | save drive =>
    show (c.drives.get i).Spared ((c.save drive).2.drives.get i)
    unfold save
    split
    · next hdrive =>
      dsimp only
      split
      · exact c.spared_modifyDrive_of_ne (j := ⟨drive, hdrive⟩) (fun heq => h (congrArg Fin.val heq)) _
      · exact .refl _
    · exact .refl _
  | motor drive running =>
    exact (c.quiet_modify drive (f := fun d => { d with motorRunning := running }) ⟨_, _, _, _, _, rfl⟩ i).spared
  | moveHead drive offset =>
    exact (c.quiet_modify drive (f := fun d => (d.moveHead offset).2) ⟨_, _, _, _, _, rfl⟩ i).spared
  | nextBit drive => exact (c.quiet_modify drive (f := fun d => d.nextBit.2) (Drive.turned_nextBit _).quiet i).spared
  | nextByte drive =>
    exact (c.quiet_modify drive (f := fun d => d.nextByte.2) (Drive.turned_nextByte _).quiet i).spared
  | writeBit drive bit => exact c.spared_modifyDrive_of_ne h _
  | writeByte drive value delta => exact c.spared_modifyDrive_of_ne h _
  | insertOther fileName bytes =>
    rw [get_insertOther]
    exact .refl _
  | ejectOther =>
    rw [get_ejectOther]
    exact .refl _

/-- **A run.** As long as nothing writes to a drive, it is spared. -/
theorem spared_useAll {uses : List Use} (h : LeavesAlone i c uses) :
    (c.drives.get i).Spared ((c.useAll i uses).drives.get i) := by
  induction uses generalizing c with
  | nil => exact .refl _
  | cons u uses ih =>
    obtain ⟨hfirst, hrest⟩ := h
    exact (spared_use hfirst).trans (ih hrest)

end Controller

/-- **Write protection is only sensed.** A protected disk stays protected whatever is done while it is in its drive.
Its container and the mark of unsaved changes stay as they are as long as no register is written to it, and nothing
is done to it past the registers.  A register that is written to it changes it as it changes a disk without
protection, and marks it. -/
theorem protected_unless_written {c : Controller} {i : Fin 2}
    (hprotected : (c.drives.get i).writeProtected = true) (uses : List Controller.Use) :
    let used := c.useAll i uses
    (used.drives.get i).writeProtected = true ∧
      (Controller.LeavesAlone i c uses →
        (used.drives.get i).image = (c.drives.get i).image ∧ (used.drives.get i).dirty = (c.drives.get i).dirty) ∧
      ∀ (reg : UInt8) (value : Option UInt8) (cycle : Nat) (switches : Switches),
        used.WritesTo i (.access reg value cycle switches) →
          let after := (used.access reg value cycle switches).2.drives.get i
          let unprotected := { used.drives.get i with writeProtected := false }
          after.writeProtected = true ∧ after.dirty = true ∧
            after.image = (unprotected.writeByte used.dataRegister (cycle - used.previousCycle)).2.image := by
  intro used
  have hstays : (used.drives.get i).writeProtected = true :=
    (c.handled_useAll i uses).writeProtected.trans hprotected
  refine ⟨hstays, fun hnone => ?_, fun reg value cycle switches hwrites => ?_⟩
  · obtain ⟨himage, -, hdirty⟩ := Controller.spared_useAll hnone
    exact ⟨himage, hdirty⟩
  · intro after unprotected
    have hspared := Controller.spared_access_of_writesTo hwrites
    have hafter : after.writeProtected = true :=
      (used.handled_access reg value cycle switches i).writeProtected.trans hstays
    have htakes : (used.drives.get i).Takes used.dataRegister := hwrites.2.2.2.2
    refine ⟨hafter, ?_, ?_⟩
    · rw [hspared.dirty, Drive.writeByte_of_takes htakes]
    · have hwritten := Drive.writeByte_withProtection (used.drives.get i) used.dataRegister
        (cycle - used.previousCycle) false
      show after.image = (Drive.writeByte { used.drives.get i with writeProtected := false } _ _).2.image
      rw [hwritten]
      exact hspared.image

/-! ## A protected disk that is written to -/

/-- A WOZ 2 container with the flag of a protected disk.  All half-tracks are on its one track, which has 4096 bits,
none of them set. -/
def lockedDisk : Array UInt8 :=
  (woz2Magic ++ List.replicate 14 0 ++ [1] ++ List.replicate 233 0 ++ [1, 0, 1, 0, 0, 0x10, 0, 0] ++
    List.replicate 760 0).toArray

theorem getElem?_lockedDisk_map (h : Fin halfTracks) : lockedDisk[Image.mapOffset + 2 * h.val]? = some 0 := by
  revert h
  decide +kernel

theorem woz2Track_lockedDisk (header : Image.headerSize ≤ lockedDisk.size) (h : Fin halfTracks) :
    Image.woz2Track lockedDisk header h = .ok { start := 512, bits := 4096 } := by
  have hlength : (woz2Magic ++ List.replicate 14 0 ++ [1] ++ List.replicate 233 0).length = 256 := by
    simp only [List.length_append, List.length_replicate]
    rfl
  have hrecord : HasAt lockedDisk.toList 256 [1, 0, 1, 0, 0, 0x10, 0, 0] := by
    rw [← hlength]
    exact hasAt_append _ _ (List.replicate 760 0)
  have hblock : HasAt lockedDisk.toList 256 (Bytes.ofNat 2 1) := HasAt.left (t := [1, 0, 0, 0x10, 0, 0]) hrecord
  have hbits : HasAt lockedDisk.toList 260 (Bytes.ofNat 4 4096) := HasAt.right (s := [1, 0, 1, 0]) hrecord
  exact SectorImage.woz2Track_of_record header (getElem?_lockedDisk_map h) (by decide) (by decide +kernel) hblock
    hbits (by decide) (by decide) (by decide +kernel)

theorem decode_lockedDisk : ∃ image, Image.decode "locked.woz" lockedDisk = .ok image ∧ image.bytes = lockedDisk ∧
    image.tracks = Vector.replicate halfTracks { start := 512, bits := 4096 } ∧ image.writeProtected = true ∧
    image.warning = none ∧ image.converted = false := by
  have header : Image.headerSize ≤ lockedDisk.size := by decide +kernel
  have htracks : Image.tracksOf lockedDisk header .woz2 =
      .ok (Vector.replicate halfTracks { start := 512, bits := 4096 }) := by
    refine SectorImage.tracksOf_eq_ok_iff.mpr fun h => ?_
    rw [if_neg (by decide), woz2Track_lockedDisk header h]
    simp
  have hmagic : woz2Magic <+: lockedDisk.toList := by
    unfold lockedDisk
    simp only [List.append_assoc]
    exact List.prefix_append _ _
  obtain ⟨writeProtected, hdecode⟩ := decode_eq_ok (detect_woz2 hmagic "locked.woz") rfl header htracks
  obtain ⟨-, -, -, hprotected, -⟩ := decode_cases hdecode
  have hflag : lockedDisk[Image.protectOffset]?.map (fun b => b == 1) = some true := by decide +kernel
  have hzero : HasAt lockedDisk.toList checksumOffset (Bytes.ofNat 4 0) := by
    unfold HasAt
    decide +kernel
  have hchecksum : Image.checkChecksum lockedDisk = none := by
    unfold Image.checkChecksum
    split
    · rfl
    · rw [Bytes.word32_of_hasAt _ (by decide) hzero]
      rfl
  refine ⟨_, hdecode, rfl, rfl, Option.some.inj (hprotected.symm.trans hflag), ?_, rfl⟩
  dsimp only
  rw [if_neg (by decide), hchecksum]

/-- The motor is started, and a value is loaded in write mode. -/
def readyToWrite : List Controller.Use :=
  [.access 0x9 none 0 .reset, .access 0xF (some 0xFF) 0 .reset]

/-- The protected disk in the first drive turns in write mode. -/
theorem ready_lockedDisk : ∃ c, Controller.empty.insert 0 "locked.woz" lockedDisk = .ok (none, c) ∧
    (c.drives.get 0).image = lockedDisk ∧ (c.drives.get 0).writeProtected = true ∧ (c.drives.get 0).dirty = false ∧
    let ready := c.useAll 0 readyToWrite
    ready.Writing 0 ∧ ready.dataRegister = 0xFF ∧ ready.previousCycle = 0 ∧
      let d := ready.drives.get 0
      d = { c.drives.get 0 with motorRunning := true, writeMode := true } ∧ d.OnTrack ∧
        d.track = { start := 512, bits := 4096 } ∧ d.location = 0 := by
  obtain ⟨image, hdecode, hbytes, htracks, hprotected, hwarning, hconverted⟩ := decode_lockedDisk
  have hinsert := Controller.insert_eq_ok_iff (c := .empty).mpr ⟨0, image, rfl, hdecode, hwarning, rfl⟩
  have hsize : image.bytes.size = 1024 := by
    rw [hbytes]
    decide +kernel
  have htrack : Drive.track { Drive.empty.load image with motorRunning := true, writeMode := true } =
      { start := 512, bits := 4096 } := by
    simp [Drive.track, Drive.trackAt, Drive.load, htracks]
  have hon : Drive.OnTrack { Drive.empty.load image with motorRunning := true, writeMode := true } := by
    refine ⟨?_, ?_, ?_⟩
    · rw [htrack]
      decide
    · rw [htrack]
      decide
    · rw [htrack]
      exact Nat.le_trans (by decide) hsize.ge
  have htakes : Drive.Takes _ 0xFF := hon.takes (by decide)
  exact ⟨_, hinsert, hbytes, hprotected, hconverted, ⟨rfl, rfl, rfl, htakes⟩, rfl, rfl, rfl, hon, htrack, rfl⟩

/-- The protected disk is safe until the data register is written to it. -/
theorem protected_unless_written_lockedDisk :
    ∃ c, Controller.empty.insert 0 "locked.woz" lockedDisk = .ok (none, c) ∧
      (c.drives.get 0).writeProtected = true ∧
      let ready := c.useAll 0 readyToWrite
      Controller.LeavesAlone 0 c readyToWrite ∧ (ready.drives.get 0).image = (c.drives.get 0).image ∧
        ready.WritesTo 0 (.access 0xD none 40 .reset) ∧
        let written := (ready.access 0xD none 40 .reset).2
        (written.drives.get 0).writeProtected = true ∧ (written.drives.get 0).dirty = true := by
  obtain ⟨c, hinsert, -, hprotected, -, hwriting, -⟩ := ready_lockedDisk
  obtain ⟨-, hspared, hwritten⟩ := protected_unless_written hprotected readyToWrite
  -- The motor and the register for write mode write nothing.
  have halone : Controller.LeavesAlone 0 c readyToWrite :=
    ⟨fun h => absurd h.1 (by decide), fun h => absurd h.1 (by decide), trivial⟩
  have hwrites : (c.useAll 0 readyToWrite).WritesTo 0 (.access 0xD none 40 .reset) := ⟨.inl rfl, hwriting⟩
  obtain ⟨hstill, hmarked, -⟩ := hwritten _ _ _ _ hwrites
  exact ⟨c, hinsert, hprotected, halone, (hspared halone).1, hwrites, hstill, hmarked⟩

/-- A disk that tells that it is protected is written to all the same, and counts as changed. -/
theorem lockedDisk_written :
    ∃ c, Controller.empty.insert 0 "locked.woz" lockedDisk = .ok (none, c) ∧
      (c.drives.get 0).writeProtected = true ∧ (c.drives.get 0).dirty = false ∧
      let used := c.useAll 0 (readyToWrite ++ [.access 0xD none 40 .reset])
      (used.drives.get 0).image ≠ (c.drives.get 0).image ∧ (used.drives.get 0).dirty = true := by
  obtain ⟨c, hinsert, hbytes, hprotected, hdirty, hwriting, hregister, hcycle, -, hon, htrack, hlocation⟩ :=
    ready_lockedDisk
  have hwrites : (c.useAll 0 readyToWrite).WritesTo 0 (.access 0xD none 40 .reset) := ⟨.inl rfl, hwriting⟩
  have hspared := Controller.spared_access_of_writesTo hwrites
  rw [hregister, hcycle, Drive.writeByte_of_takes (hon.takes (by decide))] at hspared
  refine ⟨c, hinsert, hprotected, hdirty, ?_, hspared.dirty⟩
  -- The first bit of the track is 1 afterwards, as the value has it.
  have hfit : (Drive.bitsWritten 0xFF 40).length ≤ ((c.useAll 0 readyToWrite).drives.get 0).track.bits := by
    rw [htrack]
    decide
  obtain ⟨image, location, heq, -, hhit, -⟩ := hon.writeBits hfit
  have hfirst := hhit 0 (by decide)
  rw [heq] at hspared
  have hahead : ((c.useAll 0 readyToWrite).drives.get 0).ahead 0 = 4096 := by
    unfold Drive.ahead
    rw [htrack, hlocation]
    rfl
  have hzero : imageBit? lockedDisk 4096 = some false := by decide +kernel
  rw [hahead] at hfirst
  intro hsame
  rw [hbytes] at hsame
  have himage : image = lockedDisk := hspared.image.symm.trans hsame
  rw [himage, hzero] at hfirst
  exact absurd hfirst (by decide)

end AppleII.Disk
