import AppleII.Proofs.Disk.Decoding
import AppleII.Proofs.Disk.Handling
import AppleII.Proofs.Disk.Recording
import AppleII.Proofs.Disk.SectorImage
import AppleII.Proofs.Machine.Session
import AppleII.Proofs.SaveState.Malformed

/-!
# Disks whose tracks lie in their containers

The tracks of an accepted disk lie in its container (`stop_le_of_decode`), and no access, no time and no save
takes them out of it: throughout a session every bit that a head meets is one of the container, and the machine
can be restored from its save state (`tracks_inside`).  The exception are WOZ 1 containers with a record that
counts more bits than it holds (`longTrack_outside`).
-/

namespace AppleII

open Disk

/-! ## Intact drives -/

namespace Disk.Drive

/-- A drive is intact as long as its head, its tracks and the size of its container are. -/
theorem Intact.congr {d d' : Drive} (h : d.Intact) (hhead : d'.halfTrack = d.halfTrack)
    (hprevious : d'.previousHalfTrack = d.previousHalfTrack) (htracks : d'.tracks = d.tracks)
    (hsize : d'.image.size = d.image.size) : d'.Intact := by
  refine ⟨hhead ▸ h.halfTrack, hprevious ▸ h.previous, fun half hstart => ?_⟩
  have hat : d'.trackAt half = d.trackAt half := by
    unfold trackAt
    rw [htracks]
  rw [hat] at hstart ⊢
  rw [hsize]
  exact h.inside half hstart

theorem Intact.step {d d' : Drive} (hstep : Step d d') (h : d.Intact) : d'.Intact := by
  cases hstep with
  | nextBit | setPhase | setWriteMode | change => exact h.congr rfl rfl rfl rfl
  | writeBit bit =>
    obtain ⟨image, location, heq, hsize, -⟩ := d.writeBit_cases bit
    rw [heq]
    exact h.congr rfl rfl rfl hsize
  | moveHead offset =>
    refine ⟨Nat.min_le_right _ _, ?_, h.inside⟩
    show (if d.isEmptyAt d.halfTrack then d.previousHalfTrack else d.halfTrack).val ≤ lastHalfTrack
    split
    · exact h.previous
    · exact h.halfTrack
  | home => exact ⟨Nat.le_refl _, Nat.le_refl _, h.inside⟩
  | save => exact h.congr rfl rfl rfl (size_updateChecksum d.image)

theorem Intact.handled {d d' : Drive} (h : d.Intact) (hhandled : d.Handled d') : d'.Intact :=
  hhandled.keeps (fun hstep hd => hd.step hstep) (fun _ hd => hd.congr rfl rfl rfl rfl) h

theorem Intact.load {d : Drive} (h : d.Intact) {image : Image} (hinside : image.Inside) : (d.load image).Intact :=
  ⟨h.halfTrack, h.previous, hinside⟩

theorem Intact.clear {d : Drive} (h : d.Intact) : d.clear.Intact := by
  refine ⟨h.halfTrack, h.previous, fun half hstart => absurd ?_ hstart⟩
  simp [trackAt, Drive.clear]

/-- The head of an intact drive, wherever it stands on a track, meets bits of the container. -/
theorem Intact.onTrack {d : Drive} (h : d.Intact) {half : Fin halfTracks} {location : Nat}
    (hstart : (d.trackAt half).start ≠ 0) (hbits : (d.trackAt half).bits ≠ 0) :
    OnTrack { d with halfTrack := half, location } :=
  ⟨hstart, hbits, h.inside half hstart⟩

/-- The next bit of a drive on a track is one of its container. -/
theorem OnTrack.imageBit?_nextBit {d : Drive} (h : d.OnTrack) :
    imageBit? d.image (d.ahead 0) = some d.nextBit.1 := by
  have hbyte := Array.getElem?_eq_getElem (h.ahead_inside 0)
  obtain ⟨bit, hbit⟩ : ∃ bit, imageBit? d.image (d.ahead 0) = some bit := by
    unfold imageBit?
    exact ⟨_, by rw [hbyte, Option.map_some]⟩
  rw [h.nextBit_eq hbit, hbit]

end Disk.Drive

/-! ## Sessions -/

/-- If a file is accepted as a WOZ 1 container, its tracks lie inside. -/
def Disk.Image.Whole (fileName : String) (bytes : Array UInt8) : Prop :=
  ∀ image, Image.decode fileName bytes = .ok image → image.format = .woz1 → image.Inside

theorem Disk.Image.Whole.inside {fileName : String} {bytes : Array UInt8} {image : Image}
    (h : Image.Whole fileName bytes) (hdecode : Image.decode fileName bytes = .ok image) : image.Inside := by
  by_cases hformat : image.format = .woz1
  · exact h image hdecode hformat
  · intro half hstart
    rcases stop_le_of_decode hdecode half hstart with hinside | ⟨hwoz1, -⟩
    · exact hinside
    · exact absurd hwoz1 hformat

namespace Board

/-- Both drives are intact. -/
def Intact (b : Board) : Prop := ∀ i, (b.disk.drives.get i).Intact

theorem Intact.handled {b : Board} (h : b.Intact) {disk : Controller} (hhandled : b.disk.Handled disk)
    (memory : Memory) (clock : Nat) : Intact { b with memory, disk, clock } :=
  fun i => (h i).handled (hhandled i)

/-- A drive whose disk is changed stays intact when the new one is. -/
theorem Intact.modify {b : Board} (h : b.Intact) (i : Fin 2) {f : Drive → Drive}
    (hf : ∀ {d : Drive}, d.Intact → (f d).Intact) (e : DriveEvent) :
    Intact { b with disk := { b.disk with drives := b.disk.drives.modify i f }.emit e } :=
  fun j => Controller.get_modify_of (R := fun d d' => d.Intact → d'.Intact) (fun _ hd => hd) b.disk.drives i hf j (h j)

theorem Intact.access {b : Board} (h : b.Intact) (address : UInt16) (value : Option UInt8) :
    (b.accessIoPage address value).2.Intact := by
  unfold accessIoPage
  dsimp only
  split
  · exact h.handled (b.disk.handled_access _ _ _ _) _ b.clock
  · exact h.handled (.refl b.disk) _ b.clock

theorem invariant_intact : Invariant Image.Whole Intact Intact where
  congr := by
    intro b b' hsame hb i
    rw [hsame.drives]
    exact hb i
  access := fun address value hb => hb.access address value
  advance := fun cycles hb => hb.handled (Controller.handled_update _ _ _) _ _
  insert := by
    intro b drive fileName bytes w disk hwhole hinsert hb
    obtain ⟨i, image, -, hdecode, -, rfl⟩ := Controller.insert_eq_ok_iff.mp hinsert
    exact hb.modify i (f := fun u => u.load image) (fun hd => hd.load (hwhole.inside hdecode)) _
  eject := by
    intro b drive disk heject hb
    rcases Controller.eject_cases heject with rfl | ⟨i, -, rfl⟩
    · exact hb
    · exact hb.modify i (f := Drive.clear) (fun hd => hd.clear) _
  save := fun drive hb => hb.handled (Controller.worked_save _ drive).handled _ _
  interrupt := fun memory clock hb => hb.handled (.refl _) memory clock
  keeps := keeps_bus (fun address value hb => hb.access address value)
    fun address value hb => hb.handled (.refl _) _ _
  reset := fun hb => hb.handled (Controller.handled_reset _ _) _ _

end Board

/-- **Tracks lie in their containers.** Every track of an accepted disk lies in its container, unless it is one
of a WOZ 1 container that counts more bits than its record holds.  Throughout a session in which no disk is put
in whose tracks lie outside, every bit that a head meets on a track, wherever it stands, lies in the container;
it is the bit that is read next, and a bit that is written takes its place.  The state that is captured of a
drive stands for that drive, and any machine is restored from what the machine saves. -/
theorem tracks_inside (model : Processor.Model) (actions : List Session.Action)
    (hwhole : ∀ a ∈ actions, a.Fits Image.Whole) :
    let m := (Session.run model actions).machine
    (∀ (fileName : String) (bytes : Array UInt8) (image : Image), Image.decode fileName bytes = .ok image →
      ∀ h : Fin halfTracks, (image.trackAt h).start ≠ 0 → (image.trackAt h).stop ≤ image.bytes.size ∨
        image.format = .woz1 ∧ 8 * Image.woz1TrackSize < (image.trackAt h).bits) ∧
      (∀ (i : Fin 2) (halfTrack : Fin halfTracks) (location : Nat),
        let d := { m.disk.drives.get i with halfTrack, location }
        d.track.start ≠ 0 → d.track.bits ≠ 0 →
          d.ahead 0 / 8 < d.image.size ∧ imageBit? d.image (d.ahead 0) = some d.nextBit.1 ∧
            ∀ bit, (d.writeBit bit).image = setBit d.image (d.ahead 0) bit) ∧
      (∀ i : Fin 2, (DriveState.capture (m.disk.drives.get i)).decode i = .ok (m.disk.drives.get i)) ∧
      ∀ m₂ : Machine, ∃ m₃, m₂.restoreState m.saveState = .ok m₃ := by
  intro m
  have hintact : m.board.Intact :=
    Session.invariant Board.invariant_intact (Machine.restorable_ofModel model) hwhole
  refine ⟨fun fileName bytes image hdecode => stop_le_of_decode hdecode, fun i halfTrack location => ?_,
    fun i => DriveState.decode_capture (hintact i) i, fun m₂ => Machine.exists_restoreState hintact m₂⟩
  intro d hstart hbits
  have hon : d.OnTrack := (hintact i).onTrack hstart hbits
  exact ⟨hon.ahead_inside 0, hon.imageBit?_nextBit, fun bit => by rw [hon.writeBit_eq]⟩

/-- A blank sector image is put into a machine, which can be restored afterwards. -/
theorem tracks_inside_blank :
    let bytes : Array UInt8 := Array.replicate 143360 0
    let actions := [Session.Action.operate (.insert 0 "blank.dsk" bytes)]
    (∃ image, Image.decode "blank.dsk" bytes = .ok image ∧
      ∀ h : Fin halfTracks, (image.trackAt h).start ≠ 0 → (image.trackAt h).stop ≤ image.bytes.size ∨
        image.format = .woz1 ∧ 8 * Image.woz1TrackSize < (image.trackAt h).bits) ∧
      (∀ a ∈ actions, a.Fits Image.Whole) ∧
      ∃ m₃, (Machine.ofModel .nmos).restoreState (Session.run .cmos actions).machine.saveState = .ok m₃ := by
  intro bytes actions
  obtain ⟨image, hdecode, -⟩ :=
    @decode_sectorImage .dos "blank.dsk" bytes names_blank Array.size_replicate not_hasWozMagic_blank
  have hwhole : Image.Whole "blank.dsk" bytes := by
    intro image hdecode hwoz1
    rw [format_of_sectorImage names_blank not_hasWozMagic_blank hdecode] at hwoz1
    cases hwoz1
  have hfits : ∀ a ∈ actions, a.Fits Image.Whole := List.forall_mem_singleton.mpr hwhole
  obtain ⟨hdecoded, -, -, hrestore⟩ := tracks_inside .cmos actions hfits
  exact ⟨⟨image, hdecode, hdecoded _ _ image hdecode⟩, hfits, hrestore _⟩

/-! ## A track that lies outside -/

/-- A WOZ 1 container with one record.  All half-tracks are on it, and it counts 65535 bits. -/
def longTrack : Array UInt8 := (woz1Magic ++ List.replicate 6896 0 ++ List.replicate 8 0xFF).toArray

theorem size_longTrack : longTrack.size = 6912 := by
  rw [longTrack, List.size_toArray, List.length_append, List.length_append, List.length_replicate,
    List.length_replicate]
  rfl

theorem woz1Track_longTrack (header : Image.headerSize ≤ longTrack.size) (h : Fin halfTracks) :
    Image.woz1Track longTrack header h = .ok { start := 256, bits := 65535 } := by
  have hentry : longTrack[Image.mapOffset + 2 * h.val]? = some 0 := by
    have hh : h.val < 80 := h.isLt
    unfold longTrack
    rw [List.getElem?_toArray, List.append_assoc, List.getElem?_append_right, List.getElem?_append_left,
      List.getElem?_replicate, if_pos]
    all_goals
      simp only [Image.mapOffset, woz1Magic, List.length_replicate, List.length_cons, List.length_nil]
      omega
  -- The count of bits, after the bits of the record, is all ones.
  have hbits : HasAt longTrack.toList 6904 (List.replicate 8 0xFF) := by
    have hlast := hasAt_append (woz1Magic ++ List.replicate 6896 0) (List.replicate 8 (0xFF : UInt8)) []
    rw [List.append_nil, List.length_append, List.length_replicate] at hlast
    exact hlast
  exact woz1Track_of_record hentry (by decide) (by rw [size_longTrack]; decide)
    (HasAt.left (t := List.replicate 6 0xFF) hbits) (by decide)

theorem decode_longTrack : ∃ image, Image.decode "old.woz" longTrack = .ok image ∧ image.bytes = longTrack ∧
    image.tracks = Vector.replicate halfTracks { start := 256, bits := 65535 } ∧ image.warning = none := by
  have header : Image.headerSize ≤ longTrack.size := by
    rw [size_longTrack]
    decide
  have htracks : Image.tracksOf longTrack header .woz1 =
      .ok (Vector.replicate halfTracks { start := 256, bits := 65535 }) := by
    refine SectorImage.tracksOf_eq_ok_iff.mpr fun h => ?_
    rw [if_pos rfl, woz1Track_longTrack header h]
    simp
  have hmagic : woz1Magic <+: longTrack.toList := by
    unfold longTrack
    rw [List.append_assoc]
    exact List.prefix_append _ _
  obtain ⟨writeProtected, hdecode⟩ := decode_eq_ok (detect_woz1 hmagic "old.woz") rfl header htracks
  exact ⟨_, hdecode, rfl, rfl, rfl⟩

/-- A WOZ 1 container is accepted although its track goes on behind its last byte; then what is captured of the
drive stands for no drive. -/
theorem longTrack_outside :
    ∃ image c, Image.decode "old.woz" longTrack = .ok image ∧ image.tracks[0].start ≠ 0 ∧
      image.bytes.size < image.tracks[0].stop ∧ Controller.empty.insert 0 "old.woz" longTrack = .ok (none, c) ∧
      ∀ d, (DriveState.capture (c.drives.get 0)).decode 0 ≠ .ok d := by
  obtain ⟨image, hdecode, hbytes, htracks, hwarning⟩ := decode_longTrack
  have hinsert := Controller.insert_eq_ok_iff (c := .empty).mpr ⟨0, image, rfl, hdecode, hwarning, rfl⟩
  have hstop : image.bytes.size < 256 + (65535 + 7) / 8 := by
    rw [hbytes, size_longTrack]
    decide
  have hdata : Base64.encode image.bytes =
      (DriveState.capture ((Controller.empty.drives.get 0).load image)).data := rfl
  refine ⟨image, _, hdecode, by simp [htracks], ?_, hinsert, fun d hd => ?_⟩
  · simpa [htracks, Track.stop, bytesFor] using hstop
  · -- The captured state is refused because of the track of the first half-track.
    rw [Controller.get_of_insert (i := 0) hinsert hdecode] at hd
    refine DriveState.exists_decode_iff.mp ⟨d, hd⟩ (.track (h := 0) hdata ?_ ?_ (by decide) hstop)
    · simp [DriveState.capture, Drive.load, htracks]
    · simp [DriveState.capture, Drive.load, htracks]

end AppleII
