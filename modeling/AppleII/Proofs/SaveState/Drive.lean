import AppleII.Proofs.Base64
import AppleII.SaveState.Capture

/-!
# Drives in a save state

`DriveState.decode_eq_ok_iff` says exactly which states stand for a drive, and for which one.  What is
captured of a drive determines it, and the other way round.
-/

namespace AppleII

open Disk

theorem SaveState.decodeBytes_eq_ok_iff {text : String} {b : Array UInt8} :
    SaveState.decodeBytes text = .ok b ↔ Base64.decode text = .ok b := by
  cases h : Base64.decode text <;> simp [SaveState.decodeBytes, h, Except.mapError]

namespace DriveState

/-- The state of a drive fits a container: the tables are full, the head and the stepper are in range,
and every track lies in the container. -/
structure Consistent (s : DriveState) (image : Array UInt8) : Prop where
  starts : s.trackStarts.length = halfTracks
  lengths : s.trackBits.length = halfTracks
  halfTrack : s.halfTrack ≤ lastHalfTrack
  previous : s.previousHalfTrack ≤ lastHalfTrack
  phase : s.phase ≤ 3
  inside : ∀ h, ((s.drive image).trackAt h).start ≠ 0 → ((s.drive image).trackAt h).stop ≤ image.size

theorem trackOutside?_eq_none_iff {s : DriveState} {image : Array UInt8} :
    trackOutside? image (tracks s.trackStarts s.trackBits) = none ↔
      ∀ h, ((s.drive image).trackAt h).start ≠ 0 → ((s.drive image).trackAt h).stop ≤ image.size := by
  simp [trackOutside?, Drive.trackAt, drive]

theorem decode_eq_ok_iff {s : DriveState} {i : Nat} {d : Drive} :
    s.decode i = .ok d ↔
      ∃ image, Base64.decode s.data = .ok image ∧ s.Consistent image ∧ s.drive image = d := by
  simp only [decode, bind_eq_ok_iff, SaveState.decodeBytes_eq_ok_iff, SaveState.ensure_eq_ok_iff]
  refine exists_congr fun image => and_congr_right fun _ => ?_
  constructor
  · rintro ⟨-, starts, -, lengths, -, ⟨halfTrack, previous⟩, -, phase, h⟩
    split at h
    · cases h
    · next outside =>
      cases h
      exact ⟨⟨starts, lengths, halfTrack, previous, phase, trackOutside?_eq_none_iff.mp outside⟩, rfl⟩
  · rintro ⟨c, rfl⟩
    refine ⟨(), c.starts, (), c.lengths, (), ⟨c.halfTrack, c.previous⟩, (), c.phase, ?_⟩
    rw [trackOutside?_eq_none_iff.mpr c.inside]

/-! ## Capturing a drive -/

theorem map_tracks {starts bits : List Nat} (hs : starts.length = halfTracks)
    (hb : bits.length = halfTracks) :
    (tracks starts bits).toList.map Track.start = starts ∧
      (tracks starts bits).toList.map Track.bits = bits := by
  constructor
  · refine List.ext_getElem (by simp [hs]) fun i _ hi => ?_
    simp [tracks, hi]
  · refine List.ext_getElem (by simp [hb]) fun i _ hi => ?_
    simp [tracks, hi]

theorem tracks_map (v : Vector Track halfTracks) :
    tracks (v.toList.map Track.start) (v.toList.map Track.bits) = v := by
  ext i hi
  simp [tracks]

theorem clampHalfTrack_val {n : Nat} (h : n ≤ lastHalfTrack) : (clampHalfTrack n).val = n :=
  Nat.min_eq_left h

/-- A state that fits its container is what is captured of its drive. -/
theorem capture_drive {s : DriveState} {image : Array UInt8} (hdata : Base64.encode image = s.data)
    (c : s.Consistent image) : capture (s.drive image) = s := by
  obtain ⟨hstarts, hlengths⟩ := map_tracks c.starts c.lengths
  have hphase : (Phase.ofNat s.phase).val = s.phase := Nat.mod_eq_of_lt (Nat.lt_succ_of_le c.phase)
  simp only [capture, drive, hstarts, hlengths, hphase, hdata, clampHalfTrack_val c.halfTrack,
    clampHalfTrack_val c.previous]

/-- What is captured of a drive determines it. -/
theorem capture_injective {d d' : Drive} (h : capture d = capture d') : d = d' := by
  simp only [capture, DriveState.mk.injEq] at h
  obtain ⟨hname, hformat, hmotor, hwrite, hprotected, hhalf, hprevious, hphase, hstarts, hbits, hlocation,
    hdirty, hdata⟩ := h
  have htracks : d.tracks = d'.tracks := by
    rw [← tracks_map d.tracks, hstarts, hbits, tracks_map]
  have himage : d.image = d'.image := Base64.encode_injective hdata
  cases d
  cases d'
  simp_all [Fin.ext_iff]

end DriveState

/-- The head of a drive is in range, and every track lies in its container. -/
structure Disk.Drive.Intact (d : Drive) : Prop where
  halfTrack : d.halfTrack.val ≤ lastHalfTrack
  previous : d.previousHalfTrack.val ≤ lastHalfTrack
  inside : ∀ h, (d.trackAt h).start ≠ 0 → (d.trackAt h).stop ≤ d.image.size

namespace DriveState

theorem drive_capture {d : Drive} (hd : d.Intact) : (capture d).drive d.image = d := by
  have hphase : Phase.ofNat d.phase.val = d.phase := Fin.ext (Nat.mod_eq_of_lt d.phase.isLt)
  have hhalf : clampHalfTrack d.halfTrack.val = d.halfTrack := Fin.ext (clampHalfTrack_val hd.halfTrack)
  have hprevious : clampHalfTrack d.previousHalfTrack.val = d.previousHalfTrack :=
    Fin.ext (clampHalfTrack_val hd.previous)
  simp only [drive, capture, tracks_map, hphase, hhalf, hprevious]

theorem consistent_capture {d : Drive} (hd : d.Intact) : (capture d).Consistent d.image where
  starts := by simp [capture]
  lengths := by simp [capture]
  halfTrack := hd.halfTrack
  previous := hd.previous
  phase := Nat.le_of_lt_succ d.phase.isLt
  inside := by
    rw [drive_capture hd]
    exact hd.inside

/-- The state of an intact drive stands for that drive. -/
theorem decode_capture {d : Drive} (hd : d.Intact) (i : Nat) : (capture d).decode i = .ok d :=
  decode_eq_ok_iff.mpr ⟨d.image, Base64.decode_encode d.image, consistent_capture hd, drive_capture hd⟩

/-- Only intact drives have a state that stands for them. -/
theorem intact_of_decode {s : DriveState} {i : Nat} {d : Drive} (h : s.decode i = .ok d) : d.Intact := by
  obtain ⟨image, -, c, rfl⟩ := decode_eq_ok_iff.mp h
  exact ⟨Nat.min_le_right _ _, Nat.min_le_right _ _, c.inside⟩

/-- A state that stands for a drive is what is captured of it. -/
theorem capture_of_decode {s : DriveState} {i : Nat} {d : Drive} (h : s.decode i = .ok d) :
    capture d = s := by
  obtain ⟨image, hdata, c, rfl⟩ := decode_eq_ok_iff.mp h
  exact capture_drive (Base64.encode_of_decode_eq_ok hdata) c

end DriveState

end AppleII
