import AppleII.Proofs.SaveState.RoundTrip

/-!
# Which save states are refused

A save state is accepted unless it is `SaveState.Malformed`, whatever machine it is put into
(`Machine.exists_restoreState_iff`).  Others are refused, as long as the ends of the tracks are numbers of 64 bits
(`SaveState.FitsWords`, `Machine.restoreState_ne_overflow`).
-/

namespace AppleII

/-- What makes the state of a drive stand for no drive. -/
inductive DriveState.Malformed (s : DriveState) : Prop
  | data (h : ∀ image, Base64.encode image ≠ s.data)
  | startTable (h : s.trackStarts.length ≠ 80)
  | lengthTable (h : s.trackBits.length ≠ 80)
  | halfTrack (h : 68 < s.halfTrack)
  | previousHalfTrack (h : 68 < s.previousHalfTrack)
  | phase (h : 3 < s.phase)
  | track {image : Array UInt8} {h start bits : Nat} (hdata : Base64.encode image = s.data)
    (hstart : s.trackStarts[h]? = some start) (hbits : s.trackBits[h]? = some bits)
    (used : start ≠ 0) (outside : image.size < start + (bits + 7) / 8)

/-- What makes a save state fit no machine. -/
inductive SaveState.Malformed (s : SaveState) : Prop
  | version (h : s.version ≠ 1)
  | memory (h : ∀ image, image.size = 163840 → Base64.encode image ≠ s.memory)
  | selection (h : 2 ≤ s.disk.current)
  | first (h : s.disk.first.Malformed)
  | second (h : s.disk.second.Malformed)

/-- The ends of the tracks are numbers of 64 bits. -/
def DriveState.FitsWords (s : DriveState) : Prop :=
  ∀ {h start bits : Nat}, s.trackStarts[h]? = some start → s.trackBits[h]? = some bits → start ≠ 0 →
    start + (bits + 7) / 8 < Count.size

/-- The ends of the tracks of both drives are numbers of 64 bits. -/
def SaveState.FitsWords (s : SaveState) : Prop := s.disk.first.FitsWords ∧ s.disk.second.FitsWords

namespace SaveState

theorem ensure_ne_overflow {p : Prop} [Decidable p] {e : StateError} (he : e ≠ .overflow) :
    ensure p e ≠ .error .overflow := by
  unfold ensure
  split
  · nofun
  · exact fun h => he (Except.error.inj h)

theorem decodeBytes_ne_overflow (text : String) : decodeBytes text ≠ .error .overflow := by
  unfold decodeBytes
  cases Base64.decode text <;> nofun

end SaveState

namespace DriveState

/-- The track that two full tables give a half-track. -/
theorem trackAt_drive {s : DriveState} {h start bits : Nat} (hstart : s.trackStarts[h]? = some start)
    (hbits : s.trackBits[h]? = some bits) (hh : h < Disk.halfTracks) (image : Array UInt8) :
    (s.drive image).trackAt ⟨h, hh⟩ = { start, bits } := by
  simp [Disk.Drive.trackAt, drive, tracks, hstart, hbits]

/-- Two full tables have an entry each for every half-track. -/
theorem exists_trackAt_drive {s : DriveState} (hstarts : s.trackStarts.length = Disk.halfTracks)
    (hlengths : s.trackBits.length = Disk.halfTracks) (h : Fin Disk.halfTracks) (image : Array UInt8) :
    ∃ start bits, s.trackStarts[h.val]? = some start ∧ s.trackBits[h.val]? = some bits ∧
      (s.drive image).trackAt h = { start, bits } := by
  have hstart := List.getElem?_eq_getElem (h.isLt.trans_eq hstarts.symm)
  have hbits := List.getElem?_eq_getElem (h.isLt.trans_eq hlengths.symm)
  exact ⟨_, _, hstart, hbits, trackAt_drive hstart hbits h.isLt image⟩

theorem consistent_of_not_malformed {s : DriveState} {image : Array UInt8}
    (hdata : Base64.encode image = s.data) (hgood : ¬ s.Malformed) : s.Consistent image := by
  have hstarts : s.trackStarts.length = 80 := by
    by_contra h
    exact hgood (.startTable h)
  have hlengths : s.trackBits.length = 80 := by
    by_contra h
    exact hgood (.lengthTable h)
  refine ⟨hstarts, hlengths, ?_, ?_, ?_, fun h used => ?_⟩
  · by_contra h
    exact hgood (.halfTrack (Nat.not_le.mp h))
  · by_contra h
    exact hgood (.previousHalfTrack (Nat.not_le.mp h))
  · by_contra h
    exact hgood (.phase (Nat.not_le.mp h))
  · obtain ⟨start, bits, hstart, hbits, htrack⟩ := exists_trackAt_drive hstarts hlengths h image
    rw [htrack] at used ⊢
    by_contra outside
    exact hgood (.track hdata hstart hbits used (Nat.not_le.mp outside))

theorem exists_decode_iff {s : DriveState} {i : Nat} : (∃ d, s.decode i = .ok d) ↔ ¬ s.Malformed := by
  constructor
  · rintro ⟨d, hd⟩ hbad
    obtain ⟨image, hdata, c, -⟩ := decode_eq_ok_iff.mp hd
    rw [Base64.decode_eq_ok_iff] at hdata
    cases hbad with
    | data h => exact h image hdata
    | startTable h => exact h c.starts
    | lengthTable h => exact h c.lengths
    | halfTrack h => exact absurd c.halfTrack (Nat.not_le.mpr h)
    | previousHalfTrack h => exact absurd c.previous (Nat.not_le.mpr h)
    | phase h => exact absurd c.phase (Nat.not_le.mpr h)
    | @track image' h start bits hdata' hstart hbits used outside =>
      obtain rfl := Base64.encode_injective (hdata'.trans hdata.symm)
      obtain ⟨hlt, -⟩ := List.getElem?_eq_some_iff.mp hstart
      have hinside := c.inside ⟨h, c.starts ▸ hlt⟩
      rw [trackAt_drive hstart hbits] at hinside
      exact absurd (hinside used) (Nat.not_le.mpr outside)
  · intro hgood
    by_cases hdata : ∃ image, Base64.encode image = s.data
    · obtain ⟨image, hdata⟩ := hdata
      exact ⟨_, decode_eq_ok_iff.mpr ⟨image, Base64.decode_eq_ok_iff.mpr hdata,
        consistent_of_not_malformed hdata hgood, rfl⟩⟩
    · exact absurd (.data fun image h => hdata ⟨image, h⟩) hgood

theorem stop_lt_of_fitsWords {s : DriveState} (hfits : s.FitsWords) (hstarts : s.trackStarts.length = Disk.halfTracks)
    (hlengths : s.trackBits.length = Disk.halfTracks) {image : Array UInt8} {h : Fin Disk.halfTracks}
    (used : ((s.drive image).trackAt h).start ≠ 0) : ((s.drive image).trackAt h).stop < Count.size := by
  obtain ⟨start, bits, hstart, hbits, htrack⟩ := exists_trackAt_drive hstarts hlengths h image
  rw [htrack] at used ⊢
  exact hfits hstart hbits used

theorem used_of_trackOutside? {s : DriveState} {image : Array UInt8} {h : Fin Disk.halfTracks}
    (houtside : trackOutside? image (tracks s.trackStarts s.trackBits) = some h) :
    ((s.drive image).trackAt h).start ≠ 0 := by
  have hfound := List.find?_some houtside
  simp only [Bool.and_eq_true, bne_iff_ne] at hfound
  exact hfound.1

/-- A track that lies outside is refused when its end is known. -/
theorem decode_ne_overflow {s : DriveState} (hfits : s.FitsWords) (i : Nat) : s.decode i ≠ .error .overflow := by
  unfold decode
  refine bind_ne_error (SaveState.decodeBytes_ne_overflow _) fun image _ => ?_
  refine bind_ne_error (SaveState.ensure_ne_overflow nofun) fun _ hstarts => ?_
  refine bind_ne_error (SaveState.ensure_ne_overflow nofun) fun _ hlengths => ?_
  refine bind_ne_error (SaveState.ensure_ne_overflow nofun) fun _ _ => ?_
  refine bind_ne_error (SaveState.ensure_ne_overflow nofun) fun _ _ => ?_
  rw [SaveState.ensure_eq_ok_iff] at hstarts hlengths
  split
  · next h houtside =>
    have hstop := stop_lt_of_fitsWords hfits hstarts hlengths (used_of_trackOutside? houtside)
    have hrefused : outsideError i h ((s.drive image).trackAt h) = .drive i (.trackOutside h.val) := if_pos hstop
    exact fun herror => nomatch hrefused.symm.trans (Except.error.inj herror)
  · nofun

end DriveState

namespace Machine

theorem exists_restoreState_iff {m : Machine} {s : SaveState} :
    (∃ m', m.restoreState s = .ok m') ↔ ¬ s.Malformed := by
  constructor
  · rintro ⟨m', h⟩ hbad
    obtain ⟨hversion, ram, current, drives, hmemory, hdisk, -⟩ := restoreState_eq_ok_iff.mp h
    obtain ⟨hcurrent, hfirst, hsecond⟩ := DiskState.decode_eq_ok_iff.mp hdisk
    cases hbad with
    | version h => exact h hversion
    | memory h => exact h ram.toArray ram.size_toArray (Base64.decode_eq_ok_iff.mp hmemory)
    | selection h => exact absurd (hcurrent ▸ current.isLt) (Nat.not_lt.mpr h)
    | first h => exact DriveState.exists_decode_iff.mp ⟨_, hfirst⟩ h
    | second h => exact DriveState.exists_decode_iff.mp ⟨_, hsecond⟩ h
  · intro hgood
    have hversion : s.version = 1 := by
      by_contra h
      exact hgood (.version h)
    have hcurrent : s.disk.current < 2 := by
      by_contra h
      exact hgood (.selection (Nat.not_lt.mp h))
    have hmemory : ∃ image, image.size = 163840 ∧ Base64.encode image = s.memory := by
      by_contra h
      exact hgood (.memory fun image hsize heq => h ⟨image, hsize, heq⟩)
    obtain ⟨image, hsize, hmemory⟩ := hmemory
    obtain ⟨first, hfirst⟩ := DriveState.exists_decode_iff.mpr fun h => hgood (.first h)
    obtain ⟨second, hsecond⟩ := DriveState.exists_decode_iff.mpr fun h => hgood (.second h)
    exact ⟨_, restoreState_eq_ok_iff.mpr ⟨hversion, ⟨image, hsize⟩, ⟨s.disk.current, hcurrent⟩,
      ⟨first, second⟩, Base64.decode_eq_ok_iff.mpr hmemory,
      DiskState.decode_eq_ok_iff.mpr ⟨rfl, hfirst, hsecond⟩, rfl⟩⟩

theorem restoreState_ne_overflow {s : SaveState} (hfits : s.FitsWords) (m : Machine) :
    m.restoreState s ≠ .error .overflow := by
  have hdisk : s.disk.decode ≠ .error .overflow := by
    unfold DiskState.decode
    split
    · refine bind_ne_error (DriveState.decode_ne_overflow hfits.1 0) fun first _ => ?_
      refine bind_ne_error (DriveState.decode_ne_overflow hfits.2 1) fun second _ => ?_
      nofun
    · nofun
  unfold restoreState
  refine bind_ne_error (SaveState.ensure_ne_overflow nofun) fun _ _ => ?_
  refine bind_ne_error (SaveState.decodeBytes_ne_overflow _) fun image _ => ?_
  refine bind_ne_error ?_ fun ram _ => bind_ne_error hdisk fun _ _ => nofun
  unfold Memory.ramOfImage
  split <;> nofun

/-- The disks of a save state are looked at last. -/
theorem restoreState_of_disk_error {m : Machine} {s : SaveState} {ram : Vector UInt8 Cell.count} {e : StateError}
    (hversion : s.version = SaveState.currentVersion) (hmemory : Base64.decode s.memory = .ok ram.toArray)
    (hdisk : s.disk.decode = .error e) : m.restoreState s = .error e := by
  have hversion' : s.checkVersion = .ok () := if_pos hversion
  have hmemory' : SaveState.decodeBytes s.memory = .ok ram.toArray := SaveState.decodeBytes_eq_ok_iff.mpr hmemory
  have hram : Memory.ramOfImage ram.toArray = .ok ram := Memory.ramOfImage_eq_ok_iff.mpr rfl
  unfold restoreState
  rw [hversion', ok_bind, hmemory', ok_bind, hram, ok_bind, hdisk]
  rfl

/-- What a machine saves is refused with other disks as these disks are. -/
theorem restoreState_saveState_of_disk_error {m : Machine} {disk : DiskState} {e : StateError}
    (hdisk : disk.decode = .error e) : m.restoreState { m.saveState with disk } = .error e :=
  restoreState_of_disk_error rfl (Base64.decode_encode _) hdisk

end Machine

end AppleII
