import AppleII.Proofs.Disk.Conversion

/-!
# What decoding accepts

The tracks of an accepted WOZ 2 container lie inside (`stop_le_of_woz2Track`).  Of a WOZ 1 container the
records do, and with them the tracks that are no longer than a record, which is not looked at
(`stop_le_of_decode`).
-/

namespace AppleII.Disk

/-- The track of a half-track. -/
def Image.trackAt (image : Image) (h : Fin halfTracks) : Track := getElem image.tracks h.val h.isLt

variable {fileName : String} {bytes : Array UInt8} {image : Image}

/-- Where every part of a decoded image comes from. -/
theorem decode_cases (h : Image.decode fileName bytes = .ok image) :
    Image.detect fileName bytes = .ok image.format ∧
      Image.container fileName bytes image.format = .ok (image.fileName, image.bytes, image.converted) ∧
      (∃ header, Image.tracksOf image.bytes header image.format = .ok image.tracks) ∧
      (image.bytes[Image.protectOffset]?.map fun b => b == 1) = some image.writeProtected ∧
      image.warning = if image.format = .woz1 then none else Image.checkChecksum image.bytes := by
  obtain ⟨f, hdetect, h⟩ := bind_eq_ok_iff.mp h
  obtain ⟨⟨name, container, converted⟩, hcontainer, h⟩ := bind_eq_ok_iff.mp h
  obtain ⟨⟨header⟩, -, h⟩ := bind_eq_ok_iff.mp h
  obtain ⟨tracks, htracks, h⟩ := bind_eq_ok_iff.mp h
  cases h
  have hp : Image.protectOffset < container.size := Nat.lt_of_lt_of_le (by decide) header
  refine ⟨hdetect, hcontainer, ⟨header, htracks⟩, ?_, rfl⟩
  rw [Array.getElem?_eq_getElem hp, Option.map_some]

/-- The file begins with the magic of a container of the format. -/
def Format.HasMagic : Format → Array UInt8 → Prop
  | .woz2, bytes => woz2Magic <+: bytes.toList
  | .woz1, bytes => woz1Magic <+: bytes.toList
  | .dsk, _ => False
  | .po, _ => False

/-- The magic decides the format, whatever the name of the file. -/
theorem detect_of_hasMagic {f : Format} (hmagic : f.HasMagic bytes) (fileName : String) :
    Image.detect fileName bytes = .ok f := by
  cases f with
  | woz2 => exact detect_woz2 hmagic fileName
  | woz1 => exact detect_woz1 hmagic fileName
  | dsk => cases hmagic
  | po => cases hmagic

/-- The format comes from the magic, or, where there is none, from the name. -/
theorem detect_cases {f : Format} (h : Image.detect fileName bytes = .ok f) :
    f.HasMagic bytes ∨ ¬HasWozMagic bytes ∧ ∃ order : SectorOrder, order.Names fileName ∧ f = order.format := by
  unfold Image.detect at h
  split at h
  · next hwoz2 =>
    cases h
    exact .inl ((isPrefixOf_extract_eight rfl).mp hwoz2)
  · next hwoz2 =>
    split at h
    · next hwoz1 =>
      cases h
      exact .inl ((isPrefixOf_extract_eight rfl).mp hwoz1)
    · next hwoz1 =>
      rw [isPrefixOf_extract_eight rfl] at hwoz2 hwoz1
      refine .inr ⟨not_or.mpr ⟨hwoz2, hwoz1⟩, ?_⟩
      split at h
      · next hext =>
        cases h
        exact ⟨.dos, ⟨"dsk", .head _, hext⟩, rfl⟩
      · next hext =>
        cases h
        exact ⟨.dos, ⟨"do", .tail _ (.head _), hext⟩, rfl⟩
      · next hext =>
        cases h
        exact ⟨.proDos, ⟨"po", .head _, hext⟩, rfl⟩
      · cases h

theorem format_of_sectorImage {order : SectorOrder} (hname : order.Names fileName) (hmagic : ¬HasWozMagic bytes)
    (hdecode : Image.decode fileName bytes = .ok image) : image.format = order.format := by
  have hdetect := (decode_cases hdecode).1
  rw [detect_sectorImage hname hmagic] at hdetect
  exact (Except.ok.inj hdetect).symm

/-! ## Tracks -/

theorem stop_le_of_woz2Track {header : Image.headerSize ≤ bytes.size} {h : Fin halfTracks} {t : Track}
    (ht : Image.woz2Track bytes header h = .ok t) (hstart : t.start ≠ 0) : t.stop ≤ bytes.size := by
  obtain ⟨entry, -, ht⟩ := SectorImage.woz2Track_eq_ok_iff.mp ht
  split at ht
  · rw [ht] at hstart
    exact absurd rfl hstart
  · obtain ⟨-, -, -, hstop⟩ := ht
    exact hstop

theorem record_le_of_woz1Track {header : Image.headerSize ≤ bytes.size} {h : Fin halfTracks} {t : Track}
    (ht : Image.woz1Track bytes header h = .ok t) (hstart : t.start ≠ 0) :
    t.start + Image.woz1TrackSize ≤ bytes.size := by
  unfold Image.woz1Track at ht
  dsimp only at ht
  split at ht
  · cases ht
    exact absurd rfl hstart
  · obtain ⟨⟨hr⟩, -, ht⟩ := bind_eq_ok_iff.mp ht
    cases ht
    exact hr

/-- A half-track of a WOZ 1 container has the record that its map entry names. -/
theorem woz1Track_of_record {header : Image.headerSize ≤ bytes.size} {h : Fin halfTracks} {entry : UInt8}
    {bits : Nat} (hentry : bytes[Image.mapOffset + 2 * h.val]? = some entry) (hne : entry ≠ noTrack)
    (hrecord : Image.headerSize + Image.woz1TrackSize * entry.toNat + Image.woz1TrackSize ≤ bytes.size)
    (hbits : HasAt bytes.toList (Image.headerSize + Image.woz1TrackSize * entry.toNat + Image.woz1BitsOffset)
      (Bytes.ofNat 2 bits)) (hbits' : bits < 0x10000) :
    Image.woz1Track bytes header h =
      .ok { start := Image.headerSize + Image.woz1TrackSize * entry.toNat, bits } := by
  obtain ⟨hlt, rfl⟩ := Array.getElem?_eq_some_iff.mp hentry
  unfold Image.woz1Track
  refine (if_neg hne).trans (bind_eq_ok_iff.mpr ⟨⟨hrecord⟩, SectorImage.require_eq_ok _ hrecord, ?_⟩)
  dsimp only
  rw [Bytes.word16_of_hasAt _ hbits' hbits]
  rfl

/-- Every track of an image is the one that its container gives the half-track. -/
theorem trackAt_eq {header : Image.headerSize ≤ image.bytes.size}
    (htracks : Image.tracksOf image.bytes header image.format = .ok image.tracks) (h : Fin halfTracks) :
    (if image.format = .woz1 then Image.woz1Track image.bytes header else Image.woz2Track image.bytes header) h =
      .ok (image.trackAt h) :=
  SectorImage.tracksOf_eq_ok_iff.mp htracks h

/-- **A track of an accepted image lies inside**, unless it is one of a WOZ 1 container that counts more bits
than its record holds. -/
theorem stop_le_of_decode (hdecode : Image.decode fileName bytes = .ok image) (h : Fin halfTracks)
    (hstart : (image.trackAt h).start ≠ 0) :
    (image.trackAt h).stop ≤ image.bytes.size ∨
      image.format = .woz1 ∧ 8 * Image.woz1TrackSize < (image.trackAt h).bits := by
  obtain ⟨-, -, ⟨header, htracks⟩, -⟩ := decode_cases hdecode
  have htrack := trackAt_eq htracks h
  by_cases hformat : image.format = .woz1
  · rw [if_pos hformat] at htrack
    have hrecord := record_le_of_woz1Track htrack hstart
    by_cases hbits : 8 * Image.woz1TrackSize < (image.trackAt h).bits
    · exact .inr ⟨hformat, hbits⟩
    · refine .inl ?_
      unfold Track.stop bytesFor
      omega
  · rw [if_neg hformat] at htrack
    exact .inl (stop_le_of_woz2Track htrack hstart)

/-- Every track of the image lies in its container. -/
def Image.Inside (image : Image) : Prop :=
  ∀ h : Fin halfTracks, (image.trackAt h).start ≠ 0 → (image.trackAt h).stop ≤ image.bytes.size

end AppleII.Disk
