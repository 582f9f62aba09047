import AppleII.Proofs.Disk.Decoding
import AppleII.Proofs.Disk.Reading

/-!
# The containers that are accepted

A file that begins as a container is accepted when it holds what each half-track asks for, and is refused for
the first one that asks for more; other files are accepted by their name and their size
(`decode_accepts_exactly`).
-/

namespace AppleII.Disk

/-- The entry of a half-track in the map of a container. -/
def mapEntry (bytes : Array UInt8) (h : Nat) : Nat := Bytes.number 1 bytes (88 + 2 * h)

/-- The track that a container lists for a half-track. -/
def listedTrack (f : Format) (bytes : Array UInt8) (h : Nat) : Track :=
  let i := mapEntry bytes h
  if i = 255 then { start := 0, bits := 51200 }
  else if f = .woz1 then
    { start := 256 + 6656 * i, bits := Bytes.number 2 bytes (256 + 6656 * i + 6648) }
  else
    { start := 512 * Bytes.number 2 bytes (256 + 8 * i), bits := Bytes.number 4 bytes (256 + 8 * i + 4) }

/-- The sizes that a half-track asks for, in their order: a record for its track, or the entry of its track and
then the blocks that this tells. -/
def demands (f : Format) (bytes : Array UInt8) (h : Nat) : List Nat :=
  let i := mapEntry bytes h
  if i = 255 then []
  else if f = .woz1 then [256 + 6656 * (i + 1)]
  else
    [256 + 8 * i + 8,
      512 * Bytes.number 2 bytes (256 + 8 * i) + (Bytes.number 4 bytes (256 + 8 * i + 4) + 7) / 8]

variable {bytes : Array UInt8}

/-- The track of a half-track, or why the container is refused for it. -/
def verdict (f : Format) (bytes : Array UInt8) (h : Nat) : Except Error Track :=
  match (demands f bytes h).find? (bytes.size < ·) with
  | some n => .error (.truncated h n bytes.size)
  | none => .ok (listedTrack f bytes h)

theorem mapEntry_eq {h : Nat} (hm : 88 + 2 * h < bytes.size) : mapEntry bytes h = bytes[88 + 2 * h].toNat := by
  simp [mapEntry, Bytes.number, Array.getD_eq_getD_getElem?, Array.getElem?_eq_getElem hm]

theorem toNat_eq_noTrack {b : UInt8} : b.toNat = 255 ↔ b = noTrack :=
  UInt8.toNat_inj (b := noTrack)

theorem find?_of_lt {size n : Nat} {ns : List Nat} (h : size < n) : (n :: ns).find? (size < ·) = some n :=
  List.find?_cons_of_pos (decide_eq_true h)

theorem find?_of_le {size n : Nat} {ns : List Nat} (h : n ≤ size) :
    (n :: ns).find? (size < ·) = ns.find? (size < ·) :=
  List.find?_cons_of_neg (by simpa using h)

theorem woz2Track_eq_verdict (header : Image.headerSize ≤ bytes.size) (h : Fin halfTracks) :
    Image.woz2Track bytes header h = verdict .woz2 bytes h.val := by
  have hm := mapOffset_lt header h
  have hentry : mapEntry bytes h.val = bytes[Image.mapOffset + 2 * h.val].toNat := mapEntry_eq hm
  unfold Image.woz2Track verdict demands listedTrack
  rw [hentry]
  dsimp only
  by_cases hnone : bytes[Image.mapOffset + 2 * h.val] = noTrack
  · have hnone' := toNat_eq_noTrack.mpr hnone
    rw [if_pos hnone, if_pos hnone', if_pos hnone']
    rfl
  have hnone' := mt toNat_eq_noTrack.mp hnone
  rw [if_neg hnone, if_neg hnone', if_neg hnone', if_neg (by decide), if_neg (by decide)]
  by_cases hr : Image.headerSize + 8 * bytes[Image.mapOffset + 2 * h.val].toNat + 8 ≤ bytes.size
  · have hr' : 256 + 8 * bytes[Image.mapOffset + 2 * h.val].toNat + 8 ≤ bytes.size := hr
    rw [find?_of_le hr', SectorImage.require_eq_ok h.val hr, ok_bind, Bytes.word16_eq_number,
      Bytes.word32_eq_number]
    generalize bytes[Image.mapOffset + 2 * h.val].toNat = i
    by_cases hstop : 512 * Bytes.number 2 bytes (256 + 8 * i) + (Bytes.number 4 bytes (256 + 8 * i + 4) + 7) / 8 ≤
        bytes.size
    · rw [find?_of_le hstop]
      exact bind_eq_ok_iff.mpr ⟨⟨hstop⟩, SectorImage.require_eq_ok h.val hstop, rfl⟩
    · rw [find?_of_lt (Nat.lt_of_not_le hstop)]
      exact bind_eq_error (require_of_lt h.val (Nat.lt_of_not_le hstop)) _
  · have hr' : bytes.size < 256 + 8 * bytes[Image.mapOffset + 2 * h.val].toNat + 8 := Nat.lt_of_not_le hr
    rw [find?_of_lt hr']
    exact bind_eq_error (require_of_lt h.val hr') _

theorem woz1Track_eq_verdict (header : Image.headerSize ≤ bytes.size) (h : Fin halfTracks) :
    Image.woz1Track bytes header h = verdict .woz1 bytes h.val := by
  have hm := mapOffset_lt header h
  have hentry : mapEntry bytes h.val = bytes[Image.mapOffset + 2 * h.val].toNat := mapEntry_eq hm
  unfold Image.woz1Track verdict demands listedTrack
  rw [hentry]
  dsimp only
  by_cases hnone : bytes[Image.mapOffset + 2 * h.val] = noTrack
  · have hnone' := toNat_eq_noTrack.mpr hnone
    rw [if_pos hnone, if_pos hnone', if_pos hnone']
    rfl
  have hnone' := mt toNat_eq_noTrack.mp hnone
  rw [if_neg hnone, if_neg hnone', if_neg hnone', if_pos (Eq.refl Format.woz1), if_pos (Eq.refl Format.woz1)]
  simp only [Bytes.word16_eq_number]
  generalize bytes[Image.mapOffset + 2 * h.val].toNat = i
  have hend : 256 + 6656 * (i + 1) = Image.headerSize + Image.woz1TrackSize * i + Image.woz1TrackSize :=
    (Nat.add_assoc _ _ _).symm
  rw [hend]
  by_cases hr : Image.headerSize + Image.woz1TrackSize * i + Image.woz1TrackSize ≤ bytes.size
  · rw [find?_of_le hr]
    exact bind_eq_ok_iff.mpr ⟨⟨hr⟩, SectorImage.require_eq_ok h.val hr, rfl⟩
  · rw [find?_of_lt (Nat.lt_of_not_le hr)]
    exact bind_eq_error (require_of_lt h.val (Nat.lt_of_not_le hr)) _

/-! ## All half-tracks -/

theorem verdict_eq_ok_iff {f : Format} {h : Nat} {t : Track} :
    verdict f bytes h = .ok t ↔ (∀ n ∈ demands f bytes h, n ≤ bytes.size) ∧ t = listedTrack f bytes h := by
  unfold verdict
  constructor
  · intro ht
    split at ht
    · cases ht
    · next hnone =>
      cases ht
      refine ⟨fun n hn => ?_, rfl⟩
      simpa using List.find?_eq_none.mp hnone n hn
  · rintro ⟨hfit, rfl⟩
    rw [List.find?_eq_none.mpr fun n hn => by simpa using hfit n hn]

theorem verdict_eq_error_iff {f : Format} {h : Nat} {e : Error} :
    verdict f bytes h = .error e ↔
      ∃ n, (demands f bytes h).find? (bytes.size < ·) = some n ∧ e = .truncated h n bytes.size := by
  unfold verdict
  constructor
  · intro he
    split at he
    · next n hn =>
      cases he
      exact ⟨n, hn, rfl⟩
    · cases he
  · rintro ⟨n, hn, rfl⟩
    rw [hn]

/-- The tracks of a container are those of its half-tracks, each judged alone. -/
theorem tracksOf_eq_mapM {f : Format} (hmagic : f.HasMagic bytes) (header : Image.headerSize ≤ bytes.size) :
    Image.tracksOf bytes header f = (Vector.finRange halfTracks).mapM fun h => verdict f bytes h.val := by
  unfold Image.tracksOf
  cases f with
  | woz2 =>
    rw [if_neg (by decide)]
    exact congrArg (Vector.finRange halfTracks).mapM (funext (woz2Track_eq_verdict header))
  | woz1 =>
    rw [if_pos rfl]
    exact congrArg (Vector.finRange halfTracks).mapM (funext (woz1Track_eq_verdict header))
  | dsk => cases hmagic
  | po => cases hmagic

/-- A container is taken as it is. -/
theorem container_of_hasMagic {f : Format} (hmagic : f.HasMagic bytes) (fileName : String) :
    Image.container fileName bytes f = .ok (fileName, bytes, false) := by
  cases f with
  | woz2 => rfl
  | woz1 => rfl
  | dsk => cases hmagic
  | po => cases hmagic

/-- A file that is too short for a header is refused. -/
theorem decode_of_short {f : Format} (hmagic : f.HasMagic bytes) (fileName : String)
    (hshort : bytes.size < Image.headerSize) :
    Image.decode fileName bytes = .error (.truncated 0 Image.headerSize bytes.size) := by
  unfold Image.decode
  rw [detect_of_hasMagic hmagic, ok_bind, container_of_hasMagic hmagic, ok_bind]
  exact bind_eq_error (require_of_lt 0 hshort) _

section Container

variable {f : Format} (hmagic : f.HasMagic bytes) (fileName : String) (header : Image.headerSize ≤ bytes.size)

include hmagic

/-- An accepted container has the tracks that it lists. -/
theorem tracks_of_decode {image : Image} (h : Image.decode fileName bytes = .ok image) :
    image.format = f ∧ image.bytes = bytes ∧ ∀ i : Fin halfTracks, verdict f bytes i.val = .ok (image.trackAt i) := by
  obtain ⟨hdetect, hcontainer, ⟨header', htracks⟩, -⟩ := decode_cases h
  have hformat : f = image.format := Except.ok.inj ((detect_of_hasMagic hmagic fileName).symm.trans hdetect)
  rw [← hformat, container_of_hasMagic hmagic] at hcontainer
  have hbytes : bytes = image.bytes := congrArg (fun c => c.2.1) (Except.ok.inj hcontainer)
  refine ⟨hformat.symm, hbytes.symm, fun i => ?_⟩
  rw [← hformat, tracksOf_eq_mapM (hbytes ▸ hmagic), ← hbytes] at htracks
  have htrack := getElem_of_mapM htracks i.isLt
  rwa [Vector.getElem_finRange] at htrack

include header

/-- A container is refused for the first half-track that it is refused for. -/
theorem first_of_decode_error {e : Error} (h : Image.decode fileName bytes = .error e) :
    ∃ i < halfTracks, verdict f bytes i = .error e ∧ ∀ j < i, verdict f bytes j = .ok (listedTrack f bytes j) := by
  have hcontainer := container_of_hasMagic hmagic fileName
  cases htracks : Image.tracksOf bytes header f with
  | ok tracks =>
    obtain ⟨_, hdecode⟩ := decode_eq_ok (detect_of_hasMagic hmagic fileName) hcontainer header htracks
    rw [hdecode] at h
    cases h
  | error e' =>
    rw [decode_eq_error (detect_of_hasMagic hmagic fileName) hcontainer header htracks] at h
    cases h
    rw [tracksOf_eq_mapM hmagic, vectorMapM_eq_error_iff] at htracks
    obtain ⟨i, hi, herror, hbefore⟩ := htracks
    rw [Vector.getElem_finRange] at herror
    refine ⟨i, hi, herror, fun j hj => ?_⟩
    obtain ⟨t, ht⟩ := hbefore j hj
    rw [Vector.getElem_finRange] at ht
    have hlisted := (verdict_eq_ok_iff.mp ht).2
    rwa [hlisted] at ht

/-- A container is accepted when every half-track has what it asks for. -/
theorem decode_eq_ok_iff : (∃ image, Image.decode fileName bytes = .ok image) ↔
    ∀ h < halfTracks, ∀ n ∈ demands f bytes h, n ≤ bytes.size := by
  constructor
  · rintro ⟨image, hdecode⟩ h hh
    have hverdict := (tracks_of_decode hmagic fileName hdecode).2.2 ⟨h, hh⟩
    exact (verdict_eq_ok_iff.mp hverdict).1
  · intro hfit
    cases hdecode : Image.decode fileName bytes with
    | ok image => exact ⟨image, rfl⟩
    | error e =>
      obtain ⟨i, hi, herror, -⟩ := first_of_decode_error hmagic fileName header hdecode
      rw [verdict_eq_ok_iff.mpr ⟨hfit i hi, rfl⟩] at herror
      cases herror

end Container

theorem hasWozMagic_of_hasMagic {f : Format} (hmagic : f.HasMagic bytes) : HasWozMagic bytes := by
  cases f with
  | woz2 => exact .inl hmagic
  | woz1 => exact .inr hmagic
  | dsk => cases hmagic
  | po => cases hmagic

/-- Only an image of the right size has a container made of it. -/
theorem size_of_container {fileName : String} {order : SectorOrder} {c : String × Array UInt8 × Bool}
    (h : Image.container fileName bytes order.format = .ok c) : bytes.size = SectorImage.size := by
  refine Decidable.by_contra fun hsize => ?_
  have hnone : SectorImage.toWoz? bytes order = none := if_neg hsize
  cases order with
  | dos =>
    simp only [SectorOrder.format, Image.container, hnone] at h
    cases h
  | proDos =>
    simp only [SectorOrder.format, Image.container, hnone] at h
    cases h

/-- A file that is no container is accepted by its name and its size. -/
theorem decode_eq_ok_iff_of_not_hasWozMagic (fileName : String) (hmagic : ¬HasWozMagic bytes) :
    (∃ image, Image.decode fileName bytes = .ok image) ↔
      (∃ order : SectorOrder, order.Names fileName) ∧ bytes.size = 143360 := by
  constructor
  · rintro ⟨image, hdecode⟩
    obtain ⟨hdetect, hcontainer, -⟩ := decode_cases hdecode
    obtain hwoz | ⟨-, order, hname, hformat⟩ := detect_cases hdetect
    · exact absurd (hasWozMagic_of_hasMagic hwoz) hmagic
    · rw [hformat] at hcontainer
      exact ⟨⟨order, hname⟩, size_of_container hcontainer⟩
  · rintro ⟨⟨order, hname⟩, hsize⟩
    obtain ⟨image, hdecode, -⟩ := decode_sectorImage hname hsize hmagic
    exact ⟨image, hdecode⟩

/-- **Exactly the well-formed containers are accepted, and no read misses.**  The magic of a container decides
the format before the name does.  A container needs 256 bytes; it is accepted when each half-track has what it
asks for, with the tracks that it lists, and else is refused for the lowest half-track that has not, with the
size that this one asked for.  Without a magic, the name and the size decide. -/
theorem decode_accepts_exactly (fileName : String) (bytes : Array UInt8) :
    decode? fileName bytes = .hit (Image.decode fileName bytes) ∧
    (∀ f : Format, f.HasMagic bytes →
      Image.detect fileName bytes = .ok f ∧
      (bytes.size < 256 → Image.decode fileName bytes = .error (.truncated 0 256 bytes.size)) ∧
      (256 ≤ bytes.size →
        ((∃ image, Image.decode fileName bytes = .ok image) ↔
          ∀ h < halfTracks, ∀ n ∈ demands f bytes h, n ≤ bytes.size) ∧
        (∀ image, Image.decode fileName bytes = .ok image →
          image.format = f ∧ image.bytes = bytes ∧ ∀ h, image.trackAt h = listedTrack f bytes h.val) ∧
        ∀ e, Image.decode fileName bytes = .error e → ∃ h < halfTracks, ∃ n,
          e = .truncated h n bytes.size ∧ (demands f bytes h).find? (bytes.size < ·) = some n ∧
            ∀ h' < h, ∀ n' ∈ demands f bytes h', n' ≤ bytes.size)) ∧
    (¬HasWozMagic bytes → ((∃ image, Image.decode fileName bytes = .ok image) ↔
      (∃ order : SectorOrder, order.Names fileName) ∧ bytes.size = 143360)) := by
  refine ⟨decode?_eq fileName bytes, fun f hmagic => ?_, decode_eq_ok_iff_of_not_hasWozMagic fileName⟩
  refine ⟨detect_of_hasMagic hmagic fileName, decode_of_short hmagic fileName, fun header => ?_⟩
  refine ⟨decode_eq_ok_iff hmagic fileName header, fun image hdecode => ?_, fun e hdecode => ?_⟩
  · obtain ⟨hformat, hbytes, hverdict⟩ := tracks_of_decode hmagic fileName hdecode
    exact ⟨hformat, hbytes, fun h => (verdict_eq_ok_iff.mp (hverdict h)).2⟩
  · obtain ⟨h, hh, herror, hbefore⟩ := first_of_decode_error hmagic fileName header hdecode
    obtain ⟨n, hn, he⟩ := verdict_eq_error_iff.mp herror
    exact ⟨h, hh, n, he, hn, fun h' hlt => (verdict_eq_ok_iff.mp (hbefore h' hlt)).1⟩

end AppleII.Disk
