import AppleII.Proofs.Crc32
import AppleII.Proofs.Disk.Decoding

/-!
# Damaged containers

A container that fits its checksum no longer does when some of four bytes that follow one another were
changed: it is refused, or accepted with the warning that the checksums differ (`short_change_seen`).
-/

namespace AppleII.Disk

/-- Two containers of one size differ, but only in the four bytes from a place on. -/
structure ChangedAt (k : Nat) (bytes bytes' : Array UInt8) : Prop where
  size : bytes'.size = bytes.size
  same : ∀ i, i < k ∨ k + 4 ≤ i → bytes'[i]? = bytes[i]?
  changed : bytes' ≠ bytes

variable {k : Nat} {bytes bytes' : Array UInt8}

theorem ChangedAt.take_toList (h : ChangedAt k bytes bytes') {n : Nat} (hn : n ≤ k) :
    bytes'.toList.take n = bytes.toList.take n := by
  refine List.ext_getElem? fun i => ?_
  rw [List.getElem?_take, List.getElem?_take, Array.getElem?_toList, Array.getElem?_toList]
  split
  · exact h.same i (.inl (by omega))
  · rfl

theorem ChangedAt.drop_toList (h : ChangedAt k bytes bytes') :
    bytes'.toList.drop (k + 4) = bytes.toList.drop (k + 4) := by
  refine List.ext_getElem? fun i => ?_
  rw [List.getElem?_drop, List.getElem?_drop, Array.getElem?_toList, Array.getElem?_toList]
  exact h.same _ (.inr (Nat.le_add_right _ _))

theorem toList_checked (bytes : Array UInt8) :
    (bytes.extract checkedOffset bytes.size).toList = bytes.toList.drop checkedOffset := by
  have hlength : (bytes.toList.drop checkedOffset).length = bytes.size - checkedOffset := by
    rw [List.length_drop, Array.length_toList]
  rw [Array.toList_extract, List.extract_eq_take_drop]
  exact List.take_of_length_le (Nat.le_of_eq hlength)

/-- The part of a container that the checksum covers, cut at the four bytes. -/
theorem checked_eq_append (hk : checkedOffset ≤ k) (bytes : Array UInt8) :
    bytes.extract checkedOffset bytes.size =
      ((bytes.toList.take k).drop checkedOffset ++ (bytes.toList.drop k).take 4 ++
        bytes.toList.drop (k + 4)).toArray := by
  have hdrop : bytes.toList.drop k = (bytes.toList.drop checkedOffset).drop (k - checkedOffset) := by
    rw [List.drop_drop, Nat.add_sub_cancel' hk]
  refine Array.toList_inj.mp ?_
  calc (bytes.extract checkedOffset bytes.size).toList
    _ = bytes.toList.drop checkedOffset := toList_checked bytes
    _ = (bytes.toList.take k).drop checkedOffset ++ bytes.toList.drop k := by
      rw [List.drop_take, hdrop, List.take_append_drop]
    _ = (bytes.toList.take k).drop checkedOffset ++ ((bytes.toList.drop k).take 4 ++ bytes.toList.drop (k + 4)) := by
      rw [← List.drop_drop, List.take_append_drop]
    _ = _ := (List.append_assoc _ _ _).symm

/-- **A change of up to four bytes changes the checksum.** -/
theorem ChangedAt.containerChecksum_ne (h : ChangedAt k bytes bytes') (hk : checkedOffset ≤ k) :
    containerChecksum bytes' ≠ containerChecksum bytes := by
  intro hsame
  unfold containerChecksum at hsame
  rw [checked_eq_append hk, checked_eq_append hk, h.take_toList (Nat.le_refl k), h.drop_toList] at hsame
  have hpart : (bytes'.toList.drop k).take 4 = (bytes.toList.drop k).take 4 := by
    refine Crc32.eq_of_checksum_eq ?_ (List.length_take_le _ _) hsame
    simp only [List.length_take, List.length_drop, Array.length_toList, h.size]
  refine h.changed (Array.toList_inj.mp ?_)
  calc bytes'.toList
    _ = bytes'.toList.take k ++ ((bytes'.toList.drop k).take 4 ++ (bytes'.toList.drop k).drop 4) := by
      rw [List.take_append_drop, List.take_append_drop]
    _ = bytes.toList.take k ++ ((bytes.toList.drop k).take 4 ++ (bytes.toList.drop k).drop 4) := by
      rw [h.take_toList (Nat.le_refl k), hpart, List.drop_drop, List.drop_drop, h.drop_toList]
    _ = bytes.toList := by rw [List.take_append_drop, List.take_append_drop]

/-! ## What decoding says -/

theorem magic_of_detect_woz2 {fileName : String} (h : Image.detect fileName bytes = .ok .woz2) :
    woz2Magic <+: bytes.toList := by
  obtain hmagic | ⟨-, order, -, hformat⟩ := detect_cases h
  · exact hmagic
  · cases order with
    | dos => cases hformat
    | proDos => cases hformat

/-- The checksum that a container holds. -/
def storedChecksum (bytes : Array UInt8) : UInt32 := (Bytes.number 4 bytes checksumOffset).toUInt32

theorem checkChecksum_eq (hsize : checkedOffset ≤ bytes.size) : Image.checkChecksum bytes =
    if storedChecksum bytes = 0 ∨ storedChecksum bytes = containerChecksum bytes then none
    else some (.checksumMismatch (storedChecksum bytes) (containerChecksum bytes)) := by
  have hword : checksumOffset + 3 < bytes.size := hsize
  unfold Image.checkChecksum storedChecksum
  rw [dif_neg (Nat.not_lt.mpr hsize), Bytes.word32_eq_number hword]
  dsimp only
  split
  · next hzero => rw [if_pos (.inl hzero)]
  · next hzero =>
    split
    · next hsame => rw [if_pos (.inr hsame)]
    · next hother => rw [if_neg (not_or.mpr ⟨hzero, hother⟩)]

/-- The stored checksum is not one of the bytes that it covers. -/
theorem ChangedAt.storedChecksum_eq (h : ChangedAt k bytes bytes') (hk : checkedOffset ≤ k) :
    storedChecksum bytes' = storedChecksum bytes := by
  have hk' : 12 ≤ k := hk
  refine congrArg Nat.toUInt32 (Bytes.number_congr fun i hi => h.same _ (.inl ?_))
  simp only [checksumOffset]
  omega

/-- The container of an accepted WOZ 2 file is the file. -/
theorem bytes_of_woz2 {fileName : String} {image : Image} (h : Image.decode fileName bytes = .ok image)
    (hformat : image.format = .woz2) :
    woz2Magic <+: bytes.toList ∧ image.bytes = bytes ∧ image.warning = Image.checkChecksum bytes ∧
      checkedOffset ≤ bytes.size := by
  obtain ⟨hdetect, hcontainer, ⟨header, -⟩, -, hwarning⟩ := decode_cases h
  rw [hformat] at hdetect hcontainer hwarning
  have hbytes : bytes = image.bytes := congrArg (fun c => c.2.1) (Except.ok.inj hcontainer)
  rw [← hbytes] at header hwarning
  exact ⟨magic_of_detect_woz2 hdetect, hbytes.symm, hwarning, Nat.le_trans (by decide) header⟩

/-- **The check value is the CRC-32 of the bytes, and a change of four bytes is seen.**  The table gives the
value that is computed a bit at a time; two rows of four bytes in one place have different values; and a
change of four bytes that follow one another, from the first one that the checksum covers, makes an image
that was accepted as WOZ 2 without a warning one that is refused or accepted with a warning. -/
theorem short_change_seen :
    (∀ bytes : Array UInt8, Crc32.checksum bytes = Crc32.serial bytes.toList) ∧
    (∀ before after four four' : List UInt8, four.length = 4 → four'.length = 4 → four ≠ four' →
      Crc32.checksum (before ++ four ++ after).toArray ≠ Crc32.checksum (before ++ four' ++ after).toArray) ∧
    ∀ (fileName : String) (bytes : Array UInt8) (image : Image),
      Image.decode fileName bytes = .ok image → image.format = .woz2 → image.warning = none →
      storedChecksum bytes ≠ 0 →
      ∀ k bytes', checkedOffset ≤ k → ChangedAt k bytes bytes' → ∀ fileName',
        (∃ e, Image.decode fileName' bytes' = .error e) ∨
          ∃ image', Image.decode fileName' bytes' = .ok image' ∧
            image'.warning = some (.checksumMismatch (storedChecksum bytes) (containerChecksum bytes')) := by
  refine ⟨Crc32.checksum_eq_serial, ?_, ?_⟩
  · intro before after four four' hfour hfour' hne hsame
    exact hne (Crc32.eq_of_checksum_eq (hfour.trans hfour'.symm) (Nat.le_of_eq hfour) hsame)
  · intro fileName bytes image hdecode hformat hwarning hstored k bytes' hk hchange fileName'
    obtain ⟨hmagic, -, hcheck, hsize⟩ := bytes_of_woz2 hdecode hformat
    -- The stored checksum is the one of the container, and so not that of the changed one.
    have hfits : storedChecksum bytes = containerChecksum bytes := by
      rw [hwarning, checkChecksum_eq hsize] at hcheck
      refine Decidable.by_contra fun hother => ?_
      rw [if_neg (not_or.mpr ⟨hstored, hother⟩)] at hcheck
      cases hcheck
    have hmagic' : woz2Magic <+: bytes'.toList := by
      have hprefix := List.prefix_iff_eq_take.mp hmagic
      rw [← hchange.take_toList (Nat.le_trans (by decide) hk)] at hprefix
      exact List.prefix_iff_eq_take.mpr hprefix
    cases hdecode' : Image.decode fileName' bytes' with
    | error e => exact .inl ⟨e, rfl⟩
    | ok image' =>
      refine .inr ⟨image', rfl, ?_⟩
      have hdetect' := (decode_cases hdecode').1
      rw [detect_woz2 hmagic'] at hdetect'
      obtain ⟨-, -, hcheck', hsize'⟩ := bytes_of_woz2 hdecode' (Except.ok.inj hdetect').symm
      have hstored' := hchange.storedChecksum_eq hk
      rw [hcheck', checkChecksum_eq hsize', hstored', if_neg]
      rintro (hzero | hsame)
      · exact hstored hzero
      · exact hchange.containerChecksum_ne hk (hsame.symm.trans hfits)

/-! ## A container without bits -/

/-- A container whose map gives every half-track the first record, of a track without bits. -/
def bareContainer : Array UInt8 :=
  (woz2Magic ++ List.replicate 4 0xFF ++ (List.replicate 4 0xFF ++ List.replicate 248 0)).toArray

theorem storedChecksum_bareContainer : storedChecksum bareContainer = 0xFFFFFFFF := by
  have hnumber : Bytes.number 4 bareContainer checksumOffset = 0xFFFFFFFF := by decide +kernel
  rw [storedChecksum, hnumber]
  rfl

/-- The first four of the bytes that the checksum covers clear the register. -/
theorem containerChecksum_bareContainer : containerChecksum bareContainer = 0xFFFFFFFF := by
  have hchecked : bareContainer.toList.drop checkedOffset = List.replicate 4 0xFF ++ List.replicate 248 0 :=
    List.drop_left' rfl
  have hclear : ((List.replicate 4 (0xFF : UInt8)).flatMap Crc32.bitsOf).foldl Crc32.feed (BitVec.allOnes 32) =
      0#32 := by
    rw [Crc32.foldl_feed (by decide), show Crc32.register _ = BitVec.allOnes 32 by decide +kernel, BitVec.xor_self,
      Crc32.idle_zero]
  unfold containerChecksum
  rw [Crc32.checksum_eq_serial, toList_checked, hchecked, Crc32.serial, List.flatMap_append, List.foldl_append, hclear,
    Crc32.foldl_feed_zeros]
  rfl

theorem decode_bareContainer : ∃ image, Image.decode "bare.woz" bareContainer = .ok image ∧
    image.format = .woz2 ∧ image.warning = none := by
  have header : Image.headerSize ≤ bareContainer.size := by decide +kernel
  have hmap : ∀ h : Fin halfTracks, bareContainer[Image.mapOffset + 2 * h.val]? = some 0 := by decide +kernel
  have hzeros : HasAt bareContainer.toList Image.headerSize (List.replicate 8 0) := by
    unfold HasAt
    decide +kernel
  have htracks : Image.tracksOf bareContainer header .woz2 =
      .ok (Vector.replicate halfTracks { start := 0, bits := 0 }) := by
    refine SectorImage.tracksOf_eq_ok_iff.mpr fun h => ?_
    rw [if_neg (by decide), Vector.getElem_replicate]
    have hblock : HasAt bareContainer.toList Image.headerSize (Bytes.ofNat 2 0) :=
      HasAt.left (s := Bytes.ofNat 2 0) (t := List.replicate 6 0) hzeros
    have hbits : HasAt bareContainer.toList (Image.headerSize + 4) (Bytes.ofNat 4 0) :=
      HasAt.right (s := List.replicate 4 0) (t := Bytes.ofNat 4 0) hzeros
    exact SectorImage.woz2Track_of_record header (hmap h) (by decide) (by decide +kernel) hblock hbits (by decide)
      (by decide) (by decide +kernel)
  have hmagic : woz2Magic <+: bareContainer.toList := by
    unfold bareContainer
    simp only [List.append_assoc]
    exact List.prefix_append _ _
  obtain ⟨writeProtected, hdecode⟩ := decode_eq_ok (detect_woz2 hmagic "bare.woz") rfl header htracks
  refine ⟨_, hdecode, rfl, ?_⟩
  have hfits : storedChecksum bareContainer = containerChecksum bareContainer := by
    rw [storedChecksum_bareContainer, containerChecksum_bareContainer]
  dsimp only
  rw [if_neg (by decide), checkChecksum_eq (by decide +kernel), if_pos (.inr hfits)]

/-- A byte of the header of the bare container is changed. -/
theorem short_change_seen_bareContainer :
    ∃ image, Image.decode "bare.woz" bareContainer = .ok image ∧ image.format = .woz2 ∧ image.warning = none ∧
      storedChecksum bareContainer ≠ 0 ∧ ChangedAt 20 bareContainer (bareContainer.setIfInBounds 22 1) ∧
      ((∃ e, Image.decode "bare.woz" (bareContainer.setIfInBounds 22 1) = .error e) ∨
        ∃ image', Image.decode "bare.woz" (bareContainer.setIfInBounds 22 1) = .ok image' ∧
          image'.warning = some (.checksumMismatch (storedChecksum bareContainer)
            (containerChecksum (bareContainer.setIfInBounds 22 1)))) := by
  obtain ⟨image, hdecode, hformat, hwarning⟩ := decode_bareContainer
  have hstored : storedChecksum bareContainer ≠ 0 := by
    rw [storedChecksum_bareContainer]
    decide
  have hchange : ChangedAt 20 bareContainer (bareContainer.setIfInBounds 22 1) := by
    refine ⟨Array.size_setIfInBounds, fun i hi => Array.getElem?_setIfInBounds_ne (by omega), fun hsame => ?_⟩
    have hbyte : bareContainer[22]? = some 0 := by decide +kernel
    rw [← hsame, Array.getElem?_setIfInBounds_self_of_lt (by decide +kernel)] at hbyte
    exact absurd hbyte (by decide)
  exact ⟨image, hdecode, hformat, hwarning, hstored, hchange,
    short_change_seen.2.2 _ _ image hdecode hformat hwarning hstored 20 _ (by decide) hchange "bare.woz"⟩

end AppleII.Disk
