import AppleII.Disk.Image
import AppleII.Proofs.Bytes

/-!
# Checksums of containers

A container whose checksum was computed anew passes the check (`checkChecksum_updateChecksum`), and
nothing but its four bytes of checksum has changed.
-/

namespace AppleII.Disk

@[simp] theorem size_updateChecksum (image : Array UInt8) : (updateChecksum image).size = image.size := by
  unfold updateChecksum
  split
  · rfl
  · simp

/-- Every byte but those of the checksum stays as it is. -/
theorem getElem?_updateChecksum (image : Array UInt8) {i : Nat} (hi : i < checksumOffset ∨ checkedOffset ≤ i) :
    (updateChecksum image)[i]? = image[i]? := by
  have hi' : i < 8 ∨ 12 ≤ i := hi
  unfold updateChecksum
  split
  · rfl
  · simp only
    rw [Array.getElem?_setIfInBounds_ne (by omega), Array.getElem?_setIfInBounds_ne (by omega),
      Array.getElem?_setIfInBounds_ne (by omega), Array.getElem?_setIfInBounds_ne (by omega)]

theorem hasAt_updateChecksum {image : Array UInt8} {i : Nat} {s : List UInt8} (h : HasAt image.toList i s)
    (hi : checkedOffset ≤ i) : HasAt (updateChecksum image).toList i s := by
  intro k hk
  rw [Array.getElem?_toList, getElem?_updateChecksum image (.inr (by omega)), ← Array.getElem?_toList]
  exact h k hk

theorem containerChecksum_updateChecksum (image : Array UInt8) :
    containerChecksum (updateChecksum image) = containerChecksum image := by
  unfold containerChecksum
  rw [size_updateChecksum]
  refine congrArg _ (Array.ext_getElem? fun i => ?_)
  rw [Array.getElem?_extract, Array.getElem?_extract, size_updateChecksum,
    getElem?_updateChecksum image (.inr (Nat.le_add_right _ _))]

/-- The four bytes of a word are those of its number. -/
theorem bytes_of_word (w : UInt32) :
    Bytes.ofNat 4 w.toNat = [w.toUInt8, (w >>> 8).toUInt8, (w >>> 16).toUInt8, (w >>> 24).toUInt8] := by
  simp only [Bytes.ofNat, Nat.toUInt8_eq, List.cons.injEq, and_true]
  refine ⟨?_, ?_, ?_, ?_⟩ <;> apply UInt8.toNat_inj.mp <;>
    simp only [UInt8.toNat_ofNat', UInt32.toNat_toUInt8, UInt32.toNat_shiftRight, Nat.shiftRight_eq_div_pow]
  · omega
  · show w.toNat / 256 % 256 % 256 = w.toNat / 256 % 256
    omega
  · show w.toNat / 256 / 256 % 256 % 256 = w.toNat / 65536 % 256
    omega
  · show w.toNat / 256 / 256 / 256 % 256 % 256 = w.toNat / 16777216 % 256
    omega

/-- The checksum is stored at its place. -/
theorem hasAt_checksum {image : Array UInt8} (h : checkedOffset ≤ image.size) :
    HasAt (updateChecksum image).toList checksumOffset (Bytes.ofNat 4 (containerChecksum image).toNat) := by
  have hsize : 12 ≤ image.size := h
  rw [bytes_of_word]
  unfold updateChecksum
  rw [if_neg (Nat.not_lt.mpr h)]
  intro k hk
  have hcases : k = 0 ∨ k = 1 ∨ k = 2 ∨ k = 3 := by
    simp only [List.length_cons, List.length_nil] at hk
    omega
  simp only [Array.getElem?_toList, checksumOffset]
  rcases hcases with rfl | rfl | rfl | rfl
  · simp [show 8 < image.size by omega]
  · simp [show 9 < image.size by omega]
  · simp [show 10 < image.size by omega]
  · simp [show 11 < image.size by omega]

/-- A checksum that is computed anew twice is the same both times. -/
theorem updateChecksum_updateChecksum (image : Array UInt8) :
    updateChecksum (updateChecksum image) = updateChecksum image := by
  by_cases hsize : image.size < checkedOffset
  · have hkeep : updateChecksum image = image := by
      unfold updateChecksum
      rw [if_pos hsize]
    rw [hkeep, hkeep]
  · have hle : checkedOffset ≤ image.size := Nat.le_of_not_lt hsize
    refine Array.ext_getElem? fun i => ?_
    by_cases hi : i < checksumOffset ∨ checkedOffset ≤ i
    · exact getElem?_updateChecksum (updateChecksum image) hi
    · -- A byte of the checksum: both containers store the checksum of the first one.
      have hfirst := hasAt_checksum hle
      have hsecond := @hasAt_checksum (updateChecksum image) (by rwa [size_updateChecksum])
      rw [containerChecksum_updateChecksum] at hsecond
      have hk : i - checksumOffset < (Bytes.ofNat 4 (containerChecksum image).toNat).length := by
        rw [Bytes.length_ofNat]
        simp only [checksumOffset, checkedOffset] at *
        omega
      have hsame := (hsecond _ hk).trans (hfirst _ hk).symm
      rw [Array.getElem?_toList, Array.getElem?_toList, Nat.add_sub_cancel' (by omega)] at hsame
      exact hsame

/-- **A checksum that was computed anew fits.** -/
theorem checkChecksum_updateChecksum (image : Array UInt8) :
    Image.checkChecksum (updateChecksum image) = none := by
  unfold Image.checkChecksum
  by_cases h : (updateChecksum image).size < checkedOffset
  · rw [dif_pos h]
  · rw [size_updateChecksum] at h
    have hword := Bytes.word32_of_hasAt (b := updateChecksum image) (i := checksumOffset)
      (by rw [size_updateChecksum]; simp only [checkedOffset, checksumOffset] at *; omega)
      (containerChecksum image).toNat_lt (hasAt_checksum (Nat.le_of_not_lt h))
    rw [dif_neg (by rwa [size_updateChecksum])]
    simp only [hword, containerChecksum_updateChecksum]
    split
    · rfl
    · simp

end AppleII.Disk
