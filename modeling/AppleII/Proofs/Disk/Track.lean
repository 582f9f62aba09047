import AppleII.Disk.Drive

/-!
# Tracks as bits

`bitsAt_packBits`: the bytes that a row of bits is packed into have these bits.  A formatted track is
6192 items and 50304 bits long, whatever its sectors hold.
-/

namespace AppleII.Disk

open TrackItem (allBits prependBits)

/-- From a byte on, some bytes have the given bits. -/
def BitsAt (bytes : Array UInt8) (start : Nat) (bits : List Bool) : Prop :=
  ∀ i (hi : i < bits.length), ∃ b, bytes[start + i / 8]? = some b ∧
    (b &&& Drive.bitMask (i % 8).toUInt8 != 0) = bits[i]

/-! ## Packing -/

/-- A byte has the bits that it is made of. -/
theorem bit_byteOf (f : Nat → Bool) {i : Nat} (hi : i < 8) :
    (packBits.byteOf (f 0) (f 1) (f 2) (f 3) (f 4) (f 5) (f 6) (f 7) &&&
      Drive.bitMask i.toUInt8 != 0) = f i := by
  have key : ∀ (a b c d e f g h : Bool) (i : Fin 8),
      (packBits.byteOf a b c d e f g h &&& Drive.bitMask i.val.toUInt8 != 0) =
        [a, b, c, d, e, f, g, h].getD i.val false := by decide +kernel
  rw [key _ _ _ _ _ _ _ _ ⟨i, hi⟩]
  have hcases : i = 0 ∨ i = 1 ∨ i = 2 ∨ i = 3 ∨ i = 4 ∨ i = 5 ∨ i = 6 ∨ i = 7 := by omega
  rcases hcases with rfl | rfl | rfl | rfl | rfl | rfl | rfl | rfl <;> rfl

theorem length_lt_eight {r : List Bool} (hr : ∀ a b c d e f g h r',
    r = a :: b :: c :: d :: e :: f :: g :: h :: r' → False) : r.length < 8 := by
  rcases r with _ | ⟨a, _ | ⟨b, _ | ⟨c, _ | ⟨d, _ | ⟨e, _ | ⟨f, _ | ⟨g, _ | ⟨h, r⟩⟩⟩⟩⟩⟩⟩⟩
  case cons.cons.cons.cons.cons.cons.cons.cons => exact (hr a b c d e f g h r rfl).elim
  all_goals simp

theorem size_packBits (acc : Array UInt8) (bits : List Bool) :
    (packBits acc bits).size = acc.size + bytesFor bits.length := by
  unfold bytesFor
  fun_induction packBits acc bits with
  | case1 acc a b c d e f g h r ih =>
    rw [ih, Array.size_push]
    simp only [List.length_cons]
    omega
  | case2 acc => rfl
  | case3 acc r hr hne =>
    have hlt := length_lt_eight hr
    have hpos : 0 < r.length := List.length_pos_iff.mpr hne
    rw [Array.size_push]
    omega

/-- What is packed already stays where it is. -/
theorem getElem?_packBits_of_lt (acc : Array UInt8) (bits : List Bool) {j : Nat} (hj : j < acc.size) :
    (packBits acc bits)[j]? = acc[j]? := by
  fun_induction packBits acc bits with
  | case1 acc a b c d e f g h r ih =>
    rw [ih (by rw [Array.size_push]; omega), Array.getElem?_push_lt hj, Array.getElem?_eq_getElem hj]
  | case2 acc => rfl
  | case3 acc r hr hne => rw [Array.getElem?_push_lt hj, Array.getElem?_eq_getElem hj]

/-- **Packing.** The bytes that some bits are packed into have these bits. -/
theorem bitsAt_packBits (acc : Array UInt8) (bits : List Bool) :
    BitsAt (packBits acc bits) acc.size bits := by
  fun_induction packBits acc bits with
  | case1 acc a b c d e f g h r ih =>
    intro i hi
    by_cases hlt : i < 8
    · have hbyte : (packBits (acc.push (packBits.byteOf a b c d e f g h)) r)[acc.size]? =
          some (packBits.byteOf a b c d e f g h) := by
        rw [getElem?_packBits_of_lt _ _ (by simp)]
        simp
      have hzero : acc.size + i / 8 = acc.size := by omega
      refine ⟨_, by rw [hzero, hbyte], ?_⟩
      have hbit := bit_byteOf (fun j => (a :: b :: c :: d :: e :: f :: g :: h :: r).getD j false) hlt
      rw [Nat.mod_eq_of_lt hlt, List.getElem_eq_getD false]
      exact hbit
    · obtain ⟨k, rfl⟩ : ∃ k, i = k + 8 := ⟨i - 8, by omega⟩
      have hk : k < r.length := by simp only [List.length_cons] at hi; omega
      obtain ⟨v, hv, hbit⟩ := ih k hk
      have hsize : acc.size + (k + 8) / 8 = (acc.push (packBits.byteOf a b c d e f g h)).size + k / 8 := by
        rw [Array.size_push]
        omega
      refine ⟨v, by rw [hsize, hv], ?_⟩
      rw [Nat.add_mod_right, hbit]
      rfl
  | case2 acc =>
    intro i hi
    cases hi
  | case3 acc r hr hne bit =>
    intro i hi
    have hlt := length_lt_eight hr
    have hi' : i < 8 := by omega
    have hzero : acc.size + i / 8 = acc.size := by omega
    refine ⟨_, by rw [hzero, Array.getElem?_push_size], ?_⟩
    have hget : bit i = r[i] := by simp [bit, hi]
    rw [Nat.mod_eq_of_lt hi', bit_byteOf bit hi', hget]

/-! ## Lengths -/

theorem length_prependBits (b : UInt8) (r : List Bool) : (prependBits b r).length = r.length + 8 := rfl

/-- Every item is eight bits long, and a synchronising one has two bits more. -/
theorem length_allBits (items : List TrackItem) :
    (allBits items).length = 8 * items.length + 2 * items.count .sync := by
  induction items with
  | nil => rfl
  | cons i items ih =>
    cases i with
    | byte b =>
      simp only [allBits, length_prependBits, ih, List.length_cons]
      rw [List.count_cons_of_ne (by simp)]
      omega
    | sync =>
      simp only [allBits, length_prependBits, ih, List.length_cons]
      rw [List.count_cons_self]
      omega

/-- The number of items of a sector. -/
def sectorItemCount : Nat := 386

/-- The number of items of a track. -/
def trackItemCount : Nat := 16 + 16 * sectorItemCount

/-- The number of bits of a track. -/
def trackBitCount : Nat := 50304

theorem length_sectorItems (track sector : UInt8) (data : Vector UInt8 sectorSize) :
    (sectorItems track sector data).length = sectorItemCount := by
  simp [sectorItems, addressField, dataField, fourAndFour, sectorItemCount]

theorem count_sectorItems (track sector : UInt8) (data : Vector UInt8 sectorSize) :
    (sectorItems track sector data).count .sync = 23 := by
  have hbytes : ∀ l : List UInt8, (l.map TrackItem.byte).count .sync = 0 := by
    intro l
    rw [List.count_eq_zero]
    simp
  unfold sectorItems
  simp only [List.count_append, hbytes, List.count_replicate_self]

theorem length_trackItems (track : UInt8) (data : Fin 16 → Vector UInt8 sectorSize) :
    (trackItems track data).length = trackItemCount := by
  unfold trackItems trackItemCount
  rw [List.length_append, List.length_replicate, List.length_flatMap]
  simp only [length_sectorItems, List.map_const', List.length_finRange, List.sum_replicate_nat]

theorem length_allBits_trackItems (track : UInt8) (data : Fin 16 → Vector UInt8 sectorSize) :
    (allBits (trackItems track data)).length = trackBitCount := by
  rw [length_allBits, length_trackItems]
  unfold trackItems
  rw [List.count_append, List.count_replicate_self, List.count_flatMap]
  simp only [Function.comp_def, count_sectorItems, List.map_const', List.length_finRange,
    List.sum_replicate_nat]
  rfl

end AppleII.Disk
