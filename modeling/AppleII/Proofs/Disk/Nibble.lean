import AppleII.Disk.Nibble
import AppleII.Proofs.Byte

/-!
# Sectors survive their encoding

`decodeSector?_encodeSector`: the 343 nibbles of a sector stand for that sector.  The nibbles of a row
of values form a chain (`chain`), which `unchain?` takes apart, and every byte is put together again
from its high bits and its share of a value of low bits.
-/

namespace AppleII.Disk

/-! ## The chain -/

/-- The nibbles of some values, each combined with the value before it. -/
def chain : UInt8 → List UInt8 → List UInt8
  | _, [] => []
  | previous, v :: vs => nibbleOf (v ^^^ previous) :: chain v vs

theorem valueOf?_nibbles (i : Fin 64) : valueOf? nibbles[i] = some i.val.toUInt8 := by
  revert i
  decide

theorem valueOf?_nibbleOf (v : UInt8) (h : v < 64) : valueOf? (nibbleOf v) = some v := by
  have hv : v.toNat < 64 := h
  have hmod : v.toNat % 64 = v.toNat := Nat.mod_eq_of_lt hv
  have hi := valueOf?_nibbles ⟨v.toNat, hv⟩
  unfold nibbleOf
  simp only [hmod]
  simpa using hi

theorem xor_lt_64 {a b : UInt8} (ha : a < 64) (hb : b < 64) : a ^^^ b < 64 := by
  have h : a.toNat ^^^ b.toNat < 2 ^ 6 := Nat.xor_lt_two_pow ha hb
  rwa [UInt8.lt_iff_toNat_lt, UInt8.toNat_xor]

/-- A chain of six-bit values is taken apart into these values. -/
theorem unchain?_chain (previous : UInt8) (values : List UInt8) (hp : previous < 64)
    (hv : ∀ v ∈ values, v < 64) : unchain? previous (chain previous values) = some values := by
  induction values generalizing previous with
  | nil => rfl
  | cons v vs ih =>
    have hlt : v < 64 := hv v List.mem_cons_self
    have hrest := ih v hlt fun w hw => hv w (List.mem_cons_of_mem _ hw)
    have hback : v ^^^ previous ^^^ previous = v := by rw [UInt8.xor_assoc, UInt8.xor_self, UInt8.xor_zero]
    simp only [chain, unchain?, valueOf?_nibbleOf _ (xor_lt_64 hlt hp)]
    show (unchain? (v ^^^ previous ^^^ previous) (chain v vs) >>= fun ws =>
      some ((v ^^^ previous ^^^ previous) :: ws)) = some (v :: vs)
    rw [hback, hrest]
    rfl

theorem length_chain (previous : UInt8) (values : List UInt8) :
    (chain previous values).length = values.length := by
  induction values generalizing previous with
  | nil => rfl
  | cons v vs ih => simp only [chain, List.length_cons, ih]

theorem getElem_chain (previous : UInt8) (values : List UInt8) (i : Nat)
    (hi : i < (chain previous values).length) :
    (chain previous values)[i] =
      nibbleOf (values.getD i 0 ^^^ if i = 0 then previous else values.getD (i - 1) 0) := by
  induction values generalizing previous i with
  | nil => cases hi
  | cons v vs ih =>
    cases i with
    | zero => rfl
    | succ i =>
      simp only [chain, List.getElem_cons_succ, ih]
      cases i <;> simp

/-! ## The values of a sector -/

theorem swapLow_lt (b : UInt8) : swapLow b < 4 := by
  revert b
  exact forall_byte (by decide +kernel)

/-- The high bits of a byte and its two low bits make the byte again. -/
theorem join_swapLow (b : UInt8) : (b >>> 2 <<< 2) ||| swapLow (swapLow b) = b := by
  revert b
  exact forall_byte (by decide +kernel)

theorem high_lt_64 (b : UInt8) : b >>> 2 < 64 := by
  have hb : b.toNat < 256 := b.toNat_lt
  rw [UInt8.lt_iff_toNat_lt, UInt8.toNat_shiftRight]
  show b.toNat >>> 2 < 64
  rw [Nat.shiftRight_eq_div_pow]
  omega

/-- A value of low bits is a six-bit value, and each of its three parts is found again. -/
theorem low_parts (a b c : UInt8) (ha : a < 4) (hb : b < 4) (hc : c < 4) :
    let v := a ||| (b <<< 2) ||| (c <<< 4)
    v < 64 ∧ v >>> 0 &&& 0x03 = a ∧ v >>> 2 &&& 0x03 = b ∧ v >>> 4 &&& 0x03 = c := by
  have key : ∀ i j k : Fin 4,
      let v := i.val.toUInt8 ||| (j.val.toUInt8 <<< 2) ||| (k.val.toUInt8 <<< 4)
      v < 64 ∧ v >>> 0 &&& 0x03 = i.val.toUInt8 ∧ v >>> 2 &&& 0x03 = j.val.toUInt8 ∧
        v >>> 4 &&& 0x03 = k.val.toUInt8 := by decide
  have h := key ⟨a.toNat, ha⟩ ⟨b.toNat, hb⟩ ⟨c.toNat, hc⟩
  simpa using h

theorem sectorValues_lt_64 (data : Vector UInt8 sectorSize) (i : Nat) (hi : i < valueCount) :
    (sectorValues data)[i] < 64 := by
  simp only [sectorValues, Vector.getElem_ofFn]
  split
  · exact (low_parts _ _ _ (swapLow_lt _) (swapLow_lt _) (swapLow_lt _)).1
  · exact high_lt_64 _

/-- The values with the zero that closes the chain. -/
theorem getD_closedValues (data : Vector UInt8 sectorSize) (i : Nat) :
    ((sectorValues data).toList ++ [0]).getD i 0 = chainValue (sectorValues data) i := by
  unfold chainValue
  by_cases hi : i < valueCount
  · simp [hi, List.getElem?_append_left]
  · have hlen : (sectorValues data).toList.length ≤ i := by simp; omega
    have hnone : (sectorValues data)[i]? = none := by simp; omega
    rw [List.getD_eq_getElem?_getD, List.getElem?_append_right hlen, hnone]
    cases i - (sectorValues data).toList.length <;> simp

/-- The nibbles of a sector are the chain of its values, closed by zero. -/
theorem encodeSector_toList (data : Vector UInt8 sectorSize) :
    (encodeSector data).toList = chain 0 ((sectorValues data).toList ++ [0]) := by
  refine List.ext_getElem (by simp [length_chain]) fun i hi hi' => ?_
  rw [getElem_chain]
  simp only [encodeSector, Vector.getElem_toList, Vector.getElem_ofFn, getD_closedValues]

theorem chainValue_high (data : Vector UInt8 sectorSize) {i : Nat} (hi : i < sectorSize) :
    chainValue (sectorValues data) (lowCount + i) = data[i] >>> 2 := by
  have hlt : lowCount + i < valueCount := Nat.add_lt_add_left hi lowCount
  have hnot : ¬ lowCount + i < lowCount := by omega
  unfold chainValue
  rw [Vector.getElem?_eq_getElem hlt]
  simp only [sectorValues, Vector.getElem_ofFn, if_neg hnot, Nat.add_sub_cancel_left, byteAt]
  rw [Vector.getElem?_eq_getElem hi]
  rfl

/-- The low bits of a byte are in the value of its place among 86, at the place of its third. -/
theorem chainValue_low (data : Vector UInt8 sectorSize) {j k : Nat} (hj : j < lowCount) (hk : k < 3) :
    chainValue (sectorValues data) j >>> (2 * k).toUInt8 &&& 0x03 = swapLow (byteAt data (j + 86 * k)) := by
  have hlt : j < valueCount := Nat.lt_of_lt_of_le hj (by decide)
  obtain ⟨-, h0, h1, h2⟩ := low_parts _ _ _ (swapLow_lt (byteAt data j))
    (swapLow_lt (byteAt data (j + 86))) (swapLow_lt (byteAt data (j + 172)))
  unfold chainValue
  rw [Vector.getElem?_eq_getElem hlt]
  simp only [sectorValues, Vector.getElem_ofFn, if_pos hj, Option.getD_some]
  match k, hk with
  | 0, _ => exact h0
  | 1, _ => exact h1
  | 2, _ => exact h2

/-- A byte is found again in the values of its sector. -/
theorem sectorByte_sectorValues (data : Vector UInt8 sectorSize) (i : Nat) (hi : i < sectorSize) :
    sectorByte ((sectorValues data).toList ++ [0]) i = data[i] := by
  have hk : i / lowCount < 3 := Nat.div_lt_of_lt_mul (Nat.lt_of_lt_of_le hi (by decide))
  have hi' : i % lowCount + 86 * (i / lowCount) = i := Nat.mod_add_div i 86
  have hlow := chainValue_low data (Nat.mod_lt i (by decide : lowCount > 0)) hk
  have hbyte : byteAt data i = data[i] := by
    unfold byteAt
    rw [Vector.getElem?_eq_getElem hi]
    rfl
  rw [hi', hbyte] at hlow
  unfold sectorByte
  simp only [getD_closedValues, chainValue_high data hi, hlow, join_swapLow]

/-- What a closed chain of values stands for. -/
theorem decodeSector?_eq_some {encoded : Vector UInt8 nibbleCount} {values : List UInt8}
    (hvalues : unchain? 0 encoded.toList = some values) (hlast : values.getLast? = some 0) :
    decodeSector? encoded = some (Vector.ofFn fun i => sectorByte values i.val) := by
  unfold decodeSector?
  rw [hvalues]
  simp only [Option.bind_eq_bind, Option.bind_some, hlast, beq_self_eq_true, if_true]
  rfl

/-- **Six-and-two.** The nibbles of a sector stand for that sector. -/
theorem decodeSector?_encodeSector (data : Vector UInt8 sectorSize) :
    decodeSector? (encodeSector data) = some data := by
  have hvalues : ∀ v ∈ (sectorValues data).toList ++ [0], v < 64 := by
    intro v hv
    rcases List.mem_append.mp hv with hv | hv
    · obtain ⟨i, hi, rfl⟩ := Vector.mem_iff_getElem.mp (Vector.mem_toList_iff.mp hv)
      exact sectorValues_lt_64 data i hi
    · rw [List.mem_singleton.mp hv]
      decide
  have hunchain : unchain? 0 (encodeSector data).toList = some ((sectorValues data).toList ++ [0]) := by
    rw [encodeSector_toList]
    exact unchain?_chain 0 _ (by decide) hvalues
  rw [decodeSector?_eq_some hunchain List.getLast?_concat]
  refine congrArg some (Vector.ext fun i hi => ?_)
  rw [Vector.getElem_ofFn]
  exact sectorByte_sectorValues data i hi

end AppleII.Disk
