import AppleII.Bytes
import AppleII.Proofs.Slice

/-!
# Words in rows of bytes

A row of bytes that has the bytes of a number at some place has that number there as a word.  `number`
reads a number of any length, wherever the row ends.
-/

namespace AppleII.Bytes

theorem length_ofNat (n v : Nat) : (ofNat n v).length = n := by
  induction n generalizing v with
  | zero => rfl
  | succ n ih => simp only [ofNat, List.length_cons, ih]

theorem word16_of_hasAt {b : Array UInt8} {i v : Nat} (hi : i + 1 < b.size) (hv : v < 0x10000)
    (h : HasAt b.toList i (ofNat 2 v)) : word16 b i hi = v := by
  have h0 := h 0 (by rw [length_ofNat]; decide)
  have h1 := h 1 (by rw [length_ofNat]; decide)
  simp only [Array.getElem?_toList, Nat.add_zero, Array.getElem?_eq_getElem hi,
    Array.getElem?_eq_getElem (Nat.lt_of_succ_lt hi)] at h0 h1
  unfold word16
  rw [Option.some.inj h0, Option.some.inj h1]
  simp only [Nat.toUInt8_eq, UInt8.toNat_ofNat']
  omega

theorem word32_of_hasAt {b : Array UInt8} {i v : Nat} (hi : i + 3 < b.size) (hv : v < 0x100000000)
    (h : HasAt b.toList i (ofNat 4 v)) : word32 b i hi = v := by
  have h0 := h 0 (by rw [length_ofNat]; decide)
  have h1 := h 1 (by rw [length_ofNat]; decide)
  have h2 := h 2 (by rw [length_ofNat]; decide)
  have h3 := h 3 (by rw [length_ofNat]; decide)
  simp only [Array.getElem?_toList, Nat.add_zero, Array.getElem?_eq_getElem hi,
    Array.getElem?_eq_getElem (show i < b.size by omega),
    Array.getElem?_eq_getElem (show i + 1 < b.size by omega),
    Array.getElem?_eq_getElem (show i + 2 < b.size by omega)] at h0 h1 h2 h3
  unfold word32
  rw [Option.some.inj h0, Option.some.inj h1, Option.some.inj h2, Option.some.inj h3]
  simp only [Nat.toUInt8_eq, UInt8.toNat_ofNat']
  omega

/-- The number in the `n` bytes from a place on, lowest byte first; past the end there are zeros. -/
def number : Nat → Array UInt8 → Nat → Nat
  | 0, _, _ => 0
  | n + 1, b, i => (b.getD i 0).toNat + 0x100 * number n b (i + 1)

theorem word16_eq_number {b : Array UInt8} {i : Nat} (hi : i + 1 < b.size) : word16 b i hi = number 2 b i := by
  simp only [word16, number, Array.getD_eq_getD_getElem?, Array.getElem?_eq_getElem hi,
    Array.getElem?_eq_getElem (Nat.lt_of_succ_lt hi), Option.getD_some]
  omega

theorem word32_eq_number {b : Array UInt8} {i : Nat} (hi : i + 3 < b.size) : word32 b i hi = number 4 b i := by
  simp only [word32, number, Nat.add_assoc, Nat.reduceAdd, Array.getD_eq_getD_getElem?,
    Array.getElem?_eq_getElem hi, Array.getElem?_eq_getElem (show i < b.size by omega),
    Array.getElem?_eq_getElem (show i + 1 < b.size by omega),
    Array.getElem?_eq_getElem (show i + 2 < b.size by omega), Option.getD_some]
  omega

/-- The same bytes make the same number. -/
theorem number_congr {b b' : Array UInt8} {n i : Nat} (h : ∀ k < n, b'[i + k]? = b[i + k]?) :
    number n b' i = number n b i := by
  induction n generalizing i with
  | zero => rfl
  | succ n ih =>
    have hfirst : b'[i]? = b[i]? := h 0 (Nat.succ_pos n)
    have hrest := ih (i := i + 1) fun k hk => by
      have hnext := h (k + 1) (Nat.succ_lt_succ hk)
      rwa [show i + (k + 1) = i + 1 + k by omega] at hnext
    rw [number, number, hrest, Array.getD_eq_getD_getElem?, hfirst, Array.getD_eq_getD_getElem?]

/-- The same bytes make the same word. -/
theorem word16_congr {b b' : Array UInt8} {i : Nat} (hi : i + 1 < b.size) (hi' : i + 1 < b'.size)
    (h : ∀ k < 2, b'[i + k]? = b[i + k]?) : word16 b' i hi' = word16 b i hi := by
  rw [word16_eq_number, word16_eq_number, number_congr h]

theorem word32_congr {b b' : Array UInt8} {i : Nat} (hi : i + 3 < b.size) (hi' : i + 3 < b'.size)
    (h : ∀ k < 4, b'[i + k]? = b[i + k]?) : word32 b' i hi' = word32 b i hi := by
  rw [word32_eq_number, word32_eq_number, number_congr h]

end AppleII.Bytes
