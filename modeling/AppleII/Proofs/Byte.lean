/-!
# Bytes, bit by bit
-/

namespace AppleII

/-- A property of bytes that all 256 of them have. -/
theorem forall_byte {P : UInt8 → Prop} [DecidablePred P]
    (h : (List.range 256).all fun n => decide (P (UInt8.ofNat n))) (b : UInt8) : P b := by
  have hb := List.all_eq_true.mp h b.toNat (List.mem_range.mpr b.toNat_lt)
  rw [UInt8.ofNat_toNat] at hb
  exact of_decide_eq_true hb

/-- Bytes with the same bits are equal. -/
theorem byte_ext {a b : UInt8} (h : ∀ i (_ : i < 8), a.toBitVec[i] = b.toBitVec[i]) : a = b := by
  apply UInt8.eq_of_toBitVec_eq
  ext i hi
  exact h i hi

end AppleII
