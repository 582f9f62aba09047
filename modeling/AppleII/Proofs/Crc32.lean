import AppleII.Crc32
import AppleII.Proofs.Byte
import Mathlib.Logic.Function.Iterate

/-!
# The check value a bit at a time

The table is a short cut: the check value is the one that a shift register computes from the bits of the
message (`checksum_eq_serial`).  Up to 32 bits of a message only add to the register before it moves
(`foldl_feed`), and it moves without loss, so different bytes in the same four places are told apart
(`eq_of_checksum_eq`).
-/

namespace AppleII.Crc32

/-! ## The register -/

/-- The register after one more bit of the message: it moves down, and the polynomial is taken off if the
bit that leaves it and the bit of the message differ. -/
def feed (r : BitVec 32) (bit : Bool) : BitVec 32 :=
  if r[0] ^^ bit then 0xEDB88320#32 ^^^ r >>> 1 else r >>> 1

/-- The bits of a byte, the lowest one first. -/
def bitsOf (b : UInt8) : List Bool := (List.range 8).map b.toBitVec.getLsbD

/-- The check value of a row of bytes, computed a bit at a time. -/
def serial (bytes : List UInt8) : UInt32 :=
  .ofBitVec (~~~(bytes.flatMap bitsOf).foldl feed (BitVec.allOnes 32))

/-- The row of bits as a register, the first bit lowest. -/
def register (bits : List Bool) : BitVec 32 := (BitVec.ofBoolListLE bits).setWidth 32

theorem getLsbD_register (bits : List Bool) (i : Nat) :
    (register bits).getLsbD i = (decide (i < 32) && bits.getD i false) := by
  rw [register, BitVec.getLsbD_setWidth, BitVec.getLsbD_ofBoolListLE]

theorem register_cons (bit : Bool) (bits : List Bool) :
    register (bit :: bits) = register bits <<< 1 ^^^ register [bit] := by
  refine BitVec.eq_of_getLsbD_eq fun i hi => ?_
  rw [BitVec.getLsbD_xor, BitVec.getLsbD_shiftLeft, getLsbD_register, getLsbD_register, getLsbD_register]
  cases i with
  | zero => simp
  | succ i => simp [hi, show i < 32 by omega]

theorem register_bitsOf (b : UInt8) : register (bitsOf b) = b.toBitVec.setWidth 32 := by
  refine BitVec.eq_of_getLsbD_eq fun i hi => ?_
  rw [getLsbD_register, BitVec.getLsbD_setWidth]
  by_cases h8 : i < 8
  · simp [bitsOf, List.getD, h8]
  · have hbig : b.toBitVec.getLsbD i = false := BitVec.getLsbD_of_ge _ _ (Nat.le_of_not_lt h8)
    simp [bitsOf, List.getD, h8, hbig]

/-- Every bit of the register after one more bit of the message. -/
theorem getLsbD_feed (r : BitVec 32) (bit : Bool) (i : Nat) : (feed r bit).getLsbD i =
    (((r.getLsbD 0 ^^ bit) && (0xEDB88320#32).getLsbD i) ^^ r.getLsbD (i + 1)) := by
  unfold feed
  rw [show r[0] = r.getLsbD 0 from rfl]
  cases hbit : r.getLsbD 0 ^^ bit
  · simp [Nat.add_comm]
  · simp [Nat.add_comm]

/-- A bit of the message counts as one of the register. -/
theorem feed_eq (r : BitVec 32) (bit : Bool) : feed r bit = feed (r ^^^ register [bit]) false := by
  refine BitVec.eq_of_getLsbD_eq fun i hi => ?_
  rw [getLsbD_feed, getLsbD_feed, BitVec.getLsbD_xor, BitVec.getLsbD_xor, getLsbD_register, getLsbD_register]
  simp

/-- The register is linear in exclusive or. -/
theorem feed_xor (r s : BitVec 32) : feed (r ^^^ s) false = feed r false ^^^ feed s false := by
  refine BitVec.eq_of_getLsbD_eq fun i hi => ?_
  simp only [getLsbD_feed, BitVec.getLsbD_xor, Bool.xor_false]
  cases r.getLsbD 0 <;> cases s.getLsbD 0 <;> cases (0xEDB88320#32).getLsbD i <;> simp

/-- A register whose bits were all moved up by one moves down again. -/
theorem feed_shiftLeft {r : BitVec 32} (h : r.getLsbD 31 = false) : feed (r <<< 1) false = r := by
  refine BitVec.eq_of_getLsbD_eq fun i hi => ?_
  rw [getLsbD_feed, BitVec.getLsbD_shiftLeft, BitVec.getLsbD_shiftLeft]
  by_cases hlast : i = 31
  · subst hlast
    rw [h]
    simp
  · simp [show i + 1 < 32 by omega]

/-- No register is lost: the highest bit tells whether the polynomial was taken off. -/
theorem feed_injective {r s : BitVec 32} (h : feed r false = feed s false) : r = s := by
  have hbit (i : Nat) := congrArg (fun x : BitVec 32 => x.getLsbD i) h
  simp only [getLsbD_feed, Bool.xor_false] at hbit
  have hlow : r.getLsbD 0 = s.getLsbD 0 := by
    have hpoly : (0xEDB88320#32).getLsbD 31 = true := rfl
    have htop := hbit 31
    rwa [hpoly, BitVec.getLsbD_of_ge r 32 (by decide), BitVec.getLsbD_of_ge s 32 (by decide), Bool.and_true,
      Bool.and_true, Bool.xor_false, Bool.xor_false] at htop
  refine BitVec.eq_of_getLsbD_eq fun i hi => ?_
  cases i with
  | zero => exact hlow
  | succ i =>
    have hnext := hbit i
    rw [hlow] at hnext
    exact Bool.xor_right_inj.mp hnext

/-- The register after `n` bits of a message that are all 0. -/
abbrev idle (n : Nat) : BitVec 32 → BitVec 32 := (feed · false)^[n]

theorem idle_xor (n : Nat) (r s : BitVec 32) : idle n (r ^^^ s) = idle n r ^^^ idle n s := by
  induction n generalizing r s with
  | zero => rfl
  | succ n ih =>
    calc idle n (feed (r ^^^ s) false)
      _ = idle n (feed r false ^^^ feed s false) := by rw [feed_xor]
      _ = idle n (feed r false) ^^^ idle n (feed s false) := ih _ _

theorem idle_zero (n : Nat) : idle n 0#32 = 0#32 := by
  induction n with
  | zero => rfl
  | succ n ih => exact ih

theorem idle_injective (n : Nat) : Function.Injective (idle n) :=
  Function.Injective.iterate (fun _ _ => feed_injective) n

/-- A register whose bits were moved up, none of them out of it, moves down again. -/
theorem idle_shiftLeft {n : Nat} (hn : n ≤ 32) {r : BitVec 32} (h : ∀ i, 32 - n ≤ i → r.getLsbD i = false) :
    idle n (r <<< n) = r := by
  induction n with
  | zero => exact BitVec.shiftLeft_zero r
  | succ n ih =>
    have htop : (r <<< n).getLsbD 31 = false := by
      rw [BitVec.getLsbD_shiftLeft, h (31 - n) (by omega), Bool.and_false]
    calc idle n (feed (r <<< (n + 1)) false)
      _ = idle n (feed (r <<< n <<< 1) false) := by rw [← BitVec.shiftLeft_add]
      _ = idle n (r <<< n) := by rw [feed_shiftLeft htop]
      _ = r := ih (by omega) fun i hi => h i (by omega)

/-- **Up to 32 bits of a message count as bits of the register.** -/
theorem foldl_feed {bits : List Bool} (h : bits.length ≤ 32) (r : BitVec 32) :
    bits.foldl feed r = idle bits.length (r ^^^ register bits) := by
  induction bits generalizing r with
  | nil => exact (BitVec.xor_zero).symm
  | cons bit bits ih =>
    have hshort : bits.length < 32 := h
    have htop : (register bits).getLsbD 31 = false := by
      rw [getLsbD_register, List.getD_eq_getElem?_getD, List.getElem?_eq_none (by omega)]
      rfl
    have hfirst : feed r bit ^^^ register bits = feed (r ^^^ register (bit :: bits)) false :=
      calc feed r bit ^^^ register bits
        _ = feed (r ^^^ register [bit]) false ^^^ feed (register bits <<< 1) false := by
          rw [← feed_eq, feed_shiftLeft htop]
        _ = feed (r ^^^ register (bit :: bits)) false := by
          rw [← feed_xor, register_cons bit bits, BitVec.xor_assoc, BitVec.xor_comm (register [bit])]
    calc (bit :: bits).foldl feed r
      _ = idle bits.length (feed r bit ^^^ register bits) := ih (Nat.le_of_lt hshort) (feed r bit)
      _ = idle bits.length (feed (r ^^^ register (bit :: bits)) false) := by rw [hfirst]

/-- Different messages of the same length, of up to 32 bits, leave different registers. -/
theorem eq_of_foldl_feed {bits bits' : List Bool} (hlength : bits.length = bits'.length)
    (hshort : bits.length ≤ 32) {r : BitVec 32} (h : bits.foldl feed r = bits'.foldl feed r) : bits = bits' := by
  rw [foldl_feed hshort, foldl_feed (hlength ▸ hshort), ← hlength] at h
  have hregister : register bits = register bits' := (BitVec.xor_right_inj r).mp (idle_injective _ h)
  refine List.ext_getElem hlength fun i hi hi' => ?_
  have hbit := congrArg (fun x : BitVec 32 => x.getLsbD i) hregister
  simp only [getLsbD_register, List.getD_eq_getElem?_getD, List.getElem?_eq_getElem hi,
    List.getElem?_eq_getElem hi', Option.getD_some] at hbit
  simpa [show i < 32 by omega] using hbit

/-- Different registers stay different, whatever message comes. -/
theorem foldl_feed_injective (bits : List Bool) {r s : BitVec 32} (h : bits.foldl feed r = bits.foldl feed s) :
    r = s := by
  induction bits generalizing r s with
  | nil => exact h
  | cons bit bits ih =>
    have hone := ih h
    rw [feed_eq r, feed_eq s] at hone
    exact (BitVec.xor_left_inj (register [bit])).mp (feed_injective hone)

/-! ## A byte at a time -/

theorem toBitVec_shift (r : UInt32) : (shift r).toBitVec = feed r.toBitVec false := by
  have hlow : (r &&& 1 != 0) = r.toBitVec.getLsbD 0 := by
    have hone : (r &&& 1).toBitVec = (BitVec.ofBool (r.toBitVec.getLsbD 0)).setWidth 32 :=
      BitVec.and_one_eq_setWidth_ofBool_getLsbD
    rw [Bool.eq_iff_iff, bne_iff_ne, ne_eq, ← UInt32.toBitVec_inj, hone]
    cases r.toBitVec.getLsbD 0 <;> decide
  unfold shift feed
  rw [hlow, Bool.xor_false, show r.toBitVec[0] = r.toBitVec.getLsbD 0 from rfl]
  split
  · rfl
  · rfl

theorem toBitVec_shifts (n : Nat) (r : UInt32) : (shifts n r).toBitVec = idle n r.toBitVec := by
  induction n generalizing r with
  | zero => rfl
  | succ n ih =>
    calc (shifts n (shift r)).toBitVec
      _ = idle n (shift r).toBitVec := ih (shift r)
      _ = idle n (feed r.toBitVec false) := by rw [toBitVec_shift]

/-- Every word of the table is its index after eight bits have left it. -/
theorem toBitVec_table (i : UInt8) :
    (getElem table i.toNat i.toNat_lt).toBitVec = idle 8 (i.toBitVec.setWidth 32) := by
  unfold table
  rw [Vector.getElem_ofFn, toBitVec_shifts]
  exact congrArg (fun w : UInt32 => idle 8 w.toBitVec) (UInt32.ofNat_uInt8ToNat i)

theorem length_bitsOf (b : UInt8) : (bitsOf b).length = 8 := by
  rw [bitsOf, List.length_map, List.length_range]

theorem bitsOf_injective {b c : UInt8} (h : bitsOf b = bitsOf c) : b = c := by
  refine byte_ext fun i hi => ?_
  have hbit := congrArg (fun bits => bits[i]?) h
  simpa [bitsOf, hi] using hbit

/-- A register is its lowest byte and the rest. -/
theorem split_byte (x : BitVec 32) : x = (x.setWidth 8).setWidth 32 ^^^ x >>> 8 <<< 8 := by
  refine BitVec.eq_of_getLsbD_eq fun i hi => ?_
  simp only [BitVec.getLsbD_xor, BitVec.getLsbD_setWidth, BitVec.getLsbD_shiftLeft, BitVec.getLsbD_ushiftRight]
  by_cases h8 : i < 8
  · simp [h8, hi]
  · simp [h8, hi, Nat.add_sub_cancel' (Nat.le_of_not_lt h8)]

/-- A register of zeros stays one while zeros come. -/
theorem foldl_feed_zeros (n : Nat) : ((List.replicate n (0 : UInt8)).flatMap bitsOf).foldl feed 0#32 = 0#32 := by
  induction n with
  | zero => rfl
  | succ n ih =>
    have hbyte : (bitsOf 0).foldl feed 0#32 = 0#32 := by
      rw [foldl_feed (by rw [length_bitsOf]; decide), register_bitsOf]
      exact idle_zero _
    rw [List.replicate_succ, List.flatMap_cons, List.foldl_append, hbyte, ih]

/-- **A look at the table stands for the eight bits of a byte.** -/
theorem toBitVec_update (r : UInt32) (b : UInt8) :
    (update r b).toBitVec = (bitsOf b).foldl feed r.toBitVec := by
  let x : BitVec 32 := r.toBitVec ^^^ b.toBitVec.setWidth 32
  have hbyte : b.toBitVec.setWidth 32 >>> 8 = 0#32 := by
    refine BitVec.eq_of_getLsbD_eq fun i hi => ?_
    rw [BitVec.getLsbD_ushiftRight, BitVec.getLsbD_setWidth, BitVec.getLsbD_of_ge b.toBitVec _ (by omega)]
    simp
  have hhigh : x >>> 8 = r.toBitVec >>> 8 := by
    rw [BitVec.ushiftRight_xor_distrib, hbyte, BitVec.xor_zero]
  have hmoved : idle 8 (x >>> 8 <<< 8) = x >>> 8 := by
    refine idle_shiftLeft (by decide) fun i hi => ?_
    rw [BitVec.getLsbD_ushiftRight, BitVec.getLsbD_of_ge x _ (by omega)]
  calc (update r b).toBitVec
    _ = (getElem table (r ^^^ b.toUInt32).toUInt8.toNat (UInt8.toNat_lt _)).toBitVec ^^^ r.toBitVec >>> 8 := rfl
    _ = idle 8 ((x.setWidth 8).setWidth 32) ^^^ r.toBitVec >>> 8 := by rw [toBitVec_table]; rfl
    _ = idle 8 ((x.setWidth 8).setWidth 32) ^^^ idle 8 (x >>> 8 <<< 8) := by rw [hmoved, hhigh]
    _ = idle 8 x := by rw [← idle_xor, ← split_byte]
    _ = (bitsOf b).foldl feed r.toBitVec := by
      rw [foldl_feed (by rw [length_bitsOf]; decide), length_bitsOf, register_bitsOf]

/-- **The check value from the table is the one computed a bit at a time.** -/
theorem checksum_eq_serial (bytes : Array UInt8) : checksum bytes = serial bytes.toList := by
  have hfold (l : List UInt8) (r : UInt32) :
      (l.foldl update r).toBitVec = (l.flatMap bitsOf).foldl feed r.toBitVec := by
    induction l generalizing r with
    | nil => rfl
    | cons b l ih => rw [List.foldl_cons, ih, toBitVec_update, List.flatMap_cons, List.foldl_append]
  refine UInt32.eq_of_toBitVec_eq ?_
  unfold checksum serial
  rw [← Array.foldl_toList, UInt32.toBitVec_not, hfold]
  rfl

/-- The value that is given for codes of this kind as a check. -/
example : serial ("123456789".toList.map fun c => c.toNat.toUInt8) = 0xCBF43926 := by decide +kernel

/-! ## Changes of four bytes -/

theorem length_flatMap_bitsOf (bytes : List UInt8) : (bytes.flatMap bitsOf).length = 8 * bytes.length := by
  induction bytes with
  | nil => rfl
  | cons b bytes ih =>
    rw [List.flatMap_cons, List.length_append, length_bitsOf, ih, List.length_cons]
    omega

theorem flatMap_bitsOf_injective {bytes bytes' : List UInt8}
    (h : bytes.flatMap bitsOf = bytes'.flatMap bitsOf) : bytes = bytes' := by
  have hlength := congrArg List.length h
  rw [length_flatMap_bitsOf, length_flatMap_bitsOf] at hlength
  induction bytes generalizing bytes' with
  | nil => exact (List.eq_nil_of_length_eq_zero (by simp only [List.length_nil] at hlength; omega)).symm
  | cons b bytes ih =>
    cases bytes' with
    | nil => simp only [List.length_cons, List.length_nil] at hlength; omega
    | cons b' bytes' =>
      have hhead : (bitsOf b).length = (bitsOf b').length := by rw [length_bitsOf, length_bitsOf]
      obtain ⟨hb, hrest⟩ := List.append_inj h hhead
      rw [bitsOf_injective hb, ih hrest (by simp only [List.length_cons] at hlength; omega)]

/-- **Different bytes in the same four places give different check values.** -/
theorem eq_of_checksum_eq {before after bytes bytes' : List UInt8} (hlength : bytes.length = bytes'.length)
    (hshort : bytes.length ≤ 4)
    (h : checksum (before ++ bytes ++ after).toArray = checksum (before ++ bytes' ++ after).toArray) :
    bytes = bytes' := by
  rw [checksum_eq_serial, checksum_eq_serial] at h
  have hregister := BitVec.not_inj.mp (congrArg UInt32.toBitVec h)
  simp only [List.flatMap_append, List.foldl_append] at hregister
  have hpart := foldl_feed_injective _ hregister
  refine flatMap_bitsOf_injective (eq_of_foldl_feed ?_ ?_ hpart)
  · rw [length_flatMap_bitsOf, length_flatMap_bitsOf, hlength]
  · rw [length_flatMap_bitsOf]
    omega

end AppleII.Crc32
