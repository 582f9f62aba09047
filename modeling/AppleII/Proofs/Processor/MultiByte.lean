import AppleII.Processor.Arithmetic
import AppleII.Proofs.Byte
import Mathlib.Algebra.Order.Ring.Int
import Mathlib.Data.Nat.Digits.Defs
import Mathlib.Tactic.LinearCombination

/-!
# Numbers of many bytes

Numbers longer than a byte are added and subtracted byte by byte, the lowest byte first, and the carry of each byte
goes into the next.  What comes of it is the sum or the difference of the numbers, in binary as well as with packed
decimal digits, and overflow after the last byte tells in binary that it does not fit (`thread_arithmetic`).

Both operations keep one equation for each byte (`Exact`): a carry counts as `0` or `1` in a sum, and as `-1` or `0` in
a difference.
-/

namespace AppleII.Processor

/-- What `ADC` and `SBC` are: a result and new flags from the flags, the accumulator and the operand. -/
abbrev ByteOp := Status → UInt8 → UInt8 → UInt8 × Status

/-- Two rows of bytes, lowest first, worked on byte by byte; the flags of each byte go into the next. -/
def thread (op : ByteOp) : Status → List UInt8 → List UInt8 → List UInt8 × Status
  | s, a :: as, v :: vs =>
    let first := op s a v
    let others := thread op first.2 as vs
    (first.1 :: others.1, others.2)
  | s, _, _ => ([], s)

/-- Both digits of a packed decimal byte are digits. -/
def Packed (b : UInt8) : Prop := b.toNat / 16 ≤ 9 ∧ b.toNat % 16 ≤ 9

/-- What a byte counts: in decimal mode its high digit counts ten times its low digit. -/
def digit (decimal : Bool) (b : UInt8) : Nat :=
  if decimal then 10 * (b.toNat / 16) + b.toNat % 16 else b.toNat

@[simp] theorem digit_false (b : UInt8) : digit false b = b.toNat := rfl

/-- How many times a byte counts more than the one before. -/
def radix (decimal : Bool) : Nat := if decimal then 100 else 256

@[simp] theorem radix_false : radix false = 256 := rfl

/-- The number that a row of bytes stands for, lowest first. -/
def value (decimal : Bool) (bytes : List UInt8) : Nat := Nat.ofDigits (radix decimal) (bytes.map (digit decimal))

/-- Among the `M` numbers below `M`, the upper half stands for negative ones in two's complement. -/
def signBit (M x : Nat) : Bool := M ≤ 2 * x

/-- What a number below `M` stands for in two's complement. -/
def twosComplement (M x : Nat) : Int := x - if signBit M x then M else 0

/-- A number has a two's complement below `M`. -/
def Fits (M : Nat) (x : Int) : Prop := -M ≤ 2 * x ∧ 2 * x < M

/-- The number that a row of bytes stands for in two's complement. -/
def signed (bytes : List UInt8) : Int := twosComplement (256 ^ bytes.length) (value false bytes)

/-- A row of bytes stands for a negative number. -/
def isNegative (bytes : List UInt8) : Bool := signBit (256 ^ bytes.length) (value false bytes)

/-! ## One byte -/

/-- An operation on bytes that gives a sum (`e` is 1) or a difference (`e` is -1), `k` being what a carry counts. -/
structure Exact (decimal : Bool) (e : Int) (k : Bool → Int) (op : ByteOp) : Prop where
  equation : ∀ {s a v}, s.decimal = decimal → (decimal = true → Packed a ∧ Packed v) →
    (digit decimal (op s a v).1 : Int) + radix decimal * k (op s a v).2.carry =
      digit decimal a + e * digit decimal v + k s.carry
  packed : ∀ {s a v}, s.decimal = decimal → decimal = true → Packed a → Packed v → Packed (op s a v).1
  decimal : ∀ {s a v}, (op s a v).2.decimal = s.decimal

/-- What a carry counts in a sum. -/
def carried (c : Bool) : Int := c.toNat

/-- What a carry counts in a difference: a clear carry is a borrow. -/
def borrowed (c : Bool) : Int := c.toNat - 1

theorem addWithCarry_decimal (m : Model) {s : Status} {a v : UInt8} :
    (addWithCarry m s a v).2.decimal = s.decimal := by
  unfold addWithCarry
  split
  · cases m <;> rfl
  · rfl

theorem exact_add_binary (m : Model) : Exact false 1 carried (addWithCarry m) where
  equation {s a v} hs _ := by
    have ha := a.toNat_lt
    have hv := v.toNat_lt
    have hc : s.carry.toNat ≤ 1 := Bool.toNat_le s.carry
    by_cases h : a.toNat + v.toNat + s.carry.toNat > 0xFF <;>
      simp [addWithCarry, hs, addBinary, Status.setZN, digit, radix, carried, h] <;> omega
  packed _ h := by cases h
  decimal := addWithCarry_decimal m

/-- The sum of two digits and a carry, corrected when it comes above 9: its low digit is that of the decimal sum, and
it carries when that does. -/
theorem corrected_digit {n : Nat} (h : n ≤ 19) :
    (if n > 9 then n + 6 else n) % 16 = n % 10 ∧ decide ((if n > 9 then n + 6 else n) > 0x0F) = decide (n > 9) := by
  rw [decide_eq_decide]
  split <;> omega

theorem packed_toUInt8 (high low : Nat) :
    (high * 16 + low % 16).toUInt8.toNat / 16 = high % 16 ∧ (high * 16 + low % 16).toUInt8.toNat % 16 = low % 16 := by
  have hbyte : (high * 16 + low % 16).toUInt8.toNat = (high * 16 + low % 16) % 256 := UInt8.toNat_ofNat'
  omega

theorem toNat_decide (p : Prop) [Decidable p] : (decide p).toNat = if p then 1 else 0 := by
  by_cases h : p <;> simp [h]

/-- The digits of a decimal sum. -/
theorem addDecimal_digits (m : Model) (s : Status) {a v : UInt8} (ha : Packed a) (hv : Packed v) :
    let units := a.toNat % 16 + v.toNat % 16 + s.carry.toNat
    let tens := a.toNat / 16 + v.toNat / 16 + (decide (units > 9)).toNat
    (addDecimal m s a v).1.toNat % 16 = units % 10 ∧ (addDecimal m s a v).1.toNat / 16 = tens % 10 ∧
      (addDecimal m s a v).2.carry = decide (tens > 9) := by
  intro units tens
  obtain ⟨haHigh, haLow⟩ := ha
  obtain ⟨hvHigh, hvLow⟩ := hv
  have hc : s.carry.toNat ≤ 1 := Bool.toNat_le s.carry
  have hlow := corrected_digit (n := units) (by omega)
  have hcarried : (decide (units > 9)).toNat ≤ 1 := Bool.toNat_le _
  have hhigh := corrected_digit (n := tens) (by omega)
  have hresult : (addDecimal m s a v).1 = (addDecimal .cmos s a v).1 := by cases m <;> rfl
  have hcarry : (addDecimal m s a v).2.carry = (addDecimal .cmos s a v).2.carry := by cases m <;> rfl
  have htens : a.toNat / 16 + v.toNat / 16 +
      (decide ((if units > 9 then units + 6 else units) > 0x0F)).toNat = tens := by rw [hlow.2]
  rw [hresult, hcarry, ← hlow.1, ← hhigh.1, ← hhigh.2, ← htens]
  exact ⟨(packed_toUInt8 _ _).2, (packed_toUInt8 _ _).1, rfl⟩

theorem exact_add_decimal (m : Model) : Exact true 1 carried (addWithCarry m) where
  equation {s a v} hs hpacked := by
    obtain ⟨ha, hv⟩ := hpacked rfl
    obtain ⟨hunits, htens, hcarry⟩ := addDecimal_digits m s ha hv
    have hc : s.carry.toNat ≤ 1 := Bool.toNat_le s.carry
    have hadd : addWithCarry m s a v = addDecimal m s a v := by rw [addWithCarry, if_pos hs]
    simp only [hadd, digit, radix, carried, hunits, htens, hcarry, if_true, toNat_decide]
    unfold Packed at ha hv
    split <;> split <;> omega
  packed {s a v} hs _ ha hv := by
    obtain ⟨hunits, htens, -⟩ := addDecimal_digits m s ha hv
    rw [addWithCarry, if_pos hs, Packed]
    omega
  decimal := addWithCarry_decimal m

/-- A difference is binary or decimal; its carry and overflow are those of the binary difference. -/
theorem subtractWithBorrow_apply (m : Model) (s : Status) (a v : UInt8) :
    (subtractWithBorrow m s a v).1 =
        (if s.decimal then decimalDifference s.carry a v else a - v - (!s.carry).toNat.toUInt8) ∧
      (subtractWithBorrow m s a v).2.carry = decide (v.toNat + (!s.carry).toNat ≤ a.toNat) ∧
      (subtractWithBorrow m s a v).2.overflow = (subtractBinary s a v).2.overflow ∧
      (subtractWithBorrow m s a v).2.decimal = s.decimal := by
  by_cases hs : s.decimal = true
  · cases m <;> simp [subtractWithBorrow, subtractBinary, Status.setZN, hs]
  · simp [subtractWithBorrow, subtractBinary, Status.setZN, hs]

theorem exact_subtract_binary (m : Model) : Exact false (-1) borrowed (subtractWithBorrow m) where
  equation {s a v} hs _ := by
    have ha := a.toNat_lt
    have hv := v.toNat_lt
    obtain ⟨hresult, hcarry, -⟩ := subtractWithBorrow_apply m s a v
    rw [hs, if_neg Bool.false_ne_true] at hresult
    simp only [hresult, hcarry, digit, radix, borrowed, UInt8.toNat_sub, toNat_decide]
    cases s.carry <;> simp <;> split <;> omega
  packed _ h := by cases h
  decimal {s a v} := (subtractWithBorrow_apply m s a v).2.2.2

/-- The digits of a decimal difference.  One below 0 borrows 10. -/
theorem decimalDifference_digits (c : Bool) {a v : UInt8} (ha : Packed a) (hv : Packed v) :
    let units : Int := (a.toNat % 16 : Nat) - (v.toNat % 16 : Nat) - (!c).toNat
    let tens : Int := (a.toNat / 16 : Nat) - (v.toNat / 16 : Nat) - (decide (units < 0)).toNat
    (decimalDifference c a v).toNat % 16 = (if units < 0 then units + 10 else units) ∧
      (decimalDifference c a v).toNat / 16 = (if tens < 0 then tens + 10 else tens) := by
  intro units tens
  obtain ⟨haHigh, haLow⟩ := ha
  obtain ⟨hvHigh, hvLow⟩ := hv
  have hc : (!c).toNat ≤ 1 := Bool.toNat_le _
  have hborrowed : (decide (units < 0)).toNat ≤ 1 := Bool.toNat_le _
  have heq : decimalDifference c a v = (((if tens < 0 then tens + 10 else tens) % 16).toNat * 16 +
      ((if units < 0 then units + 10 else units) % 16).toNat).toUInt8 := by
    unfold decimalDifference
    by_cases h : units < 0
    · have htens : tens = (a.toNat / 16 : Nat) - (v.toNat / 16 : Nat) - 1 := by simp [tens, h]
      rw [htens, if_pos h]
      simp only [units] at h ⊢
      rw [if_pos h]
    · have htens : tens = (a.toNat / 16 : Nat) - (v.toNat / 16 : Nat) := by simp [tens, h]
      rw [htens, if_neg h]
      simp only [units] at h ⊢
      rw [if_neg h]
  have hbyte : (decimalDifference c a v).toNat = (((if tens < 0 then tens + 10 else tens) % 16).toNat * 16 +
      ((if units < 0 then units + 10 else units) % 16).toNat) % 256 := by
    rw [heq]
    exact UInt8.toNat_ofNat'
  split at hbyte <;> split at hbyte <;> omega

theorem exact_subtract_decimal (m : Model) : Exact true (-1) borrowed (subtractWithBorrow m) where
  equation {s a v} hs hpacked := by
    obtain ⟨ha, hv⟩ := hpacked rfl
    obtain ⟨hunits, htens⟩ := decimalDifference_digits s.carry ha hv
    obtain ⟨hresult, hcarry, -⟩ := subtractWithBorrow_apply m s a v
    rw [hs, if_pos rfl] at hresult
    have hborrow : s.carry.toNat + (!s.carry).toNat = 1 := by cases s.carry <;> rfl
    unfold Packed at ha hv
    simp only [hresult, hcarry, digit, radix, borrowed, if_true, toNat_decide] at htens ⊢
    split at hunits <;> split at htens <;> split <;> omega
  packed {s a v} hs _ ha hv := by
    obtain ⟨hunits, htens⟩ := decimalDifference_digits s.carry ha hv
    obtain ⟨hresult, -⟩ := subtractWithBorrow_apply m s a v
    rw [hresult, hs, if_pos rfl, Packed]
    unfold Packed at ha hv
    split at hunits <;> split at htens <;> omega
  decimal {s a v} := (subtractWithBorrow_apply m s a v).2.2.2

/-! ## Rows of bytes -/

@[simp] theorem value_nil (decimal : Bool) : value decimal [] = 0 := rfl

@[simp] theorem value_cons (decimal : Bool) (b : UInt8) (bytes : List UInt8) :
    value decimal (b :: bytes) = digit decimal b + radix decimal * value decimal bytes :=
  Nat.ofDigits_cons ..

theorem value_lt (bytes : List UInt8) : value false bytes < 256 ^ bytes.length := by
  induction bytes with
  | nil => exact Nat.one_pos
  | cons b bytes ih =>
    have hb := b.toNat_lt
    rw [value_cons, List.length_cons, pow_succ, digit_false, radix_false]
    omega

/-- The equations of the bytes add up to the equation of the rows. -/
theorem Exact.thread {decimal : Bool} {e : Int} {k : Bool → Int} {op : ByteOp} (hop : Exact decimal e k op)
    {s : Status} {as vs : List UInt8} (hlength : as.length = vs.length) (hs : s.decimal = decimal)
    (hpacked : decimal = true → ∀ d ∈ as ++ vs, Packed d) :
    (thread op s as vs).1.length = as.length ∧
      (value decimal (thread op s as vs).1 : Int) + radix decimal ^ as.length * k (thread op s as vs).2.carry =
        value decimal as + e * value decimal vs + k s.carry ∧
      (decimal = true → ∀ d ∈ (thread op s as vs).1, Packed d) := by
  induction as generalizing s vs with
  | nil =>
    cases vs with
    | nil => simp [Processor.thread]
    | cons v vs => cases hlength
  | cons a as ih =>
    cases vs with
    | nil => cases hlength
    | cons v vs =>
      have hbytes (h : decimal = true) : Packed a ∧ Packed v :=
        ⟨hpacked h a (by simp), hpacked h v (by simp)⟩
      have hothers (h : decimal = true) : ∀ d ∈ as ++ vs, Packed d := fun d hd =>
        hpacked h d (by simp only [List.mem_append, List.mem_cons] at hd ⊢; tauto)
      obtain ⟨hlen, hvalue, hdigits⟩ := ih (Nat.succ.inj hlength) (hop.decimal.trans hs) hothers
      have hbyte := hop.equation hs hbytes
      refine ⟨congrArg (· + 1) hlen, ?_, fun h => ?_⟩
      · simp only [Processor.thread, value_cons, List.length_cons, Nat.cast_add, Nat.cast_mul, pow_succ]
        linear_combination hbyte + radix decimal * hvalue
      · exact List.forall_mem_cons.mpr ⟨hop.packed hs h (hbytes h).1 (hbytes h).2, hdigits h⟩

/-! ## Overflow -/

/-- Bit 7 of a byte. -/
def sign (b : UInt8) : Bool := b.toNat.testBit 7

theorem sign_eq (b : UInt8) : sign b = decide (128 ≤ b.toNat) := by
  have h : ∀ b : UInt8, sign b = decide (128 ≤ b.toNat) := forall_byte (by decide +kernel)
  exact h b

theorem and_signBit (b : UInt8) : (b &&& 0x80 != 0) = sign b := by
  have h : ∀ b : UInt8, (b &&& 0x80 != 0) = sign b := forall_byte (by decide +kernel)
  exact h b

@[simp] theorem sign_and (a b : UInt8) : sign (a &&& b) = (sign a && sign b) := by
  rw [sign, UInt8.toNat_and, Nat.testBit_and, sign, sign]

@[simp] theorem sign_xor (a b : UInt8) : sign (a ^^^ b) = (sign a != sign b) := by
  rw [sign, UInt8.toNat_xor, Nat.testBit_xor, sign, sign, Bool.bne_eq_xor]

theorem overflow_add (m : Model) {s : Status} (hs : s.decimal = false) (a v : UInt8) :
    (addWithCarry m s a v).2.overflow =
      ((sign a != sign (addWithCarry m s a v).1) && (sign v != sign (addWithCarry m s a v).1)) := by
  have hadd : addWithCarry m s a v = addBinary s a v := by rw [addWithCarry, if_neg (by simp [hs])]
  have hoverflow : (addBinary s a v).2.overflow = signLost a v (addBinary s a v).1 := rfl
  rw [hadd, hoverflow, signLost, and_signBit, sign_and, sign_xor, sign_xor]

theorem overflow_subtract (m : Model) {s : Status} (hs : s.decimal = false) (a v : UInt8) :
    (subtractWithBorrow m s a v).2.overflow =
      ((sign a != sign v) && (sign a != sign (subtractWithBorrow m s a v).1)) := by
  obtain ⟨hresult, -, hoverflow, -⟩ := subtractWithBorrow_apply m s a v
  rw [hs, if_neg Bool.false_ne_true] at hresult
  have hbinary : (subtractBinary s a v).2.overflow =
      ((a ^^^ v) &&& (a ^^^ (a - v - (!s.carry).toNat.toUInt8)) &&& 0x80 != 0) := rfl
  rw [hoverflow, hresult, hbinary, and_signBit, sign_and, sign_xor, sign_xor]

theorem isNegative_singleton (b : UInt8) : isNegative [b] = sign b := by
  rw [sign_eq, isNegative, signBit, value_cons, value_nil, digit_false, decide_eq_decide]
  simp
  omega

/-- The sign of a row is that of its last byte. -/
theorem isNegative_cons (b : UInt8) {bytes : List UInt8} (h : bytes ≠ []) :
    isNegative (b :: bytes) = isNegative bytes := by
  have hb := b.toNat_lt
  obtain ⟨c, cs, rfl⟩ := List.exists_cons_of_ne_nil h
  have hpow : 256 ^ (c :: cs).length = 2 * (128 * 256 ^ cs.length) := by
    rw [List.length_cons, pow_succ]
    omega
  rw [isNegative, isNegative, signBit, signBit, decide_eq_decide, value_cons, digit_false, radix_false,
    List.length_cons, pow_succ, hpow]
  omega

/-- The flags that the last byte leaves tell of the signs of the rows. -/
theorem thread_overflow (op : ByteOp) (f : Bool → Bool → Bool → Bool)
    (hdecimal : ∀ s a v, (op s a v).2.decimal = s.decimal)
    (hop : ∀ s a v, s.decimal = false → (op s a v).2.overflow = f (sign a) (sign v) (sign (op s a v).1))
    {s : Status} {as vs : List UInt8} (hlength : as.length = vs.length) (hne : as ≠ []) (hs : s.decimal = false) :
    (thread op s as vs).2.overflow = f (isNegative as) (isNegative vs) (isNegative (thread op s as vs).1) := by
  induction as generalizing s vs with
  | nil => exact absurd rfl hne
  | cons a as ih =>
    obtain ⟨v, vs, rfl⟩ := List.exists_cons_of_length_eq_add_one hlength.symm
    rcases as with _ | ⟨a', as⟩
    · rw [List.length_eq_zero_iff.mp (Nat.succ.inj hlength.symm)]
      simp only [thread, isNegative_singleton]
      exact hop s a v hs
    · obtain ⟨v', vs, rfl⟩ := List.exists_cons_of_length_eq_add_one (Nat.succ.inj hlength.symm)
      have hresult : (thread op (op s a v).2 (a' :: as) (v' :: vs)).1 ≠ [] := by simp [thread]
      rw [isNegative_cons a (List.cons_ne_nil _ _), isNegative_cons v (List.cons_ne_nil _ _), thread,
        isNegative_cons _ hresult]
      exact ih (Nat.succ.inj hlength) (List.cons_ne_nil _ _) ((hdecimal s a v).trans hs)

theorem two_dvd_pow {bytes : List UInt8} (h : bytes ≠ []) : 2 ∣ 256 ^ bytes.length := by
  obtain ⟨b, bs, rfl⟩ := List.exists_cons_of_ne_nil h
  exact ⟨128 * 256 ^ bs.length, by rw [List.length_cons, pow_succ]; omega⟩

/-- Let each byte set overflow by three signs (`hflag`), and let the signs of whole numbers tell in the same way what
does not fit (`hfits`): overflow after the last byte tells that the number of the row does not fit. -/
theorem Exact.overflow_iff {e : Int} {k : Bool → Int} {op : ByteOp} (hop : Exact false e k op)
    (f : Bool → Bool → Bool → Bool)
    (hflag : ∀ s a v, s.decimal = false → (op s a v).2.overflow = f (sign a) (sign v) (sign (op s a v).1))
    (hfits : ∀ {M x y z : Nat} {c c' : Bool}, 2 ∣ M → x < M → y < M → z < M →
      (z : Int) + M * k c' = x + e * y + k c →
        (f (signBit M x) (signBit M y) (signBit M z) = true ↔
          ¬ Fits M (twosComplement M x + e * twosComplement M y + k c)))
    {s : Status} {as vs : List UInt8} (hne : as ≠ []) (hlength : as.length = vs.length) (hs : s.decimal = false) :
    (Processor.thread op s as vs).2.overflow = true ↔
      ¬ Fits (256 ^ as.length) (signed as + e * signed vs + k s.carry) := by
  have hvs := value_lt vs
  have hresult := value_lt (Processor.thread op s as vs).1
  obtain ⟨hresultLength, hequation, -⟩ := hop.thread hlength hs (by simp)
  rw [← hlength] at hvs
  rw [hresultLength] at hresult
  rw [radix_false] at hequation
  rw [thread_overflow op f (fun _ _ _ => hop.decimal) hflag hlength hne hs, isNegative, isNegative, isNegative,
    hresultLength, signed, signed, ← hlength]
  exact hfits (two_dvd_pow hne) (value_lt as) hvs hresult (by exact_mod_cast hequation)

section

variable {M x y z : Nat} {c c' : Bool} (hM : 2 ∣ M) (hx : x < M) (hy : y < M) (hz : z < M)
include hM hx hy hz

/-- A sum does not fit when both numbers have another sign than what comes of them. -/
theorem not_fits_sum (h : (z : Int) + M * carried c' = x + y + carried c) :
    ((signBit M x != signBit M z) && (signBit M y != signBit M z)) = true ↔
      ¬ Fits M (twosComplement M x + twosComplement M y + carried c) := by
  obtain ⟨half, rfl⟩ := hM
  unfold Fits twosComplement signBit carried at *
  by_cases hxs : 2 * half ≤ 2 * x <;> by_cases hys : 2 * half ≤ 2 * y <;> by_cases hzs : 2 * half ≤ 2 * z <;>
    cases c <;> cases c' <;> simp [hxs, hys, hzs] at h ⊢ <;> omega

/-- A difference does not fit when the numbers have different signs, and what comes of them has not that of the
first. -/
theorem not_fits_difference (h : (z : Int) + M * borrowed c' = x - y + borrowed c) :
    ((signBit M x != signBit M y) && (signBit M x != signBit M z)) = true ↔
      ¬ Fits M (twosComplement M x - twosComplement M y + borrowed c) := by
  obtain ⟨half, rfl⟩ := hM
  unfold Fits twosComplement signBit borrowed at *
  by_cases hxs : 2 * half ≤ 2 * x <;> by_cases hys : 2 * half ≤ 2 * y <;> by_cases hzs : 2 * half ≤ 2 * z <;>
    cases c <;> cases c' <;> simp [hxs, hys, hzs] at h ⊢ <;> omega

end

/-! ## Sums and differences -/

theorem exact_add (m : Model) (decimal : Bool) : Exact decimal 1 carried (addWithCarry m) := by
  cases decimal with
  | false => exact exact_add_binary m
  | true => exact exact_add_decimal m

theorem exact_subtract (m : Model) (decimal : Bool) : Exact decimal (-1) borrowed (subtractWithBorrow m) := by
  cases decimal with
  | false => exact exact_subtract_binary m
  | true => exact exact_subtract_decimal m

section

variable (m : Model) {s : Status} {a b : List UInt8} (hne : a ≠ []) (hlength : a.length = b.length)
  (hs : s.decimal = false)
include hne hlength hs

theorem thread_add_overflow :
    (thread (addWithCarry m) s a b).2.overflow = true ↔
      ¬ Fits (256 ^ a.length) (signed a + signed b + carried s.carry) := by
  have h := (exact_add m false).overflow_iff (fun a v z => (a != z) && (v != z))
    (fun s a v hs => overflow_add m hs a v)
    (fun hM hx hy hz h => by rw [one_mul] at h ⊢; exact not_fits_sum hM hx hy hz h) hne hlength hs
  rwa [one_mul] at h

theorem thread_subtract_overflow :
    (thread (subtractWithBorrow m) s a b).2.overflow = true ↔
      ¬ Fits (256 ^ a.length) (signed a - signed b + borrowed s.carry) := by
  have h := (exact_subtract m false).overflow_iff (fun a v z => (a != v) && (a != z))
    (fun s a v hs => overflow_subtract m hs a v)
    (fun hM hx hy hz h => by
      rw [neg_one_mul, ← sub_eq_add_neg] at h ⊢
      exact not_fits_difference hM hx hy hz h) hne hlength hs
  rwa [neg_one_mul, ← sub_eq_add_neg] at h

end

/-- **Arithmetic on many bytes is right.** The carry goes into the first byte and comes out of the last: the sum is that
of the numbers and the carry, the difference is that of the numbers and the borrow, in binary, and on packed decimal
digits of which the results consist too.  In binary, overflow is set after the last byte when the sum or the difference
of the numbers in two's complement does not fit into so many bytes. -/
theorem thread_arithmetic (m : Model) (s : Status) (a b : List UInt8) (hne : a ≠ []) (hlength : a.length = b.length)
    (hpacked : s.decimal = true → ∀ d ∈ a ++ b, Packed d) :
    let sum := thread (addWithCarry m) s a b
    let difference := thread (subtractWithBorrow m) s a b
    let full := radix s.decimal ^ a.length
    (sum.1.length = a.length ∧ difference.1.length = a.length) ∧
      value s.decimal sum.1 + sum.2.carry.toNat * full = value s.decimal a + value s.decimal b + s.carry.toNat ∧
      (value s.decimal difference.1 : Int) =
        value s.decimal a - value s.decimal b - (1 - s.carry.toNat) + (1 - difference.2.carry.toNat) * full ∧
      (s.decimal = true → ∀ d ∈ sum.1 ++ difference.1, Packed d) ∧
      (s.decimal = false →
        (sum.2.overflow = true ↔ ¬ Fits (256 ^ a.length) (signed a + signed b + s.carry.toNat)) ∧
        (difference.2.overflow = true ↔ ¬ Fits (256 ^ a.length) (signed a - signed b - (1 - s.carry.toNat)))) := by
  intro sum difference full
  obtain ⟨hsumLength, hsum, hsumPacked⟩ := (exact_add m s.decimal).thread hlength rfl hpacked
  obtain ⟨hdifferenceLength, hdifference, hdifferencePacked⟩ :=
    (exact_subtract m s.decimal).thread hlength rfl hpacked
  refine ⟨⟨hsumLength, hdifferenceLength⟩, ?_, ?_, fun hs d hd => ?_, fun hs => ⟨?_, ?_⟩⟩
  · unfold carried at hsum
    zify [full]
    linear_combination hsum
  · unfold borrowed at hdifference
    push_cast [full]
    linear_combination hdifference
  · rcases List.mem_append.mp hd with hd | hd
    · exact hsumPacked hs d hd
    · exact hdifferencePacked hs d hd
  · exact thread_add_overflow m hne hlength hs
  · have hborrow : -(1 - (s.carry.toNat : Int)) = borrowed s.carry := by rw [borrowed, neg_sub]
    rw [sub_eq_add_neg _ (1 - _), hborrow]
    exact thread_subtract_overflow m hne hlength hs

/-- In decimal mode `$99 $09`, which is 999, and `$01 $00` add up to 1000, `$00 $10`. -/
theorem thread_decimal_carry :
    let s : Status := { Status.powerUp with decimal := true }
    let a : List UInt8 := [0x99, 0x09]
    let b : List UInt8 := [0x01, 0x00]
    (s.decimal = true ∧ a ≠ [] ∧ a.length = b.length ∧ ∀ d ∈ a ++ b, Packed d) ∧
      value true (thread (addWithCarry .nmos) s a b).1 +
        (thread (addWithCarry .nmos) s a b).2.carry.toNat * 100 ^ 2 = 1000 := by
  intro s a b
  have hpacked : ∀ d ∈ a ++ b, Packed d := by simp [a, b, Packed]
  have hsum := (thread_arithmetic .nmos s a b (by decide) rfl fun _ => hpacked).2.1
  have hvalues : value true a + value true b + s.carry.toNat = 1000 := by
    simp [a, b, s, digit, radix, Status.powerUp]
  exact ⟨⟨rfl, by decide, rfl, hpacked⟩, hsum.trans hvalues⟩

end AppleII.Processor
