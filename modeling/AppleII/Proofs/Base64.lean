import AppleII.Base64
import AppleII.Proofs.Byte
import AppleII.Proofs.Except
import Mathlib.Tactic.IntervalCases

/-!
# Base64 is canonical

`decode_encode`: what is written is read back.  `encode_of_decode_eq_ok`: each text that is read is the
one that is written for its bytes.  Both go through `encodedBytes`, the bytes of a text.
-/

namespace AppleII.Base64

/-! ## Symbols -/

/-- The byte of the symbol of a value. -/
def symbolByte (v : UInt8) : UInt8 := (symbol v).toUInt8

/-- A value has six bits. -/
def IsValue (v : UInt8) : Prop := v &&& 0x3F = v

instance (v : UInt8) : Decidable (IsValue v) := inferInstanceAs (Decidable (v &&& 0x3F = v))

theorem value?_symbolByte {v : UInt8} : IsValue v → value? (symbolByte v) = some v :=
  forall_byte (P := fun v => IsValue v → value? (symbolByte v) = some v) (by decide +kernel) v

theorem symbolByte_ne_pad (v : UInt8) : (symbolByte v == pad) = false :=
  forall_byte (P := fun v => (symbolByte v == pad) = false) (by decide +kernel) v

theorem symbol_size (v : UInt8) : (symbol v).utf8Size = 1 :=
  forall_byte (P := fun v => (symbol v).utf8Size = 1) (by decide +kernel) v

theorem value?_eq_some {b v : UInt8} (h : value? b = some v) : IsValue v ∧ b = symbolByte v := by
  have table : (value? b).all fun v => decide (IsValue v ∧ b = symbolByte v) :=
    forall_byte (P := fun b => (value? b).all fun v => decide (IsValue v ∧ b = symbolByte v))
      (by decide +kernel) b
  rw [h] at table
  exact of_decide_eq_true table

/-! ## Groups -/

theorem isValue_first (a : UInt8) : IsValue (first a) := by
  refine byte_ext fun i hi => ?_
  interval_cases i <;> simp [first]

theorem isValue_second (a b : UInt8) : IsValue (second a b) := by
  refine byte_ext fun i hi => ?_
  interval_cases i <;> simp [second]

theorem isValue_third (b c : UInt8) : IsValue (third b c) := by
  refine byte_ext fun i hi => ?_
  interval_cases i <;> simp [third]

theorem isValue_fourth (c : UInt8) : IsValue (fourth c) := by
  refine byte_ext fun i hi => ?_
  interval_cases i <;> simp [fourth]

/-- The first byte of a group from its first two values. -/
theorem join_first_second (a b : UInt8) : (first a <<< 2) ||| (second a b >>> 4) = a := by
  refine byte_ext fun i hi => ?_
  interval_cases i <;> simp [first, second]

theorem join_second_third (a b c : UInt8) : (second a b <<< 4) ||| (third b c >>> 2) = b := by
  refine byte_ext fun i hi => ?_
  interval_cases i <;> simp [second, third]

theorem join_third_fourth (b c : UInt8) : (third b c <<< 6) ||| fourth c = c := by
  refine byte_ext fun i hi => ?_
  interval_cases i <;> simp [third, fourth]

theorem first_join {v w : UInt8} (hv : IsValue v) (hw : IsValue w) :
    first ((v <<< 2) ||| (w >>> 4)) = v := by
  rw [← hv, ← hw]
  refine byte_ext fun i hi => ?_
  interval_cases i <;> simp [first]

theorem second_join {v w x : UInt8} (hv : IsValue v) (hw : IsValue w) (hx : IsValue x) :
    second ((v <<< 2) ||| (w >>> 4)) ((w <<< 4) ||| (x >>> 2)) = w := by
  rw [← hv, ← hw, ← hx]
  refine byte_ext fun i hi => ?_
  interval_cases i <;> simp [second]

theorem third_join {w x y : UInt8} (hw : IsValue w) (hx : IsValue x) (hy : IsValue y) :
    third ((w <<< 4) ||| (x >>> 2)) ((x <<< 6) ||| y) = x := by
  rw [← hw, ← hx, ← hy]
  refine byte_ext fun i hi => ?_
  interval_cases i <;> simp [third]

theorem fourth_join {x y : UInt8} (hx : IsValue x) (hy : IsValue y) : fourth ((x <<< 6) ||| y) = y := by
  rw [← hx, ← hy]
  refine byte_ext fun i hi => ?_
  interval_cases i <;> simp [fourth]

/-- A last group of one byte leaves four bits of its second value unused. -/
theorem second_zero_unused (a : UInt8) : second a 0 &&& 0x0F = 0 := by
  refine byte_ext fun i hi => ?_
  interval_cases i <;> simp [second]

theorem third_zero_unused (b : UInt8) : third b 0 &&& 0x03 = 0 := by
  refine byte_ext fun i hi => ?_
  interval_cases i <;> simp [third]

/-- A value whose last bits are unused has only the bits above them. -/
theorem IsValue.and_of_unused {v high low : UInt8} (hv : IsValue v) (hsplit : high ||| low = 0x3F)
    (unused : v &&& low = 0) : v &&& high = v := by
  have hdistrib : v &&& (high ||| low) = (v &&& high) ||| (v &&& low) :=
    UInt8.toBitVec_inj.mp BitVec.and_or_distrib_left
  calc v &&& high = (v &&& high) ||| (v &&& low) := by rw [unused, UInt8.or_zero]
    _ = v &&& 0x3F := by rw [← hdistrib, hsplit]
    _ = v := hv

theorem second_join_last {v w : UInt8} (hv : IsValue v) (hw : IsValue w) (unused : w &&& 0x0F = 0) :
    second ((v <<< 2) ||| (w >>> 4)) 0 = w := by
  have hbits : w &&& 0x30 = w := hw.and_of_unused (by decide) unused
  rw [← hv, ← hbits]
  refine byte_ext fun i hi => ?_
  interval_cases i <;> simp [second]

theorem third_join_last {w x : UInt8} (hw : IsValue w) (hx : IsValue x) (unused : x &&& 0x03 = 0) :
    third ((w <<< 4) ||| (x >>> 2)) 0 = x := by
  have hbits : x &&& 0x3C = x := hx.and_of_unused (by decide) unused
  rw [← hw, ← hbits]
  refine byte_ext fun i hi => ?_
  interval_cases i <;> simp [third]

/-! ## Texts as bytes -/

/-- The bytes of the text of some bytes. -/
def encodedBytes : List UInt8 → List UInt8
  | a :: b :: c :: r =>
    symbolByte (first a) :: symbolByte (second a b) :: symbolByte (third b c) :: symbolByte (fourth c) ::
      encodedBytes r
  | [a, b] => [symbolByte (first a), symbolByte (second a b), symbolByte (third b 0), pad]
  | [a] => [symbolByte (first a), symbolByte (second a 0), pad, pad]
  | [] => []

theorem push_bytes (s : String) {c : Char} (h : c.utf8Size = 1) :
    (s.push c).toByteArray.data.toList = s.toByteArray.data.toList ++ [c.toUInt8] := by
  rw [String.toByteArray_push, List.utf8Encode_singleton, String.utf8EncodeChar_eq_singleton h]
  simp

theorem push_symbol_bytes (s : String) (v : UInt8) :
    (s.push (symbol v)).toByteArray.data.toList = s.toByteArray.data.toList ++ [symbolByte v] :=
  push_bytes s (symbol_size v)

theorem push_pad_bytes (s : String) :
    (s.push '=').toByteArray.data.toList = s.toByteArray.data.toList ++ [pad] := push_bytes s rfl

theorem appendEncoded_bytes (acc : String) (l : List UInt8) :
    (appendEncoded acc l).toByteArray.data.toList = acc.toByteArray.data.toList ++ encodedBytes l := by
  fun_induction appendEncoded acc l with
  | case1 acc a b c r ih => rw [ih]; simp only [push_symbol_bytes, encodedBytes, List.append_assoc]; rfl
  | case2 acc a b =>
    simp only [push_symbol_bytes, push_pad_bytes, encodedBytes, List.append_assoc]; rfl
  | case3 acc a => simp only [push_symbol_bytes, push_pad_bytes, encodedBytes, List.append_assoc]; rfl
  | case4 acc => simp [encodedBytes]

theorem encode_bytes (b : Array UInt8) :
    (encode b).toByteArray.data.toList = encodedBytes b.toList := by
  rw [encode, appendEncoded_bytes]
  rfl

theorem length_encodedBytes (l : List UInt8) : (encodedBytes l).length % 4 = 0 := by
  fun_induction encodedBytes l with
  | case1 a b c r ih => simp only [List.length_cons]; omega
  | case2 a b => simp
  | case3 a => simp
  | case4 => simp

theorem encodedBytes_ne_nil {l : List UInt8} (h : l ≠ []) : encodedBytes l ≠ [] := by
  fun_cases encodedBytes l with
  | case4 => exact absurd rfl h
  | _ => simp

/-! ## What is written is read back -/

theorem decodeTail_symbol (offset k : Nat) (ss : List (UInt8 × UInt8)) {v : UInt8} (hv : IsValue v)
    (r : List UInt8) :
    decodeTail offset k { symbols := ss } (symbolByte v :: r) =
      decodeTail offset (k + 1) { symbols := (v, symbolByte v) :: ss } r := by
  rw [decodeTail, Tail.push, symbolByte_ne_pad, value?_symbolByte hv]
  rfl

/-- A last group is read back. -/
theorem decodeTail_encodedBytes (offset : Nat) :
    (∀ a, decodeTail offset 0 {} (encodedBytes [a]) = .ok [a]) ∧
    (∀ a b, decodeTail offset 0 {} (encodedBytes [a, b]) = .ok [a, b]) ∧
    (∀ a b c, decodeTail offset 0 {} (encodedBytes [a, b, c]) = .ok [a, b, c]) := by
  refine ⟨fun a => ?_, fun a b => ?_, fun a b c => ?_⟩
  · rw [encodedBytes, decodeTail_symbol _ _ _ (isValue_first _),
      decodeTail_symbol _ _ _ (isValue_second _ _)]
    simp [decodeTail, bind, Except.bind, Tail.push, Tail.finish, second_zero_unused, join_first_second]
  · rw [encodedBytes, decodeTail_symbol _ _ _ (isValue_first _),
      decodeTail_symbol _ _ _ (isValue_second _ _), decodeTail_symbol _ _ _ (isValue_third _ _)]
    simp [decodeTail, bind, Except.bind, Tail.push, Tail.finish, third_zero_unused, join_first_second,
      join_second_third]
  · rw [encodedBytes, encodedBytes, decodeTail_symbol _ _ _ (isValue_first _),
      decodeTail_symbol _ _ _ (isValue_second _ _), decodeTail_symbol _ _ _ (isValue_third _ _),
      decodeTail_symbol _ _ _ (isValue_fourth _)]
    simp [decodeTail, Tail.finish, join_first_second, join_second_third, join_third_fourth]

theorem inner_symbolByte (offset : Nat) {v : UInt8} (hv : IsValue v) :
    inner offset (symbolByte v) = .ok v := by
  rw [inner, value?_symbolByte hv]

theorem decodeFrom_last (offset : Nat) (acc : Array UInt8) {l : List UInt8} (ne : l ≠ [])
    (h : l.length ≤ 4) :
    decodeFrom offset acc l = (decodeTail offset 0 {} l).map fun out : List UInt8 => acc ++ out := by
  rw [decodeFrom]
  · rfl
  · rintro a b c d e r rfl
    simp only [List.length_cons] at h
    omega
  · exact ne

theorem decodeFrom_lastGroup {offset : Nat} (acc : Array UInt8) {l : List UInt8} (ne : l ≠ [])
    (hlen : (encodedBytes l).length ≤ 4)
    (h : decodeTail offset 0 {} (encodedBytes l) = .ok l) :
    decodeFrom offset acc (encodedBytes l) = .ok (acc ++ l) := by
  rw [decodeFrom_last _ _ (encodedBytes_ne_nil ne) hlen, h]
  rfl

theorem decodeFrom_encodedBytes (offset : Nat) (acc : Array UInt8) (l : List UInt8) :
    decodeFrom offset acc (encodedBytes l) = .ok (acc ++ l) := by
  obtain ⟨one, two, three⟩ := decodeTail_encodedBytes offset
  induction l using encodedBytes.induct generalizing offset acc with
  | case1 a b c r ih =>
    by_cases hr : r = []
    · subst hr
      exact decodeFrom_lastGroup acc (by simp) (by simp [encodedBytes]) (three a b c)
    · obtain ⟨e, es, he⟩ := List.exists_cons_of_ne_nil (encodedBytes_ne_nil hr)
      obtain ⟨one', two', three'⟩ := decodeTail_encodedBytes (offset + 4)
      have hrest := ih (offset + 4) (acc ++ [a, b, c]) one' two' three'
      rw [encodedBytes, he, decodeFrom, inner_symbolByte _ (isValue_first _),
        inner_symbolByte _ (isValue_second _ _), inner_symbolByte _ (isValue_third _ _),
        inner_symbolByte _ (isValue_fourth _), ← he]
      simp only [bind, Except.bind, join_first_second, join_second_third, join_third_fourth]
      simpa using hrest
  | case2 a b => exact decodeFrom_lastGroup acc (by simp) (by simp [encodedBytes]) (two a b)
  | case3 a => exact decodeFrom_lastGroup acc (by simp) (by simp [encodedBytes]) (one a)
  | case4 => simp [encodedBytes, decodeFrom]

/-- **What is written is read back.** -/
theorem decode_encode (b : Array UInt8) : decode (encode b) = .ok b := by
  have hbytes := encode_bytes b
  have hsize : (encode b).toByteArray.data.size % 4 = 0 := by
    rw [← Array.length_toList, hbytes, length_encodedBytes]
  simp only [decode, String.toUTF8_eq_toByteArray, strayByte?, hsize]
  simp [hbytes, decodeFrom_encodedBytes]

/-! ## What is read is what is written -/

theorem push_eq_ok {offset k : Nat} {t t' : Tail} {b : UInt8} (h : t.push offset k b = .ok t') :
    (b = pad ∧ 2 ≤ k ∧ t' = { t with firstPad := some (t.firstPad.getD k), pads := t.pads + 1 }) ∨
      ∃ v, IsValue v ∧ b = symbolByte v ∧ t.firstPad = none ∧
        t' = { t with symbols := (v, b) :: t.symbols } := by
  rw [Tail.push] at h
  split at h
  · next hpad =>
    split at h
    · cases h
    · exact .inl ⟨eq_of_beq hpad, by omega, (Except.ok.inj h).symm⟩
  · split at h
    · cases h
    · cases h
    · next hnone hv =>
      obtain ⟨hvalue, hb⟩ := value?_eq_some hv
      exact .inr ⟨_, hvalue, hb, hnone, (Except.ok.inj h).symm⟩

theorem decodeTail_cons_eq_ok {offset k : Nat} {t : Tail} {b : UInt8} {r out : List UInt8}
    (h : decodeTail offset k t (b :: r) = .ok out) :
    ∃ t', t.push offset k b = .ok t' ∧ decodeTail offset (k + 1) t' r = .ok out := by
  rw [decodeTail] at h
  cases hp : t.push offset k b with
  | error e => rw [hp] at h; cases h
  | ok t' => rw [hp] at h; exact ⟨t', rfl, h⟩

/-- The first two bytes of a last group are symbols. -/
theorem decodeTail_two_eq_ok {offset : Nat} {a b : UInt8} {r out : List UInt8}
    (h : decodeTail offset 0 {} (a :: b :: r) = .ok out) :
    ∃ v w, IsValue v ∧ IsValue w ∧ a = symbolByte v ∧ b = symbolByte w ∧
      decodeTail offset 2 { symbols := [(w, b), (v, a)] } r = .ok out := by
  obtain ⟨t₁, h₁, h⟩ := decodeTail_cons_eq_ok h
  obtain ⟨t₂, h₂, h⟩ := decodeTail_cons_eq_ok h
  obtain ⟨-, hk, -⟩ | ⟨v, hv, ha, -, rfl⟩ := push_eq_ok h₁
  · omega
  obtain ⟨-, hk, -⟩ | ⟨w, hw, hb, -, rfl⟩ := push_eq_ok h₂
  · omega
  exact ⟨v, w, hv, hw, ha, hb, h⟩

theorem finish_two {offset : Nat} {v w a b : UInt8} {p : Option Nat} {out : List UInt8}
    (h : Tail.finish offset ⟨[(w, b), (v, a)], p, 2⟩ = .ok out) :
    w &&& 0x0F = 0 ∧ out = [(v <<< 2) ||| (w >>> 4)] := by
  by_cases unused : w &&& 0x0F = 0
  · simp [Tail.finish, unused] at h
    exact ⟨unused, h.symm⟩
  · simp [Tail.finish, unused] at h

theorem finish_three {offset : Nat} {v w x a b c : UInt8} {p : Option Nat} {out : List UInt8}
    (h : Tail.finish offset ⟨[(x, c), (w, b), (v, a)], p, 1⟩ = .ok out) :
    x &&& 0x03 = 0 ∧ out = [(v <<< 2) ||| (w >>> 4), (w <<< 4) ||| (x >>> 2)] := by
  by_cases unused : x &&& 0x03 = 0
  · simp [Tail.finish, unused] at h
    exact ⟨unused, h.symm⟩
  · simp [Tail.finish, unused] at h

theorem eq_nil_of_length_le_four {a b c d : UInt8} {r : List UInt8}
    (h : (a :: b :: c :: d :: r).length ≤ 4) : r = [] := by
  simp only [List.length_cons] at h
  exact List.eq_nil_of_length_eq_zero (by omega)

/-- A last group that is read is the one that is written for its bytes. -/
theorem eq_encodedBytes_of_decodeTail {offset : Nat} {l out : List UInt8} (ne : l ≠ [])
    (hlen : l.length ≤ 4) (h : decodeTail offset 0 {} l = .ok out) : l = encodedBytes out := by
  rcases l with _ | ⟨a, _ | ⟨b, r⟩⟩
  · exact absurd rfl ne
  · obtain ⟨t₁, h₁, h⟩ := decodeTail_cons_eq_ok h
    obtain ⟨-, hk, -⟩ | ⟨v, hv, ha, -, rfl⟩ := push_eq_ok h₁
    · omega
    · simp [decodeTail, Tail.finish] at h
  obtain ⟨v, w, hv, hw, ha, hb, h⟩ := decodeTail_two_eq_ok h
  rcases r with _ | ⟨c, r⟩
  · simp [decodeTail, Tail.finish] at h
  obtain ⟨t₃, h₃, h⟩ := decodeTail_cons_eq_ok h
  obtain ⟨hc, -, rfl⟩ | ⟨x, hx, hc, -, rfl⟩ := push_eq_ok h₃
  · -- one byte: the rest is padding
    rcases r with _ | ⟨d, r⟩
    · simp [decodeTail, Tail.finish] at h
    obtain ⟨t₄, h₄, h⟩ := decodeTail_cons_eq_ok h
    obtain ⟨hd, -, rfl⟩ | ⟨_, _, _, hnone, _⟩ := push_eq_ok h₄
    · obtain rfl := eq_nil_of_length_le_four hlen
      obtain ⟨unused, rfl⟩ := finish_two h
      rw [encodedBytes, first_join hv hw, second_join_last hv hw unused, ← ha, ← hb, hc, hd]
    · cases hnone
  · rcases r with _ | ⟨d, r⟩
    · simp [decodeTail, Tail.finish] at h
    obtain rfl := eq_nil_of_length_le_four hlen
    obtain ⟨t₄, h₄, h⟩ := decodeTail_cons_eq_ok h
    obtain ⟨hd, -, rfl⟩ | ⟨y, hy, hd, -, rfl⟩ := push_eq_ok h₄
    · -- two bytes
      obtain ⟨unused, rfl⟩ := finish_three h
      rw [encodedBytes, first_join hv hw, second_join hv hw hx, third_join_last hw hx unused, ← ha, ← hb,
        ← hc, hd]
    · -- three bytes
      simp [decodeTail, Tail.finish] at h
      subst h
      rw [encodedBytes, encodedBytes, first_join hv hw, second_join hv hw hx, third_join hw hx hy,
        fourth_join hx hy, ← ha, ← hb, ← hc, ← hd]

theorem inner_eq_ok {offset : Nat} {b v : UInt8} (h : inner offset b = .ok v) :
    IsValue v ∧ b = symbolByte v := by
  rw [inner] at h
  split at h
  · next hv => cases h; exact value?_eq_some hv
  · cases h

theorem decodeFrom_eq_ok {offset : Nat} {acc out : Array UInt8} {bytes : List UInt8}
    (h : decodeFrom offset acc bytes = .ok out) :
    ∃ l : List UInt8, out = acc ++ l ∧ bytes = encodedBytes l := by
  induction offset, acc, bytes using decodeFrom.induct with
  | case1 offset acc a b c d e r ih =>
    rw [decodeFrom] at h
    obtain ⟨v, hv, h⟩ := bind_eq_ok_iff.mp h
    obtain ⟨w, hw, h⟩ := bind_eq_ok_iff.mp h
    obtain ⟨x, hx, h⟩ := bind_eq_ok_iff.mp h
    obtain ⟨y, hy, h⟩ := bind_eq_ok_iff.mp h
    obtain ⟨l, rfl, hl⟩ := ih v w x y h
    obtain ⟨hv, ha⟩ := inner_eq_ok hv
    obtain ⟨hw, hb⟩ := inner_eq_ok hw
    obtain ⟨hx, hc⟩ := inner_eq_ok hx
    obtain ⟨hy, hd⟩ := inner_eq_ok hy
    refine ⟨((v <<< 2) ||| (w >>> 4)) :: ((w <<< 4) ||| (x >>> 2)) :: ((x <<< 6) ||| y) :: l, by simp, ?_⟩
    rw [encodedBytes, first_join hv hw, second_join hv hw hx, third_join hw hx hy, fourth_join hx hy,
      ← ha, ← hb, ← hc, ← hd, hl]
  | case2 => exact ⟨[], by simpa [decodeFrom] using h.symm, rfl⟩
  | case3 offset acc last short ne =>
    have hlen : last.length ≤ 4 := by
      rcases last with _ | ⟨a, _ | ⟨b, _ | ⟨c, _ | ⟨d, _ | ⟨e, r⟩⟩⟩⟩⟩
      · simp
      · simp
      · simp
      · simp
      · simp
      · exact (short a b c d e r rfl).elim
    rw [decodeFrom_last _ _ ne hlen] at h
    cases htail : decodeTail offset 0 {} last with
    | error e => rw [htail] at h; cases h
    | ok l =>
      rw [htail] at h
      cases h
      exact ⟨l, rfl, eq_encodedBytes_of_decodeTail ne hlen htail⟩

/-- **Every text that is read is the one that is written for its bytes.** -/
theorem encode_of_decode_eq_ok {text : String} {b : Array UInt8} (h : decode text = .ok b) :
    encode b = text := by
  rw [decode] at h
  split at h
  · cases h
  obtain ⟨l, hb, hl⟩ := decodeFrom_eq_ok h
  have hbytes : (encode b).toByteArray.data = text.toByteArray.data := by
    rw [← Array.toList_inj, encode_bytes, hb, ← String.toUTF8_eq_toByteArray, hl]
    simp
  exact String.toByteArray_inj.mp (ByteArray.ext hbytes)

theorem decode_eq_ok_iff {text : String} {b : Array UInt8} : decode text = .ok b ↔ encode b = text := by
  constructor
  · exact encode_of_decode_eq_ok
  · rintro rfl
    exact decode_encode b

theorem encode_injective {b c : Array UInt8} (h : encode b = encode c) : b = c := by
  have hc := decode_encode c
  rw [← h, decode_encode] at hc
  exact Except.ok.inj hc

end AppleII.Base64
