/-!
# Base64

Three bytes become four symbols of a 64-letter alphabet; one or two bytes at the end become two or
three symbols, filled up to four with `=`.  `decode` takes exactly the texts that `encode` writes: the
padding has to be there, and the unused bits of the last symbol have to be zero.
-/

namespace AppleII.Base64

/-- What is wrong with a text. -/
inductive Error where
  /-- A byte that may not stand where it does. -/
  | symbol (byte : UInt8) (offset : Nat)
  /-- The last group has too few symbols to make a byte. -/
  | length (n : Nat)
  | padding
  /-- The last symbol has bits beyond the last byte. -/
  | lastSymbol (byte : UInt8) (offset : Nat)
  deriving DecidableEq, Repr

/-- The text of an error. -/
def Error.message : Error → String
  | .symbol b i => s!"Invalid symbol {b.toNat}, offset {i}."
  | .length n => s!"Invalid input length: {n}"
  | .padding => "Invalid padding"
  | .lastSymbol b i => s!"Invalid last symbol {b.toNat}, offset {i}."

/-- The padding byte. -/
def pad : UInt8 := 0x3D

/-- The symbol of a value below 64. -/
def symbol (v : UInt8) : Char :=
  Char.ofNat <|
    if v < 26 then v.toNat + 65
    else if v < 52 then v.toNat + 71
    else if v < 62 then v.toNat - 4
    else if v < 63 then 43
    else 47

/-- The value of a symbol. -/
def value? (b : UInt8) : Option UInt8 :=
  if 65 ≤ b && b ≤ 90 then some (b - 65)
  else if 97 ≤ b && b ≤ 122 then some (b - 71)
  else if 48 ≤ b && b ≤ 57 then some (b + 4)
  else if b == 43 then some 62
  else if b == 47 then some 63
  else none

/-! ## Writing -/

/-- The first of the four values of a group. -/
@[inline] def first (a : UInt8) : UInt8 := a >>> 2
/-- The second value of a group. -/
@[inline] def second (a b : UInt8) : UInt8 := ((a &&& 0x03) <<< 4) ||| (b >>> 4)
/-- The third value of a group. -/
@[inline] def third (b c : UInt8) : UInt8 := ((b &&& 0x0F) <<< 2) ||| (c >>> 6)
/-- The fourth value of a group. -/
@[inline] def fourth (c : UInt8) : UInt8 := c &&& 0x3F

/-- The text of some bytes, appended to `acc`. -/
def appendEncoded (acc : String) : List UInt8 → String
  | a :: b :: c :: r =>
    appendEncoded
      ((((acc.push (symbol (first a))).push (symbol (second a b))).push (symbol (third b c))).push
        (symbol (fourth c))) r
  | [a, b] =>
    (((acc.push (symbol (first a))).push (symbol (second a b))).push (symbol (third b 0))).push '='
  | [a] => (((acc.push (symbol (first a))).push (symbol (second a 0))).push '=').push '='
  | [] => acc

/-- The text of some bytes. -/
def encode (bytes : Array UInt8) : String := appendEncoded "" bytes.toList

/-! ## Reading -/

/-- The last group as far as it is read. -/
structure Tail where
  /-- The values of its symbols, latest first, each with the symbol. -/
  symbols : List (UInt8 × UInt8) := []
  /-- The place of its first padding, once there is one. -/
  firstPad : Option Nat := none
  pads : Nat := 0

/-- One more byte of the last group, at place `k` of the group that starts at `offset`. -/
def Tail.push (offset k : Nat) (t : Tail) (b : UInt8) : Except Error Tail :=
  if b == pad then
    if k < 2 then .error (.symbol b (offset + k))
    else .ok { t with firstPad := some (t.firstPad.getD k), pads := t.pads + 1 }
  else
    match t.firstPad, value? b with
    | some p, _ => .error (.symbol pad (offset + p))
    | none, none => .error (.symbol b (offset + k))
    | none, some v => .ok { t with symbols := (v, b) :: t.symbols }

/-- The bytes of the last group, once all of it is read. -/
def Tail.finish (offset : Nat) (t : Tail) : Except Error (List UInt8) :=
  let n := t.symbols.length
  if n < 2 then .error (.length (offset + n))
  else if (n + t.pads) % 4 ≠ 0 then .error .padding
  else
    match t.symbols with
    | [(w, s), (v, _)] =>
      if w &&& 0x0F != 0 then .error (.lastSymbol s (offset + 1))
      else .ok [(v <<< 2) ||| (w >>> 4)]
    | [(x, s), (w, _), (v, _)] =>
      if x &&& 0x03 != 0 then .error (.lastSymbol s (offset + 2))
      else .ok [(v <<< 2) ||| (w >>> 4), (w <<< 4) ||| (x >>> 2)]
    | [(y, _), (x, _), (w, _), (v, _)] =>
      .ok [(v <<< 2) ||| (w >>> 4), (w <<< 4) ||| (x >>> 2), (x <<< 6) ||| y]
    | _ => .error .padding

/-- The last group, from its place `k` on. -/
def decodeTail (offset k : Nat) (t : Tail) : List UInt8 → Except Error (List UInt8)
  | [] => t.finish offset
  | b :: r => do decodeTail offset (k + 1) (← t.push offset k b) r

/-- The value of a byte before the last group. -/
@[inline] def inner (offset : Nat) (b : UInt8) : Except Error UInt8 :=
  match value? b with
  | some v => .ok v
  | none => .error (.symbol b offset)

/-- The bytes of the text from `offset` on, appended to `acc`.  A group is not the last one when a
byte follows it. -/
def decodeFrom (offset : Nat) (acc : Array UInt8) : List UInt8 → Except Error (Array UInt8)
  | a :: b :: c :: d :: e :: r => do
    let v ← inner offset a
    let w ← inner (offset + 1) b
    let x ← inner (offset + 2) c
    let y ← inner (offset + 3) d
    decodeFrom (offset + 4)
      (((acc.push ((v <<< 2) ||| (w >>> 4))).push ((w <<< 4) ||| (x >>> 2))).push ((x <<< 6) ||| y))
      (e :: r)
  | [] => .ok acc
  | last => do return acc ++ (← decodeTail offset 0 {} last)

/-- A last byte that stands alone after whole groups is looked at before all others. -/
def strayByte? (text : Array UInt8) : Option Error :=
  if text.size % 4 = 1 then
    match text.back? with
    | some b => if b == pad || (value? b).isSome then none else some (.symbol b (text.size - 1))
    | none => none
  else none

/-- The bytes that a text stands for. -/
def decode (text : String) : Except Error (Array UInt8) :=
  let bytes := text.toUTF8.data
  match strayByte? bytes with
  | some e => .error e
  | none => decodeFrom 0 #[] bytes.toList

end AppleII.Base64
