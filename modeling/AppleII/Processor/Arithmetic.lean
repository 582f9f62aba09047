import AppleII.Processor.Instruction

/-!
# What instructions compute

The pure part of the instructions: each operation as a function of the registers and the operand.
`addWithCarry` and `subtractWithBorrow` work in binary, or on packed decimal digits when the decimal
flag is set.  The two processors differ only in the zero and negative flags of a decimal result.
-/

namespace AppleII.Processor

/-- The sign bits of `a` and of `v` both differ from the sign bit of the result `r`. -/
@[inline] def signLost (a v r : UInt8) : Bool := (a ^^^ r) &&& (v ^^^ r) &&& 0x80 != 0

/-- The sum of the accumulator `a`, the operand `v` and the carry. -/
def addBinary (s : Status) (a v : UInt8) : UInt8 × Status :=
  let sum := a.toNat + v.toNat + s.carry.toNat
  let r := sum.toUInt8
  (r, { s with carry := decide (sum > 0xFF), overflow := signLost a v r }.setZN r)

/-- The sum of two packed decimal bytes and the carry.  Each digit above 9 is corrected by 6.
Overflow, and on the NMOS processor negative, are taken before the high digit is corrected; zero on
the NMOS processor is that of the binary sum. -/
def addDecimal (m : Model) (s : Status) (a v : UInt8) : UInt8 × Status :=
  let digit := a.toNat % 16 + v.toNat % 16 + s.carry.toNat
  let low := if digit > 9 then digit + 6 else digit
  let tens := a.toNat / 16 + v.toNat / 16 + (decide (low > 0x0F)).toNat
  let uncorrected := (tens * 16 + low % 16).toUInt8
  let high := if tens > 9 then tens + 6 else tens
  let r := (high * 16 + low % 16).toUInt8
  let s' := { s with overflow := signLost a v uncorrected, carry := decide (high > 0x0F) }
  match m with
  | .cmos => (r, s'.setZN r)
  | .nmos =>
    let sum := (a.toNat + v.toNat + s.carry.toNat).toUInt8
    (r, { s' with zero := sum == 0, negative := uncorrected &&& 0x80 != 0 })

/-- `ADC`: the new accumulator and the new flags. -/
def addWithCarry (m : Model) (s : Status) (a v : UInt8) : UInt8 × Status :=
  if s.decimal then addDecimal m s a v else addBinary s a v

/-- The difference of the accumulator `a`, the operand `v` and the borrow, with the flags of the
binary subtraction. -/
def subtractBinary (s : Status) (a v : UInt8) : UInt8 × Status :=
  let borrow := (!s.carry).toNat
  let r := a - v - borrow.toUInt8
  (r, { s with
    carry := decide (v.toNat + borrow ≤ a.toNat)
    overflow := (a ^^^ v) &&& (a ^^^ r) &&& 0x80 != 0 }.setZN r)

/-- The packed decimal difference of `a`, `v` and the borrow: a digit below 0 borrows 10 from the
next. -/
def decimalDifference (carry : Bool) (a v : UInt8) : UInt8 :=
  let digit : Int := (a.toNat % 16 : Nat) - (v.toNat % 16 : Nat) - (!carry).toNat
  let tens : Int := (a.toNat / 16 : Nat) - (v.toNat / 16 : Nat)
  let (low, tens) := if digit < 0 then (digit + 10, tens - 1) else (digit, tens)
  let high := if tens < 0 then tens + 10 else tens
  ((high % 16).toNat * 16 + (low % 16).toNat).toUInt8

/-- `SBC`: the new accumulator and the new flags.  Carry and overflow are those of the binary
subtraction in decimal mode too. -/
def subtractWithBorrow (m : Model) (s : Status) (a v : UInt8) : UInt8 × Status :=
  let (r, s') := subtractBinary s a v
  if s.decimal then
    let d := decimalDifference s.carry a v
    match m with
    | .cmos => (d, s'.setZN d)
    | .nmos => (d, s')
  else (r, s')

/-- The registers after an operand `v` is read. -/
def ReadOp.apply (m : Model) (op : ReadOp) (r : Registers) (v : UInt8) : Registers :=
  match op with
  | .load g => r.load g v
  | .compare g =>
    let u := r.get g
    { r with status := { r.status with carry := decide (v ≤ u) }.setZN (u - v) }
  | .add =>
    let (a, status) := addWithCarry m r.status r.a v
    { r with a, status }
  | .subtract =>
    let (a, status) := subtractWithBorrow m r.status r.a v
    { r with a, status }
  | .and => r.load .a (r.a &&& v)
  | .or => r.load .a (r.a ||| v)
  | .xor => r.load .a (r.a ^^^ v)
  | .bit => { r with
      status.zero := r.a &&& v == 0
      status.overflow := v &&& 0x40 != 0
      status.negative := v &&& 0x80 != 0 }
  | .bitZero => { r with status.zero := r.a &&& v == 0 }

/-- The value that is stored. -/
def Source.value (r : Registers) : Source → UInt8
  | .register g => r.get g
  | .zero => 0

/-- The value written back for an operand `v`, and the flags, given the accumulator `a`. -/
def ModifyOp.apply (op : ModifyOp) (a : UInt8) (s : Status) (v : UInt8) : UInt8 × Status :=
  match op with
  | .increment => (v + 1, s.setZN (v + 1))
  | .decrement => (v - 1, s.setZN (v - 1))
  | .shiftLeft =>
    let r := v <<< 1
    (r, { s with carry := v &&& 0x80 != 0 }.setZN r)
  | .shiftRight =>
    let r := v >>> 1
    (r, { s with carry := v &&& 0x01 != 0 }.setZN r)
  | .rotateLeft =>
    let r := (v <<< 1) ||| Status.weight 0x01 s.carry
    (r, { s with carry := v &&& 0x80 != 0 }.setZN r)
  | .rotateRight =>
    let r := (v >>> 1) ||| Status.weight 0x80 s.carry
    (r, { s with carry := v &&& 0x01 != 0 }.setZN r)
  | .testReset => (v &&& ~~~a, { s with zero := a &&& v == 0 })
  | .testSet => (v ||| a, { s with zero := a &&& v == 0 })
  | .resetBit n => (v &&& ~~~((1 : UInt8) <<< n.val.toUInt8), s)
  | .setBit n => (v ||| ((1 : UInt8) <<< n.val.toUInt8), s)

/-- The registers after an instruction that touches nothing else. -/
def RegisterOp.apply (op : RegisterOp) (r : Registers) : Registers :=
  match op with
  | .transfer s t => r.load t (r.get s)
  | .stackToX => r.load .x r.sp
  | .xToStack => { r with sp := r.x }
  | .incrementX => r.load .x (r.x + 1)
  | .incrementY => r.load .y (r.y + 1)
  | .decrementX => r.load .x (r.x - 1)
  | .decrementY => r.load .y (r.y - 1)
  | .setFlag f b => { r with status := r.status.set f b }
  | .nop => r

/-- Whether a branch is taken. -/
def Condition.holds (s : Status) : Condition → Bool
  | .flag f b => s.get f == b
  | .always => true

end AppleII.Processor
