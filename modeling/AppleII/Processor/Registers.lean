/-!
# Processor registers

The accumulator, the two index registers, the stack pointer, the program counter and the status
register.  The status register is kept as its eight flags; `Status.toByte` and `Status.ofByte` are
the byte the stack and the front end see, and they are inverse to each other.
-/

namespace AppleII.Processor

/-- The two processors: the NMOS part and its CMOS successor. -/
inductive Model where
  | nmos
  | cmos
  deriving DecidableEq, Repr, Inhabited

/-- The status register, one Boolean for each of its eight bits. -/
structure Status where
  negative : Bool
  overflow : Bool
  unused : Bool
  brk : Bool
  decimal : Bool
  interruptDisable : Bool
  zero : Bool
  carry : Bool
  deriving DecidableEq, Repr, Inhabited

/-- The eight bits of the status register, from bit 7 down. -/
inductive Flag where
  | negative
  | overflow
  | unused
  | brk
  | decimal
  | interruptDisable
  | zero
  | carry
  deriving DecidableEq, Repr

namespace Status

/-- A flag as the bit with weight `w`. -/
@[inline] def weight (w : UInt8) (b : Bool) : UInt8 := if b then w else 0

/-- The flags as one byte, `N V U B D I Z C` from bit 7 down. -/
def toByte (s : Status) : UInt8 :=
  weight 0x80 s.negative ||| weight 0x40 s.overflow ||| weight 0x20 s.unused |||
    weight 0x10 s.brk ||| weight 0x08 s.decimal ||| weight 0x04 s.interruptDisable |||
    weight 0x02 s.zero ||| weight 0x01 s.carry

/-- The flags that a byte stands for. -/
def ofByte (b : UInt8) : Status where
  negative := b &&& 0x80 != 0
  overflow := b &&& 0x40 != 0
  unused := b &&& 0x20 != 0
  brk := b &&& 0x10 != 0
  decimal := b &&& 0x08 != 0
  interruptDisable := b &&& 0x04 != 0
  zero := b &&& 0x02 != 0
  carry := b &&& 0x01 != 0

/-- One flag given a value. -/
def set (s : Status) (f : Flag) (b : Bool) : Status :=
  match f with
  | .negative => { s with negative := b }
  | .overflow => { s with overflow := b }
  | .unused => { s with unused := b }
  | .brk => { s with brk := b }
  | .decimal => { s with decimal := b }
  | .interruptDisable => { s with interruptDisable := b }
  | .zero => { s with zero := b }
  | .carry => { s with carry := b }

/-- The value of one flag. -/
def get (s : Status) : Flag → Bool
  | .negative => s.negative
  | .overflow => s.overflow
  | .unused => s.unused
  | .brk => s.brk
  | .decimal => s.decimal
  | .interruptDisable => s.interruptDisable
  | .zero => s.zero
  | .carry => s.carry

/-- The status after a result `v`: zero tells whether `v` is 0, negative is its bit 7. -/
@[inline] def setZN (s : Status) (v : UInt8) : Status :=
  { s with zero := v == 0, negative := v &&& 0x80 != 0 }

/-- The byte that `BRK` and `PHP` push: bits 4 and 5 are set. -/
@[inline] def pushedByProgram (s : Status) : UInt8 :=
  { s with brk := true, unused := true }.toByte

/-- The byte that an interrupt pushes: bit 5 is set and bit 4 is clear. -/
@[inline] def pushedByInterrupt (s : Status) : UInt8 :=
  { s with brk := false, unused := true }.toByte

/-- The status after a byte is pulled: bit 5 stays set and bit 4 stays clear. -/
@[inline] def pulled (b : UInt8) : Status :=
  { ofByte b with brk := false, unused := true }

/-- At power-up only the unused bit and the interrupt disable are set. -/
def powerUp : Status where
  negative := false
  overflow := false
  unused := true
  brk := false
  decimal := false
  interruptDisable := true
  zero := false
  carry := false

theorem ofByte_toByte (s : Status) : ofByte s.toByte = s := by
  rcases s with ⟨n, v, u, b, d, i, z, c⟩
  cases n <;> cases v <;> cases u <;> cases b <;> cases d <;> cases i <;> cases z <;> cases c <;> rfl

theorem toByte_ofByte (b : UInt8) : (ofByte b).toByte = b := by
  have h : ∀ n : Fin 256, (ofByte (UInt8.ofFin n)).toByte = UInt8.ofFin n := by decide +kernel
  exact h b.toFin

end Status

structure Registers where
  a : UInt8
  x : UInt8
  y : UInt8
  sp : UInt8
  pc : UInt16
  status : Status
  deriving DecidableEq, Repr, Inhabited

/-- The registers a program loads from and stores to memory. -/
inductive Register where
  | a
  | x
  | y
  deriving DecidableEq, Repr

namespace Registers

/-- The power-up values: the stack starts at `$01FD`. -/
def powerUp : Registers where
  a := 0
  x := 0
  y := 0
  sp := 0xFD
  pc := 0
  status := .powerUp

/-- The value of a register. -/
@[inline] def get (r : Registers) : Register → UInt8
  | .a => r.a
  | .x => r.x
  | .y => r.y

/-- A register given a value; the flags stay. -/
@[inline] def set (r : Registers) (g : Register) (v : UInt8) : Registers :=
  match g with
  | .a => { r with a := v }
  | .x => { r with x := v }
  | .y => { r with y := v }

/-- Zero and negative set from `v`. -/
@[inline] def setZN (r : Registers) (v : UInt8) : Registers :=
  { r with status := r.status.setZN v }

/-- A register given a value, with zero and negative set from it. -/
@[inline] def load (r : Registers) (g : Register) (v : UInt8) : Registers :=
  (r.set g v).setZN v

end Registers

/-- The 16-bit word with the given low and high bytes. -/
@[inline] def word (low high : UInt8) : UInt16 := (high.toUInt16 <<< 8) ||| low.toUInt16

end AppleII.Processor
