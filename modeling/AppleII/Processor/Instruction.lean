import AppleII.Processor.Registers

/-!
# Instructions

An opcode is decoded into an instruction: what the instruction does, grouped by the accesses it makes
(`read`, `write`, `modify`, …), and the addressing mode that finds its operand.  `decode` gives the
instruction of each of the 256 opcodes on both processors.
-/

namespace AppleII.Processor

/-- The ways to find an operand in memory. -/
inductive Mode where
  /-- `#$nn`: the byte after the opcode. -/
  | immediate
  /-- `$nn` -/
  | zeroPage
  /-- `$nn,X` -/
  | zeroPageX
  /-- `$nn,Y` -/
  | zeroPageY
  /-- `$nnnn` -/
  | absolute
  /-- `$nnnn,X` -/
  | absoluteX
  /-- `$nnnn,Y` -/
  | absoluteY
  /-- `($nn,X)`: the pointer is found by the indexed zero-page address. -/
  | indirectX
  /-- `($nn),Y`: the pointer is indexed. -/
  | indirectY
  /-- `($nn)` -/
  | zeroPageIndirect
  deriving DecidableEq, Repr

/-- What is done with an operand that is only read. -/
inductive ReadOp where
  | load (r : Register)
  | compare (r : Register)
  | add
  | subtract
  | and
  | or
  | xor
  /-- Zero tells whether operand and accumulator share a bit; bits 7 and 6 go to negative and overflow. -/
  | bit
  /-- Zero alone is set, as `BIT #` does. -/
  | bitZero
  deriving DecidableEq, Repr

/-- What is stored. -/
inductive Source where
  | register (r : Register)
  | zero
  deriving DecidableEq, Repr

/-- What is done with an operand that is read and written back. -/
inductive ModifyOp where
  | increment
  | decrement
  | shiftLeft
  | shiftRight
  | rotateLeft
  | rotateRight
  /-- Clears the bits that the accumulator has. -/
  | testReset
  /-- Sets the bits that the accumulator has. -/
  | testSet
  | resetBit (n : Fin 8)
  | setBit (n : Fin 8)
  deriving DecidableEq, Repr

/-- Instructions that touch only the registers. -/
inductive RegisterOp where
  /-- Copies one register to another. -/
  | transfer (source target : Register)
  | stackToX
  | xToStack
  | incrementX
  | incrementY
  | decrementX
  | decrementY
  | setFlag (f : Flag) (b : Bool)
  | nop
  deriving DecidableEq, Repr

/-- When a branch is taken. -/
inductive Condition where
  | flag (f : Flag) (b : Bool)
  | always
  deriving DecidableEq, Repr

inductive Instruction where
  | read (op : ReadOp) (m : Mode)
  | write (s : Source) (m : Mode)
  | modify (op : ModifyOp) (m : Mode)
  | modifyAccumulator (op : ModifyOp)
  | register (op : RegisterOp)
  | push (r : Register)
  | pull (r : Register)
  | pushStatus
  | pullStatus
  | branch (c : Condition)
  /-- Branches on one bit of a zero-page cell. -/
  | branchBit (n : Fin 8) (b : Bool)
  | jump
  | jumpIndirect
  | jumpIndexedIndirect
  | call
  | ret
  | break
  | returnFromInterrupt
  /-- Passes over operand bytes; `extra` cycles go by beside the fetches. -/
  | skip (operands extra : Nat)
  deriving DecidableEq, Repr

namespace Instruction

/-- The opcode of `JSR`, which a step over looks for. -/
def callOpcode : UInt8 := 0x20

/-- The opcode of `RTS`, which a step out looks for. -/
def retOpcode : UInt8 := 0x60

open Mode ReadOp Register in
/-- The instructions that both processors have. -/
def decodeCommon : UInt8 → Option Instruction
  | 0xA9 => some <| read (load a) immediate
  | 0xA5 => some <| read (load a) zeroPage
  | 0xB5 => some <| read (load a) zeroPageX
  | 0xAD => some <| read (load a) absolute
  | 0xBD => some <| read (load a) absoluteX
  | 0xB9 => some <| read (load a) absoluteY
  | 0xA1 => some <| read (load a) indirectX
  | 0xB1 => some <| read (load a) indirectY
  | 0xA2 => some <| read (load x) immediate
  | 0xA6 => some <| read (load x) zeroPage
  | 0xB6 => some <| read (load x) zeroPageY
  | 0xAE => some <| read (load x) absolute
  | 0xBE => some <| read (load x) absoluteY
  | 0xA0 => some <| read (load y) immediate
  | 0xA4 => some <| read (load y) zeroPage
  | 0xB4 => some <| read (load y) zeroPageX
  | 0xAC => some <| read (load y) absolute
  | 0xBC => some <| read (load y) absoluteX
  | 0x85 => some <| write (.register a) zeroPage
  | 0x95 => some <| write (.register a) zeroPageX
  | 0x8D => some <| write (.register a) absolute
  | 0x9D => some <| write (.register a) absoluteX
  | 0x99 => some <| write (.register a) absoluteY
  | 0x81 => some <| write (.register a) indirectX
  | 0x91 => some <| write (.register a) indirectY
  | 0x86 => some <| write (.register x) zeroPage
  | 0x96 => some <| write (.register x) zeroPageY
  | 0x8E => some <| write (.register x) absolute
  | 0x84 => some <| write (.register y) zeroPage
  | 0x94 => some <| write (.register y) zeroPageX
  | 0x8C => some <| write (.register y) absolute
  | 0xAA => some <| register (.transfer a x)
  | 0x8A => some <| register (.transfer x a)
  | 0xA8 => some <| register (.transfer a y)
  | 0x98 => some <| register (.transfer y a)
  | 0xBA => some <| register .stackToX
  | 0x9A => some <| register .xToStack
  | 0x48 => some <| push a
  | 0x08 => some pushStatus
  | 0x68 => some <| pull a
  | 0x28 => some pullStatus
  | 0x69 => some <| read add immediate
  | 0x65 => some <| read add zeroPage
  | 0x75 => some <| read add zeroPageX
  | 0x6D => some <| read add absolute
  | 0x7D => some <| read add absoluteX
  | 0x79 => some <| read add absoluteY
  | 0x61 => some <| read add indirectX
  | 0x71 => some <| read add indirectY
  | 0xE9 => some <| read subtract immediate
  | 0xE5 => some <| read subtract zeroPage
  | 0xF5 => some <| read subtract zeroPageX
  | 0xED => some <| read subtract absolute
  | 0xFD => some <| read subtract absoluteX
  | 0xF9 => some <| read subtract absoluteY
  | 0xE1 => some <| read subtract indirectX
  | 0xF1 => some <| read subtract indirectY
  | 0xC9 => some <| read (compare a) immediate
  | 0xC5 => some <| read (compare a) zeroPage
  | 0xD5 => some <| read (compare a) zeroPageX
  | 0xCD => some <| read (compare a) absolute
  | 0xDD => some <| read (compare a) absoluteX
  | 0xD9 => some <| read (compare a) absoluteY
  | 0xC1 => some <| read (compare a) indirectX
  | 0xD1 => some <| read (compare a) indirectY
  | 0xE0 => some <| read (compare x) immediate
  | 0xE4 => some <| read (compare x) zeroPage
  | 0xEC => some <| read (compare x) absolute
  | 0xC0 => some <| read (compare y) immediate
  | 0xC4 => some <| read (compare y) zeroPage
  | 0xCC => some <| read (compare y) absolute
  | 0x29 => some <| read ReadOp.and immediate
  | 0x25 => some <| read ReadOp.and zeroPage
  | 0x35 => some <| read ReadOp.and zeroPageX
  | 0x2D => some <| read ReadOp.and absolute
  | 0x3D => some <| read ReadOp.and absoluteX
  | 0x39 => some <| read ReadOp.and absoluteY
  | 0x21 => some <| read ReadOp.and indirectX
  | 0x31 => some <| read ReadOp.and indirectY
  | 0x09 => some <| read ReadOp.or immediate
  | 0x05 => some <| read ReadOp.or zeroPage
  | 0x15 => some <| read ReadOp.or zeroPageX
  | 0x0D => some <| read ReadOp.or absolute
  | 0x1D => some <| read ReadOp.or absoluteX
  | 0x19 => some <| read ReadOp.or absoluteY
  | 0x01 => some <| read ReadOp.or indirectX
  | 0x11 => some <| read ReadOp.or indirectY
  | 0x49 => some <| read ReadOp.xor immediate
  | 0x45 => some <| read ReadOp.xor zeroPage
  | 0x55 => some <| read ReadOp.xor zeroPageX
  | 0x4D => some <| read ReadOp.xor absolute
  | 0x5D => some <| read ReadOp.xor absoluteX
  | 0x59 => some <| read ReadOp.xor absoluteY
  | 0x41 => some <| read ReadOp.xor indirectX
  | 0x51 => some <| read ReadOp.xor indirectY
  | 0x24 => some <| read bit zeroPage
  | 0x2C => some <| read bit absolute
  | 0xE6 => some <| modify .increment zeroPage
  | 0xF6 => some <| modify .increment zeroPageX
  | 0xEE => some <| modify .increment absolute
  | 0xFE => some <| modify .increment absoluteX
  | 0xC6 => some <| modify .decrement zeroPage
  | 0xD6 => some <| modify .decrement zeroPageX
  | 0xCE => some <| modify .decrement absolute
  | 0xDE => some <| modify .decrement absoluteX
  | 0xE8 => some <| register .incrementX
  | 0xC8 => some <| register .incrementY
  | 0xCA => some <| register .decrementX
  | 0x88 => some <| register .decrementY
  | 0x0A => some <| modifyAccumulator .shiftLeft
  | 0x06 => some <| modify .shiftLeft zeroPage
  | 0x16 => some <| modify .shiftLeft zeroPageX
  | 0x0E => some <| modify .shiftLeft absolute
  | 0x1E => some <| modify .shiftLeft absoluteX
  | 0x4A => some <| modifyAccumulator .shiftRight
  | 0x46 => some <| modify .shiftRight zeroPage
  | 0x56 => some <| modify .shiftRight zeroPageX
  | 0x4E => some <| modify .shiftRight absolute
  | 0x5E => some <| modify .shiftRight absoluteX
  | 0x2A => some <| modifyAccumulator .rotateLeft
  | 0x26 => some <| modify .rotateLeft zeroPage
  | 0x36 => some <| modify .rotateLeft zeroPageX
  | 0x2E => some <| modify .rotateLeft absolute
  | 0x3E => some <| modify .rotateLeft absoluteX
  | 0x6A => some <| modifyAccumulator .rotateRight
  | 0x66 => some <| modify .rotateRight zeroPage
  | 0x76 => some <| modify .rotateRight zeroPageX
  | 0x6E => some <| modify .rotateRight absolute
  | 0x7E => some <| modify .rotateRight absoluteX
  | 0x10 => some <| branch (.flag .negative false)
  | 0x30 => some <| branch (.flag .negative true)
  | 0x50 => some <| branch (.flag .overflow false)
  | 0x70 => some <| branch (.flag .overflow true)
  | 0x90 => some <| branch (.flag .carry false)
  | 0xB0 => some <| branch (.flag .carry true)
  | 0xD0 => some <| branch (.flag .zero false)
  | 0xF0 => some <| branch (.flag .zero true)
  | 0x4C => some jump
  | 0x6C => some jumpIndirect
  | 0x20 => some call
  | 0x60 => some ret
  | 0x00 => some .break
  | 0x40 => some returnFromInterrupt
  | 0x18 => some <| register (.setFlag .carry false)
  | 0x38 => some <| register (.setFlag .carry true)
  | 0x58 => some <| register (.setFlag .interruptDisable false)
  | 0x78 => some <| register (.setFlag .interruptDisable true)
  | 0xB8 => some <| register (.setFlag .overflow false)
  | 0xD8 => some <| register (.setFlag .decimal false)
  | 0xF8 => some <| register (.setFlag .decimal true)
  | 0xEA => some <| register .nop
  | _ => none

open Mode ReadOp Register in
/-- The instructions that the CMOS processor adds.  All its other opcodes pass over zero, one or two
operand bytes. -/
def decodeAdded : UInt8 → Instruction
  | 0xB2 => read (load a) zeroPageIndirect
  | 0x92 => write (.register a) zeroPageIndirect
  | 0x64 => write .zero zeroPage
  | 0x74 => write .zero zeroPageX
  | 0x9C => write .zero absolute
  | 0x9E => write .zero absoluteX
  | 0xDA => push x
  | 0x5A => push y
  | 0xFA => pull x
  | 0x7A => pull y
  | 0x72 => read add zeroPageIndirect
  | 0xF2 => read subtract zeroPageIndirect
  | 0xD2 => read (compare a) zeroPageIndirect
  | 0x32 => read ReadOp.and zeroPageIndirect
  | 0x12 => read ReadOp.or zeroPageIndirect
  | 0x52 => read ReadOp.xor zeroPageIndirect
  | 0x89 => read bitZero immediate
  | 0x34 => read bit zeroPageX
  | 0x3C => read bit absoluteX
  | 0x1A => modifyAccumulator .increment
  | 0x3A => modifyAccumulator .decrement
  | 0x14 => modify .testReset zeroPage
  | 0x1C => modify .testReset absolute
  | 0x04 => modify .testSet zeroPage
  | 0x0C => modify .testSet absolute
  | 0x80 => branch .always
  | 0x7C => jumpIndexedIndirect
  | 0x07 => modify (.resetBit 0) zeroPage
  | 0x17 => modify (.resetBit 1) zeroPage
  | 0x27 => modify (.resetBit 2) zeroPage
  | 0x37 => modify (.resetBit 3) zeroPage
  | 0x47 => modify (.resetBit 4) zeroPage
  | 0x57 => modify (.resetBit 5) zeroPage
  | 0x67 => modify (.resetBit 6) zeroPage
  | 0x77 => modify (.resetBit 7) zeroPage
  | 0x87 => modify (.setBit 0) zeroPage
  | 0x97 => modify (.setBit 1) zeroPage
  | 0xA7 => modify (.setBit 2) zeroPage
  | 0xB7 => modify (.setBit 3) zeroPage
  | 0xC7 => modify (.setBit 4) zeroPage
  | 0xD7 => modify (.setBit 5) zeroPage
  | 0xE7 => modify (.setBit 6) zeroPage
  | 0xF7 => modify (.setBit 7) zeroPage
  | 0x0F => branchBit 0 false
  | 0x1F => branchBit 1 false
  | 0x2F => branchBit 2 false
  | 0x3F => branchBit 3 false
  | 0x4F => branchBit 4 false
  | 0x5F => branchBit 5 false
  | 0x6F => branchBit 6 false
  | 0x7F => branchBit 7 false
  | 0x8F => branchBit 0 true
  | 0x9F => branchBit 1 true
  | 0xAF => branchBit 2 true
  | 0xBF => branchBit 3 true
  | 0xCF => branchBit 4 true
  | 0xDF => branchBit 5 true
  | 0xEF => branchBit 6 true
  | 0xFF => branchBit 7 true
  | 0x02 | 0x22 | 0x42 | 0x62 | 0x82 | 0xC2 | 0xE2 => skip 1 0
  | 0x44 => skip 1 1
  | 0x54 | 0xD4 | 0xF4 => skip 1 2
  | 0x5C => skip 2 5
  | 0xDC | 0xFC => skip 2 1
  | _ => skip 0 0

/-- The instruction that an opcode stands for.  An opcode the NMOS processor does not define does
nothing for two cycles. -/
def decode (m : Model) (opcode : UInt8) : Instruction :=
  match decodeCommon opcode with
  | some i => i
  | none =>
    match m with
    | .nmos => skip 0 1
    | .cmos => decodeAdded opcode

/-- `decode .nmos` for each opcode. -/
def nmosTable : Vector Instruction 256 := Vector.ofFn fun i => decode .nmos i.val.toUInt8

/-- `decode .cmos` for each opcode. -/
def cmosTable : Vector Instruction 256 := Vector.ofFn fun i => decode .cmos i.val.toUInt8

/-- The instruction that an opcode stands for, looked up in a table. -/
def ofOpcode (m : Model) (opcode : UInt8) : Instruction :=
  match m with
  | .nmos => getElem nmosTable opcode.toNat opcode.toNat_lt
  | .cmos => getElem cmosTable opcode.toNat opcode.toNat_lt

@[simp] theorem ofOpcode_eq_decode (m : Model) (opcode : UInt8) :
    ofOpcode m opcode = decode m opcode := by
  cases m <;>
    simp only [ofOpcode, nmosTable, cmosTable, Vector.getElem_ofFn, Nat.toUInt8_eq, UInt8.ofNat_toNat]

end Instruction

end AppleII.Processor
