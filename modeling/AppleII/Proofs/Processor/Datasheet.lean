import AppleII.Processor.Instruction
import AppleII.Proofs.Byte
import Mathlib.Tactic.MkIffOfInductiveProp

/-!
# The datasheet

What the manuals of the two processors say of each opcode, opcode by opcode: how many bytes it takes and how many
cycles, which operands cost a cycle more across a page, which opcodes branch, jump and write to memory.  Each table
is compared with the instructions that the opcodes are decoded to.
-/

namespace AppleII.Processor

/-- An indexed operand that costs a cycle more when the index carries it to another page. -/
inductive Indexing where
  /-- `$nnnn,X` or `$nnnn,Y` -/
  | absolute (index : Register)
  /-- `($nn),Y` -/
  | indirect
  deriving DecidableEq, Repr

/-- When a branch opcode branches. -/
inductive Branch where
  | onCondition (c : Condition)
  /-- On one bit of a zero-page cell. -/
  | onBit (n : Fin 8) (b : Bool)
  deriving DecidableEq, Repr

/-- The part of memory that an opcode writes. -/
inductive Written where
  | operand (m : Mode)
  /-- So many cells of the stack, from the stack pointer down. -/
  | stack (cells : Nat)
  deriving DecidableEq, Repr

namespace Datasheet

/-- A number for each opcode, the high digit of the opcode counting the rows and the low digit the columns. -/
abbrev Matrix := Vector (Vector Nat 16) 16

/-- The number of an opcode. -/
def Matrix.get (m : Matrix) (opcode : UInt8) : Nat :=
  have h := opcode.toNat_lt
  have hrow : opcode.toNat / 16 < 16 := by omega
  have hcolumn : opcode.toNat % 16 < 16 := by omega
  getElem (getElem m (opcode.toNat / 16) hrow) (opcode.toNat % 16) hcolumn

/-- The cycles of the NMOS processor; an opcode that it does not define takes two. -/
def nmosCycles : Matrix := #v[
  #v[7, 6, 2, 2, 2, 3, 5, 2, 3, 2, 2, 2, 2, 4, 6, 2],
  #v[2, 5, 2, 2, 2, 4, 6, 2, 2, 4, 2, 2, 2, 4, 7, 2],
  #v[6, 6, 2, 2, 3, 3, 5, 2, 4, 2, 2, 2, 4, 4, 6, 2],
  #v[2, 5, 2, 2, 2, 4, 6, 2, 2, 4, 2, 2, 2, 4, 7, 2],
  #v[6, 6, 2, 2, 2, 3, 5, 2, 3, 2, 2, 2, 3, 4, 6, 2],
  #v[2, 5, 2, 2, 2, 4, 6, 2, 2, 4, 2, 2, 2, 4, 7, 2],
  #v[6, 6, 2, 2, 2, 3, 5, 2, 4, 2, 2, 2, 5, 4, 6, 2],
  #v[2, 5, 2, 2, 2, 4, 6, 2, 2, 4, 2, 2, 2, 4, 7, 2],
  #v[2, 6, 2, 2, 3, 3, 3, 2, 2, 2, 2, 2, 4, 4, 4, 2],
  #v[2, 6, 2, 2, 4, 4, 4, 2, 2, 5, 2, 2, 2, 5, 2, 2],
  #v[2, 6, 2, 2, 3, 3, 3, 2, 2, 2, 2, 2, 4, 4, 4, 2],
  #v[2, 5, 2, 2, 4, 4, 4, 2, 2, 4, 2, 2, 4, 4, 4, 2],
  #v[2, 6, 2, 2, 3, 3, 5, 2, 2, 2, 2, 2, 4, 4, 6, 2],
  #v[2, 5, 2, 2, 2, 4, 6, 2, 2, 4, 2, 2, 2, 4, 7, 2],
  #v[2, 6, 2, 2, 3, 3, 5, 2, 2, 2, 2, 2, 4, 4, 6, 2],
  #v[2, 5, 2, 2, 2, 4, 6, 2, 2, 4, 2, 2, 2, 4, 7, 2]]

/-- The cycles of the CMOS processor.  `JMP ($nnnn)` takes one more than on the NMOS processor; shifts at `$nnnn,X`
take as many as there. -/
def cmosCycles : Matrix := #v[
  #v[7, 6, 2, 1, 5, 3, 5, 5, 3, 2, 2, 1, 6, 4, 6, 5],
  #v[2, 5, 5, 1, 5, 4, 6, 5, 2, 4, 2, 1, 6, 4, 7, 5],
  #v[6, 6, 2, 1, 3, 3, 5, 5, 4, 2, 2, 1, 4, 4, 6, 5],
  #v[2, 5, 5, 1, 4, 4, 6, 5, 2, 4, 2, 1, 4, 4, 7, 5],
  #v[6, 6, 2, 1, 3, 3, 5, 5, 3, 2, 2, 1, 3, 4, 6, 5],
  #v[2, 5, 5, 1, 4, 4, 6, 5, 2, 4, 3, 1, 8, 4, 7, 5],
  #v[6, 6, 2, 1, 3, 3, 5, 5, 4, 2, 2, 1, 6, 4, 6, 5],
  #v[2, 5, 5, 1, 4, 4, 6, 5, 2, 4, 4, 1, 6, 4, 7, 5],
  #v[2, 6, 2, 1, 3, 3, 3, 5, 2, 2, 2, 1, 4, 4, 4, 5],
  #v[2, 6, 5, 1, 4, 4, 4, 5, 2, 5, 2, 1, 4, 5, 5, 5],
  #v[2, 6, 2, 1, 3, 3, 3, 5, 2, 2, 2, 1, 4, 4, 4, 5],
  #v[2, 5, 5, 1, 4, 4, 4, 5, 2, 4, 2, 1, 4, 4, 4, 5],
  #v[2, 6, 2, 1, 3, 3, 5, 5, 2, 2, 2, 1, 4, 4, 6, 5],
  #v[2, 5, 5, 1, 4, 4, 6, 5, 2, 4, 3, 1, 4, 4, 7, 5],
  #v[2, 6, 2, 1, 3, 3, 5, 5, 2, 2, 2, 1, 4, 4, 6, 5],
  #v[2, 5, 5, 1, 4, 4, 6, 5, 2, 4, 4, 1, 4, 4, 7, 5]]

/-- The bytes of an instruction of the NMOS processor; an opcode that it does not define is one byte. -/
def nmosLength : Matrix := #v[
  #v[1, 2, 1, 1, 1, 2, 2, 1, 1, 2, 1, 1, 1, 3, 3, 1],
  #v[2, 2, 1, 1, 1, 2, 2, 1, 1, 3, 1, 1, 1, 3, 3, 1],
  #v[3, 2, 1, 1, 2, 2, 2, 1, 1, 2, 1, 1, 3, 3, 3, 1],
  #v[2, 2, 1, 1, 1, 2, 2, 1, 1, 3, 1, 1, 1, 3, 3, 1],
  #v[1, 2, 1, 1, 1, 2, 2, 1, 1, 2, 1, 1, 3, 3, 3, 1],
  #v[2, 2, 1, 1, 1, 2, 2, 1, 1, 3, 1, 1, 1, 3, 3, 1],
  #v[1, 2, 1, 1, 1, 2, 2, 1, 1, 2, 1, 1, 3, 3, 3, 1],
  #v[2, 2, 1, 1, 1, 2, 2, 1, 1, 3, 1, 1, 1, 3, 3, 1],
  #v[1, 2, 1, 1, 2, 2, 2, 1, 1, 1, 1, 1, 3, 3, 3, 1],
  #v[2, 2, 1, 1, 2, 2, 2, 1, 1, 3, 1, 1, 1, 3, 1, 1],
  #v[2, 2, 2, 1, 2, 2, 2, 1, 1, 2, 1, 1, 3, 3, 3, 1],
  #v[2, 2, 1, 1, 2, 2, 2, 1, 1, 3, 1, 1, 3, 3, 3, 1],
  #v[2, 2, 1, 1, 2, 2, 2, 1, 1, 2, 1, 1, 3, 3, 3, 1],
  #v[2, 2, 1, 1, 1, 2, 2, 1, 1, 3, 1, 1, 1, 3, 3, 1],
  #v[2, 2, 1, 1, 2, 2, 2, 1, 1, 2, 1, 1, 3, 3, 3, 1],
  #v[2, 2, 1, 1, 1, 2, 2, 1, 1, 3, 1, 1, 1, 3, 3, 1]]

/-- The bytes of an instruction of the CMOS processor. -/
def cmosLength : Matrix := #v[
  #v[1, 2, 2, 1, 2, 2, 2, 2, 1, 2, 1, 1, 3, 3, 3, 3],
  #v[2, 2, 2, 1, 2, 2, 2, 2, 1, 3, 1, 1, 3, 3, 3, 3],
  #v[3, 2, 2, 1, 2, 2, 2, 2, 1, 2, 1, 1, 3, 3, 3, 3],
  #v[2, 2, 2, 1, 2, 2, 2, 2, 1, 3, 1, 1, 3, 3, 3, 3],
  #v[1, 2, 2, 1, 2, 2, 2, 2, 1, 2, 1, 1, 3, 3, 3, 3],
  #v[2, 2, 2, 1, 2, 2, 2, 2, 1, 3, 1, 1, 3, 3, 3, 3],
  #v[1, 2, 2, 1, 2, 2, 2, 2, 1, 2, 1, 1, 3, 3, 3, 3],
  #v[2, 2, 2, 1, 2, 2, 2, 2, 1, 3, 1, 1, 3, 3, 3, 3],
  #v[2, 2, 2, 1, 2, 2, 2, 2, 1, 2, 1, 1, 3, 3, 3, 3],
  #v[2, 2, 2, 1, 2, 2, 2, 2, 1, 3, 1, 1, 3, 3, 3, 3],
  #v[2, 2, 2, 1, 2, 2, 2, 2, 1, 2, 1, 1, 3, 3, 3, 3],
  #v[2, 2, 2, 1, 2, 2, 2, 2, 1, 3, 1, 1, 3, 3, 3, 3],
  #v[2, 2, 2, 1, 2, 2, 2, 2, 1, 2, 1, 1, 3, 3, 3, 3],
  #v[2, 2, 2, 1, 2, 2, 2, 2, 1, 3, 1, 1, 3, 3, 3, 3],
  #v[2, 2, 2, 1, 2, 2, 2, 2, 1, 2, 1, 1, 3, 3, 3, 3],
  #v[2, 2, 2, 1, 2, 2, 2, 2, 1, 3, 1, 1, 3, 3, 3, 3]]

/-- The cycles of an opcode, without those for a crossed page and for a branch that is taken. -/
def cycles : Model → UInt8 → Nat
  | .nmos => nmosCycles.get
  | .cmos => cmosCycles.get

/-- The bytes of an instruction, its opcode among them. -/
def length : Model → UInt8 → Nat
  | .nmos => nmosLength.get
  | .cmos => cmosLength.get

/-- The opcodes whose operand costs a cycle more across a page. -/
def indexing? (m : Model) (opcode : UInt8) : Option Indexing :=
  match opcode with
  -- `ORA`, `AND`, `EOR`, `ADC`, `LDA`, `CMP`, `SBC`
  | 0x1D | 0x3D | 0x5D | 0x7D | 0xBD | 0xDD | 0xFD => some (.absolute .x)
  | 0x19 | 0x39 | 0x59 | 0x79 | 0xB9 | 0xD9 | 0xF9 => some (.absolute .y)
  | 0x11 | 0x31 | 0x51 | 0x71 | 0xB1 | 0xD1 | 0xF1 => some .indirect
  -- `LDY $nnnn,X` and `LDX $nnnn,Y`
  | 0xBC => some (.absolute .x)
  | 0xBE => some (.absolute .y)
  -- `BIT $nnnn,X`
  | 0x3C => if m = .cmos then some (.absolute .x) else none
  | _ => none

/-- The opcodes that branch.  On the CMOS processor the low digit `F` branches on a bit: bit 7 of the opcode is its
value, and bits 6 to 4 are its number. -/
def branch? (m : Model) (opcode : UInt8) : Option Branch :=
  match opcode with
  | 0x10 => some (.onCondition (.flag .negative false))
  | 0x30 => some (.onCondition (.flag .negative true))
  | 0x50 => some (.onCondition (.flag .overflow false))
  | 0x70 => some (.onCondition (.flag .overflow true))
  | 0x90 => some (.onCondition (.flag .carry false))
  | 0xB0 => some (.onCondition (.flag .carry true))
  | 0xD0 => some (.onCondition (.flag .zero false))
  | 0xF0 => some (.onCondition (.flag .zero true))
  | opcode =>
    if m = .cmos ∧ opcode = 0x80 then some (.onCondition .always)
    else if m = .cmos ∧ opcode.toNat % 16 = 15 then
      some (.onBit ⟨opcode.toNat / 16 % 8, Nat.mod_lt _ (by decide)⟩ (opcode.toNat.testBit 7))
    else none

/-- The opcodes that set the program counter: `BRK`, `JSR`, `RTI`, `RTS` and the jumps. -/
def jumps (m : Model) (opcode : UInt8) : Bool :=
  match opcode with
  | 0x00 | 0x20 | 0x40 | 0x60 | 0x4C | 0x6C => true
  | 0x7C => m = .cmos
  | _ => false

/-- The opcodes that write to memory: stores, shifts and counts of a memory operand, pushes, calls and `BRK`; on the
CMOS processor also `STZ`, and what tests or changes single bits.  The low digit `7` clears or sets one bit. -/
def written? (m : Model) (opcode : UInt8) : Option Written :=
  match opcode with
  -- `STA`, `STX`, `STY`
  | 0x85 | 0x86 | 0x84 => some (.operand .zeroPage)
  | 0x95 | 0x94 => some (.operand .zeroPageX)
  | 0x96 => some (.operand .zeroPageY)
  | 0x8D | 0x8E | 0x8C => some (.operand .absolute)
  | 0x9D => some (.operand .absoluteX)
  | 0x99 => some (.operand .absoluteY)
  | 0x81 => some (.operand .indirectX)
  | 0x91 => some (.operand .indirectY)
  -- `ASL`, `ROL`, `LSR`, `ROR`, `DEC`, `INC`
  | 0x06 | 0x26 | 0x46 | 0x66 | 0xC6 | 0xE6 => some (.operand .zeroPage)
  | 0x16 | 0x36 | 0x56 | 0x76 | 0xD6 | 0xF6 => some (.operand .zeroPageX)
  | 0x0E | 0x2E | 0x4E | 0x6E | 0xCE | 0xEE => some (.operand .absolute)
  | 0x1E | 0x3E | 0x5E | 0x7E | 0xDE | 0xFE => some (.operand .absoluteX)
  -- `PHP` and `PHA`, `JSR`, `BRK`
  | 0x08 | 0x48 => some (.stack 1)
  | 0x20 => some (.stack 2)
  | 0x00 => some (.stack 3)
  | opcode =>
    if m = .nmos then none
    else
      match opcode with
      -- `STA`
      | 0x92 => some (.operand .zeroPageIndirect)
      -- `STZ`
      | 0x64 => some (.operand .zeroPage)
      | 0x74 => some (.operand .zeroPageX)
      | 0x9C => some (.operand .absolute)
      | 0x9E => some (.operand .absoluteX)
      -- `TSB` and `TRB`
      | 0x04 | 0x14 => some (.operand .zeroPage)
      | 0x0C | 0x1C => some (.operand .absolute)
      -- `PHY` and `PHX`
      | 0x5A | 0xDA => some (.stack 1)
      | opcode => if opcode.toNat % 16 = 7 then some (.operand .zeroPage) else none

end Datasheet

/-! ## Instructions -/

namespace Mode

/-- The operand bytes. -/
def bytes : Mode → Nat
  | .absolute | .absoluteX | .absoluteY => 2
  | _ => 1

/-- The cycles until the address of the operand is known, without one for a crossed page.  An index is added in
full when the operand is written. -/
def cycles (writes : Bool) : Mode → Nat
  | .immediate => 0
  | .zeroPage => 1
  | .zeroPageX | .zeroPageY | .absolute => 2
  | .absoluteX | .absoluteY => 2 + writes.toNat
  | .indirectX => 4
  | .indirectY => 3 + writes.toNat
  | .zeroPageIndirect => 3

def indexing? : Mode → Option Indexing
  | .absoluteX => some (.absolute .x)
  | .absoluteY => some (.absolute .y)
  | .indirectY => some .indirect
  | _ => none

end Mode

namespace Instruction

/-- The bytes after the opcode. -/
def operandBytes : Instruction → Nat
  | .read _ mode | .write _ mode | .modify _ mode => mode.bytes
  | .branch _ => 1
  | .branchBit .. | .jump | .jumpIndirect | .jumpIndexedIndirect | .call => 2
  | .skip operands _ => operands
  | _ => 0

/-- The cycles after the opcode is fetched, without those for a crossed page and for a branch that is taken. -/
def cycles (m : Model) : Instruction → Nat
  | .read _ mode => mode.cycles false + 1
  | .write _ mode => mode.cycles true + 1
  | .modify _ mode => mode.cycles true + 3
  | .modifyAccumulator _ | .register _ | .branch _ => 1
  | .push _ | .pushStatus | .jump => 2
  | .pull _ | .pullStatus => 3
  | .branchBit .. => 4
  | .jumpIndirect => if m = .cmos then 5 else 4
  | .jumpIndexedIndirect | .call | .ret | .returnFromInterrupt => 5
  | .break => 6
  | .skip operands extra => operands + extra

def indexing? : Instruction → Option Indexing
  | .read _ mode => mode.indexing?
  | _ => none

def branch? : Instruction → Option Branch
  | .branch c => some (.onCondition c)
  | .branchBit n b => some (.onBit n b)
  | _ => none

/-- The instruction sets the program counter. -/
def jumps : Instruction → Bool
  | .jump | .jumpIndirect | .jumpIndexedIndirect | .call | .ret | .break | .returnFromInterrupt => true
  | _ => false

def written? : Instruction → Option Written
  | .write _ mode | .modify _ mode => some (.operand mode)
  | .push _ | .pushStatus => some (.stack 1)
  | .call => some (.stack 2)
  | .break => some (.stack 3)
  | _ => none

end Instruction

/-! ## Each opcode is decoded as documented -/

namespace Instruction

/-- The instruction of an opcode is as long as documented, takes as many cycles, and branches, jumps and writes where
it is documented to. -/
@[mk_iff]
structure Documented (m : Model) (opcode : UInt8) (i : Instruction) : Prop where
  cycles : Datasheet.cycles m opcode = 1 + i.cycles m
  length : Datasheet.length m opcode = 1 + i.operandBytes
  indexing? : Datasheet.indexing? m opcode = i.indexing?
  branch? : Datasheet.branch? m opcode = i.branch?
  jumps : Datasheet.jumps m opcode = i.jumps
  written? : Datasheet.written? m opcode = i.written?

instance (m : Model) (opcode : UInt8) (i : Instruction) : Decidable (Documented m opcode i) :=
  decidable_of_iff' _ (documented_iff m opcode i)

theorem documented_decode (m : Model) : ∀ opcode, Documented m opcode (decode m opcode) := by
  cases m <;> exact forall_byte (by decide +kernel)

end Instruction

end AppleII.Processor
