import AppleII.Processor.Arithmetic
import AppleII.Processor.Bus

/-!
# Executing an instruction

`Exec` is a computation on the registers and a bus that counts the cycles it takes.  The accesses of
an instruction happen in a fixed order: the opcode, the operand bytes, the pointer bytes, the operand
itself, and last what is written.
-/

namespace AppleII.Processor

/-- The registers and the bus while an instruction executes, with the cycles it has taken so far. -/
structure Datapath (σ : Type) where
  regs : Registers
  bus : σ
  cycles : Nat

/-- A step of an instruction. -/
abbrev Exec (σ : Type) := StateM (Datapath σ)

namespace Exec

variable {σ : Type}

@[always_inline, inline] def regs : Exec σ Registers := fun s => (s.regs, s)

/-- The registers changed. -/
@[always_inline, inline] def modifyRegs (f : Registers → Registers) : Exec σ Unit :=
  fun s => ((), { s with regs := f s.regs })

/-- `n` cycles go by. -/
@[always_inline, inline] def wait (n : Nat) : Exec σ Unit :=
  fun s => ((), { s with cycles := s.cycles + n })

/-- The program counter given a value. -/
@[always_inline, inline] def jumpTo (address : UInt16) : Exec σ Unit :=
  modifyRegs fun r => { r with pc := address }

variable [Bus σ]

/-- A byte read from the bus. -/
@[always_inline, inline] def read (address : UInt16) : Exec σ UInt8 := fun s =>
  let (value, bus) := Bus.read s.bus address
  (value, { s with bus })

/-- A byte written to the bus. -/
@[always_inline, inline] def write (address : UInt16) (value : UInt8) : Exec σ Unit := fun s =>
  ((), { s with bus := Bus.write s.bus address value })

/-- The byte at the program counter, which moves past it; one cycle. -/
@[specialize] def fetchByte : Exec σ UInt8 := do
  let r ← regs
  let value ← read r.pc
  modifyRegs fun r => { r with pc := r.pc + 1 }
  wait 1
  return value

/-- The word at the program counter, low byte first. -/
@[specialize] def fetchWord : Exec σ UInt16 := do
  let low ← fetchByte
  let high ← fetchByte
  return word low high

/-- A word whose two bytes are at the given addresses. -/
@[specialize] def readWord (low high : UInt16) : Exec σ UInt16 := do
  let l ← read low
  let h ← read high
  return word l h

/-- The word at a zero-page address; its high byte wraps inside the page. -/
@[specialize] def readPointer (p : UInt8) : Exec σ UInt16 :=
  readWord p.toUInt16 (p + 1).toUInt16

/-- The address of the stack cell that a stack pointer names. -/
@[inline] def stackCell (sp : UInt8) : UInt16 := 0x0100 ||| sp.toUInt16

/-- A byte pushed on the stack. -/
@[specialize] def pushByte (value : UInt8) : Exec σ Unit := do
  let r ← regs
  write (stackCell r.sp) value
  modifyRegs fun r => { r with sp := r.sp - 1 }

/-- A byte pulled from the stack. -/
@[specialize] def pullByte : Exec σ UInt8 := do
  modifyRegs fun r => { r with sp := r.sp + 1 }
  let r ← regs
  read (stackCell r.sp)

/-- A word pushed on the stack, high byte first. -/
@[specialize] def pushWord (value : UInt16) : Exec σ Unit := do
  pushByte (value >>> 8).toUInt8
  pushByte value.toUInt8

/-- A word pulled from the stack. -/
@[specialize] def pullWord : Exec σ UInt16 := do
  let low ← pullByte
  let high ← pullByte
  return word low high

/-- Two addresses lie on different pages. -/
@[inline] def pageCrossed (a b : UInt16) : Bool := a &&& 0xFF00 != b &&& 0xFF00

/-- The sum of a base address and an index.  One more cycle goes by when it lies on another page
than the base, and always when the operand is written. -/
@[inline] def indexed (base : UInt16) (index : UInt8) (writes : Bool) : Exec σ UInt16 := do
  let address := base + index.toUInt16
  if writes || pageCrossed base address then
    wait 1
  return address

/-- The address of the operand.  `writes` tells that the instruction writes there. -/
@[specialize] def operandAddress (m : Mode) (writes : Bool) : Exec σ UInt16 := do
  match m with
  | .immediate =>
    let r ← regs
    jumpTo (r.pc + 1)
    return r.pc
  | .zeroPage =>
    let p ← fetchByte
    return p.toUInt16
  | .zeroPageX =>
    let p ← fetchByte
    wait 1
    return (p + (← regs).x).toUInt16
  | .zeroPageY =>
    let p ← fetchByte
    wait 1
    return (p + (← regs).y).toUInt16
  | .absolute => fetchWord
  | .absoluteX =>
    let base ← fetchWord
    indexed base (← regs).x writes
  | .absoluteY =>
    let base ← fetchWord
    indexed base (← regs).y writes
  | .indirectX =>
    let p ← fetchByte
    wait 3
    readPointer (p + (← regs).x)
  | .indirectY =>
    let p ← fetchByte
    let base ← readPointer p
    wait 2
    indexed base (← regs).y writes
  | .zeroPageIndirect =>
    let p ← fetchByte
    wait 2
    readPointer p

/-- The branch itself: one cycle, and one more when it lands on another page. -/
@[inline] def takeBranch (offset : UInt8) : Exec σ Unit := do
  let r ← regs
  let target := r.pc + offset.toInt8.toInt16.toUInt16
  jumpTo target
  wait (if pageCrossed r.pc target then 2 else 1)

/-- The program counter read from a vector. -/
@[specialize] def jumpThrough (vector : UInt16) : Exec σ Unit := do
  jumpTo (← readWord vector (vector + 1))

/-- Interrupts are disabled, and the CMOS processor leaves decimal mode. -/
@[inline] def enterHandler (m : Model) : Exec σ Unit :=
  modifyRegs fun r => match m with
    | .nmos => { r with status.interruptDisable := true }
    | .cmos => { r with status.interruptDisable := true, status.decimal := false }

/-- An interrupt through a vector: the program counter and the status are pushed. -/
@[specialize] def serviceInterrupt (m : Model) (vector : UInt16) : Exec σ Unit := do
  let r ← regs
  pushWord r.pc
  pushByte r.status.pushedByInterrupt
  enterHandler m
  jumpThrough vector
  wait 7

/-- The vector of `BRK` and of interrupt requests. -/
def interruptVector : UInt16 := 0xFFFE

/-- The vector of non-maskable interrupts. -/
def nonMaskableVector : UInt16 := 0xFFFA

def resetVector : UInt16 := 0xFFFC

/-- `JMP ($nnnn)`.  The NMOS processor takes the high byte from the same page as the low byte; the
CMOS processor takes it from the next address and needs a cycle more. -/
@[specialize] def jumpIndirect (m : Model) : Exec σ Unit := do
  let p ← fetchWord
  match m with
  | .nmos =>
    jumpTo (← readWord p ((p &&& 0xFF00) ||| ((p + 1) &&& 0x00FF)))
    wait 2
  | .cmos =>
    jumpTo (← readWord p (p + 1))
    wait 3

/-- `RTI`: the status and the program counter are pulled. -/
@[specialize] def returnFromInterrupt : Exec σ Unit := do
  let b ← pullByte
  modifyRegs fun r => { r with status := .pulled b }
  jumpTo (← pullWord)
  wait 5

/-- `n` bytes passed over. -/
@[specialize] def skipBytes : Nat → Exec σ Unit
  | 0 => pure ()
  | n + 1 => do
    let _ ← fetchByte
    skipBytes n

/-- What an instruction does after its opcode is fetched. -/
@[specialize] def execute (m : Model) : Instruction → Exec σ Unit
  | .read op mode => do
    let v ← read (← operandAddress mode false)
    modifyRegs fun r => op.apply m r v
    wait 1
  | .write s mode => do
    let address ← operandAddress mode true
    write address (s.value (← regs))
    wait 1
  | .modify op mode => do
    let address ← operandAddress mode true
    let v ← read address
    let r ← regs
    let (v, status) := op.apply r.a r.status v
    modifyRegs fun r => { r with status }
    write address v
    wait 3
  | .modifyAccumulator op => do
    modifyRegs fun r =>
      let (a, status) := op.apply r.a r.status r.a
      { r with a, status }
    wait 1
  | .register op => do
    modifyRegs op.apply
    wait 1
  | .push g => do
    pushByte ((← regs).get g)
    wait 2
  | .pull g => do
    let v ← pullByte
    modifyRegs fun r => r.load g v
    wait 3
  | .pushStatus => do
    pushByte (← regs).status.pushedByProgram
    wait 2
  | .pullStatus => do
    let b ← pullByte
    modifyRegs fun r => { r with status := .pulled b }
    wait 3
  | .branch c => do
    let offset ← fetchByte
    if c.holds (← regs).status then
      takeBranch offset
  | .branchBit n b => do
    let p ← fetchByte
    let v ← read p.toUInt16
    let offset ← fetchByte
    wait 2
    if (v >>> n.val.toUInt8 &&& 1 == 1) == b then
      takeBranch offset
  | .jump => do
    jumpTo (← fetchWord)
  | .jumpIndirect => jumpIndirect m
  | .jumpIndexedIndirect => do
    let p ← fetchWord
    let p := p + (← regs).x.toUInt16
    jumpTo (← readWord p (p + 1))
    wait 3
  | .call => do
    let target ← fetchWord
    pushWord ((← regs).pc - 1)
    jumpTo target
    wait 3
  | .ret => do
    let p ← pullWord
    jumpTo (p + 1)
    wait 5
  | .break => do
    let r ← regs
    pushWord (r.pc + 1)
    pushByte r.status.pushedByProgram
    enterHandler m
    jumpThrough interruptVector
    wait 6
  | .returnFromInterrupt => returnFromInterrupt
  | .skip operands extra => do
    skipBytes operands
    wait extra

end Exec

end AppleII.Processor
