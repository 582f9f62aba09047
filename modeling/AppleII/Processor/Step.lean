import AppleII.Count
import AppleII.Processor.Execute

/-!
# Processor steps

A processor is its registers, its two interrupt lines and the count of the cycles it has run.  One
step services a due interrupt or executes one instruction.  A non-maskable interrupt is due when its
line has risen since the step before; an interrupt request is due while its line is high and
interrupts are enabled.
-/

namespace AppleII

open Processor

structure Processor where
  model : Model
  regs : Registers := .powerUp
  /-- Cycles since the processor was made. -/
  totalCycles : Nat := 0
  /-- The level of the interrupt-request line. -/
  irq : Bool := false
  /-- The level of the non-maskable-interrupt line. -/
  nmi : Bool := false
  /-- The level of that line at the step before. -/
  previousNmi : Bool := false
  /-- The opcode of the last step; none after an interrupt and after reset. -/
  lastOpcode : Option UInt8 := none
  deriving DecidableEq, Repr, Inhabited

namespace Processor

/-- What a step does. -/
inductive Due where
  | nonMaskable
  | request
  | instruction
  deriving DecidableEq, Repr

/-- What the next step does: a rising edge of the non-maskable line comes before a request. -/
def due (p : Processor) : Due :=
  if p.nmi && !p.previousNmi then .nonMaskable
  else if p.irq && !p.regs.status.interruptDisable then .request
  else .instruction

variable {σ : Type} [Bus σ]

/-- The registers and the bus after a step, with its cycles and the opcode that was executed. -/
@[specialize] def perform (m : Model) (d : Due) : Exec σ (Option UInt8) := do
  match d with
  | .nonMaskable =>
    Exec.serviceInterrupt m Exec.nonMaskableVector
    return none
  | .request =>
    Exec.serviceInterrupt m Exec.interruptVector
    return none
  | .instruction =>
    let opcode ← Exec.fetchByte
    Exec.execute m (Instruction.ofOpcode m opcode)
    return some opcode

/-- One step: the cycles it takes, and the processor and the bus after it. -/
@[specialize] def step (p : Processor) (bus : σ) : Nat × Processor × σ :=
  let (opcode, s) := perform p.model p.due ⟨p.regs, bus, 0⟩
  (s.cycles,
    { p with
      regs := s.regs
      totalCycles := Count.add p.totalCycles s.cycles
      previousNmi := p.nmi
      lastOpcode := opcode },
    s.bus)

/-- Cycles that a reset takes. -/
def resetCycles : Nat := 7

/-- Reset: registers and lines as at power-up, and the program counter from the reset vector. -/
@[specialize] def reset (p : Processor) (bus : σ) : Processor × σ :=
  let (_, s) := (Exec.jumpThrough Exec.resetVector : Exec σ Unit) ⟨.powerUp, bus, 0⟩
  ({ model := p.model, regs := s.regs, totalCycles := Count.add p.totalCycles resetCycles }, s.bus)

end Processor

end AppleII
