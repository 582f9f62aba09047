import AppleII.Proofs.Machine.Controls
import AppleII.Proofs.Processor.Execution
import Mathlib.Tactic.MkIffOfInductiveProp

/-!
# A machine that waits

An instruction that jumps to itself lets the time go by, three cycles in a round, and does nothing else: the machine
goes on waiting, its board only advances, and the bytes of the instruction are all that is read
(`Machine.Waits.processInstruction`, `Machine.Waits.accesses`).
-/

namespace AppleII

open Processor (Access Bus Logged word)

/-- A jump reads the address behind its opcode. -/
theorem Processor.executed_jump {σ : Type} [Bus σ] (p : Processor) {s s₁ s₂ s₃ : σ} {low high : UInt8}
    (hopcode : Bus.read s p.regs.pc = (0x4C, s₁)) (hlow : Bus.read s₁ (p.regs.pc + 1) = (low, s₂))
    (hhigh : Bus.read s₂ (p.regs.pc + 1 + 1) = (high, s₃)) :
    p.executed s = ⟨{ p.regs with pc := word low high }, s₃, 3⟩ := by
  have hjump : Instruction.decode p.model 0x4C = .jump := by
    cases p.model <;> decide
  unfold executed
  simp only [hopcode, hjump, Exec.execute, Exec.bind_apply, Exec.fetchWord_apply, Exec.jumpTo_apply, Bus.readWord,
    hlow, hhigh]

/-- A read outside the I/O page changes nothing. -/
theorem Board.read_of_not_ioPage (b : Board) {address : UInt16} (h : Memory.isIoPage address = false) :
    b.read address = (b.memory.peek address, b) := by
  unfold read
  rw [h]
  rfl

namespace Machine

/-- The instruction at the program counter jumps to itself, and no interrupt is due. -/
@[mk_iff] structure Waits (m : Machine) : Prop where
  irq : m.cpu.irq = false
  nmi : m.cpu.nmi = false
  opcode : m.memory.peek m.cpu.regs.pc = 0x4C
  target : word (m.memory.peek (m.cpu.regs.pc + 1)) (m.memory.peek (m.cpu.regs.pc + 1 + 1)) = m.cpu.regs.pc
  first : Memory.isIoPage m.cpu.regs.pc = false
  second : Memory.isIoPage (m.cpu.regs.pc + 1) = false
  third : Memory.isIoPage (m.cpu.regs.pc + 1 + 1) = false

instance (m : Machine) : Decidable m.Waits := decidable_of_iff _ (waits_iff m).symm

namespace Waits

variable {m : Machine} (h : m.Waits)
include h

theorem due : m.cpu.due = .instruction := by
  unfold Processor.due
  rw [h.nmi, h.irq]
  rfl

theorem executed : m.cpu.executed m.board = ⟨m.cpu.regs, m.board, 3⟩ := by
  have hopcode : m.board.read m.cpu.regs.pc = (0x4C, m.board) := by
    rw [m.board.read_of_not_ioPage h.first]
    exact congrArg (·, m.board) h.opcode
  rw [m.cpu.executed_jump hopcode (m.board.read_of_not_ioPage h.second) (m.board.read_of_not_ioPage h.third)]
  exact congrArg (fun pc => (⟨{ m.cpu.regs with pc }, m.board, 3⟩ : Processor.Datapath Board)) h.target

theorem cycles : (m.cpu.step m.board).1 = 3 := by
  rw [Processor.step_instruction _ _ h.due, h.executed]

theorem stepped : m.stepped.Waits ∧ m.stepped.board = m.board.advance 3 := by
  unfold Machine.stepped
  rw [Processor.step_instruction _ _ h.due, h.executed]
  exact ⟨⟨h.irq, h.nmi, h.opcode, h.target, h.first, h.second, h.third⟩, rfl⟩

/-- **A round** takes three cycles, and the machine waits on. -/
theorem processInstruction : (m.processInstruction true).2.Waits ∧
    (m.processInstruction true).2.board = m.board.advance 3 := by
  obtain ⟨hwaits, hboard⟩ := h.stepped
  rw [processInstruction_true]
  split
  · obtain ⟨hirq, hnmi, hopcode, htarget, hfirst, hsecond, hthird⟩ := hwaits
    exact ⟨⟨hirq, hnmi, hopcode, htarget, hfirst, hsecond, hthird⟩, hboard⟩
  · exact ⟨hwaits, hboard⟩

/-- The three bytes of the instruction are all that is read. -/
theorem accesses : m.accesses = [.read m.cpu.regs.pc 0x4C,
    .read (m.cpu.regs.pc + 1) (m.memory.peek (m.cpu.regs.pc + 1)),
    .read (m.cpu.regs.pc + 1 + 1) (m.memory.peek (m.cpu.regs.pc + 1 + 1))] := by
  have hlogged {address : UInt16} (hio : Memory.isIoPage address = false) (log : Array Access) :
      Bus.read (⟨m.board, log⟩ : Logged Board) address =
        (m.memory.peek address, ⟨m.board, log.push (.read address (m.memory.peek address))⟩) :=
    congrArg (fun r : UInt8 × Board => (r.1, (⟨r.2, log.push (.read address r.1)⟩ : Logged Board)))
      (m.board.read_of_not_ioPage hio)
  have hopcode := hlogged h.first #[]
  rw [h.opcode] at hopcode
  unfold Machine.accesses
  rw [Processor.step_instruction _ _ h.due, m.cpu.executed_jump hopcode (hlogged h.second _) (hlogged h.third _)]
  rfl

end Waits

end Machine

end AppleII
