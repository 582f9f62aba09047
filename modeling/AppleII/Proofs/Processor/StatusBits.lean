import AppleII.Proofs.Processor.Stack
import AppleII.Proofs.Processor.Timing

/-!
# The status in its register

Bit 5 of the status register is always set and bit 4 always clear: bit 4 has a meaning on the stack alone, where it
tells what a program has pushed from what an interrupt has pushed.  Every step keeps both (`regular_step`).
-/

namespace AppleII.Processor

/-- Bits 5 and 4 are as they stand in the register. -/
structure Status.Regular (s : Status) : Prop where
  unused : s.unused = true
  brk : s.brk = false

/-- The instruction gives neither of the two bits a value. -/
def Instruction.keepsRegular : Instruction → Bool
  | .register (.setFlag f _) => f != .unused && f != .brk
  | _ => true

namespace Status

theorem regular_pulled (b : UInt8) : (pulled b).Regular := ⟨rfl, rfl⟩

theorem Regular.inHandler {s : Status} (h : s.Regular) (m : Model) : (s.inHandler m).Regular := by
  cases m <;> exact ⟨h.unused, h.brk⟩

theorem pulled_toByte (s : Status) : pulled s.toByte = { s with brk := false, unused := true } := by
  rw [pulled, ofByte_toByte]

/-- What a program has pushed is pulled as it was. -/
theorem Regular.pulled_pushedByProgram {s : Status} (h : s.Regular) : pulled s.pushedByProgram = s := by
  rw [pushedByProgram, pulled_toByte]
  dsimp only
  rw [← h.unused, ← h.brk]

/-- What an interrupt has pushed is pulled as it was. -/
theorem Regular.pulled_pushedByInterrupt {s : Status} (h : s.Regular) : pulled s.pushedByInterrupt = s := by
  rw [pushedByInterrupt, pulled_toByte]
  dsimp only
  rw [← h.unused, ← h.brk]

/-- Bit 4 of a byte that is pushed. -/
theorem testBit_toByte (s : Status) : s.toByte.toNat.testBit 4 = s.brk := by
  obtain ⟨n, v, u, b, d, i, z, c⟩ := s
  revert n v u b d i z c
  decide

end Status

/-! ## Instructions -/

theorem Status.Regular.addWithCarry {s : Status} (h : s.Regular) (m : Model) (a v : UInt8) :
    (Processor.addWithCarry m s a v).2.Regular := by
  unfold Processor.addWithCarry
  split
  · cases m <;> exact ⟨h.unused, h.brk⟩
  · exact ⟨h.unused, h.brk⟩

theorem Status.Regular.subtractWithBorrow {s : Status} (h : s.Regular) (m : Model) (a v : UInt8) :
    (Processor.subtractWithBorrow m s a v).2.Regular := by
  unfold Processor.subtractWithBorrow
  dsimp only
  split
  · cases m <;> exact ⟨h.unused, h.brk⟩
  · exact ⟨h.unused, h.brk⟩

section Operations

variable {r : Registers} (h : r.status.Regular)
include h

theorem Registers.regular_load (g : Register) (v : UInt8) : (r.load g v).status.Regular := by
  cases g <;> exact ⟨h.unused, h.brk⟩

theorem ReadOp.regular_apply (op : ReadOp) (m : Model) (v : UInt8) : (op.apply m r v).status.Regular := by
  cases op with
  | load g => exact Registers.regular_load h g v
  | add => exact h.addWithCarry m r.a v
  | subtract => exact h.subtractWithBorrow m r.a v
  | and | or | xor => exact Registers.regular_load h .a _
  | compare | bit | bitZero => exact ⟨h.unused, h.brk⟩

theorem ModifyOp.regular_apply (op : ModifyOp) (a v : UInt8) : (op.apply a r.status v).2.Regular := by
  cases op <;> exact ⟨h.unused, h.brk⟩

theorem RegisterOp.regular_apply {op : RegisterOp} (hop : (Instruction.register op).keepsRegular = true) :
    (op.apply r).status.Regular := by
  cases op with
  | transfer _ g => exact Registers.regular_load h g _
  | stackToX | incrementX | decrementX => exact Registers.regular_load h .x _
  | incrementY | decrementY => exact Registers.regular_load h .y _
  | xToStack | nop => exact h
  | setFlag f b =>
    cases f with
    | unused | brk => cases hop
    | negative | overflow | decimal | interruptDisable | zero | carry => exact ⟨h.unused, h.brk⟩

end Operations

variable {σ : Type} [Bus σ]

namespace Exec

variable {d : Datapath σ}

theorem regular_execute (h : d.regs.status.Regular) (m : Model) {i : Instruction} (hi : i.keepsRegular = true) :
    (execute m i d).2.regs.status.Regular := by
  have hoperand (mode : Mode) (writes : Bool) : (operandAddress mode writes d).2.regs.status.Regular := by
    rwa [operandAddress_regs]
  cases i with
  | read op mode => exact op.regular_apply (hoperand mode false) m _
  | write s mode => exact hoperand mode true
  | modify op mode => exact op.regular_apply (hoperand mode true) _ _
  | modifyAccumulator op => exact op.regular_apply h _ _
  | register op => exact RegisterOp.regular_apply h hi
  | pull g => exact Registers.regular_load (r := { d.regs with sp := d.regs.sp + 1 }) h g _
  | pullStatus => exact Status.regular_pulled _
  | branch c =>
    rw [execute_branch]
    exact h
  | branchBit n b =>
    obtain ⟨bus, hbranch⟩ := execute_branchBit d m n b
    rw [hbranch]
    exact h
  | jumpIndirect => cases m <;> exact h
  | «break» => cases m <;> exact ⟨h.unused, h.brk⟩
  | returnFromInterrupt => exact Status.regular_pulled _
  | skip operands extra =>
    show (skipBytes operands d).2.regs.status.Regular
    rwa [skipBytes_regs]
  | push | pushStatus | jump | jumpIndexedIndirect | call | ret => exact h

end Exec

theorem Instruction.keepsRegular_decodeCommon :
    ∀ opcode, (decodeCommon opcode).all keepsRegular = true := forall_byte (by decide +kernel)

theorem Instruction.keepsRegular_decodeAdded : ∀ opcode, (decodeAdded opcode).keepsRegular = true :=
  forall_byte (by decide +kernel)

theorem Instruction.keepsRegular_decode (m : Model) (opcode : UInt8) : (decode m opcode).keepsRegular = true := by
  have hcommon := keepsRegular_decodeCommon opcode
  unfold decode
  cases hopcode : decodeCommon opcode with
  | some i =>
    rw [hopcode] at hcommon
    exact hcommon
  | none =>
    cases m with
    | nmos => rfl
    | cmos => exact keepsRegular_decodeAdded opcode

/-- **Every step** leaves bit 5 of the status register set and bit 4 clear. -/
theorem regular_step (p : Processor) (bus : σ) (h : p.regs.status.Regular) :
    (p.step bus).2.1.regs.status.Regular := by
  cases hdue : p.due with
  | nonMaskable | request =>
    obtain ⟨hregs, -⟩ := p.step_interrupt bus (congrArg Due.vector? hdue)
    rw [hregs]
    exact h.inHandler p.model
  | instruction =>
    rw [p.step_instruction bus hdue]
    exact Exec.regular_execute h p.model (Instruction.keepsRegular_decode p.model _)

end AppleII.Processor
