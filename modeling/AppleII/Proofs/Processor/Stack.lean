import AppleII.Proofs.Processor.Execution

/-!
# Steps that push and pull

What a call, a return, an interrupt and `BRK` leave of the registers, and what they push and pull.  The stack pointer
wraps inside page 1.
-/

namespace AppleII.Processor

open Exec (stackCell toNat_stackCell)
open Instruction (callOpcode retOpcode)

namespace Instruction

/-- The opcode of `BRK`. -/
def breakOpcode : UInt8 := 0x00

/-- The opcode of `RTI`. -/
def returnFromInterruptOpcode : UInt8 := 0x40

/-- The opcode of `PHP`. -/
def pushStatusOpcode : UInt8 := 0x08

end Instruction

/-- The status in which a handler starts. -/
def Status.inHandler (m : Model) (s : Status) : Status :=
  match m with
  | .nmos => { s with interruptDisable := true }
  | .cmos => { s with interruptDisable := true, decimal := false }

/-- The vector through which an interrupt that is due goes. -/
def Due.vector? : Due → Option UInt16
  | .nonMaskable => some Exec.nonMaskableVector
  | .request => some Exec.interruptVector
  | .instruction => none

/-- The bus after a word is pushed, its high byte first. -/
def Bus.pushWord {σ : Type} [Bus σ] (bus : σ) (sp : UInt8) (w : UInt16) : σ :=
  Bus.write (Bus.write bus (stackCell sp) (w >>> 8).toUInt8) (stackCell (sp - 1)) w.toUInt8

/-- The bus after an address and a status are pushed. -/
def Bus.pushFrame {σ : Type} [Bus σ] (bus : σ) (sp : UInt8) (address : UInt16) (status : UInt8) : σ :=
  Bus.write (Bus.pushWord bus sp address) (stackCell (sp - 2)) status

/-! ## What is due -/

theorem Due.vector?_eq_nonMaskable_iff {d : Due} : d.vector? = some Exec.nonMaskableVector ↔ d = .nonMaskable := by
  cases d <;> decide

theorem Due.vector?_eq_interrupt_iff {d : Due} : d.vector? = some Exec.interruptVector ↔ d = .request := by
  cases d <;> decide

theorem due_eq_nonMaskable_iff {p : Processor} : p.due = .nonMaskable ↔ (p.nmi && !p.previousNmi) = true := by
  unfold due
  split
  · next hedge => simp [hedge]
  · next hedge =>
    split
    · simp [hedge]
    · simp [hedge]

theorem due_eq_request_iff {p : Processor} : p.due = .request ↔
    p.irq = true ∧ p.regs.status.interruptDisable = false ∧ (p.nmi && !p.previousNmi) = false := by
  unfold due
  split
  · next hedge => simp [hedge]
  · next hedge =>
    rw [Bool.not_eq_true] at hedge
    split
    · next hrequest =>
      rw [Bool.and_eq_true, Bool.not_eq_true'] at hrequest
      simp [hedge, hrequest]
    · next hrequest => simpa [hedge] using hrequest

theorem due_eq_instruction_iff {p : Processor} : p.due = .instruction ↔
    (p.nmi && !p.previousNmi) = false ∧ (p.irq && !p.regs.status.interruptDisable) = false := by
  unfold due
  split
  · next hedge => simp [hedge]
  · next hedge =>
    rw [Bool.not_eq_true] at hedge
    split
    · next hrequest => simp [hrequest]
    · next hrequest => simp [hedge, hrequest]

/-! ## Words and cells -/

theorem word_toUInt8 (w : UInt16) : word w.toUInt8 (w >>> 8).toUInt8 = w := by
  have hw := w.toNat_lt
  have hhigh : (w >>> 8).toUInt8.toNat = w.toNat / 256 := by
    simp only [UInt16.toNat_toUInt8, UInt16.toNat_shiftRight, UInt16.reduceToNat, Nat.reduceMod,
      Nat.shiftRight_eq_div_pow]
    omega
  rw [← UInt16.toNat_inj, toNat_word, hhigh, UInt16.toNat_toUInt8]
  omega

theorem stackCell_ne {sp sp' : UInt8} (h : sp ≠ sp') : stackCell sp ≠ stackCell sp' := fun heq => by
  have hcells := congrArg UInt16.toNat heq
  rw [toNat_stackCell, toNat_stackCell] at hcells
  exact h (UInt8.toNat_inj.mp (Nat.add_left_cancel hcells))

variable {σ : Type} [Bus σ]

/-! ## Frames -/

namespace Exec

variable (d : Datapath σ)

theorem pushWord_apply (w : UInt16) :
    pushWord w d = ((), { d with
      regs := { d.regs with sp := d.regs.sp - 2 }
      bus := Bus.pushWord d.bus d.regs.sp w }) := by
  have hsp : d.regs.sp - 1 - 1 = d.regs.sp - 2 := by grind
  simp only [pushWord, bind_apply, pushByte_apply, hsp, Bus.pushWord]

omit [Bus σ] in
theorem enterHandler_apply (m : Model) (d : Datapath σ) :
    enterHandler m d = ((), { d with regs.status := d.regs.status.inHandler m }) := by
  cases m <;> rfl

/-- A frame is pushed, and the handler is entered. -/
theorem serviceInterrupt_apply (m : Model) (vector : UInt16) :
    let target := Bus.readWord (Bus.pushFrame d.bus d.regs.sp d.regs.pc d.regs.status.pushedByInterrupt) vector
      (vector + 1)
    serviceInterrupt m vector d = ((),
      { regs := { d.regs with
          sp := d.regs.sp - 3
          status := d.regs.status.inHandler m
          pc := target.1 }
        bus := target.2
        cycles := d.cycles + 7 }) := by
  have hsp : d.regs.sp - 2 - 1 = d.regs.sp - 3 := by grind
  simp only [serviceInterrupt, bind_apply, regs_apply, pushWord_apply, pushByte_apply, enterHandler_apply,
    jumpThrough, readWord_apply, jumpTo_apply, wait_apply, hsp, Bus.pushFrame]

theorem returnFromInterrupt_apply :
    let status := Bus.read d.bus (stackCell (d.regs.sp + 1))
    let target := Bus.readWord status.2 (stackCell (d.regs.sp + 2)) (stackCell (d.regs.sp + 3))
    returnFromInterrupt d = ((),
      { regs := { d.regs with
          sp := d.regs.sp + 3
          status := .pulled status.1
          pc := target.1 }
        bus := target.2
        cycles := d.cycles + 5 }) := by
  have hsp : d.regs.sp + 1 + 1 = d.regs.sp + 2 := by grind
  have hsp' : d.regs.sp + 2 + 1 = d.regs.sp + 3 := by grind
  simp only [returnFromInterrupt, bind_apply, pullByte_apply, modifyRegs_apply, pullWord, jumpTo_apply, wait_apply,
    pure_apply, hsp, hsp', Bus.readWord]

end Exec

/-! ## Steps -/

variable (p : Processor) (bus : σ)

/-- No interrupt comes right after a step with the lines unchanged, if requests are disabled or there is none. -/
theorem due_step (h : (p.step bus).2.1.regs.status.interruptDisable = true ∨ p.irq = false) :
    (p.step bus).2.1.due = .instruction := by
  refine due_eq_instruction_iff.mpr ⟨Bool.and_not_self p.nmi, ?_⟩
  rcases h with hdisabled | hline
  · rw [hdisabled, Bool.not_true, Bool.and_false]
  · have hirq : (p.step bus).2.1.irq = false := hline
    rw [hirq, Bool.false_and]

/-- An interrupt pushes a frame and enters its handler. -/
theorem step_interrupt {vector : UInt16} (hdue : p.due.vector? = some vector) :
    let target := Bus.readWord (Bus.pushFrame bus p.regs.sp p.regs.pc p.regs.status.pushedByInterrupt) vector
      (vector + 1)
    (p.step bus).2.1.regs =
        { p.regs with sp := p.regs.sp - 3, status := p.regs.status.inHandler p.model, pc := target.1 } ∧
      (p.step bus).2.2 = target.2 := by
  have hservice := Exec.serviceInterrupt_apply (⟨p.regs, bus, 0⟩ : Datapath σ) p.model vector
  unfold step
  cases hp : p.due with
  | nonMaskable | request =>
    rw [hp] at hdue
    obtain rfl := Option.some.inj hdue
    simp only [perform, Exec.bind_apply, hservice, Exec.pure_apply]
    exact ⟨trivial, trivial⟩
  | instruction =>
    rw [hp] at hdue
    cases hdue

section Instructions

variable {p bus} (hdue : p.due = .instruction)
include hdue

/-- `BRK` pushes a frame with the address behind the byte that follows it, and enters its handler. -/
theorem step_break (hopcode : (Bus.read bus p.regs.pc).1 = Instruction.breakOpcode) :
    let pushed := Bus.pushFrame (Bus.read bus p.regs.pc).2 p.regs.sp (p.regs.pc + 2) p.regs.status.pushedByProgram
    let target := Bus.readWord pushed Exec.interruptVector (Exec.interruptVector + 1)
    (p.step bus).2.1.regs =
        { p.regs with sp := p.regs.sp - 3, status := p.regs.status.inHandler p.model, pc := target.1 } ∧
      (p.step bus).2.2 = target.2 := by
  have hpc : p.regs.pc + 1 + 1 = p.regs.pc + 2 := UInt16.add_assoc _ 1 1
  have hsp : p.regs.sp - 2 - 1 = p.regs.sp - 3 := by grind
  have hbreak : Instruction.decode p.model Instruction.breakOpcode = .break := rfl
  rw [p.step_instruction bus hdue, executed, hopcode, hbreak]
  simp only [Exec.execute, Exec.bind_apply, Exec.regs_apply, Exec.pushWord_apply, Exec.pushByte_apply,
    Exec.enterHandler_apply, Exec.jumpThrough, Exec.readWord_apply, Exec.jumpTo_apply, Exec.wait_apply, hpc, hsp,
    Bus.pushFrame]
  exact ⟨trivial, trivial⟩

/-- `RTI` pulls a frame. -/
theorem step_returnFromInterrupt
    (hopcode : (Bus.read bus p.regs.pc).1 = Instruction.returnFromInterruptOpcode) :
    let status := Bus.read (Bus.read bus p.regs.pc).2 (stackCell (p.regs.sp + 1))
    let target := Bus.readWord status.2 (stackCell (p.regs.sp + 2)) (stackCell (p.regs.sp + 3))
    (p.step bus).2.1.regs = { p.regs with sp := p.regs.sp + 3, status := .pulled status.1, pc := target.1 } ∧
      (p.step bus).2.2 = target.2 := by
  have hreturn : Instruction.decode p.model Instruction.returnFromInterruptOpcode = .returnFromInterrupt := rfl
  rw [p.step_instruction bus hdue, executed, hopcode, hreturn]
  dsimp only [Exec.execute]
  rw [Exec.returnFromInterrupt_apply]
  exact ⟨rfl, rfl⟩

/-- `PHP` pushes the status. -/
theorem step_pushStatus (hopcode : (Bus.read bus p.regs.pc).1 = Instruction.pushStatusOpcode) :
    (p.step bus).2.2 =
      Bus.write (Bus.read bus p.regs.pc).2 (stackCell p.regs.sp) p.regs.status.pushedByProgram := by
  have hpush : Instruction.decode p.model Instruction.pushStatusOpcode = .pushStatus := rfl
  rw [p.step_instruction bus hdue, executed, hopcode, hpush]
  rfl

/-- A call fetches three bytes, and pushes the address of the last of them. -/
theorem step_call (hopcode : (Bus.read bus p.regs.pc).1 = callOpcode) :
    let target := Bus.readWord (Bus.read bus p.regs.pc).2 (p.regs.pc + 1) (p.regs.pc + 2)
    (p.step bus).2.1.regs = { p.regs with sp := p.regs.sp - 2, pc := target.1 } ∧
      (p.step bus).2.2 = Bus.pushWord target.2 p.regs.sp (p.regs.pc + 2) := by
  have hpc : p.regs.pc + 1 + 1 = p.regs.pc + 2 := UInt16.add_assoc _ 1 1
  have hlast : p.regs.pc + 1 + 2 - 1 = p.regs.pc + 2 := by grind
  have hcall : Instruction.decode p.model callOpcode = .call := rfl
  rw [p.step_instruction bus hdue, executed, hopcode, hcall]
  simp only [Exec.execute, Exec.bind_apply, Exec.fetchWord_apply, Exec.regs_apply, Exec.pushWord_apply,
    Exec.jumpTo_apply, Exec.wait_apply, hpc, hlast]
  exact ⟨trivial, trivial⟩

/-- A return goes on behind the word that it pulls. -/
theorem step_ret (hopcode : (Bus.read bus p.regs.pc).1 = retOpcode) :
    let target := Bus.readWord (Bus.read bus p.regs.pc).2 (stackCell (p.regs.sp + 1)) (stackCell (p.regs.sp + 2))
    (p.step bus).2.1.regs = { p.regs with sp := p.regs.sp + 2, pc := target.1 + 1 } ∧
      (p.step bus).2.2 = target.2 := by
  have hsp : p.regs.sp + 1 + 1 = p.regs.sp + 2 := by grind
  have hret : Instruction.decode p.model retOpcode = .ret := rfl
  rw [p.step_instruction bus hdue, executed, hopcode, hret]
  simp only [Exec.execute, Exec.bind_apply, Exec.pullWord, Exec.pullByte_apply, Exec.jumpTo_apply, Exec.wait_apply,
    Exec.pure_apply, hsp, Bus.readWord]
  exact ⟨trivial, trivial⟩

end Instructions

end AppleII.Processor
