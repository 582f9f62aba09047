import AppleII.Proofs.Processor.Simulation
import AppleII.Proofs.Processor.Stack

/-!
# Interrupts and opcodes

What a step does shows in its accesses: an interrupt pushes its frame before it reads anything, and an instruction
reads its opcode first.
-/

namespace AppleII.Processor

open Exec (stackCell)

/-- The vector of the interrupt that some accesses serve: it is read after three bytes were pushed. -/
def Access.vector? : List Access → Option UInt16
  | [.write .., .write .., .write .., .read vector _, .read ..] => some vector
  | _ => none

variable {σ : Type} [Bus σ]

/-- A step that serves an interrupt pushes a frame, and goes on where the vector points. -/
structure Serves (p : Processor) (bus : σ) (vector : UInt16) : Prop where
  accesses : ∃ low high, p.accesses bus =
      [.write (stackCell p.regs.sp) (p.regs.pc >>> 8).toUInt8, .write (stackCell (p.regs.sp - 1)) p.regs.pc.toUInt8,
        .write (stackCell (p.regs.sp - 2)) p.regs.status.pushedByInterrupt, .read vector low,
        .read (vector + 1) high] ∧
    (p.step bus).2.1.regs =
      { p.regs with sp := p.regs.sp - 3, status := p.regs.status.inHandler p.model, pc := word low high }
  lastOpcode : (p.step bus).2.1.lastOpcode = none

/-- A step that executes an instruction fetches its opcode first. -/
structure Executes (p : Processor) (bus : σ) (opcode : UInt8) : Prop where
  fetched : (p.accesses bus).head? = some (.read p.regs.pc opcode)
  lastOpcode : (p.step bus).2.1.lastOpcode = some opcode
  regs : (p.step bus).2.1.regs = (p.executed bus).regs
  bus : (p.step bus).2.2 = (p.executed bus).bus

theorem Exec.execute_keeps {P : σ → Prop} (hP : Bus.Keeps P) (m : Model) (i : Instruction) {d : Datapath σ}
    (h : P d.bus) : P (execute m i d).2.bus := by
  have hR : Bus.SimulationUnless P fun (_ _ : σ) => False := ⟨hP, False.elim, False.elim⟩
  exact (Related.execute hR m i).escaped d h

/-- What was logged first stays first. -/
theorem Logged.keeps_head (access : Access) :
    Bus.Keeps fun l : Logged σ => l.log.toList.head? = some access where
  read {l} h address := by
    show (l.log.push _).toList.head? = _
    rw [Array.toList_push, List.head?_append, h]
    rfl
  write {l} h address v := by
    show (l.log.push _).toList.head? = _
    rw [Array.toList_push, List.head?_append, h]
    rfl

variable (p : Processor) (bus : σ)

theorem serves_of_due {vector : UInt16} (hdue : p.due.vector? = some vector) : p.Serves bus vector := by
  have hlogged := (p.step_interrupt (⟨bus, #[]⟩ : Logged σ) hdue).2
  refine ⟨⟨_, _, ?_, (p.step_interrupt bus hdue).1⟩, ?_⟩
  · rw [accesses, hlogged]
    rfl
  · unfold step
    cases hp : p.due with
    | nonMaskable | request => rfl
    | instruction =>
      rw [hp] at hdue
      cases hdue

theorem executes_of_due (hdue : p.due = .instruction) : p.Executes bus (Bus.read bus p.regs.pc).1 := by
  have hstep := p.step_instruction bus hdue
  refine ⟨?_, ?_, ?_, ?_⟩
  · rw [accesses, p.step_instruction (⟨bus, #[]⟩ : Logged σ) hdue]
    exact Exec.execute_keeps (Logged.keeps_head _) p.model _ rfl
  · rw [hstep]
  · rw [hstep]
  · rw [hstep]

/-- The interrupt that is due is the one that a step serves. -/
theorem vector?_accesses : Access.vector? (p.accesses bus) = p.due.vector? := by
  cases hdue : p.due with
  | nonMaskable | request =>
    obtain ⟨⟨low, high, haccesses, -⟩, -⟩ := p.serves_of_due bus (congrArg Due.vector? hdue)
    rw [haccesses]
    rfl
  | instruction =>
    have hfetched := (p.executes_of_due bus hdue).fetched
    cases haccesses : p.accesses bus with
    | nil => rfl
    | cons access rest =>
      rw [haccesses] at hfetched
      obtain rfl := Option.some.inj hfetched
      rfl

end AppleII.Processor
