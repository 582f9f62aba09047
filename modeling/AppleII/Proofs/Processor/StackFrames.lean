import AppleII.Proofs.Processor.Footprint
import AppleII.Proofs.Processor.StatusBits

/-!
# What is pushed is pulled

In plain memory `RTI` gives back what an interrupt or `BRK` has taken away, and `RTS` what `JSR` has, wherever the
stack pointer stands in page 1.  Up to 85 handlers may run inside each other before the stack overruns itself: they
return one by one in reverse order (`unwound_interrupts`).  `stack_discipline` puts this together.
-/

namespace AppleII.Processor

open Exec (stackCell toNat_stackCell)
open Instruction (breakOpcode callOpcode pushStatusOpcode retOpcode returnFromInterruptOpcode)

namespace FlatMemory

/-- The word whose bytes lie from an address on. -/
def wordAt (mem : FlatMemory) (address : UInt16) : UInt16 := word (mem.get address) (mem.get (address + 1))

/-- An opcode stands at an address, outside of so many stack cells from the stack pointer down. -/
structure StandsAt (mem : FlatMemory) (opcode : UInt8) (address : UInt16) (sp : UInt8) (cells : Nat) : Prop where
  opcode : mem.get address = opcode
  spared : address.toNat ∉ stackCells sp cells

/-- A status lies on top of the stack, and under it an address. -/
structure Frame (mem : FlatMemory) (sp : UInt8) (address : UInt16) (status : UInt8) : Prop where
  status : mem.get (stackCell (sp + 1)) = status
  address : word (mem.get (stackCell (sp + 2))) (mem.get (stackCell (sp + 3))) = address

end FlatMemory

/-- The registers after a step and the step that follows it. -/
def regsAfterTwo (p : Processor) (mem : FlatMemory) : Registers :=
  ((p.step mem).2.1.step (p.step mem).2.2).2.1.regs

/-- Interrupts through some vectors, each in the handler of the one before: the registers before each of them, and the
state in the last handler. -/
def interrupts (m : Model) : List UInt16 → Datapath FlatMemory → List Registers × Datapath FlatMemory
  | [], d => ([], d)
  | vector :: vectors, d =>
    let (before, inner) := interrupts m vectors (Exec.serviceInterrupt m vector d).2
    (d.regs :: before, inner)

/-- So many `RTI`, one after the other: the registers after each of them, and the state after the last one. -/
def returns : Nat → Datapath FlatMemory → List Registers × Datapath FlatMemory
  | 0, d => ([], d)
  | n + 1, d =>
    let returned := (Exec.returnFromInterrupt d).2
    let (after, outer) := returns n returned
    (returned.regs :: after, outer)

/-! ## Stack cells -/

theorem stackCells_add (sp : UInt8) (m n : Nat) :
    stackCells sp (m + n) = stackCells sp m ++ stackCells (sp - UInt8.ofNat m) n := by
  induction m generalizing sp with
  | zero => simp [stackCells]
  | succ m ih =>
    have hsp : sp - 1 - UInt8.ofNat m = sp - UInt8.ofNat (m + 1) := by
      rw [UInt8.ofNat_add]
      grind
    rw [Nat.succ_add, stackCells, ih, hsp]
    rfl

/-- Fewer than 256 cells do not come round to the cells above the stack pointer. -/
theorem stackCell_notMem_stackCells {sp above : UInt8} {n : Nat} (hpos : 0 < above.toNat)
    (hroom : n + above.toNat < 0x100) : (stackCell (sp + above)).toNat ∉ stackCells sp n := by
  induction n generalizing sp above with
  | zero => exact List.not_mem_nil
  | succ n ih =>
    have habove : sp + above = sp - 1 + (above + 1) := by grind
    intro hmem
    rcases List.mem_cons.mp hmem with heq | hrest
    · rw [toNat_stackCell] at heq
      have hsame : sp + above = sp := UInt8.toNat_inj.mp (Nat.add_left_cancel heq)
      have hzero : above = 0 := by grind
      rw [hzero] at hpos
      exact absurd hpos (by decide)
    · rw [habove] at hrest
      have hnext : (above + 1).toNat = above.toNat + 1 := by
        rw [UInt8.toNat_add]
        exact Nat.mod_eq_of_lt (by simp only [UInt8.reduceToNat]; omega)
      exact ih (by omega) (by omega) hrest

namespace FlatMemory

variable {mem mem' : FlatMemory} {sp status : UInt8} {address : UInt16}

/-- A word that is pushed lies on the stack. -/
theorem word_pushWord (mem : FlatMemory) (sp : UInt8) (w : UInt16) :
    word ((Bus.pushWord mem sp w).get (stackCell (sp - 1))) ((Bus.pushWord mem sp w).get (stackCell sp)) = w := by
  have hbytes : stackCell (sp - 1) ≠ stackCell sp := stackCell_ne (by grind)
  rw [Bus.pushWord, write_eq, write_eq, get_set_self, get_set_of_ne _ _ hbytes, get_set_self, word_toUInt8]

/-- A word changes two cells. -/
theorem get_pushWord (mem : FlatMemory) (w : UInt16) {a : UInt16} (h : a.toNat ∉ stackCells sp 2) :
    (Bus.pushWord mem sp w).get a = mem.get a := by
  simp only [stackCells, List.mem_cons, List.not_mem_nil, or_false, not_or] at h
  obtain ⟨hhigh, hlow⟩ := h
  rw [← toNat_stackCell] at hhigh hlow
  rw [Bus.pushWord, write_eq, write_eq, get_set_of_toNat_ne _ _ hlow, get_set_of_toNat_ne _ _ hhigh]

/-- The status lies three cells down. -/
theorem status_pushFrame (mem : FlatMemory) (sp status : UInt8) (address : UInt16) :
    (Bus.pushFrame mem sp address status).get (stackCell (sp - 2)) = status := by
  rw [Bus.pushFrame, write_eq, get_set_self]

/-- A frame that is pushed lies on the stack. -/
theorem frame_pushFrame (mem : FlatMemory) (sp status : UInt8) (address : UInt16) :
    Frame (Bus.pushFrame mem sp address status) (sp - 3) address status := by
  have htop : sp - 3 + 1 = sp - 2 := by grind
  have hmiddle : sp - 3 + 2 = sp - 1 := by grind
  have hbottom : sp - 3 + 3 = sp := by grind
  have hlow : stackCell (sp - 2) ≠ stackCell (sp - 1) := stackCell_ne (by grind)
  have hhigh : stackCell (sp - 2) ≠ stackCell sp := stackCell_ne (by grind)
  constructor
  · rw [htop, status_pushFrame]
  · rw [hmiddle, hbottom, Bus.pushFrame, write_eq, get_set_of_ne _ _ hlow, get_set_of_ne _ _ hhigh, word_pushWord]

/-- A frame changes three cells. -/
theorem get_pushFrame (mem : FlatMemory) (status : UInt8) (address : UInt16) {a : UInt16}
    (h : a.toNat ∉ stackCells sp 3) : (Bus.pushFrame mem sp address status).get a = mem.get a := by
  rw [stackCells_add sp 2 1, List.mem_append, not_or] at h
  obtain ⟨hword, htop⟩ := h
  have hstatus : a.toNat ≠ (stackCell (sp - 2)).toNat := by
    rw [toNat_stackCell]
    exact fun heq => htop (List.mem_singleton.mpr heq)
  rw [Bus.pushFrame, write_eq, get_set_of_toNat_ne _ _ hstatus, mem.get_pushWord address hword]

/-- What is pushed on a frame leaves it alone, unless it comes round to it. -/
theorem Frame.of_get (h : Frame mem sp address status) {n : Nat} (hroom : n + 3 < 0x100)
    (hsame : ∀ a : UInt16, a.toNat ∉ stackCells sp n → mem'.get a = mem.get a) : Frame mem' sp address status := by
  have hcell (above : UInt8) (hpos : 0 < above.toNat) (hle : above.toNat ≤ 3) :
      mem'.get (stackCell (sp + above)) = mem.get (stackCell (sp + above)) :=
    hsame _ (stackCell_notMem_stackCells hpos (by omega))
  constructor
  · rw [hcell 1 (by decide) (by decide), h.status]
  · rw [hcell 2 (by decide) (by decide), hcell 3 (by decide) (by decide), h.address]

/-- `RTI` pulls a frame. -/
theorem Frame.returnFromInterrupt {d : Datapath FlatMemory} (h : Frame d.bus d.regs.sp address status) :
    (Exec.returnFromInterrupt d).2 =
      { d with
        regs := { d.regs with sp := d.regs.sp + 3, status := .pulled status, pc := address }
        cycles := d.cycles + 5 } := by
  rw [Exec.returnFromInterrupt_apply]
  simp only [read_eq, readWord_eq, h.status, h.address]

end FlatMemory

/-! ## Handlers inside handlers -/

theorem returns_succ (n : Nat) (d : Datapath FlatMemory) :
    returns (n + 1) d =
      ((returns n d).1 ++ [(Exec.returnFromInterrupt (returns n d).2).2.regs],
        (Exec.returnFromInterrupt (returns n d).2).2) := by
  induction n generalizing d with
  | zero => rfl
  | succ n ih =>
    rw [returns, ih]
    rfl

/-- From the innermost handler as many returns lead back to where the first interrupt came, through the registers that
each interrupt has found, the last of them first. -/
structure Unwound (d : Datapath FlatMemory) (before : List Registers) (inner : Datapath FlatMemory) : Prop where
  spared : ∀ a : UInt16, a.toNat ∉ stackCells d.regs.sp (3 * before.length) → inner.bus.get a = d.bus.get a
  trail : (returns before.length inner).1 = before.reverse
  regs : (returns before.length inner).2.regs = d.regs
  bus : (returns before.length inner).2.bus = inner.bus

theorem length_interrupts (m : Model) (vectors : List UInt16) (d : Datapath FlatMemory) :
    (interrupts m vectors d).1.length = vectors.length := by
  induction vectors generalizing d with
  | nil => rfl
  | cons vector vectors ih => exact congrArg (· + 1) (ih _)

/-- **Nested handlers** return in reverse order. -/
theorem unwound_interrupts (m : Model) (vectors : List UInt16) {d : Datapath FlatMemory}
    (hstatus : d.regs.status.Regular) (hroom : 3 * vectors.length < 0x100) :
    Unwound d (interrupts m vectors d).1 (interrupts m vectors d).2 := by
  induction vectors generalizing d with
  | nil => exact ⟨fun _ _ => rfl, rfl, rfl, rfl⟩
  | cons vector vectors ih =>
    have hservice := Exec.serviceInterrupt_apply d m vector
    simp only [FlatMemory.readWord_eq] at hservice
    have hframe := FlatMemory.frame_pushFrame d.bus d.regs.sp d.regs.status.pushedByInterrupt d.regs.pc
    have hlength : (interrupts m vectors (Exec.serviceInterrupt m vector d).2).1.length = vectors.length :=
      length_interrupts m vectors _
    rw [List.length_cons] at hroom
    obtain ⟨hspared, htrail, hregs, hbus⟩ := ih (d := (Exec.serviceInterrupt m vector d).2)
      (by rw [hservice]; exact hstatus.inHandler m) (by omega)
    show Unwound d (d.regs :: (interrupts m vectors (Exec.serviceInterrupt m vector d).2).1)
      (interrupts m vectors (Exec.serviceInterrupt m vector d).2).2
    generalize interrupts m vectors (Exec.serviceInterrupt m vector d).2 = nested at *
    rw [hservice] at hspared hregs
    -- The frame of the first interrupt is still there when the handlers inside it have returned.
    have hlast : FlatMemory.Frame (returns nested.1.length nested.2).2.bus
        (returns nested.1.length nested.2).2.regs.sp d.regs.pc d.regs.status.pushedByInterrupt := by
      rw [hbus, hregs]
      exact hframe.of_get (by omega) hspared
    have hreturned := hlast.returnFromInterrupt
    have hsp : d.regs.sp - 3 + 3 = d.regs.sp := UInt8.sub_add_cancel _ 3
    have hback : (Exec.returnFromInterrupt (returns nested.1.length nested.2).2).2.regs = d.regs := by
      rw [hreturned, hregs, hstatus.pulled_pushedByInterrupt]
      dsimp only
      rw [hsp]
    refine ⟨fun a ha => ?_, ?_, ?_, ?_⟩
    · rw [List.length_cons, Nat.mul_succ, Nat.add_comm, stackCells_add, List.mem_append, not_or] at ha
      exact (hspared a ha.2).trans (d.bus.get_pushFrame _ _ ha.1)
    · rw [List.length_cons, returns_succ, htrail, hback, List.reverse_cons]
    · rw [List.length_cons, returns_succ, hback]
    · rw [List.length_cons, returns_succ, hreturned, hbus]

/-! ## Steps -/

theorem mem_stackCells {sp : UInt8} {n a : Nat} (h : a ∈ stackCells sp n) : 0x100 ≤ a ∧ a < 0x200 := by
  induction n generalizing sp with
  | zero => cases h
  | succ n ih =>
    rcases List.mem_cons.mp h with rfl | hrest
    · have hsp := sp.toNat_lt
      omega
    · exact ih hrest

/-- What is pushed does not reach the vectors. -/
theorem wordAt_pushFrame (mem : FlatMemory) (sp status : UInt8) (address : UInt16) (vector : UInt16)
    (h : 0x200 ≤ vector.toNat) (h' : vector.toNat < 0xFFFF) :
    (Bus.pushFrame mem sp address status).wordAt vector = mem.wordAt vector := by
  have hnext : (vector + 1).toNat = vector.toNat + 1 := by
    rw [UInt16.toNat_add]
    exact Nat.mod_eq_of_lt (by simp only [UInt16.reduceToNat]; omega)
  have hlow : vector.toNat ∉ stackCells sp 3 := fun hmem => by
    have hpage := mem_stackCells hmem
    omega
  have hhigh : (vector + 1).toNat ∉ stackCells sp 3 := fun hmem => by
    have hpage := mem_stackCells hmem
    omega
  rw [FlatMemory.wordAt, mem.get_pushFrame _ _ hlow, mem.get_pushFrame _ _ hhigh, FlatMemory.wordAt]

section Steps

variable {p : Processor} {mem : FlatMemory}

theorem regs_step_of_frame {address : UInt16} {status : UInt8} (hdue : p.due = .instruction)
    (hopcode : mem.get p.regs.pc = returnFromInterruptOpcode) (hframe : mem.Frame p.regs.sp address status) :
    (p.step mem).2.1.regs = { p.regs with sp := p.regs.sp + 3, status := .pulled status, pc := address } := by
  have hread : (Bus.read mem p.regs.pc).1 = returnFromInterruptOpcode := hopcode
  obtain ⟨hreturned, -⟩ := step_returnFromInterrupt hdue hread
  simp only [FlatMemory.read_eq, FlatMemory.readWord_eq, hframe.status, hframe.address] at hreturned
  exact hreturned

/-- A handler that only returns: the frame is pulled with which it was entered. -/
theorem regsAfterTwo_handler {status : UInt8} {address target : UInt16}
    (hregs : (p.step mem).2.1.regs =
      { p.regs with sp := p.regs.sp - 3, status := p.regs.status.inHandler p.model, pc := target })
    (hbus : (p.step mem).2.2 = Bus.pushFrame mem p.regs.sp address status)
    (hhandler : mem.StandsAt returnFromInterruptOpcode target p.regs.sp 3) :
    p.regsAfterTwo mem = { p.regs with status := .pulled status, pc := address } := by
  have hdue : (p.step mem).2.1.due = .instruction := by
    refine p.due_step mem (.inl ?_)
    rw [hregs]
    cases p.model <;> rfl
  have hopcode : (p.step mem).2.2.get (p.step mem).2.1.regs.pc = returnFromInterruptOpcode := by
    rw [hbus, hregs, mem.get_pushFrame _ _ hhandler.spared, hhandler.opcode]
  have hframe : (p.step mem).2.2.Frame (p.step mem).2.1.regs.sp address status := by
    rw [hbus, hregs]
    exact mem.frame_pushFrame p.regs.sp status address
  have hsp : p.regs.sp - 3 + 3 = p.regs.sp := UInt8.sub_add_cancel _ 3
  rw [regsAfterTwo, regs_step_of_frame hdue hopcode hframe, hregs]
  dsimp only
  rw [hsp]

/-- An interrupt and `RTI` leave the registers as they were. -/
theorem regsAfterTwo_interrupt (hstatus : p.regs.status.Regular) {vector : UInt16} (hdue : p.due.vector? = some vector)
    (hhandler : mem.StandsAt returnFromInterruptOpcode (mem.wordAt vector) p.regs.sp 3) :
    p.regsAfterTwo mem = p.regs := by
  have hvector : 0x200 ≤ vector.toNat ∧ vector.toNat < 0xFFFF := by
    cases hp : p.due with
    | nonMaskable | request =>
      rw [hp] at hdue
      obtain rfl := Option.some.inj hdue
      decide
    | instruction =>
      rw [hp] at hdue
      cases hdue
  obtain ⟨hregs, hbus⟩ := p.step_interrupt mem hdue
  have htarget := wordAt_pushFrame mem p.regs.sp p.regs.status.pushedByInterrupt p.regs.pc vector hvector.1 hvector.2
  have hreturned := regsAfterTwo_handler (hregs.trans (by rw [← htarget]; rfl)) hbus hhandler
  rw [hreturned, hstatus.pulled_pushedByInterrupt]

/-- `BRK` and `RTI` pass over two bytes. -/
theorem regsAfterTwo_break (hstatus : p.regs.status.Regular) (hdue : p.due = .instruction)
    (hopcode : mem.get p.regs.pc = breakOpcode)
    (hhandler : mem.StandsAt returnFromInterruptOpcode (mem.wordAt Exec.interruptVector) p.regs.sp 3) :
    p.regsAfterTwo mem = { p.regs with pc := p.regs.pc + 2 } := by
  have hread : (Bus.read mem p.regs.pc).1 = breakOpcode := hopcode
  obtain ⟨hregs, hbus⟩ := step_break hdue hread
  have htarget := wordAt_pushFrame mem p.regs.sp p.regs.status.pushedByProgram (p.regs.pc + 2) Exec.interruptVector
    (by decide) (by decide)
  have hreturned := regsAfterTwo_handler (hregs.trans (by rw [← htarget]; rfl)) hbus hhandler
  rw [hreturned, hstatus.pulled_pushedByProgram]

/-- `JSR` and `RTS` pass over three bytes. -/
theorem regsAfterTwo_call (hdue : p.due = .instruction) (hopcode : mem.get p.regs.pc = callOpcode)
    (hsubroutine : mem.StandsAt retOpcode (mem.wordAt (p.regs.pc + 1)) p.regs.sp 2) :
    p.regsAfterTwo mem = { p.regs with pc := p.regs.pc + 3 } := by
  obtain ⟨hregs, hbus⟩ : (p.step mem).2.1.regs =
        { p.regs with sp := p.regs.sp - 2, pc := mem.wordAt (p.regs.pc + 1) } ∧
      (p.step mem).2.2 = Bus.pushWord mem p.regs.sp (p.regs.pc + 2) := by
    have hoperand : p.regs.pc + 1 + 1 = p.regs.pc + 2 := UInt16.add_assoc _ 1 1
    rw [FlatMemory.wordAt, hoperand]
    exact step_call hdue hopcode
  have hdue' : (p.step mem).2.1.due = .instruction := by
    refine p.due_step mem ?_
    rw [hregs]
    obtain ⟨-, hrequest⟩ := due_eq_instruction_iff.mp hdue
    rwa [Bool.and_eq_false_iff, Bool.not_eq_false', or_comm] at hrequest
  have hopcode' : (Bus.read (p.step mem).2.2 (p.step mem).2.1.regs.pc).1 = retOpcode := by
    rw [FlatMemory.read_eq, hbus, hregs, mem.get_pushWord _ hsubroutine.spared, hsubroutine.opcode]
  obtain ⟨hreturned, -⟩ := step_ret hdue' hopcode'
  have hhigh : p.regs.sp - 2 + 2 = p.regs.sp := UInt8.sub_add_cancel _ 2
  have hlow : p.regs.sp - 2 + 1 = p.regs.sp - 1 := by grind
  have hpc : p.regs.pc + 2 + 1 = p.regs.pc + 3 := UInt16.add_assoc _ 2 1
  rw [regsAfterTwo, hreturned, hregs]
  simp only [FlatMemory.read_eq, FlatMemory.readWord_eq, hhigh, hlow, hbus]
  rw [mem.word_pushWord, hpc]

end Steps

/-- **What is pushed is pulled.** -/
theorem stack_discipline (p : Processor) (mem : FlatMemory) (hstatus : p.regs.status.Regular) :
    let entered := p.step mem
    -- An interrupt and `RTI`, `BRK` and `RTI`, `JSR` and `RTS`.
    (∀ vector, p.due.vector? = some vector →
        mem.StandsAt returnFromInterruptOpcode (mem.wordAt vector) p.regs.sp 3 → p.regsAfterTwo mem = p.regs) ∧
      (p.due = .instruction → mem.get p.regs.pc = breakOpcode →
        mem.StandsAt returnFromInterruptOpcode (mem.wordAt Exec.interruptVector) p.regs.sp 3 →
          p.regsAfterTwo mem = { p.regs with pc := p.regs.pc + 2 }) ∧
      (p.due = .instruction → mem.get p.regs.pc = callOpcode →
        mem.StandsAt retOpcode (mem.wordAt (p.regs.pc + 1)) p.regs.sp 2 →
          p.regsAfterTwo mem = { p.regs with pc := p.regs.pc + 3 }) ∧
      -- Interrupts inside interrupts.
      (∀ vectors : List UInt16, vectors.length ≤ 85 →
        let nested := interrupts p.model vectors ⟨p.regs, mem, 0⟩
        (returns vectors.length nested.2).1 = nested.1.reverse) ∧
      -- Bit 4 of the status that is pushed, and bits 5 and 4 of the register.
      (∀ vector, p.due.vector? = some vector →
        (entered.2.2.get (stackCell (p.regs.sp - 2))).toNat.testBit 4 = false) ∧
      (p.due = .instruction → mem.get p.regs.pc = breakOpcode →
        (entered.2.2.get (stackCell (p.regs.sp - 2))).toNat.testBit 4 = true) ∧
      (p.due = .instruction → mem.get p.regs.pc = pushStatusOpcode →
        (entered.2.2.get (stackCell p.regs.sp)).toNat.testBit 4 = true) ∧
      ∀ {σ : Type} [Bus σ] (bus : σ), (p.step bus).2.1.regs.status.Regular := by
  refine ⟨fun _ hdue hhandler => regsAfterTwo_interrupt hstatus hdue hhandler,
    fun hdue hopcode hhandler => regsAfterTwo_break hstatus hdue hopcode hhandler,
    fun hdue hopcode hsubroutine => regsAfterTwo_call hdue hopcode hsubroutine, fun vectors hlength => ?_,
    fun vector hdue => ?_, fun hdue hopcode => ?_, fun hdue hopcode => ?_, fun bus => p.regular_step bus hstatus⟩
  · have htrail := (unwound_interrupts p.model vectors (d := ⟨p.regs, mem, 0⟩) hstatus (by omega)).trail
    rwa [length_interrupts] at htrail
  · obtain ⟨-, hbus⟩ := p.step_interrupt mem hdue
    rw [hbus, FlatMemory.readWord_eq, FlatMemory.status_pushFrame, Status.pushedByInterrupt, Status.testBit_toByte]
  · have hread : (Bus.read mem p.regs.pc).1 = breakOpcode := hopcode
    obtain ⟨-, hbus⟩ := step_break hdue hread
    rw [hbus, FlatMemory.readWord_eq, FlatMemory.read_eq, FlatMemory.status_pushFrame, Status.pushedByProgram,
      Status.testBit_toByte]
  · have hread : (Bus.read mem p.regs.pc).1 = pushStatusOpcode := hopcode
    rw [step_pushStatus hdue hread, FlatMemory.write_eq, FlatMemory.get_set_self,
      Status.pushedByProgram, Status.testBit_toByte]

/-- A stack that wraps, in decimal mode: a non-maskable interrupt at `BRK`, `BRK` itself, and a `JSR`. -/
theorem stack_discipline_wrapped :
    let mem := (((FlatMemory.zeros.load 0xFFFA #[0x00, 0x03, 0x00, 0x00, 0x00, 0x03]).load 0x0300 #[0x40]).load 0x0400
      #[0x00, 0xEA, 0x20, 0x20, 0x03]).load 0x0320 #[0x60]
    let p : Processor :=
      { model := .cmos, regs := { Registers.powerUp with sp := 0x01, pc := 0x0400, status.decimal := true } }
    let interrupted := { p with nmi := true }
    let calling := { p with regs.pc := 0x0402 }
    p.regs.status.Regular ∧ interrupted.regsAfterTwo mem = p.regs ∧
      p.regsAfterTwo mem = { p.regs with pc := 0x0402 } ∧
      calling.regsAfterTwo mem = { p.regs with pc := 0x0405 } ∧
      (returns 85 (interrupts .cmos (List.replicate 85 0xFFFE) ⟨p.regs, mem, 0⟩).2).1 =
        (interrupts .cmos (List.replicate 85 0xFFFE) ⟨p.regs, mem, 0⟩).1.reverse := by
  intro mem p interrupted calling
  have hstatus : p.regs.status.Regular := ⟨rfl, rfl⟩
  have hentry : word 0x00 0x03 = 0x0300 := rfl
  have hentry' : word 0x20 0x03 = 0x0320 := rfl
  have hnonMaskable : mem.wordAt Exec.nonMaskableVector = 0x0300 := by
    simp [FlatMemory.wordAt, mem, FlatMemory.load, FlatMemory.get_set_of_ne, Exec.nonMaskableVector, hentry]
  have hvector : mem.wordAt Exec.interruptVector = 0x0300 := by
    simp [FlatMemory.wordAt, mem, FlatMemory.load, FlatMemory.get_set_of_ne, Exec.interruptVector, hentry]
  have htarget : mem.wordAt (calling.regs.pc + 1) = 0x0320 := by
    simp [FlatMemory.wordAt, mem, FlatMemory.load, FlatMemory.get_set_of_ne, calling, hentry']
  have hbreak : mem.get p.regs.pc = breakOpcode := by
    simp [mem, p, FlatMemory.load, FlatMemory.get_set_of_ne, breakOpcode]
  have hcall : mem.get calling.regs.pc = callOpcode := by
    simp [mem, calling, FlatMemory.load, FlatMemory.get_set_of_ne, callOpcode]
  have hhandler : mem.StandsAt returnFromInterruptOpcode 0x0300 0x01 3 :=
    ⟨by simp [mem, FlatMemory.load, FlatMemory.get_set_of_ne, returnFromInterruptOpcode], by decide⟩
  have hsubroutine : mem.StandsAt retOpcode 0x0320 0x01 2 :=
    ⟨by simp [mem, FlatMemory.load, retOpcode], by decide⟩
  obtain ⟨hinterrupt, -⟩ := stack_discipline interrupted mem hstatus
  obtain ⟨-, hbroken, -, hnested, -⟩ := stack_discipline p mem hstatus
  obtain ⟨-, -, hcalled, -⟩ := stack_discipline calling mem hstatus
  have hlength : (List.replicate 85 (0xFFFE : UInt16)).length = 85 := List.length_replicate
  have hfirst := hinterrupt Exec.nonMaskableVector rfl (by rw [hnonMaskable]; exact hhandler)
  have hsecond := hbroken rfl hbreak (by rw [hvector]; exact hhandler)
  have hthird := hcalled rfl hcall (by rw [htarget]; exact hsubroutine)
  have hfourth := hnested (List.replicate 85 0xFFFE) (Nat.le_of_eq hlength)
  rw [hlength] at hfourth
  exact ⟨hstatus, hfirst, hsecond, hthird, hfourth⟩

end AppleII.Processor
