import AppleII.Processor.Step
import AppleII.Proofs.Byte

/-!
# Computations applied to a state

What the accesses and the parts of an instruction give on any bus, and the state that they leave.  The address of
an operand is a matter of the registers and of the bytes read for it (`Mode.address`).
-/

namespace AppleII.Processor

/-- The two bytes of a word do not overlap. -/
theorem toNat_word (low high : UInt8) : (word low high).toNat = low.toNat + 0x100 * high.toNat := by
  have hlow := low.toNat_lt
  have hhigh := high.toNat_lt
  have hshift : (high.toUInt16 <<< 8).toNat = 2 ^ 8 * high.toNat := by
    simp only [UInt16.toNat_shiftLeft, UInt8.toNat_toUInt16, UInt16.reduceToNat, Nat.shiftLeft_eq, Nat.reduceMod]
    omega
  rw [word, UInt16.toNat_or, hshift, UInt8.toNat_toUInt16, ← Nat.two_pow_add_eq_or_of_lt hlow]
  omega

theorem Exec.toNat_stackCell (sp : UInt8) : (stackCell sp).toNat = 0x100 + sp.toNat := by
  have h : ∀ sp : UInt8, (stackCell sp).toNat = 0x100 + sp.toNat := forall_byte (by decide +kernel)
  exact h sp

/-- Two bytes read one after the other, as a word. -/
def Bus.readWord {σ : Type} [Bus σ] (bus : σ) (low high : UInt16) : UInt16 × σ :=
  let l := Bus.read bus low
  let h := Bus.read l.2 high
  (word l.1 h.1, h.2)

/-! ## Plain memory and logs -/

@[simp] theorem FlatMemory.read_eq (mem : FlatMemory) (address : UInt16) :
    Bus.read mem address = (mem.get address, mem) := rfl

@[simp] theorem FlatMemory.write_eq (mem : FlatMemory) (address : UInt16) (v : UInt8) :
    Bus.write mem address v = mem.set address v := rfl

@[simp] theorem FlatMemory.readWord_eq (mem : FlatMemory) (low high : UInt16) :
    Bus.readWord mem low high = (word (mem.get low) (mem.get high), mem) := rfl

@[simp] theorem Logged.read_eq {σ : Type} [Bus σ] (s : σ) (log : Array Access) (address : UInt16) :
    Bus.read (⟨s, log⟩ : Logged σ) address =
      ((Bus.read s address).1, ⟨(Bus.read s address).2, log.push (.read address (Bus.read s address).1)⟩) := rfl

@[simp] theorem Logged.write_eq {σ : Type} [Bus σ] (s : σ) (log : Array Access) (address : UInt16) (v : UInt8) :
    Bus.write (⟨s, log⟩ : Logged σ) address v = ⟨Bus.write s address v, log.push (.write address v)⟩ := rfl

/-! ## Addresses -/

/-- The address of an operand whose bytes start at `operand`, and the bus after what is read for it. -/
def Mode.address {σ : Type} [Bus σ] (r : Registers) (bus : σ) (operand : UInt16) : Mode → UInt16 × σ
  | .immediate => (operand, bus)
  | .zeroPage =>
    let p := Bus.read bus operand
    (p.1.toUInt16, p.2)
  | .zeroPageX =>
    let p := Bus.read bus operand
    ((p.1 + r.x).toUInt16, p.2)
  | .zeroPageY =>
    let p := Bus.read bus operand
    ((p.1 + r.y).toUInt16, p.2)
  | .absolute => Bus.readWord bus operand (operand + 1)
  | .absoluteX =>
    let w := Bus.readWord bus operand (operand + 1)
    (w.1 + r.x.toUInt16, w.2)
  | .absoluteY =>
    let w := Bus.readWord bus operand (operand + 1)
    (w.1 + r.y.toUInt16, w.2)
  | .indirectX =>
    let p := Bus.read bus operand
    Bus.readWord p.2 (p.1 + r.x).toUInt16 (p.1 + r.x + 1).toUInt16
  | .indirectY =>
    let p := Bus.read bus operand
    let w := Bus.readWord p.2 p.1.toUInt16 (p.1 + 1).toUInt16
    (w.1 + r.y.toUInt16, w.2)
  | .zeroPageIndirect =>
    let p := Bus.read bus operand
    Bus.readWord p.2 p.1.toUInt16 (p.1 + 1).toUInt16

namespace Exec

variable {σ α β : Type}

/-! ## The accesses -/

@[simp] theorem pure_apply (a : α) (d : Datapath σ) : (pure a : Exec σ α) d = (a, d) := rfl

@[simp] theorem bind_apply (x : Exec σ α) (f : α → Exec σ β) (d : Datapath σ) :
    (x >>= f) d = f (x d).1 (x d).2 := rfl

@[simp] theorem map_apply (f : α → β) (x : Exec σ α) (d : Datapath σ) :
    (f <$> x) d = (f (x d).1, (x d).2) := rfl

@[simp] theorem regs_apply (d : Datapath σ) : (regs : Exec σ Registers) d = (d.regs, d) := rfl

@[simp] theorem modifyRegs_apply (f : Registers → Registers) (d : Datapath σ) :
    modifyRegs f d = ((), { d with regs := f d.regs }) := rfl

@[simp] theorem wait_apply (n : Nat) (d : Datapath σ) :
    wait n d = ((), { d with cycles := d.cycles + n }) := rfl

@[simp] theorem jumpTo_apply (address : UInt16) (d : Datapath σ) :
    jumpTo address d = ((), { d with regs.pc := address }) := rfl

/-- One cycle goes by for an index that leaves its page, and for one of an operand that is written. -/
@[simp] theorem indexed_apply (base : UInt16) (index : UInt8) (writes : Bool) (d : Datapath σ) :
    indexed base index writes d = (base + index.toUInt16,
      { d with cycles := d.cycles + (writes || pageCrossed base (base + index.toUInt16)).toNat }) := by
  unfold indexed
  cases writes || pageCrossed base (base + index.toUInt16) <;> rfl

@[simp] theorem takeBranch_apply (offset : UInt8) (d : Datapath σ) :
    takeBranch offset d = ((),
      { d with
        regs.pc := d.regs.pc + offset.toInt8.toInt16.toUInt16
        cycles := d.cycles +
          if pageCrossed d.regs.pc (d.regs.pc + offset.toInt8.toInt16.toUInt16) then 2 else 1 }) := rfl

variable [Bus σ]

@[simp] theorem read_apply (address : UInt16) (d : Datapath σ) :
    read address d = ((Bus.read d.bus address).1, { d with bus := (Bus.read d.bus address).2 }) := rfl

@[simp] theorem write_apply (address : UInt16) (v : UInt8) (d : Datapath σ) :
    write address v d = ((), { d with bus := Bus.write d.bus address v }) := rfl

/-! ## Operand bytes and words -/

@[simp] theorem fetchByte_apply (d : Datapath σ) :
    fetchByte d = ((Bus.read d.bus d.regs.pc).1,
      { regs := { d.regs with pc := d.regs.pc + 1 }
        bus := (Bus.read d.bus d.regs.pc).2
        cycles := d.cycles + 1 }) := rfl

@[simp] theorem fetchWord_apply (d : Datapath σ) :
    fetchWord d = ((Bus.readWord d.bus d.regs.pc (d.regs.pc + 1)).1,
      { regs := { d.regs with pc := d.regs.pc + 2 }
        bus := (Bus.readWord d.bus d.regs.pc (d.regs.pc + 1)).2
        cycles := d.cycles + 2 }) := by
  have hpc : d.regs.pc + 1 + 1 = d.regs.pc + 2 := UInt16.add_assoc _ 1 1
  rw [← hpc]
  rfl

@[simp] theorem readWord_apply (low high : UInt16) (d : Datapath σ) :
    readWord low high d =
      ((Bus.readWord d.bus low high).1, { d with bus := (Bus.readWord d.bus low high).2 }) := rfl

/-! ## The stack -/

@[simp] theorem pushByte_apply (v : UInt8) (d : Datapath σ) :
    pushByte v d = ((),
      { d with regs.sp := d.regs.sp - 1, bus := Bus.write d.bus (stackCell d.regs.sp) v }) := rfl

@[simp] theorem pullByte_apply (d : Datapath σ) :
    pullByte d = ((Bus.read d.bus (stackCell (d.regs.sp + 1))).1,
      { d with regs.sp := d.regs.sp + 1, bus := (Bus.read d.bus (stackCell (d.regs.sp + 1))).2 }) := rfl

/-! ## The operand -/

theorem operandAddress_address (mode : Mode) (writes : Bool) (d : Datapath σ) :
    (operandAddress mode writes d).1 = (mode.address d.regs d.bus d.regs.pc).1 ∧
      (operandAddress mode writes d).2.bus = (mode.address d.regs d.bus d.regs.pc).2 := by
  cases mode with
  | absoluteX | absoluteY | absolute | indirectY =>
    simp only [operandAddress, bind_apply, fetchWord_apply, fetchByte_apply, readPointer, readWord_apply, wait_apply,
      regs_apply, indexed_apply, Mode.address, and_self]
  | _ => exact ⟨rfl, rfl⟩

end Exec

/-- The registers, the bus and the cycles after an instruction: its opcode is fetched, and it is executed. -/
def executed {σ : Type} [Bus σ] (p : Processor) (bus : σ) : Datapath σ :=
  let opcode := Bus.read bus p.regs.pc
  (Exec.execute p.model (Instruction.decode p.model opcode.1) ⟨{ p.regs with pc := p.regs.pc + 1 }, opcode.2, 1⟩).2

/-- A step without an interrupt is an instruction. -/
theorem step_instruction {σ : Type} [Bus σ] (p : Processor) (bus : σ) (h : p.due = .instruction) :
    p.step bus = ((p.executed bus).cycles,
      { p with
        regs := (p.executed bus).regs
        totalCycles := Count.add p.totalCycles (p.executed bus).cycles
        previousNmi := p.nmi
        lastOpcode := some (Bus.read bus p.regs.pc).1 },
      (p.executed bus).bus) := by
  have hperform : perform p.model .instruction ⟨p.regs, bus, 0⟩ =
      (some (Bus.read bus p.regs.pc).1, p.executed bus) := by
    unfold executed
    dsimp only
    rw [← Instruction.ofOpcode_eq_decode]
    rfl
  rw [step, h, hperform]

end AppleII.Processor
