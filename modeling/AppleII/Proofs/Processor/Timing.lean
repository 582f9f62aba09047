import AppleII.Proofs.Processor.Datasheet
import AppleII.Proofs.Processor.Execution

/-!
# Cycles and instruction lengths

What a step costs beside the documented cycles of its opcode is told from the operand bytes: one cycle for an index
that leaves the page of its base, one for a branch that is taken and one more when that lands on another page
(`step_follows_datasheet`).  An instruction that does not jump leaves the program counter behind its last byte, or
where its branch goes.
-/

namespace AppleII.Processor

variable {σ : Type} [Bus σ]

/-- The page of an address. -/
def page (address : UInt16) : Nat := address.toNat / 0x100

/-- An address and a signed offset. -/
def displace (address : UInt16) (offset : UInt8) : UInt16 :=
  if offset < 0x80 then address + offset.toUInt16 else address + offset.toUInt16 - 0x100

namespace Indexing

/-- The address that the index is added to, by the operand bytes from `operand` on. -/
def base (bus : σ) (operand : UInt16) : Indexing → UInt16
  | .absolute _ => (Bus.readWord bus operand (operand + 1)).1
  | .indirect =>
    let pointer := Bus.read bus operand
    (Bus.readWord pointer.2 pointer.1.toUInt16 (pointer.1 + 1).toUInt16).1

def index (r : Registers) : Indexing → UInt8
  | .absolute g => r.get g
  | .indirect => r.y

/-- The indexed address lies on another page than its base. -/
def crosses (r : Registers) (bus : σ) (operand : UInt16) (i : Indexing) : Bool :=
  page (i.base bus operand) != page (i.base bus operand + (i.index r).toUInt16)

end Indexing

namespace Branch

/-- The branch is taken: its condition holds, or the bit of the zero-page cell has its value. -/
def holds (r : Registers) (bus : σ) (operand : UInt16) : Branch → Bool
  | .onCondition c => c.holds r.status
  | .onBit n b =>
    let pointer := Bus.read bus operand
    (Bus.read pointer.2 pointer.1.toUInt16).1.toNat.testBit n == b

/-- The last byte of the branch. -/
def offset (bus : σ) (operand : UInt16) : Branch → UInt8
  | .onCondition _ => (Bus.read bus operand).1
  | .onBit .. =>
    let pointer := Bus.read bus operand
    let cell := Bus.read pointer.2 pointer.1.toUInt16
    (Bus.read cell.2 (operand + 1)).1

end Branch

/-- A page is crossed on the way to an operand that costs a cycle for it. -/
def crossed (x : Option Indexing) (r : Registers) (bus : σ) (operand : UInt16) : Bool :=
  x.any fun i => i.crosses r bus operand

/-- There is a branch, and it is taken. -/
def taken (x : Option Branch) (r : Registers) (bus : σ) (operand : UInt16) : Bool :=
  x.any fun b => b.holds r bus operand

/-- Where a branch goes from the instruction behind it. -/
def target (x : Option Branch) (bus : σ) (operand next : UInt16) : UInt16 :=
  x.elim next fun b => displace next (b.offset bus operand)

/-! ## Pages and offsets -/

theorem toNat_pageMask (address : UInt16) : (address &&& 0xFF00).toNat = 0x100 * page address := by
  have haddress := address.toNat_lt
  have hquotient : (address.toNat &&& 0xFF00) / 2 ^ 8 = address.toNat / 2 ^ 8 &&& 2 ^ 8 - 1 := Nat.and_div_two_pow
  have hremainder : (address.toNat &&& 0xFF00) % 2 ^ 8 = address.toNat % 2 ^ 8 &&& 0 := Nat.and_mod_two_pow
  rw [Nat.and_two_pow_sub_one_eq_mod] at hquotient
  rw [Nat.and_zero] at hremainder
  rw [UInt16.toNat_and]
  unfold page
  simp only [UInt16.reduceToNat]
  omega

theorem pageCrossed_eq (a b : UInt16) : Exec.pageCrossed a b = (page a != page b) := by
  have hpages : a &&& 0xFF00 = b &&& 0xFF00 ↔ page a = page b := by
    rw [← UInt16.toNat_inj, toNat_pageMask, toNat_pageMask]
    omega
  rw [Exec.pageCrossed, Bool.eq_iff_iff, bne_iff_ne, bne_iff_ne]
  exact not_congr hpages

theorem add_signExtended (address : UInt16) (offset : UInt8) :
    address + offset.toInt8.toInt16.toUInt16 = displace address offset := by
  have hsigned : ∀ offset : UInt8, offset.toInt8.toInt16.toUInt16 =
      if offset < 0x80 then offset.toUInt16 else offset.toUInt16 - 0x100 := forall_byte (by decide +kernel)
  unfold displace
  rw [hsigned]
  split
  · rfl
  · grind

theorem testBit_shift (n : Fin 8) (v : UInt8) : (v >>> n.val.toUInt8 &&& 1 == 1) = v.toNat.testBit n := by
  revert n
  exact forall_byte (P := fun v => ∀ n : Fin 8, (v >>> n.val.toUInt8 &&& 1 == 1) = v.toNat.testBit n)
    (by decide +kernel) v

/-! ## The parts of an instruction -/

@[simp] theorem ReadOp.pc_apply (m : Model) (op : ReadOp) (r : Registers) (v : UInt8) :
    (op.apply m r v).pc = r.pc := by
  cases op with
  | load g => cases g <;> rfl
  | _ => rfl

@[simp] theorem RegisterOp.pc_apply (op : RegisterOp) (r : Registers) : (op.apply r).pc = r.pc := by
  cases op with
  | transfer _ t => cases t <;> rfl
  | _ => rfl

@[simp] theorem Registers.pc_load (r : Registers) (g : Register) (v : UInt8) : (r.load g v).pc = r.pc := by
  cases g <;> rfl

namespace Exec

variable (d : Datapath σ)

theorem operandAddress_regs (mode : Mode) (writes : Bool) :
    (operandAddress mode writes d).2.regs = { d.regs with pc := d.regs.pc + UInt16.ofNat mode.bytes } := by
  cases mode with
  | absoluteX | absoluteY | indirectY =>
    simp only [operandAddress, bind_apply, fetchByte_apply, fetchWord_apply, readPointer, readWord_apply, wait_apply,
      regs_apply, indexed_apply]
    rfl
  | absolute => simp only [operandAddress, fetchWord_apply]; rfl
  | _ => rfl

theorem operandAddress_cycles (mode : Mode) (writes : Bool) :
    (operandAddress mode writes d).2.cycles =
      d.cycles + mode.cycles writes + (!writes && crossed mode.indexing? d.regs d.bus d.regs.pc).toNat := by
  cases mode with
  | absoluteX | absoluteY | indirectY =>
    cases writes <;> simp [operandAddress, readPointer, Mode.cycles, Mode.indexing?, crossed, Indexing.crosses,
      Indexing.base, Indexing.index, Registers.get, pageCrossed_eq]
  | _ => simp [operandAddress, readPointer, Mode.cycles, Mode.indexing?, crossed]

/-- The state after a branch that goes by an offset, if it is taken. -/
def branched (taken : Bool) (offset : UInt8) (d : Datapath σ) : Datapath σ :=
  { d with
    regs.pc := if taken then displace d.regs.pc offset else d.regs.pc
    cycles := d.cycles + taken.toNat + (taken && page (displace d.regs.pc offset) != page d.regs.pc).toNat }

omit [Bus σ] in
theorem takeBranch_ite (c : Bool) (offset : UInt8) :
    ((if c then takeBranch offset else pure () : Exec σ Unit) d).2 = branched c offset d := by
  cases c with
  | false => rfl
  | true =>
    rw [if_pos rfl, takeBranch_apply, branched, pageCrossed_eq, add_signExtended, bne_comm]
    cases page (displace d.regs.pc offset) != page d.regs.pc <;> rfl

theorem execute_branch (m : Model) (c : Condition) :
    (execute m (.branch c) d).2 = branched (c.holds d.regs.status) (Bus.read d.bus d.regs.pc).1 (fetchByte d).2 :=
  takeBranch_ite _ _ _

theorem execute_branchBit (m : Model) (n : Fin 8) (b : Bool) :
    ∃ bus, (execute m (.branchBit n b) d).2 =
      branched ((Branch.onBit n b).holds d.regs d.bus d.regs.pc) ((Branch.onBit n b).offset d.bus d.regs.pc)
        { regs := { d.regs with pc := d.regs.pc + 2 }, bus, cycles := d.cycles + 4 } := by
  have hpc : d.regs.pc + 1 + 1 = d.regs.pc + 2 := UInt16.add_assoc _ 1 1
  rw [Branch.holds, ← testBit_shift, ← hpc]
  exact ⟨_, takeBranch_ite _ _ _⟩

theorem skipBytes_regs (n : Nat) :
    (skipBytes n d).2.regs = { d.regs with pc := d.regs.pc + UInt16.ofNat n } := by
  induction n generalizing d with
  | zero => simp [skipBytes]
  | succ n ih => simp [skipBytes, ih, UInt16.ofNat_add, UInt16.add_assoc, UInt16.add_comm]

theorem skipBytes_cycles (n : Nat) : (skipBytes n d).2.cycles = d.cycles + n := by
  induction n generalizing d with
  | zero => rfl
  | succ n ih =>
    simp only [skipBytes, bind_apply, fetchByte_apply, ih]
    omega

/-- An instruction takes its cycles, one for a crossed page, one for a branch that is taken and one more when that
lands on another page. -/
theorem execute_cycles (m : Model) (i : Instruction) :
    (execute m i d).2.cycles = d.cycles + i.cycles m + (crossed i.indexing? d.regs d.bus d.regs.pc).toNat +
      (taken i.branch? d.regs d.bus d.regs.pc).toNat +
      (taken i.branch? d.regs d.bus d.regs.pc &&
        page (target i.branch? d.bus d.regs.pc (d.regs.pc + UInt16.ofNat i.operandBytes)) !=
          page (d.regs.pc + UInt16.ofNat i.operandBytes)).toNat := by
  cases i with
  | read op mode | write s mode | modify op mode =>
    simp [execute, operandAddress_cycles, Instruction.cycles, Instruction.indexing?, Instruction.branch?, crossed,
      taken]
    omega
  | branch c =>
    simp [execute_branch, branched, Instruction.cycles, Instruction.indexing?, Instruction.branch?, crossed, taken,
      target, Branch.holds, Branch.offset, Instruction.operandBytes]
  | branchBit n b =>
    obtain ⟨bus, hbranch⟩ := execute_branchBit d m n b
    simp [hbranch, branched, Instruction.cycles, Instruction.indexing?, Instruction.branch?, crossed, taken, target,
      Instruction.operandBytes]
  | skip operands extra =>
    simp [execute, skipBytes_cycles, Instruction.cycles, Instruction.indexing?, Instruction.branch?, crossed, taken]
    omega
  | jumpIndirect =>
    cases m <;> simp [execute, jumpIndirect, Instruction.cycles, Instruction.indexing?, Instruction.branch?, crossed,
      taken]
  | modifyAccumulator | register | push | pull | pushStatus | pullStatus | jump | jumpIndexedIndirect | call | ret
  | «break» | returnFromInterrupt =>
    simp [execute, pushWord, pullWord, jumpThrough, enterHandler, returnFromInterrupt, Instruction.cycles,
      Instruction.indexing?, Instruction.branch?, crossed, taken]

/-- An instruction that does not jump leaves the program counter behind its operand bytes, or where it branches. -/
theorem execute_pc (m : Model) {i : Instruction} (h : i.jumps = false) :
    (execute m i d).2.regs.pc =
      if taken i.branch? d.regs d.bus d.regs.pc then
        target i.branch? d.bus d.regs.pc (d.regs.pc + UInt16.ofNat i.operandBytes)
      else d.regs.pc + UInt16.ofNat i.operandBytes := by
  cases i with
  | read op mode | write s mode | modify op mode =>
    simp [execute, operandAddress_regs, Instruction.branch?, taken, Instruction.operandBytes]
  | branch c =>
    simp [execute_branch, branched, Instruction.branch?, taken, target, Branch.holds, Branch.offset,
      Instruction.operandBytes]
  | branchBit n b =>
    obtain ⟨bus, hbranch⟩ := execute_branchBit d m n b
    rw [hbranch]
    rfl
  | skip operands extra => simp [execute, skipBytes_regs, Instruction.branch?, taken, Instruction.operandBytes]
  | modifyAccumulator | register | push | pull | pushStatus | pullStatus =>
    simp [execute, Instruction.branch?, taken, Instruction.operandBytes]
  | jump | jumpIndirect | jumpIndexedIndirect | call | ret | «break» | returnFromInterrupt => cases h

end Exec

/-! ## The shortest and the longest step -/

theorem crossed_le (x : Option Indexing) (r : Registers) (bus : σ) (operand : UInt16) :
    (crossed x r bus operand).toNat ≤ x.isSome.toNat := by
  cases x with
  | none => exact Nat.le_refl 0
  | some _ => exact Bool.toNat_le _

theorem taken_le (x : Option Branch) (r : Registers) (bus : σ) (operand : UInt16) :
    (taken x r bus operand).toNat ≤ x.isSome.toNat := by
  cases x with
  | none => exact Nat.le_refl 0
  | some _ => exact Bool.toNat_le _

/-- The most cycles that an instruction takes after its opcode is fetched. -/
def Instruction.longest (m : Model) (i : Instruction) : Nat :=
  i.cycles m + i.indexing?.isSome.toNat + 2 * i.branch?.isSome.toNat

/-- No instruction takes more cycles than `$5C`, which the CMOS processor passes over in eight. -/
theorem Instruction.longest_decode (m : Model) : ∀ opcode, (decode m opcode).longest m ≤ 7 := by
  cases m <;> exact forall_byte (by decide +kernel)

theorem Exec.execute_cycles_le (d : Datapath σ) (m : Model) (i : Instruction) :
    d.cycles ≤ (execute m i d).2.cycles ∧ (execute m i d).2.cycles ≤ d.cycles + i.longest m := by
  have hcrossed := crossed_le i.indexing? d.regs d.bus d.regs.pc
  have htaken := taken_le i.branch? d.regs d.bus d.regs.pc
  have hacross (branches across : Bool) : (branches && across).toNat ≤ branches.toNat := by
    cases branches <;> cases across <;> decide
  have hpage := hacross (taken i.branch? d.regs d.bus d.regs.pc)
    (page (target i.branch? d.bus d.regs.pc (d.regs.pc + UInt16.ofNat i.operandBytes)) !=
      page (d.regs.pc + UInt16.ofNat i.operandBytes))
  rw [execute_cycles, Instruction.longest]
  omega

/-- **A step takes from one to eight cycles.** -/
theorem cycles_step (p : Processor) (bus : σ) : 1 ≤ (p.step bus).1 ∧ (p.step bus).1 ≤ 8 := by
  cases hdue : p.due with
  | nonMaskable | request =>
    have hseven : (p.step bus).1 = 7 := by
      unfold step
      rw [hdue]
      cases p.model <;> rfl
    omega
  | instruction =>
    rw [p.step_instruction bus hdue]
    have hlongest := Instruction.longest_decode p.model (Bus.read bus p.regs.pc).1
    obtain ⟨hshort, hlong⟩ := Exec.execute_cycles_le
      ⟨{ p.regs with pc := p.regs.pc + 1 }, (Bus.read bus p.regs.pc).2, 1⟩ p.model
      (Instruction.decode p.model (Bus.read bus p.regs.pc).1)
    exact ⟨hshort, Nat.le_trans hlong (Nat.add_le_add_left hlongest 1)⟩

/-! ## The documented cycles -/

/-- **Cycles and lengths follow the datasheet.** A step that executes an instruction takes the documented cycles of
its opcode; one more when an operand that costs it is indexed across a page; one more when a branch is taken, and yet
one when that lands on another page than the instruction behind the branch.  The processor counts them.  An opcode
that does not set the program counter moves it by its documented length, and a branch that is taken goes on from
there. -/
theorem step_follows_datasheet (p : Processor) (bus : σ) (h : p.due = .instruction) :
    let opcode := (Bus.read bus p.regs.pc).1
    let fetched := (Bus.read bus p.regs.pc).2
    let operand := p.regs.pc + 1
    let next := p.regs.pc + UInt16.ofNat (Datasheet.length p.model opcode)
    let indexing := Datasheet.indexing? p.model opcode
    let branch := Datasheet.branch? p.model opcode
    (p.step bus).1 = Datasheet.cycles p.model opcode + (crossed indexing p.regs fetched operand).toNat +
        (taken branch p.regs fetched operand).toNat +
        (taken branch p.regs fetched operand && page (target branch fetched operand next) != page next).toNat ∧
      (p.step bus).2.1.totalCycles = Count.add p.totalCycles (p.step bus).1 ∧
      (Datasheet.jumps p.model opcode = false →
        (p.step bus).2.1.regs.pc =
          if taken branch p.regs fetched operand then target branch fetched operand next else next) := by
  intro opcode fetched operand next indexing branch
  have hdecoded := Instruction.documented_decode p.model opcode
  have hnext : next = operand + UInt16.ofNat (Instruction.decode p.model opcode).operandBytes := by
    show p.regs.pc + UInt16.ofNat (Datasheet.length p.model opcode) = _
    rw [hdecoded.length, UInt16.ofNat_add, ← UInt16.add_assoc]
    rfl
  have hcycles := Exec.execute_cycles ⟨{ p.regs with pc := operand }, fetched, 1⟩ p.model
    (Instruction.decode p.model opcode)
  rw [← hdecoded.indexing?, ← hdecoded.branch?, ← hnext, ← hdecoded.cycles] at hcycles
  rw [p.step_instruction bus h]
  refine ⟨hcycles, rfl, fun hjumps => ?_⟩
  have hpc := Exec.execute_pc ⟨{ p.regs with pc := operand }, fetched, 1⟩ p.model (hdecoded.jumps ▸ hjumps)
  rw [← hdecoded.branch?, ← hnext] at hpc
  exact hpc

/-- `BNE *+$12` at `$02F0`: it is taken to another page. -/
theorem step_branch_across :
    let mem : FlatMemory := (FlatMemory.zeros.set 0x02F0 0xD0).set 0x02F1 0x10
    let p : Processor := { model := .nmos, regs := { Registers.powerUp with pc := 0x02F0 } }
    (p.step mem).1 = 4 ∧ (p.step mem).2.1.totalCycles = 4 ∧ (p.step mem).2.1.regs.pc = 0x0302 := by
  intro mem p
  have hopcode : Bus.read mem p.regs.pc = (0xD0, mem) := by
    simp [Bus.read, p, mem, FlatMemory.get_set_of_ne]
  have hoffset : Bus.read mem (p.regs.pc + 1) = (0x10, mem) := by
    simp [Bus.read, p, mem]
  have hcycles := step_follows_datasheet p mem rfl
  rw [hopcode] at hcycles
  obtain ⟨hcycles, htotal, hpc⟩ := hcycles
  have hbranch : Datasheet.branch? p.model 0xD0 = some (.onCondition (.flag .zero false)) := rfl
  rw [hbranch] at hcycles hpc
  simp only [taken, target, Option.any_some, Option.elim_some, Branch.holds, Branch.offset, hoffset] at hcycles hpc
  have hindexing : Datasheet.indexing? p.model 0xD0 = none := rfl
  rw [hindexing] at hcycles
  have hfour : (p.step mem).1 = 4 := hcycles.trans (by decide)
  refine ⟨hfour, ?_, hpc rfl⟩
  rw [htotal, hfour]
  rfl

end AppleII.Processor
