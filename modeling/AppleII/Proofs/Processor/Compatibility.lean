import AppleII.Proofs.Processor.Timing

/-!
# Code of the NMOS processor on the CMOS processor

The CMOS processor runs what was written for the NMOS processor: each documented opcode makes the same accesses in as
many cycles and leaves the same registers (`cmos_runs_nmos_code`).  The two part in decimal mode, where `ADC` and `SBC`
set other flags and a handler is entered without it, and at `JMP ($nnnn)`, which takes a cycle more.
-/

namespace AppleII.Processor

variable {σ : Type} [Bus σ]

/-- Where the two processors part in decimal mode. -/
inductive Parting where
  | nowhere
  /-- `ADC` and `SBC` -/
  | arithmetic
  /-- The way into a handler, by an interrupt or `BRK`. -/
  | handler
  deriving DecidableEq, Repr

/-- The registers `r'` of the CMOS processor may stand where the NMOS processor has `r`. -/
def Parting.Allows : Parting → Registers → Registers → Prop
  | nowhere, r, r' => r' = r
  | arithmetic, r, r' => ∃ zero negative, r' = { r with status.zero := zero, status.negative := negative }
  | handler, r, r' => r' = { r with status.decimal := false }

/-- The processors part in decimal mode only. -/
def Parting.inMode (parting : Parting) (decimal : Bool) : Parting :=
  if decimal then parting else nowhere

namespace Datasheet

/-- The 151 opcodes of the NMOS processor. -/
def documented : List UInt8 := [
  0x00, 0x01, 0x05, 0x06, 0x08, 0x09, 0x0A, 0x0D, 0x0E,
  0x10, 0x11, 0x15, 0x16, 0x18, 0x19, 0x1D, 0x1E,
  0x20, 0x21, 0x24, 0x25, 0x26, 0x28, 0x29, 0x2A, 0x2C, 0x2D, 0x2E,
  0x30, 0x31, 0x35, 0x36, 0x38, 0x39, 0x3D, 0x3E,
  0x40, 0x41, 0x45, 0x46, 0x48, 0x49, 0x4A, 0x4C, 0x4D, 0x4E,
  0x50, 0x51, 0x55, 0x56, 0x58, 0x59, 0x5D, 0x5E,
  0x60, 0x61, 0x65, 0x66, 0x68, 0x69, 0x6A, 0x6C, 0x6D, 0x6E,
  0x70, 0x71, 0x75, 0x76, 0x78, 0x79, 0x7D, 0x7E,
  0x81, 0x84, 0x85, 0x86, 0x88, 0x8A, 0x8C, 0x8D, 0x8E,
  0x90, 0x91, 0x94, 0x95, 0x96, 0x98, 0x99, 0x9A, 0x9D,
  0xA0, 0xA1, 0xA2, 0xA4, 0xA5, 0xA6, 0xA8, 0xA9, 0xAA, 0xAC, 0xAD, 0xAE,
  0xB0, 0xB1, 0xB4, 0xB5, 0xB6, 0xB8, 0xB9, 0xBA, 0xBC, 0xBD, 0xBE,
  0xC0, 0xC1, 0xC4, 0xC5, 0xC6, 0xC8, 0xC9, 0xCA, 0xCC, 0xCD, 0xCE,
  0xD0, 0xD1, 0xD5, 0xD6, 0xD8, 0xD9, 0xDD, 0xDE,
  0xE0, 0xE1, 0xE4, 0xE5, 0xE6, 0xE8, 0xE9, 0xEA, 0xEC, 0xED, 0xEE,
  0xF0, 0xF1, 0xF5, 0xF6, 0xF8, 0xF9, 0xFD, 0xFE]

/-- `JMP ($nnnn)` -/
def jumpIndirect : UInt8 := 0x6C

/-- The documented opcodes at which the processors part in decimal mode. -/
def parting : UInt8 → Parting
  -- `BRK`
  | 0x00 => .handler
  -- `ADC`
  | 0x61 | 0x65 | 0x69 | 0x6D | 0x71 | 0x75 | 0x79 | 0x7D => .arithmetic
  -- `SBC`
  | 0xE1 | 0xE5 | 0xE9 | 0xED | 0xF1 | 0xF5 | 0xF9 | 0xFD => .arithmetic
  | _ => .nowhere

end Datasheet

/-- What the next step may leave different in decimal mode, when `opcode` is the byte at the program counter. -/
def Due.parting (opcode : UInt8) : Due → Parting
  | .nonMaskable | .request => .handler
  | .instruction => Datasheet.parting opcode

/-- A step of the NMOS processor and one of the CMOS processor, which takes `extra` cycles more: the accesses are the
same, and the processors are the same after them, but for what may be different in the registers. -/
structure StepsAlike (extra : Nat) (parting : Parting) (nmos cmos : Nat × Processor × Logged σ) : Prop where
  cycles : cmos.1 = nmos.1 + extra
  bus : cmos.2.2 = nmos.2.2
  registers : parting.Allows nmos.2.1.regs cmos.2.1.regs
  processor : cmos.2.1 = { nmos.2.1 with
    model := .cmos
    regs := cmos.2.1.regs
    totalCycles := Count.add nmos.2.1.totalCycles extra }

/-! ## What the registers hold -/

namespace Parting

theorem allows_refl (decimal : Bool) (r : Registers) : (nowhere.inMode decimal).Allows r r := by
  cases decimal <;> rfl

/-- A handler is entered without decimal mode. -/
theorem allows_handler (r : Registers) :
    (handler.inMode r.status.decimal).Allows r { r with status.decimal := false } := by
  obtain ⟨a, x, y, sp, pc, ⟨n, v, u, b, decimal, i, z, c⟩⟩ := r
  cases decimal <;> rfl

end Parting

namespace Instruction

def parting : Instruction → Parting
  | .read .add _ | .read .subtract _ => .arithmetic
  | .break => .handler
  | _ => .nowhere

/-- Both processors decode a documented opcode alike. -/
theorem decode_documented : ∀ opcode ∈ Datasheet.documented,
    decode .cmos opcode = decode .nmos opcode ∧
      (decode .nmos opcode).parting = Datasheet.parting opcode ∧
      (decode .nmos opcode = .jumpIndirect ↔ opcode = Datasheet.jumpIndirect) := by
  decide +kernel

example : Datasheet.documented.length = 151 := rfl

end Instruction

theorem addWithCarry_cmos {s : Status} (hs : s.decimal = true) (a v : UInt8) :
    ∃ zero negative, addWithCarry .cmos s a v =
      ((addWithCarry .nmos s a v).1, { (addWithCarry .nmos s a v).2 with zero, negative }) := by
  simp only [addWithCarry, if_pos hs]
  exact ⟨_, _, rfl⟩

theorem subtractWithBorrow_cmos {s : Status} (hs : s.decimal = true) (a v : UInt8) :
    ∃ zero negative, subtractWithBorrow .cmos s a v =
      ((subtractWithBorrow .nmos s a v).1, { (subtractWithBorrow .nmos s a v).2 with zero, negative }) := by
  simp only [subtractWithBorrow, if_pos hs]
  exact ⟨_, _, rfl⟩

theorem ReadOp.allows_apply (op : ReadOp) (mode : Mode) (r : Registers) (v : UInt8) :
    ((Instruction.read op mode).parting.inMode r.status.decimal).Allows (op.apply .nmos r v) (op.apply .cmos r v) := by
  cases op with
  | add =>
    cases hdecimal : r.status.decimal with
    | false => simp [apply, addWithCarry, hdecimal, Parting.inMode, Parting.Allows]
    | true =>
      obtain ⟨zero, negative, hadd⟩ := addWithCarry_cmos hdecimal r.a v
      refine ⟨zero, negative, ?_⟩
      simp only [apply, hadd]
  | subtract =>
    cases hdecimal : r.status.decimal with
    | false => simp [apply, subtractWithBorrow, hdecimal, Parting.inMode, Parting.Allows]
    | true =>
      obtain ⟨zero, negative, hsubtract⟩ := subtractWithBorrow_cmos hdecimal r.a v
      refine ⟨zero, negative, ?_⟩
      simp only [apply, hsubtract]
  | load | compare | and | or | xor | bit | bitZero => exact Parting.allows_refl _ _

/-! ## Pointers -/

/-- The two bytes of an address, put together again. -/
theorem or_pageMask (address : UInt16) : (address &&& 0xFF00) ||| (address &&& 0x00FF) = address := by
  have hoffset : (address &&& 0x00FF).toNat = address.toNat % 2 ^ 8 := by
    rw [UInt16.toNat_and]
    exact Nat.and_two_pow_sub_one_eq_mod _ 8
  have hlt : address.toNat % 2 ^ 8 < 2 ^ 8 := Nat.mod_lt _ (by decide)
  rw [← UInt16.toNat_inj, UInt16.toNat_or, toNat_pageMask, hoffset, ← Nat.two_pow_add_eq_or_of_lt hlt]
  exact Nat.div_add_mod _ _
/-- The high byte of a pointer is on the page of its low byte, unless that ends a page. -/
theorem samePage_next {low : UInt8} (hlow : low ≠ 0xFF) (high : UInt8) :
    (word low high &&& 0xFF00) ||| ((word low high + 1) &&& 0x00FF) = word low high + 1 := by
  have hlt := low.toNat_lt
  have hhigh := high.toNat_lt
  have hlast : low.toNat ≠ 0xFF := fun h => hlow (UInt8.toNat_inj.mp h)
  have hnext : (word low high + 1).toNat = (word low high).toNat + 1 := by
    rw [UInt16.toNat_add, toNat_word]
    exact Nat.mod_eq_of_lt (by simp; omega)
  have hpage : word low high &&& 0xFF00 = (word low high + 1) &&& 0xFF00 := by
    rw [← UInt16.toNat_inj, toNat_pageMask, toNat_pageMask, page, page, hnext, toNat_word]
    omega
  rw [hpage, or_pageMask]

/-! ## Instructions -/

/-- The same accesses so far, `extra` cycles more, and what may be different in the registers. -/
structure Datapath.Parts (extra : Nat) (parting : Parting) (nmos cmos : Datapath σ) : Prop where
  registers : parting.Allows nmos.regs cmos.regs
  bus : cmos.bus = nmos.bus
  cycles : cmos.cycles = nmos.cycles + extra

namespace Exec

variable (d : Datapath σ)

omit [Bus σ] in
theorem parts_of_eq {n c : Datapath σ} (decimal : Bool) (h : c = n) : n.Parts 0 (Parting.nowhere.inMode decimal) c := by
  rw [h]
  exact ⟨Parting.allows_refl _ _, rfl, rfl⟩

theorem serviceInterrupt_parts (vector : UInt16) :
    (serviceInterrupt .nmos vector d).2.Parts 0 (Parting.handler.inMode d.regs.status.decimal)
      (serviceInterrupt .cmos vector d).2 :=
  ⟨Parting.allows_handler (serviceInterrupt .nmos vector d).2.regs, rfl, rfl⟩

/-- Both processors execute an instruction alike, but for a jump through memory. -/
theorem execute_parts {i : Instruction} (hi : i ≠ .jumpIndirect) :
    (execute .nmos i d).2.Parts 0 (i.parting.inMode d.regs.status.decimal) (execute .cmos i d).2 := by
  cases i with
  | read op mode =>
    have hstatus : (operandAddress mode false d).2.regs.status = d.regs.status := by rw [operandAddress_regs]
    refine ⟨?_, rfl, rfl⟩
    rw [← hstatus]
    exact op.allows_apply mode _ _
  | «break» => exact ⟨Parting.allows_handler (execute .nmos .break d).2.regs, rfl, rfl⟩
  | jumpIndirect => exact absurd rfl hi
  | write | modify | modifyAccumulator | register | push | pull | pushStatus | pullStatus | branch | branchBit
  | jump | jumpIndexedIndirect | call | ret | returnFromInterrupt | skip => exact parts_of_eq _ rfl

/-- A jump through memory goes to the same place on both processors, unless its pointer ends a page. -/
theorem jumpIndirect_parts (hlow : (Bus.read d.bus d.regs.pc).1 ≠ 0xFF) :
    (execute .nmos .jumpIndirect d).2.Parts 1 .nowhere (execute .cmos .jumpIndirect d).2 := by
  have hpointer : (Bus.readWord d.bus d.regs.pc (d.regs.pc + 1)).1 =
      word (Bus.read d.bus d.regs.pc).1 (Bus.read (Bus.read d.bus d.regs.pc).2 (d.regs.pc + 1)).1 := rfl
  have hsame := samePage_next hlow (Bus.read (Bus.read d.bus d.regs.pc).2 (d.regs.pc + 1)).1
  rw [← hpointer] at hsame
  refine ⟨?_, ?_, ?_⟩ <;>
    simp [execute, jumpIndirect, hsame, Parting.Allows]

end Exec

/-! ## Steps -/

/-- Steps of the two processors are alike when what they perform is. -/
theorem stepsAlike_of_parts {p : Processor} {s : Logged σ} {extra : Nat} {parting : Parting} {opcode : Option UInt8}
    {nmos cmos : Datapath (Logged σ)} (hnmos : perform .nmos p.due ⟨p.regs, s, 0⟩ = (opcode, nmos))
    (hcmos : perform .cmos p.due ⟨p.regs, s, 0⟩ = (opcode, cmos)) (h : nmos.Parts extra parting cmos) :
    StepsAlike extra parting ({ p with model := .nmos }.step s) ({ p with model := .cmos }.step s) := by
  have hstep (m : Model) {d : Datapath (Logged σ)} (hd : perform m p.due ⟨p.regs, s, 0⟩ = (opcode, d)) :
      { p with model := m }.step s = (d.cycles,
        { p with
          model := m
          regs := d.regs
          totalCycles := Count.add p.totalCycles d.cycles
          previousNmi := p.nmi
          lastOpcode := opcode }, d.bus) := by
    have hdue : { p with model := m }.due = p.due := rfl
    rw [step, hdue, hd]
  rw [hstep .nmos hnmos, hstep .cmos hcmos]
  refine ⟨h.cycles, h.bus, h.registers, ?_⟩
  dsimp only
  rw [h.cycles, Count.add_assoc]

/-- What is performed when an instruction is due. -/
theorem perform_instruction (m : Model) (d : Datapath σ) :
    perform m .instruction d = (some (Exec.fetchByte d).1,
      (Exec.execute m (Instruction.decode m (Exec.fetchByte d).1) (Exec.fetchByte d).2).2) := by
  rw [← Instruction.ofOpcode_eq_decode]
  rfl

/-- **The CMOS processor runs code of the NMOS processor.** From the same registers and lines, on any bus, an interrupt
and each of the 151 documented opcodes make the same accesses on both processors, with the same bytes in the same order
and in as many cycles, and leave the same registers.  In decimal mode `ADC` and `SBC` may leave zero and negative
different, and `BRK` and interrupts leave decimal mode on the CMOS processor.  `JMP ($nnnn)` takes a cycle more there,
and goes to the same place unless its pointer lies at the end of a page. -/
theorem cmos_runs_nmos_code (p : Processor) (bus : σ)
    (hcode : p.due = .instruction → (Bus.read bus p.regs.pc).1 ∈ Datasheet.documented) :
    let opcode := Bus.read bus p.regs.pc
    let nmos := { p with model := .nmos }.step (⟨bus, #[]⟩ : Logged σ)
    let cmos := { p with model := .cmos }.step (⟨bus, #[]⟩ : Logged σ)
    let indirect := p.due = .instruction ∧ opcode.1 = Datasheet.jumpIndirect
    (¬indirect → StepsAlike 0 ((p.due.parting opcode.1).inMode p.regs.status.decimal) nmos cmos) ∧
      (indirect → (Bus.read opcode.2 (p.regs.pc + 1)).1 ≠ 0xFF → StepsAlike 1 .nowhere nmos cmos) := by
  intro opcode nmos cmos indirect
  have hinterrupt := Exec.serviceInterrupt_parts (⟨p.regs, ⟨bus, #[]⟩, 0⟩ : Datapath (Logged σ))
  cases hdue : p.due with
  | nonMaskable =>
    have halike : StepsAlike 0 (Parting.handler.inMode p.regs.status.decimal) nmos cmos :=
      stepsAlike_of_parts (by rw [hdue]; rfl) (by rw [hdue]; rfl) (hinterrupt Exec.nonMaskableVector)
    exact ⟨fun _ => halike, fun h => absurd (hdue.symm.trans h.1) nofun⟩
  | request =>
    have halike : StepsAlike 0 (Parting.handler.inMode p.regs.status.decimal) nmos cmos :=
      stepsAlike_of_parts (by rw [hdue]; rfl) (by rw [hdue]; rfl) (hinterrupt Exec.interruptVector)
    exact ⟨fun _ => halike, fun h => absurd (hdue.symm.trans h.1) nofun⟩
  | instruction =>
    obtain ⟨hdecode, hparting, hjump⟩ := Instruction.decode_documented opcode.1 (hcode hdue)
    have hperform (m : Model) : perform m p.due ⟨p.regs, (⟨bus, #[]⟩ : Logged σ), 0⟩ = (some opcode.1,
        (Exec.execute m (Instruction.decode .nmos opcode.1)
          ⟨{ p.regs with pc := p.regs.pc + 1 }, ⟨opcode.2, #[.read p.regs.pc opcode.1]⟩, 1⟩).2) := by
      rw [hdue, perform_instruction]
      cases m with
      | nmos => rfl
      | cmos => rw [← hdecode]; rfl
    refine ⟨fun hdirect => ?_, fun hindirect hlow => ?_⟩
    · have hne : Instruction.decode .nmos opcode.1 ≠ .jumpIndirect := fun h => hdirect ⟨hdue, hjump.mp h⟩
      have hparts := Exec.execute_parts (⟨{ p.regs with pc := p.regs.pc + 1 },
        ⟨opcode.2, #[.read p.regs.pc opcode.1]⟩, 1⟩ : Datapath (Logged σ)) hne
      rw [hparting] at hparts
      exact stepsAlike_of_parts (hperform .nmos) (hperform .cmos) hparts
    · rw [hjump.mpr hindirect.2] at hperform
      exact stepsAlike_of_parts (hperform .nmos) (hperform .cmos) (Exec.jumpIndirect_parts _ hlow)

/-- `ADC #$01` in decimal mode, and `JMP ($0310)` behind it. -/
theorem cmos_runs_nmos_code_adc :
    let mem := FlatMemory.zeros.load 0x0300 #[0x69, 0x01, 0x6C, 0x10, 0x03]
    let p : Processor :=
      { model := .nmos, regs := { Registers.powerUp with a := 0x99, pc := 0x0300, status.decimal := true } }
    let q := { p with regs.pc := 0x0302 }
    (Bus.read mem p.regs.pc).1 ∈ Datasheet.documented ∧ (Bus.read mem q.regs.pc).1 ∈ Datasheet.documented ∧
      StepsAlike 0 .arithmetic ({ p with model := .nmos }.step (⟨mem, #[]⟩ : Logged FlatMemory))
        ({ p with model := .cmos }.step (⟨mem, #[]⟩ : Logged FlatMemory)) ∧
      StepsAlike 1 .nowhere ({ q with model := .nmos }.step (⟨mem, #[]⟩ : Logged FlatMemory))
        ({ q with model := .cmos }.step (⟨mem, #[]⟩ : Logged FlatMemory)) := by
  intro mem p q
  have hadd : Bus.read mem p.regs.pc = (0x69, mem) := by
    simp [Bus.read, p, mem, FlatMemory.load, FlatMemory.get_set_of_ne]
  have hjump : Bus.read mem q.regs.pc = (0x6C, mem) := by
    simp [Bus.read, q, mem, FlatMemory.load, FlatMemory.get_set_of_ne]
  have hlow : (Bus.read mem (q.regs.pc + 1)).1 = 0x10 := by
    simp [Bus.read, q, mem, FlatMemory.load, FlatMemory.get_set_of_ne]
  have haddDocumented : (Bus.read mem p.regs.pc).1 ∈ Datasheet.documented := by
    rw [hadd]
    decide
  have hjumpDocumented : (Bus.read mem q.regs.pc).1 ∈ Datasheet.documented := by
    rw [hjump]
    decide
  obtain ⟨halike, -⟩ := cmos_runs_nmos_code p mem fun _ => haddDocumented
  obtain ⟨-, hindirect⟩ := cmos_runs_nmos_code q mem fun _ => hjumpDocumented
  rw [hadd] at halike
  rw [hjump] at hindirect
  refine ⟨haddDocumented, hjumpDocumented, ?_, ?_⟩
  · exact halike fun h => absurd h.2 (by decide)
  · exact hindirect ⟨rfl, rfl⟩ (by rw [hlow]; decide)

end AppleII.Processor
