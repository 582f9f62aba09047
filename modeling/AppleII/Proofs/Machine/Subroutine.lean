import AppleII.Proofs.Machine.Course
import AppleII.Proofs.Memory.Banks
import AppleII.Proofs.Processor.Stack
import AppleII.Proofs.Switch.Touch

/-!
# Subroutines

A call pushes the address of its last byte, and a return goes on behind the address that it pulls.
`Machine.Balanced` lists the instructions of a call tree: every call in it is matched by its own return, and
nothing is pulled that was not pushed.  The stack pointer never comes above the frame of a call tree, not even
between the calls in it (`Balanced.sp_le`).
-/

namespace AppleII

open Processor
open Processor.Exec (stackCell toNat_stackCell)
open Processor.Instruction (callOpcode retOpcode)

/-! ## The stack -/

theorem stackCell_lt (sp : UInt8) : stackCell sp < 0x0200 := by
  have hsp := sp.toNat_lt
  rw [UInt16.lt_iff_toNat_lt, toNat_stackCell]
  simp only [UInt16.reduceToNat]
  omega

theorem isIoPage_stackCell (sp : UInt8) : Memory.isIoPage (stackCell sp) = false :=
  Memory.isIoPage_eq_false (.inl (UInt16.lt_of_lt_of_le (stackCell_lt sp) (by decide)))

/-- The stack is read and written in main or auxiliary memory, as one switch says. -/
theorem selects_stackCell (sw : Switches) (isWrite : Bool) (sp : UInt8) :
    Selects sw isWrite (stackCell sp) (.ram (sw.isSet .altZeroPage)) (stackCell sp).toNat :=
  .zeroPage (stackCell_lt sp)

namespace Memory

variable {m m' : Memory}

theorem peek_poke_stackCell (sp : UInt8) (v : UInt8) : (m.poke (stackCell sp) v).peek (stackCell sp) = v :=
  peek_poke (selects_stackCell _ false sp) (selects_stackCell _ true sp) v

theorem peek_poke_stackCell_of_ne {sp sp' : UInt8} (h : sp ≠ sp') (v : UInt8) :
    (m.poke (stackCell sp') v).peek (stackCell sp) = m.peek (stackCell sp) := by
  have hread := getElem?_bank_of_selects (m := m.poke (stackCell sp') v) (selects_stackCell _ false sp)
  rw [switches_poke, getElem?_bank_poke_of_not, getElem?_bank_of_selects (selects_stackCell _ false sp)] at hread
  · exact (Option.some.inj hread).symm
  · intro hwrite
    exact stackCell_ne h ((selects_stackCell _ true sp).address_eq hwrite)

/-- What the stack holds is a matter of RAM and of one switch. -/
theorem peek_stackCell_congr (hram : m'.ram = m.ram)
    (hswitch : m'.switches.isSet .altZeroPage = m.switches.isSet .altZeroPage) (sp : UInt8) :
    m'.peek (stackCell sp) = m.peek (stackCell sp) := by
  have hbank (b : Bank) : m'.bank b = m.bank b := by
    unfold bank
    rw [hram]
  have hread := getElem?_bank_of_selects (m := m') (selects_stackCell _ false sp)
  rw [hswitch, hbank, getElem?_bank_of_selects (selects_stackCell _ false sp)] at hread
  exact (Option.some.inj hread).symm

/-- The switch of the stack is turned by writes only. -/
theorem stack_touch (m : Memory) (address : UInt16) :
    (m.touch address false).ram = m.ram ∧
      (m.touch address false).switches.isSet .altZeroPage = m.switches.isSet .altZeroPage := by
  unfold touch Switches.touch
  refine ⟨rfl, ?_⟩
  split
  · next s b _ =>
    split
    · next hturned =>
      refine Switches.isSet_set_of_ne m.switches b ?_
      rintro rfl
      cases hturned
    · rfl
  · rfl

theorem stack_handle (m : Memory) (route : Route) (address : UInt16) :
    (m.handle route address none).2.ram = m.ram ∧
      (m.handle route address none).2.switches.isSet .altZeroPage = m.switches.isSet .altZeroPage := by
  refine ⟨?_, isSet_handle rfl m route address none⟩
  cases route <;> rfl

end Memory

namespace Board

theorem read_stackCell (b : Board) (sp : UInt8) : b.read (stackCell sp) = (b.memory.peek (stackCell sp), b) := by
  unfold read
  rw [isIoPage_stackCell]
  rfl

theorem write_stackCell (b : Board) (sp v : UInt8) :
    b.write (stackCell sp) v = { b with memory := b.memory.poke (stackCell sp) v } := by
  unfold write
  rw [isIoPage_stackCell]
  rfl

theorem stack_read (b : Board) (address : UInt16) :
    (b.read address).2.memory.ram = b.memory.ram ∧
      (b.read address).2.memory.switches.isSet .altZeroPage = b.memory.switches.isSet .altZeroPage := by
  obtain ⟨hram, hswitch⟩ := b.memory.stack_touch address
  unfold read accessIoPage
  simp only [Option.isSome_none]
  split
  · split
    · exact ⟨hram, hswitch⟩
    · obtain ⟨hram', hswitch'⟩ := (b.memory.touch address false).stack_handle (.ofAddress address) address
      dsimp only
      exact ⟨hram'.trans hram, hswitch'.trans hswitch⟩
  · exact ⟨rfl, rfl⟩

/-- No read changes what the stack holds. -/
theorem peek_stackCell_read (b : Board) (address : UInt16) (sp : UInt8) :
    (b.read address).2.memory.peek (stackCell sp) = b.memory.peek (stackCell sp) := by
  obtain ⟨hram, hswitch⟩ := b.stack_read address
  exact Memory.peek_stackCell_congr hram hswitch sp

end Board

/-! ## Calls and returns -/

namespace Machine

/-- The opcode of the next instruction; none when an interrupt comes first. -/
def opcode? (m : Machine) : Option UInt8 :=
  match m.cpu.due with
  | .instruction => some (m.board.read m.cpu.regs.pc).1
  | .nonMaskable | .request => none

/-- The word on top of the stack. -/
def returnAddress (m : Machine) : UInt16 :=
  word (m.memory.peek (stackCell (m.cpu.regs.sp + 1))) (m.memory.peek (stackCell (m.cpu.regs.sp + 1 + 1)))

variable {m : Machine}

theorem opcode?_eq_some_iff {opcode : UInt8} :
    m.opcode? = some opcode ↔ m.cpu.due = .instruction ∧ (m.board.read m.cpu.regs.pc).1 = opcode := by
  unfold opcode?
  cases m.cpu.due <;> simp

theorem lastOpcode_stepped (m : Machine) : m.stepped.cpu.lastOpcode = m.opcode? := by
  unfold opcode?
  show (m.cpu.step m.board).2.1.lastOpcode = _
  unfold Processor.step
  cases m.cpu.due <;> rfl

theorem sp_call (h : m.opcode? = some callOpcode) : m.stepped.cpu.regs.sp = m.cpu.regs.sp - 2 := by
  obtain ⟨hdue, hopcode⟩ := opcode?_eq_some_iff.mp h
  obtain ⟨hregs, -⟩ := step_call hdue hopcode
  exact congrArg Registers.sp hregs

theorem returnAddress_call (h : m.opcode? = some callOpcode) :
    m.stepped.returnAddress = m.cpu.regs.pc + 2 := by
  obtain ⟨hdue, hopcode⟩ := opcode?_eq_some_iff.mp h
  obtain ⟨-, hbus⟩ := step_call hdue hopcode
  have hlow (sp : UInt8) : sp - 2 + 1 = sp - 1 := by grind
  have hhigh (sp : UInt8) : sp - 1 + 1 = sp := UInt8.sub_add_cancel _ 1
  have hne (sp : UInt8) : sp ≠ sp - 1 := by grind
  -- The high byte is pushed first, and the low byte below it.
  obtain ⟨memory, hpushed⟩ : ∃ memory : Memory, m.stepped.memory =
      (memory.poke (stackCell m.cpu.regs.sp) ((m.cpu.regs.pc + 2) >>> 8).toUInt8).poke
        (stackCell (m.cpu.regs.sp - 1)) (m.cpu.regs.pc + 2).toUInt8 := by
    have hwrite (b : Board) (sp v : UInt8) : Bus.write b (stackCell sp) v = _ := b.write_stackCell sp v
    rw [Bus.pushWord, hwrite, hwrite] at hbus
    exact ⟨_, congrArg Board.memory hbus⟩
  unfold returnAddress
  rw [sp_call h, hlow, hhigh, hpushed, Memory.peek_poke_stackCell, Memory.peek_poke_stackCell_of_ne (hne _),
    Memory.peek_poke_stackCell, word_toUInt8]

theorem stepped_ret (h : m.opcode? = some retOpcode) :
    m.stepped.cpu.regs.sp = m.cpu.regs.sp + 2 ∧ m.stepped.cpu.regs.pc = m.returnAddress + 1 := by
  obtain ⟨hdue, hopcode⟩ := opcode?_eq_some_iff.mp h
  obtain ⟨hregs, -⟩ := step_ret hdue hopcode
  have htop : m.cpu.regs.sp + 2 = m.cpu.regs.sp + 1 + 1 := (UInt8.add_assoc _ 1 1).symm
  have hpc := congrArg Registers.pc hregs
  rw [htop] at hpc
  have hread (b : Board) (sp : UInt8) : Bus.read b (stackCell sp) = _ := b.read_stackCell sp
  have hfetch (b : Board) (address : UInt16) (sp : UInt8) :
      (Bus.read b address).2.memory.peek (stackCell sp) = b.memory.peek (stackCell sp) :=
    b.peek_stackCell_read address sp
  simp only [Bus.readWord, hread, hfetch] at hpc
  exact ⟨congrArg Registers.sp hregs, hpc⟩

/-- The return of a call: the stack pointer stands where the call has left it, and on top of the stack is the
word that the call has pushed. -/
structure Returns (entry ret : Machine) : Prop where
  opcode : ret.opcode? = some retOpcode
  sp : ret.cpu.regs.sp = entry.cpu.regs.sp
  address : ret.returnAddress = entry.returnAddress

/-- The machines at the instructions of a call tree, in which the stack pointer does not come above `frame`: no
interrupt comes between them, every call has its own return, and a call does not wrap the stack. -/
inductive Balanced : UInt8 → List Machine → Prop
  | done {frame : UInt8} : Balanced frame []
  | instruction {frame opcode : UInt8} {m : Machine} {rest : List Machine} (next : m.opcode? = some opcode)
      (plain : opcode ≠ callOpcode) (within : m.stepped.cpu.regs.sp ≤ frame) (tail : Balanced frame rest) :
      Balanced frame (m :: rest)
  | call {frame : UInt8} {m ret : Machine} {body rest : List Machine} (next : m.opcode? = some callOpcode)
      (room : 2 ≤ m.cpu.regs.sp) (within : m.cpu.regs.sp ≤ frame) (inner : Balanced (m.cpu.regs.sp - 2) body)
      (returns : m.stepped.Returns ret) (tail : Balanced frame rest) :
      Balanced frame (m :: (body ++ ret :: rest))

/-- No instruction of a call tree leaves the stack pointer above its frame, no return in it either. -/
theorem Balanced.sp_le {frame : UInt8} {l : List Machine} (h : Balanced frame l) :
    ∀ x ∈ l, x.stepped.cpu.regs.sp ≤ frame := by
  induction h with
  | done => simp
  | instruction _ _ within _ ih => exact List.forall_mem_cons.mpr ⟨within, ih⟩
  | @call frame m ret body rest next room within _ returns _ ihInner ihRest =>
    have hbelow : m.cpu.regs.sp - 2 ≤ frame := by grind
    have hcall : m.stepped.cpu.regs.sp ≤ frame := by
      rw [sp_call next]
      exact hbelow
    -- The return gives back what the call has taken.
    have hret : ret.stepped.cpu.regs.sp ≤ frame := by
      rw [(stepped_ret returns.opcode).1, returns.sp, sp_call next, UInt8.sub_add_cancel]
      exact within
    have hinner : ∀ x ∈ body, x.stepped.cpu.regs.sp ≤ frame := fun x hx =>
      UInt8.le_trans (ihInner x hx) hbelow
    simp only [List.forall_mem_cons, List.forall_mem_append]
    exact ⟨hcall, hinner, hret, ihRest⟩

end Machine

end AppleII
