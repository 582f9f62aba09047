import AppleII.Machine.Basic
import AppleII.Proofs.Disk.Agreement
import AppleII.Proofs.Processor.Simulation

/-!
# Machines that differ in what they do not use

Two machines agree when they differ at most in the last opcode of the processor, the clicks of the
speaker, and what the disk controller has written down.  Every operation leaves such machines in agreement
and gives the same on both of them.
-/

namespace AppleII

open Disk (Chronicle)

namespace Memory

/-- Two memories that differ in the clicks of the speaker at most. -/
def Agree (m m' : Memory) : Prop := ∃ speakerClicks, m' = { m with speakerClicks }

namespace Agree

variable {m m' : Memory}

theorem switches (h : m.Agree m') : m.switches = m'.switches := by
  obtain ⟨_, rfl⟩ := h
  rfl

theorem withSwitches (h : m.Agree m') (sw : Switches) :
    Agree { m with switches := sw } { m' with switches := sw } := by
  obtain ⟨_, rfl⟩ := h
  exact ⟨_, rfl⟩

theorem touch (h : m.Agree m') (address : UInt16) (isWrite : Bool) :
    (m.touch address isWrite).Agree (m'.touch address isWrite) := by
  obtain ⟨clicks, rfl⟩ := h
  refine ⟨clicks, ?_⟩
  simp only [Memory.touch]

theorem handle (h : m.Agree m') (route : Route) (address : UInt16) (value : Option UInt8) :
    (m.handle route address value).1 = (m'.handle route address value).1 ∧
      (m.handle route address value).2.Agree (m'.handle route address value).2 := by
  obtain ⟨clicks, rfl⟩ := h
  cases route with
  | status s =>
    unfold Memory.handle
    dsimp only
    split
    · exact ⟨rfl, _, rfl⟩
    · exact ⟨rfl, _, rfl⟩
  | keyboard | clearStrobe | speaker | languageCard | toggle | slot | floating => exact ⟨rfl, _, rfl⟩

theorem peek (h : m.Agree m') (address : UInt16) : m.peek address = m'.peek address := by
  obtain ⟨_, rfl⟩ := h
  rfl

theorem poke (h : m.Agree m') (address : UInt16) (value : UInt8) :
    (m.poke address value).Agree (m'.poke address value) := by
  obtain ⟨_, rfl⟩ := h
  unfold Memory.poke
  dsimp only
  split
  · exact ⟨_, rfl⟩
  · exact ⟨_, rfl⟩

theorem reset (h : m.Agree m') : m.reset.Agree m'.reset := by
  obtain ⟨_, rfl⟩ := h
  exact ⟨_, rfl⟩

theorem installSlotRom (h : m.Agree m') (slot : Fin 8) (rom : Vector UInt8 slotRomSize) :
    (m.installSlotRom slot rom).Agree (m'.installSlotRom slot rom) := by
  obtain ⟨_, rfl⟩ := h
  exact ⟨_, rfl⟩

theorem setButton (h : m.Agree m') (index : Nat) (pressed : Bool) :
    (m.setButton index pressed).Agree (m'.setButton index pressed) := by
  obtain ⟨_, rfl⟩ := h
  unfold Memory.setButton
  split <;> exact ⟨_, rfl⟩

theorem pressKey (h : m.Agree m') (key : UInt8) : (m.pressKey key).Agree (m'.pressKey key) := by
  obtain ⟨_, rfl⟩ := h
  exact ⟨_, rfl⟩

theorem set (h : m.Agree m') (c : Cell) (value : UInt8) : (m.set c value).Agree (m'.set c value) := by
  obtain ⟨_, rfl⟩ := h
  exact ⟨_, rfl⟩

theorem loadMain (h : m.Agree m') (address : UInt16) (bytes : Array UInt8) :
    (m.loadMain address bytes).Agree (m'.loadMain address bytes) := by
  unfold Memory.loadMain
  rw [← Array.foldl_toList, ← Array.foldl_toList]
  generalize bytes.toList = bytes
  induction bytes generalizing m m' address with
  | nil => exact h
  | cons b bytes ih => exact ih (h.set (Cell.inMain address) b) (address + 1)

end Agree

end Memory

namespace Board

/-- Two boards whose memories and disk controllers agree, at the same time. -/
structure Agree (R : Chronicle → Chronicle → Prop) (b b' : Board) : Prop where
  memory : b.memory.Agree b'.memory
  disk : b.disk.Agree R b'.disk
  clock : b.clock = b'.clock

namespace Agree

variable {R : Chronicle → Chronicle → Prop} [Chronicle.Kept R] {b b' : Board}

theorem accessIoPage (h : b.Agree R b') (address : UInt16) (value : Option UInt8) :
    (b.accessIoPage address value).1 = (b'.accessIoPage address value).1 ∧
      (b.accessIoPage address value).2.Agree R (b'.accessIoPage address value).2 := by
  have htouch := h.memory.touch address value.isSome
  unfold Board.accessIoPage
  dsimp only
  split
  · next reg _ =>
    have haccess := h.disk.access reg value b.clock (b.memory.touch address value.isSome).switches
    rw [← h.clock, ← htouch.switches]
    generalize b.disk.access reg value b.clock (b.memory.touch address value.isSome).switches = x at haccess ⊢
    generalize b'.disk.access reg value b.clock (b.memory.touch address value.isSome).switches = y at haccess ⊢
    exact ⟨haccess.1, htouch, haccess.2, rfl⟩
  · have hhandle := htouch.handle (.ofAddress address) address value
    generalize (b.memory.touch address value.isSome).handle (.ofAddress address) address value = x at hhandle ⊢
    generalize (b'.memory.touch address value.isSome).handle (.ofAddress address) address value = y at hhandle ⊢
    exact ⟨hhandle.1, hhandle.2, h.disk, h.clock⟩

theorem read (h : b.Agree R b') (address : UInt16) :
    (b.read address).1 = (b'.read address).1 ∧ (b.read address).2.Agree R (b'.read address).2 := by
  unfold Board.read
  split
  · exact h.accessIoPage address none
  · exact ⟨h.memory.peek address, h⟩

theorem write (h : b.Agree R b') (address : UInt16) (value : UInt8) :
    (b.write address value).Agree R (b'.write address value) := by
  unfold Board.write
  split
  · exact (h.accessIoPage address (some value)).2
  · exact ⟨h.memory.poke address value, h.disk, h.clock⟩

/-- The processor sees no difference between boards that agree. -/
theorem simulation : Processor.Bus.Simulation (Agree R) where
  read h address := h.read address
  write h address value := h.write address value

theorem advance (h : b.Agree R b') (cycles : Nat) : (b.advance cycles).Agree R (b'.advance cycles) := by
  unfold Board.advance
  rw [← h.clock, ← h.memory.switches]
  exact ⟨h.memory, h.disk.update _ _, rfl⟩

end Agree

end Board

namespace Machine

/-- Two machines whose boards agree, and whose processors differ in their last opcodes at most. -/
structure Agree (R : Chronicle → Chronicle → Prop) (m m' : Machine) : Prop where
  cpu : ∃ lastOpcode, m'.cpu = { m.cpu with lastOpcode }
  board : m.board.Agree R m'.board
  debugger : m.debugger = m'.debugger
  diskRom : m.diskRom = m'.diskRom
  skipBreakpoint : m.skipBreakpoint = m'.skipBreakpoint

namespace Agree

variable {Q R : Chronicle → Chronicle → Prop} {m m' : Machine}

theorem withBoard (h : m.Agree Q m') {b b' : Board} (hb : b.Agree R b') :
    { m with board := b }.Agree R { m' with board := b' } :=
  ⟨h.cpu, hb, h.debugger, h.diskRom, h.skipBreakpoint⟩

theorem withDisk (h : m.Agree Q m') {c c' : Disk.Controller} (hc : c.Agree R c') :
    { m with board.disk := c }.Agree R { m' with board.disk := c' } :=
  h.withBoard ⟨h.board.memory, hc, h.board.clock⟩

theorem ite (p : Prop) [Decidable p] {x x' : Machine} (h : m.Agree R m') (h' : x.Agree R x') :
    (if p then m else x).Agree R (if p then m' else x') := by
  split
  · exact h
  · exact h'

theorem withMemory (h : m.Agree R m') {f : Memory → Memory}
    (hf : ∀ {x x' : Memory}, x.Agree x' → (f x).Agree (f x')) :
    { m with board.memory := f m.memory }.Agree R { m' with board.memory := f m'.memory } :=
  h.withBoard ⟨hf h.board.memory, h.board.disk, h.board.clock⟩

theorem withDebugger (h : m.Agree R m') (f : Debugger → Debugger) :
    { m with debugger := f m.debugger }.Agree R { m' with debugger := f m'.debugger } :=
  ⟨h.cpu, h.board, congrArg f h.debugger, h.diskRom, h.skipBreakpoint⟩

theorem resume (h : m.Agree R m') : m.resume.Agree R m'.resume :=
  ⟨h.cpu, h.board, h.debugger, h.diskRom, rfl⟩

theorem regs (h : m.Agree R m') : m.cpu.regs = m'.cpu.regs := by
  obtain ⟨o, hcpu⟩ := h.cpu
  rw [hcpu]

theorem withRegs (h : m.Agree R m') (f : Processor.Registers → Processor.Registers) :
    { m with cpu.regs := f m.cpu.regs }.Agree R { m' with cpu.regs := f m'.cpu.regs } := by
  obtain ⟨o, hcpu⟩ := h.cpu
  rw [hcpu]
  exact ⟨⟨o, rfl⟩, h.board, h.debugger, h.diskRom, h.skipBreakpoint⟩

variable [Chronicle.Kept R]

theorem execute (h : m.Agree R m') :
    m.execute.1 = m'.execute.1 ∧ m.execute.2.Agree R m'.execute.2 := by
  obtain ⟨cpu, board, debugger, diskRom, skip⟩ := m
  obtain ⟨cpu', board', debugger', diskRom', skip'⟩ := m'
  obtain ⟨⟨o, rfl⟩, hboard, rfl, rfl, rfl⟩ := h
  obtain ⟨hcycles, hcpu, hnext⟩ := Processor.step_related Board.Agree.simulation cpu o hboard
  have hadvance := hnext.advance (cpu.step board).1
  unfold Machine.execute
  dsimp only
  rw [← hcycles, ← hcpu]
  split
  · exact ⟨rfl, ⟨_, rfl⟩, hadvance, rfl, rfl, rfl⟩
  · exact ⟨rfl, ⟨_, rfl⟩, hadvance, rfl, rfl, rfl⟩

/-- **One instruction** gives the same on machines that agree. -/
theorem processInstruction (h : m.Agree R m') (ignoreBreakpoints : Bool) :
    (m.processInstruction ignoreBreakpoints).1 = (m'.processInstruction ignoreBreakpoints).1 ∧
      (m.processInstruction ignoreBreakpoints).2.Agree R (m'.processInstruction ignoreBreakpoints).2 := by
  obtain ⟨cpu, board, debugger, diskRom, skip⟩ := m
  obtain ⟨cpu', board', debugger', diskRom', skip'⟩ := m'
  obtain ⟨⟨o, rfl⟩, hboard, rfl, rfl, rfl⟩ := h
  have hresumed : Agree R ⟨cpu, board, debugger, diskRom, false⟩
      ⟨{ cpu with lastOpcode := o }, board', debugger, diskRom, false⟩ :=
    ⟨⟨o, rfl⟩, hboard, rfl, rfl, rfl⟩
  unfold Machine.processInstruction
  dsimp only
  generalize (if ignoreBreakpoints || skip then none else debugger.hit? cpu.regs.pc) = stop
  cases stop with
  | none => exact hresumed.execute
  | some d => exact ⟨rfl, ⟨o, rfl⟩, hboard, rfl, rfl, rfl⟩

/-- Machines that agree run alike: for as long, and they halt together. -/
theorem runWhile (h : m.Agree R m') (more : Nat → Nat → Bool) (fuel spent : Nat) :
    (m.runWhile more fuel spent).1 = (m'.runWhile more fuel spent).1 ∧
      (m.runWhile more fuel spent).2.Agree R (m'.runWhile more fuel spent).2 := by
  induction fuel generalizing m m' spent with
  | zero => exact ⟨rfl, h⟩
  | succ fuel ih =>
    obtain ⟨hresult, hnext⟩ := h.processInstruction false
    have hclock : m'.clock = m.clock := h.board.clock.symm
    unfold Machine.runWhile
    rw [hclock]
    generalize m.processInstruction false = x at hresult hnext ⊢
    generalize m'.processInstruction false = y at hresult hnext ⊢
    obtain ⟨result, m₁⟩ := x
    obtain ⟨result', m₁'⟩ := y
    obtain rfl : result = result' := hresult
    split
    · cases result with
      | halted => exact ⟨rfl, hnext⟩
      | cycles n => exact ih hnext _
    · exact ⟨rfl, h⟩

theorem runFor (h : m.Agree R m') (cycles : Nat) :
    (m.runFor cycles).1 = (m'.runFor cycles).1 ∧ (m.runFor cycles).2.Agree R (m'.runFor cycles).2 :=
  h.runWhile _ cycles 0

theorem reset (h : m.Agree R m') : m.reset.Agree R m'.reset := by
  obtain ⟨cpu, board, debugger, diskRom, skip⟩ := m
  obtain ⟨cpu', board', debugger', diskRom', skip'⟩ := m'
  obtain ⟨⟨o, rfl⟩, hboard, rfl, rfl, rfl⟩ := h
  have hcleared : Board.Agree R { board with memory.switches := .reset } { board' with memory.switches := .reset } :=
    ⟨hboard.memory.withSwitches _, hboard.disk, hboard.clock⟩
  obtain ⟨-, hread⟩ := hcleared.read 0xC082
  rcases hx : Board.read { board with memory.switches := .reset } 0xC082 with ⟨_, b₁⟩
  rcases hy : Board.read { board' with memory.switches := .reset } 0xC082 with ⟨_, b₁'⟩
  rw [hx, hy] at hread
  obtain ⟨hcpu, hreset⟩ := Processor.reset_related Board.Agree.simulation cpu o hread
  rcases hu : cpu.reset b₁ with ⟨cpu₁, b₂⟩
  rcases hv : Processor.reset { cpu with lastOpcode := o } b₁' with ⟨cpu₁', b₂'⟩
  rw [hu, hv] at hcpu hreset
  obtain ⟨hdisk, hswitches⟩ := hreset.disk.reset b₂.memory.switches
  simp only [Machine.reset, hx, hy, hu, hv]
  rw [← hreset.memory.switches, ← hswitches]
  exact ⟨⟨cpu₁.lastOpcode, hcpu.symm⟩, ⟨hreset.memory.withSwitches _, hdisk, hreset.clock⟩, rfl, rfl, rfl⟩

theorem boot (h : m.Agree R m') : m.boot.Agree R m'.boot := by
  refine reset ⟨h.cpu, ⟨?_, h.board.disk, rfl⟩, h.debugger, h.diskRom, h.skipBreakpoint⟩
  dsimp only
  rw [← h.diskRom]
  split
  · exact h.board.memory.reset.installSlotRom _ _
  · exact h.board.memory.reset

end Agree

end Machine

end AppleII
