import AppleII.Debugger
import AppleII.Machine.Board
import AppleII.Processor.Step

/-!
# The machine

A processor on its board, with a debugger that may stop it before an instruction or after a return.
-/

namespace AppleII

open Processor (Model)

/-- Why a boot ROM of the disk card is refused. -/
inductive DiskRomError where
  | size
  | contents
  deriving DecidableEq, Repr

/-- The text of the refusal. -/
def DiskRomError.message : DiskRomError → String
  | .size => "Disk II ROM must be 256 bytes"
  | .contents => "Invalid Disk II ROM (should start with A2 20)"

/-- The machine. -/
structure Machine where
  cpu : Processor
  board : Board := {}
  debugger : Debugger := {}
  /-- The boot ROM that goes into the slot of the disk card at boot. -/
  diskRom : Option (Vector UInt8 slotRomSize) := none
  /-- The next instruction is executed whether it has a breakpoint or not. -/
  skipBreakpoint : Bool := false

namespace Machine

/-- A machine that is switched off. -/
def ofModel (m : Model) : Machine := { cpu := { model := m } }

@[inline] def memory (m : Machine) : Memory := m.board.memory

/-- The soft switches. -/
@[inline] def switches (m : Machine) : Switches := m.board.memory.switches

@[inline] def disk (m : Machine) : Disk.Controller := m.board.disk

/-- Cycles since the machine was booted. -/
@[inline] def clock (m : Machine) : Nat := m.board.clock

/-! ## ROMs -/

/-- Whether 256 bytes begin as a boot ROM of the disk card does. -/
def isDiskRom (rom : Vector UInt8 slotRomSize) : Bool := rom[0] == 0xA2 && rom[1] == 0x20

/-- Where a ROM image may hold the boot ROM of the disk card. -/
def diskRomOffset : Nat := 0x0600

/-- A ROM image installed.  An image of 20 or 32 KiB may hold the boot ROM of the disk card. -/
def loadRom (m : Machine) (image : Array UInt8) : Machine :=
  let rom := Memory.slotRomOf image diskRomOffset
  let m := { m with board.memory := m.board.memory.loadRom image }
  if (image.size = 0x5000 ∨ image.size = 0x8000) ∧ isDiskRom rom then { m with diskRom := some rom }
  else m

/-- A boot ROM of the disk card put into its slot, now and at every boot. -/
def loadDiskRom (m : Machine) (bytes : Array UInt8) : Except DiskRomError Machine :=
  if bytes.size ≠ slotRomSize then .error .size
  else
    let rom := Memory.slotRomOf bytes 0
    if isDiskRom rom then
      .ok { m with diskRom := some rom, board.memory := m.board.memory.installSlotRom Memory.diskSlot rom }
    else .error .contents

/-! ## Reset -/

/-- A warm reset: RAM stays, ROM answers at `$D000`–`$FFFF`, and the motors stop. -/
def reset (m : Machine) : Machine :=
  let board := { m.board with memory.switches := .reset }
  let (_, board) := board.read 0xC082
  let (cpu, board) := m.cpu.reset board
  let (disk, switches) := board.disk.reset board.memory.switches
  { m with
    cpu
    board := { board with disk, memory.switches := switches }
    skipBreakpoint := false }

/-- A cold start: the clock at zero, RAM cleared, the boot ROM in its slot, then a reset. -/
def boot (m : Machine) : Machine :=
  let memory := m.board.memory.reset
  let memory := match m.diskRom with
    | some rom => memory.installSlotRom Memory.diskSlot rom
    | none => memory
  reset { m with board := { m.board with memory, clock := 0 } }

/-! ## Execution -/

/-- What came of an attempt to execute an instruction. -/
inductive StepResult where
  | cycles (n : Nat)
  /-- A breakpoint stopped it, or the instruction ended a step out. -/
  | halted
  deriving DecidableEq, Repr

/-- The next instruction is not stopped by a breakpoint at its address. -/
def resume (m : Machine) : Machine := { m with skipBreakpoint := true }

/-- One step of the processor, whatever breakpoints there are. -/
@[inline] def execute (m : Machine) : StepResult × Machine :=
  match m with
  | ⟨cpu, board, debugger, diskRom, skip⟩ =>
    let (n, cpu, board) := cpu.step board
    let board := board.advance n
    if debugger.returnReached cpu.lastOpcode cpu.regs.sp then
      (.halted, ⟨cpu, board, debugger.disarmStepOut, diskRom, skip⟩)
    else (.cycles n, ⟨cpu, board, debugger, diskRom, skip⟩)

/-- One instruction.  Unless breakpoints are to be ignored or the machine was just resumed, an enabled
breakpoint at its address stops it. -/
def processInstruction (m : Machine) (ignoreBreakpoints : Bool) : StepResult × Machine :=
  let stop := if ignoreBreakpoints || m.skipBreakpoint then none else m.debugger.hit? m.cpu.regs.pc
  let m := { m with skipBreakpoint := false }
  match stop with
  | some debugger => (.halted, { m with debugger })
  | none => m.execute

/-- A run for a number of cycles goes on until it has spent them. -/
def forCycles (cycles spent _clock : Nat) : Bool := spent < cycles

/-- A run to a time goes on until the clock shows it. -/
def untilClock (target _spent clock : Nat) : Bool := clock < target

/-- Instructions as long as there are to be `more`, by the cycles spent so far and the clock, or until the
machine halts; then the result is false. -/
@[specialize] def runWhile (more : Nat → Nat → Bool) : Nat → Nat → Machine → Bool × Machine
  | 0, _, m => (true, m)
  | fuel + 1, spent, m =>
    if more spent m.clock then
      match m.processInstruction false with
      | (.halted, m) => (false, m)
      | (.cycles n, m) => runWhile more fuel (spent + n) m
    else (true, m)

/-- Instructions for a number of cycles, which are counted as they go by; false when the machine halts.
An instruction takes a cycle or more, so that as many rounds as cycles are enough. -/
def runFor (m : Machine) (cycles : Nat) : Bool × Machine := runWhile (forCycles cycles) cycles 0 m

/-- The same by the clock.  The time at the end is a sum of counts: one that wraps around has come already.  The
rounds are enough unless the clock wraps around on the way. -/
def runCycles (m : Machine) (cycles : Nat) : Bool × Machine :=
  runWhile (untilClock (Count.add m.clock cycles)) cycles 0 m

end Machine

end AppleII
