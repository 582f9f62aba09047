import AppleII.Machine.InPlace
import AppleII.Scheduler.Frame

/-!
# Commands

What a user asks of a scheduler.  A command that changes something on the panel publishes it; a command
that is refused changes nothing.
-/

namespace AppleII

/-- A part of the processor that a user may set. -/
inductive RegisterName where
  | pc
  | a
  | x
  | y
  | sp
  | flag (f : Processor.Flag)
  deriving DecidableEq, Repr

inductive Command where
  | boot
  | reset
  | run
  | pause
  | stepInto
  | stepOver
  | stepOut
  | runToAddress (address : UInt16)
  | setBreakpoint (address : UInt16)
  | clearBreakpoint (address : UInt16)
  | toggleBreakpoint (address : UInt16)
  | setDisassemblyAddress (address : Int)
  | setSpeed (mode : SpeedMode)
  | loadDisk (drive : Nat) (name : String) (bytes : Array UInt8)
  | ejectDisk (drive : Nat)
  | saveDisk (drive : Nat)
  | requestSnapshot
  | getSaveState
  | restoreState (state : SaveState)
  | timeTravelBackward
  | timeTravelForward
  | timeTravelIndex (index : Nat)
  | setRegister (register : RegisterName) (value : UInt16)
  | keyPress (key : UInt8)
  | button (index : Nat) (pressed : Bool)
  | setBinaryBlock (address : UInt16) (bytes : Array UInt8)

/-- The answer to a command that has one. -/
inductive Response where
  | saveState (state : SaveState)
  | diskImage (drive : Nat) (fileName : String) (bytes : Array UInt8)
  | failed (message : String)

namespace Scheduler

/-! ## Steps -/

/-- A machine that was never booted is booted and then counts as paused. -/
def bootIfIdle (s : Scheduler) : Scheduler :=
  if s.state = .idle then { s.boot with state := .paused } else s

/-- One instruction, whether it has a breakpoint or not. -/
def executeOne (s : Scheduler) : Scheduler :=
  { s with machine := (s.machine.processInstruction true).2 }

/-- One instruction; then the machine is paused. -/
def stepInto (s : Scheduler) : Scheduler := s.bootIfIdle.executeOne.setState .paused

/-- The machine runs until the subroutine that it is in returns. -/
def stepOut (s : Scheduler) : Scheduler :=
  let s := s.bootIfIdle
  { s with machine.debugger := s.machine.debugger.armStepOut s.machine.cpu.regs.sp }.setState .running

/-- One instruction; from a call the machine runs until the subroutine returns.  The opcode is read
from the bus, as the processor reads it. -/
def stepOver (s : Scheduler) : Scheduler :=
  let s := s.bootIfIdle
  let (opcode, board) := s.machine.board.read s.machine.cpu.regs.pc
  let s := { s with machine.board := board }
  if opcode = Processor.Instruction.callOpcode then s.executeOne.stepOut else s.stepInto

/-! ## Time travel -/

/-- The machine put into a state of the history, if there is one. -/
def adopt (s : Scheduler) (state : Option SaveState) : Scheduler :=
  match state with
  | some state => match (Machine.restore state).run s.machine with
    | .ok _ machine | .error _ machine => { s with machine }
  | none => s

/-- The cursor of the history moved, and the machine put into the state that it comes to. -/
def travel (s : Scheduler)
    (move : SaveState → History SaveState → Option SaveState × History SaveState) : Scheduler :=
  let s := s.setState .paused
  let (state, history) := move s.machine.saveState s.history
  ({ s with history }.adopt state).publish

/-- Back to the snapshot before. -/
def timeTravelBackward (s : Scheduler) : Scheduler := s.travel fun present h => h.stepBackward present

/-- On to the snapshot after. -/
def timeTravelForward (s : Scheduler) : Scheduler := s.travel fun _ h => h.stepForward

/-- To the snapshot in a slot. -/
def timeTravelTo (s : Scheduler) (index : Nat) : Scheduler := s.travel fun _ h => h.jumpTo index

/-! ## Changes -/

/-- The debugger changed. -/
def modifyDebugger (s : Scheduler) (f : Debugger → Debugger) : Scheduler :=
  { s with machine.debugger := f s.machine.debugger }

/-- A part of the processor given a value: the program counter takes it all, another register its low
byte, and a flag whether it is not 0. -/
def assign (r : Processor.Registers) (register : RegisterName) (value : UInt16) :
    Processor.Registers :=
  match register with
  | .pc => { r with pc := value }
  | .a => { r with a := value.toUInt8 }
  | .x => { r with x := value.toUInt8 }
  | .y => { r with y := value.toUInt8 }
  | .sp => { r with sp := value.toUInt8 }
  | .flag f => { r with status := r.status.set f (value != 0) }

/-- A part of the processor set, in a paused machine.  The unused status bit stays on. -/
def setRegister (s : Scheduler) (register : RegisterName) (value : UInt16) : Scheduler :=
  if s.state = .paused then
    let r := assign s.machine.cpu.regs register value
    { s with machine.cpu.regs := { r with status := r.status.set .unused true } }.publish
  else s

/-- The machine runs; it is booted first if it never was. -/
def start (s : Scheduler) : Scheduler :=
  s.setState (if s.state = .idle then .needBoot else .running)

/-- A button pressed or released. -/
def pressButton (s : Scheduler) (index : Nat) (pressed : Bool) : Scheduler :=
  if h : index < 3 then
    { s with buttons := s.buttons.set ⟨index, h⟩ pressed }.modifyMemory (·.setButton index pressed)
  else s

/-! ## Commands with an answer -/

/-- A disk put into a drive. -/
def loadDisk (s : Scheduler) (drive : Nat) (name : String) (bytes : Array UInt8) :
    Option Response × Scheduler :=
  match (Disk.Controller.insertDisk drive name bytes).run s.machine.disk with
  | .ok _ disk => (none, (s.setDisk disk).publish)
  | .error e disk => (some (.failed e.message), s.setDisk disk)

/-- A disk taken out of its drive. -/
def ejectDisk (s : Scheduler) (drive : Nat) : Option Response × Scheduler :=
  match (Disk.Controller.ejectDisk drive).run s.machine.disk with
  | .ok _ disk => (none, (s.setDisk disk).publish)
  | .error e disk => (some (.failed e.message), s.setDisk disk)

/-- The disk of a drive given out. -/
def saveDisk (s : Scheduler) (drive : Nat) : Response × Scheduler :=
  let (file, disk) := s.machine.disk.save drive
  let response := match file with
    | some (name, bytes) => .diskImage drive name bytes
    | none => .failed s!"No disk in drive {drive + 1}"
  (response, (s.setDisk disk).publish)

/-- A save state put into the machine. -/
def restoreState (s : Scheduler) (state : SaveState) : Option Response × Scheduler :=
  match (Machine.restore state).run s.machine with
  | .ok _ machine => (none, { s with machine }.publish)
  | .error e machine => (some (.failed e.message), { s with machine })

/-- A command carried out. -/
def handle (s : Scheduler) : Command → Option Response × Scheduler
  | .boot => (none, s.setState .needBoot)
  | .reset => (none, s.setState .needReset)
  | .run => (none, s.start)
  | .pause => (none, if s.state = .idle then s else s.setState .paused)
  | .stepInto => (none, s.stepInto)
  | .stepOver => (none, s.stepOver)
  | .stepOut => (none, s.stepOut)
  | .runToAddress address => (none, (s.modifyDebugger (·.runTo address)).start)
  | .setBreakpoint address => (none, (s.modifyDebugger (·.addBreakpoint address)).publish)
  | .clearBreakpoint address => (none, (s.modifyDebugger fun d => (d.removeBreakpoint address).2).publish)
  | .toggleBreakpoint address => (none, (s.modifyDebugger fun d => (d.toggleBreakpoint address).2).publish)
  | .setDisassemblyAddress address =>
    (none, if -2 ≤ address ∧ address ≤ 0xFFFF then { s with disassemblyAddress := address }.publish else s)
  | .setSpeed mode => (none, s.setSpeed mode)
  | .loadDisk drive name bytes => s.loadDisk drive name bytes
  | .ejectDisk drive => s.ejectDisk drive
  | .saveDisk drive => let (r, s) := s.saveDisk drive; (some r, s)
  | .requestSnapshot => (none, { s with snapshotRequested := true })
  | .getSaveState => (some (.saveState s.machine.saveState), s)
  | .restoreState state => s.restoreState state
  | .timeTravelBackward => (none, s.timeTravelBackward)
  | .timeTravelForward => (none, s.timeTravelForward)
  | .timeTravelIndex index => (none, s.timeTravelTo index)
  | .setRegister register value => (none, s.setRegister register value)
  | .keyPress key => (none, s.modifyMemory (·.pressKey key))
  | .button index pressed => (none, s.pressButton index pressed)
  | .setBinaryBlock address bytes => (none, s.modifyMemory (·.loadMain address bytes))

/-- Commands carried out in order, with their answers. -/
def handleAll (s : Scheduler) (commands : List Command) : List Response × Scheduler :=
  commands.foldl (fun (responses, s) c =>
    let (r, s) := s.handle c
    (responses ++ r.toList, s)) ([], s)

end Scheduler

end AppleII
