import AppleII.History
import AppleII.SaveState.Capture

/-!
# The scheduler

The scheduler lets a machine run in frames of about a sixtieth of a second, and shows its state on a
panel.  `setState` is the only way from one run state to another, apart from a first boot by a step
command, which goes on as if the machine had been paused.

Times are in nanoseconds of the host's clock.
-/

namespace AppleII

/-- What a scheduler does at a tick. -/
inductive RunState where
  /-- Nothing; the machine was not booted yet. -/
  | idle
  | needBoot
  | needReset
  | running
  | paused
  deriving DecidableEq, Repr, Inhabited

/-- How fast frames follow each other. -/
inductive SpeedMode where
  | normal
  | uncapped
  deriving DecidableEq, Repr, Inhabited

/-- The least time from one frame to the next: 17030 cycles at 1020.488 kHz, or no time at all. -/
def SpeedMode.refresh : SpeedMode → Nat
  | .normal => 16688100
  | .uncapped => 0

/-- The three push buttons. -/
structure Buttons where
  first : Bool := false
  second : Bool := false
  third : Bool := false
  deriving DecidableEq, Repr, Inhabited

namespace Buttons

/-- Button 0, 1 or 2. -/
def get (b : Buttons) : Fin 3 → Bool
  | 0 => b.first
  | 1 => b.second
  | 2 => b.third

/-- Button 0, 1 or 2 pressed or released. -/
def set (b : Buttons) (i : Fin 3) (pressed : Bool) : Buttons :=
  match i with
  | 0 => { b with first := pressed }
  | 1 => { b with second := pressed }
  | 2 => { b with third := pressed }

theorem get_set (b : Buttons) (i j : Fin 3) (pressed : Bool) :
    (b.set i pressed).get j = if i = j then pressed else b.get j := by
  rcases b with ⟨x, y, z⟩
  revert x y z pressed i j
  decide

end Buttons

/-- What is shown of a machine. -/
structure Panel where
  runState : RunState := .idle
  /-- The measured speed, in hundredths of the speed of the real machine. -/
  speed : Nat := 0
  speedMode : SpeedMode := .normal
  clock : Nat := 0
  registers : Processor.Registers := .powerUp
  breakpoints : List Breakpoint := []
  disassemblyAddress : Int := 0
  canGoBackward : Bool := false
  canGoForward : Bool := false
  cursor : Nat := 0
  drives : List Disk.DriveStatus := []
  /-- What the drives did since the panel before this one. -/
  driveEvents : List Disk.DriveEvent := []
  text : Bool := false
  hires : Bool := false
  page2 : Bool := false
  mixed : Bool := false
  columns80 : Bool := false
  altCharset : Bool := false
  button0 : Bool := false
  button1 : Bool := false
  deriving DecidableEq, Repr, Inhabited

/-- A scheduler with its machine. -/
structure Scheduler where
  machine : Machine
  history : History SaveState := .empty
  snapshots : SnapshotTimer := {}
  /-- A snapshot is taken at the end of the frame. -/
  snapshotRequested : Bool := false
  state : RunState := .idle
  speedMode : SpeedMode := .normal
  /-- The host's clock as the scheduler read it last. -/
  hostTime : Nat := 0
  /-- The time of the frame before. -/
  previousTime : Nat := 0
  /-- The time from which the speed is measured. -/
  startTime : Nat := 0
  /-- Frames since then. -/
  frames : Nat := 0
  /-- The measured speed, in hundredths of the speed of the real machine. -/
  speed : Nat := 0
  disassemblyAddress : Int := -1
  buttons : Buttons := {}
  /-- What the input device answers to the coming polls; `none` means no change. -/
  input : List (Option Buttons) := []
  /-- The drive events that were taken from the controller and are on no panel yet, oldest first. -/
  pending : List Disk.DriveEvent := []
  /-- The panel that was published last. -/
  latest : Panel := {}
  /-- How many panels were published. -/
  published : Nat := 0

namespace Scheduler

/-! ## The panel -/

/-- The panel without the drive events. -/
def view (s : Scheduler) : Panel :=
  let sw := s.machine.switches
  { runState := s.state
    speed := s.speed
    speedMode := s.speedMode
    clock := s.machine.clock
    registers := s.machine.cpu.regs
    breakpoints := s.machine.debugger.list
    disassemblyAddress := s.disassemblyAddress
    canGoBackward := s.history.canGoBack
    canGoForward := s.history.canGoForward
    cursor := s.history.cursor.val
    drives := [s.machine.disk.drives.first.status, s.machine.disk.drives.second.status]
    text := sw.isSet .text
    hires := sw.isSet .hires
    page2 := sw.isSet .page2
    mixed := sw.isSet .mixed
    columns80 := sw.isSet .columns80
    altCharset := sw.isSet .altCharset
    button0 := sw.isSet .button0
    button1 := sw.isSet .button1 }

/-- The disk controller changed. -/
@[inline] def setDisk (s : Scheduler) (disk : Disk.Controller) : Scheduler :=
  { s with machine.board.disk := disk }

/-- The panel as it is now; it takes the drive events. -/
def takePanel (s : Scheduler) : Panel × Scheduler :=
  let (events, disk) := s.machine.disk.takeEvents
  let s := { s.setDisk disk with pending := s.pending ++ events.toList }
  ({ s.view with driveEvents := s.pending }, { s with pending := [] })

/-- The panel published. -/
def publish (s : Scheduler) : Scheduler :=
  let (panel, s) := s.takePanel
  { s with latest := panel, published := s.published + 1 }

/-! ## Run states -/

/-- The speed is measured from now on. -/
def restartMeasurement (s : Scheduler) : Scheduler :=
  { s with frames := 0, previousTime := s.hostTime, startTime := s.hostTime }

/-- The speed mode chosen. -/
def setSpeed (s : Scheduler) (mode : SpeedMode) : Scheduler :=
  { s with speedMode := mode }.restartMeasurement

/-- A run state entered.  From a pause the machine resumes, so that a breakpoint under it does not stop
it again, and a motor that runs on is reported once more. -/
def setState (s : Scheduler) (state : RunState) : Scheduler :=
  let m := s.machine
  let m := if state = .running ∧ s.state = .paused then m.resume else m
  let m := if state = .running then { m with board.disk := m.board.disk.resume } else m
  { s with machine := m, state }.restartMeasurement.publish

/-- The memory changed. -/
def modifyMemory (s : Scheduler) (f : Memory → Memory) : Scheduler :=
  { s with machine.board.memory := f s.machine.memory }

/-- The buttons put into their switches. -/
def applyButtons (s : Scheduler) : Scheduler :=
  let b := s.buttons
  s.modifyMemory fun m => ((m.setButton 0 b.first).setButton 1 b.second).setButton 2 b.third

/-- The machine booted; the buttons stay pressed. -/
def boot (s : Scheduler) : Scheduler := { s with machine := s.machine.boot }.applyButtons

/-- The machine reset; the buttons stay pressed. -/
def reset (s : Scheduler) : Scheduler := { s with machine := s.machine.reset }.applyButtons

end Scheduler

end AppleII
