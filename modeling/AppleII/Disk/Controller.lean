import AppleII.Count
import AppleII.Disk.Drive
import AppleII.Disk.Log
import AppleII.Switch.Basic

/-!
# The disk controller

The sixteen registers of the disk card: the stepper phases, the motor, the selection of a drive, and
the data register with its two modes.  The soft switches of an access are turned before the controller
sees it.  A motor runs on for about a second after it is switched off.
-/

namespace AppleII.Disk

/-- The cycles from the request to stop a motor until it stops. -/
def motorOffDelay : Nat := 1020484

/-- The disk controller with its two drives. -/
structure Controller where
  drives : Drives := .empty
  /-- The selected drive. -/
  current : Fin 2 := driveOne
  /-- The cycle of the last load of the data register in write mode. -/
  previousCycle : Nat := 0
  dataRegister : UInt8 := 0
  /-- The cycle at which the motor is to stop. -/
  motorOffAt : Option Nat := none
  /-- The events that nobody has taken yet, oldest first. -/
  events : Array DriveEvent := #[]
  /-- The last bytes read; kept only for the log. -/
  recent : ByteRing := default
  log : Log := {}
  deriving Inhabited

namespace Controller

/-- A controller with two drives without disks. -/
def empty : Controller := {}

@[inline] def selected (c : Controller) : Drive := c.drives.get c.current

/-- The selected drive changed. -/
@[inline] def modifySelected (c : Controller) (f : Drive → Drive) : Controller :=
  { c with drives := c.drives.modify c.current f }

@[inline] def note (c : Controller) (e : LogEntry) : Controller := { c with log := c.log.add e }

/-- An event, which is also logged. -/
def emit (c : Controller) (e : DriveEvent) : Controller :=
  { c with events := c.events.push e, log := c.log.add (.event e) }

/-- The events since they were taken last, and the controller without them. -/
def takeEvents (c : Controller) : Array DriveEvent × Controller := (c.events, { c with events := #[] })

/-! ## The registers -/

/-- The motor of a drive switched on or off, with its event when that changes it. -/
def setMotor (c : Controller) (d : Fin 2) (on : Bool) : Controller :=
  if (c.drives.get d).motorRunning == on then c
  else
    { c with drives := c.drives.modify d fun u => { u with motorRunning := on } }.emit
      (if on then .motorOn d else .motorOff d)

/-- The neighbour of the stepper's phase that pulls the head: the offset of the head and the phase it
goes to.  Nothing moves while the phase itself is on. -/
def pull? (phases : List Bool) (phase : Fin 4) : Option (Int × Fin 4) :=
  let on (p : Fin 4) := phases.getD p.val false
  if on phase then none
  else if on (Phase.next phase) then some (1, Phase.next phase)
  else if on (Phase.previous phase) then some (-1, Phase.previous phase)
  else none

/-- The head of the selected drive follows the stepper phases. -/
def stepPhases (c : Controller) (phases : List Bool) : Controller :=
  if !c.selected.motorRunning then c
  else
    match pull? phases c.selected.phase with
    | none => c
    | some (offset, phase) =>
      let current := c.current
      let (move, drives) := c.drives.update current fun d =>
        let (move, d) := d.moveHead offset
        (move, { d with phase })
      let h := (drives.get current).halfTrack.val
      { c with drives }.emit <|
        match move with
        | .moved => .headMoved current h
        | .atStop => .headAtStop current h

/-- The data register written to the selected drive; a value that is written leaves the register. -/
def flushWrite (c : Controller) (delta : Nat) : Controller :=
  let value := c.dataRegister
  let (bits, drives) := c.drives.update c.current fun d => d.writeByte value delta
  let c := { c with drives }
  match bits with
  | some n => { c with dataRegister := 0 }.note (.flushed c.selected.halfTrack.val value delta n)
  | none => c

/-- The data register written when the selected drive turns in write mode. -/
def flushIfWriting (c : Controller) (cycle : Nat) : Controller :=
  if c.selected.motorRunning && c.selected.writeMode then
    { c.flushWrite (cycle - c.previousCycle) with previousCycle := cycle }
  else c

/-- A value written to the data register. -/
@[inline] def loadData (c : Controller) (value : Option UInt8) : Controller :=
  match value with
  | some v => { c with dataRegister := v }
  | none => c

/-- The selected drive put into write mode or read mode. -/
def setWriteMode (c : Controller) (on : Bool) : Controller :=
  let changed := c.selected.writeMode != on
  let c := if changed then c.note (.writeMode c.current on) else c
  c.modifySelected fun d => { d with writeMode := on }

/-- The motor is to stop after the delay, unless a stop is due already. -/
def requestStop (c : Controller) (cycle : Nat) : Controller :=
  { c with motorOffAt := some (c.motorOffAt.getD (Count.add cycle motorOffDelay)) }.note
    (.recent (c.recent.lastN 32))

/-- The motor of the selected drive runs on. -/
def startMotor (c : Controller) : Controller :=
  { c with motorOffAt := none }.setMotor c.current true

/-- A drive selected.  The motor goes over to it from the other drive. -/
def select (c : Controller) (d : Fin 2) : Controller :=
  let other := Drives.other d
  let c := if (c.drives.get other).motorRunning then (c.setMotor other false).setMotor d true else c
  let c := if c.current = d then c else c.note (.driveSelected d)
  { c with current := d }

/-- The next byte of the selected drive, while it turns in read mode. -/
def readData (c : Controller) : UInt8 × Controller :=
  if c.selected.motorRunning && !c.selected.writeMode then
    let (byte, drives) := c.drives.update c.current Drive.nextByte
    let c := { c with drives }
    (byte, if c.log.levels.bits then { c with recent := c.recent.push byte } else c)
  else (0, c)

/-- An access to a register: the byte it gives and the controller after it.  `value` is what is
written. -/
def access (c : Controller) (reg : UInt8) (value : Option UInt8) (cycle : Nat) (sw : Switches) :
    UInt8 × Controller :=
  match reg &&& 0x0F with
  | 0x8 => (0, c.requestStop cycle)
  | 0x9 => (0, c.startMotor)
  | 0xA => (0, c.select driveOne)
  | 0xB => (0, c.select driveTwo)
  | 0xC => c.readData
  | 0xD => (0, (c.flushIfWriting cycle).loadData value)
  | 0xE =>
    let c := (c.flushIfWriting cycle).setWriteMode false
    (if sw.isSet .driveData && c.selected.writeProtected then 0xFF else 0, c)
  | 0xF => (0, { (c.setWriteMode true) with previousCycle := cycle }.loadData value)
  | _ => (0, c.stepPhases sw.phases)

/-! ## Time -/

/-- The motor of the selected drive stops, unless it is wanted again. -/
def motorTimeout (c : Controller) (sw : Switches) : Controller :=
  if sw.isSet .motor then c else c.setMotor c.current false

/-- The time is `cycle`: the motor stops when its time has come. -/
def update (c : Controller) (cycle : Nat) (sw : Switches) : Controller :=
  match c.motorOffAt with
  | some at_ => if at_ ≤ cycle then { c with motorOffAt := none }.motorTimeout sw else c
  | none => c

/-- The motor stops and both heads go to the last half-track. -/
def reset (c : Controller) (sw : Switches) : Controller × Switches :=
  let sw := sw.set .motor false
  let c := { c with motorOffAt := none }.motorTimeout sw
  let home (d : Drive) : Drive :=
    { d with halfTrack := homeHalfTrack, previousHalfTrack := homeHalfTrack }
  ({ c with drives := ⟨home c.drives.first, home c.drives.second⟩ }, sw)

/-- Everything goes on after a pause: a running motor is reported once more. -/
def resume (c : Controller) : Controller :=
  if c.selected.motorRunning then c.emit (.motorOn c.current) else c

/-! ## Disks -/

/-- The drive with a number. -/
def driveNumber (n : Nat) : Except Error (Fin 2) :=
  if h : n < 2 then .ok ⟨n, h⟩ else .error (.invalidDrive n)

/-- A disk put into a drive. -/
def insert (c : Controller) (drive : Nat) (fileName : String) (bytes : Array UInt8) :
    Except Error (Option Warning × Controller) := do
  let d ← driveNumber drive
  let disk ← Image.decode fileName bytes
  return (disk.warning,
    { c with drives := c.drives.modify d fun u => u.load disk }.emit (.diskInserted d))

/-- The disk of a drive taken out. -/
def eject (c : Controller) (drive : Nat) : Except Error Controller := do
  let d ← driveNumber drive
  if (c.drives.get d).hasDisk then
    return { c with drives := c.drives.modify d Drive.clear }.emit (.diskEjected d)
  else
    return c

/-- The name and the container of the disk of a drive, with its checksum computed anew.  The disk
counts as saved. -/
def save (c : Controller) (drive : Nat) : Option (String × Array UInt8) × Controller :=
  if h : drive < 2 then
    let d : Fin 2 := ⟨drive, h⟩
    if (c.drives.get d).hasDisk then
      let c := { c with drives := c.drives.modify d fun u =>
        { u with image := updateChecksum u.image, dirty := false } }
      (some ((c.drives.get d).fileName, (c.drives.get d).image), c)
    else (none, c)
  else (none, c)

/-- What a drive shows of itself. -/
def status? (c : Controller) (drive : Nat) : Option DriveStatus :=
  if h : drive < 2 then some (c.drives.get ⟨drive, h⟩).status else none

end Controller

end AppleII.Disk
