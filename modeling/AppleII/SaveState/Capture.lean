import AppleII.Machine.Basic
import AppleII.SaveState.Basic

/-!
# Saving and restoring a machine

`Machine.saveState` captures a machine, and `Machine.restoreState` puts a save state into one.
Everything is checked before anything is changed.
-/

namespace AppleII

namespace Processor

/-- What a save state keeps of a processor. -/
def capture (p : Processor) : ProcessorState where
  regs := p.regs
  totalCycles := p.totalCycles
  irq := p.irq
  nmi := p.nmi
  previousNmi := p.previousNmi

/-- A processor with the contents of a save state; its model and its last opcode stay. -/
def restore (p : Processor) (s : ProcessorState) : Processor :=
  { p with
    regs := s.regs
    totalCycles := s.totalCycles
    irq := s.irq
    nmi := s.nmi
    previousNmi := s.previousNmi }

end Processor

namespace Switches

/-- The switches by their names. -/
def toMap (sw : Switches) : Std.ExtTreeMap String Bool :=
  Switch.all.toList.foldl (fun m s => m.insert s.name (sw.isSet s)) ∅

/-- The switches that a map names, given their values there.  Other names are passed over. -/
def applyMap (sw : Switches) (m : Std.ExtTreeMap String Bool) : Switches :=
  Switch.all.toList.foldl (fun sw s =>
    match m[s.name]? with
    | some b => sw.set s b
    | none => sw) sw

end Switches

namespace DriveState

open Disk

/-- What a save state keeps of a drive. -/
def capture (d : Drive) : DriveState where
  fileName := d.fileName
  format := d.format
  motorRunning := d.motorRunning
  writeMode := d.writeMode
  writeProtected := d.writeProtected
  halfTrack := d.halfTrack.val
  previousHalfTrack := d.previousHalfTrack.val
  phase := d.phase.val
  trackStarts := d.tracks.toList.map Track.start
  trackBits := d.tracks.toList.map Track.bits
  location := d.location
  dirty := d.dirty
  data := Base64.encode d.image

/-- A table of tracks from their starts and their lengths. -/
def tracks (starts bits : List Nat) : Vector Track halfTracks :=
  Vector.ofFn fun h => { start := starts.getD h.val 0, bits := bits.getD h.val 0 }

/-- The first track that lies outside a container. -/
def trackOutside? (image : Array UInt8) (tracks : Vector Track halfTracks) : Option (Fin halfTracks) :=
  (List.finRange halfTracks).find? fun h =>
    let t := getElem tracks h.val h.isLt
    t.start != 0 && decide (image.size < t.stop)

/-- What comes of a track that lies outside: it is refused, if its end is a number of 64 bits. -/
def outsideError (drive : Nat) (h : Fin halfTracks) (t : Track) : StateError :=
  if t.stop < Count.size then .drive drive (.trackOutside h.val) else .overflow

/-- The drive with the contents of a state and the given container. -/
def drive (s : DriveState) (image : Array UInt8) : Drive where
  fileName := s.fileName
  format := s.format
  motorRunning := s.motorRunning
  writeMode := s.writeMode
  writeProtected := s.writeProtected
  halfTrack := clampHalfTrack s.halfTrack
  previousHalfTrack := clampHalfTrack s.previousHalfTrack
  phase := Phase.ofNat s.phase
  image := image
  tracks := tracks s.trackStarts s.trackBits
  location := s.location
  dirty := s.dirty

/-- The drive that a state stands for. -/
def decode (s : DriveState) (drive : Nat) : Except StateError Drive := do
  let refuse (fault : DriveFault) : StateError := .drive drive fault
  let image ← SaveState.decodeBytes s.data
  SaveState.ensure (s.trackStarts.length = halfTracks) (refuse (.startEntries s.trackStarts.length))
  SaveState.ensure (s.trackBits.length = halfTracks) (refuse (.lengthEntries s.trackBits.length))
  SaveState.ensure (s.halfTrack ≤ lastHalfTrack ∧ s.previousHalfTrack ≤ lastHalfTrack)
    (refuse (.halfTrack s.halfTrack))
  SaveState.ensure (s.phase ≤ 3) (refuse (.phase s.phase))
  match trackOutside? image (tracks s.trackStarts s.trackBits) with
  | some h => .error (outsideError drive h (getElem (tracks s.trackStarts s.trackBits) h.val h.isLt))
  | none => .ok (s.drive image)

end DriveState

namespace DiskState

open Disk

/-- What a save state keeps of the disk controller. -/
def capture (c : Controller) : DiskState where
  current := c.current.val
  previousCycle := c.previousCycle
  dataRegister := c.dataRegister
  motorOffAt := c.motorOffAt
  first := .capture c.drives.first
  second := .capture c.drives.second

/-- The drives that a state stands for, and which of them is selected. -/
def decode (s : DiskState) : Except StateError (Fin 2 × Drives) := do
  if h : s.current < 2 then
    let first ← s.first.decode 0
    let second ← s.second.decode 1
    return (⟨s.current, h⟩, ⟨first, second⟩)
  else throw (.drive s.current .noSuchDrive)

end DiskState

namespace Memory

/-- RAM from a memory image, which has to have its size. -/
def ramOfImage (image : Array UInt8) : Except StateError (Vector UInt8 Cell.count) :=
  if h : image.size = Cell.count then .ok ⟨image, h⟩
  else .error (.memorySize Cell.count image.size)

/-- RAM replaced by a memory image. -/
def restoreImage (m : Memory) (image : Array UInt8) : Except StateError Memory := do
  return { m with ram := ← ramOfImage image }

end Memory

namespace Machine

/-- The state of a machine. -/
def saveState (m : Machine) : SaveState where
  version := SaveState.currentVersion
  cpu := m.cpu.capture
  switches := m.switches.toMap
  keyboardLatch := m.memory.keyboardLatch
  memory := Base64.encode m.memory.ram.toArray
  disk := .capture m.disk
  clock := m.clock

/-- A machine with the contents of a save state, whose payloads are decoded already. -/
def install (m : Machine) (s : SaveState) (ram : Vector UInt8 Cell.count) (current : Fin 2)
    (drives : Disk.Drives) : Machine :=
  { m with
    cpu := m.cpu.restore s.cpu
    board := {
      memory := { m.board.memory with
        ram
        switches := m.board.memory.switches.applyMap s.switches
        keyboardLatch := s.keyboardLatch }
      disk := { m.board.disk with
        drives
        current
        previousCycle := s.disk.previousCycle
        dataRegister := s.disk.dataRegister
        motorOffAt := s.disk.motorOffAt }
      clock := s.clock }
    skipBreakpoint := false }

/-- A machine in the state that a save state holds.  Its ROMs and its breakpoints stay. -/
def restoreState (m : Machine) (s : SaveState) : Except StateError Machine := do
  s.checkVersion
  let image ← SaveState.decodeBytes s.memory
  let ram ← Memory.ramOfImage image
  let (current, drives) ← s.disk.decode
  return m.install s ram current drives

end Machine

end AppleII
