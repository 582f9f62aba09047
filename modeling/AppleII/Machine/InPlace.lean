import AppleII.SaveState.Capture

/-!
# Changes in place

The changes that may be refused, as they are made to a machine itself: one part after the other, on a
machine that keeps what was changed so far when something is refused later on.
-/

namespace AppleII

/-- A check that changes nothing. -/
@[inline] def check {ε σ α : Type} (x : Except ε α) : EStateM ε σ α :=
  match x with
  | .ok a => pure a
  | .error e => throw e

namespace Disk.Controller

/-- A disk put into a drive. -/
def insertDisk (drive : Nat) (fileName : String) (bytes : Array UInt8) :
    EStateM Error Controller (Option Warning) := do
  let d ← check (driveNumber drive)
  let disk ← check (Image.decode fileName bytes)
  modify fun c => { c with drives := c.drives.modify d fun u => u.load disk }
  modify fun c => c.emit (.diskInserted d)
  return disk.warning

/-- The disk of a drive taken out. -/
def ejectDisk (drive : Nat) : EStateM Error Controller Unit := do
  let d ← check (driveNumber drive)
  if ((← get).drives.get d).hasDisk then
    modify fun c => { c with drives := c.drives.modify d Drive.clear }
    modify fun c => c.emit (.diskEjected d)

end Disk.Controller

namespace Memory

theorem slot_lt {slot : Nat} (h : 1 ≤ slot ∧ slot ≤ 7) : slot < 8 := by omega

/-- The ROM of one of the slots 1 to 7 given. -/
def plugSlotRom (slot : Nat) (bytes : Array UInt8) : EStateM SlotRomError Memory Unit := do
  if h : 1 ≤ slot ∧ slot ≤ 7 then
    if bytes.size ≠ slotRomSize then throw .size
    modify fun m => m.installSlotRom ⟨slot, slot_lt h⟩ (slotRomOf bytes 0)
  else throw .slot

/-- RAM replaced by a memory image. -/
def replaceRam (image : Array UInt8) : EStateM StateError Memory Unit := do
  let ram ← check (ramOfImage image)
  modify fun m => { m with ram }

end Memory

namespace Machine

/-- A change of the memory of a machine; why it is refused is put in other words. -/
@[inline] def onMemory {ε ε' α : Type} (explain : ε → ε') (x : EStateM ε Memory α) :
    EStateM ε' Machine α := fun m =>
  match x.run m.memory with
  | .ok a memory => .ok a { m with board.memory := memory }
  | .error e memory => .error (explain e) { m with board.memory := memory }

/-- The ROM of a slot given.  Refused with the text of the reason, as a boot ROM is. -/
def plugSlotRom (slot : Nat) (bytes : Array UInt8) : EStateM String Machine Unit :=
  onMemory SlotRomError.message (Memory.plugSlotRom slot bytes)

/-- A boot ROM of the disk card put into its slot, now and at every boot. -/
def plugDiskRom (bytes : Array UInt8) : EStateM String Machine Unit := do
  if bytes.size ≠ slotRomSize then throw DiskRomError.size.message
  let rom := Memory.slotRomOf bytes 0
  unless isDiskRom rom do throw DiskRomError.contents.message
  modify fun m => { m with diskRom := some rom }
  plugSlotRom Memory.diskSlot.val bytes

/-- A save state put into a machine.  Everything is checked first. -/
def restore (s : SaveState) : EStateM StateError Machine Unit := do
  check s.checkVersion
  let image ← check (SaveState.decodeBytes s.memory)
  let _ ← check (Memory.ramOfImage image)
  let (current, drives) ← check s.disk.decode
  onMemory id (Memory.replaceRam image)
  modify fun m => { m with board.memory.switches := m.switches.applyMap s.switches }
  modify fun m => { m with board.memory.keyboardLatch := s.keyboardLatch }
  modify fun m => { m with cpu := m.cpu.restore s.cpu }
  modify fun m => { m with board.disk.drives := drives }
  modify fun m => { m with board.disk.current := current }
  modify fun m => { m with board.disk.previousCycle := s.disk.previousCycle }
  modify fun m => { m with board.disk.dataRegister := s.disk.dataRegister }
  modify fun m => { m with board.disk.motorOffAt := s.disk.motorOffAt }
  modify fun m => { m with board.clock := s.clock }
  modify fun m => { m with skipBreakpoint := false }

end Machine

end AppleII
