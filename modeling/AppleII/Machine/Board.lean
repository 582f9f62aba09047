import AppleII.Disk.Controller
import AppleII.Memory.Basic

/-!
# The board

Everything that the processor is wired to: the memory with its soft switches, and the disk controller
in slot 6, which sees the time of an access.
-/

namespace AppleII

/-- The memory, the disk controller and the clock. -/
structure Board where
  memory : Memory := {}
  disk : Disk.Controller := .empty
  /-- Cycles since the machine was booted. -/
  clock : Nat := 0

namespace Board

/-- An access to the I/O page: the switch is turned, then the handler of the route is called. -/
def accessIoPage (b : Board) (address : UInt16) (value : Option UInt8) : UInt8 × Board :=
  let memory := b.memory.touch address value.isSome
  match Route.ofAddress address with
  | .slot 6 reg =>
    let (v, disk) := b.disk.access reg value b.clock memory.switches
    (v, { b with memory, disk })
  | route =>
    let (v, memory) := memory.handle route address value
    (v, { b with memory })

/-- A read by the processor. -/
@[inline] def read (b : Board) (address : UInt16) : UInt8 × Board :=
  if Memory.isIoPage address then b.accessIoPage address none else (b.memory.peek address, b)

/-- A write by the processor. -/
@[inline] def write (b : Board) (address : UInt16) (value : UInt8) : Board :=
  if Memory.isIoPage address then (b.accessIoPage address (some value)).2
  else { b with memory := b.memory.poke address value }

instance : Processor.Bus Board where
  read := read
  write := write

/-- Cycles go by. -/
def advance (b : Board) (cycles : Nat) : Board :=
  let clock := Count.add b.clock cycles
  { b with clock, disk := b.disk.update clock b.memory.switches }

end Board

end AppleII
