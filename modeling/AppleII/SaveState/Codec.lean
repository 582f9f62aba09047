import AppleII.Debugger
import AppleII.Json.Decode
import AppleII.Json.Parser
import AppleII.Json.Printer
import AppleII.SaveState.Basic

/-!
# Save states in JSON

How the parts of a save state, and the values beside it, are written as JSON and read back.  A missing
`format` or `motor_off_at` is read as null and a missing `prev_nmi` as false; all else has to be there.
-/

namespace AppleII

open Json (Decoder ofNat ofString ofOption)

/-- A byte. -/
def Json.ofUInt8 (b : UInt8) : Json := ofNat b.toNat

/-- A 16-bit word. -/
def Json.ofUInt16 (w : UInt16) : Json := ofNat w.toNat

namespace Processor

def Model.name : Model → String
  | .nmos => "6502"
  | .cmos => "65c02"

def Model.ofName? : String → Option Model
  | "6502" => some .nmos
  | "65c02" => some .cmos
  | _ => none

theorem Model.ofName?_name (m : Model) : Model.ofName? m.name = some m := by cases m <;> rfl

def Model.toJson (m : Model) : Json := ofString m.name

def Model.ofJson? : Decoder Model := Decoder.name Model.ofName?

namespace Registers

def members (r : Registers) : List (String × Json) :=
  [("a", .ofUInt8 r.a), ("x", .ofUInt8 r.x), ("y", .ofUInt8 r.y), ("sp", .ofUInt8 r.sp),
    ("pc", .ofUInt16 r.pc), ("status", .ofUInt8 r.status.toByte)]

def memberNames : List String := ["a", "x", "y", "sp", "pc", "status"]

/-- The registers from the first six of some fields. -/
def ofFields? (f : Decoder.Fields) : Option Registers := do
  return {
    a := ← f.required 0 Decoder.uint8
    x := ← f.required 1 Decoder.uint8
    y := ← f.required 2 Decoder.uint8
    sp := ← f.required 3 Decoder.uint8
    pc := ← f.required 4 Decoder.uint16
    status := .ofByte (← f.required 5 Decoder.uint8) }

def toJson (r : Registers) : Json := .record r.members

def ofJson? : Decoder Registers := fun j => do ofFields? (← Decoder.fields memberNames j)

end Registers

end Processor

namespace Disk.Format

def name : Format → String
  | .woz2 => "Woz2"
  | .woz1 => "Woz1"
  | .dsk => "Dsk"
  | .po => "Po"

def ofName? : String → Option Format
  | "Woz2" => some .woz2
  | "Woz1" => some .woz1
  | "Dsk" => some .dsk
  | "Po" => some .po
  | _ => none

theorem ofName?_name (f : Format) : ofName? f.name = some f := by cases f <;> rfl

end Disk.Format

namespace Breakpoint

def toJson (b : Breakpoint) : Json :=
  .record [("address", .ofUInt16 b.address), ("enabled", .bool b.enabled),
    ("hit_count", ofNat b.hitCount), ("once", .bool b.once)]

def ofJson? : Decoder Breakpoint := fun j => do
  let f ← Decoder.fields ["address", "enabled", "hit_count", "once"] j
  return {
    address := ← f.required 0 Decoder.uint16
    enabled := ← f.required 1 Decoder.bool
    hitCount := ← f.required 2 (Decoder.nat 0xFFFFFFFF)
    once := ← f.required 3 Decoder.bool }

end Breakpoint

namespace ProcessorState

def toJson (s : ProcessorState) : Json :=
  .record <| s.regs.members ++ [("total_cycles", ofNat s.totalCycles), ("irq_pending", .bool s.irq),
    ("nmi_pending", .bool s.nmi), ("prev_nmi", .bool s.previousNmi)]

def ofJson? : Decoder ProcessorState := fun j => do
  let f ← Decoder.fields (Processor.Registers.memberNames ++
    ["total_cycles", "irq_pending", "nmi_pending", "prev_nmi"]) j
  return {
    regs := ← Processor.Registers.ofFields? f
    totalCycles := ← f.required 6 Decoder.count
    irq := ← f.required 7 Decoder.bool
    nmi := ← f.required 8 Decoder.bool
    previousNmi := ← f.defaulted 9 Decoder.bool false }

end ProcessorState

namespace DriveState

def toJson (s : DriveState) : Json :=
  .record [
    ("file_name", ofString s.fileName),
    ("format", ofOption (fun f => ofString (Disk.Format.name f)) s.format),
    ("motor_running", .bool s.motorRunning),
    ("write_mode", .bool s.writeMode),
    ("write_protected", .bool s.writeProtected),
    ("half_track", ofNat s.halfTrack),
    ("prev_half_track", ofNat s.previousHalfTrack),
    ("phase", ofNat s.phase),
    ("track_start", .array (s.trackStarts.map ofNat)),
    ("track_nbits", .array (s.trackBits.map ofNat)),
    ("track_location", ofNat s.location),
    ("dirty", .bool s.dirty),
    ("data", ofString s.data)]

def ofJson? : Decoder DriveState := fun j => do
  let f ← Decoder.fields ["file_name", "format", "motor_running", "write_mode", "write_protected",
    "half_track", "prev_half_track", "phase", "track_start", "track_nbits", "track_location", "dirty",
    "data"] j
  return {
    fileName := ← f.required 0 Decoder.string
    format := ← f.optional 1 (Decoder.name Disk.Format.ofName?)
    motorRunning := ← f.required 2 Decoder.bool
    writeMode := ← f.required 3 Decoder.bool
    writeProtected := ← f.required 4 Decoder.bool
    halfTrack := ← f.required 5 (Decoder.nat 0xFF)
    previousHalfTrack := ← f.required 6 (Decoder.nat 0xFF)
    phase := ← f.required 7 (Decoder.nat 0xFF)
    trackStarts := ← f.required 8 (Decoder.list Decoder.count)
    trackBits := ← f.required 9 (Decoder.list (Decoder.nat 0xFFFFFFFF))
    location := ← f.required 10 (Decoder.nat 0xFFFFFFFF)
    dirty := ← f.required 11 Decoder.bool
    data := ← f.required 12 Decoder.string }

end DriveState

namespace DiskState

/-- The disk controller in JSON. -/
def toJson (s : DiskState) : Json :=
  .record [
    ("current", ofNat s.current),
    ("prev_cycle", ofNat s.previousCycle),
    ("data_register", .ofUInt8 s.dataRegister),
    ("motor_off_at", ofOption ofNat s.motorOffAt),
    ("drives", .array [s.first.toJson, s.second.toJson])]

/-- The disk controller from JSON. -/
def ofJson? : Decoder DiskState := fun j => do
  let f ← Decoder.fields ["current", "prev_cycle", "data_register", "motor_off_at", "drives"] j
  let drives ← f.required 4 (Decoder.pair DriveState.ofJson?)
  return {
    current := ← f.required 0 Decoder.count
    previousCycle := ← f.required 1 Decoder.count
    dataRegister := ← f.required 2 Decoder.uint8
    motorOffAt := ← f.optional 3 Decoder.count
    first := drives.1
    second := drives.2 }

end DiskState

namespace SaveState

/-- A save state in JSON; the switches are in the order of their names. -/
def toJson (s : SaveState) : Json :=
  .record [
    ("version", ofNat s.version),
    ("cpu", s.cpu.toJson),
    ("switches", .record (s.switches.toList.map fun (k, b) => (k, .bool b))),
    ("keyboard_latch", .ofUInt8 s.keyboardLatch),
    ("memory", ofString s.memory),
    ("disk", s.disk.toJson),
    ("cycle_count", ofNat s.clock)]

/-- A save state from JSON.  Of two switches of one name the later one counts. -/
def ofJson? : Decoder SaveState := fun j => do
  let f ← Decoder.fields
    ["version", "cpu", "switches", "keyboard_latch", "memory", "disk", "cycle_count"] j
  let switches ← f.required 2 (Decoder.members Decoder.bool)
  return {
    version := ← f.required 0 (Decoder.nat 0xFFFFFFFF)
    cpu := ← f.required 1 ProcessorState.ofJson?
    switches := switches.foldl (fun m (k, b) => m.insert k b) ∅
    keyboardLatch := ← f.required 3 Decoder.uint8
    memory := ← f.required 4 Decoder.string
    disk := ← f.required 5 DiskState.ofJson?
    clock := ← f.required 6 Decoder.count }

def text (s : SaveState) : String := s.toJson.compact

/-- The save state that a text stands for, whatever its version. -/
def parse (text : String) : Except StateError SaveState :=
  match (Json.parse? text).bind ofJson? with
  | some s => .ok s
  | none => .error .json

/-- The save state of a file. -/
def load (text : String) : Except StateError SaveState := do
  let s ← parse text
  s.checkVersion
  return s

end SaveState

end AppleII
