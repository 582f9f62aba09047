import AppleII.SaveState.Codec
import AppleII.Scheduler.Basic

/-!
# The panel in JSON

How run states, speed modes and the panel are written, and how the first two are read.
-/

namespace AppleII

open Json (Decoder ofNat ofString)

namespace RunState

def name : RunState → String
  | .idle => "Idle"
  | .needBoot => "NeedBoot"
  | .needReset => "NeedReset"
  | .running => "Running"
  | .paused => "Paused"

def ofName? : String → Option RunState
  | "Idle" => some .idle
  | "NeedBoot" => some .needBoot
  | "NeedReset" => some .needReset
  | "Running" => some .running
  | "Paused" => some .paused
  | _ => none

theorem ofName?_name (s : RunState) : ofName? s.name = some s := by cases s <;> rfl

def toJson (s : RunState) : Json := ofString s.name

def ofJson? : Decoder RunState := Decoder.name ofName?

end RunState

namespace SpeedMode

def name : SpeedMode → String
  | .normal => "normal"
  | .uncapped => "uncapped"

def ofName? : String → Option SpeedMode
  | "normal" => some .normal
  | "uncapped" => some .uncapped
  | _ => none

theorem ofName?_name (m : SpeedMode) : ofName? m.name = some m := by cases m <;> rfl

def toJson (m : SpeedMode) : Json := ofString m.name

def ofJson? : Decoder SpeedMode := Decoder.name ofName?

end SpeedMode

namespace Disk

/-- The name of an event, its drive, and the half-track if it has one. -/
def DriveEvent.parts : DriveEvent → String × Fin 2 × Option Nat
  | .motorOn d => ("MotorOn", d, none)
  | .motorOff d => ("MotorOff", d, none)
  | .headMoved d h => ("HeadMoved", d, some h)
  | .headAtStop d h => ("HeadAtStop", d, some h)
  | .diskInserted d => ("DiskInserted", d, none)
  | .diskEjected d => ("DiskEjected", d, none)

def DriveEvent.toJson (e : DriveEvent) : Json :=
  let (name, d, h) := e.parts
  .record [(name, .record (("drive", ofNat d.val) :: h.toList.map fun h => ("half_track", ofNat h)))]

/-- What a drive shows, in JSON. -/
def DriveStatus.toJson (s : DriveStatus) : Json :=
  .record [
    ("file_name", ofString s.fileName),
    ("has_disk", .bool s.hasDisk),
    ("half_track", ofNat s.halfTrack),
    ("motor_running", .bool s.motorRunning),
    ("write_protected", .bool s.writeProtected),
    ("dirty", .bool s.dirty)]

end Disk

namespace Panel

/-- A number of hundredths with two decimals. -/
def hundredths (n : Nat) : String :=
  let fraction := toString (n % 100)
  toString (n / 100) ++ "." ++ (if fraction.length = 1 then "0" ++ fraction else fraction)

def members (p : Panel) : List (String × Json) :=
  [("run_state", p.runState.toJson),
    ("speed", .number (hundredths p.speed)),
    ("speed_mode", p.speedMode.toJson),
    ("cycle_count", ofNat p.clock),
    ("registers", p.registers.toJson),
    ("breakpoints", .array (p.breakpoints.map Breakpoint.toJson)),
    ("disassembly_address", .number (toString p.disassemblyAddress)),
    ("can_go_backward", .bool p.canGoBackward),
    ("can_go_forward", .bool p.canGoForward),
    ("temp_index", ofNat p.cursor),
    ("drives", .array (p.drives.map Disk.DriveStatus.toJson)),
    ("drive_events", .array (p.driveEvents.map Disk.DriveEvent.toJson)),
    ("text", .bool p.text),
    ("hires", .bool p.hires),
    ("page2", .bool p.page2),
    ("mixed", .bool p.mixed),
    ("col80", .bool p.columns80),
    ("alt_charset", .bool p.altCharset),
    ("button0", .bool p.button0),
    ("button1", .bool p.button1)]

def toJson (p : Panel) : Json := .record p.members

end Panel

end AppleII
