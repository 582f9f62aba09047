import AppleII.Disk.ByteRing
import AppleII.Disk.Error
import AppleII.Text.Blank

/-!
# Disk log

What the disk controller does, by category: what happens to motors and disks, changes of state,
writes, and the bytes read.  Only the categories that are switched on are kept.
-/

namespace AppleII.Disk

/-- What the drives report.  Drives are counted from 0. -/
inductive DriveEvent where
  | motorOn (drive : Fin 2)
  | motorOff (drive : Fin 2)
  | headMoved (drive : Fin 2) (halfTrack : Nat)
  /-- The head was to move beyond its range. -/
  | headAtStop (drive : Fin 2) (halfTrack : Nat)
  | diskInserted (drive : Fin 2)
  | diskEjected (drive : Fin 2)
  deriving DecidableEq, Repr, Inhabited

/-- The categories that are switched on. -/
structure LogLevels where
  flow : Bool := false
  state : Bool := false
  event : Bool := false
  bits : Bool := false
  deriving DecidableEq, Repr, Inhabited

namespace LogLevels

/-- Every category. -/
def all : LogLevels := ⟨true, true, true, true⟩

/-- The categories of both. -/
def union (a b : LogLevels) : LogLevels :=
  ⟨a.flow || b.flow, a.state || b.state, a.event || b.event, a.bits || b.bits⟩

/-- A category by its name. -/
def ofName? : String → Option LogLevels
  | "flow" => some { flow := true }
  | "state" => some { state := true }
  | "event" => some { event := true }
  | "bits" => some { bits := true }
  | "all" => some all
  | _ => none

/-- The categories that a list of names between commas switches on.  Blanks around a name and empty
names are passed over, and capitals do not matter; a name of no category is given back. -/
def parse (list : String) : Except String LogLevels :=
  let names := ((list.splitOn ",").map Text.trim).filter (!·.isEmpty)
  names.foldlM (fun levels n =>
    match ofName? (Text.lower n) with
    | some l => .ok (levels.union l)
    | none => .error (Text.lower n)) {}

/-- The text for a name of no category. -/
def unknownMessage (name : String) : String := "unknown disk log category: " ++ name

end LogLevels

inductive LogEntry where
  | event (e : DriveEvent)
  | driveSelected (drive : Fin 2)
  | writeMode (drive : Fin 2) (on : Bool)
  | flushed (halfTrack : Nat) (value : UInt8) (delta bits : Nat)
  | recent (bytes : List UInt8)
  deriving DecidableEq, Repr, Inhabited

namespace LogEntry

/-- Whether the category of an entry is switched on. -/
def enabled (levels : LogLevels) : LogEntry → Bool
  | event (.headMoved ..) | event (.headAtStop ..) => levels.state
  | event _ => levels.flow
  | driveSelected _ | writeMode .. => levels.state
  | flushed .. => levels.event
  | recent _ => levels.bits

/-- The name of a drive, counted from 1. -/
def driveName (d : Fin 2) : String := "D" ++ toString (d.val + 1)

/-- A half-track in tracks, with one place after the point. -/
def trackText (halfTrack : Nat) : String :=
  toString (halfTrack / 2) ++ (if halfTrack % 2 = 0 then ".0" else ".5")

def eventText : DriveEvent → String
  | .motorOn d => "[DISK] " ++ driveName d ++ " Motor ON"
  | .motorOff d => "[DISK] " ++ driveName d ++ " Motor OFF"
  | .diskInserted d => "[DISK] " ++ driveName d ++ " inserted"
  | .diskEjected d => "[DISK] " ++ driveName d ++ " ejected"
  | .headMoved d h => "[STATE] " ++ driveName d ++ " head -> T" ++ trackText h
  | .headAtStop d h => "[STATE] " ++ driveName d ++ s!" head at stop (htrack {h})"

/-- Lines of at most 16 bytes each.  Every round takes a byte or more. -/
def byteLines : Nat → List UInt8 → List String
  | 0, _ => []
  | _, [] => []
  | fuel + 1, bs =>
    ("  " ++ " ".intercalate ((bs.take 16).map fun b => Text.upperHex 2 b.toNat)) ::
      byteLines fuel (bs.drop 16)

def lines : LogEntry → List String
  | event e => [eventText e]
  | driveSelected d => [s!"[STATE] Drive {d.val + 1} selected"]
  | writeMode d on => ["[STATE] " ++ driveName d ++ " write mode " ++ (if on then "ON" else "OFF")]
  | flushed h v delta bits =>
    [s!"[WRITE] htrack={h} value=$" ++ Text.upperHex 2 v.toNat ++ s!" delta={delta} bits={bits}"]
  | recent bytes => s!"[BITS] Last {bytes.length} bytes:" :: byteLines bytes.length bytes

end LogEntry

/-- The log of a controller. -/
structure Log where
  levels : LogLevels := {}
  entries : Array LogEntry := #[]
  deriving Inhabited

namespace Log

/-- One more entry, kept when its category is switched on. -/
def add (l : Log) (e : LogEntry) : Log :=
  if e.enabled l.levels then { l with entries := l.entries.push e } else l

def lines (l : Log) : List String := l.entries.toList.flatMap LogEntry.lines

end Log

end AppleII.Disk
