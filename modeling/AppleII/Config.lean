import AppleII.FilePath
import AppleII.SaveState.Codec
import AppleII.Scheduler.Codec

/-!
# Configuration

The configuration of the emulator and its JSON form.  Every member that is missing there has its
default.
-/

namespace AppleII

open Json (Decoder ofNat ofString ofOption)

structure Config where
  model : Processor.Model := .cmos
  speed : SpeedMode := .normal
  /-- Frames from one automatic snapshot to the next; none are taken when it is 0. -/
  snapshotInterval : Nat := 60
  /-- The disk that was last in the first drive. -/
  lastDisk1 : Option String := none
  /-- The disk that was last in the second drive. -/
  lastDisk2 : Option String := none
  romPath : Option String := none
  diskRomPath : Option String := none
  saveDir : String := "saves"
  deriving DecidableEq, Repr, Inhabited

/-- Why a configuration cannot be read or written. -/
inductive ConfigError where
  | io (reason : String)
  | json
  deriving DecidableEq, Repr

/-- The text of an error.  What is wrong with a JSON document is not told. -/
def ConfigError.message : ConfigError → String
  | .io reason => "Failed to read or write config: " ++ reason
  | .json => "Failed to parse config"

namespace Config

def toJson (c : Config) : Json :=
  .record [
    ("cpu", c.model.toJson),
    ("speed", c.speed.toJson),
    ("snapshot_interval_frames", ofNat c.snapshotInterval),
    ("last_disk1", ofOption ofString c.lastDisk1),
    ("last_disk2", ofOption ofString c.lastDisk2),
    ("rom_path", ofOption ofString c.romPath),
    ("disk_rom_path", ofOption ofString c.diskRomPath),
    ("save_dir", ofString c.saveDir)]

def ofJson? : Decoder Config := fun j => do
  let f ← Decoder.fields ["cpu", "speed", "snapshot_interval_frames", "last_disk1", "last_disk2",
    "rom_path", "disk_rom_path", "save_dir"] j
  let d : Config := {}
  return {
    model := ← f.defaulted 0 Processor.Model.ofJson? d.model
    speed := ← f.defaulted 1 SpeedMode.ofJson? d.speed
    snapshotInterval := ← f.defaulted 2 (Decoder.nat 0xFFFFFFFF) d.snapshotInterval
    lastDisk1 := ← f.defaulted 3 (Decoder.option Decoder.string) d.lastDisk1
    lastDisk2 := ← f.defaulted 4 (Decoder.option Decoder.string) d.lastDisk2
    romPath := ← f.defaulted 5 (Decoder.option Decoder.string) d.romPath
    diskRomPath := ← f.defaulted 6 (Decoder.option Decoder.string) d.diskRomPath
    saveDir := ← f.defaulted 7 Decoder.string d.saveDir }

/-- The text of a configuration file. -/
def text (c : Config) : String := c.toJson.pretty

/-- The configuration that a text stands for. -/
def parse (text : String) : Except ConfigError Config :=
  match (Json.parse? text).bind ofJson? with
  | some c => .ok c
  | none => .error .json

/-- The disk that was last in a drive. -/
def lastDisk (c : Config) : Nat → Option String
  | 0 => c.lastDisk1
  | 1 => c.lastDisk2
  | _ => none

/-- A disk remembered for a drive; there are only two drives. -/
def setLastDisk (c : Config) (drive : Nat) (path : String) : Config :=
  match drive with
  | 0 => { c with lastDisk1 := some path }
  | 1 => { c with lastDisk2 := some path }
  | _ => c

/-- The directory of save files, from a base directory unless it starts at the root. -/
def saveDirectory (c : Config) (base : String) : String := FilePath.join base c.saveDir

def saveFileName (slot : Nat) : String :=
  if slot = 0 then "quicksave.json" else s!"save_slot_{slot}.json"

/-- The save file of a slot. -/
def savePath (c : Config) (base : String) (slot : Nat) : String :=
  FilePath.join (c.saveDirectory base) (saveFileName slot)

end Config

end AppleII
