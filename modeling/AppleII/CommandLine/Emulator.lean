import AppleII.CommandLine.Arguments
import AppleII.Text.Quoted

/-!
# The emulator's command line

The command boots a machine, or restores one from a save state, and lets it run until a breakpoint
stops it or a number of cycles has gone by.  At the end it may write a save state and the disks that
were changed, and it remembers the disks in the configuration.
-/

namespace AppleII.CommandLine.Emulator

open Host (print warn)
open Text (parseNat? quoted upperHex)

structure Options where
  rom : Option String := none
  diskRom : Option String := none
  disk1 : Option String := none
  disk2 : Option String := none
  cpu : Option String := none
  /-- The cycles to run; without them the machine runs until it stops by itself. -/
  cycles : Option Nat := none
  uncapped : Bool := false
  breakpoints : List UInt16 := []
  diskLog : String := ""
  saveState : Option String := none
  loadState : Option String := none
  writeBack : Bool := false
  config : Option String := none
  deriving DecidableEq, Repr, Inhabited

/-- A text without all its leading copies of a mark, which is not empty. -/
def dropMarks (mark : List Char) (text : List Char) : List Char :=
  match mark with
  | [] => text
  | c :: cs =>
    if (c :: cs).isPrefixOf text then dropMarks (c :: cs) (text.drop (cs.length + 1)) else text
termination_by text.length
decreasing_by
  rename_i h
  have := (List.isPrefixOf_iff_prefix.1 h).length_le
  simp only [List.length_drop, List.length_cons] at this ⊢
  omega

/-- An address in hexadecimal, after dollar signs and marks of the form `0x`. -/
def parseAddress? (s : String) : Option UInt16 :=
  let digits := dropMarks ['0', 'x'] (dropMarks ['$'] s.toList)
  (parseNat? 16 0xFFFF (.ofList digits)).map Nat.toUInt16

/-- A path, which is not empty. -/
def parsePath? (s : String) : Option String := if s.isEmpty then none else some s

def grammar : Grammar Options where
  name := "a2core"
  version := some "0.3.0"
  about := "A2Core - Apple II emulation core (headless)"
  start := {}
  options := [
    { long := "rom", short := some 'r', valueName := some "ROM", help := "ROMファイル",
      store := fun v o => some { o with rom := some v } },
    { long := "disk-rom", valueName := some "DISK_ROM", help := "Disk II Boot ROM (256 bytes)",
      store := fun v o => some { o with diskRom := some v } },
    { long := "disk1", short := some '1', valueName := some "DISK1",
      help := "ディスクイメージファイル（ドライブ1）",
      store := fun v o => some { o with disk1 := some v } },
    { long := "disk2", short := some '2', valueName := some "DISK2",
      help := "ディスクイメージファイル（ドライブ2）",
      store := fun v o => some { o with disk2 := some v } },
    { long := "cpu", valueName := some "CPU", help := "CPU (6502, 65c02)",
      store := fun v o => some { o with cpu := some v } },
    { long := "cycles", valueName := some "CYCLES", help := "実行するサイクル数（省略時は停止するまで）",
      store := fun v o => (parseNat? 10 0xFFFFFFFFFFFFFFFF v).map fun n => { o with cycles := some n } },
    { long := "uncapped", help := "ウェイトなしで実行",
      store := fun _ o => some { o with uncapped := true } },
    { long := "break", valueName := some "BREAKPOINTS", repeatable := true,
      help := "ブレークポイント（16進、複数指定可）",
      store := fun v o => (parseAddress? v).map fun a => { o with breakpoints := o.breakpoints ++ [a] } },
    { long := "disk-log", valueName := some "DISK_LOG", defaultText := some "",
      help := "ディスクログ: flow, state, event, bits, all（カンマ区切り）",
      store := fun v o => some { o with diskLog := v } },
    { long := "save-state", valueName := some "SAVE_STATE", help := "終了時にセーブステートを書き出す",
      store := fun v o => (parsePath? v).map fun p => { o with saveState := some p } },
    { long := "load-state", valueName := some "LOAD_STATE", help := "起動時にセーブステートを読み込む",
      store := fun v o => (parsePath? v).map fun p => { o with loadState := some p } },
    { long := "write-back", help := "変更されたディスクを終了時に .woz として書き戻す",
      store := fun _ o => some { o with writeBack := true } },
    { long := "config", valueName := some "CONFIG", help := "設定ファイル",
      store := fun v o => (parsePath? v).map fun p => { o with config := some p } }]

/-- A model as the messages name it. -/
def modelTitle : Processor.Model → String
  | .nmos => "Cpu6502"
  | .cmos => "Cpu65C02"

/-- The model of a name in capitals or small letters. -/
def modelNamed? (name : String) : Option Processor.Model := Processor.Model.ofName? (Text.lower name)

/-- Where the boot ROM of the disk card is looked for when no path names it. -/
def diskRomPaths : List String := ["roms/disk2.rom", "disk2.rom", "roms/DISK2.rom"]

/-- The scheduler, the configuration, and the paths of the disks that were inserted. -/
structure Session where
  scheduler : Scheduler
  config : Config
  inserted : List (Nat × String) := []

variable {m : Type → Type} [Monad m] [Host m]

/-! ## Before the run -/

/-- The model that an option asks for, or else that of the configuration. -/
def chooseModel (cpu : Option String) (c : Config) : m Processor.Model := do
  match cpu with
  | none => return c.model
  | some name => match modelNamed? name with
    | some model => return model
    | none =>
      warn s!"Unknown CPU: {name}. Using {modelTitle c.model}"
      return c.model

/-- The boot ROM of the disk card from the first of some paths that holds one: whether there is one,
and the machine. -/
def findDiskRom : List String → Machine → m (Bool × Machine)
  | [], machine => return (false, machine)
  | path :: paths, machine => do
    match ← Host.readFile path with
    | .ok bytes => match (Machine.plugDiskRom bytes).run machine with
      | .ok _ machine => return (true, machine)
      | .error _ machine => findDiskRom paths machine
    | .error _ => findDiskRom paths machine

/-- The boot ROM of the disk card installed: from its path, or from the ROM image, or from where it is
usually found. -/
def installDiskRom (path : Option String) (machine : Machine) : m Machine := do
  match path with
  | some path => match ← Host.readFile path with
    | .ok bytes => match (Machine.plugDiskRom bytes).run machine with
      | .ok _ machine => return machine
      | .error message machine =>
        warn s!"Failed to load Disk II Boot ROM: {message}"
        return machine
    | .error e =>
      warn s!"Failed to read Disk II Boot ROM {path}: {e.message}"
      return machine
  | none =>
    if machine.diskRom.isSome then return machine
    let (found, machine) ← findDiskRom diskRomPaths machine
    unless found do warn "Note: Disk II Boot ROM not found; slot 6 will read the internal ROM"
    return machine

/-- The machine restored from a save state: whether that succeeds, and the scheduler. -/
def restore (path : String) (s : Scheduler) : m (Bool × Scheduler) := do
  match ← Host.loadState path with
  | .ok state => match (Machine.restore state).run s.machine with
    | .ok _ machine => return (true, { s with machine })
    | .error e machine =>
      warn s!"Failed to restore {quoted path}: {e.message}"
      return (false, { s with machine })
  | .error e =>
    warn s!"Failed to read {quoted path}: {e.message}"
    return (false, s)

/-- The disk of a file put into a drive. -/
def insertDisk (drive : Nat) (path : String) (session : Session) : m Session := do
  match ← Host.readFile path with
  | .error e =>
    warn s!"Failed to read disk {drive + 1} {path}: {e.message}"
    return session
  | .ok bytes =>
    let name := (FilePath.fileName? path).getD path
    match session.scheduler.handle (.loadDisk drive name bytes) with
    | (some (.failed message), scheduler) =>
      warn s!"Failed to load disk {drive + 1}: {message}"
      return { session with scheduler }
    | (_, scheduler) =>
      return {
        scheduler
        config := session.config.setLastDisk drive path
        inserted := (drive, path) :: session.inserted }

/-- The disks that the options name, or else those of the configuration. -/
def insertDisks (o : Options) (session : Session) : m Session := do
  let c := session.config
  let insert (drive : Nat) (path : Option String) (s : Session) : m Session :=
    match path with
    | some path => insertDisk drive path s
    | none => return s
  insert 1 (o.disk2 <|> c.lastDisk 1) (← insert 0 (o.disk1 <|> c.lastDisk 0) session)

/-! ## After the run -/

/-- The save state written to a file. -/
def writeState (path : String) (s : Scheduler) : m Unit := do
  match ← Host.saveState path s.machine.saveState with
  | .ok _ => print s!"Saved state to {quoted path}"
  | .error e => warn s!"Failed to save state: {e.message}"

/-- A changed disk written beside the file that it came from. -/
def writeDisk (session : Session) (drive : Nat) (path : String) : m Session := do
  let (response, scheduler) := session.scheduler.saveDisk drive
  let session := { session with scheduler }
  match response with
  | .diskImage _ name bytes =>
    let target := FilePath.withFileName path name
    match ← Host.writeFile target bytes with
    | .ok _ =>
      print s!"Wrote disk {drive + 1} to {quoted target}"
      return { session with config := session.config.setLastDisk drive target }
    | .error e =>
      warn s!"Failed to write {quoted target}: {e.message}"
      return session
  | .failed message =>
    warn s!"Failed to save disk {drive + 1}: {message}"
    return session
  | .saveState _ => return session

/-- The changed disks of the drives on the latest panel written back, as far as they came from files. -/
def writeDisks (session : Session) : m Session := do
  let changed := session.scheduler.latest.drives.zipIdx.filter (·.1.dirty)
  changed.foldlM (fun session (_, drive) =>
    match session.inserted.lookup drive with
    | some path => writeDisk session drive path
    | none => return session) session

/-! ## The command -/

/-- Whether the run is over: the cycles have gone by, or the machine is paused. -/
def isOver (first : Nat) (cycles : Option Nat) (panel : Panel) : Bool :=
  cycles.any (· ≤ panel.clock - first) || panel.runState == .paused

/-- A restored machine goes on; any other is booted. -/
def launch (restored : Bool) (s : Scheduler) : Scheduler :=
  if restored then ((s.setState .paused).handle .run).2 else (s.handle .boot).2

/-- The run itself, from the launch to a pause. -/
def runMachine (o : Options) (s : Scheduler) : m Scheduler := do
  let first := s.latest.clock
  let s ← Host.runUntil (isOver first o.cycles) s
  unless o.cycles.any (· ≤ s.latest.clock - first) do
    print s!"Stopped at ${upperHex 4 s.latest.registers.pc.toNat}"
  let s := (s.handle .pause).2
  if let some path := o.saveState then writeState path s
  return s

/-- The machine with its ROMs, set to run as options and configuration say. -/
def prepare (o : Options) (c : Config) (levels : Disk.LogLevels) (model : Processor.Model)
    (rom : Array UInt8) : m Scheduler := do
  let machine ← installDiskRom (o.diskRom <|> c.diskRomPath) ((Machine.ofModel model).loadRom rom)
  let machine := { machine with board.disk.log.levels := levels }
  let s : Scheduler := { machine, snapshots.interval := c.snapshotInterval }
  return s.setSpeed (if o.uncapped then .uncapped else c.speed)

/-- The command with a ROM image. -/
def runRom (o : Options) (configPath : String) (c : Config) (levels : Disk.LogLevels)
    (model : Processor.Model) (rom : Array UInt8) : m UInt32 := do
  print s!"A2Core v0.3.0 ({modelTitle model})"
  let s ← prepare o c levels model rom
  let (restored, s) ← match o.loadState with
    | some path => restore path s
    | none => pure (false, s)
  let session : Session := { scheduler := s, config := c }
  let session ← if restored then pure session else insertDisks o session
  let s := o.breakpoints.foldl (fun s a => (s.handle (.setBreakpoint a)).2) session.scheduler
  let s := launch restored s
  let first := s.latest.clock
  let s ← runMachine o s
  let session := { session with scheduler := s }
  let session ← if o.writeBack then writeDisks session else pure session
  let panel := session.scheduler.latest
  print s!"Executed {panel.clock - first} cycles"
  print s!"Final PC: ${upperHex 4 panel.registers.pc.toNat}"
  let _ ← Host.saveConfig configPath session.config
  return 0

def run (o : Options) : m UInt32 := do
  match Disk.LogLevels.parse o.diskLog with
  | .error name =>
    warn (Disk.LogLevels.unknownMessage name)
    return 2
  | .ok levels =>
    let configPath ← match o.config with
      | some path => pure path
      | none => Host.configPath
    let c := ((← Host.loadConfig configPath).toOption).getD {}
    let model ← chooseModel o.cpu c
    match o.rom <|> c.romPath with
    | none =>
      warn "No ROM specified (use --rom or rom_path in the config file)"
      return 1
    | some romPath => match ← Host.readFile romPath with
      | .error e =>
        warn s!"Failed to load ROM {romPath}: {e.message}"
        return 1
      | .ok rom => runRom o configPath c levels model rom

/-- The command line of the emulator: the exit code. -/
def execute (words : List String) : m UInt32 := grammar.execute run words

end AppleII.CommandLine.Emulator
