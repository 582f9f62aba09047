import AppleII.Config
import AppleII.Scheduler.Command

/-!
# Hosts

What a command needs of the computer that it runs on: files, two streams of lines, and time for the
scheduler.  Commands are written for any host, so that they run on a computer and in a sandbox alike.
-/

namespace AppleII

/-- Why a file cannot be read or written. -/
inductive FileError where
  | missing
  | notDirectory
  | isDirectory
  | denied
  /-- The path or a name in it is longer than a computer takes. -/
  | tooLong
  /-- The path holds a NUL, which no file has in its name. -/
  | nulInPath
  | notText
  | other (message : String)
  deriving DecidableEq, Repr

/-- The text of an error. -/
def FileError.message : FileError → String
  | .missing => "No such file or directory (os error 2)"
  | .notDirectory => "Not a directory (os error 20)"
  | .isDirectory => "Is a directory (os error 21)"
  | .denied => "Permission denied (os error 13)"
  | .tooLong => "File name too long (os error 36)"
  | .nulInPath => "file name contained an unexpected NUL byte"
  | .notText => "stream did not contain valid UTF-8"
  | .other message => message

/-- A computer that a command runs on. -/
class Host (m : Type → Type) where
  readFile : String → m (Except FileError (Array UInt8))
  writeFile : String → Array UInt8 → m (Except FileError Unit)
  /-- A line of output. -/
  print : String → m Unit
  /-- A line of error output. -/
  warn : String → m Unit
  /-- The configuration file, unless a command names another one. -/
  configPath : m String
  /-- The scheduler ticks, at least once, until its latest panel satisfies a condition. -/
  runUntil : (Panel → Bool) → Scheduler → m Scheduler

namespace Host

variable {m : Type → Type} [Monad m] [Host m]

def readText (path : String) : m (Except FileError String) := do
  match ← readFile path with
  | .error e => return .error e
  | .ok bytes => match String.fromUTF8? ⟨bytes⟩ with
    | some text => return .ok text
    | none => return .error .notText

def writeText (path text : String) : m (Except FileError Unit) := writeFile path text.toUTF8.data

/-- The configuration of a file. -/
def loadConfig (path : String) : m (Except ConfigError Config) := do
  match ← readText path with
  | .error e => return .error (.io e.message)
  | .ok text => return Config.parse text

/-- A configuration written to a file. -/
def saveConfig (path : String) (c : Config) : m (Except ConfigError Unit) := do
  return (← writeText path c.text).mapError fun e => .io e.message

/-- The save state of a file. -/
def loadState (path : String) : m (Except StateError SaveState) := do
  match ← readText path with
  | .error e => return .error (.io e.message)
  | .ok text => return SaveState.load text

/-- A save state written to a file. -/
def saveState (path : String) (s : SaveState) : m (Except StateError Unit) := do
  return (← writeText path s.text).mapError fun e => .io e.message

end Host

end AppleII
