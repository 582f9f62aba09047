import AppleII.Base64
import AppleII.Disk.Image
import AppleII.Processor.Registers
import Std.Data.ExtTreeMap

/-!
# Save states

A save state holds all that determines what a machine does next, apart from its ROMs: the processor,
the soft switches by name, RAM, and the two drives with their disks.  RAM and disks are kept as Base64
texts.  Nothing here is checked before a machine is restored.
-/

namespace AppleII

structure ProcessorState where
  regs : Processor.Registers
  totalCycles : Nat
  irq : Bool
  nmi : Bool
  previousNmi : Bool := false
  deriving DecidableEq, Repr

structure DriveState where
  fileName : String
  format : Option Disk.Format
  motorRunning : Bool
  writeMode : Bool
  writeProtected : Bool
  halfTrack : Nat
  previousHalfTrack : Nat
  phase : Nat
  trackStarts : List Nat
  trackBits : List Nat
  location : Nat
  dirty : Bool
  /-- The container, as a Base64 text. -/
  data : String
  deriving DecidableEq, Repr

/-- The disk controller in a save state. -/
structure DiskState where
  current : Nat
  previousCycle : Nat
  dataRegister : UInt8
  motorOffAt : Option Nat
  first : DriveState
  second : DriveState
  deriving DecidableEq, Repr

structure SaveState where
  version : Nat
  cpu : ProcessorState
  /-- The soft switches by their names. -/
  switches : Std.ExtTreeMap String Bool
  keyboardLatch : UInt8
  /-- RAM, as a Base64 text. -/
  memory : String
  disk : DiskState
  clock : Nat

/-- What is inconsistent in the state of a drive. -/
inductive DriveFault where
  | noSuchDrive
  | startEntries (n : Nat)
  | lengthEntries (n : Nat)
  | halfTrack (h : Nat)
  | phase (p : Nat)
  | trackOutside (h : Nat)
  deriving DecidableEq, Repr

/-- The text of a fault. -/
def DriveFault.message : DriveFault → String
  | .noSuchDrive => "selected drive does not exist"
  | .startEntries n => s!"{n} track start entries"
  | .lengthEntries n => s!"{n} track length entries"
  | .halfTrack h => s!"half track {h} out of range"
  | .phase p => s!"stepper phase {p}"
  | .trackOutside h => s!"track {h} lies outside the image"

/-- Why a save state is refused. -/
inductive StateError where
  | version (found expected : Nat)
  | base64 (e : Base64.Error)
  | memorySize (expected actual : Nat)
  | drive (drive : Nat) (fault : DriveFault)
  /-- A sum outgrew its word.  Nothing is told to the caller: where sums are checked the program stops,
  and where they are not a wrong sum is taken for the right one. -/
  | overflow
  /-- The text is no JSON document, or not one of a save state. -/
  | json
  /-- The file cannot be read or written. -/
  | io (reason : String)
  deriving DecidableEq, Repr

/-- The text of an error.  What is wrong with a JSON document is not told. -/
def StateError.message : StateError → String
  | .version found expected => s!"Unsupported save state version {found} (expected {expected})"
  | .base64 e => "Corrupt base64 payload: " ++ e.message
  | .memorySize expected actual => s!"Memory image is {actual} bytes, expected {expected}"
  | .drive d fault => s!"Drive {d} state is inconsistent: " ++ fault.message
  | .overflow => "attempt to add with overflow"
  | .json => "Save state JSON error"
  | .io reason => "Save state I/O error: " ++ reason

namespace SaveState

/-- The version that is written and read. -/
def currentVersion : Nat := 1

/-- Refused with an error unless a condition holds. -/
def ensure (p : Prop) [Decidable p] (e : StateError) : Except StateError Unit :=
  if p then .ok () else .error e

@[simp] theorem ensure_eq_ok_iff {p : Prop} [Decidable p] {e : StateError} {u : Unit} :
    ensure p e = .ok u ↔ p := by
  by_cases h : p <;> simp [ensure, h]

/-- Other versions are refused. -/
def checkVersion (s : SaveState) : Except StateError Unit :=
  ensure (s.version = currentVersion) (.version s.version currentVersion)

/-- The bytes of a Base64 text in a save state. -/
def decodeBytes (text : String) : Except StateError (Array UInt8) :=
  (Base64.decode text).mapError .base64

end SaveState

end AppleII
