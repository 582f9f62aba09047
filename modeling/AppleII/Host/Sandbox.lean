import AppleII.Host.Basic

/-!
# Sandboxes

A sandbox is a host made of values: a directory of files, and the lines that were printed.  The
directories around it and the root hold no other files, until one is written.  The components of a path
start at the sandbox: each `..` at their front leads to the directory around, and a `/` at their front to
the root.  Its time is always ripe for the next frame.
-/

namespace AppleII

structure Sandbox where
  /-- The files by the components of their paths. -/
  files : List (List String × Array UInt8) := []
  output : Array String := #[]
  errors : Array String := #[]
  /-- The most ticks that are waited for. -/
  patience : Nat
  deriving Inhabited

namespace Sandbox

/-- What a path leads to. -/
inductive Place where
  | file (bytes : Array UInt8)
  | directory
  | nothing
  deriving DecidableEq, Repr

/-- The most bytes of a name. -/
def longestName : Nat := 255

/-- The most bytes of a path. -/
def longestPath : Nat := 4095

/-- Whether components lead to the sandbox itself, to a directory around it, or to the root. -/
def isAround (components : List String) : Bool :=
  components.all (· == "..") || components == ["/"]

/-- What the components of a path lead to. -/
def look (s : Sandbox) (components : List String) : Place :=
  match s.files.lookup components with
  | some bytes => .file bytes
  | none =>
    if isAround components || s.files.any (fun f => components.isPrefixOf f.1) then .directory
    else .nothing

/-- The directory around a file or directory; the root is around itself. -/
def up (components : List String) : List String :=
  if components == ["/"] then components
  else if components.all (· == "..") then ".." :: components
  else components.dropLast

/-- One component further down, from a directory. -/
def descend (s : Sandbox) (components : List String) (next : String) :
    Except FileError (List String) :=
  match s.look components with
  | .nothing => .error .missing
  | .file _ => .error .notDirectory
  | .directory =>
    if next = "" ∨ next = "." then .ok components
    else if next = ".." then .ok (up components)
    else if longestName < next.utf8ByteSize then .error .tooLong
    else .ok (components ++ [next])

/-- Why a path leads nowhere, whatever files there are. -/
def refusal? (path : String) : Option FileError :=
  if FilePath.hasNul path then some .nulInPath
  else if path.isEmpty then some .missing
  else if longestPath < path.utf8ByteSize then some .tooLong
  else none

/-- The components that the names in a path lead to, from the root if the path starts there; what they
lead to themselves is left open. -/
def walk (s : Sandbox) (path : String) (names : List String) : Except FileError (List String) :=
  match refusal? path with
  | some e => .error e
  | none => names.foldlM s.descend (if FilePath.isAbsolute path then ["/"] else [])

/-- The contents of a file. -/
def read (s : Sandbox) (path : String) : Except FileError (Array UInt8) := do
  match s.look (← s.walk path (path.splitOn "/")) with
  | .file bytes => return bytes
  | .directory => throw .isDirectory
  | .nothing => throw .missing

/-- A file with new contents.  A path with a slash at its end can only be one of a directory, as soon as
there is a directory to hold it. -/
def write (s : Sandbox) (path : String) (bytes : Array UInt8) : Except FileError Sandbox := do
  let names := path.splitOn "/"
  let backwards := names.reverse.dropWhile (·.isEmpty)
  if backwards == names.reverse then
    let components ← s.walk path names
    match s.look components with
    | .directory => throw .isDirectory
    | _ => return { s with files := (components, bytes) :: s.files.filter (·.1 != components) }
  else
    let _ ← s.walk path (backwards.tail.reverse ++ ["."])
    throw .isDirectory

/-- A sandbox that holds files under some paths. -/
def ofFiles (files : List (String × Array UInt8)) (patience : Nat) : Sandbox where
  files := files.map fun (path, bytes) => (path.splitOn "/", bytes)
  patience

/-- At most so many ticks, until the latest panel satisfies a condition. -/
def tickUntil (stop : Panel → Bool) : Nat → Scheduler → Scheduler
  | 0, s => s
  | patience + 1, s =>
    let s := (s.tick (s.previousTime + s.speedMode.refresh)).2
    if stop s.latest then s else tickUntil stop patience s

/-- Runs in a sandbox. -/
abbrev Run := StateM Sandbox

instance : Host Run where
  readFile path := do return (← get).read path
  writeFile path bytes := modifyGet fun s =>
    match s.write path bytes with
    | .ok s => (.ok (), s)
    | .error e => (.error e, s)
  print line := modify fun s => { s with output := s.output.push line }
  warn line := modify fun s => { s with errors := s.errors.push line }
  configPath := pure "/a2core_config.json"
  runUntil stop scheduler := do return tickUntil stop (← get).patience scheduler

end Sandbox

end AppleII
