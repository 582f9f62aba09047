import AppleII.CommandLine.FunctionalTest

/-!
# The program

The computer that the program runs on as a host, and `main`: the functional test when the program goes
by the name of `cpu_test`, and the emulator otherwise.
-/

namespace AppleII

/-- The number of an error of the computer, which some calls negate. -/
def errorNumber (code : UInt32) : UInt32 := if code < 0x80000000 then code else 0 - code

/-- Why the computer cannot read or write a file. -/
def FileError.ofError (e : IO.Error) : FileError :=
  match e with
  | .noFileOrDirectory .. => .missing
  | .permissionDenied .. => .denied
  | .inappropriateType _ code _ =>
    if errorNumber code = 20 then .notDirectory
    else if errorNumber code = 21 then .isDirectory
    else .other (toString e)
  | .invalidArgument _ code _ => if errorNumber code = 36 then .tooLong else .other (toString e)
  | e => .other (toString e)

/-- Milliseconds between two looks at a scheduler that has nothing to do, or that waits for the time of
the next frame. -/
def pause (s : Scheduler) : UInt32 := if s.state == .idle || s.state == .paused then 20 else 1

/-- The scheduler ticks at the computer's own times. -/
partial def runAtHostTime (stop : Panel → Bool) (s : Scheduler) : IO Scheduler := do
  let now ← IO.monoNanosNow
  let (ran, s) := { s with hostTime := now }.tick now
  if stop s.latest then return s
  unless ran do IO.sleep (pause s)
  runAtHostTime stop s

instance : Host IO where
  readFile path := do
    if FilePath.hasNul path then return .error .nulInPath
    try return .ok (← IO.FS.readBinFile path).data
    catch e => return .error (.ofError e)
  writeFile path bytes := do
    if FilePath.hasNul path then return .error .nulInPath
    try
      IO.FS.writeBinFile path ⟨bytes⟩
      return .ok ()
    catch e => return .error (.ofError e)
  print := IO.println
  warn := IO.eprintln
  configPath := do
    let path := toString (← IO.appPath)
    return FilePath.withFileName path "a2core_config.json"
  runUntil := runAtHostTime

end AppleII

open AppleII.CommandLine in
/-- The program. -/
def main (args : List String) : IO UInt32 := do
  let name := AppleII.FilePath.fileName? (toString (← IO.appPath))
  if name == some "cpu_test" then FunctionalTest.execute args else Emulator.execute args
