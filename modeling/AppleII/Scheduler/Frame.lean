import AppleII.Scheduler.Basic

/-!
# Frames

At a tick the scheduler runs one frame, if the time for it has come.  Every other frame, from the first
one on, it polls the input device and publishes the panel.  A frame in which the machine halts ends
paused.
-/

namespace AppleII.Scheduler

/-- The cycles of a frame: 262 lines of 65 cycles. -/
def frameCycles : Nat := 17030

/-- The speed of `frames` frames in `elapsed` nanoseconds, in hundredths of the speed of the real
machine; none when no time has gone by. -/
def measure? (frames elapsed : Nat) : Option Nat :=
  let seconds := (elapsed / 1000000000).toFloat + (elapsed % 1000000000).toFloat / 1e9
  let ms := seconds * 1000.0
  if ms > 0.0 then some ((frames.toFloat * 1703.0 / ms).round.toUInt64.toNat) else none

/-- One more frame counted, and the speed measured. -/
def countFrame (s : Scheduler) (now : Nat) : Scheduler :=
  let frames := s.frames + 1
  { s with frames, speed := (measure? frames (now - s.startTime)).getD s.speed }

/-- The input device polled. -/
def pollInput (s : Scheduler) : Scheduler :=
  match s.input with
  | some buttons :: rest => { s with buttons, input := rest }.applyButtons
  | none :: rest => { s with input := rest }
  | [] => s

/-- The snapshot of a frame taken, when one was asked for or is due.  A frame in which the machine
halted does not count for the interval. -/
def takeSnapshot (s : Scheduler) (complete : Bool) : Scheduler :=
  let (due, snapshots) := if complete then s.snapshots.tick else (false, s.snapshots)
  if s.snapshotRequested || due then
    { s with snapshots, snapshotRequested := false, history := s.history.push s.machine.saveState }
  else { s with snapshots }

def runFrame (s : Scheduler) (now : Nat) : Scheduler :=
  let (complete, machine) := s.machine.runFor frameCycles
  let s := { s with machine }
  let s := if complete then s else s.setState .paused
  let s := s.countFrame now
  let s := if s.frames % 2 = 1 then s.pollInput.publish else s
  s.takeSnapshot complete

/-- The time is `now`: whether a frame was run, and the scheduler after it. -/
def tick (s : Scheduler) (now : Nat) : Bool × Scheduler :=
  if now - s.previousTime < s.speedMode.refresh then (false, s)
  else
    let s := { s with previousTime := now }
    match s.state with
    | .idle | .paused => (false, s)
    | .needBoot => (true, (s.boot.setState .running).runFrame now)
    | .needReset => (true, (s.reset.setState .running).runFrame now)
    | .running => (true, s.runFrame now)

end AppleII.Scheduler
