import AppleII.Processor.Instruction
import Std.Data.ExtTreeMap

/-!
# Breakpoints

A debugger stops execution at the addresses of its enabled breakpoints, and, when a step out is armed,
after the return that leaves the subroutine.
-/

namespace AppleII

structure Breakpoint where
  address : UInt16
  enabled : Bool := true
  hitCount : Nat := 0
  /-- The breakpoint goes away when it is hit. -/
  once : Bool := false
  deriving DecidableEq, Repr, Inhabited

/-- The breakpoints by their addresses, and the stack pointer from which a step out started. -/
structure Debugger where
  breakpoints : Std.ExtTreeMap UInt16 Breakpoint := ∅
  /-- A return that leaves the stack pointer above this one ends the step out. -/
  stepOutFrom : UInt8 := 0
  stepOutArmed : Bool := false

namespace Debugger

/-- A lasting breakpoint; one that is there is enabled and made lasting. -/
def addBreakpoint (d : Debugger) (address : UInt16) : Debugger :=
  { d with breakpoints := d.breakpoints.alter address fun
      | some b => some { b with enabled := true, once := false }
      | none => some { address } }

/-- A breakpoint for one hit; one that is there stays as it is. -/
def runTo (d : Debugger) (address : UInt16) : Debugger :=
  { d with breakpoints := d.breakpoints.alter address fun
      | some b => some b
      | none => some { address, once := true } }

/-- A breakpoint removed, if there is one. -/
def removeBreakpoint (d : Debugger) (address : UInt16) : Bool × Debugger :=
  (d.breakpoints[address]?.isSome, { d with breakpoints := d.breakpoints.erase address })

/-- A breakpoint enabled or disabled, if there is one. -/
def toggleBreakpoint (d : Debugger) (address : UInt16) : Bool × Debugger :=
  (d.breakpoints[address]?.isSome,
    { d with breakpoints := d.breakpoints.modify address fun b => { b with enabled := !b.enabled } })

/-- All breakpoints removed. -/
def clearBreakpoints (d : Debugger) : Debugger := { d with breakpoints := ∅ }

/-- The breakpoints in the order of their addresses. -/
def list (d : Debugger) : List Breakpoint := d.breakpoints.toList.map (·.2)

/-- The debugger after a hit at an address; none where no enabled breakpoint stands. -/
def hit? (d : Debugger) (pc : UInt16) : Option Debugger :=
  match d.breakpoints[pc]? with
  | some b =>
    if b.enabled then
      some { d with breakpoints :=
        if b.once then d.breakpoints.erase pc
        else d.breakpoints.insert pc { b with hitCount := b.hitCount + 1 } }
    else none
  | none => none

/-- A step out from the subroutine that runs at a stack pointer. -/
def armStepOut (d : Debugger) (sp : UInt8) : Debugger :=
  { d with stepOutFrom := sp, stepOutArmed := true }

def disarmStepOut (d : Debugger) : Debugger := { d with stepOutArmed := false }

/-- Whether the step that executed `opcode` and left the stack pointer at `sp` ends a step out. -/
def returnReached (d : Debugger) (opcode : Option UInt8) (sp : UInt8) : Bool :=
  d.stepOutArmed && opcode == some Processor.Instruction.retOpcode && decide (d.stepOutFrom < sp)

end Debugger

end AppleII
