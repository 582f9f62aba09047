import AppleII.CommandLine.Emulator

/-!
# The command line of the functional test

The command runs a memory image of 64 KiB on a processor without a board, until an instruction leads to
itself.  The test is passed when that happens at the address of success.
-/

namespace AppleII.CommandLine.FunctionalTest

open Host (print warn)
open Processor (FlatMemory)
open Text (parseNat? upperHex)

structure Options where
  image : String := ""
  cmos : Bool := false
  start : UInt16 := 0x0400
  success : UInt16 := 0
  maxCycles : Nat := 200000000
  deriving DecidableEq, Repr, Inhabited

/-- An address in hexadecimal, after dollar signs. -/
def parseAddress? (s : String) : Option UInt16 :=
  (parseNat? 16 0xFFFF (.ofList (s.toList.dropWhile (· == '$')))).map Nat.toUInt16

def grammar : Grammar Options where
  name := "cpu_test"
  about := "Run a flat 64KB 6502 functional test image"
  operand := some {
    name := "IMAGE", help := "テストバイナリ（$0000 からロード）",
    store := fun v o => { o with image := v } }
  start := {}
  options := [
    { long := "cmos", help := "65C02 として実行", store := fun _ o => some { o with cmos := true } },
    { long := "start", valueName := some "START", defaultText := some "0400",
      help := "開始アドレス（16進）",
      store := fun v o => (parseAddress? v).map fun a => { o with start := a } },
    { long := "success", valueName := some "SUCCESS", required := true,
      help := "成功時に停止するアドレス（16進）",
      store := fun v o => (parseAddress? v).map fun a => { o with success := a } },
    { long := "max-cycles", valueName := some "MAX_CYCLES", defaultText := some "200000000",
      help := "サイクル上限",
      store := fun v o => (parseNat? 10 0xFFFFFFFFFFFFFFFF v).map fun n => { o with maxCycles := n } }]

/-- How a test ended. -/
inductive Ending where
  /-- The instruction at an address led to itself. -/
  | trap (pc : UInt16) (cycles : Nat)
  /-- There were too many cycles. -/
  | timeout (pc : UInt16) (cycles : Nat)
  deriving DecidableEq, Repr

/-- Steps until an instruction leads to itself or `limit` cycles have gone by.  A step takes a cycle or
more, so that `limit + 1` rounds are enough. -/
def runTest (limit : Nat) : Nat → Nat → Processor → FlatMemory → Ending × FlatMemory
  | 0, cycles, cpu, memory => (.timeout cpu.regs.pc cycles, memory)
  | fuel + 1, cycles, cpu, memory =>
    let pc := cpu.regs.pc
    let (n, cpu, memory) := cpu.step memory
    let cycles := cycles + n
    if cpu.regs.pc = pc then (.trap pc cycles, memory)
    else if limit ≤ cycles then (.timeout cpu.regs.pc cycles, memory)
    else runTest limit fuel cycles cpu memory

/-- The memory of a test: an image from address 0 on, cut at 64 KiB, with the reset vector set. -/
def memoryOf (image : Array UInt8) (start : UInt16) : FlatMemory :=
  let m := FlatMemory.zeros.load 0 (image.extract 0 0x10000)
  (m.set 0xFFFC start.toUInt8).set 0xFFFD (start >>> 8).toUInt8

/-- Four lines of 16 bytes of memory, from the line before an address on. -/
def dump (memory : FlatMemory) (address : UInt16) : List String :=
  let start := (address.toNat - 16) / 16 * 16
  (List.range 4).map fun row =>
    let line := start + 16 * row
    let bytes := (List.range 16).map fun column => upperHex 2 (memory.get (line + column).toUInt16).toNat
    "  $" ++ upperHex 4 line ++ ": " ++ " ".intercalate bytes

variable {m : Type → Type} [Monad m] [Host m]

def run (o : Options) : m UInt32 := do
  match ← Host.readFile o.image with
  | .error e =>
    warn s!"Error loading {o.image}: {e.message}"
    return 1
  | .ok image =>
    let model : Processor.Model := if o.cmos then .cmos else .nmos
    let (cpu, memory) := ({ model } : Processor).reset (memoryOf image o.start)
    print s!"{Emulator.modelTitle model}: starting at ${upperHex 4 cpu.regs.pc.toNat}"
    match runTest o.maxCycles (o.maxCycles + 1) 0 cpu memory with
    | (.trap pc cycles, memory) =>
      print s!"Trap at ${upperHex 4 pc.toNat} after {cycles} cycles"
      if pc = o.success then
        print "*** TEST PASSED ***"
        return 0
      else
        print "*** TEST FAILED ***"
        (dump memory pc).forM print
        return 1
    | (.timeout pc cycles, _) =>
      print s!"Timeout after {cycles} cycles, PC=${upperHex 4 pc.toNat}"
      return 1

/-- The command line of the functional test: the exit code. -/
def execute (words : List String) : m UInt32 := grammar.execute run words

end AppleII.CommandLine.FunctionalTest
