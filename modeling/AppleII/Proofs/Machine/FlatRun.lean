import AppleII.Proofs.Disk.Registers
import AppleII.Proofs.Machine.Course
import AppleII.Proofs.Machine.Reset
import AppleII.Proofs.Memory.Banks
import AppleII.Proofs.Processor.Execution
import AppleII.Proofs.Processor.Simulation

/-!
# Programs in flat memory and in the machine

A program that runs in flat memory runs in the same way in a machine whose main memory and ROM hold the same bytes, as
long as it leaves alone the addresses where the machine has no plain memory (`Machine.calls_follow_steps`): what is
found of the processor in flat memory is true of it in the machine.
-/

namespace AppleII

open Processor (Access Bus FlatMemory Logged)

namespace Processor

/-- The access goes to plain memory: reads leave `$C000`–`$CFFF` alone, and writes all from `$C000` on. -/
def Access.Plain : Access → Prop
  | .read address _ => address < 0xC000 ∨ 0xD000 ≤ address
  | .write address _ => address < 0xC000

instance : DecidablePred Access.Plain
  | .read address _ => inferInstanceAs (Decidable (address < 0xC000 ∨ 0xD000 ≤ address))
  | .write address _ => inferInstanceAs (Decidable (address < 0xC000))

section

variable {σ : Type} [Bus σ]

/-- So many steps: what each takes, and the processor and the bus after it. -/
def steps : Nat → Processor → σ → List (Nat × Processor × σ)
  | 0, _, _ => []
  | n + 1, p, s => p.step s :: steps n (p.step s).2.1 (p.step s).2.2

/-- The accesses of so many steps. -/
def runAccesses : Nat → Processor → σ → List Access
  | 0, _, _ => []
  | n + 1, p, s => p.accesses s ++ runAccesses n (p.step s).2.1 (p.step s).2.2

end

end Processor

/-- The switches that would lead an access away from main memory and ROM are off. -/
structure Switches.Plain (sw : Switches) : Prop where
  altZeroPage : sw.isSet .altZeroPage = false
  store80 : sw.isSet .store80 = false
  ramRead : sw.isSet .ramRead = false
  ramWrite : sw.isSet .ramWrite = false
  cardRead : sw.isSet .cardRead = false

/-- Main memory below `$C000` and ROM from `$D000` on hold what flat memory holds there. -/
structure Memory.Mirrors (m : Memory) (mem : FlatMemory) : Prop where
  ram : ∀ address < 0xC000, m.get (.inMain address) = mem.get address
  rom : ∀ address ≥ 0xD000, m.rom[address.toNat - 0xC000]? = some (mem.get address)

namespace Machine

/-- Attempts to execute an instruction, each told whether to ignore breakpoints: what came of each, and the machine
after it. -/
def calls : List Bool → Machine → List (StepResult × Machine)
  | [], _ => []
  | ignoreBreakpoints :: rest, m =>
    m.processInstruction ignoreBreakpoints :: calls rest (m.processInstruction ignoreBreakpoints).2

/-- What came of a call is what came of a step in flat memory, and the machine `m` is undisturbed beside it: the
processor is the same with its registers and its count of cycles, and so are the bytes below `$C000`. -/
structure Follows (m : Machine) (call : StepResult × Machine) (step : Nat × Processor × FlatMemory) : Prop where
  cycles : call.1 = .cycles step.1
  cpu : call.2.cpu = step.2.1
  ram : ∀ address < 0xC000, call.2.memory.get (.inMain address) = step.2.2.get address
  /-- Auxiliary memory and the language cards stay. -/
  banks : ∀ b ≠ .main, call.2.memory.bank b = m.memory.bank b
  switches : call.2.switches = m.switches
  images : ∀ i, (call.2.disk.drives.get i).image = (m.disk.drives.get i).image

end Machine

/-! ## Switches after a reset -/

theorem Switches.plain_reset : Switches.reset.Plain := by
  constructor <;> decide +kernel

theorem Machine.plain_reset (m : Machine) : m.reset.switches.Plain := by
  rw [switches_reset]
  constructor <;> decide +kernel

/-! ## Plain accesses -/

section

variable {m : Memory} {address : UInt16} {mem : FlatMemory}

theorem Cell.select?_of_plain {sw : Switches} (hsw : sw.Plain) (isWrite : Bool) (h : address < 0xC000) :
    Cell.select? sw isWrite address = some (.inMain address) := by
  have haux : Cell.usesAux sw isWrite address = false := by
    unfold Cell.usesAux
    rw [hsw.altZeroPage, hsw.store80, Bool.false_and, if_neg Bool.false_ne_true]
    cases isWrite <;> simp [hsw.ramRead, hsw.ramWrite]
  rw [Cell.select?, if_pos h, haux]
  rfl

theorem Memory.poke_of_plain (hsw : m.switches.Plain) (h : address < 0xC000) (v : UInt8) :
    m.poke address v = m.set (.inMain address) v := by
  rw [poke, Cell.select?_of_plain hsw true h]

/-- A cell of main memory is in no other bank. -/
theorem Memory.bank_set_inMain (m : Memory) (address : UInt16) (v : UInt8) {b : Bank} (h : b ≠ .main) :
    (m.set (.inMain address) v).bank b = m.bank b := by
  have haddress := address.toNat_lt
  refine Array.ext_getElem? fun i => ?_
  rcases Nat.lt_or_ge i b.size with hi | hi
  · rw [getElem?_bank _ hi, getElem?_bank _ hi]
    refine getElem?_ram_set_of_ne m v fun heq => h ?_
    have hmain : Bank.main.start + address.toNat = b.start + i := (Nat.zero_add _).trans heq
    exact (Bank.eq_of_start_add haddress hi hmain).1.symm
  · rw [getElem?_bank_of_size_le _ hi, getElem?_bank_of_size_le _ hi]

theorem Memory.Mirrors.set (h : m.Mirrors mem) (haddress : address < 0xC000) (v : UInt8) :
    (m.set (.inMain address) v).Mirrors (mem.set address v) where
  ram a ha := by
    by_cases heq : address = a
    · rw [heq, get_set_self, FlatMemory.get_set_self]
    · have hcell : Cell.inMain address ≠ Cell.inMain a := fun hcell =>
        heq (UInt16.toNat_inj.mp (Fin.mk.inj hcell))
      rw [get_set_of_ne _ _ hcell, FlatMemory.get_set_of_ne _ _ heq]
      exact h.ram a ha
  rom a ha := by
    have hne : address ≠ a := fun heq => UInt16.not_lt.mpr ha (heq ▸ UInt16.lt_of_lt_of_le haddress (by decide))
    rw [FlatMemory.get_set_of_ne _ _ hne]
    exact h.rom a ha

end

/-! ## The board along flat memory -/

/-- A board that has gone on from `b₀` beside flat memory: main memory has changed in the same way, and nothing else
has. -/
structure Board.Beside (b₀ : Board) (mem : FlatMemory) (b : Board) : Prop where
  board : ∃ ram, b = { b₀ with memory := { b₀.memory with ram } }
  mirrors : b.memory.Mirrors mem
  banks : ∀ bank ≠ .main, b.memory.bank bank = b₀.memory.bank bank

namespace Board

variable {b₀ b : Board} {mem : FlatMemory} {address : UInt16}

theorem Beside.switches (h : b₀.Beside mem b) : b.memory.switches = b₀.memory.switches := by
  obtain ⟨ram, rfl⟩ := h.board
  rfl

/-- A plain read gives the byte of flat memory. -/
theorem Beside.read (h : b₀.Beside mem b) (hsw : b₀.memory.switches.Plain)
    (haddress : address < 0xC000 ∨ 0xD000 ≤ address) : b.read address = (mem.get address, b) := by
  have hplain : b.memory.switches.Plain := by rwa [h.switches]
  rcases haddress with hram | hrom
  · have hio : Memory.isIoPage address = false := Memory.isIoPage_eq_false (.inl hram)
    rw [Board.read, hio, if_neg Bool.false_ne_true, Memory.peek, Cell.select?_of_plain hplain false hram]
    exact congrArg (·, b) (h.mirrors.ram address hram)
  · have hio : Memory.isIoPage address = false :=
      Memory.isIoPage_eq_false (.inr (UInt16.lt_of_lt_of_le (by decide) hrom))
    have hindex : address.toNat % romSize = address.toNat - 0xC000 := by
      have hlt := address.toNat_lt
      simp only [UInt16.le_iff_toNat_le, UInt16.reduceToNat] at hrom
      unfold romSize
      omega
    have hbyte := h.mirrors.rom address hrom
    rw [← hindex, Vector.getElem?_eq_getElem (Nat.mod_lt _ (by decide))] at hbyte
    rw [Board.read_rom hplain.cardRead hio hrom]
    exact congrArg (·, b) (Option.some.inj hbyte)

/-- A plain write changes the byte of flat memory. -/
theorem Beside.write (h : b₀.Beside mem b) (hsw : b₀.memory.switches.Plain) (haddress : address < 0xC000) (v : UInt8) :
    b₀.Beside (mem.set address v) (b.write address v) := by
  have hplain : b.memory.switches.Plain := by rwa [h.switches]
  have hio : Memory.isIoPage address = false := Memory.isIoPage_eq_false (.inl haddress)
  have hwrite : b.write address v = { b with memory := b.memory.set (.inMain address) v } := by
    rw [Board.write, hio, if_neg Bool.false_ne_true, Memory.poke_of_plain hplain haddress]
  rw [hwrite]
  refine ⟨?_, h.mirrors.set haddress v, fun bank hbank => ?_⟩
  · obtain ⟨ram, rfl⟩ := h.board
    exact ⟨_, rfl⟩
  · exact (b.memory.bank_set_inMain address v hbank).trans (h.banks bank hbank)

/-- An access was logged that is not plain. -/
def Strayed (l : Logged FlatMemory) : Prop := ∃ access ∈ l.log.toList, ¬access.Plain

theorem strayed_push (l : Logged FlatMemory) (access : Access) (mem : FlatMemory) :
    Strayed ⟨mem, l.log.push access⟩ ↔ Strayed l ∨ ¬access.Plain := by
  simp [Strayed, or_and_right, exists_or]

/-- The board goes beside flat memory until an access is not plain. -/
theorem simulation_unless (hsw : b₀.memory.switches.Plain) :
    Bus.SimulationUnless Strayed fun (l : Logged FlatMemory) b => b₀.Beside l.bus b where
  keeps := ⟨fun h _ => (strayed_push _ _ _).mpr (.inl h), fun h _ _ => (strayed_push _ _ _).mpr (.inl h)⟩
  read {l b} h address := by
    by_cases hplain : address < 0xC000 ∨ 0xD000 ≤ address
    · have hread : Bus.read b address = (l.bus.get address, b) := h.read hsw hplain
      rw [hread]
      exact .inr ⟨rfl, h⟩
    · exact .inl ((strayed_push _ _ _).mpr (.inr hplain))
  write {l b} h address v := by
    by_cases hplain : address < 0xC000
    · exact .inr (h.write hsw hplain v)
    · exact .inl ((strayed_push _ _ _).mpr (.inr hplain))

end Board

/-! ## One instruction -/

namespace Machine

variable {p : Processor} {mem : FlatMemory} {m : Machine}

/-- A step whose accesses are plain is the same on the board beside. -/
theorem step_beside (hcpu : { p with lastOpcode := m.cpu.lastOpcode } = m.cpu) (hmirrors : m.memory.Mirrors mem)
    (hsw : m.switches.Plain) (hplain : ∀ access ∈ p.accesses mem, access.Plain) :
    (m.cpu.step m.board).1 = (p.step mem).1 ∧ (m.cpu.step m.board).2.1 = (p.step mem).2.1 ∧
      m.board.Beside (p.step mem).2.2 (m.cpu.step m.board).2.2 := by
  have hstart : m.board.Beside mem m.board := ⟨⟨_, rfl⟩, hmirrors, fun _ _ => rfl⟩
  obtain ⟨hcycles, hprocessor, hbus⟩ := p.step_logged mem #[]
  rw [← hcycles, ← hprocessor, ← hbus]
  have hsame := Processor.step_related_unless (Board.simulation_unless hsw) p m.cpu.lastOpcode
    (s := (⟨mem, #[]⟩ : Logged FlatMemory)) hstart
  rw [hcpu] at hsame
  rcases hsame with ⟨access, haccess, hstrayed⟩ | ⟨hcycles, hprocessor, hbeside⟩
  · exact absurd (hplain access haccess) hstrayed
  · exact ⟨hcycles.symm, hprocessor.symm, hbeside⟩

/-- With nothing to stop it a call executes an instruction. -/
theorem processInstruction_of_free (hbreakpoints : m.debugger.breakpoints = ∅)
    (hstepOut : m.debugger.stepOutArmed = false) (ignoreBreakpoints : Bool) :
    m.processInstruction ignoreBreakpoints = (.cycles (m.cpu.step m.board).1, m.stepped) := by
  have htrue : m.processInstruction true = (.cycles (m.cpu.step m.board).1, m.stepped) := by
    rw [processInstruction_true, endsStepOut_of_unarmed hstepOut, if_neg Bool.false_ne_true]
    rfl
  cases ignoreBreakpoints with
  | true => exact htrue
  | false => rw [processInstruction_of_not_stops (stops_of_empty hbreakpoints), htrue]

/-- A call is followed by the machine beside flat memory, which can go on in the same way. -/
theorem follows_step (hcpu : { p with lastOpcode := m.cpu.lastOpcode } = m.cpu) (hmirrors : m.memory.Mirrors mem)
    (hsw : m.switches.Plain) (hbreakpoints : m.debugger.breakpoints = ∅)
    (hstepOut : m.debugger.stepOutArmed = false) (hplain : ∀ access ∈ p.accesses mem, access.Plain)
    (ignoreBreakpoints : Bool) :
    m.Follows (m.processInstruction ignoreBreakpoints) (p.step mem) ∧ m.stepped.memory.Mirrors (p.step mem).2.2 := by
  obtain ⟨hcycles, hprocessor, hbeside⟩ := step_beside hcpu hmirrors hsw hplain
  rw [processInstruction_of_free hbreakpoints hstepOut]
  refine ⟨⟨congrArg _ hcycles, hprocessor, hbeside.mirrors.ram, hbeside.banks, hbeside.switches, fun i => ?_⟩,
    hbeside.mirrors⟩
  obtain ⟨ram, hboard⟩ := hbeside.board
  have hdisk : (m.cpu.step m.board).2.2.disk = m.disk := by
    rw [hboard]
    rfl
  have hquiet := (m.cpu.step m.board).2.2.disk.quiet_update
    (Count.add (m.cpu.step m.board).2.2.clock (m.cpu.step m.board).1) (m.cpu.step m.board).2.2.memory.switches i
  exact hquiet.image.trans (by rw [hdisk])

/-- What is undisturbed beside a machine that was undisturbed beside another is undisturbed beside that one. -/
theorem Follows.of_step {m m' : Machine} {result : StepResult} {step₀ : Nat × Processor × FlatMemory}
    (h₀ : m.Follows (result, m') step₀) {call : StepResult × Machine} {step : Nat × Processor × FlatMemory}
    (h : m'.Follows call step) : m.Follows call step :=
  ⟨h.cycles, h.cpu, h.ram, fun b hb => (h.banks b hb).trans (h₀.banks b hb), h.switches.trans h₀.switches,
    fun i => (h.images i).trans (h₀.images i)⟩

/-- **A run in flat memory is a run of the machine.** Let flat memory hold what main memory holds below `$C000` and ROM
from `$D000` on, let the switches that lead elsewhere be off, as a reset leaves them, and let no breakpoint and no step
out stop the machine.  As long as a processor with the same state makes plain accesses only, every call executes what
it does in flat memory, in as many cycles: the registers, the count of cycles, the last opcode and the bytes below
`$C000` agree after each of them, and auxiliary memory, language cards, switches and disk images stay. -/
theorem calls_follow_steps (p : Processor) (mem : FlatMemory) (m : Machine)
    (hcpu : { p with lastOpcode := m.cpu.lastOpcode } = m.cpu) (hmirrors : m.memory.Mirrors mem)
    (hsw : m.switches.Plain) (hbreakpoints : m.debugger.breakpoints = ∅)
    (hstepOut : m.debugger.stepOutArmed = false) (flags : List Bool)
    (hplain : ∀ access ∈ p.runAccesses flags.length mem, access.Plain) :
    List.Forall₂ m.Follows (m.calls flags) (p.steps flags.length mem) := by
  induction flags generalizing p mem m with
  | nil => exact .nil
  | cons ignoreBreakpoints flags ih =>
    have hfirst : ∀ access ∈ p.accesses mem, access.Plain := fun access haccess =>
      hplain access (List.mem_append_left _ haccess)
    have hrest : ∀ access ∈ (p.step mem).2.1.runAccesses flags.length (p.step mem).2.2, access.Plain :=
      fun access haccess => hplain access (List.mem_append_right _ haccess)
    obtain ⟨hfollows, hnext⟩ := follows_step hcpu hmirrors hsw hbreakpoints hstepOut hfirst ignoreBreakpoints
    rw [processInstruction_of_free hbreakpoints hstepOut] at hfollows
    unfold calls
    rw [processInstruction_of_free hbreakpoints hstepOut]
    have hothers := ih (p.step mem).2.1 (p.step mem).2.2 m.stepped
      (by rw [hfollows.cpu]) hnext (hfollows.switches ▸ hsw) hbreakpoints hstepOut hrest
    exact .cons hfollows (hothers.imp fun _ _ h => hfollows.of_step h)

/-- Flat memory with the ROM of a machine that was given none. -/
theorem exists_mirrors : ∃ mem : FlatMemory, Memory.Mirrors {} mem := by
  refine ⟨⟨Vector.ofFn fun i => if i.val < 0xC000 then 0 else 0xFF⟩, fun a ha => ?_, fun a ha => ?_⟩
  · have ha' : a.toNat < 0xC000 := ha
    simp [Memory.get, FlatMemory.get, ha']
  · have ha' : 0xD000 ≤ a.toNat := ha
    have hlt := a.toNat_lt
    have hrom : ¬ a.toNat < 0xC000 := by omega
    have hindex : a.toNat - 0xC000 < romSize := by unfold romSize; omega
    simp [FlatMemory.get, hrom, Vector.getElem?_eq_getElem hindex]

/-- `STA $10` at `$0300`. -/
theorem calls_follow_steps_store :
    let m : Machine :=
      { cpu := { model := .nmos, regs := { Processor.Registers.powerUp with a := 7, pc := 0x0300 } }
        board.memory := (Memory.set {} (.inMain 0x0300) 0x85).set (.inMain 0x0301) 0x10 }
    ∃ m', m.calls [false] = [(.cycles 3, m')] ∧ m'.memory.get (.inMain 0x10) = 7 := by
  intro m
  obtain ⟨mem, hmirrors, hopcode, hoperand⟩ :
      ∃ mem, m.memory.Mirrors mem ∧ mem.get 0x0300 = 0x85 ∧ mem.get 0x0301 = 0x10 := by
    obtain ⟨empty, hempty⟩ := exists_mirrors
    refine ⟨_, (hempty.set (by decide) 0x85).set (by decide) 0x10, ?_, FlatMemory.get_set_self _ _ _⟩
    rw [FlatMemory.get_set_of_ne _ _ (by decide), FlatMemory.get_set_self]
  have hexecuted {σ : Type} [Bus σ] (bus : σ) (hop : (Bus.read bus 0x0300).1 = 0x85)
      (hop' : (Bus.read (Bus.read bus 0x0300).2 0x0301).1 = 0x10) : m.cpu.executed bus =
        ⟨{ m.cpu.regs with pc := 0x0302 },
          Bus.write (Bus.read (Bus.read bus 0x0300).2 0x0301).2 0x0010 7, 3⟩ := by
    have hdecode : Processor.Instruction.decode m.cpu.model 0x85 = .write (.register .a) .zeroPage := rfl
    unfold Processor.executed
    show (Processor.Exec.execute m.cpu.model (Processor.Instruction.decode m.cpu.model (Bus.read bus 0x0300).1) _).2 = _
    rw [hop, hdecode]
    show (⟨_, Bus.write _ (UInt8.toUInt16 (Bus.read (Bus.read bus 0x0300).2 0x0301).1) _, _⟩ : Processor.Datapath σ) = _
    rw [hop']
    rfl
  have hdue : m.cpu.due = .instruction := rfl
  have hstep : m.cpu.step mem = (3, { m.cpu with
      regs.pc := 0x0302, totalCycles := 3, lastOpcode := some 0x85 }, mem.set 0x10 7) := by
    rw [Processor.step_instruction _ _ hdue, hexecuted mem (by simp [hopcode]) (by simp [hoperand])]
    have hcount : Count.add 0 3 = 3 := rfl
    simp [m, hopcode, hcount]
  have haccesses : m.cpu.accesses mem = [.read 0x0300 0x85, .read 0x0301 0x10, .write 0x0010 7] := by
    unfold Processor.accesses
    rw [Processor.step_instruction _ _ hdue, hexecuted _ (by simp [hopcode]) (by simp [hoperand])]
    simp [hopcode, hoperand]
  have hplain : ∀ access ∈ m.cpu.runAccesses 1 mem, access.Plain := by
    rw [Processor.runAccesses, Processor.runAccesses, List.append_nil, haccesses]
    decide
  have hrun := calls_follow_steps m.cpu mem m rfl hmirrors Switches.plain_reset rfl rfl [false] hplain
  obtain ⟨hfollows, -⟩ := List.forall₂_cons.mp hrun
  have hbyte := hfollows.ram 0x10 (by decide)
  rw [hstep] at hfollows hbyte
  have hcycles : (m.processInstruction false).1 = .cycles 3 := hfollows.cycles
  refine ⟨(m.processInstruction false).2, ?_, hbyte.trans (FlatMemory.get_set_self _ _ _)⟩
  rw [calls, calls, ← hcycles]

end Machine

end AppleII
