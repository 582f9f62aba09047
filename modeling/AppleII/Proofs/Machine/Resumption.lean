import AppleII.Proofs.Machine.Course
import AppleII.SaveState.Capture

/-!
# Halts at breakpoints

A breakpoint stops a machine before anything happens to it: a halt changes the breakpoints and the mark of a
resumed machine and nothing else (`Machine.Halts`), and a machine that is resumed after it executes its
instruction.  So breakpoints do not show in what a machine executes (`breakpoints_transparent`).
-/

namespace AppleII

namespace Debugger

/-- The debugger after a hit at an address: the breakpoint there is counted, or removed if it was for one hit. -/
structure Hit (d : Debugger) (pc : UInt16) (b : Breakpoint) (d' : Debugger) : Prop where
  there : d.breakpoints[pc]? = some b
  enabled : b.enabled = true
  counted : d'.breakpoints[pc]? = if b.once then none else some { b with hitCount := b.hitCount + 1 }
  others : ∀ address, address ≠ pc → d'.breakpoints[address]? = d.breakpoints[address]?
  stepOutFrom : d'.stepOutFrom = d.stepOutFrom
  stepOutArmed : d'.stepOutArmed = d.stepOutArmed

theorem hit_of_hit? {d d' : Debugger} {pc : UInt16} (h : d.hit? pc = some d') : ∃ b, d.Hit pc b d' := by
  unfold hit? at h
  split at h
  · next b hb =>
    split at h
    · next henabled =>
      cases h
      refine ⟨b, hb, henabled, ?_, fun address hne => ?_, rfl, rfl⟩
      · split <;> simp
      · have hne' : pc ≠ address := hne.symm
        dsimp only
        split <;> simp [Std.ExtTreeMap.getElem?_erase, Std.ExtTreeMap.getElem?_insert, hne']
    · cases h
  · cases h

end Debugger

namespace Machine

/-- The machine with its breakpoints removed. -/
def withoutBreakpoints (m : Machine) : Machine := { m with debugger := m.debugger.clearBreakpoints }

/-- Attempts to execute an instruction, each with its result and the machine after it.  With `resuming` a machine
that halted is resumed before the next one. -/
def attempts (resuming : Bool) : Nat → Machine → List (StepResult × Machine)
  | 0, _ => []
  | k + 1, m =>
    let (result, m') := m.processInstruction false
    (result, m') :: attempts resuming k (if resuming && result == .halted then m'.resume else m')

/-- A machine before and after it halts at a breakpoint. -/
structure Halts (m m' : Machine) : Prop where
  hit : ∃ b, m.debugger.Hit m.cpu.regs.pc b m'.debugger
  frame : m' = { m with debugger := m'.debugger, skipBreakpoint := false }

/-- Attempts of a machine are plain instructions, with a halt before some of them. -/
inductive Interrupted : Machine → List (StepResult × Machine) → List (StepResult × Machine) → Prop
  | done (m : Machine) : Interrupted m [] []
  | executed {m m₁ m₂ : Machine} {n : Nat} {tried plain : List (StepResult × Machine)}
      (same : m₁.saveState = m₂.saveState) (rest : Interrupted m₁ tried plain) :
      Interrupted m ((.cycles n, m₁) :: tried) ((.cycles n, m₂) :: plain)
  | halted {m m' m₁ m₂ : Machine} {n : Nat} {tried plain : List (StepResult × Machine)} (halts : m.Halts m')
      (same : m₁.saveState = m₂.saveState) (rest : Interrupted m₁ tried plain) :
      Interrupted m ((.halted, m') :: (.cycles n, m₁) :: tried) ((.cycles n, m₂) :: plain)

/-- A halt changes nothing that a save state holds. -/
theorem Halts.saveState {m m' : Machine} (h : m.Halts m') : m'.saveState = m.saveState := by
  rw [h.frame]
  rfl

theorem halts_of_stops {m : Machine} (h : m.stops = true) :
    ∃ m', m.processInstruction false = (.halted, m') ∧ m.Halts m' := by
  unfold stops at h
  rw [Bool.and_eq_true, Bool.not_eq_true', Option.isSome_iff_exists] at h
  obtain ⟨hskip, debugger, hhit⟩ := h
  refine ⟨{ m with debugger, skipBreakpoint := false }, ?_, Debugger.hit_of_hit? hhit, rfl⟩
  simp [processInstruction, hskip, hhit]

theorem processInstruction_of_unarmed {m : Machine} (harmed : m.debugger.stepOutArmed = false)
    (hstops : m.stops = false) :
    m.processInstruction false = (.cycles (m.cpu.step m.board).1, m.stepped) := by
  rw [processInstruction_of_not_stops hstops, processInstruction_true, endsStepOut_of_unarmed harmed]
  rfl

/-- A machine beside one that has no breakpoints: they are the same but for the debugger and the mark of a
resumed machine, and neither is to step out. -/
structure Beside (m p : Machine) : Prop where
  frame : p = { m with debugger := p.debugger, skipBreakpoint := p.skipBreakpoint }
  unarmed : m.debugger.stepOutArmed = false
  unarmed' : p.debugger.stepOutArmed = false
  none : ∀ pc, p.debugger.hit? pc = none

namespace Beside

variable {m p : Machine}

theorem saveState (h : m.Beside p) : m.saveState = p.saveState := by
  rw [h.frame]
  rfl

theorem not_stops (h : m.Beside p) : p.stops = false := by
  unfold stops
  rw [h.none, Option.isSome_none, Bool.and_false]

/-- The machine without breakpoints takes the step that the other one takes. -/
theorem step (h : m.Beside p) :
    (p.cpu.step p.board).1 = (m.cpu.step m.board).1 ∧ m.stepped.Beside p.stepped := by
  obtain ⟨hframe, harmed, harmed', hnone⟩ := h
  obtain ⟨cpu, board, debugger, diskRom, skip⟩ := m
  obtain ⟨cpu', board', debugger', diskRom', skip'⟩ := p
  cases hframe
  exact ⟨rfl, rfl, harmed, harmed', hnone⟩

/-- A halt leaves the machine beside the other one. -/
theorem halted (h : m.Beside p) {m' : Machine} (hhalts : m.Halts m') : m'.resume.Beside p := by
  obtain ⟨b, hhit⟩ := hhalts.hit
  refine ⟨?_, hhit.stepOutArmed.trans h.unarmed, h.unarmed', h.none⟩
  rw [h.frame, hhalts.frame]
  rfl

end Beside

variable {m p : Machine}

/-- A machine that is not stopped executes an instruction, and its later attempts go on from there. -/
theorem attempts_of_not_stops (harmed : m.debugger.stepOutArmed = false) (hstops : m.stops = false)
    (resuming : Bool) (k : Nat) :
    m.attempts resuming (k + 1) =
      (.cycles (m.cpu.step m.board).1, m.stepped) :: m.stepped.attempts resuming k := by
  have hstep := processInstruction_of_unarmed harmed hstops
  simp [attempts, hstep]

/-- A machine that halts executes its instruction as soon as it is resumed. -/
theorem attempts_of_halts {m' : Machine} (hhalt : m.processInstruction false = (.halted, m')) (k : Nat) :
    m.attempts true (k + 1) = (.halted, m') :: m'.resume.attempts true k := by
  simp [attempts, hhalt]

theorem interrupted_attempts (h : m.Beside p) (n : Nat) :
    ∃ k, Interrupted m (m.attempts true k) (p.attempts false n) := by
  induction n generalizing m p with
  | zero => exact ⟨0, .done m⟩
  | succ n ih =>
    rw [attempts_of_not_stops h.unarmed' h.not_stops]
    cases hstops : m.stops with
    | false =>
      obtain ⟨hcycles, hnext⟩ := h.step
      obtain ⟨k, hrest⟩ := ih hnext
      refine ⟨k + 1, ?_⟩
      rw [attempts_of_not_stops h.unarmed hstops, hcycles]
      exact .executed hnext.saveState hrest
    | true =>
      obtain ⟨m', hhalt, hhalts⟩ := halts_of_stops hstops
      have hresumed := h.halted hhalts
      obtain ⟨hcycles, hnext⟩ := hresumed.step
      obtain ⟨k, hrest⟩ := ih hnext
      refine ⟨k + 2, ?_⟩
      rw [attempts_of_halts hhalt, attempts_of_not_stops hresumed.unarmed rfl, hcycles]
      exact .halted hhalts hnext.saveState hrest

end Machine

/-- **Breakpoints do not show in what is executed.** A machine in which no step out is armed, and which is resumed
after each halt, executes `n` instructions through the same save states, in the same numbers of cycles, as it does
without its breakpoints.  Before each of them it halts at most once, and a halt changes nothing but the count of a
breakpoint, a breakpoint for one hit, and the mark of a resumed machine. -/
theorem breakpoints_transparent {m : Machine} (h : m.debugger.stepOutArmed = false) (n : Nat) :
    ∃ k, m.Interrupted (m.attempts true k) (m.withoutBreakpoints.attempts false n) := by
  have hbeside : m.Beside m.withoutBreakpoints := ⟨rfl, h, h, Debugger.hit?_of_empty rfl⟩
  exact Machine.interrupted_attempts hbeside n

/-- A machine that was never switched on, with a breakpoint for one hit where it stands, a lasting one behind
it, and a disabled one. -/
theorem breakpoints_transparent_ofModel :
    let d := ((({} : Debugger).runTo 0).addBreakpoint 1).addBreakpoint 2
    let m := { Machine.ofModel .cmos with debugger := (d.toggleBreakpoint 2).2 }
    m.debugger.stepOutArmed = false ∧
      ∃ k, m.Interrupted (m.attempts true k) (m.withoutBreakpoints.attempts false 3) := by
  intro d m
  have harmed : m.debugger.stepOutArmed = false := rfl
  exact ⟨harmed, breakpoints_transparent harmed 3⟩

end AppleII
