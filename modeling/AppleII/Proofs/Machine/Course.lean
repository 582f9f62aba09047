import AppleII.Machine.Basic
import Mathlib.Data.List.Chain

/-!
# The machines that a run comes to

`Machine.course` lists them, one after each instruction (`isChain_course`); the last of them is what the run
leaves, up to the count of a breakpoint that stopped it (`runWhile_course`).  Only the first of them may execute
an instruction that has an enabled breakpoint (`eq_nil_of_course`).
-/

namespace AppleII

/-- What a machine may be let do. -/
inductive Act where
  | boot
  | reset
  | instruction
  deriving DecidableEq, Repr

theorem Debugger.hit?_of_empty {d : Debugger} (h : d.breakpoints = ∅) (pc : UInt16) : d.hit? pc = none := by
  unfold hit?
  simp [h]

namespace Machine

/-- The machine after an act. -/
def perform (m : Machine) : Act → Machine
  | .boot => m.boot
  | .reset => m.reset
  | .instruction => (m.processInstruction true).2

/-- An enabled breakpoint stands at the program counter. -/
def OnBreakpoint (m : Machine) : Prop :=
  ∃ b, m.debugger.breakpoints[m.cpu.regs.pc]? = some b ∧ b.enabled = true

/-- A breakpoint stops the machine before the next instruction. -/
def stops (m : Machine) : Bool := !m.skipBreakpoint && (m.debugger.hit? m.cpu.regs.pc).isSome

/-- The machines that `runWhile` comes to.  Every one but the last executes an instruction. -/
def course (more : Nat → Nat → Bool) : Nat → Nat → Machine → List Machine
  | 0, _, m => [m]
  | fuel + 1, spent, m =>
    if more spent m.clock = true ∧ m.stops = false then
      match m.processInstruction true with
      | (.halted, m') => [m, m']
      | (.cycles n, m') => m :: course more fuel (spent + n) m'
    else [m]

/-- The cycles of the next step of the processor. -/
def cost (m : Machine) : Nat := (m.cpu.step m.board).1

/-! ## One instruction -/

theorem isSome_hit?_iff {m : Machine} : (m.debugger.hit? m.cpu.regs.pc).isSome ↔ m.OnBreakpoint := by
  unfold Debugger.hit? OnBreakpoint
  split
  · next b hb =>
    split
    · next henabled => simp [hb, henabled]
    · next henabled => simp [hb, henabled]
  · next hnone => simp [hnone]

theorem stops_iff {m : Machine} : m.stops = true ↔ m.skipBreakpoint = false ∧ m.OnBreakpoint := by
  rw [stops, Bool.and_eq_true, Bool.not_eq_true', isSome_hit?_iff]

theorem stops_of_empty {m : Machine} (h : m.debugger.breakpoints = ∅) : m.stops = false := by
  rw [stops, Debugger.hit?_of_empty h, Option.isSome_none, Bool.and_false]

/-- A machine that was just resumed is not stopped, and no other one that is not on a breakpoint. -/
theorem processInstruction_of_not_stops {m : Machine} (h : m.stops = false) :
    m.processInstruction false = m.processInstruction true := by
  unfold processInstruction
  unfold stops at h
  cases hskip : m.skipBreakpoint
  · rw [hskip] at h
    simp only [Bool.not_false, Bool.true_and, Option.isSome_eq_false_iff, Option.isNone_iff_eq_none] at h
    simp [h]
  · simp

/-- The machine after its processor's next step; no breakpoint and no step out is looked at. -/
def stepped (m : Machine) : Machine :=
  let (n, cpu, board) := m.cpu.step m.board
  { m with cpu, board := board.advance n, skipBreakpoint := false }

/-- The step ends a step out. -/
def endsStepOut (m : Machine) : Bool :=
  m.debugger.returnReached m.stepped.cpu.lastOpcode m.stepped.cpu.regs.sp

/-- The machine with no step out armed. -/
def disarmed (m : Machine) : Machine := { m with debugger := m.debugger.disarmStepOut }

/-- An instruction is a step of the processor; if that ends a step out, none is armed any longer, and the machine
halts. -/
theorem processInstruction_true (m : Machine) :
    m.processInstruction true =
      if m.endsStepOut then (.halted, m.stepped.disarmed) else (.cycles m.cost, m.stepped) := by
  obtain ⟨cpu, board, debugger, diskRom, skip⟩ := m
  rfl

theorem endsStepOut_of_unarmed {m : Machine} (h : m.debugger.stepOutArmed = false) : m.endsStepOut = false := by
  unfold endsStepOut Debugger.returnReached
  rw [h, Bool.false_and, Bool.false_and]

/-- A breakpoint is counted, and the instruction is not executed. -/
theorem processInstruction_of_stops {m : Machine} (h : m.stops = true) :
    ∃ debugger, m.processInstruction false = (.halted, { m with debugger, skipBreakpoint := false }) := by
  unfold stops at h
  rw [Bool.and_eq_true, Bool.not_eq_true', Option.isSome_iff_exists] at h
  obtain ⟨hskip, debugger, hhit⟩ := h
  refine ⟨debugger, ?_⟩
  simp [processInstruction, hskip, hhit]

/-- The board goes on by a step of the processor, unless a breakpoint stops the machine. -/
theorem board_processInstruction_eq (m : Machine) (ignoreBreakpoints : Bool) :
    (m.processInstruction ignoreBreakpoints).2.board =
      if !ignoreBreakpoints && m.stops then m.board else m.stepped.board := by
  have hstep : (m.processInstruction true).2.board = m.stepped.board := by
    rw [processInstruction_true]
    split
    · rfl
    · rfl
  cases ignoreBreakpoints with
  | true => exact hstep
  | false =>
    cases hstops : m.stops with
    | true =>
      obtain ⟨debugger, heq⟩ := processInstruction_of_stops hstops
      rw [heq]
      rfl
    | false =>
      rw [processInstruction_of_not_stops hstops]
      exact hstep

theorem skipBreakpoint_execute (m : Machine) : m.execute.2.skipBreakpoint = m.skipBreakpoint := by
  unfold execute
  split
  simp only
  split <;> rfl

@[simp] theorem skipBreakpoint_processInstruction (m : Machine) (ignore : Bool) :
    (m.processInstruction ignore).2.skipBreakpoint = false := by
  unfold processInstruction
  simp only
  split
  · rfl
  · exact skipBreakpoint_execute _

/-! ## A run -/

section Runs

variable (more : Nat → Nat → Bool)

theorem course_eq_cons (fuel spent : Nat) (m : Machine) : ∃ rest, m.course more fuel spent = m :: rest := by
  cases fuel with
  | zero => exact ⟨_, rfl⟩
  | succ fuel =>
    unfold course
    split
    · split <;> exact ⟨_, rfl⟩
    · exact ⟨_, rfl⟩

/-- Every machine of a course comes from the one before by an instruction. -/
theorem isChain_course (fuel spent : Nat) (m : Machine) :
    (m.course more fuel spent).IsChain fun m m' => m' = m.perform .instruction := by
  induction fuel generalizing m spent with
  | zero => exact .singleton m
  | succ fuel ih =>
    unfold course
    split
    · split
      · next m' h => exact .cons_cons (congrArg Prod.snd h).symm (.singleton m')
      · next n m' h =>
        obtain ⟨rest, hrest⟩ := course_eq_cons more fuel (spent + n) m'
        have hchain := ih (spent + n) m'
        rw [hrest] at hchain ⊢
        exact .cons_cons (congrArg Prod.snd h).symm hchain
    · exact .singleton m

/-- Where a run ends: at the end of its course, or at a breakpoint there, which is counted. -/
inductive EndsAt (last : Machine) : Bool × Machine → Prop
  | complete : EndsAt last (true, last)
  | returned : EndsAt last (false, last)
  | stopped (debugger : Debugger) (h : last.stops = true) :
    EndsAt last (false, { last with debugger, skipBreakpoint := false })

theorem course_succ {m : Machine} (h : m.stops = false) (fuel spent : Nat) :
    m.course more (fuel + 1) spent =
      if more spent m.clock then
        if m.endsStepOut then [m, m.stepped.disarmed] else m :: m.stepped.course more fuel (spent + m.cost)
      else [m] := by
  by_cases hmore : more spent m.clock = true
  · rw [course, if_pos ⟨hmore, h⟩, if_pos hmore, processInstruction_true]
    cases m.endsStepOut <;> rfl
  · rw [course, if_neg fun hgoes => hmore hgoes.1, if_neg hmore]

theorem runWhile_succ {m : Machine} (h : m.stops = false) (fuel spent : Nat) :
    runWhile more (fuel + 1) spent m =
      if more spent m.clock then
        if m.endsStepOut then (false, m.stepped.disarmed) else runWhile more fuel (spent + m.cost) m.stepped
      else (true, m) := by
  rw [runWhile, processInstruction_of_not_stops h, processInstruction_true]
  cases m.endsStepOut <;> rfl

theorem runWhile_course (fuel spent : Nat) (m : Machine) :
    ∃ front last, m.course more fuel spent = front ++ [last] ∧ EndsAt last (runWhile more fuel spent m) := by
  -- The run tests for a breakpoint as it executes, the course before it does: they part ways together.
  induction fuel generalizing m spent with
  | zero => exact ⟨[], m, rfl, .complete⟩
  | succ fuel ih =>
    unfold course runWhile
    by_cases hmore : more spent m.clock = true
    · cases hstops : m.stops with
      | true =>
        obtain ⟨debugger, hstop⟩ := processInstruction_of_stops hstops
        simp only [hmore, hstop, if_true]
        exact ⟨[], m, rfl, .stopped debugger hstops⟩
      | false =>
        simp only [hmore, and_self, if_true, processInstruction_of_not_stops hstops]
        cases h : m.processInstruction true with
        | mk result m' =>
          cases result with
          | halted => exact ⟨[m], m', rfl, .returned⟩
          | cycles n =>
            obtain ⟨front, last, hcourse, hend⟩ := ih (spent + n) m'
            exact ⟨m :: front, last, congrArg (m :: ·) hcourse, hend⟩
    · rw [if_neg fun hgoes => hmore hgoes.1, if_neg hmore]
      exact ⟨[], m, rfl, .complete⟩

variable {more} {fuel spent : Nat} {m x : Machine} {before rest : List Machine}

/-- The machines after the first one were not just resumed. -/
theorem skipBreakpoint_of_course (h : m.course more fuel spent = before ++ x :: rest) (hne : before ≠ []) :
    x.skipBreakpoint = false := by
  have hchain := isChain_course more fuel spent m
  rw [h, List.isChain_append] at hchain
  obtain ⟨-, -, hlink⟩ := hchain
  have hx := hlink _ (List.getLast?_eq_some_getLast hne) x rfl
  rw [hx]
  exact skipBreakpoint_processInstruction _ true

/-- A course ends at the first machine that a breakpoint stops. -/
theorem eq_nil_of_course (h : m.course more fuel spent = before ++ x :: rest) (hx : x.stops = true) :
    rest = [] := by
  induction fuel generalizing m spent before with
  | zero =>
    have hlength := congrArg List.length h
    simp only [course, List.length_append, List.length_cons, List.length_nil] at hlength
    exact List.eq_nil_of_length_eq_zero (by omega)
  | succ fuel ih =>
    unfold course at h
    cases before with
    | nil =>
      split at h
      · next hgoes =>
        have hm : m = x := by
          split at h <;> exact (List.cons.inj h).1
        rw [hm, hx] at hgoes
        cases hgoes.2
      · exact (List.cons.inj h).2.symm
    | cons y before =>
      rw [List.cons_append] at h
      split at h
      · split at h
        · obtain ⟨-, htail⟩ := List.cons.inj h
          have hlength := congrArg List.length htail
          simp only [List.length_append, List.length_cons, List.length_nil] at hlength
          exact List.eq_nil_of_length_eq_zero (by omega)
        · exact ih (List.cons.inj h).2
      · obtain ⟨-, htail⟩ := List.cons.inj h
        exact absurd htail.symm (List.append_ne_nil_of_right_ne_nil _ (List.cons_ne_nil _ _))

/-- A course goes on unless a breakpoint stops it. -/
theorem exists_course_of_not_stops (hfuel : 0 < fuel) (hmore : more spent m.clock = true) (hstops : m.stops = false) :
    ∃ x rest, m.course more fuel spent = m :: x :: rest := by
  obtain ⟨fuel, rfl⟩ := Nat.exists_eq_succ_of_ne_zero hfuel.ne'
  unfold course
  rw [if_pos ⟨hmore, hstops⟩]
  split
  · next m' _ => exact ⟨m', [], rfl⟩
  · next n m' _ =>
    obtain ⟨rest, hrest⟩ := course_eq_cons more fuel (spent + n) m'
    exact ⟨m', rest, congrArg (m :: ·) hrest⟩

theorem runWhile_of_stops (hfuel : 0 < fuel) (hmore : more spent m.clock = true) (hstops : m.stops = true) :
    (runWhile more fuel spent m).1 = false := by
  obtain ⟨fuel, rfl⟩ := Nat.exists_eq_succ_of_ne_zero hfuel.ne'
  obtain ⟨debugger, hstop⟩ := processInstruction_of_stops hstops
  unfold runWhile
  rw [if_pos hmore, hstop]

/-- A breakpoint that stops the first instruction ends a run before it. -/
theorem course_of_stops (hstops : m.stops = true) : m.course more fuel spent = [m] := by
  obtain ⟨rest, hrest⟩ := course_eq_cons more fuel spent m
  rw [hrest, eq_nil_of_course (show _ = [] ++ _ from hrest) hstops]

end Runs

end Machine

end AppleII
