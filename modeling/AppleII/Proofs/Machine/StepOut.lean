import AppleII.Proofs.Machine.Resumption
import AppleII.Proofs.Machine.Subroutine
import Mathlib.Data.List.Iterate

/-!
# Stepping out

A run ends when its time is over, at a breakpoint, or with the first return that leaves the stack pointer above the
depth of a step out (`Machine.runEnds_runWhile`).  Without breakpoints a machine that steps out runs as it does when no
step out is armed, up to and including that return (`Machine.stepsOut_runWhile`).
-/

namespace AppleII

open Processor.Instruction (retOpcode)

/-- The depth of the step out that is armed. -/
def Debugger.stepOut? (d : Debugger) : Option UInt8 := if d.stepOutArmed then some d.stepOutFrom else none

theorem Debugger.Hit.stepOut? {d d' : Debugger} {pc : UInt16} {b : Breakpoint} (h : d.Hit pc b d') :
    d'.stepOut? = d.stepOut? := by
  unfold Debugger.stepOut?
  rw [h.stepOutArmed, h.stepOutFrom]

namespace Machine

/-- A step out is armed at a depth, and there are no breakpoints. -/
structure SteppingOut (depth : UInt8) (m : Machine) : Prop where
  breakpoints : m.debugger.breakpoints = ∅
  armed : m.debugger.stepOutArmed = true
  stepOutFrom : m.debugger.stepOutFrom = depth

/-- The next instruction is a return, and leaves the stack pointer above a depth. -/
def ReturnsAbove (depth : UInt8) (m : Machine) : Prop :=
  m.opcode? = some retOpcode ∧ depth < m.stepped.cpu.regs.sp

/-- How a run of a machine ends that has let it execute an instruction in each of some machines. -/
inductive RunEnds (m : Machine) (executed : List Machine) : Bool × Machine → Prop
  | complete {m' : Machine} (debugger : m'.debugger = m.debugger)
      (before : ∀ depth, m.debugger.stepOut? = some depth → ∀ x ∈ executed, ¬ x.ReturnsAbove depth) :
      RunEnds m executed (true, m')
  | stopped {m' : Machine} {b : Breakpoint} (hit : m.debugger.Hit m'.cpu.regs.pc b m'.debugger)
      (before : ∀ depth, m.debugger.stepOut? = some depth → ∀ x ∈ executed, ¬ x.ReturnsAbove depth) :
      RunEnds m executed (false, m')
  /-- The last instruction is the first return above the depth of the step out, which is over then. -/
  | returned {m' : Machine} (front : List Machine) (x : Machine) (last : executed = front ++ [x]) {depth : UInt8}
      (armed : m.debugger.stepOut? = some depth) (before : ∀ y ∈ front, ¬ y.ReturnsAbove depth)
      (returns : x.ReturnsAbove depth) (cpu : m'.cpu = x.stepped.cpu)
      (debugger : m'.debugger = m.debugger.disarmStepOut) : RunEnds m executed (false, m')

/-- A run of a machine that steps out, beside the run of the same machine with no step out armed: for each of them
the machines at the instructions, and the machine after the run with whether it has come to its end. -/
inductive StepsOut (depth : UInt8) (armed plain : List Machine × Bool × Machine) : Prop
  /-- There is no return above the depth: both runs are the same. -/
  | goesOn (before : ∀ x ∈ plain.1, ¬ x.ReturnsAbove depth) (executed : armed.1.map disarmed = plain.1)
      (complete : armed.2.1 = true ∧ plain.2.1 = true) (same : armed.2.2.disarmed = plain.2.2)
      (still : armed.2.2.SteppingOut depth)
  /-- The first return above the depth is the last instruction of the run. -/
  | returned (front back : List Machine) (x : Machine) (course : plain.1 = front ++ x :: back)
      (before : ∀ y ∈ front, ¬ y.ReturnsAbove depth) (returns : x.ReturnsAbove depth)
      (executed : armed.1.map disarmed = front ++ [x]) (halted : armed.2.1 = false)
      (cpu : armed.2.2.cpu = x.stepped.cpu)

theorem endsStepOut_iff {m : Machine} :
    m.endsStepOut = true ↔ ∃ depth, m.debugger.stepOut? = some depth ∧ m.ReturnsAbove depth := by
  unfold endsStepOut Debugger.returnReached Debugger.stepOut? ReturnsAbove
  rw [lastOpcode_stepped]
  cases m.debugger.stepOutArmed <;> simp

namespace SteppingOut

variable {depth : UInt8} {m : Machine}

theorem stops (h : m.SteppingOut depth) : m.stops = false ∧ m.disarmed.stops = false :=
  ⟨stops_of_empty h.breakpoints, stops_of_empty (m := m.disarmed) h.breakpoints⟩

theorem endsStepOut_iff (h : m.SteppingOut depth) : m.endsStepOut = true ↔ m.ReturnsAbove depth := by
  have hdepth : m.debugger.stepOut? = some depth := by
    rw [Debugger.stepOut?, if_pos h.armed, h.stepOutFrom]
  rw [Machine.endsStepOut_iff, hdepth]
  simp

theorem of_debugger {m' : Machine} (h : m.SteppingOut depth) (hdebugger : m'.debugger = m.debugger) :
    m'.SteppingOut depth :=
  ⟨hdebugger ▸ h.breakpoints, hdebugger ▸ h.armed, hdebugger ▸ h.stepOutFrom⟩

theorem stepped (h : m.SteppingOut depth) : m.stepped.SteppingOut depth := h.of_debugger rfl

end SteppingOut

variable {depth : UInt8} {m : Machine}

theorem StepsOut.cons {l l' : List Machine} {r r' : Bool × Machine} (h : StepsOut depth (l, r) (l', r'))
    (hm : ¬ m.ReturnsAbove depth) : StepsOut depth (m :: l, r) (m.disarmed :: l', r') := by
  have hm' : ¬ m.disarmed.ReturnsAbove depth := hm
  cases h with
  | goesOn before executed complete same still =>
    exact .goesOn (List.forall_mem_cons.mpr ⟨hm', before⟩) (congrArg (m.disarmed :: ·) executed) complete same still
  | returned front back x course before returns executed halted cpu =>
    exact .returned (m.disarmed :: front) back x (congrArg (m.disarmed :: ·) course)
      (List.forall_mem_cons.mpr ⟨hm', before⟩) returns (congrArg (m.disarmed :: ·) executed) halted cpu

/-- The instructions of a course after which another one comes. -/
theorem dropLast_course_succ {more : Nat → Nat → Bool} (h : m.stops = false) (fuel spent : Nat) :
    (m.course more (fuel + 1) spent).dropLast =
      if more spent m.clock then
        m :: if m.endsStepOut then [] else (m.stepped.course more fuel (spent + m.cost)).dropLast
      else [] := by
  obtain ⟨rest, hrest⟩ := course_eq_cons more fuel (spent + m.cost) m.stepped
  rw [course_succ more h, hrest]
  split
  · cases m.endsStepOut <;> rfl
  · rfl

theorem RunEnds.cons {executed : List Machine} {r : Bool × Machine} (h : m.stepped.RunEnds executed r)
    (hm : m.endsStepOut = false) : m.RunEnds (m :: executed) r := by
  have hgoes : ∀ depth, m.debugger.stepOut? = some depth → ¬ m.ReturnsAbove depth := fun depth hdepth hreturns =>
    absurd (hm.symm.trans (endsStepOut_iff.mpr ⟨depth, hdepth, hreturns⟩)) Bool.noConfusion
  cases h with
  | complete debugger before =>
    exact .complete debugger fun depth hdepth => List.forall_mem_cons.mpr ⟨hgoes depth hdepth, before depth hdepth⟩
  | stopped hit before =>
    exact .stopped hit fun depth hdepth => List.forall_mem_cons.mpr ⟨hgoes depth hdepth, before depth hdepth⟩
  | returned front x last armed before returns cpu debugger =>
    exact .returned (m :: front) x (congrArg (m :: ·) last) armed
      (List.forall_mem_cons.mpr ⟨hgoes _ armed, before⟩) returns cpu debugger

/-- **A run ends for a reason.** -/
theorem runEnds_runWhile (more : Nat → Nat → Bool) (fuel spent : Nat) (m : Machine) :
    m.RunEnds (m.course more fuel spent).dropLast (runWhile more fuel spent m) := by
  induction fuel generalizing m spent with
  | zero => exact .complete rfl (by simp [course])
  | succ fuel ih =>
    by_cases hmore : more spent m.clock = true
    · cases hstops : m.stops with
      | true =>
        obtain ⟨m', hhalt, hhalts⟩ := halts_of_stops hstops
        obtain ⟨b, hhit⟩ := hhalts.hit
        have hpc : m'.cpu.regs.pc = m.cpu.regs.pc := by rw [hhalts.frame]
        rw [course_of_stops hstops, runWhile, if_pos hmore, hhalt]
        exact .stopped (hpc ▸ hhit) (by simp)
      | false =>
        rw [dropLast_course_succ hstops, runWhile_succ more hstops, if_pos hmore, if_pos hmore]
        cases hends : m.endsStepOut with
        | true =>
          obtain ⟨depth, hdepth, hreturns⟩ := endsStepOut_iff.mp hends
          exact .returned [] m rfl hdepth (by simp) hreturns rfl rfl
        | false => exact (ih _ m.stepped).cons hends
    · rw [course, if_neg fun hgoes => hmore hgoes.1, runWhile, if_neg hmore]
      exact .complete rfl (by simp)

/-- The cycles of so many steps. -/
def stepCycles (m : Machine) : Nat → Nat
  | 0 => 0
  | n + 1 => m.cost + m.stepped.stepCycles n

/-- A machine that nothing stops executes its steps, as long as there are cycles for them. -/
theorem exists_course_of_plain {cycles spent n fuel : Nat} (hempty : m.debugger.breakpoints = ∅)
    (hunarmed : m.debugger.stepOutArmed = false) (hn : n ≤ fuel)
    (hcycles : ∀ k < n, spent + m.stepCycles k < cycles) :
    ∃ rest, (m.course (forCycles cycles) fuel spent).dropLast = List.iterate stepped m n ++ rest := by
  induction n generalizing m fuel spent with
  | zero => exact ⟨_, rfl⟩
  | succ n ih =>
    obtain ⟨fuel, rfl⟩ := Nat.exists_eq_succ_of_ne_zero (Nat.ne_zero_of_lt hn)
    have hlater : ∀ k < n, spent + m.cost + m.stepped.stepCycles k < cycles := fun k hk => by
      rw [Nat.add_assoc]
      exact hcycles (k + 1) (Nat.succ_lt_succ hk)
    obtain ⟨rest, hrest⟩ := ih (m := m.stepped) hempty hunarmed (Nat.le_of_succ_le_succ hn) hlater
    have hmore : forCycles cycles spent m.clock = true := decide_eq_true (hcycles 0 n.succ_pos)
    refine ⟨rest, ?_⟩
    rw [dropLast_course_succ (stops_of_empty hempty), if_pos hmore, endsStepOut_of_unarmed hunarmed,
      List.iterate, List.cons_append]
    exact congrArg (m :: ·) hrest

/-- **A machine that steps out** halts after the first return above its depth. -/
theorem stepsOut_runWhile (h : m.SteppingOut depth) (more : Nat → Nat → Bool) (fuel spent : Nat) :
    StepsOut depth ((m.course more fuel spent).dropLast, runWhile more fuel spent m)
      ((m.disarmed.course more fuel spent).dropLast, runWhile more fuel spent m.disarmed) := by
  induction fuel generalizing m spent with
  | zero => exact .goesOn (by simp [course]) rfl ⟨rfl, rfl⟩ rfl h
  | succ fuel ih =>
    obtain ⟨hstops, hstops'⟩ := h.stops
    rw [dropLast_course_succ hstops, dropLast_course_succ hstops', runWhile_succ more hstops,
      runWhile_succ more hstops', endsStepOut_of_unarmed (m := m.disarmed) rfl]
    have hclock : m.disarmed.clock = m.clock := rfl
    rw [hclock]
    by_cases hmore : more spent m.clock = true
    · simp only [hmore, if_true, Bool.false_eq_true, if_false]
      cases hends : m.endsStepOut with
      | true =>
        have hreturns := h.endsStepOut_iff.mp hends
        exact .returned [] _ m.disarmed rfl (by simp) hreturns rfl rfl rfl
      | false =>
        have hreturns : ¬ m.ReturnsAbove depth := fun hr =>
          absurd (hends.symm.trans (h.endsStepOut_iff.mpr hr)) Bool.noConfusion
        exact (ih h.stepped _).cons hreturns
    · rw [if_neg hmore, if_neg hmore, if_neg hmore, if_neg hmore]
      exact .goesOn (by simp) rfl ⟨rfl, rfl⟩ rfl h

end Machine

end AppleII
