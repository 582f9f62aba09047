import AppleII.Proofs.Machine.Reset
import AppleII.Proofs.Machine.StepOut
import AppleII.Proofs.Processor.Simulation
import AppleII.Proofs.Processor.Timing
import AppleII.Proofs.Run
import Mathlib.Algebra.Ring.Nat

/-!
# What a run costs

The clock and the processor count the cycles of the instructions that are executed, and nothing else
(`Machine.counts_attempts`).  A run goes on as long as there are to be more instructions: there is no other bound on
its rounds (`Machine.Loop`).  Since every step takes from one to eight cycles, a run for `n` cycles comes to an end,
after `n` instructions at most, and at most seven cycles late (`Machine.meetsBudget_runFor`).  So does a run by the
clock, as long as the counts fit (`Machine.meetsBudget_runCycles`); a time that wraps around has come before such a
run begins (`Machine.runCycles_of_wrap`).
-/

namespace AppleII

open Processor (Bus)

/-- An access takes no time. -/
theorem Board.keeps_clock (time : Nat) : Bus.Keeps fun b : Board => b.clock = time where
  read {b} h address := (b.clock_read address).trans h
  write {b} h address value := (b.clock_write address value).trans h

namespace Machine

/-- From a machine to a later one its clock and its processor count so many cycles, as long as the counts fit. -/
structure Counts (m : Machine) (cycles : Nat) (m' : Machine) : Prop where
  clock : m.clock + cycles < Count.size → m'.clock = m.clock + cycles
  total : m.cpu.totalCycles + cycles < Count.size → m'.cpu.totalCycles = m.cpu.totalCycles + cycles

/-- The loop of a run: round after round, as long as there are to be `more`.  `executed` are the machines that execute
an instruction, and `result` tells whether the run comes to its end, with the machine after it. -/
inductive Loop (more : Nat → Nat → Bool) : Nat → Machine → List Machine → Bool × Machine → Prop
  | complete {spent : Nat} {m : Machine} (enough : more spent m.clock = false) : Loop more spent m [] (true, m)
  | stopped {spent : Nat} {m m' : Machine} (goes : more spent m.clock = true) (stops : m.stops = true)
      (halts : m.processInstruction false = (.halted, m')) : Loop more spent m [] (false, m')
  | returned {spent : Nat} {m m' : Machine} (goes : more spent m.clock = true) (passes : m.stops = false)
      (halts : m.processInstruction false = (.halted, m')) : Loop more spent m [m] (false, m')
  | round {spent n : Nat} {m m' : Machine} {executed : List Machine} {result : Bool × Machine}
      (goes : more spent m.clock = true) (takes : m.processInstruction false = (.cycles n, m'))
      (rest : Loop more (spent + n) m' executed result) : Loop more spent m (m :: executed) result

variable {m m' m'' : Machine} {more : Nat → Nat → Bool} {target cycles spent fuel : Nat} {executed : List Machine}
  {result : Bool × Machine}

/-! ## One instruction -/

theorem cost_bounds (m : Machine) : 1 ≤ m.cost ∧ m.cost ≤ 8 := m.cpu.cycles_step m.board

theorem Counts.refl (m : Machine) : m.Counts 0 m := ⟨fun _ => rfl, fun _ => rfl⟩

theorem Counts.trans {n n' : Nat} (h : m.Counts n m') (h' : m'.Counts n' m'') : m.Counts (n + n') m'' where
  clock := by
    intro hfits
    have hfirst := h.clock (by omega)
    rw [h'.clock (by omega), hfirst, Nat.add_assoc]
  total := by
    intro hfits
    have hfirst := h.total (by omega)
    rw [h'.total (by omega), hfirst, Nat.add_assoc]

theorem counts_stepped (m : Machine) : m.Counts m.cost m.stepped where
  clock := by
    intro hfits
    have hstill := Processor.step_keeps (Board.keeps_clock m.clock) m.cpu (s := m.board) rfl
    exact (congrArg (Count.add · m.cost) hstill).trans (Count.add_of_lt hfits)
  total := Count.add_of_lt

/-- An instruction whose cycles are answered was executed, and ended no step out. -/
theorem processInstruction_eq_cycles {n : Nat} (h : m.processInstruction false = (.cycles n, m')) :
    m.stops = false ∧ n = m.cost ∧ m' = m.stepped := by
  cases hstops : m.stops with
  | true =>
    obtain ⟨debugger, hstop⟩ := processInstruction_of_stops hstops
    cases hstop.symm.trans h
  | false =>
    rw [processInstruction_of_not_stops hstops, processInstruction_true] at h
    split at h
    · cases h
    · cases h
      exact ⟨rfl, rfl, rfl⟩

/-- What a call executes, and the machine after it. -/
def attempt (ignoreBreakpoints : Bool) (m : Machine) : List Machine × Machine :=
  (if !ignoreBreakpoints && m.stops then [] else [m], (m.processInstruction ignoreBreakpoints).2)

theorem counts_processInstruction_true (m : Machine) : m.Counts m.cost (m.processInstruction true).2 := by
  rw [processInstruction_true]
  cases m.endsStepOut with
  | true => exact ⟨m.counts_stepped.clock, m.counts_stepped.total⟩
  | false => exact m.counts_stepped

/-- An instruction is counted whether it ends a step out or not; where a breakpoint stops it no time goes by. -/
theorem counts_attempt (ignoreBreakpoints : Bool) (m : Machine) :
    m.Counts ((attempt ignoreBreakpoints m).1.map cost).sum (attempt ignoreBreakpoints m).2 := by
  unfold attempt
  cases ignoreBreakpoints with
  | true => simpa using m.counts_processInstruction_true
  | false =>
    cases hstops : m.stops with
    | true =>
      obtain ⟨debugger, hstop⟩ := processInstruction_of_stops hstops
      simp only [Bool.not_false, Bool.and_self, if_true, hstop]
      exact ⟨fun _ => rfl, fun _ => rfl⟩
    | false =>
      rw [processInstruction_of_not_stops hstops]
      simpa using m.counts_processInstruction_true

/-- **Every cycle is counted twice**, by the clock and by the processor, over any calls. -/
theorem counts_attempts (calls : List Bool) (m : Machine) :
    m.Counts ((runAll attempt calls m).1.flatten.map cost).sum (runAll attempt calls m).2 := by
  induction calls generalizing m with
  | nil => exact .refl m
  | cons ignoreBreakpoints calls ih =>
    rw [runAll_cons, List.flatten_cons, List.map_append, List.sum_append]
    exact (m.counts_attempt ignoreBreakpoints).trans (ih _)

/-! ## The loop -/

namespace Loop

theorem counts (h : Loop more spent m executed result) : m.Counts (executed.map cost).sum result.2 := by
  induction h with
  | complete _ => exact .refl _
  | @stopped _ m m' _ stops halts =>
    have hstop := m.counts_attempt false
    simpa [attempt, stops, halts] using hstop
  | @returned _ m m' _ passes halts =>
    have hreturn := m.counts_attempt false
    simpa [attempt, passes, halts] using hreturn
  | round _ takes _ ih =>
    obtain ⟨-, -, rfl⟩ := processInstruction_eq_cycles takes
    rw [List.map_cons, List.sum_cons]
    exact (counts_stepped _).trans ih

/-- A loop has one outcome only. -/
theorem unique (h : Loop more spent m executed result) {executed' : List Machine} {result' : Bool × Machine}
    (h' : Loop more spent m executed' result') : executed' = executed ∧ result' = result := by
  induction h generalizing executed' result' with
  | complete enough =>
    cases h' with
    | complete => exact ⟨rfl, rfl⟩
    | stopped goes | returned goes | round goes => cases goes.symm.trans enough
  | stopped goes stops halts =>
    cases h' with
    | complete enough => cases goes.symm.trans enough
    | stopped _ _ halts' =>
      cases halts.symm.trans halts'
      exact ⟨rfl, rfl⟩
    | returned _ passes => cases stops.symm.trans passes
    | round _ takes => cases halts.symm.trans takes
  | returned goes passes halts =>
    cases h' with
    | complete enough => cases goes.symm.trans enough
    | stopped _ stops => cases stops.symm.trans passes
    | returned _ _ halts' =>
      cases halts.symm.trans halts'
      exact ⟨rfl, rfl⟩
    | round _ takes => cases halts.symm.trans takes
  | round goes takes _ ih =>
    cases h' with
    | complete enough => cases goes.symm.trans enough
    | stopped _ _ halts | returned _ _ halts => cases halts.symm.trans takes
    | round _ takes' rest' =>
      cases takes.symm.trans takes'
      obtain ⟨rfl, rfl⟩ := ih rest'
      exact ⟨rfl, rfl⟩

/-- Each round takes a cycle or more. -/
theorem length_le (h : Loop (forCycles cycles) spent m executed result) : executed.length ≤ cycles - spent := by
  induction h with
  | complete | stopped => exact Nat.zero_le _
  | returned goes => exact Nat.sub_pos_of_lt (of_decide_eq_true goes)
  | @round spent _ m _ _ _ goes takes _ ih =>
    obtain ⟨-, rfl, -⟩ := processInstruction_eq_cycles takes
    have hmore : spent < cycles := of_decide_eq_true goes
    have hcost := m.cost_bounds.1
    rw [List.length_cons]
    omega

/-- A run that is not halted has spent its cycles, with its last instruction. -/
theorem spends (h : Loop (forCycles cycles) spent m executed result) (hresult : result.1 = true) :
    cycles ≤ spent + (executed.map cost).sum ∧ spent + (executed.map cost).sum ≤ max spent (cycles + 7) := by
  induction h with
  | complete enough => exact ⟨Nat.le_of_not_lt (of_decide_eq_false enough), Nat.le_max_left _ _⟩
  | stopped | returned => cases hresult
  | @round spent _ m _ _ _ goes takes _ ih =>
    obtain ⟨-, rfl, -⟩ := processInstruction_eq_cycles takes
    have hmore : spent < cycles := of_decide_eq_true goes
    have hcost := m.cost_bounds.2
    have hrest := ih hresult
    rw [List.map_cons, List.sum_cons]
    omega

end Loop

/-- As many rounds as there are cycles left are enough. -/
theorem loop_runWhile (h : cycles ≤ spent + fuel) :
    Loop (forCycles cycles) spent m (m.course (forCycles cycles) fuel spent).dropLast
      (runWhile (forCycles cycles) fuel spent m) := by
  induction fuel generalizing m spent with
  | zero => exact .complete (decide_eq_false (Nat.not_lt.mpr h))
  | succ fuel ih =>
    by_cases hmore : forCycles cycles spent m.clock = true
    · cases hstops : m.stops with
      | true =>
        obtain ⟨debugger, hstop⟩ := processInstruction_of_stops hstops
        rw [course_of_stops hstops, runWhile, if_pos hmore, hstop]
        exact .stopped hmore hstops hstop
      | false =>
        have hinstruction := (processInstruction_of_not_stops hstops).trans m.processInstruction_true
        rw [dropLast_course_succ hstops, runWhile_succ _ hstops, if_pos hmore, if_pos hmore]
        cases hends : m.endsStepOut with
        | true =>
          rw [hends] at hinstruction
          exact .returned hmore hstops hinstruction
        | false =>
          rw [hends] at hinstruction
          refine .round hmore hinstruction (ih ?_)
          have hcost := m.cost_bounds.1
          omega
    · rw [course, if_neg fun hgoes => hmore hgoes.1, runWhile, if_neg hmore]
      exact .complete (Bool.eq_false_of_not_eq_true hmore)

/-! ## By the clock -/

/-- An instruction that begins before the end takes the clock at most seven cycles beyond it. -/
theorem clock_stepped_of_lt (hmore : m.clock < target) (hfits : target + 7 < Count.size) :
    m.stepped.clock = m.clock + m.cost := by
  have hcost := m.cost_bounds.2
  exact m.counts_stepped.clock (by omega)

/-- With as many cycles left as there are to the end, a run goes on in either way. -/
theorem untilClock_eq (hleft : cycles - spent = target - m.clock) :
    untilClock target spent m.clock = forCycles cycles spent m.clock :=
  decide_eq_decide.mpr (by omega)

theorem runWhile_untilClock (hfits : target + 7 < Count.size) (hleft : cycles - spent = target - m.clock) :
    runWhile (untilClock target) fuel spent m = runWhile (forCycles cycles) fuel spent m := by
  induction fuel generalizing m spent with
  | zero => rfl
  | succ fuel ih =>
    unfold runWhile
    rw [untilClock_eq hleft]
    by_cases hmore : forCycles cycles spent m.clock = true
    · rw [if_pos hmore, if_pos hmore]
      cases htakes : m.processInstruction false with
      | mk taken m' =>
        cases taken with
        | halted => rfl
        | cycles n =>
          obtain ⟨-, rfl, rfl⟩ := processInstruction_eq_cycles htakes
          have hspent : spent < cycles := of_decide_eq_true hmore
          have hearly : m.clock < target := by omega
          have hclock := clock_stepped_of_lt hearly hfits
          exact ih (by omega)
    · rw [if_neg hmore, if_neg hmore]

/-- **By the clock** a run takes the same rounds, as long as the counts fit. -/
theorem Loop.untilClock (h : Loop (forCycles cycles) spent m executed result) (hfits : target + 7 < Count.size)
    (hleft : cycles - spent = target - m.clock) : Loop (untilClock target) spent m executed result := by
  induction h with
  | complete enough => exact .complete ((untilClock_eq hleft).trans enough)
  | stopped goes stops halts => exact .stopped ((untilClock_eq hleft).trans goes) stops halts
  | returned goes passes halts => exact .returned ((untilClock_eq hleft).trans goes) passes halts
  | @round spent _ m _ _ _ goes takes _ ih =>
    refine .round ((untilClock_eq hleft).trans goes) takes (ih ?_)
    obtain ⟨-, rfl, rfl⟩ := processInstruction_eq_cycles takes
    have hspent : spent < cycles := of_decide_eq_true goes
    have hearly : m.clock < target := by omega
    have hclock := clock_stepped_of_lt hearly hfits
    omega

/-! ## The budget -/

/-- A run for `n` cycles comes to its end, and to no other one, and keeps to its budget. -/
structure MeetsBudget (more : Nat → Nat → Bool) (m : Machine) (n : Nat) (executed : List Machine)
    (result : Bool × Machine) : Prop where
  ends : ∀ executed' result', Loop more 0 m executed' result' ↔ executed' = executed ∧ result' = result
  length_le : executed.length ≤ n
  counts : m.Counts (executed.map cost).sum result.2
  reaches : result.1 = true → n ≤ (executed.map cost).sum
  late : result.1 = true → (executed.map cost).sum ≤ n + 7

namespace MeetsBudget

variable {n : Nat}

theorem of_loop (h : Loop (forCycles n) 0 m executed result) (hloop : Loop more 0 m executed result) :
    MeetsBudget more m n executed result := by
  refine ⟨fun executed' result' => ⟨hloop.unique, ?_⟩, h.length_le, h.counts, fun hresult => ?_, fun hresult => ?_⟩
  · rintro ⟨rfl, rfl⟩
    exact hloop
  · have hreaches := (h.spends hresult).1
    omega
  · have hlate := (h.spends hresult).2
    omega

/-- The clock shows the cycles, as long as the counts fit. -/
theorem advance (h : MeetsBudget more m n executed result) (hresult : result.1 = true)
    (hfits : m.clock + n + 7 < Count.size) : m.clock + n ≤ result.2.clock ∧ result.2.clock ≤ m.clock + n + 7 := by
  have hreaches := h.reaches hresult
  have hlate := h.late hresult
  have hclock := h.counts.clock (by omega)
  omega

end MeetsBudget

variable {n : Nat}

/-- **A run comes to its end.** -/
theorem meetsBudget_runFor (m : Machine) (n : Nat) :
    MeetsBudget (forCycles n) m n (m.course (forCycles n) n 0).dropLast (m.runFor n) :=
  have hloop := loop_runWhile (Nat.le_add_left n 0)
  .of_loop hloop hloop

/-- By the clock it does when the last count that it may come to fits. -/
theorem meetsBudget_runCycles (hfits : m.clock + n + 7 < Count.size) :
    MeetsBudget (untilClock (Count.add m.clock n)) m n (m.course (forCycles n) n 0).dropLast (m.runCycles n) := by
  have htarget : Count.add m.clock n = m.clock + n := Count.add_of_lt (by omega)
  have hleft : n - 0 = m.clock + n - m.clock := by omega
  have hloop : Loop (forCycles n) 0 m _ _ := loop_runWhile (Nat.le_add_left n 0)
  unfold runCycles
  rw [htarget, runWhile_untilClock hfits hleft]
  exact .of_loop hloop (hloop.untilClock hfits hleft)

/-- The clock is beyond a time that wraps around, so that nothing is executed. -/
theorem runCycles_of_wrap (hclock : m.clock < Count.size) (hn : n < Count.size)
    (hwraps : Count.size ≤ m.clock + n) : m.runCycles n = (true, m) := by
  have htarget : Count.add m.clock n = m.clock + n - Count.size := Count.add_of_le hclock hn hwraps
  have hreached : ¬untilClock (Count.add m.clock n) 0 m.clock = true := by
    rw [htarget, untilClock, decide_eq_true_iff]
    omega
  unfold runCycles
  cases n with
  | zero => rfl
  | succ n => rw [runWhile, if_neg hreached]

end Machine

end AppleII
