import AppleII.Proofs.Machine.CycleBudget
import AppleII.Proofs.Scheduler.Breakpoints

/-!
# What a frame costs

A tick runs a frame of 17030 cycles or none at all.  It always comes to its end, after 17030 instructions at most, and
unless the machine halts it takes from 17030 to 17037 cycles (`frames_meet_budget`).  The cycles of a frame are counted
as they go by; a run by the clock, whose end wraps around, is over before it begins (`run_wraps_around`).
-/

namespace AppleII

open Machine (forCycles untilClock)
open Processor (Bus)

namespace Scheduler

/-- The frame that `f` runs keeps to its budget; `s` is the scheduler after it. -/
structure FrameMeetsBudget (f s : Scheduler) : Prop where
  run : Machine.MeetsBudget (forCycles frameCycles) f.machine frameCycles (f.frameEvents.map Event.machine)
    (f.machine.runFor frameCycles)
  clock : s.machine.clock = (f.machine.runFor frameCycles).2.clock
  halts : s.state = .paused ↔ (f.machine.runFor frameCycles).1 = false
  advance : s.state ≠ .paused → f.machine.clock + 17037 < Count.size →
    f.machine.clock + 17030 ≤ s.machine.clock ∧ s.machine.clock ≤ f.machine.clock + 17037

/-- A tick runs at most one frame, which keeps to its budget. -/
structure TickMeetsBudget (s : Scheduler) (now : Nat) : Prop where
  instructions : (s.tickEvents now).countP (·.act == .instruction) ≤ 17030
  frame : ∀ f ∈ s.enter? now, (s.tick now).1 = true ∧ f.FrameMeetsBudget (s.tick now).2
  still : s.enter? now = none → (s.tick now).2.machine = s.machine

variable {s f : Scheduler}

theorem machine_frameEvents (f : Scheduler) : f.frameEvents.map Event.machine = f.course.dropLast := by
  rw [frameEvents, List.map_map]
  exact List.map_id _

theorem frameMeetsBudget_runFrame (hrunning : f.state = .running) (now : Nat) :
    f.FrameMeetsBudget (f.runFrame now) := by
  have hbudget := f.machine.meetsBudget_runFor frameCycles
  have hstanding := f.standing_runFrame now
  have hclock : (f.runFrame now).machine.clock = (f.machine.runFor frameCycles).2.clock :=
    congrArg Standing.clock hstanding
  have hstate : (f.runFrame now).state = if (f.machine.runFor frameCycles).1 then .running else .paused := by
    rw [← hrunning]
    exact congrArg Standing.state hstanding
  have hhalts : (f.runFrame now).state = .paused ↔ (f.machine.runFor frameCycles).1 = false := by
    rw [hstate]
    cases (f.machine.runFor frameCycles).1 <;> simp
  refine ⟨?_, hclock, hhalts, fun hgoes hfits => ?_⟩
  · rw [machine_frameEvents]
    exact hbudget
  · have hcomplete : (f.machine.runFor frameCycles).1 = true :=
      Bool.eq_true_of_not_eq_false (mt hhalts.mpr hgoes)
    rw [hclock]
    exact hbudget.advance hcomplete hfits

/-- A boot or a reset is no instruction. -/
theorem countP_requested (s : Scheduler) : s.requested.countP (·.act == .instruction) = 0 := by
  unfold requested
  split <;> rfl

theorem tickMeetsBudget (s : Scheduler) (now : Nat) : s.TickMeetsBudget now := by
  have hframe : ∀ f ∈ s.enter? now, (s.tick now).1 = true ∧ f.FrameMeetsBudget (s.tick now).2 := by
    intro f hf
    rw [tick_of_enter hf]
    exact ⟨rfl, frameMeetsBudget_runFrame (state_of_enter hf) now⟩
  refine ⟨?_, hframe, fun hnone => ?_⟩
  · unfold tickEvents
    cases hf : s.enter? now with
    | none => exact Nat.zero_le _
    | some f =>
      have hlength := (hframe f hf).2.run.length_le
      rw [List.length_map] at hlength
      rw [List.countP_append, countP_requested, Nat.zero_add]
      exact List.countP_le_length.trans hlength
  · rcases tick_of_none hnone with heq | heq <;> rw [heq]

end Scheduler

/-- **Frames come to an end, and meet their budget.** Every step of a processor takes from one to eight cycles, whatever
it executes or serves, and whatever answers on its bus.  So every tick comes to its end, after 17030 instructions at
most, and a frame in which the machine does not halt takes from 17030 to 17037 cycles.  The same holds of a run for any
number of cycles, when the last count that it may come to fits, and over any calls the clock and the processor count
the cycles of the instructions executed, as long as they fit. -/
theorem frames_meet_budget :
    (∀ {σ : Type} [Bus σ] (p : Processor) (bus : σ), 1 ≤ (p.step bus).1 ∧ (p.step bus).1 ≤ 8) ∧
      (∀ (s : Scheduler) (now : Nat), s.TickMeetsBudget now) ∧
      (∀ (m : Machine) (n : Nat), m.clock + n + 7 < Count.size →
        ∃ executed, Machine.MeetsBudget (untilClock (Count.add m.clock n)) m n executed (m.runCycles n) ∧
          ((m.runCycles n).1 = true →
            m.clock + n ≤ (m.runCycles n).2.clock ∧ (m.runCycles n).2.clock ≤ m.clock + n + 7)) ∧
      ∀ (m : Machine) (calls : List Bool),
        m.Counts ((runAll Machine.attempt calls m).1.flatten.map Machine.cost).sum
          (runAll Machine.attempt calls m).2 := by
  refine ⟨fun p bus => p.cycles_step bus, Scheduler.tickMeetsBudget, fun m n hfits => ?_,
    fun m calls => m.counts_attempts calls⟩
  have hbudget := Machine.meetsBudget_runCycles hfits
  exact ⟨_, hbudget, fun hcomplete => hbudget.advance hcomplete hfits⟩

/-- A no-operation of eight cycles ends a run for one cycle as late as can be. -/
theorem frames_meet_budget_latest :
    let m : Machine :=
      { Machine.ofModel .cmos with board.memory.ram := (Vector.replicate _ 0).set 0 0x5C (by decide) }
    (m.runCycles 1).1 = true ∧ (m.runCycles 1).2.clock = m.clock + 1 + 7 ∧
      ∃ executed, Machine.MeetsBudget (untilClock 1) m 1 executed (m.runCycles 1) := by
  intro m
  obtain ⟨-, -, hruns, -⟩ := frames_meet_budget
  obtain ⟨executed, hbudget, -⟩ := hruns m 1 (by decide)
  exact ⟨by decide +kernel, by decide +kernel, executed, hbudget⟩

/-- A run by the clock whose end wraps around is over before it begins. -/
theorem run_wraps_around :
    let m : Machine := { Machine.ofModel .cmos with board.clock := 0xFFFFFFFFFFFFFFF0 }
    m.clock < Count.size ∧ (m.runCycles 17).1 = true ∧ ¬m.clock + 17 ≤ (m.runCycles 17).2.clock := by
  intro m
  rw [Machine.runCycles_of_wrap (m := m) (n := 17) (by decide) (by decide) (by decide)]
  decide

end AppleII
