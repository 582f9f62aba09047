import AppleII.Proofs.Machine.Course
import AppleII.Proofs.Machine.InPlace
import AppleII.Proofs.Machine.Reset
import AppleII.Scheduler.Command

/-!
# Where a scheduler stands

`Scheduler.Standing` is what decides which instruction comes next, and whether a breakpoint stops it.
A tick runs a frame after a boot, after a reset or in a run that goes on (`enter?_cases`), along the course of
its machine (`runFrame_course`).  Most commands leave everything but the breakpoints alone
(`standing_handle_of_quiet`).
-/

namespace AppleII

/-- What a user may ask a scheduler to do at its next frame. -/
inductive Request where
  | boot
  | reset
  deriving DecidableEq, Repr

namespace Request

/-- The run state of a scheduler that was asked. -/
def state : Request → RunState
  | .boot => .needBoot
  | .reset => .needReset

def act : Request → Act
  | .boot => .boot
  | .reset => .reset

def command : Request → Command
  | .boot => .boot
  | .reset => .reset

theorem state_ne (r : Request) : r.state ≠ .idle ∧ r.state ≠ .running ∧ r.state ≠ .paused := by
  cases r <;> decide

end Request

/-- The commands that neither start nor stop a machine, nor give it another processor. -/
def Command.quiet : Command → Bool
  | .boot | .reset | .run | .pause | .stepInto | .stepOver | .stepOut | .runToAddress _ | .restoreState _
  | .timeTravelBackward | .timeTravelForward | .timeTravelIndex _ | .setRegister _ _ => false
  | _ => true

/-- The commands that may give the machine another processor. -/
def Command.setsProcessor : Command → Bool
  | .restoreState _ | .timeTravelBackward | .timeTravelForward | .timeTravelIndex _ | .setRegister _ _ => true
  | _ => false

namespace Scheduler

/-- The machines that a frame comes to. -/
def course (s : Scheduler) : List Machine :=
  s.machine.course (Machine.forCycles frameCycles) frameCycles 0

/-- The scheduler as a tick at `now` lets it run a frame; none when the tick runs no frame. -/
def enter? (s : Scheduler) (now : Nat) : Option Scheduler :=
  if now - s.previousTime < s.speedMode.refresh then none
  else
    let s := { s with previousTime := now }
    match s.state with
    | .idle | .paused => none
    | .needBoot => some (s.boot.setState .running)
    | .needReset => some (s.reset.setState .running)
    | .running => some s

/-- The machine after its next opcode was looked at. -/
def lookedAt (s : Scheduler) : Machine :=
  { s.machine with board := (s.machine.board.read s.machine.cpu.regs.pc).2 }

/-- The run state, the processor, the clock, the breakpoints, and whether the machine was just resumed. -/
structure Standing where
  state : RunState
  cpu : Processor
  clock : Nat
  debugger : Debugger
  skip : Bool

def standing (s : Scheduler) : Standing :=
  ⟨s.state, s.machine.cpu, s.machine.clock, s.machine.debugger, s.machine.skipBreakpoint⟩

@[simp] theorem standing_publish (s : Scheduler) : s.publish.standing = s.standing := rfl

@[simp] theorem standing_setDisk (s : Scheduler) (disk : Disk.Controller) :
    (s.setDisk disk).standing = s.standing := rfl

@[simp] theorem standing_modifyMemory (s : Scheduler) (f : Memory → Memory) :
    (s.modifyMemory f).standing = s.standing := rfl

@[simp] theorem standing_modifyDebugger (s : Scheduler) (f : Debugger → Debugger) :
    (s.modifyDebugger f).standing = { s.standing with debugger := f s.machine.debugger } := rfl

@[simp] theorem standing_setSpeed (s : Scheduler) (mode : SpeedMode) :
    (s.setSpeed mode).standing = s.standing := rfl

@[simp] theorem standing_applyButtons (s : Scheduler) : s.applyButtons.standing = s.standing := rfl

theorem standing_setState (s : Scheduler) (state : RunState) :
    (s.setState state).standing =
      { s.standing with
        state
        skip := s.standing.skip || (state = .running ∧ s.standing.state = .paused) } := by
  unfold setState
  simp only [standing_publish]
  by_cases hrun : state = .running
  · by_cases hpaused : s.state = .paused <;>
      simp [standing, restartMeasurement, hrun, hpaused, Machine.resume, Machine.clock]
  · simp [standing, restartMeasurement, hrun]

/-- The standing of a scheduler that runs on once its machine did what was asked for. -/
def served (s : Scheduler) (r : Request) : Standing :=
  let m := s.machine.perform r.act
  ⟨.running, m.cpu, m.clock, m.debugger, false⟩

theorem standing_boot (s : Scheduler) : s.boot.standing = { s.served .boot with state := s.state } := by
  simp only [served, Request.act, Machine.perform]
  rw [← Machine.skipBreakpoint_boot s.machine]
  exact standing_applyButtons _

theorem standing_reset (s : Scheduler) : s.reset.standing = { s.served .reset with state := s.state } := by
  simp only [served, Request.act, Machine.perform]
  rw [← Machine.skipBreakpoint_reset s.machine]
  exact standing_applyButtons _

@[simp] theorem standing_countFrame (s : Scheduler) (now : Nat) :
    (s.countFrame now).standing = s.standing := rfl

@[simp] theorem standing_pollInput (s : Scheduler) : s.pollInput.standing = s.standing := by
  unfold pollInput
  split <;> rfl

@[simp] theorem standing_takeSnapshot (s : Scheduler) (complete : Bool) :
    (s.takeSnapshot complete).standing = s.standing := by
  unfold takeSnapshot
  simp only
  generalize (if complete then s.snapshots.tick else (false, s.snapshots)) = p
  split <;> rfl

/-! ## Frames -/

/-- The instructions of a frame executed; the machine is paused if it has halted. -/
def cycled (s : Scheduler) : Scheduler :=
  let (complete, machine) := s.machine.runFor frameCycles
  let s := { s with machine }
  if complete then s else s.setState .paused

/-- What is left to do in a frame after its instructions. -/
def endFrame (s : Scheduler) (now : Nat) (complete : Bool) : Scheduler :=
  let s := s.countFrame now
  let s := if s.frames % 2 = 1 then s.pollInput.publish else s
  s.takeSnapshot complete

theorem runFrame_eq (s : Scheduler) (now : Nat) :
    s.runFrame now = s.cycled.endFrame now (s.machine.runFor frameCycles).1 := by
  unfold runFrame cycled
  generalize s.machine.runFor frameCycles = r
  rfl

/-- The scheduler with another debugger, and another last panel. -/
def masked (s : Scheduler) (debugger : Debugger → Debugger) (panel : Panel → Panel) : Scheduler :=
  { s with machine.debugger := debugger s.machine.debugger, latest := panel s.latest }

section Masked

variable {f : Debugger → Debugger} {g : Panel → Panel}

theorem masked_pollInput (s : Scheduler) : (s.masked f g).pollInput = s.pollInput.masked f g := by
  obtain ⟨machine, history, snapshots, requested, state, speedMode, hostTime, previousTime, startTime, frames, speed,
    address, buttons, input, pending, latest, published⟩ := s
  match input with
  | [] => rfl
  | none :: rest => rfl
  | some buttons :: rest => rfl

theorem masked_takeSnapshot (s : Scheduler) (complete : Bool) :
    (s.masked f g).takeSnapshot complete = (s.takeSnapshot complete).masked f g := by
  unfold takeSnapshot
  rw [apply_ite (masked · f g)]
  rfl

/-- A frame ends alike whatever the debugger is, if panels are published alike. -/
theorem masked_endFrame (hpublish : ∀ s : Scheduler, (s.masked f g).publish = s.publish.masked f g) (s : Scheduler)
    (now : Nat) (complete : Bool) : (s.masked f g).endFrame now complete = (s.endFrame now complete).masked f g := by
  have hcount : (s.masked f g).countFrame now = (s.countFrame now).masked f g := rfl
  unfold endFrame
  rw [hcount, ← masked_takeSnapshot, apply_ite (masked · f g), ← hpublish, ← masked_pollInput]
  rfl

end Masked

theorem standing_endFrame (s : Scheduler) (now : Nat) (complete : Bool) :
    (s.endFrame now complete).standing = s.standing := by
  unfold endFrame
  simp only [standing_takeSnapshot]
  rw [apply_ite standing]
  simp only [standing_publish, standing_pollInput, standing_countFrame, ite_self]

theorem standing_runFrame (s : Scheduler) (now : Nat) :
    (s.runFrame now).standing =
      let (complete, m) := s.machine.runFor frameCycles
      ⟨if complete then s.state else .paused, m.cpu, m.clock, m.debugger, m.skipBreakpoint⟩ := by
  rw [runFrame_eq, standing_endFrame]
  unfold cycled
  obtain ⟨complete, m⟩ := s.machine.runFor frameCycles
  cases complete with
  | true => rfl
  | false =>
    refine (standing_setState _ _).trans ?_
    simp [standing]

theorem course_of_not_stops {s : Scheduler} (h : s.machine.stops = false) :
    ∃ x rest, s.course = s.machine :: x :: rest :=
  Machine.exists_course_of_not_stops (by decide) rfl h

/-- A frame ends where its course does, and its machine was not just resumed.  Unless it ends paused, its
breakpoints are those of the machine there. -/
theorem runFrame_course (s : Scheduler) (now : Nat) :
    ∃ front last, s.course = front ++ [last] ∧ (s.runFrame now).machine.cpu = last.cpu ∧
      (s.runFrame now).machine.clock = last.clock ∧ (s.runFrame now).machine.skipBreakpoint = false ∧
      ((s.runFrame now).state = .paused ∨
        (s.runFrame now).state = s.state ∧ (s.runFrame now).machine.debugger = last.debugger) := by
  obtain ⟨front, last, hcourse, hend⟩ :=
    Machine.runWhile_course (Machine.forCycles frameCycles) frameCycles 0 s.machine
  have hskip : last.skipBreakpoint = false := by
    by_cases hfront : front = []
    · subst hfront
      cases hstops : s.machine.stops with
      | true =>
        rw [Machine.course_of_stops hstops] at hcourse
        cases hcourse
        exact (Machine.stops_iff.mp hstops).1
      | false =>
        obtain ⟨x, rest, hgoes⟩ := course_of_not_stops hstops
        have hlength := congrArg List.length (hgoes.symm.trans hcourse)
        simp at hlength
    · exact Machine.skipBreakpoint_of_course hcourse hfront
  have hstanding := standing_runFrame s now
  unfold Machine.runFor at hstanding
  generalize Machine.runWhile _ _ _ _ = p at hstanding hend
  refine ⟨front, last, hcourse, ?_⟩
  cases hend with
  | complete =>
    have hstate : (s.runFrame now).state = s.state := congrArg Standing.state hstanding
    exact ⟨congrArg Standing.cpu hstanding, congrArg Standing.clock hstanding,
      (congrArg Standing.skip hstanding).trans hskip, .inr ⟨hstate, congrArg Standing.debugger hstanding⟩⟩
  | returned =>
    have hstate : (s.runFrame now).state = .paused := congrArg Standing.state hstanding
    exact ⟨congrArg Standing.cpu hstanding, congrArg Standing.clock hstanding,
      (congrArg Standing.skip hstanding).trans hskip, .inl hstate⟩
  | stopped debugger h =>
    have hstate : (s.runFrame now).state = .paused := congrArg Standing.state hstanding
    exact ⟨congrArg Standing.cpu hstanding, congrArg Standing.clock hstanding,
      congrArg Standing.skip hstanding, .inl hstate⟩

/-- A breakpoint that stops the first instruction of a frame ends it before that. -/
theorem runFrame_of_stops {s : Scheduler} (h : s.machine.stops = true) (now : Nat) :
    s.course = [s.machine] ∧ (s.runFrame now).state = .paused := by
  refine ⟨Machine.course_of_stops h, (congrArg Standing.state (standing_runFrame s now)).trans ?_⟩
  have hhalts : (s.machine.runFor frameCycles).1 = false := Machine.runWhile_of_stops (by decide) rfl h
  exact if_neg (ne_true_of_eq_false hhalts)

/-! ## Ticks -/

theorem enter?_of_running {s : Scheduler} (h : s.state = .running) (now : Nat) :
    s.enter? now =
      if now - s.previousTime < s.speedMode.refresh then none else some { s with previousTime := now } := by
  unfold enter?
  simp only [h]

/-- A frame is run after a boot, after a reset or when a run goes on. -/
theorem enter?_eq {s f : Scheduler} {now : Nat} (h : s.enter? now = some f) :
    s.state = .needBoot ∧ f = { s with previousTime := now }.boot.setState .running ∨
      s.state = .needReset ∧ f = { s with previousTime := now }.reset.setState .running ∨
      s.state = .running ∧ f = { s with previousTime := now } := by
  unfold enter? at h
  split at h
  · cases h
  · dsimp only at h
    split at h
    · cases h
    · cases h
    · next hstate => exact .inl ⟨hstate, (Option.some.inj h).symm⟩
    · next hstate => exact .inr (.inl ⟨hstate, (Option.some.inj h).symm⟩)
    · next hstate => exact .inr (.inr ⟨hstate, (Option.some.inj h).symm⟩)

theorem enter?_cases {s f : Scheduler} {now : Nat} (h : s.enter? now = some f) :
    (∃ r : Request, s.state = r.state ∧ f.standing = s.served r) ∨
      s.state = .running ∧ f = { s with previousTime := now } := by
  rcases enter?_eq h with ⟨hstate, rfl⟩ | ⟨hstate, rfl⟩ | hrunning
  · refine .inl ⟨.boot, hstate, ?_⟩
    rw [standing_setState, standing_boot]
    simp [served, hstate]
  · refine .inl ⟨.reset, hstate, ?_⟩
    rw [standing_setState, standing_reset]
    simp [served, hstate]
  · exact .inr hrunning

theorem tick_of_enter {s f : Scheduler} {now : Nat} (h : s.enter? now = some f) :
    s.tick now = (true, f.runFrame now) := by
  unfold enter? at h
  unfold tick
  split at h
  · cases h
  · next hdue =>
    rw [if_neg hdue]
    simp only at h ⊢
    split at h <;> simp_all

theorem tick_of_none {s : Scheduler} {now : Nat} (h : s.enter? now = none) :
    (s.tick now).2 = s ∨ (s.tick now).2 = { s with previousTime := now } := by
  unfold enter? at h
  unfold tick
  split at h
  · next hdue =>
    rw [if_pos hdue]
    exact .inl rfl
  · next hdue =>
    rw [if_neg hdue]
    dsimp only at h ⊢
    split at h
    · next hstate =>
      rw [hstate]
      exact .inr rfl
    · next hstate =>
      rw [hstate]
      exact .inr rfl
    · cases h
    · cases h
    · cases h

theorem standing_tick_of_none {s : Scheduler} {now : Nat} (h : s.enter? now = none) :
    (s.tick now).2.standing = s.standing := by
  rcases tick_of_none h with heq | heq
  · rw [heq]
  · rw [heq]
    rfl

/-! ## Commands -/

theorem bootIfIdle_of_ne {s : Scheduler} (h : s.state ≠ .idle) : s.bootIfIdle = s := if_neg h

theorem standing_bootIfIdle {s : Scheduler} (h : s.state = .idle) :
    s.bootIfIdle.standing = { s.served .boot with state := .paused } := by
  have hpaused : ∀ s : Scheduler, ({ s with state := .paused } : Scheduler).standing =
      { s.standing with state := .paused } := fun _ => rfl
  rw [bootIfIdle, if_pos h, hpaused, standing_boot]

/-- A step out of a machine that was never booted boots it, and resumes it. -/
theorem standing_stepOut_of_idle {s : Scheduler} (h : s.state = .idle) :
    s.stepOut.standing =
      ⟨.running, s.machine.boot.cpu, s.machine.boot.clock,
        s.machine.debugger.armStepOut s.machine.boot.cpu.regs.sp, true⟩ := by
  have harmed : ∀ s : Scheduler,
      ({ s with
          machine.debugger := s.machine.debugger.armStepOut s.machine.cpu.regs.sp } : Scheduler).standing =
        { s.standing with
          debugger := s.standing.debugger.armStepOut s.standing.cpu.regs.sp } := fun _ => rfl
  unfold stepOut
  rw [standing_setState, harmed, standing_bootIfIdle h]
  simp [served, Request.act, Machine.perform, Machine.debugger_boot]

theorem state_bootIfIdle_ne (s : Scheduler) : s.bootIfIdle.state ≠ .idle := by
  unfold bootIfIdle
  split
  · exact RunState.noConfusion
  · assumption

/-- Once a machine was booted, a step over is a step into, or the step into a subroutine and the step out
of it. -/
theorem stepOver_cases (s : Scheduler) :
    ∃ s' : Scheduler, s'.machine = s.bootIfIdle.lookedAt ∧ s'.state = s.bootIfIdle.state ∧
      (s.stepOver = s'.stepInto ∨ s.stepOver = s'.executeOne.stepOut) := by
  refine ⟨{ s.bootIfIdle with machine := s.bootIfIdle.lookedAt }, rfl, rfl, ?_⟩
  unfold stepOver
  simp only
  split
  · exact .inr rfl
  · exact .inl rfl

/-- A save state that is put into the machine ends its resumption. -/
theorem restoreState_cases (s : Scheduler) (state : SaveState) :
    (s.restoreState state).2.state = s.state ∧
      ((s.restoreState state).2.standing = s.standing ∨
        (s.restoreState state).2.machine.skipBreakpoint = false) := by
  unfold restoreState
  rcases Machine.restore_cases state s.machine with ⟨e, h⟩ | ⟨m, h, hskip, -⟩
  · rw [h]
    exact ⟨rfl, .inl rfl⟩
  · rw [h]
    exact ⟨rfl, .inr hskip⟩

theorem state_adopt (s : Scheduler) (state : Option SaveState) : (s.adopt state).state = s.state := by
  unfold adopt
  split
  · split <;> rfl
  · rfl

theorem state_travel (s : Scheduler)
    (move : SaveState → History SaveState → Option SaveState × History SaveState) :
    (s.travel move).state = .paused := state_adopt _ _

theorem standing_handle_of_quiet {c : Command} (h : c.quiet = true) (s : Scheduler) :
    ∃ debugger, (s.handle c).2.standing = { s.standing with debugger } := by
  cases c with
  | setDisassemblyAddress address =>
    refine ⟨s.machine.debugger, ?_⟩
    show standing (if _ then _ else _) = _
    split <;> rfl
  | loadDisk drive name bytes =>
    refine ⟨s.machine.debugger, ?_⟩
    show (s.loadDisk drive name bytes).2.standing = _
    unfold loadDisk
    split <;> rfl
  | ejectDisk drive =>
    refine ⟨s.machine.debugger, ?_⟩
    show (s.ejectDisk drive).2.standing = _
    unfold ejectDisk
    split <;> rfl
  | button index pressed =>
    refine ⟨s.machine.debugger, ?_⟩
    show (s.pressButton index pressed).standing = _
    unfold pressButton
    split <;> rfl
  | setBreakpoint | clearBreakpoint | toggleBreakpoint | setSpeed | saveDisk | requestSnapshot | getSaveState
  | keyPress | setBinaryBlock => exact ⟨_, rfl⟩
  | _ => cases h

@[simp] theorem state_setState (s : Scheduler) (state : RunState) : (s.setState state).state = state := rfl

theorem state_stepOver (s : Scheduler) : s.stepOver.state = .running ∨ s.stepOver.state = .paused := by
  unfold stepOver
  simp only
  split
  · exact .inl rfl
  · exact .inr rfl

end Scheduler

end AppleII
