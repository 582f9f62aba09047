import AppleII.Proofs.Scheduler.Breakpoints
import AppleII.Proofs.Scheduler.StepOver

/-!
# Why a machine is paused

A tick that runs a frame pauses the machine at an enabled breakpoint, or after the return that ends the step out
that was armed last (`halt_explained`).  No command ends a step out, and neither a boot nor a reset does: it stays
armed until the machine returns above its depth, or until another one takes its place.  So it may stop a machine
long after the user has gone on to something else (`abandoned_stepOut_halts`).
-/

namespace AppleII

open Processor.Instruction (callOpcode retOpcode)

/-- The event is a return, and leaves the stack pointer above a depth. -/
def Event.ReturnsAbove (depth : UInt8) (e : Event) : Prop := e.act = .instruction ∧ e.machine.ReturnsAbove depth

/-- Whether a command may let the machine execute an instruction at once, or arm a step out. -/
def Command.isStep : Command → Bool
  | .stepInto | .stepOver | .stepOut => true
  | _ => false

namespace Scheduler

/-- The depth of the step out that is armed. -/
def stepOut? (s : Scheduler) : Option UInt8 := s.machine.debugger.stepOut?

/-- The opcode that a step over looks at; the machine is booted first if it never was. -/
def lookAhead (s : Scheduler) : UInt8 := (s.bootIfIdle.machine.board.read s.bootIfIdle.machine.cpu.regs.pc).1

/-- The command arms a step out. -/
def Arms (s : Scheduler) : Command → Prop
  | .stepOut => True
  | .stepOver => s.lookAhead = callOpcode
  | _ => False

/-- A step out was armed at a depth, and since then none was armed and the machine has not returned above it. -/
inductive Pending (s₀ : Scheduler) : List Input → UInt8 → Prop
  | armed {inputs : List Input} {time : Nat} {c : Command} (arms : ((s₀.after inputs).atTime time).Arms c) :
      Pending s₀ (inputs ++ [.command time c]) (s₀.after (inputs ++ [.command time c])).machine.cpu.regs.sp
  | kept {inputs : List Input} {i : Input} {depth : UInt8} (since : Pending s₀ inputs depth)
      (unarmed : ∀ time c, i = .command time c → ¬ ((s₀.after inputs).atTime time).Arms c)
      (inside : ∀ e ∈ (react i (s₀.after inputs)).1, ¬ e.ReturnsAbove depth) : Pending s₀ (inputs ++ [i]) depth

/-! ## What keeps a step out armed -/

variable {s : Scheduler} {depth : UInt8}

theorem stepOut?_setState (s : Scheduler) (state : RunState) : (s.setState state).stepOut? = s.stepOut? := by
  show (s.setState state).standing.debugger.stepOut? = _
  rw [standing_setState]
  rfl

theorem stepOut?_bootIfIdle (s : Scheduler) : s.bootIfIdle.stepOut? = s.stepOut? := by
  by_cases h : s.state = .idle
  · show s.bootIfIdle.standing.debugger.stepOut? = _
    rw [standing_bootIfIdle h]
    simp only [served, Request.act, Machine.perform, Machine.debugger_boot]
    rfl
  · rw [bootIfIdle_of_ne h]

theorem stepOut?_adopt (s : Scheduler) (state : Option SaveState) : (s.adopt state).stepOut? = s.stepOut? := by
  unfold adopt
  split
  · next state =>
    rcases Machine.restore_cases state s.machine with ⟨e, h⟩ | ⟨m, h, -, hdebugger⟩
    · rw [h]
    · rw [h]
      exact congrArg Debugger.stepOut? hdebugger
  · rfl

theorem stepOut?_travel (s : Scheduler) (move : SaveState → History SaveState → Option SaveState × History SaveState) :
    (s.travel move).stepOut? = s.stepOut? := by
  unfold travel
  exact (stepOut?_adopt _ _).trans (s.stepOut?_setState .paused)

theorem stepOut?_restoreState (s : Scheduler) (state : SaveState) :
    (s.restoreState state).2.stepOut? = s.stepOut? := by
  unfold restoreState
  rcases Machine.restore_cases state s.machine with ⟨e, h⟩ | ⟨m, h, -, hdebugger⟩
  · rw [h]
  · rw [h]
    exact congrArg Debugger.stepOut? hdebugger

/-- An instruction keeps a step out armed unless it ends it. -/
theorem stepOut?_executeOne (h : s.executeOne.stepOut? = some depth) :
    s.stepOut? = some depth ∧ ¬ s.machine.ReturnsAbove depth := by
  have hone : s.executeOne.stepOut? = (s.machine.processInstruction true).2.debugger.stepOut? := rfl
  rw [hone, Machine.processInstruction_true] at h
  cases hends : s.machine.endsStepOut with
  | true =>
    rw [hends] at h
    cases h
  | false =>
    rw [hends] at h
    have h : s.machine.debugger.stepOut? = some depth := h
    refine ⟨h, fun hreturns => ?_⟩
    have hends' := Machine.endsStepOut_iff.mpr ⟨depth, h, hreturns⟩
    exact absurd (hends.symm.trans hends') Bool.noConfusion

/-! ## Commands -/

theorem stepOut?_handle {c : Command} (h : c.isStep = false) (s : Scheduler) :
    (s.handle c).2.stepOut? = s.stepOut? := by
  cases c with
  | stepInto | stepOver | stepOut => cases h
  | boot | reset | run => exact s.stepOut?_setState _
  | runToAddress address => exact (stepOut?_setState _ _).trans rfl
  | pause =>
    show (if s.state = .idle then s else s.setState .paused).stepOut? = _
    split
    · rfl
    · exact s.stepOut?_setState _
  | restoreState state => exact s.stepOut?_restoreState state
  | timeTravelBackward => exact s.stepOut?_travel fun present h => h.stepBackward present
  | timeTravelForward => exact s.stepOut?_travel fun _ h => h.stepForward
  | timeTravelIndex index => exact s.stepOut?_travel fun _ h => h.jumpTo index
  | setRegister register value =>
    show (s.setRegister register value).stepOut? = _
    unfold setRegister
    split <;> rfl
  | setDisassemblyAddress address =>
    show stepOut? (if _ then _ else _) = _
    split <;> rfl
  | loadDisk drive name bytes =>
    show (s.loadDisk drive name bytes).2.stepOut? = _
    unfold loadDisk
    split <;> rfl
  | ejectDisk drive =>
    show (s.ejectDisk drive).2.stepOut? = _
    unfold ejectDisk
    split <;> rfl
  | button index pressed =>
    show (s.pressButton index pressed).stepOut? = _
    unfold pressButton
    split <;> rfl
  | setBreakpoint | clearBreakpoint | toggleBreakpoint | setSpeed | saveDisk | requestSnapshot | getSaveState
  | keyPress | setBinaryBlock => rfl

theorem commandEvents_of_not_step {c : Command} (h : c.isStep = false) (s : Scheduler) :
    s.commandEvents c = [] ∧ ¬ s.Arms c := by
  cases c <;> first | exact ⟨rfl, id⟩ | cases h

theorem stepOut?_stepOut (s : Scheduler) : s.stepOut.stepOut? = some s.stepOut.machine.cpu.regs.sp := by
  have hstanding := standing_setState { s.bootIfIdle with
    machine.debugger := s.bootIfIdle.machine.debugger.armStepOut s.bootIfIdle.machine.cpu.regs.sp } .running
  show s.stepOut.standing.debugger.stepOut? = some s.stepOut.standing.cpu.regs.sp
  unfold stepOut
  simp only
  rw [hstanding]
  rfl

/-- The scheduler after the opcode was looked at. -/
def looked (s : Scheduler) : Scheduler := { s.bootIfIdle with machine := s.bootIfIdle.lookedAt }

theorem stepOver_eq (s : Scheduler) :
    s.stepOver = if s.lookAhead = callOpcode then s.looked.executeOne.stepOut else s.looked.stepInto := rfl

theorem inside_firstBoot (s : Scheduler) (depth : UInt8) : ∀ e ∈ s.firstBoot, ¬ e.ReturnsAbove depth := by
  unfold firstBoot
  split <;> simp [Event.ReturnsAbove]

/-- After a command a step out is armed by the command, or it was armed before and the machine has not returned
above its depth. -/
theorem stepOut?_of_handle {c : Command} (h : (s.handle c).2.stepOut? = some depth) :
    s.Arms c ∧ depth = (s.handle c).2.machine.cpu.regs.sp ∨
      s.stepOut? = some depth ∧ ¬ s.Arms c ∧ ∀ e ∈ s.commandEvents c, ¬ e.ReturnsAbove depth := by
  cases hstep : c.isStep with
  | false =>
    right
    obtain ⟨hnothing, hunarmed⟩ := commandEvents_of_not_step hstep s
    rw [hnothing]
    exact ⟨(stepOut?_handle hstep s).symm.trans h, hunarmed, by simp⟩
  | true =>
    cases c with
    | stepOut =>
      left
      have harmed : s.stepOut.stepOut? = some depth := h
      rw [stepOut?_stepOut] at harmed
      exact ⟨trivial, (Option.some.inj harmed).symm⟩
    | stepInto =>
      right
      have hone : s.bootIfIdle.executeOne.stepOut? = some depth := (stepOut?_setState _ .paused).symm.trans h
      obtain ⟨hbefore, hinside⟩ := stepOut?_executeOne hone
      refine ⟨s.stepOut?_bootIfIdle.symm.trans hbefore, id, ?_⟩
      refine List.forall_mem_append.mpr ⟨s.inside_firstBoot depth, ?_⟩
      exact List.forall_mem_singleton.mpr fun hreturns => hinside hreturns.2
    | stepOver =>
      have h : s.stepOver.stepOut? = some depth := h
      by_cases hcall : s.lookAhead = callOpcode
      · left
        rw [stepOver_eq, if_pos hcall, stepOut?_stepOut] at h
        refine ⟨hcall, (Option.some.inj h).symm.trans ?_⟩
        show _ = s.stepOver.machine.cpu.regs.sp
        rw [stepOver_eq, if_pos hcall]
      · right
        have hidle : s.looked.state ≠ .idle := s.state_bootIfIdle_ne
        rw [stepOver_eq, if_neg hcall, stepInto, bootIfIdle_of_ne hidle, stepOut?_setState] at h
        obtain ⟨hbefore, hinside⟩ := stepOut?_executeOne h
        refine ⟨s.stepOut?_bootIfIdle.symm.trans hbefore, hcall, ?_⟩
        refine List.forall_mem_append.mpr ⟨s.inside_firstBoot depth, ?_⟩
        exact List.forall_mem_singleton.mpr fun hreturns => hinside hreturns.2
    | _ => cases hstep

/-! ## Ticks -/

/-- A due tick does what was asked for, and runs a frame. -/
theorem exists_enter?_of_request {r : Request} {now : Nat} (h : s.state = r.state)
    (hdue : ¬ now - s.previousTime < s.speedMode.refresh) :
    ∃ f, s.enter? now = some f ∧ f.standing = s.served r := by
  have hsome : ∃ f, s.enter? now = some f := by
    unfold enter?
    rw [if_neg hdue]
    cases r <;> simp only [h, Request.state, Option.some.injEq, exists_eq']
  obtain ⟨f, hf⟩ := hsome
  refine ⟨f, hf, ?_⟩
  rcases enter?_cases hf with ⟨r', hr, hserved⟩ | ⟨hrunning, -⟩
  · have hsame : r' = r := by
      have hstates := hr.symm.trans h
      cases r <;> cases r' <;> first | rfl | cases hstates
    exact hsame ▸ hserved
  · exact absurd (h.symm.trans hrunning) r.state_ne.2.1

/-- A frame starts with the breakpoints and the step out that there were before the tick. -/
theorem debugger_of_enter {f : Scheduler} {now : Nat} (h : s.enter? now = some f) :
    f.machine.debugger = s.machine.debugger := by
  rcases enter?_cases h with ⟨r, -, hf⟩ | ⟨-, rfl⟩
  · have hdebugger : f.machine.debugger = (s.served r).debugger := congrArg Standing.debugger hf
    rw [hdebugger]
    cases r <;> simp only [served, Request.act, Machine.perform, Machine.debugger_boot, Machine.debugger_reset]
  · rfl

theorem inside_requested (s : Scheduler) (depth : UInt8) : ∀ e ∈ s.requested, ¬ e.ReturnsAbove depth := by
  unfold requested
  split <;> simp [Event.ReturnsAbove]

theorem inside_map {l : List Machine} (h : ∀ m ∈ l, ¬ m.ReturnsAbove depth) :
    ∀ e ∈ l.map fun m => (⟨.instruction, m⟩ : Event), ¬ e.ReturnsAbove depth :=
  List.forall_mem_map.mpr fun m hm hreturns => h m hm hreturns.2

/-- After a tick only a step out is armed that was armed before, and above whose depth the machine has not
returned. -/
theorem stepOut?_of_tick {now : Nat} (h : (s.tick now).2.stepOut? = some depth) :
    s.stepOut? = some depth ∧ ∀ e ∈ s.tickEvents now, ¬ e.ReturnsAbove depth := by
  unfold tickEvents
  cases henter : s.enter? now with
  | none =>
    have hstanding := congrArg (fun x => x.debugger.stepOut?) (standing_tick_of_none henter)
    exact ⟨hstanding.symm.trans h, by simp⟩
  | some f =>
    rw [tick_of_enter henter] at h
    have hsame := congrArg Debugger.stepOut? (debugger_of_enter henter)
    have hafter : (f.runFrame now).stepOut? = (f.machine.runFor frameCycles).2.debugger.stepOut? :=
      congrArg (fun x => x.debugger.stepOut?) (standing_runFrame f now)
    have hstill : f.machine.debugger.stepOut? = some depth → (∀ m ∈ f.course.dropLast, ¬ m.ReturnsAbove depth) →
        s.stepOut? = some depth ∧ ∀ e ∈ s.requested ++ f.frameEvents, ¬ e.ReturnsAbove depth := fun hf hinside =>
      ⟨hsame.symm.trans hf, List.forall_mem_append.mpr ⟨s.inside_requested depth, inside_map hinside⟩⟩
    have hends := Machine.runEnds_runWhile (Machine.forCycles frameCycles) frameCycles 0 f.machine
    have h : (f.machine.runFor frameCycles).2.debugger.stepOut? = some depth := hafter.symm.trans h
    unfold Machine.runFor at h
    generalize Machine.runWhile _ _ _ _ = r at hends h
    cases hends with
    | complete debugger before =>
      have hf := (congrArg Debugger.stepOut? debugger).symm.trans h
      exact hstill hf (before depth hf)
    | stopped hit before =>
      have hf := hit.stepOut?.symm.trans h
      exact hstill hf (before depth hf)
    | returned front x last armed before returns cpu debugger =>
      have hdisarmed := (congrArg Debugger.stepOut? debugger).symm.trans h
      cases hdisarmed

/-- Whatever step out is armed was armed by the last command that has armed one. -/
theorem pending_of_stepOut? {s₀ : Scheduler} (hnew : s₀.machine.debugger.stepOutArmed = false) {inputs : List Input}
    (h : (s₀.after inputs).stepOut? = some depth) : s₀.Pending inputs depth := by
  induction inputs using List.reverseRecOn with
  | nil =>
    have hnone : s₀.stepOut? = none := by
      unfold stepOut? Debugger.stepOut?
      rw [hnew]
      rfl
    cases hnone.symm.trans h
  | append_singleton inputs i ih =>
    have hafter := s₀.after_concat inputs i
    cases i with
    | tick time now =>
      rw [hafter] at h
      obtain ⟨hbefore, hinside⟩ := stepOut?_of_tick (s := (s₀.after inputs).atTime time) h
      exact .kept (ih hbefore) (fun _ _ hi => nomatch hi) hinside
    | command time c =>
      rw [hafter] at h
      rcases stepOut?_of_handle (s := (s₀.after inputs).atTime time) h with
        ⟨harms, hdepth⟩ | ⟨hbefore, hunarmed, hinside⟩
      · have hpending := @Pending.armed s₀ inputs time c harms
        rw [hafter] at hpending
        exact hdepth ▸ hpending
      · refine .kept (ih hbefore) (fun time' c' hi => ?_) hinside
        cases hi
        exact hunarmed

/-- Why the machine is paused after a tick that follows some inputs. -/
inductive HaltCause (s₀ : Scheduler) (inputs : List Input) (time now : Nat) : Prop
  /-- It stands at an enabled breakpoint, which was counted, or removed if it was for one hit. -/
  | breakpoint (b : Breakpoint)
      (hit : (s₀.after inputs).machine.debugger.Hit (s₀.after (inputs ++ [.tick time now])).machine.cpu.regs.pc b
        (s₀.after (inputs ++ [.tick time now])).machine.debugger)
  /-- The last instruction is the first return above the depth of the step out that was armed last. -/
  | returned (depth : UInt8) (pending : s₀.Pending inputs depth) (front : List Event) (m : Machine)
      (events : (react (.tick time now) (s₀.after inputs)).1 = front ++ [⟨.instruction, m⟩])
      (before : ∀ e ∈ front, ¬ e.ReturnsAbove depth) (returns : m.ReturnsAbove depth)
      (cpu : (s₀.after (inputs ++ [.tick time now])).machine.cpu = m.stepped.cpu)
      (disarmed : (s₀.after (inputs ++ [.tick time now])).machine.debugger =
        (s₀.after inputs).machine.debugger.disarmStepOut)

end Scheduler

/-- **Every halt is explained.** Whatever has reached a scheduler in which no step out was armed at first, a tick
that runs a frame leaves the machine paused only at an enabled breakpoint, or after the first return above the
depth of the step out that a command has armed last. -/
theorem halt_explained {s₀ : Scheduler} (hnew : s₀.machine.debugger.stepOutArmed = false) {inputs : List Input}
    {time now : Nat} {f : Scheduler} (hf : ((s₀.after inputs).atTime time).enter? now = some f)
    (hpaused : (s₀.after (inputs ++ [.tick time now])).state = .paused) : s₀.HaltCause inputs time now := by
  have hafter : s₀.after (inputs ++ [.tick time now]) = f.runFrame now := by
    rw [Scheduler.after_concat]
    exact congrArg Prod.snd (Scheduler.tick_of_enter hf)
  have hevents : (Scheduler.react (.tick time now) (s₀.after inputs)).1 =
      ((s₀.after inputs).atTime time).requested ++ f.frameEvents := by
    simp only [Scheduler.react, Scheduler.tickEvents, hf]
  have hdebugger : f.machine.debugger = (s₀.after inputs).machine.debugger :=
    Scheduler.debugger_of_enter (s := (s₀.after inputs).atTime time) hf
  have hstanding := Scheduler.standing_runFrame f now
  have hends := Machine.runEnds_runWhile (Machine.forCycles Scheduler.frameCycles) Scheduler.frameCycles 0 f.machine
  unfold Machine.runFor at hstanding
  generalize Machine.runWhile _ _ _ _ = r at hstanding hends
  rw [← hafter] at hstanding
  cases hends with
  | complete =>
    have hstate : (s₀.after (inputs ++ [.tick time now])).state = f.state :=
      congrArg Scheduler.Standing.state hstanding
    have hrunning := Scheduler.state_of_enter hf
    cases hpaused.symm.trans (hstate.trans hrunning)
  | @stopped m' b hit before =>
    refine .breakpoint b ?_
    have hcpu : (s₀.after (inputs ++ [.tick time now])).machine.cpu = m'.cpu :=
      congrArg Scheduler.Standing.cpu hstanding
    have hdebugger' : (s₀.after (inputs ++ [.tick time now])).machine.debugger = m'.debugger :=
      congrArg Scheduler.Standing.debugger hstanding
    rw [hcpu, hdebugger', ← hdebugger]
    exact hit
  | @returned m' front x last depth armed before returns cpu debugger =>
    have hpending : s₀.Pending inputs depth :=
      Scheduler.pending_of_stepOut? hnew ((congrArg Debugger.stepOut? hdebugger).symm.trans armed)
    have hlast : f.frameEvents = (front.map fun m => ⟨.instruction, m⟩) ++ [⟨.instruction, x⟩] := by
      rw [Scheduler.frameEvents, Scheduler.course, last, List.map_append]
      rfl
    refine .returned depth hpending (((s₀.after inputs).atTime time).requested ++ front.map fun m => ⟨.instruction, m⟩)
      x ?_ ?_ returns ((congrArg Scheduler.Standing.cpu hstanding).trans cpu)
      (((congrArg Scheduler.Standing.debugger hstanding).trans debugger).trans
        (congrArg Debugger.disarmStepOut hdebugger))
    · rw [hevents, hlast, List.append_assoc]
    · exact List.forall_mem_append.mpr ⟨Scheduler.inside_requested _ depth, Scheduler.inside_map before⟩

/-- A breakpoint at the reset vector stops a machine right after its boot. -/
theorem Scheduler.paused_after_boot (s : Scheduler) {address : UInt16} {now : Nat}
    (hpc : s.machine.boot.cpu.regs.pc = address) (hdue : s.speedMode.refresh ≤ now) :
    let inputs : List Input := [.command 0 (.setBreakpoint address), .command 0 .boot]
    (∃ f, ((s.after inputs).atTime 0).enter? now = some f) ∧
      (s.after (inputs ++ [.tick 0 now])).state = .paused := by
  intro inputs
  have hmachine : ((s.after inputs).atTime 0).machine.boot.cpu.regs.pc = s.machine.boot.cpu.regs.pc := by
    rw [Machine.pc_boot, Machine.pc_boot]
    rfl
  have hadd : ((s.after inputs).atTime 0).machine.debugger = s.machine.debugger.addBreakpoint address := rfl
  have hstate : ((s.after inputs).atTime 0).state = Request.state .boot := rfl
  obtain ⟨f, hf, hserved⟩ := exists_enter?_of_request hstate (Nat.not_lt.mpr hdue)
  have hstops : f.machine.stops = true := by
    refine Machine.stops_iff.mpr ⟨congrArg Standing.skip hserved, ?_⟩
    refine Machine.onBreakpoint_of_add ?_ ((debugger_of_enter hf).trans hadd)
    have hcpu : f.machine.cpu = ((s.after inputs).atTime 0).machine.boot.cpu := by
      have hcpu : f.machine.cpu = (((s.after inputs).atTime 0).served .boot).cpu := congrArg Standing.cpu hserved
      simp only [served, Request.act, Machine.perform] at hcpu
      exact hcpu
    rw [hcpu, hmachine, hpc]
  refine ⟨⟨f, hf⟩, ?_⟩
  rw [after_concat]
  show (((s.after inputs).atTime 0).tick now).2.state = _
  rw [tick_of_enter hf]
  exact (runFrame_of_stops hstops now).2

theorem halt_explained_withNops :
    let inputs : List Input := [.command 0 (.setBreakpoint 0xEAEA), .command 0 .boot]
    Scheduler.withNops.machine.debugger.stepOutArmed = false ∧
      (∃ f, ((Scheduler.withNops.after inputs).atTime 0).enter? 16688100 = some f) ∧
      (Scheduler.withNops.after (inputs ++ [.tick 0 16688100])).state = .paused ∧
      Scheduler.withNops.HaltCause inputs 0 16688100 := by
  intro inputs
  have hunarmed : Scheduler.withNops.machine.debugger.stepOutArmed = false := by
    unfold Scheduler.withNops Machine.loadRom
    dsimp only
    split <;> rfl
  have hpc : Scheduler.withNops.machine.boot.cpu.regs.pc = 0xEAEA :=
    pc_boot_of_nops (m := Scheduler.withNops.machine) rfl
  have hdue : Scheduler.withNops.speedMode.refresh ≤ 16688100 := le_rfl
  obtain ⟨⟨f, hf⟩, hpaused⟩ := Scheduler.withNops.paused_after_boot hpc hdue
  exact ⟨hunarmed, ⟨f, hf⟩, hpaused, halt_explained hunarmed hf hpaused⟩

/-- A return above the depth of a step out is the only instruction of its frame. -/
theorem Scheduler.paused_of_returnsAbove {s : Scheduler} {depth : UInt8} (h : s.SteppingOut depth)
    (hreturns : s.machine.ReturnsAbove depth) (time : Nat) {now : Nat}
    (hdue : s.speedMode.refresh ≤ now - s.previousTime) :
    (react (.tick time now) s).1.map Event.act = [.instruction] ∧ (react (.tick time now) s).2.state = .paused := by
  have hcycles : ∀ k < 1, s.disarmed.machine.stepCycles k < frameCycles := by
    intro k hk
    obtain rfl := Nat.lt_one_iff.mp hk
    exact (by decide : 0 < frameCycles)
  obtain ⟨rest, hfirst⟩ := exists_events_of_due (s := s.disarmed) h.running h.machine.breakpoints rfl time hdue
    (by decide) hcycles
  have hplain : (react (.tick time now) s.disarmed).1 =
      [] ++ (⟨.instruction, s.disarmed.machine⟩ : Event) :: rest.map fun m => ⟨.instruction, m⟩ := by
    rw [events_cons] at hfirst
    exact (List.append_nil _).symm.trans hfirst
  cases stepsOut_tick h time now with
  | goesOn before =>
    rw [hplain] at before
    exact absurd hreturns (before _ List.mem_cons_self)
  | returned front back e events before returns executed paused =>
    obtain ⟨rfl, rfl⟩ := append_cons_inj_of_first (p := fun e : Event => e.machine.ReturnsAbove depth)
      (events.symm.trans hplain) before returns (by simp) hreturns
    have hacts := congrArg (List.map Event.act) executed
    rw [List.map_map] at hacts
    exact ⟨hacts, paused⟩

/-- A step out that the user has given up stops the machine later on: it was paused, moved to another place, and set
running there, without any breakpoint. -/
theorem abandoned_stepOut_halts :
    let s₀ : Scheduler := { machine := .ofModel .cmos }
    let s := s₀.after
      [.command 0 .stepOut, .command 0 .pause, .command 0 (.setRegister .pc 0x0010),
        .command 0 (.setBinaryBlock 0x0010 #[0x60]), .command 0 .run]
    s₀.machine.debugger.stepOutArmed = false ∧ s.state = .running ∧ s.machine.debugger.breakpoints = ∅ ∧
      (s.events [.tick 0 16688100]).map Event.act = [.instruction] ∧ (s.after [.tick 0 16688100]).state = .paused := by
  intro s₀ s
  have hnone : s.machine.debugger.breakpoints = ∅ := Std.ExtTreeMap.isEmpty_iff.mp (by decide +kernel)
  have hout : s.SteppingOut 0xFD := ⟨rfl, hnone, by decide +kernel, by decide +kernel⟩
  have hreturns : s.machine.ReturnsAbove 0xFD := ⟨by decide +kernel, by decide +kernel⟩
  have hdue : s.speedMode.refresh ≤ 16688100 - s.previousTime := by decide
  obtain ⟨hacts, hpaused⟩ := Scheduler.paused_of_returnsAbove hout hreturns 0 hdue
  refine ⟨rfl, hout.running, hnone, ?_, hpaused⟩
  rw [Scheduler.events_cons]
  exact (congrArg _ (List.append_nil _)).trans hacts

end AppleII
