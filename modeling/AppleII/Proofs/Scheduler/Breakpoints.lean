import AppleII.Proofs.Scheduler.Trace

/-!
# Breakpoints

A machine that is set running from a pause executes its next instruction whether that has a breakpoint or
not.  The mark for this is used up by the first instruction, so that no later instruction with an enabled
breakpoint is executed in a frame (`breakpoint_stops`).
-/

namespace AppleII

/-- The commands that set a machine running, and the run states from which they do. -/
def Command.starts : Command → RunState → Bool
  | .run, st | .runToAddress _, st => st == .paused || st == .needBoot || st == .needReset
  | .stepOver, st | .stepOut, st => st == .paused || st == .needBoot || st == .needReset || st == .idle
  | _, _ => false

theorem Debugger.enabled_addBreakpoint (d : Debugger) (address : UInt16) :
    ∃ b, (d.addBreakpoint address).breakpoints[address]? = some b ∧ b.enabled = true := by
  unfold addBreakpoint
  rw [Std.ExtTreeMap.getElem?_alter_self]
  split <;> exact ⟨_, rfl, rfl⟩

theorem Debugger.breakpoints_armStepOut (d : Debugger) (sp : UInt8) :
    (d.armStepOut sp).breakpoints = d.breakpoints := rfl

theorem Machine.onBreakpoint_of_add {m : Machine} {d : Debugger} {address : UInt16}
    (hpc : m.cpu.regs.pc = address) (hd : m.debugger = d.addBreakpoint address) : m.OnBreakpoint := by
  unfold OnBreakpoint
  rw [hpc, hd]
  exact d.enabled_addBreakpoint address

namespace Scheduler

variable {s : Scheduler} {c : Command}

theorem starts_of_not_running {st : RunState} (h : st ≠ .running) :
    Command.stepOver.starts st = true ∧ Command.stepOut.starts st = true ∧
      (st ≠ .idle → Command.run.starts st = true) := by
  cases st <;> simp_all [Command.starts]

theorem standing_setState_running (h : s.state = .running) :
    (s.setState .running).standing = s.standing := by
  rw [standing_setState]
  simp [standing, h]

theorem start_of_running (h : s.start.state = .running) :
    s.state = .running ∧ s.start.standing = s.standing ∨ Command.run.starts s.state = true := by
  by_cases hrunning : s.state = .running
  · left
    have hidle : s.state ≠ .idle := hrunning ▸ RunState.noConfusion
    refine ⟨hrunning, ?_⟩
    rw [start, if_neg hidle]
    exact standing_setState_running hrunning
  · right
    refine (starts_of_not_running hrunning).2.2 fun hidle => ?_
    rw [start, if_pos hidle] at h
    cases h

/-- A step over from a running machine that leaves it running has executed a call. -/
theorem skipBreakpoint_stepOver (h : s.state = .running) (hrunning : s.stepOver.state = .running) :
    s.stepOver.machine.skipBreakpoint = false := by
  have hidle : s.state ≠ .idle := h ▸ RunState.noConfusion
  obtain ⟨s', -, hstate, hcases⟩ := s.stepOver_cases
  rw [bootIfIdle_of_ne hidle, h] at hstate
  rcases hcases with hinto | hout
  · rw [hinto] at hrunning
    cases hrunning
  · have hone : s'.executeOne.state = .running := hstate
    have hne : s'.executeOne.state ≠ .idle := hone ▸ RunState.noConfusion
    rw [hout, stepOut, bootIfIdle_of_ne hne]
    have hstanding := standing_setState_running (s := { s'.executeOne with
      machine.debugger := s'.executeOne.machine.debugger.armStepOut s'.executeOne.machine.cpu.regs.sp }) hone
    exact (congrArg Standing.skip hstanding).trans (Machine.skipBreakpoint_processInstruction _ true)

/-- A running machine that was resumed was started by the command before, or that command has let nothing
happen to it. -/
theorem handle_of_resumed (hrunning : (s.handle c).2.state = .running)
    (hskip : (s.handle c).2.machine.skipBreakpoint = true) :
    c.starts s.state = true ∨
      (∃ debugger, (s.handle c).2.standing = { s.standing with debugger }) ∧ s.commandEvents c = [] := by
  -- A quiet command lets nothing happen; most of the others leave the machine paused or to be booted.
  by_cases hquiet : c.quiet = true
  · exact .inr ⟨standing_handle_of_quiet hquiet s, commandEvents_of_quiet hquiet s⟩
  · cases c with
    | boot => cases hrunning
    | reset => cases hrunning
    | stepInto => cases hrunning
    | timeTravelBackward => exact absurd hrunning (s.state_travel _ ▸ RunState.noConfusion)
    | timeTravelForward => exact absurd hrunning (s.state_travel _ ▸ RunState.noConfusion)
    | timeTravelIndex index => exact absurd hrunning (s.state_travel _ ▸ RunState.noConfusion)
    | pause =>
      by_cases hidle : s.state = .idle
      · have hpause : (s.handle .pause).2 = s := if_pos hidle
        rw [hpause, hidle] at hrunning
        cases hrunning
      · have hpause : (s.handle .pause).2 = s.setState .paused := if_neg hidle
        rw [hpause] at hrunning
        cases hrunning
    | run =>
      rcases start_of_running hrunning with ⟨-, hstanding⟩ | hstarts
      · exact .inr ⟨⟨_, hstanding⟩, rfl⟩
      · exact .inl hstarts
    | runToAddress address =>
      rcases start_of_running hrunning with ⟨-, hstanding⟩ | hstarts
      · exact .inr ⟨⟨_, hstanding⟩, rfl⟩
      · exact .inl hstarts
    | stepOver =>
      by_cases h : s.state = .running
      · have hclear := skipBreakpoint_stepOver h hrunning
        exact absurd (hclear.symm.trans hskip) Bool.noConfusion
      · exact .inl (starts_of_not_running h).1
    | stepOut =>
      by_cases h : s.state = .running
      · have hidle : s.state ≠ .idle := h ▸ RunState.noConfusion
        refine .inr ⟨⟨s.machine.debugger.armStepOut s.machine.cpu.regs.sp, ?_⟩, if_neg hidle⟩
        show s.stepOut.standing = _
        rw [stepOut, bootIfIdle_of_ne hidle]
        exact standing_setState_running h
      · exact .inl (starts_of_not_running h).2.1
    | restoreState state =>
      rcases (s.restoreState_cases state).2 with hstanding | hclear
      · exact .inr ⟨⟨_, hstanding⟩, rfl⟩
      · exact absurd (hclear.symm.trans hskip) Bool.noConfusion
    | setRegister register value =>
      by_cases hpaused : s.state = .paused
      · have hset : (s.setRegister register value).state = s.state := by
          rw [setRegister, if_pos hpaused]
          rfl
        have hstate : (s.setRegister register value).state = .running := hrunning
        rw [hset, hpaused] at hstate
        cases hstate
      · have hstill : s.setRegister register value = s := if_neg hpaused
        exact .inr ⟨⟨_, congrArg standing hstill⟩, rfl⟩
    | _ => exact absurd rfl hquiet

/-! ## Runs -/

/-- A tick uses the resumption up, or nothing happens at it. -/
theorem tick_of_resumed {now : Nat} (hskip : (s.tick now).2.machine.skipBreakpoint = true) :
    (s.tick now).2.standing = s.standing ∧ s.tickEvents now = [] := by
  cases h : s.enter? now with
  | none => exact ⟨standing_tick_of_none h, by rw [tickEvents, h]⟩
  | some f =>
    obtain ⟨-, -, -, -, -, hclear, -⟩ := runFrame_course f now
    rw [tick_of_enter h] at hskip
    exact absurd (hclear.symm.trans hskip) Bool.noConfusion

/-- One of some inputs is the command that set the machine running, with the given processor, and nothing
has happened to it since. -/
def SetRunning (s₀ : Scheduler) (inputs : List Input) (cpu : Processor) : Prop :=
  ∃ front time c back, inputs = front ++ .command time c :: back ∧
    c.starts (s₀.after front).state = true ∧
    let s := s₀.after (front ++ [.command time c])
    s.state = .running ∧ s.machine.cpu = cpu ∧ s.events back = []

variable {s₀ : Scheduler} {inputs : List Input}

theorem SetRunning.later {i : Input} {cpu : Processor} (h : s₀.SetRunning inputs cpu)
    (hnothing : (react i (s₀.after inputs)).1 = []) : s₀.SetRunning (inputs ++ [i]) cpu := by
  obtain ⟨front, time, c, back, rfl, hstarts, hrunning, hcpu, hback⟩ := h
  refine ⟨front, time, c, back ++ [i], by simp, hstarts, hrunning, hcpu, ?_⟩
  have hafter : (s₀.after (front ++ [.command time c])).after back =
      s₀.after (front ++ .command time c :: back) := by
    rw [← after_append]
    simp
  rw [events_concat, hback, hafter, hnothing]
  rfl

/-- The mark of a resumed machine that runs was put there by the command that set it running. -/
theorem setRunning_of_resumed (hidle : s₀.state = .idle) (inputs : List Input)
    (hrunning : (s₀.after inputs).state = .running)
    (hskip : (s₀.after inputs).machine.skipBreakpoint = true) :
    s₀.SetRunning inputs (s₀.after inputs).machine.cpu := by
  -- From the last input backwards, as long as nothing happens, up to the command that set the mark.
  induction inputs using List.reverseRecOn with
  | nil => cases hidle.symm.trans hrunning
  | append_singleton inputs i ih =>
    -- An input at which nothing happens comes after the command that set the machine running.
    have hlater : (∃ debugger, (s₀.after (inputs ++ [i])).standing =
          { (s₀.after inputs).standing with debugger }) →
        (react i (s₀.after inputs)).1 = [] →
        s₀.SetRunning (inputs ++ [i]) (s₀.after (inputs ++ [i])).machine.cpu := by
      rintro ⟨debugger, hstanding⟩ hnothing
      have hbefore := ih ((congrArg Standing.state hstanding).symm.trans hrunning)
        ((congrArg Standing.skip hstanding).symm.trans hskip)
      have hcpu : (s₀.after (inputs ++ [i])).machine.cpu = (s₀.after inputs).machine.cpu :=
        congrArg Standing.cpu hstanding
      rw [hcpu]
      exact hbefore.later hnothing
    rw [after_concat] at hrunning hskip hlater ⊢
    cases i with
    | tick time now =>
      obtain ⟨hstanding, hnothing⟩ := tick_of_resumed (s := (s₀.after inputs).atTime time) hskip
      exact hlater ⟨_, hstanding⟩ hnothing
    | command time c =>
      rcases handle_of_resumed (s := (s₀.after inputs).atTime time) hrunning hskip with
        hstarts | ⟨hstanding, hnothing⟩
      · refine ⟨inputs, time, c, [], rfl, hstarts, ?_, ?_, rfl⟩
        · rw [after_concat]
          exact hrunning
        · rw [after_concat]
      · exact hlater hstanding hnothing

/-! ## Frames -/

/-- What becomes of a machine that a tick after some inputs brings to an enabled breakpoint: `front` are the
machines that its frame has come to before, and `back` those that it comes to then. -/
inductive Arrival (s₀ : Scheduler) (inputs : List Input) (time now : Nat) (front : List Machine) (m : Machine)
    (back : List Machine) : Prop
  /-- Its instruction is executed, the first one since the command that set the machine running. -/
  | resumed (first : front = []) (command : s₀.SetRunning inputs m.cpu)
    (executed : ∃ es, (react (.tick time now) (s₀.after inputs)).1 = ⟨.instruction, m⟩ :: es)
  /-- Its instruction is not executed, and the machine is paused. -/
  | stopped (last : back = []) (cpu : (s₀.after (inputs ++ [.tick time now])).machine.cpu = m.cpu)
    (state : (s₀.after (inputs ++ [.tick time now])).state = .paused)
  /-- The frame is over, and the next one ends paused before its instruction is executed. -/
  | frameOver (last : back = []) (cpu : (s₀.after (inputs ++ [.tick time now])).machine.cpu = m.cpu)
    (next : ∀ time' now' f', ((s₀.after (inputs ++ [.tick time now])).atTime time').enter? now' = some f' →
      f'.course = [f'.machine] ∧ f'.machine.cpu = m.cpu ∧ (f'.runFrame now').state = .paused)

theorem state_of_enter {f : Scheduler} {now : Nat} (h : s.enter? now = some f) : f.state = .running := by
  rcases enter?_cases h with ⟨r, -, hf⟩ | ⟨hrunning, rfl⟩
  · exact congrArg Standing.state hf
  · exact hrunning

/-- A run that goes on with a machine that was not resumed stops at the breakpoint under it. -/
theorem next_frame_stops {cpu : Processor} (hrunning : s.state = .running)
    (hskip : s.machine.skipBreakpoint = false) (hcpu : s.machine.cpu = cpu) (hm : s.machine.OnBreakpoint)
    {time now : Nat} {f : Scheduler} (hf : (s.atTime time).enter? now = some f) :
    f.course = [f.machine] ∧ f.machine.cpu = cpu ∧ (f.runFrame now).state = .paused := by
  rcases enter?_cases hf with ⟨r, hstate, -⟩ | ⟨-, rfl⟩
  · exact absurd (hstate.symm.trans hrunning) r.state_ne.2.1
  · obtain ⟨hcourse, hpaused⟩ := runFrame_of_stops
      (s := { s.atTime time with previousTime := now }) (Machine.stops_iff.mpr ⟨hskip, hm⟩) now
    exact ⟨hcourse, hcpu, hpaused⟩

/-- A machine that a tick finds resumed and running executes its instruction first. -/
theorem tickEvents_of_resumed {f : Scheduler} {now : Nat} (h : s.enter? now = some f)
    (hskip : f.machine.skipBreakpoint = true) :
    s.state = .running ∧ f.machine = s.machine ∧ ∃ es, s.tickEvents now = ⟨.instruction, s.machine⟩ :: es := by
  rcases enter?_cases h with ⟨r, -, hf⟩ | ⟨hrunning, hf⟩
  · exact absurd ((congrArg Standing.skip hf).symm.trans hskip) Bool.noConfusion
  · have hmachine : f.machine = s.machine := by rw [hf]
    have hgoes : f.machine.stops = false := by
      rw [Machine.stops, hskip]
      rfl
    obtain ⟨x, rest, hcourse⟩ := course_of_not_stops hgoes
    refine ⟨hrunning, hmachine, (x :: rest).dropLast.map fun m => ⟨.instruction, m⟩, ?_⟩
    rw [tickEvents, h, ← hmachine]
    show s.requested ++ f.frameEvents = _
    rw [requested_of_running hrunning, List.nil_append, frameEvents_of_course hcourse]

/-- A machine that runs has come to the first machine of its next frame, as soon as this is due. -/
theorem exists_enter?_of_running {now : Nat} (hrunning : s.state = .running)
    (hdue : s.speedMode.refresh ≤ now - s.previousTime) :
    ∃ f rest, s.enter? now = some f ∧ f.machine = s.machine ∧ f.course = s.machine :: rest := by
  obtain ⟨rest, hrest⟩ := Machine.course_eq_cons (Machine.forCycles frameCycles) frameCycles 0 s.machine
  refine ⟨{ s with previousTime := now }, rest, ?_, rfl, hrest⟩
  rw [enter?_of_running hrunning, if_neg (Nat.not_lt.mpr hdue)]

/-- A step out of a machine that was never booted boots it, and lets it execute the instruction at its reset
vector, although this has a breakpoint. -/
theorem react_stepOut_of_idle {time time' now : Nat} (hidle : s.state = .idle)
    (hm : s.machine.boot.OnBreakpoint)
    (hdue : (s.after [.command time .stepOut]).speedMode.refresh ≤
      now - (s.after [.command time .stepOut]).previousTime) :
    let s' := s.after [.command time .stepOut]
    s'.machine.OnBreakpoint ∧ ∃ es, (react (.tick time' now) s').1 = ⟨.instruction, s'.machine⟩ :: es := by
  intro s'
  have hmachine : (s.atTime time).machine = s.machine := rfl
  have hstanding : s'.standing = _ := standing_stepOut_of_idle (s := s.atTime time) hidle
  rw [hmachine] at hstanding
  have hdue' : s'.speedMode.refresh ≤ now - s'.previousTime := hdue
  clear_value s'
  have hcpu : s'.machine.cpu = s.machine.boot.cpu := by
    show s'.standing.cpu = _
    rw [hstanding]
  have hbreakpoints : s'.machine.debugger.breakpoints = s.machine.boot.debugger.breakpoints := by
    show s'.standing.debugger.breakpoints = _
    rw [hstanding, s.machine.debugger_boot]
    exact Debugger.breakpoints_armStepOut _ _
  have hrunning : s'.state = .running := congrArg Standing.state hstanding
  obtain ⟨f, -, henter, hsame, -⟩ := exists_enter?_of_running (s := s'.atTime time') hrunning hdue'
  have hskip : f.machine.skipBreakpoint = true := hsame ▸ congrArg Standing.skip hstanding
  obtain ⟨-, -, hfirst⟩ := tickEvents_of_resumed henter hskip
  refine ⟨?_, hfirst⟩
  unfold Machine.OnBreakpoint
  rw [hcpu, hbreakpoints]
  exact hm

end Scheduler

/-- **No enabled breakpoint is run through.** Whatever has reached a scheduler that was idle at first, when a
frame comes to an enabled breakpoint, its instruction is executed only at the very place where a command has
set the machine running that was not running, as the first thing that happens after this command.  Otherwise
the machine is paused before it: by the same tick, or, if the frame is over with the instruction that has come
there, by the next tick that runs a frame. -/
theorem breakpoint_stops {s₀ : Scheduler} (hidle : s₀.state = .idle) {inputs : List Input} {time now : Nat}
    {f : Scheduler} (hf : ((s₀.after inputs).atTime time).enter? now = some f)
    {front back : List Machine} {m : Machine} (hcourse : f.course = front ++ m :: back)
    (hm : m.OnBreakpoint) : s₀.Arrival inputs time now front m back := by
  cases hstops : m.stops with
  | true =>
    have hafter : s₀.after (inputs ++ [.tick time now]) = f.runFrame now := by
      rw [Scheduler.after_concat]
      exact congrArg Prod.snd (Scheduler.tick_of_enter hf)
    -- The course ends here, and so does the frame.
    obtain rfl := Machine.eq_nil_of_course hcourse hstops
    obtain ⟨front', last, hcourse', hcpu, -, hskip, hend⟩ := f.runFrame_course now
    obtain ⟨-, hlast⟩ := List.append_inj' (hcourse.symm.trans hcourse') rfl
    obtain rfl := (List.cons.inj hlast).1
    rw [← hafter] at hcpu hskip hend
    rcases hend with hpaused | ⟨hstate, hdebugger⟩
    · exact .stopped rfl hcpu hpaused
    · have hrunning := hstate.trans (Scheduler.state_of_enter hf)
      have hthere : (s₀.after (inputs ++ [.tick time now])).machine.OnBreakpoint := by
        unfold Machine.OnBreakpoint
        rw [hcpu, hdebugger]
        exact hm
      exact .frameOver rfl hcpu fun _ _ _ hnext => Scheduler.next_frame_stops hrunning hskip hcpu hthere hnext
  | false =>
    have hskip : m.skipBreakpoint = true := by
      by_contra hclear
      have hstop := Machine.stops_iff.mpr ⟨Bool.eq_false_of_not_eq_true hclear, hm⟩
      exact absurd (hstops.symm.trans hstop) Bool.noConfusion
    have hfront : front = [] := by
      by_contra hne
      exact absurd ((Machine.skipBreakpoint_of_course hcourse hne).symm.trans hskip) Bool.noConfusion
    subst hfront
    -- The machine is the first one of its frame, and of a run that goes on.
    obtain ⟨rest, hrest⟩ := Machine.course_eq_cons (Machine.forCycles Scheduler.frameCycles)
      Scheduler.frameCycles 0 f.machine
    obtain rfl : f.machine = m := (List.cons.inj (hrest.symm.trans hcourse)).1
    obtain ⟨hrunning, hmachine, hfirst⟩ := Scheduler.tickEvents_of_resumed hf hskip
    rw [hmachine] at hskip ⊢
    exact .resumed rfl (Scheduler.setRunning_of_resumed hidle inputs hrunning hskip) hfirst

/-- A step boots and pauses the machine, a user moves it to a breakpoint, and it is set running there. -/
theorem breakpoint_stops_withNops :
    let inputs : List Input :=
      [.command 0 .stepInto, .command 0 (.setRegister .pc 0x0300), .command 0 (.setBreakpoint 0x0300),
        .command 0 .run]
    Scheduler.withNops.state = .idle ∧
      ∃ f m back, ((Scheduler.withNops.after inputs).atTime 0).enter? 16688100 = some f ∧
        f.course = [] ++ m :: back ∧ m.OnBreakpoint ∧
          Scheduler.withNops.Arrival inputs 0 16688100 [] m back := by
  intro inputs
  have hidle : Scheduler.withNops.state = .idle := rfl
  have hrunning : ((Scheduler.withNops.after inputs).atTime 0).state = .running := rfl
  have hdue : ((Scheduler.withNops.after inputs).atTime 0).speedMode.refresh ≤
      16688100 - ((Scheduler.withNops.after inputs).atTime 0).previousTime := le_rfl
  obtain ⟨f, back, henter, -, hcourse⟩ := Scheduler.exists_enter?_of_running hrunning hdue
  have hpc : (Scheduler.withNops.after inputs).machine.cpu.regs.pc = 0x0300 := rfl
  have hbreakpoint := Machine.onBreakpoint_of_add hpc rfl
  exact ⟨hidle, f, _, back, henter, hcourse, hbreakpoint, breakpoint_stops hidle henter hcourse hbreakpoint⟩

theorem pc_boot_of_nops {m : Machine} (h : m.memory = Scheduler.withNops.machine.memory) :
    m.boot.cpu.regs.pc = 0xEAEA := by
  have hsize : (Array.replicate romSize (0xEA : UInt8)).size = romSize := Array.size_replicate
  -- Both bytes of the vector are no-operations.
  have hbyte : ∀ {i : Nat} (hi : i < romSize), m.memory.rom[i] = 0xEA := by
    intro i hi
    rw [h]
    simp only [Scheduler.withNops, Machine.rom_loadRom, Memory.getElem_romOfImage hsize, Array.getElem_replicate]
  have hlow : 0x3FFC < romSize := by decide
  have hhigh : 0x3FFD < romSize := by decide
  rw [Machine.pc_boot, hbyte hlow, hbyte hhigh]
  decide

/-- A step out of a machine that was never booted, and so not paused, executes the instruction at its reset
vector, although there is a breakpoint. -/
theorem stepOut_past_breakpoint :
    let s₁ := Scheduler.withNops.after [.command 0 (.setBreakpoint 0xEAEA)]
    let s₂ := s₁.after [.command 0 .stepOut]
    Scheduler.withNops.state = .idle ∧ s₁.state = .idle ∧
      ∃ m es, m.OnBreakpoint ∧ (Scheduler.react (.tick 0 16688100) s₂).1 = ⟨.instruction, m⟩ :: es := by
  intro s₁ s₂
  have hidle : s₁.state = .idle := rfl
  have hdue : s₂.speedMode.refresh ≤ 16688100 - s₂.previousTime := le_rfl
  have hset : ∀ (s : Scheduler) (a : UInt16),
      (s.after [.command 0 (.setBreakpoint a)]).machine.memory = s.machine.memory ∧
        (s.after [.command 0 (.setBreakpoint a)]).machine.debugger = s.machine.debugger.addBreakpoint a :=
    fun _ _ => ⟨rfl, rfl⟩
  obtain ⟨hmemory, hadd⟩ : s₁.machine.memory = _ ∧ s₁.machine.debugger = _ := hset Scheduler.withNops 0xEAEA
  have hm : s₁.machine.boot.OnBreakpoint :=
    Machine.onBreakpoint_of_add (pc_boot_of_nops hmemory) (s₁.machine.debugger_boot.trans hadd)
  obtain ⟨hthere, es, hfirst⟩ := Scheduler.react_stepOut_of_idle hidle hm hdue
  exact ⟨rfl, hidle, _, es, hthere, hfirst⟩

end AppleII
