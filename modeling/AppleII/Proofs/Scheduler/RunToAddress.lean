import AppleII.Proofs.Machine.Watched
import AppleII.Proofs.Scheduler.StepOver

/-!
# Running to an address

Ticks let a machine do what they let it do when nothing stops it, as far as the first instruction that its debugger
does not let pass (`Scheduler.watched_after`).  So a run to an address ends there, and the lasting breakpoints are as
they were (`runToAddress_stops`).  The address must not have a disabled breakpoint: this takes the place of the one
that a run to the address sets, and the machine runs through it (`runToAddress_passes_disabled`).
-/

namespace AppleII

open Processor (Registers)

def Event.unwatched (e : Event) : Event := { e with machine := e.machine.unwatched }

theorem Event.cpu_unwatched (e : Event) : e.unwatched.machine.cpu = e.machine.cpu := rfl

namespace Scheduler

/-- The scheduler with no breakpoints, neither in its machine nor on its panel, and with no step out armed. -/
def unwatched (s : Scheduler) : Scheduler := s.masked (fun _ => {}) fun panel => { panel with breakpoints := [] }

/-- What a scheduler lets its machine do that a debugger watches, and what it is after that, beside the same
scheduler when nothing stops its machine. -/
inductive Watched (d : Debugger) (watched plain : List Event × Scheduler) : Prop
  /-- The debugger lets everything pass, and both do the same. -/
  | goesOn (before : ∀ e ∈ plain.1, e.machine.Passes d) (executed : watched.1.map Event.unwatched = plain.1)
      (same : watched.2.unwatched = plain.2) (running : watched.2.state = .running)
      (still : watched.2.machine.debugger = d)
  /-- The machine is paused at the first instruction that the debugger does not let pass. -/
  | halts (front back : List Event) (x : Machine) (last : List Machine)
      (events : plain.1 = front ++ ⟨.instruction, x⟩ :: back) (before : ∀ e ∈ front, e.machine.Passes d)
      (executed : watched.1.map Event.unwatched = front ++ last.map fun m => ⟨.instruction, m⟩)
      (paused : watched.2.state = .paused)
      (halting : Machine.Halting d x last watched.2.machine.cpu watched.2.machine.debugger)

/-- What a run that nothing stops executes until it comes to an address for the first time. -/
structure ComesTo (s : Scheduler) (ticks : List Input) (a : UInt16) (first : Machine) (way : List Machine)
    (there : Machine) : Prop where
  events : ∃ rest, s.unwatched.events ticks =
    (first :: way ++ there :: rest).map fun m => ⟨.instruction, m⟩
  way : ∀ m ∈ way, m.cpu.regs.pc ≠ a
  there : there.cpu.regs.pc = a

variable {s : Scheduler} {d : Debugger} {ticks : List Input}

/-! ## A tick -/

theorem unwatched_endFrame (s : Scheduler) (now : Nat) :
    (s.endFrame now true).unwatched = s.unwatched.endFrame now true :=
  (masked_endFrame (fun _ => rfl) s now true).symm

theorem watched_frame (h : s.state = .running) (now : Nat) :
    Watched s.machine.debugger (s.frameEvents, s.runFrame now) (s.unwatched.frameEvents, s.unwatched.runFrame now) := by
  have hevents (l : List Machine) :
      (l.map fun m => (⟨.instruction, m⟩ : Event)).map Event.unwatched =
        (l.map Machine.unwatched).map fun m => ⟨.instruction, m⟩ := by
    rw [List.map_map, List.map_map]
    rfl
  have hstanding := standing_runFrame s now
  cases Machine.watched_runWhile (Machine.forCycles frameCycles) frameCycles 0 s.machine with
  | goesOn before executed complete same still =>
    have hcomplete : (s.machine.runFor frameCycles).1 = true := complete.1
    have hrun : s.machine.runFor frameCycles = (true, (s.machine.runFor frameCycles).2) :=
      Prod.ext hcomplete rfl
    have hplain : s.unwatched.machine.runFor frameCycles =
        (true, (s.machine.runFor frameCycles).2.unwatched) := Prod.ext complete.2 same.symm
    simp only [hcomplete, if_true] at hstanding
    refine .goesOn (List.forall_mem_map.mpr before) ((hevents _).trans (congrArg _ executed)) ?_
      ((congrArg Standing.state hstanding).trans h) ((congrArg Standing.debugger hstanding).trans still)
    rw [runFrame_of_complete hrun, runFrame_of_complete hplain, unwatched_endFrame]
    rfl
  | halts front back last x course before executed halted halting =>
    have hhalted : (s.machine.runFor frameCycles).1 = false := halted
    simp only [hhalted, Bool.false_eq_true, if_false] at hstanding
    have hcpu : (s.runFrame now).machine.cpu = (s.machine.runFor frameCycles).2.cpu :=
      congrArg Standing.cpu hstanding
    have hdebugger : (s.runFrame now).machine.debugger = (s.machine.runFor frameCycles).2.debugger :=
      congrArg Standing.debugger hstanding
    refine .halts (front.map fun m => ⟨.instruction, m⟩) (back.map fun m => ⟨.instruction, m⟩) x last ?_
      (List.forall_mem_map.mpr before) ?_ (congrArg Standing.state hstanding) ?_
    · exact (congrArg (List.map _) course).trans List.map_append
    · exact ((hevents _).trans (congrArg _ executed)).trans List.map_append
    · rw [hcpu, hdebugger]
      exact halting

theorem watched_tick (h : s.state = .running) (time now : Nat) :
    Watched s.machine.debugger (react (.tick time now) s) (react (.tick time now) s.unwatched) := by
  have hsame : s.unwatched.previousTime = s.previousTime ∧ s.unwatched.speedMode = s.speedMode := ⟨rfl, rfl⟩
  rw [react_tick_of_running h, react_tick_of_running (s := s.unwatched) h, hsame.1, hsame.2]
  by_cases hdue : now - s.previousTime < s.speedMode.refresh
  · rw [if_pos hdue, if_pos hdue]
    exact .goesOn (by simp) rfl rfl h rfl
  · rw [if_neg hdue, if_neg hdue]
    exact watched_frame (s := { s.atTime time with previousTime := now }) h now

/-! ## Some ticks -/

/-- **Ticks of a scheduler that runs** let its machine do what they let it do when nothing stops it, as far as the
first instruction that its debugger does not let pass; after that the machine stays paused. -/
theorem watched_after (h : s.state = .running) (hticks : ∀ i ∈ ticks, i.isTick = true) :
    Watched s.machine.debugger (s.events ticks, s.after ticks) (s.unwatched.events ticks, s.unwatched.after ticks) := by
  induction ticks generalizing s with
  | nil => exact .goesOn (by simp [events, runAll]) rfl rfl h rfl
  | cons i ticks ih =>
    obtain ⟨hi, hrest⟩ := List.forall_mem_cons.mp hticks
    cases i with
    | command => cases hi
    | tick time now =>
      simp only [events_cons, after_cons]
      cases watched_tick h time now with
      | goesOn before executed same running still =>
        have hlater := ih running hrest
        rw [still] at hlater
        rw [← same]
        cases hlater with
        | goesOn before' executed' same' running' still' =>
          refine .goesOn (List.forall_mem_append.mpr ⟨before, before'⟩) ?_ same' running' still'
          rw [List.map_append]
          exact congrArg₂ _ executed executed'
        | halts front back x last events before' executed' paused halting =>
          refine .halts ((react (.tick time now) s.unwatched).1 ++ front) back x last ?_
            (List.forall_mem_append.mpr ⟨before, before'⟩) ?_ paused halting
          · rw [List.append_assoc]
            exact congrArg _ events
          · rw [List.map_append, List.append_assoc]
            exact congrArg₂ _ executed executed'
      | halts front back x last events before executed paused halting =>
        obtain ⟨hnothing, hstanding⟩ := after_of_paused paused hrest
        have events : (react (.tick time now) s.unwatched).1 = front ++ ⟨.instruction, x⟩ :: back := events
        have hcpu : ((react (.tick time now) s).2.after ticks).machine.cpu = _ := congrArg Standing.cpu hstanding
        have hdebugger : ((react (.tick time now) s).2.after ticks).machine.debugger = _ :=
          congrArg Standing.debugger hstanding
        refine .halts front (back ++ (react (.tick time now) s.unwatched).2.events ticks) x last ?_ before ?_
          ((congrArg Standing.state hstanding).trans paused) ?_
        · rw [events, List.append_assoc, List.cons_append]
        · rw [hnothing, List.append_nil]
          exact executed
        · simp only [hcpu, hdebugger]
          exact halting

/-- A frame that does not halt at once begins with the instruction of its machine, and no later one is one of a
machine that was just resumed. -/
theorem frameEvents_cases (s : Scheduler) (now : Nat) :
    s.frameEvents = [] ∧ (s.runFrame now).state = .paused ∨
      ∃ es, s.frameEvents = ⟨.instruction, s.machine⟩ :: es ∧ ∀ e ∈ es, e.machine.skipBreakpoint = false := by
  cases hstops : s.machine.stops with
  | true =>
    obtain ⟨hcourse, hpaused⟩ := runFrame_of_stops hstops now
    left
    rw [frameEvents, hcourse]
    exact ⟨rfl, hpaused⟩
  | false =>
    obtain ⟨x, rest, hcourse⟩ := course_of_not_stops hstops
    right
    refine ⟨_, frameEvents_of_course hcourse, List.forall_mem_map.mpr fun m hm => ?_⟩
    obtain ⟨before, after, hsplit⟩ := List.append_of_mem (List.dropLast_subset _ hm)
    have hlater : s.course = (s.machine :: before) ++ m :: after :=
      hcourse.trans (congrArg (s.machine :: ·) hsplit)
    exact Machine.skipBreakpoint_of_course hlater (List.cons_ne_nil _ _)

/-- The same holds of ticks. -/
theorem events_of_running (h : s.state = .running) (hticks : ∀ i ∈ ticks, i.isTick = true) :
    s.events ticks = [] ∨
      ∃ es, s.events ticks = ⟨.instruction, s.machine⟩ :: es ∧ ∀ e ∈ es, e.machine.skipBreakpoint = false := by
  induction ticks generalizing s with
  | nil => exact .inl rfl
  | cons i ticks ih =>
    obtain ⟨hi, hrest⟩ := List.forall_mem_cons.mp hticks
    cases i with
    | command => cases hi
    | tick time now =>
      rw [events_cons, react_tick_of_running h]
      by_cases hdue : now - s.previousTime < s.speedMode.refresh
      · rw [if_pos hdue]
        exact ih (s := s.atTime time) h hrest
      · rw [if_neg hdue]
        let f : Scheduler := { s.atTime time with previousTime := now }
        show f.frameEvents ++ (f.runFrame now).events ticks = [] ∨
          ∃ es, f.frameEvents ++ (f.runFrame now).events ticks = ⟨.instruction, f.machine⟩ :: es ∧ _
        rcases frameEvents_cases f now with ⟨hnothing, hpaused⟩ | ⟨es, hes, hclear⟩
        · rw [hnothing, (after_of_paused hpaused hrest).1]
          exact .inl rfl
        · rw [hes, List.cons_append]
          refine .inr ⟨_, rfl, List.forall_mem_append.mpr ⟨hclear, ?_⟩⟩
          -- The machine after the frame was not just resumed, and is paused or runs on.
          obtain ⟨_, _, -, -, -, hskip, hstate⟩ := runFrame_course f now
          rcases hstate with hpaused | ⟨hrunning, -⟩
          · rw [(after_of_paused hpaused hrest).1]
            simp
          · rcases ih (hrunning.trans h) hrest with hnothing | ⟨es', hes', hclear'⟩
            · rw [hnothing]
              simp
            · rw [hes']
              exact List.forall_mem_cons.mpr ⟨hskip, hclear'⟩

/-- The machine is paused at the first instruction at which its debugger stops it, as soon as ticks come to it. -/
theorem Watched.paused_at {watched plain : List Event × Scheduler} (h : Watched d watched plain)
    {front back rest : List Event} {x : Machine} (hplain : plain.1 ++ rest = front ++ ⟨.instruction, x⟩ :: back)
    (hfront : ∀ e ∈ front, e.machine.Passes d) (hstops : (x.under d).stops = true) :
    (plain.1.length ≤ front.length → watched.2.state = .running ∧ watched.1.map Event.unwatched = plain.1) ∧
      (front.length < plain.1.length → watched.2.state = .paused ∧ watched.1.map Event.unwatched = front ∧
        watched.2.machine.cpu = x.cpu ∧ ∃ b, d.Hit x.cpu.regs.pc b watched.2.machine.debugger) := by
  have hx : ¬ x.Passes d := fun hpasses => absurd (hpasses.goes.symm.trans hstops) Bool.noConfusion
  cases h with
  | goesOn before executed same running still =>
    have hshort := length_le_of_first (p := fun e : Event => ¬ e.machine.Passes d) hplain
      (fun e he hnot => hnot (before e he)) hx
    exact ⟨fun _ => ⟨running, executed⟩, fun hlong => absurd hshort (Nat.not_le.mpr hlong)⟩
  | halts front' back' y last events before executed paused halting =>
    rw [events, List.append_assoc, List.cons_append] at hplain
    obtain ⟨rfl, hy⟩ := append_cons_inj_of_first (p := fun e : Event => ¬ e.machine.Passes d) hplain
      (fun e he hnot => hnot (before e he)) halting.not_passes (fun e he hnot => hnot (hfront e he)) hx
    obtain rfl : y = x := congrArg Event.machine hy
    have hlong : front'.length < plain.1.length := by
      rw [events, List.length_append, List.length_cons]
      omega
    refine ⟨fun hshort => absurd hshort (Nat.not_le.mpr hlong), fun _ => ?_⟩
    generalize watched.2.machine.cpu = cpu, watched.2.machine.debugger = d' at halting
    cases halting with
    | stopped stops hit => exact ⟨paused, executed.trans (List.append_nil _), rfl, _, hit⟩
    | returned goes => exact absurd (goes.symm.trans hstops) Bool.noConfusion

/-- A run that was resumed comes to an address from its own machine, and no later machine was just resumed. -/
theorem ComesTo.resumed {a : UInt16} {first there : Machine} {way : List Machine}
    (h : s.ComesTo ticks a first way there) (hrunning : s.state = .running) (hticks : ∀ i ∈ ticks, i.isTick = true) :
    first = s.unwatched.machine ∧ there.skipBreakpoint = false := by
  obtain ⟨rest, hrun⟩ := h.events
  rcases events_of_running (s := s.unwatched) hrunning hticks with hnothing | ⟨es, hes, hclear⟩
  · rw [hnothing] at hrun
    cases hrun
  · obtain ⟨hhead, htail⟩ := List.cons.inj (hes.symm.trans hrun)
    rw [htail] at hclear
    exact ⟨(congrArg Event.machine hhead).symm, List.forall_mem_map.mp hclear there (by simp)⟩

/-- A breakpoint for one hit at the address lets everything pass that is executed before it is reached, if nothing
else stops the machine there. -/
theorem ComesTo.passes_runTo {a : UInt16} {first there : Machine} {way : List Machine}
    (h : s.ComesTo ticks a first way there) (hfirst : first.skipBreakpoint = true)
    (hclear : ∀ m ∈ way, ¬ (m.under d).OnBreakpoint)
    (hinside : ∀ depth, d.stepOut? = some depth → ∀ m ∈ first :: way, ¬ m.ReturnsAbove depth) :
    ∀ m ∈ first :: way, m.Passes (d.runTo a) := by
  refine List.forall_mem_cons.mpr ⟨?_, fun m hm => ?_⟩
  · refine Machine.passes_of_resumed hfirst fun depth hdepth => ?_
    exact hinside depth hdepth first List.mem_cons_self
  · refine Machine.passes_of_not_onBreakpoint ?_ fun depth hdepth => ?_
    · rw [Machine.onBreakpoint_runTo (h.way m hm)]
      exact hclear m hm
    · exact hinside depth hdepth m (List.mem_cons_of_mem _ hm)

/-! ## The command -/

/-- A run to an address from a pause resumes the machine, with a breakpoint there. -/
theorem standing_runToAddress (h : s.state = .paused) (a : UInt16) (time : Nat) :
    (s.after [.command time (.runToAddress a)]).standing =
      { s.standing with state := .running, debugger := s.machine.debugger.runTo a, skip := true } := by
  have hpaused : ((s.atTime time).modifyDebugger (·.runTo a)).state = .paused := h
  have hstart : ((s.atTime time).modifyDebugger (·.runTo a)).start =
      ((s.atTime time).modifyDebugger (·.runTo a)).setState .running := by
    rw [start, hpaused]
    rfl
  show ((s.atTime time).modifyDebugger (·.runTo a)).start.standing = _
  rw [hstart, standing_setState, standing_modifyDebugger]
  simp [standing, atTime, h]

/-- At an address that has a breakpoint, a run to the address is a run. -/
theorem runToAddress_of_there {a : UInt16} {b : Breakpoint} (h : s.machine.debugger.breakpoints[a]? = some b)
    (time : Nat) : s.after [.command time (.runToAddress a)] = s.after [.command time .run] := by
  have hsame : (s.atTime time).modifyDebugger (·.runTo a) = s.atTime time := by
    have hdebugger : (s.atTime time).machine.debugger.runTo a = (s.atTime time).machine.debugger :=
      Debugger.runTo_of_there h
    rw [modifyDebugger, hdebugger]
  show ((s.atTime time).modifyDebugger (·.runTo a)).start = (s.atTime time).start
  rw [hsame]

/-- A run to an address that has a disabled breakpoint does what is done when nothing stops the machine, if no
breakpoint is enabled and no step out is armed. -/
theorem runToAddress_of_disabled (h : s.state = .paused) {a : UInt16} {b : Breakpoint}
    (hb : s.machine.debugger.breakpoints[a]? = some b)
    (hdisabled : ∀ (x : UInt16) (b : Breakpoint), s.machine.debugger.breakpoints[x]? = some b → b.enabled = false)
    (hunarmed : s.machine.debugger.stepOut? = none) (time : Nat) (hticks : ∀ i ∈ ticks, i.isTick = true) :
    let s₀ := s.after [.command time (.runToAddress a)]
    (s₀.after ticks).state = .running ∧ (s₀.events ticks).map Event.unwatched = s₀.unwatched.events ticks := by
  intro s₀
  have hstanding := standing_runToAddress h a time
  have hrunning : s₀.state = .running := congrArg Standing.state hstanding
  have hdebugger : s₀.machine.debugger = s.machine.debugger :=
    (congrArg Standing.debugger hstanding).trans (Debugger.runTo_of_there hb)
  have hwatched := watched_after hrunning hticks
  rw [hdebugger] at hwatched
  cases hwatched with
  | goesOn before executed same running still => exact ⟨running, executed⟩
  | halts front back x last events before executed paused halting =>
    exact absurd (Machine.passes_of_disabled hdisabled hunarmed x) halting.not_passes

end Scheduler

open Scheduler in
/-- **A run to an address** of a paused machine keeps the lasting breakpoints as they are.  Nothing but enabled
breakpoints, and the return that ends a step out, keeps the machine from the address, and there it is paused before
the instruction, by the tick that would execute it: unless the address has a disabled breakpoint, which makes the run
to the address a plain run. -/
theorem runToAddress_stops {s : Scheduler} (hpaused : s.state = .paused) (a : UInt16) (time : Nat)
    {ticks : List Input} (hticks : ∀ i ∈ ticks, i.isTick = true) :
    let d := s.machine.debugger
    let s₀ := s.after [.command time (.runToAddress a)]
    let plain := s₀.unwatched.events ticks
    let executed := (s₀.events ticks).map Event.unwatched
    let s' := s₀.after ticks
    (∀ x, s'.machine.debugger.lasting? x = d.lasting? x) ∧
      (∀ b, d.breakpoints[a]? = some b → s₀ = s.after [.command time .run]) ∧
      ∀ (later : List Input) (first there : Machine) (way : List Machine), (∀ i ∈ later, i.isTick = true) →
        s₀.ComesTo (ticks ++ later) a first way there → (∀ m ∈ way, ¬ (m.under d).OnBreakpoint) →
        (∀ b, d.breakpoints[a]? = some b → b.enabled = true) →
        (∀ depth, d.stepOut? = some depth → ∀ m ∈ first :: way, ¬ m.ReturnsAbove depth) →
        (plain.length ≤ way.length + 1 → s'.state = .running ∧ executed = plain) ∧
          (way.length + 1 < plain.length →
            s'.state = .paused ∧ executed = (first :: way).map (fun m => ⟨.instruction, m⟩) ∧
              s'.machine.cpu = there.cpu ∧
              ∀ x, s'.machine.debugger.breakpoints[x]? =
                if x = a then (d.breakpoints[a]?.filter (!·.once)).map fun b => { b with hitCount := b.hitCount + 1 }
                else d.breakpoints[x]?) := by
  intro d s₀ plain executed s'
  have hstanding := standing_runToAddress hpaused a time
  have hrunning : s₀.state = .running := congrArg Standing.state hstanding
  have hdebugger : s₀.machine.debugger = d.runTo a := congrArg Standing.debugger hstanding
  have hresumed : s₀.machine.skipBreakpoint = true := congrArg Standing.skip hstanding
  have hwatched := watched_after hrunning hticks
  rw [hdebugger] at hwatched
  refine ⟨fun x => ?_, fun b hb => runToAddress_of_there hb time, ?_⟩
  · rw [← d.lasting?_runTo a x]
    cases hwatched with
    | goesOn before executed same running still => exact congrArg (Debugger.lasting? · x) still
    | halts front back y last events before executed paused halting => exact halting.lasting? x
  · intro later first there way hlater hcomes hclear henabled hinside
    obtain ⟨hfirst, hskip⟩ := hcomes.resumed hrunning (List.forall_mem_append.mpr ⟨hticks, hlater⟩)
    have hpasses := hcomes.passes_runTo (hfirst ▸ hresumed) hclear hinside
    obtain ⟨⟨rest, hrun⟩, -, hthere⟩ := hcomes
    have hstops : (there.under (d.runTo a)).stops = true :=
      Machine.stops_iff.mpr ⟨hskip, Machine.onBreakpoint_runTo_self hthere henabled⟩
    have hsplit : plain ++ (s₀.unwatched.after ticks).events later =
        (first :: way).map (fun m => (⟨.instruction, m⟩ : Event)) ++
          ⟨.instruction, there⟩ :: rest.map fun m => ⟨.instruction, m⟩ :=
      ((events_append _ _ _).symm.trans hrun).trans List.map_append
    obtain ⟨hshort, hlong⟩ := hwatched.paused_at hsplit (List.forall_mem_map.mpr hpasses) hstops
    rw [List.length_map, List.length_cons] at hshort hlong
    refine ⟨hshort, fun hlength => ?_⟩
    obtain ⟨hpaused', hexecuted, hcpu, b, hhit⟩ := hlong hlength
    rw [hthere] at hhit
    exact ⟨hpaused', hexecuted, hcpu, hhit.getElem?_of_runTo⟩

/-- A machine that a user has paused in a loop of three no-operations. -/
def Scheduler.inLoop (debugger : Debugger) : Scheduler where
  machine := {
    cpu := { model := .cmos, regs := { Registers.powerUp with pc := 0x0010 } }
    board.memory := ({} : Memory).loadMain 0x0010 #[0xEA, 0xEA, 0xEA, 0x4C, 0x10, 0x00]
    debugger }
  state := .paused

/-- There is a breakpoint where the machine stands, a disabled one behind it, and one at the address, which stays and
is counted. -/
theorem runToAddress_stops_inLoop :
    let s := Scheduler.inLoop
      (((({} : Debugger).addBreakpoint 0x0010).addBreakpoint 0x0012).addBreakpoint 0x0011 |>.toggleBreakpoint 0x0011).2
    let d := s.machine.debugger
    let s₀ := s.after [.command 0 (.runToAddress 0x0012)]
    let m := s₀.unwatched.machine
    let ticks : List Input := [.tick 0 16688100]
    let s' := s₀.after ticks
    s.state = .paused ∧ (∀ i ∈ ticks, i.isTick = true) ∧
      s₀.ComesTo (ticks ++ []) 0x0012 m [m.stepped] m.stepped.stepped ∧
      (∀ x ∈ [m.stepped], ¬ (x.under d).OnBreakpoint) ∧
      (∀ b, d.breakpoints[(0x0012 : UInt16)]? = some b → b.enabled = true) ∧
      (∀ depth, d.stepOut? = some depth → ∀ x ∈ [m, m.stepped], ¬ x.ReturnsAbove depth) ∧
      s'.state = .paused ∧ (s₀.events ticks).length = 2 ∧ s'.machine.cpu.regs.pc = 0x0012 ∧
      s'.machine.debugger.breakpoints[(0x0012 : UInt16)]? = some { address := 0x0012, hitCount := 1 } ∧
      s'.machine.debugger.breakpoints[(0x0011 : UInt16)]? = some { address := 0x0011, enabled := false } := by
  intro s d s₀ m ticks s'
  have hticks : ∀ i ∈ ticks, i.isTick = true := by decide
  have hpc : m.stepped.cpu.regs.pc = 0x0011 := by decide +kernel
  have hthere : m.stepped.stepped.cpu.regs.pc = 0x0012 := by decide +kernel
  have hcomes : s₀.ComesTo (ticks ++ []) 0x0012 m [m.stepped] m.stepped.stepped := by
    have hdue : s₀.unwatched.speedMode.refresh ≤ 16688100 - s₀.unwatched.previousTime := by decide
    have hcycles : ∀ k < 3, s₀.unwatched.machine.stepCycles k < Scheduler.frameCycles := by decide +kernel
    refine ⟨Scheduler.exists_events_of_due (s := s₀.unwatched) rfl rfl rfl 0 hdue (by decide) hcycles, ?_, hthere⟩
    refine List.forall_mem_singleton.mpr ?_
    rw [hpc]
    decide
  have hoff : d.breakpoints[(0x0011 : UInt16)]? = some { address := 0x0011, enabled := false } := by decide +kernel
  have hset : d.breakpoints[(0x0012 : UInt16)]? = some { address := 0x0012 } := by decide +kernel
  have hway : ∀ x ∈ [m.stepped], ¬ (x.under d).OnBreakpoint := by
    refine List.forall_mem_singleton.mpr ?_
    have hthere : d.breakpoints[m.stepped.cpu.regs.pc]? = some { address := 0x0011, enabled := false } := by
      rw [hpc, hoff]
    exact Machine.not_onBreakpoint_of_disabled hthere rfl
  have hunarmed : d.stepOut? = none := rfl
  have hinside : ∀ depth, d.stepOut? = some depth → ∀ x ∈ [m, m.stepped], ¬ x.ReturnsAbove depth :=
    fun depth hdepth => nomatch hunarmed.symm.trans hdepth
  have henabled : ∀ b, d.breakpoints[(0x0012 : UInt16)]? = some b → b.enabled = true := by
    intro b hb
    obtain rfl := Option.some.inj (hset.symm.trans hb)
    rfl
  obtain ⟨-, -, hstops⟩ := runToAddress_stops (s := s) rfl 0x0012 0 hticks
  obtain ⟨-, hends⟩ := hstops [] m m.stepped.stepped [m.stepped] (by simp) hcomes hway henabled hinside
  obtain ⟨rest, hrun⟩ := hcomes.events
  have hlong : [m.stepped].length + 1 < (s₀.unwatched.events ticks).length := by
    have hlength := congrArg List.length hrun
    rw [List.append_nil, List.length_map, List.length_append, List.length_cons] at hlength
    rw [hlength]
    simp
  obtain ⟨hpaused, hexecuted, hcpu, hcounted⟩ := hends hlong
  have htwo := congrArg List.length hexecuted
  rw [List.length_map] at htwo
  refine ⟨rfl, hticks, hcomes, hway, henabled, hinside, hpaused, htwo, ?_, ?_, ?_⟩
  · rw [hcpu]
    exact hthere
  · rw [hcounted, if_pos rfl, hset]
    rfl
  · rw [hcounted, if_neg (by decide), hoff]

/-- A disabled breakpoint at the address keeps the machine from stopping there, although no breakpoint is enabled and
no step out is armed. -/
theorem runToAddress_passes_disabled :
    let d := ((({} : Debugger).addBreakpoint 0x0011).toggleBreakpoint 0x0011).2
    let s := Scheduler.inLoop d
    let s₀ := s.after [.command 0 (.runToAddress 0x0011)]
    let m := s₀.unwatched.machine
    let ticks : List Input := [.tick 0 16688100]
    s.state = .paused ∧ s₀.ComesTo ticks 0x0011 m [] m.stepped ∧
      (∀ (a : UInt16) (b : Breakpoint), d.breakpoints[a]? = some b → b.enabled = false) ∧ d.stepOut? = none ∧
      (s₀.after ticks).state = .running ∧ ∃ e ∈ s₀.events ticks, e.machine.cpu.regs.pc = 0x0011 := by
  intro d s s₀ m ticks
  have hset : ∀ a : UInt16,
      d.breakpoints[a]? = if a = 0x0011 then some { address := 0x0011, enabled := false } else none := by
    intro a
    have hcmp : compare 0x0011 a = .eq ↔ a = 0x0011 := Std.compare_eq_iff_eq.trans eq_comm
    show ((({} : Debugger).breakpoints.alter 0x0011 _).modify 0x0011 _)[a]? = _
    rw [Std.ExtTreeMap.getElem?_modify, Std.ExtTreeMap.getElem?_alter_self, Std.ExtTreeMap.getElem?_alter]
    simp only [hcmp]
    split <;> rfl
  have hdisabled : ∀ (a : UInt16) (b : Breakpoint), d.breakpoints[a]? = some b → b.enabled = false := by
    intro a b hb
    rw [hset] at hb
    split at hb
    · obtain rfl := Option.some.inj hb
      rfl
    · cases hb
  have hunarmed : d.stepOut? = none := rfl
  have hthere : m.stepped.cpu.regs.pc = 0x0011 := by decide +kernel
  have hcomes : s₀.ComesTo ticks 0x0011 m [] m.stepped := by
    have hdue : s₀.unwatched.speedMode.refresh ≤ 16688100 - s₀.unwatched.previousTime := by decide
    have hcycles : ∀ k < 2, s₀.unwatched.machine.stepCycles k < Scheduler.frameCycles := by decide +kernel
    exact ⟨Scheduler.exists_events_of_due (s := s₀.unwatched) rfl rfl rfl 0 hdue (by decide) hcycles, by simp, hthere⟩
  have hticks : ∀ i ∈ ticks, i.isTick = true := by decide
  obtain ⟨hrunning, hsame⟩ := Scheduler.runToAddress_of_disabled (s := s) rfl ((hset 0x0011).trans (if_pos rfl))
    hdisabled hunarmed 0 hticks
  obtain ⟨rest, hrun⟩ := hcomes.events
  refine ⟨rfl, hcomes, hdisabled, hunarmed, hrunning, ?_⟩
  -- The second instruction that is executed is the one at the address.
  have hmem : (⟨.instruction, m.stepped⟩ : Event) ∈ (s₀.events ticks).map Event.unwatched := by
    rw [hsame, hrun]
    simp
  obtain ⟨e, he, heq⟩ := List.mem_map.mp hmem
  have hmachine : e.unwatched.machine = m.stepped := congrArg Event.machine heq
  refine ⟨e, he, ?_⟩
  rw [← e.cpu_unwatched, hmachine]
  exact hthere

end AppleII
