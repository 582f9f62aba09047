import AppleII.Proofs.Run
import AppleII.Proofs.Scheduler.Standing

/-!
# What a scheduler lets its machine do

Commands and ticks reach a scheduler in any order (`Input`).  Each lets the machine do some `Event`s: it is
booted, it is reset, or it executes an instruction.  Before an event, between two of them and after the last
neither the processor nor the clock changes, unless a user sets the processor (`Scheduler.traced_events`): no
event is missing, and none is made up.
-/

namespace AppleII

/-- An act, and the machine that does it. -/
structure Event where
  act : Act
  machine : Machine

/-- The machine after the event. -/
def Event.result (e : Event) : Machine := e.machine.perform e.act

/-- What may reach a scheduler, with the time that the host's clock shows then. -/
inductive Input where
  | command (time : Nat) (c : Command)
  | tick (time now : Nat)

namespace Scheduler

/-- The instructions of a frame. -/
def frameEvents (s : Scheduler) : List Event := s.course.dropLast.map fun m => ⟨.instruction, m⟩

theorem frameEvents_of_course {s : Scheduler} {m x : Machine} {rest : List Machine}
    (h : s.course = m :: x :: rest) :
    s.frameEvents = ⟨.instruction, m⟩ :: (x :: rest).dropLast.map fun m => ⟨.instruction, m⟩ := by
  rw [frameEvents, h]
  rfl

/-- The boot or the reset that was asked for. -/
def requested (s : Scheduler) : List Event :=
  match s.state with
  | .needBoot => [⟨.boot, s.machine⟩]
  | .needReset => [⟨.reset, s.machine⟩]
  | _ => []

def tickEvents (s : Scheduler) (now : Nat) : List Event :=
  match s.enter? now with
  | some f => s.requested ++ f.frameEvents
  | none => []

/-- The boot before the first step. -/
def firstBoot (s : Scheduler) : List Event := if s.state = .idle then [⟨.boot, s.machine⟩] else []

def commandEvents (s : Scheduler) : Command → List Event
  | .stepInto => s.firstBoot ++ [⟨.instruction, s.bootIfIdle.machine⟩]
  | .stepOver => s.firstBoot ++ [⟨.instruction, s.bootIfIdle.lookedAt⟩]
  | .stepOut => s.firstBoot
  | _ => []

/-- The scheduler when the host's clock shows a time. -/
def atTime (s : Scheduler) (time : Nat) : Scheduler := { s with hostTime := time }

/-- What an input lets the machine do, and the scheduler after it. -/
def react (i : Input) (s : Scheduler) : List Event × Scheduler :=
  match i with
  | .command time c => ((s.atTime time).commandEvents c, ((s.atTime time).handle c).2)
  | .tick time now => ((s.atTime time).tickEvents now, ((s.atTime time).tick now).2)

/-- The scheduler after some inputs. -/
def after (s : Scheduler) (inputs : List Input) : Scheduler := (runAll react inputs s).2

/-- What some inputs let the machine do. -/
def events (s : Scheduler) (inputs : List Input) : List Event := (runAll react inputs s).1.flatten

theorem requested_of_state {s : Scheduler} {r : Request} (h : s.state = r.state) :
    s.requested = [⟨r.act, s.machine⟩] := by
  cases r <;> rw [requested, h] <;> rfl

theorem requested_of_running {s : Scheduler} (h : s.state = .running) : s.requested = [] := by
  rw [requested, h]

/-- A tick lets a machine that runs execute a frame, if that is due. -/
theorem react_tick_of_running {s : Scheduler} (h : s.state = .running) (time now : Nat) :
    react (.tick time now) s =
      if now - s.previousTime < s.speedMode.refresh then ([], s.atTime time)
      else
        let f := { s.atTime time with previousTime := now }
        (f.frameEvents, f.runFrame now) := by
  have hrunning : (s.atTime time).state = .running := h
  have henter := enter?_of_running hrunning now
  by_cases hdue : now - s.previousTime < s.speedMode.refresh
  · have hnone : (s.atTime time).enter? now = none := henter.trans (if_pos hdue)
    have htick : ((s.atTime time).tick now).2 = s.atTime time := congrArg Prod.snd (if_pos hdue)
    rw [if_pos hdue]
    simp only [react, tickEvents, hnone, htick]
  · have hframe : (s.atTime time).enter? now = some { s.atTime time with previousTime := now } :=
      henter.trans (if_neg hdue)
    rw [if_neg hdue]
    simp only [react, tickEvents, hframe, tick_of_enter hframe, requested_of_running hrunning, List.nil_append]

theorem after_cons (s : Scheduler) (i : Input) (is : List Input) :
    s.after (i :: is) = (react i s).2.after is := rfl

theorem events_cons (s : Scheduler) (i : Input) (is : List Input) :
    s.events (i :: is) = (react i s).1 ++ (react i s).2.events is := rfl

theorem after_append (s : Scheduler) (is js : List Input) :
    s.after (is ++ js) = (s.after is).after js := by
  induction is generalizing s with
  | nil => rfl
  | cons i is ih => exact ih (react i s).2

theorem events_append (s : Scheduler) (is js : List Input) :
    s.events (is ++ js) = s.events is ++ (s.after is).events js := by
  induction is generalizing s with
  | nil => rfl
  | cons i is ih => rw [List.cons_append, events_cons, ih, events_cons, List.append_assoc, after_cons]

theorem after_concat (s : Scheduler) (is : List Input) (i : Input) :
    s.after (is ++ [i]) = (react i (s.after is)).2 := s.after_append is [i]

theorem events_concat (s : Scheduler) (is : List Input) (i : Input) :
    s.events (is ++ [i]) = s.events is ++ (react i (s.after is)).1 := by
  rw [events_append, events_cons]
  show _ ++ (_ ++ []) = _
  rw [List.append_nil]

/-- Only steps let the machine do something at once. -/
theorem commandEvents_of_quiet {c : Command} (h : c.quiet = true) (s : Scheduler) :
    s.commandEvents c = [] := by
  cases c <;> first | rfl | cases h

/-! ## No event is missing -/

/-- From one machine to another by some events: before each of them, and after the last, the processor and
the clock are left alone. -/
inductive Traced : Machine → List Event → Machine → Prop
  | done {m m' : Machine} (cpu : m'.cpu = m.cpu) (clock : m'.clock = m.clock) : Traced m [] m'
  | event {m m' : Machine} {e : Event} {es : List Event} (cpu : e.machine.cpu = m.cpu)
    (clock : e.machine.clock = m.clock) (rest : Traced e.result es m') : Traced m (e :: es) m'

namespace Traced

variable {m m' m'' : Machine} {es es' : List Event}

theorem trans (h : Traced m es m') (h' : Traced m' es' m'') : Traced m (es ++ es') m'' := by
  induction h with
  | done cpu clock =>
    cases h' with
    | done cpu' clock' => exact .done (cpu'.trans cpu) (clock'.trans clock)
    | event cpu' clock' rest => exact .event (cpu'.trans cpu) (clock'.trans clock) rest
  | event cpu clock _ ih => exact .event cpu clock (ih h')

theorem trans_quiet (h : Traced m es m') (h' : Traced m' [] m'') : Traced m es m'' := by
  have hboth := h.trans h'
  rw [List.append_nil] at hboth
  exact hboth

theorem single {act : Act} (cpu : m'.cpu = (m.perform act).cpu) (clock : m'.clock = (m.perform act).clock) :
    Traced m [⟨act, m⟩] m' :=
  .event rfl rfl (.done cpu clock)

theorem of_standing {s s' : Scheduler} {debugger : Debugger} {skip : Bool} {state : RunState}
    (h : s'.standing = { s.standing with state, debugger, skip }) : Traced s.machine [] s'.machine :=
  .done (congrArg Standing.cpu h) (congrArg Standing.clock h)

/-- What a request asks for is done. -/
theorem of_served (s : Scheduler) (r : Request) {s' : Scheduler} {state : RunState}
    (h : s'.standing = { s.served r with state }) : Traced s.machine [⟨r.act, s.machine⟩] s'.machine :=
  .single (congrArg Standing.cpu h) (congrArg Standing.clock h)

theorem setState (s : Scheduler) (state : RunState) : Traced s.machine [] (s.setState state).machine :=
  of_standing (standing_setState s state)

theorem of_isChain {l : List Machine}
    (h : (m :: l).IsChain fun m m' => m' = m.perform .instruction) :
    Traced m ((m :: l).dropLast.map fun m => ⟨.instruction, m⟩) ((m :: l).getLast (List.cons_ne_nil m l)) := by
  induction l generalizing m with
  | nil => exact .done rfl rfl
  | cons x l ih =>
    rw [List.isChain_cons_cons] at h
    obtain ⟨rfl, h⟩ := h
    exact .event rfl rfl (ih h)

end Traced

theorem traced_frame (s : Scheduler) (now : Nat) :
    Traced s.machine s.frameEvents (s.runFrame now).machine := by
  obtain ⟨front, last, hcourse, hcpu, hclock, -, -⟩ := runFrame_course s now
  obtain ⟨rest, hrest⟩ := Machine.course_eq_cons (Machine.forCycles frameCycles) frameCycles 0 s.machine
  have hchain := Machine.isChain_course (Machine.forCycles frameCycles) frameCycles 0 s.machine
  rw [hrest] at hchain
  have hlast : (s.machine :: rest).getLast (List.cons_ne_nil _ _) = last := by
    have heq : s.machine :: rest = front ++ [last] := hrest.symm.trans hcourse
    simp [heq]
  have htraced := Traced.of_isChain hchain
  rw [hlast, ← hrest] at htraced
  exact htraced.trans_quiet (.done hcpu hclock)

theorem traced_tick (s : Scheduler) (now : Nat) :
    Traced s.machine (s.tickEvents now) (s.tick now).2.machine := by
  unfold tickEvents
  cases h : s.enter? now with
  | none =>
    have hstanding := standing_tick_of_none h
    exact .done (congrArg Standing.cpu hstanding) (congrArg Standing.clock hstanding)
  | some f =>
    rw [tick_of_enter h]
    have hrequested : Traced s.machine s.requested f.machine := by
      rcases enter?_cases h with ⟨r, hstate, hf⟩ | ⟨hstate, rfl⟩
      · rw [requested_of_state hstate]
        exact .of_served s r hf
      · rw [requested_of_running hstate]
        exact .done rfl rfl
    exact hrequested.trans (traced_frame f now)

theorem traced_bootIfIdle (s : Scheduler) : Traced s.machine s.firstBoot s.bootIfIdle.machine := by
  by_cases h : s.state = .idle
  · rw [firstBoot, if_pos h]
    exact .of_served s .boot (standing_bootIfIdle h)
  · rw [firstBoot, if_neg h, bootIfIdle_of_ne h]
    exact .done rfl rfl

theorem traced_executeOne (s : Scheduler) :
    Traced s.machine [⟨.instruction, s.machine⟩] s.executeOne.machine :=
  .single rfl rfl

theorem traced_stepInto (s : Scheduler) :
    Traced s.machine (s.commandEvents .stepInto) s.stepInto.machine :=
  (s.traced_bootIfIdle.trans s.bootIfIdle.traced_executeOne).trans_quiet (.setState _ .paused)

theorem traced_stepOut (s : Scheduler) :
    Traced s.machine (s.commandEvents .stepOut) s.stepOut.machine := by
  have harmed : Traced s.bootIfIdle.machine [] s.stepOut.machine := .of_standing (standing_setState _ _)
  exact s.traced_bootIfIdle.trans_quiet harmed

theorem traced_stepOver (s : Scheduler) :
    Traced s.machine (s.commandEvents .stepOver) s.stepOver.machine := by
  obtain ⟨s', hmachine, hstate, h⟩ := s.stepOver_cases
  -- Looking at the opcode may turn a soft switch, but takes no time.
  have hlook : Traced s.machine s.firstBoot s'.machine := by
    have hread : Traced s.bootIfIdle.machine [] s'.machine := by
      rw [hmachine]
      exact .done rfl (Board.clock_read _ _)
    exact s.traced_bootIfIdle.trans_quiet hread
  have hidle : s'.state ≠ .idle := by
    rw [hstate]
    exact s.state_bootIfIdle_ne
  have hone := hlook.trans s'.traced_executeOne
  rw [hmachine] at hone
  rcases h with h | h
  · rw [h, stepInto, bootIfIdle_of_ne hidle]
    exact hone.trans_quiet (.setState _ .paused)
  · have harmed : Traced s'.executeOne.machine [] s'.executeOne.stepOut.machine := by
      have hne : s'.executeOne.state ≠ .idle := hidle
      unfold stepOut
      rw [bootIfIdle_of_ne hne]
      exact .of_standing (standing_setState _ _)
    rw [h]
    exact hone.trans_quiet harmed

theorem traced_handle (s : Scheduler) {c : Command} (hc : c.setsProcessor = false) :
    Traced s.machine (s.commandEvents c) (s.handle c).2.machine := by
  by_cases hquiet : c.quiet = true
  · obtain ⟨debugger, hstanding⟩ := standing_handle_of_quiet hquiet s
    rw [commandEvents_of_quiet hquiet]
    exact .of_standing hstanding
  · cases c with
    | stepInto => exact s.traced_stepInto
    | stepOver => exact s.traced_stepOver
    | stepOut => exact s.traced_stepOut
    | boot => exact .setState s _
    | reset => exact .setState s _
    | run => exact .setState s _
    | runToAddress address =>
      have h := standing_setState (s.modifyDebugger (·.runTo address))
        (if s.state = .idle then .needBoot else .running)
      exact .done (congrArg Standing.cpu h) (congrArg Standing.clock h)
    | pause =>
      show Traced s.machine [] (if s.state = .idle then s else s.setState .paused).machine
      split
      · exact .done rfl rfl
      · exact .setState s .paused
    | restoreState | setRegister | timeTravelBackward | timeTravelForward | timeTravelIndex => cases hc
    | _ => exact absurd rfl hquiet

theorem traced_react (s : Scheduler) {i : Input}
    (hi : ∀ time c, i = .command time c → c.setsProcessor = false) :
    Traced s.machine (react i s).1 (react i s).2.machine := by
  cases i with
  | tick time now => exact traced_tick (s.atTime time) now
  | command time c => exact traced_handle (s.atTime time) (hi time c rfl)

/-- **No event is missing, and none is made up.** As long as no user sets the processor, commands and ticks
take the machine through their events, and leave its processor and its clock alone otherwise. -/
theorem traced_events (s : Scheduler) {is : List Input}
    (his : ∀ time c, Input.command time c ∈ is → c.setsProcessor = false) :
    Traced s.machine (s.events is) (s.after is).machine := by
  induction is generalizing s with
  | nil => exact .done rfl rfl
  | cons i is ih =>
    rw [events_cons, after_cons]
    refine (traced_react s fun time c h => his time c (h ▸ List.mem_cons_self)).trans (ih _ ?_)
    intro time c h
    exact his time c (List.mem_cons_of_mem i h)

end Scheduler

/-- A new scheduler, whose ROM is full of no-operations. -/
def Scheduler.withNops : Scheduler where
  machine := (Machine.ofModel .cmos).loadRom (Array.replicate romSize 0xEA)

end AppleII
