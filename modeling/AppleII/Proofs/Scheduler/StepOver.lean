import AppleII.Proofs.Machine.StepOut
import AppleII.Proofs.Scheduler.Trace

/-!
# Stepping over a subroutine

A step over of a call lets the machine run to the return of the subroutine.  The ticks after it do what they do
when no step out is armed, as far as the first return above the call (`Scheduler.stepsOut_after`).  In a balanced
subroutine that is its own return, and not one of the returns in it (`stepOver_returns`).
-/

namespace AppleII

open Processor (Registers)
open Processor.Instruction (callOpcode)

def Event.disarmed (e : Event) : Event := { e with machine := e.machine.disarmed }

def Input.isTick : Input → Bool
  | .tick _ _ => true
  | .command _ _ => false

namespace Scheduler

/-- The scheduler with no step out armed. -/
def disarmed (s : Scheduler) : Scheduler := { s with machine := s.machine.disarmed }

/-- The machine runs to the return above a depth, and there are no breakpoints. -/
structure SteppingOut (depth : UInt8) (s : Scheduler) : Prop where
  running : s.state = .running
  machine : s.machine.SteppingOut depth

/-- What a scheduler that steps out lets its machine do, and what it is after that, beside the same scheduler with
no step out armed. -/
inductive StepsOut (depth : UInt8) (armed plain : List Event × Scheduler) : Prop
  /-- There is no return above the depth, and both do the same. -/
  | goesOn (before : ∀ e ∈ plain.1, ¬ e.machine.ReturnsAbove depth) (executed : armed.1.map Event.disarmed = plain.1)
      (same : armed.2.disarmed = plain.2) (still : armed.2.SteppingOut depth)
  /-- The machine is paused after the first return above the depth. -/
  | returned (front back : List Event) (e : Event) (events : plain.1 = front ++ e :: back)
      (before : ∀ e ∈ front, ¬ e.machine.ReturnsAbove depth) (returns : e.machine.ReturnsAbove depth)
      (executed : armed.1.map Event.disarmed = front ++ [e]) (paused : armed.2.state = .paused)
      (cpu : armed.2.machine.cpu = e.machine.stepped.cpu)

variable {depth : UInt8} {s : Scheduler}

/-! ## A tick -/

theorem runFrame_of_complete {m : Machine} {now : Nat} (h : s.machine.runFor frameCycles = (true, m)) :
    s.runFrame now = { s with machine := m }.endFrame now true := by
  rw [runFrame_eq, cycled, h]
  rfl

/-- A frame ends alike whether a step out is armed or not. -/
theorem disarmed_endFrame (s : Scheduler) (now : Nat) :
    (s.endFrame now true).disarmed = s.disarmed.endFrame now true :=
  (masked_endFrame (f := Debugger.disarmStepOut) (g := id) (fun _ => rfl) s now true).symm

theorem stepsOut_frame (h : s.SteppingOut depth) (now : Nat) :
    StepsOut depth (s.frameEvents, s.runFrame now) (s.disarmed.frameEvents, s.disarmed.runFrame now) := by
  have hevents (l : List Machine) :
      (l.map fun m => (⟨.instruction, m⟩ : Event)).map Event.disarmed =
        (l.map Machine.disarmed).map fun m => ⟨.instruction, m⟩ := by
    rw [List.map_map, List.map_map]
    rfl
  have hstanding := standing_runFrame s now
  cases Machine.stepsOut_runWhile h.machine (Machine.forCycles frameCycles) frameCycles 0 with
  | goesOn before executed complete same still =>
    have hcomplete : (s.machine.runFor frameCycles).1 = true := complete.1
    have hrun : s.machine.runFor frameCycles = (true, (s.machine.runFor frameCycles).2) :=
      Prod.ext hcomplete rfl
    have hplain : s.disarmed.machine.runFor frameCycles =
        (true, (s.machine.runFor frameCycles).2.disarmed) := Prod.ext complete.2 same.symm
    simp only [hcomplete, if_true] at hstanding
    refine .goesOn ?_ ?_ ?_ ⟨(congrArg Standing.state hstanding).trans h.running,
      still.of_debugger (congrArg Standing.debugger hstanding)⟩
    · exact List.forall_mem_map.mpr before
    · exact (hevents _).trans (congrArg _ executed)
    · rw [runFrame_of_complete hrun, runFrame_of_complete hplain, disarmed_endFrame]
      rfl
  | returned front back x course before returns executed halted cpu =>
    have hhalted : (s.machine.runFor frameCycles).1 = false := halted
    simp only [hhalted, Bool.false_eq_true, if_false] at hstanding
    refine .returned (front.map fun m => ⟨.instruction, m⟩) (back.map fun m => ⟨.instruction, m⟩)
      ⟨.instruction, x⟩ ?_ ?_ returns ?_ (congrArg Standing.state hstanding) ?_
    · exact (congrArg (List.map _) course).trans List.map_append
    · exact List.forall_mem_map.mpr before
    · exact ((hevents _).trans (congrArg _ executed)).trans List.map_append
    · exact (congrArg Standing.cpu hstanding).trans cpu

theorem stepsOut_tick (h : s.SteppingOut depth) (time now : Nat) :
    StepsOut depth (react (.tick time now) s) (react (.tick time now) s.disarmed) := by
  have hsame : s.disarmed.previousTime = s.previousTime ∧ s.disarmed.speedMode = s.speedMode := ⟨rfl, rfl⟩
  rw [react_tick_of_running h.running, react_tick_of_running (s := s.disarmed) h.running, hsame.1, hsame.2]
  by_cases hdue : now - s.previousTime < s.speedMode.refresh
  · rw [if_pos hdue, if_pos hdue]
    exact .goesOn (by simp) rfl rfl ⟨h.running, h.machine⟩
  · rw [if_neg hdue, if_neg hdue]
    exact stepsOut_frame (s := { s.atTime time with previousTime := now }) ⟨h.running, h.machine⟩ now

/-- A due tick lets a machine that runs execute a frame.  If nothing stops the machine, that begins with its first
steps. -/
theorem exists_events_of_due (h : s.state = .running) (hempty : s.machine.debugger.breakpoints = ∅)
    (hunarmed : s.machine.debugger.stepOutArmed = false) (time : Nat) {now : Nat}
    (hdue : s.speedMode.refresh ≤ now - s.previousTime) {n : Nat} (hn : n ≤ frameCycles)
    (hcycles : ∀ k < n, s.machine.stepCycles k < frameCycles) :
    ∃ rest, s.events [.tick time now] =
      (List.iterate Machine.stepped s.machine n ++ rest).map fun m => ⟨.instruction, m⟩ := by
  have htime : ∀ k < n, 0 + s.machine.stepCycles k < frameCycles := fun k hk => by
    rw [Nat.zero_add]
    exact hcycles k hk
  obtain ⟨rest, hcourse⟩ := Machine.exists_course_of_plain hempty hunarmed hn htime
  refine ⟨rest, ?_⟩
  rw [events_cons, react_tick_of_running h, if_neg (Nat.not_lt.mpr hdue)]
  exact (List.append_nil _).trans (congrArg (List.map _) hcourse)

/-! ## Some ticks -/

theorem react_of_paused (h : s.state = .paused) (time now : Nat) :
    (react (.tick time now) s).1 = [] ∧ (react (.tick time now) s).2.standing = s.standing := by
  have hnone : (s.atTime time).enter? now = none := by
    unfold enter?
    split
    · rfl
    · simp [show (s.atTime time).state = .paused from h]
  have hstanding := standing_tick_of_none hnone
  simp only [react, tickEvents, hnone]
  exact ⟨trivial, hstanding⟩

/-- Ticks leave a paused machine alone. -/
theorem after_of_paused (h : s.state = .paused) {ticks : List Input} (hticks : ∀ i ∈ ticks, i.isTick = true) :
    s.events ticks = [] ∧ (s.after ticks).standing = s.standing := by
  induction ticks generalizing s with
  | nil => exact ⟨rfl, rfl⟩
  | cons i ticks ih =>
    obtain ⟨hi, hrest⟩ := List.forall_mem_cons.mp hticks
    cases i with
    | command => cases hi
    | tick time now =>
      obtain ⟨hnothing, hstanding⟩ := react_of_paused h time now
      obtain ⟨hnothing', hstanding'⟩ := ih ((congrArg Standing.state hstanding).trans h) hrest
      rw [events_cons, after_cons, hnothing, hnothing', hstanding', hstanding]
      exact ⟨rfl, rfl⟩

/-- **Ticks of a scheduler that steps out** do what they do with no step out armed, up to the first return above
the depth of the step out; after it the machine stays paused. -/
theorem stepsOut_after (h : s.SteppingOut depth) {ticks : List Input} (hticks : ∀ i ∈ ticks, i.isTick = true) :
    StepsOut depth (s.events ticks, s.after ticks) (s.disarmed.events ticks, s.disarmed.after ticks) := by
  induction ticks generalizing s with
  | nil => exact .goesOn (by simp [events, runAll]) rfl rfl h
  | cons i ticks ih =>
    obtain ⟨hi, hrest⟩ := List.forall_mem_cons.mp hticks
    cases i with
    | command => cases hi
    | tick time now =>
      simp only [events_cons, after_cons]
      cases stepsOut_tick h time now with
      | goesOn before executed same still =>
        rw [← same]
        cases ih still hrest with
        | goesOn before' executed' same' still' =>
          refine .goesOn (List.forall_mem_append.mpr ⟨before, before'⟩) ?_ same' still'
          rw [List.map_append]
          exact congrArg₂ _ executed executed'
        | returned front back e events before' returns executed' paused cpu =>
          refine .returned ((react (.tick time now) s.disarmed).1 ++ front) back e ?_
            (List.forall_mem_append.mpr ⟨before, before'⟩) returns ?_ paused cpu
          · rw [List.append_assoc]
            exact congrArg _ events
          · rw [List.map_append, List.append_assoc]
            exact congrArg₂ _ executed executed'
      | returned front back e events before returns executed paused cpu =>
        obtain ⟨hnothing, hstanding⟩ := after_of_paused paused hrest
        have events : (react (.tick time now) s.disarmed).1 = front ++ e :: back := events
        refine .returned front (back ++ (react (.tick time now) s.disarmed).2.events ticks) e ?_ before returns ?_
          ((congrArg Standing.state hstanding).trans paused) ((congrArg Standing.cpu hstanding).trans cpu)
        · rw [events, List.append_assoc, List.cons_append]
        · rw [hnothing, List.append_nil]
          exact executed

/-! ## The call -/

theorem memory_setState (s : Scheduler) (state : RunState) : (s.setState state).machine.memory = s.machine.memory := by
  unfold setState
  simp only
  split <;> split <;> rfl

theorem steppingOut_stepOut (h : s.state ≠ .idle) (hnone : s.machine.debugger.breakpoints = ∅) :
    s.stepOut.SteppingOut s.machine.cpu.regs.sp ∧ s.stepOut.machine.cpu = s.machine.cpu ∧
      s.stepOut.machine.memory = s.machine.memory := by
  have hstanding := standing_setState { s with
    machine.debugger := s.machine.debugger.armStepOut s.machine.cpu.regs.sp } .running
  rw [stepOut, bootIfIdle_of_ne h]
  refine ⟨⟨rfl, ?_⟩, congrArg Standing.cpu hstanding, memory_setState _ _⟩
  have harmed : Machine.SteppingOut s.machine.cpu.regs.sp { s.machine with
      debugger := s.machine.debugger.armStepOut s.machine.cpu.regs.sp } := ⟨hnone, rfl, rfl⟩
  exact harmed.of_debugger (congrArg Standing.debugger hstanding)

/-- A step over of a call executes it, and arms a step out at the frame of the subroutine. -/
theorem after_stepOver_of_call (hpaused : s.state = .paused) (hnone : s.machine.debugger.breakpoints = ∅)
    (hpc : s.machine.cpu.regs.pc < 0xC000 ∨ 0xC0FF < s.machine.cpu.regs.pc)
    (hcall : s.machine.opcode? = some callOpcode) (time : Nat) :
    let s' := s.after [.command time .stepOver]
    s'.SteppingOut (s.machine.cpu.regs.sp - 2) ∧ s'.machine.cpu = s.machine.stepped.cpu ∧
      s'.machine.memory = s.machine.stepped.memory := by
  intro s'
  obtain ⟨-, hopcode⟩ := Machine.opcode?_eq_some_iff.mp hcall
  -- Outside the I/O page, looking at the opcode changes nothing.
  have hlook : s.machine.board.read s.machine.cpu.regs.pc = (callOpcode, s.machine.board) := by
    refine Prod.ext hopcode ?_
    rw [Board.read, Memory.isIoPage_eq_false hpc]
    rfl
  have hends : s.machine.endsStepOut = false := by
    unfold Machine.endsStepOut Debugger.returnReached
    rw [Machine.lastOpcode_stepped, hcall, Bool.and_eq_false_iff]
    left
    rw [Bool.and_eq_false_iff]
    right
    decide
  have hone : (s.atTime time).executeOne = { s.atTime time with machine := s.machine.stepped } := by
    show ({ s.atTime time with machine := (s.machine.processInstruction true).2 } : Scheduler) = _
    rw [Machine.processInstruction_true, hends]
    rfl
  have hstep : s' = ({ s.atTime time with machine := s.machine.stepped } : Scheduler).stepOut := by
    have hidle : (s.atTime time).state ≠ .idle := fun h => RunState.noConfusion (hpaused.symm.trans h)
    have hlook' : (s.atTime time).machine.board.read (s.atTime time).machine.cpu.regs.pc = _ := hlook
    rw [← hone]
    show (s.atTime time).stepOver = _
    unfold stepOver
    rw [bootIfIdle_of_ne hidle]
    simp only [hlook', if_true]
    rfl
  have hne : ({ s.atTime time with machine := s.machine.stepped } : Scheduler).state ≠ .idle := fun h =>
    RunState.noConfusion (hpaused.symm.trans h)
  rw [hstep, ← Machine.sp_call hcall]
  exact steppingOut_stepOut hne hnone

end Scheduler

/-- What comes before the first element with a property ends where that is, or before. -/
theorem length_le_of_first {α : Type} {p : α → Prop} {l rest front back : List α} {a : α}
    (h : l ++ rest = front ++ a :: back) (hl : ∀ x ∈ l, ¬ p x) (ha : p a) : l.length ≤ front.length := by
  rcases List.append_eq_append_iff.mp h with ⟨l', rfl, -⟩ | ⟨l', rfl, hl'⟩
  · exact (List.prefix_append l l').length_le
  · cases l' with
    | nil => rw [List.append_nil]
    | cons x l' =>
      obtain ⟨rfl, -⟩ := List.cons.inj hl'
      exact absurd ha (hl a (by simp))

/-- Two lists split at their first elements with a property are split alike. -/
theorem append_cons_inj_of_first {α : Type} {p : α → Prop} {front front' back back' : List α} {a a' : α}
    (h : front ++ a :: back = front' ++ a' :: back') (hfront : ∀ x ∈ front, ¬ p x) (ha : p a)
    (hfront' : ∀ x ∈ front', ¬ p x) (ha' : p a') : front = front' ∧ a = a' := by
  rcases List.append_eq_append_iff.mp h with ⟨l, rfl, hl⟩ | ⟨l, rfl, hl⟩
  · cases l with
    | nil => exact ⟨(List.append_nil _).symm, (List.cons.inj hl).1⟩
    | cons x l =>
      obtain ⟨rfl, -⟩ := List.cons.inj hl
      exact absurd ha (hfront' a (by simp))
  · cases l with
    | nil => exact ⟨List.append_nil _, (List.cons.inj hl).1.symm⟩
    | cons x l =>
      obtain ⟨rfl, -⟩ := List.cons.inj hl
      exact absurd ha' (hfront a' (by simp))

/-- **A step over of a call stops behind it.** In a paused machine without breakpoints the next instruction is a
call.  With no step out armed, ticks after the step over would let the machine execute `body`, which is balanced
below the frame of the call, then the return of the call, and what comes after that.  The step over lets it execute
all of `body`, through as many ticks as that takes, and the return, and pauses it there: behind the call, with the
stack as it was. -/
theorem stepOver_returns {s : Scheduler} (hpaused : s.state = .paused)
    (hnone : s.machine.debugger.breakpoints = ∅)
    (hpc : s.machine.cpu.regs.pc < 0xC000 ∨ 0xC0FF < s.machine.cpu.regs.pc)
    (hcall : s.machine.opcode? = some callOpcode) (hsp : 2 ≤ s.machine.cpu.regs.sp) {time : Nat}
    {ticks later : List Input} (hticks : ∀ i ∈ ticks, i.isTick = true) {body rest : List Machine} {ret : Machine}
    (hrun : (s.after [.command time .stepOver]).disarmed.events (ticks ++ later) =
      (body ++ ret :: rest).map fun m => ⟨.instruction, m⟩)
    (hbody : Machine.Balanced (s.machine.cpu.regs.sp - 2) body) (hret : s.machine.stepped.Returns ret) :
    let s₀ := s.after [.command time .stepOver]
    let plain := s₀.disarmed.events ticks
    let executed := (s₀.events ticks).map Event.disarmed
    let s' := s₀.after ticks
    if plain.length ≤ body.length then s'.state = .running ∧ executed = plain
    else
      s'.state = .paused ∧ executed = (body ++ [ret]).map (fun m => ⟨.instruction, m⟩) ∧
        s'.machine.cpu.regs.pc = s.machine.cpu.regs.pc + 3 ∧ s'.machine.cpu.regs.sp = s.machine.cpu.regs.sp := by
  intro s₀ plain executed s'
  obtain ⟨hout, -⟩ := Scheduler.after_stepOver_of_call hpaused hnone hpc hcall time
  obtain ⟨hretSp, hretPc⟩ := Machine.stepped_ret hret.opcode
  have hsp' : ret.stepped.cpu.regs.sp = s.machine.cpu.regs.sp := by
    rw [hretSp, hret.sp, Machine.sp_call hcall, UInt8.sub_add_cancel]
  have hpc' : ret.stepped.cpu.regs.pc = s.machine.cpu.regs.pc + 3 := by
    rw [hretPc, hret.address, Machine.returnAddress_call hcall]
    exact UInt16.add_assoc _ 2 1
  -- Among the instructions, the return of the call is the first one that returns above its frame.
  have hbefore : ∀ e ∈ body.map fun m => (⟨.instruction, m⟩ : Event),
      ¬ e.machine.ReturnsAbove (s.machine.cpu.regs.sp - 2) :=
    List.forall_mem_map.mpr fun m hm habove => UInt8.not_lt.mpr (hbody.sp_le m hm) habove.2
  have hreturns : ret.ReturnsAbove (s.machine.cpu.regs.sp - 2) := by
    refine ⟨hret.opcode, ?_⟩
    rw [hsp']
    grind
  have hsplit : plain ++ (s₀.disarmed.after ticks).events later = _ := (Scheduler.events_append _ _ _).symm.trans hrun
  rw [List.map_append, List.map_cons] at hsplit
  cases Scheduler.stepsOut_after hout hticks with
  | goesOn before same _ still =>
    have hshort := length_le_of_first (p := fun e : Event => e.machine.ReturnsAbove (s.machine.cpu.regs.sp - 2))
      hsplit before hreturns
    rw [List.length_map] at hshort
    rw [if_pos hshort]
    exact ⟨still.running, same⟩
  | returned front back e events before returns same paused cpu =>
    have hevents : plain = front ++ e :: back := events
    rw [hevents, List.append_assoc, List.cons_append] at hsplit
    obtain ⟨rfl, rfl⟩ := append_cons_inj_of_first
      (p := fun e : Event => e.machine.ReturnsAbove (s.machine.cpu.regs.sp - 2)) hsplit before returns hbefore hreturns
    have hlong : ¬ plain.length ≤ body.length := by
      rw [hevents, List.length_append, List.length_map, List.length_cons]
      omega
    rw [if_neg hlong, List.map_append]
    have hregs := congrArg Processor.regs cpu
    exact ⟨paused, same, (congrArg Registers.pc hregs).trans hpc', (congrArg Registers.sp hregs).trans hsp'⟩

/-- A paused machine at a call of a subroutine that calls another one, which returns at once. -/
def Scheduler.atCall : Scheduler where
  machine := {
    cpu := { model := .cmos, regs := { Registers.powerUp with pc := 0x0010 } }
    board.memory := ({} : Memory).loadMain 0x0010 #[0x20, 0x14, 0x00, 0xEA, 0x20, 0x18, 0x00, 0x60, 0x60] }
  state := .paused

/-- The return of the subroutine that is called in the subroutine does not stop the machine. -/
theorem stepOver_returns_atCall :
    let s := Scheduler.atCall
    let s₀ := s.after [.command 0 .stepOver]
    let m := s₀.disarmed.machine
    let ticks : List Input := [.tick 0 16688100]
    s.state = .paused ∧ s.machine.debugger.breakpoints = ∅ ∧ s.machine.cpu.regs.pc < 0xC000 ∧
      s.machine.opcode? = some callOpcode ∧ 2 ≤ s.machine.cpu.regs.sp ∧ (∀ i ∈ ticks, i.isTick = true) ∧
      (∃ rest, s₀.disarmed.events (ticks ++ []) =
        ([m, m.stepped] ++ m.stepped.stepped :: rest).map fun m => ⟨.instruction, m⟩) ∧
      Machine.Balanced (s.machine.cpu.regs.sp - 2) [m, m.stepped] ∧
      s.machine.stepped.Returns m.stepped.stepped ∧
      (s₀.after ticks).state = .paused ∧ (s₀.events ticks).length = 3 ∧
        (s₀.after ticks).machine.cpu.regs.pc = 0x0013 ∧ (s₀.after ticks).machine.cpu.regs.sp = 0xFD := by
  intro s s₀ m ticks
  have hcall : s.machine.opcode? = some callOpcode := by decide +kernel
  have hinner : m.opcode? = some callOpcode := by decide +kernel
  have hbody : Machine.Balanced (s.machine.cpu.regs.sp - 2) [m, m.stepped] := by
    have hret : m.stepped.Returns m.stepped := ⟨by decide +kernel, rfl, rfl⟩
    show Machine.Balanced _ (m :: ([] ++ m.stepped :: []))
    exact .call hinner (by decide +kernel) (by decide +kernel) .done hret .done
  have hret : s.machine.stepped.Returns m.stepped.stepped :=
    ⟨by decide +kernel, by decide +kernel, by decide +kernel⟩
  have hticks : ∀ i ∈ ticks, i.isTick = true := by decide
  have hnone : s.machine.debugger.breakpoints = ∅ := rfl
  have hpc : s.machine.cpu.regs.pc < 0xC000 := by decide
  have hsp : 2 ≤ s.machine.cpu.regs.sp := by decide
  have hrun : ∃ rest, s₀.disarmed.events (ticks ++ []) =
      ([m, m.stepped] ++ m.stepped.stepped :: rest).map fun m => ⟨.instruction, m⟩ := by
    obtain ⟨hout, -⟩ := Scheduler.after_stepOver_of_call (s := s) rfl hnone (.inl hpc) hcall 0
    have hempty : m.debugger.breakpoints = ∅ := hout.machine.breakpoints
    have hdue : s₀.disarmed.speedMode.refresh ≤ 16688100 - s₀.disarmed.previousTime := by decide
    have hcycles : ∀ k < 3, s₀.disarmed.machine.stepCycles k < Scheduler.frameCycles := by decide +kernel
    have hrunning : s₀.disarmed.state = .running := hout.running
    exact Scheduler.exists_events_of_due hrunning hempty rfl 0 hdue (by decide) hcycles
  refine ⟨rfl, hnone, hpc, hcall, hsp, hticks, hrun, hbody, hret, ?_⟩
  obtain ⟨rest, hrun⟩ := hrun
  have h := stepOver_returns rfl hnone (.inl hpc) hcall hsp hticks hrun hbody hret
  have hlong : ¬ (s₀.disarmed.events ticks).length ≤ 2 := by
    have hlength := congrArg List.length hrun
    rw [List.append_nil, List.length_map, List.length_append, List.length_cons] at hlength
    rw [hlength]
    simp
  change if (s₀.disarmed.events ticks).length ≤ 2 then _ else _ at h
  rw [if_neg hlong] at h
  obtain ⟨hpaused, hexecuted, hpc', hsp'⟩ := h
  have hthree := congrArg List.length hexecuted
  rw [List.length_map] at hthree
  exact ⟨hpaused, hthree, hpc', hsp'⟩

end AppleII
