import AppleII.Proofs.Scheduler.Trace
import AppleII.Proofs.Switch.Touch

/-!
# When the panel is current

A command that changes what the panel shows is to publish it.  Two do not: the speed mode and the buttons change, and
the last panel shows what was before (`Scheduler.edit_eq_iff`).  Every other command leaves a panel that was current
current (`Scheduler.outcome_handle`).
-/

namespace AppleII

/-- What a command that publishes no panel makes of what is shown. -/
def Command.edit : Command → Panel → Panel
  | .setSpeed mode, p => { p with speedMode := mode }
  | .button 0 pressed, p => { p with button0 := pressed }
  | .button 1 pressed, p => { p with button1 := pressed }
  | _, p => p

theorem Scheduler.switches_withNops : withNops.machine.switches = .reset := by
  have hnew : (Machine.ofModel .cmos).switches = .reset := rfl
  unfold withNops
  dsimp only
  rw [Machine.switches_loadRom, hnew]

/-- Loading bytes turns no switch. -/
theorem Memory.switches_loadMain (m : Memory) (address : UInt16) (bytes : Array UInt8) :
    (m.loadMain address bytes).switches = m.switches := by
  unfold loadMain
  refine Array.foldl_induction (fun _ (p : Memory × UInt16) => p.1.switches = m.switches) rfl ?_
  rintro i ⟨m', address'⟩ h
  exact h

namespace Scheduler

/-- The last panel shows what a panel would show now, but for the drive events. -/
def Current (s : Scheduler) : Prop := { s.latest with driveEvents := [] } = { s.takePanel.1 with driveEvents := [] }

/-- A command published its panel at last, or it left the last one. -/
inductive Outcome (s : Scheduler) (edit : Panel → Panel) : Scheduler → Prop
  | published (t : Scheduler) (plain : edit = id) : Outcome s edit t.publish
  | kept {s' : Scheduler} (latest : s'.latest = s.latest) (view : s'.view = edit s.view) : Outcome s edit s'

variable {s s' t : Scheduler} {edit : Panel → Panel}

theorem current_iff : s.Current ↔ { s.latest with driveEvents := [] } = s.view := Iff.rfl

theorem current_publish (s : Scheduler) : s.publish.Current := rfl

/-- A new scheduler has published no panel; a breakpoint makes it publish one. -/
theorem current_setBreakpoint (s : Scheduler) (time : Nat) (address : UInt16) :
    (s.after [.command time (.setBreakpoint address)]).Current := current_publish _

theorem switches_setBreakpoint (s : Scheduler) (time : Nat) (address : UInt16) :
    (s.after [.command time (.setBreakpoint address)]).machine.switches = s.machine.switches := rfl

/-- A panel that was current stays so where nothing changed that it shows. -/
theorem Outcome.current_iff (h : s.Outcome edit s') (hs : s.Current) : s'.Current ↔ edit s.view = s.view := by
  cases h with
  | published t plain =>
    rw [plain]
    exact iff_of_true t.current_publish rfl
  | kept latest view => rw [Scheduler.current_iff, latest, view, Scheduler.current_iff.mp hs, eq_comm]

theorem Outcome.quiet (hlatest : s'.latest = s.latest) (hview : s'.view = s.view) : s.Outcome id s' :=
  .kept hlatest hview

/-! ## What commands do -/

theorem outcome_setState (s t : Scheduler) (state : RunState) : s.Outcome id (t.setState state) := .published _ rfl

theorem outcome_stepOver (s : Scheduler) : s.Outcome id s.stepOver := by
  unfold stepOver
  dsimp only
  split
  · exact outcome_setState _ _ _
  · exact outcome_setState _ _ _

theorem outcome_pause (s : Scheduler) : s.Outcome id (if s.state = .idle then s else s.setState .paused) := by
  split
  · exact .quiet rfl rfl
  · exact outcome_setState _ _ _

theorem outcome_setRegister (s : Scheduler) (register : RegisterName) (value : UInt16) :
    s.Outcome id (s.setRegister register value) := by
  unfold setRegister
  split
  · exact .published _ rfl
  · exact .quiet rfl rfl

theorem outcome_loadDisk (s : Scheduler) (drive : Nat) (name : String) (bytes : Array UInt8) :
    s.Outcome id (s.loadDisk drive name bytes).2 := by
  unfold loadDisk
  rw [Disk.Controller.insertDisk_eq, run_transaction]
  cases s.machine.disk.insert drive name bytes with
  | error e => exact .quiet rfl rfl
  | ok r => exact .published _ rfl

theorem outcome_ejectDisk (s : Scheduler) (drive : Nat) : s.Outcome id (s.ejectDisk drive).2 := by
  unfold ejectDisk
  rw [Disk.Controller.ejectDisk_eq, run_transaction]
  cases s.machine.disk.eject drive with
  | error e => exact .quiet rfl rfl
  | ok disk => exact .published _ rfl

theorem outcome_restoreState (s : Scheduler) (state : SaveState) : s.Outcome id (s.restoreState state).2 := by
  unfold restoreState
  rcases Machine.restore_cases state s.machine with ⟨e, h⟩ | ⟨m, h, -⟩
  · rw [h]
    exact .quiet rfl rfl
  · rw [h]
    exact .published _ rfl

/-- The panel shows nothing of the memory but switches. -/
theorem view_modifyMemory {f : Memory → Memory} (h : (f s.machine.memory).switches = s.machine.switches) :
    (s.modifyMemory f).view = s.view := by
  have hswitches : (s.modifyMemory f).machine.switches = s.machine.switches := h
  unfold view
  rw [hswitches]
  rfl

/-- The buttons of a game are switches. -/
theorem outcome_pressButton (s : Scheduler) (index : Nat) (pressed : Bool) :
    s.Outcome (Command.button index pressed).edit (s.pressButton index pressed) := by
  unfold pressButton
  split
  · next hindex =>
    obtain rfl | rfl | rfl : index = 0 ∨ index = 1 ∨ index = 2 := by omega
    all_goals
      refine .kept rfl ?_
      simp [view, modifyMemory, Machine.switches, Machine.clock, Machine.disk, Machine.memory, Memory.setButton,
        Memory.buttonSwitch?, Switches.isSet_set, Command.edit]
  · next hindex =>
    obtain ⟨k, rfl⟩ := Nat.exists_eq_add_of_le' (Nat.le_of_not_lt hindex)
    exact .kept rfl rfl

theorem outcome_handle (s : Scheduler) (c : Command) : s.Outcome c.edit (s.handle c).2 := by
  cases c with
  | boot | reset | run | stepInto | stepOut | runToAddress => exact outcome_setState _ _ _
  | pause => exact s.outcome_pause
  | stepOver => exact s.outcome_stepOver
  | setBreakpoint | clearBreakpoint | toggleBreakpoint | saveDisk | timeTravelBackward | timeTravelForward
  | timeTravelIndex => exact .published _ rfl
  | setDisassemblyAddress address =>
    show s.Outcome id (if _ then publish _ else s)
    split
    · exact .published _ rfl
    · exact .quiet rfl rfl
  | setSpeed mode => exact .kept rfl rfl
  | loadDisk drive name bytes => exact s.outcome_loadDisk drive name bytes
  | ejectDisk drive => exact s.outcome_ejectDisk drive
  | requestSnapshot | getSaveState => exact .quiet rfl rfl
  | keyPress key => exact .quiet rfl (view_modifyMemory rfl)
  | restoreState state => exact s.outcome_restoreState state
  | setRegister register value => exact s.outcome_setRegister register value
  | button index pressed => exact s.outcome_pressButton index pressed
  | setBinaryBlock address bytes => exact .quiet rfl (view_modifyMemory (Memory.switches_loadMain _ address bytes))

/-- What a command that publishes no panel changes. -/
theorem edit_eq_iff (s : Scheduler) (c : Command) : c.edit s.view = s.view ↔
    (∀ mode, c = .setSpeed mode → mode = s.speedMode) ∧
      (∀ pressed, c = .button 0 pressed → pressed = s.machine.switches.isSet .button0) ∧
      ∀ pressed, c = .button 1 pressed → pressed = s.machine.switches.isSet .button1 := by
  unfold Command.edit
  split
  · simp [view]
  · simp [view]
  · simp [view]
  · next c hspeed hfirst hsecond =>
    exact iff_of_true rfl ⟨fun mode h => (hspeed mode h).elim, fun pressed h => (hfirst pressed h).elim,
      fun pressed h => (hsecond pressed h).elim⟩

theorem current_handle_iff (h : s.Current) (c : Command) : (s.handle c).2.Current ↔
    (∀ mode, c = .setSpeed mode → mode = s.speedMode) ∧
      (∀ pressed, c = .button 0 pressed → pressed = s.machine.switches.isSet .button0) ∧
      ∀ pressed, c = .button 1 pressed → pressed = s.machine.switches.isSet .button1 := by
  rw [(s.outcome_handle c).current_iff h, s.edit_eq_iff c]

/-- The commands of a run leave a current panel current, if none of them changes what it does not publish. -/
theorem current_after (h : s.Current) {inputs : List Input}
    (hinputs : ∀ i ∈ inputs, ∃ time c, i = .command time c ∧ c.edit = id) : (s.after inputs).Current := by
  induction inputs generalizing s with
  | nil => exact h
  | cons i inputs ih =>
    obtain ⟨time, c, rfl, hplain⟩ := hinputs i List.mem_cons_self
    have hcurrent : (s.atTime time).Current := h
    refine ih ?_ fun j hj => hinputs j (List.mem_cons_of_mem _ hj)
    exact (((s.atTime time).outcome_handle c).current_iff hcurrent).mpr (by rw [hplain]; rfl)

end Scheduler

/-- **The panel stays current**, but for the speed mode and the buttons. If the last panel shows what a panel would show
now, then a command leaves it so, unless it chooses another speed mode, or it presses or releases the first or the second
button: then the panel is not current any more.  A run of commands that do neither leaves it current throughout. -/
theorem panel_stays_current {s : Scheduler} (h : s.Current) :
    (∀ c : Command, (s.handle c).2.Current ↔
      (∀ mode, c = .setSpeed mode → mode = s.speedMode) ∧
        (∀ pressed, c = .button 0 pressed → pressed = s.machine.switches.isSet .button0) ∧
        ∀ pressed, c = .button 1 pressed → pressed = s.machine.switches.isSet .button1) ∧
      ∀ inputs : List Input, (∀ i ∈ inputs, ∃ time c, i = .command time c ∧ c.edit = id) →
        (s.after inputs).Current :=
  ⟨Scheduler.current_handle_iff h, fun _ => Scheduler.current_after h⟩

/-- A breakpoint is set and published, and a key is pressed. -/
theorem panel_stays_current_withNops :
    let s := Scheduler.withNops.after [.command 0 (.setBreakpoint 0x0300)]
    s.Current ∧ (s.handle (.keyPress 0x41)).2.Current ∧
      (s.after [.command 0 (.toggleBreakpoint 0x0300), .command 0 .stepInto]).Current := by
  intro s
  have hcurrent : s.Current := Scheduler.current_setBreakpoint _ _ _
  obtain ⟨hcommand, hrun⟩ := panel_stays_current hcurrent
  refine ⟨hcurrent, (hcommand _).mpr ⟨nofun, nofun, nofun⟩, hrun _ ?_⟩
  intro i hi
  simp only [List.mem_cons, List.not_mem_nil, or_false] at hi
  rcases hi with rfl | rfl
  · exact ⟨0, _, rfl, rfl⟩
  · exact ⟨0, _, rfl, rfl⟩

/-- **A panel out of date.** The speed mode and the first button change, and the last panel still shows what was. -/
theorem panel_out_of_date :
    let s := Scheduler.withNops.after [.command 0 (.setBreakpoint 0x0300)]
    s.Current ∧ ¬(s.handle (.setSpeed .uncapped)).2.Current ∧ ¬(s.handle (.button 0 true)).2.Current := by
  intro s
  have hcurrent : s.Current := Scheduler.current_setBreakpoint _ _ _
  refine ⟨hcurrent, fun h => ?_, fun h => ?_⟩
  · have hmode := ((Scheduler.current_handle_iff hcurrent _).mp h).1 .uncapped rfl
    cases hmode
  · have hbutton := ((Scheduler.current_handle_iff hcurrent _).mp h).2.1 true rfl
    have hswitches : s.machine.switches = .reset :=
      (Scheduler.switches_setBreakpoint _ _ _).trans Scheduler.switches_withNops
    rw [hswitches, Switches.isSet_reset] at hbutton
    cases hbutton

end AppleII
