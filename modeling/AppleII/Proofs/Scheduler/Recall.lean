import AppleII.Proofs.History.Cursor
import AppleII.Proofs.Machine.Disks
import AppleII.Proofs.Scheduler.Trace

/-!
# What a scheduler can go back to

A command to travel moves the cursor of the history, and puts the machine into the state of the slot that it comes
to.  No other command touches the history, and a tick at most adds the state that it ends with (`history_handle`,
`history_tick`).  While no disk is put in whose tracks lie outside its container, every state in the history was
saved by a machine with intact drives (`Recallable.after`), and so it is the state of the machine again when the
cursor comes to it (`Recallable.saveState_after_travel`).
-/

namespace AppleII

open Disk (Image)

/-! ## Commands to travel -/

/-- A way to move the cursor of a history, when there is a present state: the state that it comes to, if it moves. -/
abbrev History.Move (α : Type) := α → History α → Option α × History α

/-- What a command to travel does with the history. -/
def Command.move? : Command → Option (History.Move SaveState)
  | .timeTravelBackward => some fun present h => h.stepBackward present
  | .timeTravelForward => some fun _ h => h.stepForward
  | .timeTravelIndex index => some fun _ h => h.jumpTo index
  | _ => none

theorem Scheduler.handle_of_move {c : Command} {move : History.Move SaveState} (hc : c.move? = some move)
    (s : Scheduler) : (s.handle c).2 = s.travel move := by
  cases c with
  | timeTravelBackward | timeTravelForward | timeTravelIndex =>
    cases hc
    rfl
  | _ => cases hc

theorem Command.moved_of_move? {c : Command} {move : History.Move SaveState} (hc : c.move? = some move)
    (present : SaveState) (h : History SaveState) : h.Moved present (move present h).1 (move present h).2 := by
  cases c with
  | timeTravelBackward =>
    cases hc
    exact h.moved_stepBackward present
  | timeTravelForward =>
    cases hc
    exact h.moved_stepForward present
  | timeTravelIndex index =>
    cases hc
    exact h.moved_jumpTo index present
  | _ => cases hc

/-- Whether a command may do something to the drives: it puts a disk in or takes one out, it lets the machine execute
an instruction, or it puts the machine into another state. -/
def Command.reachesDrives : Command → Bool
  | .stepInto | .stepOver | .stepOut | .loadDisk .. | .ejectDisk _ | .saveDisk _ | .restoreState _
  | .timeTravelBackward | .timeTravelForward | .timeTravelIndex _ => true
  | _ => false

/-- The disk that a command puts in is fit. -/
def Command.Fits (Fit : String → Array UInt8 → Prop) : Command → Prop
  | .loadDisk _ fileName bytes => Fit fileName bytes
  | _ => True

/-- The disk that an input puts in is fit. -/
def Input.Fits (Fit : String → Array UInt8 → Prop) : Input → Prop
  | .command _ c => c.Fits Fit
  | .tick .. => True

/-! ## Machines with intact drives -/

namespace Machine.Restorable

variable {m m' : Machine}

theorem of_drives (h : m.Restorable) (hdrives : m'.disk.drives = m.disk.drives) : m'.Restorable :=
  fun i => hdrives ▸ h i

theorem iff_board (m : Machine) : m.Restorable ↔ m.board.Intact := Iff.rfl

theorem boot (h : m.Restorable) : m.boot.Restorable :=
  (iff_board _).mpr (keeps_boot Board.invariant_intact ((iff_board m).mp h))

theorem reset (h : m.Restorable) : m.reset.Restorable :=
  (iff_board _).mpr (keeps_reset Board.invariant_intact ((iff_board m).mp h))

theorem processInstruction (h : m.Restorable) (ignoreBreakpoints : Bool) :
    (m.processInstruction ignoreBreakpoints).2.Restorable :=
  (iff_board _).mpr (keeps_processInstruction Board.invariant_intact ignoreBreakpoints ((iff_board m).mp h))

theorem runWhile (h : m.Restorable) (more : Nat → Nat → Bool) (fuel spent : Nat) :
    (m.runWhile more fuel spent).2.Restorable := by
  induction fuel generalizing m spent with
  | zero => exact h
  | succ fuel ih =>
    have hone := h.processInstruction false
    unfold Machine.runWhile
    split
    · generalize m.processInstruction false = r at hone
      obtain ⟨result, m'⟩ := r
      cases result with
      | halted => exact hone
      | cycles n => exact ih hone _
    · exact h

/-- Whether a save state is accepted or refused, the drives are intact afterwards. -/
theorem restore (h : m.Restorable) (state : SaveState) :
    ∃ m', m'.Restorable ∧
      ((Machine.restore state).run m = .ok () m' ∨ ∃ e, (Machine.restore state).run m = .error e m') := by
  cases hrestore : m.restoreState state with
  | ok m' => exact ⟨m', restorable_of_restoreState hrestore, .inl (run_restore_of_ok hrestore)⟩
  | error e => exact ⟨m, h, .inr ⟨e, run_restore_of_error hrestore⟩⟩

end Machine.Restorable

/-- A machine with intact drives has saved the state. -/
def SaveState.Sound (state : SaveState) : Prop := ∃ m : Machine, m.Restorable ∧ m.saveState = state

theorem SaveState.Sound.restoreState {state : SaveState} (h : state.Sound) (m : Machine) :
    ∃ m', (Machine.restore state).run m = .ok () m' ∧ m'.saveState = state := by
  obtain ⟨m₁, hm₁, rfl⟩ := h
  obtain ⟨m', hm'⟩ := Machine.exists_restoreState hm₁ m
  exact ⟨m', Machine.run_restore_of_ok hm', Machine.saveState_of_restoreState m₁.mem_saveState_switches_iff hm'⟩

namespace Scheduler

variable {s s' : Scheduler}

/-! ## The history and the drives -/

/-- The history, and the drives, on which it depends whether a state can be restored. -/
def archive (s : Scheduler) : History SaveState × Disk.Drives := (s.history, s.machine.disk.drives)

@[simp] theorem archive_publish (s : Scheduler) : s.publish.archive = s.archive := rfl

@[simp] theorem archive_applyButtons (s : Scheduler) : s.applyButtons.archive = s.archive := rfl

theorem drives_resume (c : Disk.Controller) : c.resume.drives = c.drives := by
  unfold Disk.Controller.resume
  split <;> rfl

@[simp] theorem archive_setState (s : Scheduler) (state : RunState) : (s.setState state).archive = s.archive := by
  cases state with
  | running =>
    refine congrArg (Prod.mk s.history) ((drives_resume _).trans ?_)
    by_cases hpaused : s.state = .paused
    · simp [hpaused, Machine.resume, Machine.disk]
    · simp [hpaused, Machine.disk]
  | _ => rfl

@[simp] theorem archive_countFrame (s : Scheduler) (now : Nat) : (s.countFrame now).archive = s.archive := rfl

@[simp] theorem archive_pollInput (s : Scheduler) : s.pollInput.archive = s.archive := by
  unfold pollInput
  split <;> rfl

theorem archive_start (s : Scheduler) : s.start.archive = s.archive := s.archive_setState _

theorem archive_handle {c : Command} (hc : c.reachesDrives = false) (s : Scheduler) :
    (s.handle c).2.archive = s.archive := by
  cases c with
  | boot => exact s.archive_setState .needBoot
  | reset => exact s.archive_setState .needReset
  | run => exact s.archive_start
  | runToAddress address => exact archive_start _
  | pause =>
    show (if s.state = .idle then s else s.setState .paused).archive = _
    rw [apply_ite archive, archive_setState, ite_self]
  | setDisassemblyAddress address =>
    show archive (if _ then _ else _) = _
    split <;> rfl
  | setRegister register value =>
    show (s.setRegister register value).archive = _
    unfold setRegister
    split <;> rfl
  | button index pressed =>
    show (s.pressButton index pressed).archive = _
    unfold pressButton
    split <;> rfl
  | setBreakpoint | clearBreakpoint | toggleBreakpoint | setSpeed | requestSnapshot | getSaveState | keyPress
  | setBinaryBlock => rfl
  | _ => cases hc

/-! ## The history -/

/-- What is recorded, and what decides about the next snapshot. -/
def recording (s : Scheduler) : History SaveState × SnapshotTimer × Bool :=
  (s.history, s.snapshots, s.snapshotRequested)

theorem recording_withMachine (s : Scheduler) (machine : Machine) : { s with machine }.recording = s.recording := rfl

theorem recording_setState (s : Scheduler) (state : RunState) : (s.setState state).recording = s.recording := rfl

theorem recording_applyButtons (s : Scheduler) : s.applyButtons.recording = s.recording := rfl

theorem recording_boot (s : Scheduler) : s.boot.recording = s.recording :=
  (recording_applyButtons _).trans (s.recording_withMachine _)

theorem recording_reset (s : Scheduler) : s.reset.recording = s.recording :=
  (recording_applyButtons _).trans (s.recording_withMachine _)

theorem recording_bootIfIdle (s : Scheduler) : s.bootIfIdle.recording = s.recording := by
  unfold bootIfIdle
  split
  · exact s.recording_boot
  · rfl

theorem recording_stepInto (s : Scheduler) : s.stepInto.recording = s.recording := by
  unfold stepInto
  rw [recording_setState]
  exact s.recording_bootIfIdle

theorem recording_stepOut (s : Scheduler) : s.stepOut.recording = s.recording := by
  unfold stepOut
  rw [recording_setState]
  exact s.recording_bootIfIdle

theorem recording_stepOver (s : Scheduler) : s.stepOver.recording = s.recording := by
  unfold stepOver
  dsimp only
  split
  · rw [recording_stepOut]
    exact s.recording_bootIfIdle
  · rw [recording_stepInto]
    exact s.recording_bootIfIdle

theorem history_handle {c : Command} (hc : c.move? = none) (s : Scheduler) : (s.handle c).2.history = s.history := by
  cases hdrives : c.reachesDrives with
  | false => exact congrArg Prod.fst (archive_handle hdrives s)
  | true =>
    cases c with
    | stepInto => exact congrArg Prod.fst s.recording_stepInto
    | stepOut => exact congrArg Prod.fst s.recording_stepOut
    | stepOver => exact congrArg Prod.fst s.recording_stepOver
    | loadDisk drive name bytes =>
      show (s.loadDisk drive name bytes).2.history = _
      unfold loadDisk
      split <;> rfl
    | ejectDisk drive =>
      show (s.ejectDisk drive).2.history = _
      unfold ejectDisk
      split <;> rfl
    | saveDisk drive => rfl
    | restoreState state =>
      show (s.restoreState state).2.history = _
      unfold restoreState
      split <;> rfl
    | timeTravelBackward | timeTravelForward | timeTravelIndex => cases hc
    | _ => cases hdrives

theorem archive_cycled (s : Scheduler) :
    s.cycled.archive = (s.history, (s.machine.runFor frameCycles).2.disk.drives) := by
  unfold cycled
  generalize s.machine.runFor frameCycles = r
  dsimp only
  rw [apply_ite archive, archive_setState, ite_self]
  rfl

theorem takeSnapshot_cases (s : Scheduler) (complete : Bool) :
    (s.takeSnapshot complete).machine = s.machine ∧
      ((s.takeSnapshot complete).history = s.history ∨
        (s.takeSnapshot complete).history = s.history.push s.machine.saveState) := by
  unfold takeSnapshot
  dsimp only
  generalize (if complete then s.snapshots.tick else (false, s.snapshots)) = p
  split
  · exact ⟨rfl, .inr rfl⟩
  · exact ⟨rfl, .inl rfl⟩

/-- At the end of a frame at most the state that the machine is left with is recorded. -/
theorem endFrame_cases (s : Scheduler) (now : Nat) (complete : Bool) :
    (s.endFrame now complete).machine.disk.drives = s.machine.disk.drives ∧
      ((s.endFrame now complete).history = s.history ∨
        (s.endFrame now complete).history = s.history.push (s.endFrame now complete).machine.saveState) := by
  have hpolled (s : Scheduler) : (if s.frames % 2 = 1 then s.pollInput.publish else s).archive = s.archive := by
    rw [apply_ite archive, archive_publish, archive_pollInput, ite_self]
  have hpolled := (hpolled (s.countFrame now)).trans (s.archive_countFrame now)
  unfold endFrame
  dsimp only
  generalize (if (s.countFrame now).frames % 2 = 1 then _ else _) = s' at hpolled ⊢
  obtain ⟨hhistory, hdrives⟩ := Prod.mk.inj hpolled
  obtain ⟨hmachine, hcases⟩ := s'.takeSnapshot_cases complete
  rw [hmachine, ← hhistory]
  exact ⟨hdrives, hcases⟩

theorem history_runFrame (s : Scheduler) (now : Nat) :
    (s.runFrame now).history = s.history ∨
      (s.runFrame now).history = s.history.push (s.runFrame now).machine.saveState := by
  have hhistory : s.cycled.history = s.history := congrArg Prod.fst s.archive_cycled
  rw [runFrame_eq, ← hhistory]
  exact (s.cycled.endFrame_cases now _).2

theorem recording_enter {f : Scheduler} {now : Nat} (h : s.enter? now = some f) : f.recording = s.recording := by
  rcases enter?_eq h with ⟨-, rfl⟩ | ⟨-, rfl⟩ | ⟨-, rfl⟩
  · rw [recording_setState, recording_boot]
    rfl
  · rw [recording_setState, recording_reset]
    rfl
  · rfl

theorem history_tick (s : Scheduler) (now : Nat) :
    (s.tick now).2.history = s.history ∨
      (s.tick now).2.history = s.history.push (s.tick now).2.machine.saveState := by
  cases h : s.enter? now with
  | none =>
    left
    rcases tick_of_none h with heq | heq
    · rw [heq]
    · rw [heq]
  | some f =>
    have hhistory : f.history = s.history := congrArg Prod.fst (recording_enter h)
    rw [tick_of_enter h, ← hhistory]
    exact f.history_runFrame now

/-! ## The drives -/

theorem restorable_of_archive (h : s.machine.Restorable) (harchive : s'.archive = s.archive) :
    s'.machine.Restorable := h.of_drives (congrArg Prod.snd harchive)

theorem restorable_boot (h : s.machine.Restorable) : s.boot.machine.Restorable := by
  have hboot : ({ s with machine := s.machine.boot } : Scheduler).machine.Restorable := h.boot
  exact restorable_of_archive hboot (archive_applyButtons _)

theorem restorable_reset (h : s.machine.Restorable) : s.reset.machine.Restorable := by
  have hreset : ({ s with machine := s.machine.reset } : Scheduler).machine.Restorable := h.reset
  exact restorable_of_archive hreset (archive_applyButtons _)

theorem restorable_setState (h : s.machine.Restorable) (state : RunState) :
    (s.setState state).machine.Restorable := restorable_of_archive h (archive_setState s state)

theorem restorable_bootIfIdle (h : s.machine.Restorable) : s.bootIfIdle.machine.Restorable := by
  unfold bootIfIdle
  split
  · exact restorable_boot h
  · exact h

theorem restorable_stepInto (h : s.machine.Restorable) : s.stepInto.machine.Restorable := by
  have hone : s.bootIfIdle.executeOne.machine.Restorable := (restorable_bootIfIdle h).processInstruction true
  unfold stepInto
  exact restorable_setState hone .paused

theorem restorable_stepOut (h : s.machine.Restorable) : s.stepOut.machine.Restorable := by
  have hbooted := restorable_bootIfIdle h
  unfold stepOut
  generalize s.bootIfIdle = s' at hbooted
  have harmed : ({ s' with machine.debugger := s'.machine.debugger.armStepOut s'.machine.cpu.regs.sp } :
    Scheduler).machine.Restorable := hbooted
  exact restorable_setState harmed .running

theorem restorable_stepOver (h : s.machine.Restorable) : s.stepOver.machine.Restorable := by
  obtain ⟨s', hmachine, -, hcases⟩ := s.stepOver_cases
  have hlooked : s'.machine.Restorable := by
    rw [hmachine]
    exact Board.invariant_intact.bus.read ((Machine.Restorable.iff_board _).mp (restorable_bootIfIdle h)) _
  rcases hcases with heq | heq
  · rw [heq]
    exact restorable_stepInto hlooked
  · rw [heq]
    have hone : s'.executeOne.machine.Restorable := hlooked.processInstruction true
    exact restorable_stepOut hone

theorem restorable_loadDisk (h : s.machine.Restorable) {fileName : String} {bytes : Array UInt8}
    (hwhole : Image.Whole fileName bytes) (drive : Nat) :
    (s.loadDisk drive fileName bytes).2.machine.Restorable := by
  unfold loadDisk
  rw [Disk.Controller.insertDisk_eq, run_transaction]
  cases hinsert : s.machine.disk.insert drive fileName bytes with
  | error e => exact h
  | ok r =>
    have hinserted : (s.setDisk r.2).machine.Restorable :=
      Board.invariant_intact.insert (b := s.machine.board) hwhole hinsert ((Machine.Restorable.iff_board _).mp h)
    exact restorable_of_archive hinserted (archive_publish _)

theorem restorable_ejectDisk (h : s.machine.Restorable) (drive : Nat) :
    (s.ejectDisk drive).2.machine.Restorable := by
  unfold ejectDisk
  rw [Disk.Controller.ejectDisk_eq, run_transaction]
  cases heject : s.machine.disk.eject drive with
  | error e => exact h
  | ok disk =>
    have hejected : (s.setDisk disk).machine.Restorable :=
      Board.invariant_intact.eject (b := s.machine.board) heject ((Machine.Restorable.iff_board _).mp h)
    exact restorable_of_archive hejected (archive_publish _)

theorem restorable_saveDisk (h : s.machine.Restorable) (drive : Nat) :
    (s.saveDisk drive).2.machine.Restorable := by
  have hsaved : (s.setDisk (s.machine.disk.save drive).2).machine.Restorable :=
    Board.invariant_intact.save (b := s.machine.board) drive ((Machine.Restorable.iff_board _).mp h)
  exact restorable_of_archive hsaved (archive_publish _)

theorem restorable_restoreState (h : s.machine.Restorable) (state : SaveState) :
    (s.restoreState state).2.machine.Restorable := by
  unfold restoreState
  obtain ⟨m', hm', hrun | ⟨e, hrun⟩⟩ := h.restore state
  · rw [hrun]
    exact hm'
  · rw [hrun]
    exact hm'

theorem restorable_adopt (h : s.machine.Restorable) (state : Option SaveState) :
    (s.adopt state).machine.Restorable := by
  unfold adopt
  cases state with
  | none => exact h
  | some state =>
    obtain ⟨m', hm', hrun | ⟨e, hrun⟩⟩ := h.restore state
    · simp only [hrun]
      exact hm'
    · simp only [hrun]
      exact hm'

theorem travel_eq (move : History.Move SaveState) (s : Scheduler) : s.travel move =
    (adopt { s.setState .paused with history := (move s.machine.saveState s.history).2 }
      (move s.machine.saveState s.history).1).publish := rfl

theorem restorable_travel (h : s.machine.Restorable) (move : History.Move SaveState) :
    (s.travel move).machine.Restorable := by
  have hmoved : ({ s.setState .paused with history := (move s.machine.saveState s.history).2 } :
    Scheduler).machine.Restorable := restorable_setState h .paused
  rw [travel_eq]
  exact restorable_of_archive (restorable_adopt hmoved _) (archive_publish _)

theorem restorable_handle {c : Command} (hfits : c.Fits Image.Whole) (h : s.machine.Restorable) :
    (s.handle c).2.machine.Restorable := by
  cases hdrives : c.reachesDrives with
  | false => exact restorable_of_archive h (archive_handle hdrives s)
  | true =>
    cases c with
    | stepInto => exact restorable_stepInto h
    | stepOut => exact restorable_stepOut h
    | stepOver => exact restorable_stepOver h
    | loadDisk drive fileName bytes => exact restorable_loadDisk h hfits drive
    | ejectDisk drive => exact restorable_ejectDisk h drive
    | saveDisk drive => exact restorable_saveDisk h drive
    | restoreState state => exact restorable_restoreState h state
    | timeTravelBackward | timeTravelForward | timeTravelIndex =>
      rw [handle_of_move rfl]
      exact restorable_travel h _
    | _ => cases hdrives

theorem restorable_enter {f : Scheduler} {now : Nat} (h : s.machine.Restorable) (henter : s.enter? now = some f) :
    f.machine.Restorable := by
  have hnow : ({ s with previousTime := now } : Scheduler).machine.Restorable := h
  rcases enter?_eq henter with ⟨-, rfl⟩ | ⟨-, rfl⟩ | ⟨-, rfl⟩
  · exact restorable_setState (restorable_boot hnow) .running
  · exact restorable_setState (restorable_reset hnow) .running
  · exact hnow

theorem restorable_runFrame (h : s.machine.Restorable) (now : Nat) : (s.runFrame now).machine.Restorable := by
  have hcycles : (s.machine.runFor frameCycles).2.Restorable := h.runWhile _ _ _
  have hcycled : s.cycled.machine.Restorable := hcycles.of_drives (congrArg Prod.snd s.archive_cycled)
  rw [runFrame_eq]
  exact hcycled.of_drives (s.cycled.endFrame_cases now _).1

theorem restorable_tick (h : s.machine.Restorable) (now : Nat) : (s.tick now).2.machine.Restorable := by
  cases henter : s.enter? now with
  | none =>
    rcases tick_of_none henter with heq | heq
    · rwa [heq]
    · rwa [heq]
  | some f =>
    rw [tick_of_enter henter]
    exact restorable_runFrame (restorable_enter h henter) now

theorem restorable_react {i : Input} (hfits : i.Fits Image.Whole) (h : s.machine.Restorable) :
    (react i s).2.machine.Restorable := by
  cases i with
  | command time c => exact restorable_handle (s := s.atTime time) hfits h
  | tick time now => exact restorable_tick (s := s.atTime time) h now

/-! ## Travelling -/

theorem history_adopt (s : Scheduler) (state : Option SaveState) : (s.adopt state).history = s.history := by
  unfold adopt
  split
  · split <;> rfl
  · rfl

/-- The machine has the state that it was put into, if it was saved by a machine with intact drives. -/
theorem saveState_adopt {state : Option SaveState} (hsound : ∀ a ∈ state, a.Sound) (s : Scheduler) :
    (s.adopt state).machine.saveState = state.getD s.machine.saveState := by
  unfold adopt
  cases state with
  | none => rfl
  | some state =>
    obtain ⟨m, hm, hstate⟩ := (hsound state rfl).restoreState s.machine
    simp only [hm]
    exact hstate

section Travel

variable {c : Command} {move : History.Move SaveState}

theorem history_travel (move : History.Move SaveState) (s : Scheduler) :
    (s.travel move).history = (move s.machine.saveState s.history).2 := by
  rw [travel_eq]
  exact history_adopt _ _

theorem saveState_travel (hsound : ∀ a ∈ (move s.machine.saveState s.history).1, a.Sound) :
    (s.travel move).machine.saveState = (move s.machine.saveState s.history).1.getD s.machine.saveState := by
  rw [travel_eq]
  exact saveState_adopt hsound _

theorem after_travel (hc : c.move? = some move) (s : Scheduler) (time : Nat) :
    s.after [.command time c] = (s.atTime time).travel move := handle_of_move hc (s.atTime time)

theorem history_after_travel (hc : c.move? = some move) (s : Scheduler) (time : Nat) :
    (s.after [.command time c]).history = (move s.machine.saveState s.history).2 := by
  rw [after_travel hc, history_travel]
  rfl

end Travel

/-! ## Runs -/

/-- The drives are intact, and were when the states of the history were saved. -/
structure Recallable (s : Scheduler) : Prop where
  machine : s.machine.Restorable
  sound : ∀ {i : Fin History.capacity} {state : SaveState}, s.history.slot i = some state → state.Sound

namespace Recallable

theorem of_empty (hmachine : s.machine.Restorable) (hhistory : s.history = .empty) : s.Recallable where
  machine := hmachine
  sound hstate := by
    rw [hhistory, History.slot_empty] at hstate
    cases hstate

theorem saved (h : s.Recallable) : s.machine.saveState.Sound := ⟨s.machine, h.machine, rfl⟩

/-- Whatever slot a command to travel comes to, the machine takes its state. -/
theorem saveState_after_travel (h : s.Recallable) {c : Command} {move : History.Move SaveState}
    (hc : c.move? = some move) (time : Nat) : (s.after [.command time c]).machine.saveState =
      (move s.machine.saveState s.history).1.getD s.machine.saveState := by
  have hmoved := Command.moved_of_move? hc s.machine.saveState s.history
  have hsound : ∀ a ∈ (move s.machine.saveState s.history).1, a.Sound := by
    intro a ha
    rcases hmoved.slots (hmoved.arrives ha) with hslot | rfl
    · exact h.sound hslot
    · exact h.saved
  rw [after_travel hc]
  exact saveState_travel (s := s.atTime time) hsound

theorem react (h : s.Recallable) {i : Input} (hfits : i.Fits Image.Whole) : (react i s).2.Recallable := by
  have hmachine := restorable_react hfits h.machine
  refine ⟨hmachine, ?_⟩
  have hkept (hhistory : (Scheduler.react i s).2.history = s.history) {j : Fin History.capacity} {state : SaveState}
      (hstate : (Scheduler.react i s).2.history.slot j = some state) : state.Sound := by
    rw [hhistory] at hstate
    exact h.sound hstate
  intro j state hstate
  cases i with
  | tick time now =>
    rcases history_tick (s.atTime time) now with hhistory | hpushed
    · exact hkept hhistory hstate
    · have hstate : ((s.atTime time).tick now).2.history.slot j = some state := hstate
      rw [hpushed] at hstate
      rcases History.slot_of_push hstate with hslot | rfl
      · exact h.sound hslot
      · exact ⟨_, hmachine, rfl⟩
  | command time c =>
    cases hc : c.move? with
    | none => exact hkept (history_handle hc (s.atTime time)) hstate
    | some move =>
      have hstate : (s.after [.command time c]).history.slot j = some state := hstate
      rw [history_after_travel hc] at hstate
      rcases (Command.moved_of_move? hc _ _).slots hstate with hslot | rfl
      · exact h.sound hslot
      · exact h.saved

theorem after (h : s.Recallable) {inputs : List Input} (hfits : ∀ i ∈ inputs, i.Fits Image.Whole) :
    (s.after inputs).Recallable := by
  induction inputs generalizing s with
  | nil => exact h
  | cons i inputs ih =>
    obtain ⟨hfirst, hrest⟩ := List.forall_mem_cons.mp hfits
    rw [after_cons]
    exact ih (h.react hfirst) hrest

end Recallable

end Scheduler

end AppleII
