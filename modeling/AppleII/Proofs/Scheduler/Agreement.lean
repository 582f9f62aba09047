import AppleII.Proofs.Machine.Future
import AppleII.Proofs.Scheduler.Recall

/-!
# Schedulers that differ in what they do not use

Two schedulers are twins when they differ in their machines only, which agree.  They stay twins until they publish
(`Stage`): what a command or a part of a tick does to both of them is finished, or ended, by one panel of each.
-/

namespace AppleII

open Disk (Chronicle)

namespace Scheduler

/-- What a scheduler has of its panels: the drive events for the next one, the last one, and their number. -/
structure Display where
  pending : List Disk.DriveEvent
  latest : Panel
  published : Nat

def display (s : Scheduler) : Display := ⟨s.pending, s.latest, s.published⟩

/-- Two schedulers with a given display that differ in their machines at most, which agree. -/
def Twins (R : Chronicle → Chronicle → Prop) (d : Display) (s s' : Scheduler) : Prop :=
  s.display = d ∧ ∃ m, s' = { s with machine := m } ∧ s.machine.Agree R m

namespace Twins

variable {R : Chronicle → Chronicle → Prop} {d : Display} {s s' : Scheduler}

theorem withMachine (h : Twins R d s s') {m m' : Machine} (hm : m.Agree R m') :
    Twins R d { s with machine := m } { s' with machine := m' } := by
  obtain ⟨hd, _, rfl, -⟩ := h
  exact ⟨hd, m', rfl, hm⟩

theorem machine (h : Twins R d s s') : s.machine.Agree R s'.machine := by
  obtain ⟨-, _, rfl, hm⟩ := h
  exact hm

theorem setDisk (h : Twins R d s s') {c c' : Disk.Controller} (hc : c.Agree R c') :
    Twins R d (s.setDisk c) (s'.setDisk c') := h.withMachine (h.machine.withDisk hc)

theorem modifyMemory (h : Twins R d s s') {f : Memory → Memory}
    (hf : ∀ {x x' : Memory}, x.Agree x' → (f x).Agree (f x')) :
    Twins R d (s.modifyMemory f) (s'.modifyMemory f) := h.withMachine (h.machine.withMemory hf)

theorem modifyDebugger (h : Twins R d s s') (f : Debugger → Debugger) :
    Twins R d (s.modifyDebugger f) (s'.modifyDebugger f) := h.withMachine (h.machine.withDebugger f)

theorem applyButtons (h : Twins R d s s') : Twins R d s.applyButtons s'.applyButtons := by
  obtain ⟨hd, m, rfl, hm⟩ := h
  refine modifyMemory ⟨hd, m, rfl, hm⟩ fun hx => ?_
  exact ((hx.setButton 0 _).setButton 1 _).setButton 2 _

theorem pressButton (h : Twins R d s s') (index : Nat) (pressed : Bool) :
    Twins R d (s.pressButton index pressed) (s'.pressButton index pressed) := by
  obtain ⟨hd, m, rfl, hm⟩ := h
  unfold Scheduler.pressButton
  split
  · refine modifyMemory ?_ fun hx => hx.setButton index pressed
    exact ⟨hd, m, rfl, hm⟩
  · exact ⟨hd, m, rfl, hm⟩

theorem pollInput (h : Twins R d s s') : Twins R d s.pollInput s'.pollInput := by
  obtain ⟨hd, m, rfl, hm⟩ := h
  unfold Scheduler.pollInput
  dsimp only
  split
  · refine applyButtons ?_
    exact ⟨hd, m, rfl, hm⟩
  · exact ⟨hd, m, rfl, hm⟩
  · exact ⟨hd, m, rfl, hm⟩

theorem countFrame (h : Twins R d s s') (now : Nat) : Twins R d (s.countFrame now) (s'.countFrame now) := by
  obtain ⟨hd, m, rfl, hm⟩ := h
  exact ⟨hd, m, rfl, hm⟩

theorem takeSnapshot (h : Twins R d s s') (complete : Bool) :
    Twins R d (s.takeSnapshot complete) (s'.takeSnapshot complete) := by
  obtain ⟨hd, m, rfl, hm⟩ := h
  unfold Scheduler.takeSnapshot
  dsimp only
  rw [← hm.saveState]
  generalize (if complete then s.snapshots.tick else (false, s.snapshots)) = p
  obtain ⟨due, snapshots⟩ := p
  dsimp only
  split
  · exact ⟨hd, m, rfl, hm⟩
  · exact ⟨hd, m, rfl, hm⟩

/-- A save state is refused by both, or put into both. -/
theorem adopt (h : Twins R d s s') (state : Option SaveState) : Twins R d (s.adopt state) (s'.adopt state) := by
  unfold Scheduler.adopt
  cases state with
  | none => exact h
  | some state =>
    rcases h.machine.restoreState state with ⟨e, he, he'⟩ | ⟨m, m', hm, hm', hagree⟩
    · simp only [Machine.run_restore_of_error he, Machine.run_restore_of_error he']
      exact h.withMachine h.machine
    · simp only [Machine.run_restore_of_ok hm, Machine.run_restore_of_ok hm']
      exact h.withMachine hagree

variable [Chronicle.Kept R]

theorem boot (h : Twins R d s s') : Twins R d s.boot s'.boot := (h.withMachine h.machine.boot).applyButtons

theorem reset (h : Twins R d s s') : Twins R d s.reset s'.reset := (h.withMachine h.machine.reset).applyButtons

theorem bootIfIdle (h : Twins R d s s') : Twins R d s.bootIfIdle s'.bootIfIdle := by
  have hboot := h.boot
  obtain ⟨hd, m, rfl, hm⟩ := h
  unfold Scheduler.bootIfIdle
  split
  · obtain ⟨hd, m, heq, hm⟩ := hboot
    rw [heq]
    exact ⟨hd, m, rfl, hm⟩
  · exact ⟨hd, m, rfl, hm⟩

theorem executeOne (h : Twins R d s s') : Twins R d s.executeOne s'.executeOne :=
  h.withMachine (h.machine.processInstruction true).2

end Twins

/-! ## Panels -/

/-- A run state entered, but not shown yet. -/
def entering (s : Scheduler) (state : RunState) : Scheduler :=
  let m := s.machine
  let m := if state = .running ∧ s.state = .paused then m.resume else m
  let m := if state = .running then { m with board.disk := m.board.disk.resume } else m
  { s with machine := m, state }.restartMeasurement

theorem setState_eq (s : Scheduler) (state : RunState) : s.setState state = (s.entering state).publish := rfl

/-- A frame counted; the panel of every other frame. -/
def polled (s : Scheduler) (now : Nat) : Scheduler :=
  let s := s.countFrame now
  if s.frames % 2 = 1 then s.pollInput.publish else s

theorem endFrame_eq (s : Scheduler) (now : Nat) (complete : Bool) :
    s.endFrame now complete = (s.polled now).takeSnapshot complete := rfl

/-- What twins come to: they are twins still, or twins that have just published. -/
inductive Stage (R : Chronicle → Chronicle → Prop) (d : Display) (t t' : Scheduler) : Prop where
  | quiet (twins : Twins R d t t')
  | published {u u' : Scheduler} (twins : Twins R d u u') (eq : t = u.publish) (eq' : t' = u'.publish)

section Stages

variable {R : Chronicle → Chronicle → Prop} {d : Display} {s s' : Scheduler}

theorem Twins.publish (h : Twins R d s s') : Stage R d s.publish s'.publish := .published h rfl rfl

/-- Once both are paused, the rest of a travel in time is finished by one panel. -/
theorem Twins.travel {Q : Chronicle → Chronicle → Prop} {e : Display} (h : Twins Q e s s')
    (hpaused : Twins R d (s.setState .paused) (s'.setState .paused)) (move : History.Move SaveState) :
    Stage R d (s.travel move) (s'.travel move) := by
  have hsave := h.machine.saveState
  have hhistory : s'.history = s.history := by
    obtain ⟨-, m, rfl, -⟩ := h
    rfl
  rw [travel_eq, travel_eq, hhistory, ← hsave]
  refine publish (adopt ?_ _)
  obtain ⟨hd, m, heq, hm⟩ := hpaused
  rw [heq]
  exact ⟨hd, m, rfl, hm⟩

theorem Twins.setRegister (h : Twins R d s s') (register : RegisterName) (value : UInt16) :
    Stage R d (s.setRegister register value) (s'.setRegister register value) := by
  have hset := h.withMachine <| h.machine.withRegs fun r =>
    let r := assign r register value
    { r with status := r.status.set .unused true }
  obtain ⟨hd, m, rfl, hm⟩ := h
  unfold Scheduler.setRegister
  split
  · exact hset.publish
  · exact .quiet ⟨hd, m, rfl, hm⟩

theorem Twins.saveDisk (h : Twins R d s s') (drive : Nat) :
    Stage R d (s.saveDisk drive).2 (s'.saveDisk drive).2 :=
  (h.setDisk (h.machine.board.disk.save drive).2).publish

theorem Twins.restoreState (h : Twins R d s s') (state : SaveState) :
    Stage R d (s.restoreState state).2 (s'.restoreState state).2 := by
  unfold Scheduler.restoreState
  rcases h.machine.restoreState state with ⟨e, he, he'⟩ | ⟨m, m', hm, hm', hagree⟩
  · rw [Machine.run_restore_of_error he, Machine.run_restore_of_error he']
    exact .quiet (h.withMachine h.machine)
  · rw [Machine.run_restore_of_ok hm, Machine.run_restore_of_ok hm']
    exact (h.withMachine hagree).publish

theorem Twins.polled (h : Twins R d s s') (now : Nat) : Stage R d (s.polled now) (s'.polled now) := by
  have hcounted := h.countFrame now
  have hframes : (s'.countFrame now).frames = (s.countFrame now).frames := by
    obtain ⟨-, m, heq, -⟩ := hcounted
    rw [heq]
  unfold Scheduler.polled
  dsimp only
  rw [hframes]
  split
  · exact hcounted.pollInput.publish
  · exact .quiet hcounted

variable [Chronicle.Kept R]

theorem Twins.setState (h : Twins R d s s') (state : RunState) :
    Stage R d (s.setState state) (s'.setState state) := by
  obtain ⟨hd, m, rfl, hm⟩ := h
  have hresumed := Machine.Agree.ite (state = .running ∧ s.state = .paused) hm.resume hm
  have hspun := Machine.Agree.ite (state = .running) (hresumed.withDisk hresumed.board.disk.resume) hresumed
  rw [setState_eq, setState_eq]
  refine publish ?_
  exact ⟨hd, _, rfl, hspun⟩

theorem Twins.start (h : Twins R d s s') : Stage R d s.start s'.start := by
  have hstate : s'.state = s.state := by
    obtain ⟨-, _, rfl, -⟩ := h
    rfl
  unfold Scheduler.start
  rw [hstate]
  exact h.setState _

theorem Twins.stepInto (h : Twins R d s s') : Stage R d s.stepInto s'.stepInto :=
  h.bootIfIdle.executeOne.setState .paused

theorem Twins.stepOut (h : Twins R d s s') : Stage R d s.stepOut s'.stepOut := by
  have hboot := h.bootIfIdle
  unfold Scheduler.stepOut
  dsimp only
  rw [← hboot.machine.regs]
  exact (hboot.modifyDebugger (·.armStepOut s.bootIfIdle.machine.cpu.regs.sp)).setState .running

theorem Twins.stepOver (h : Twins R d s s') : Stage R d s.stepOver s'.stepOver := by
  have hboot := h.bootIfIdle
  obtain ⟨hopcode, hboard⟩ := hboot.machine.board.read s.bootIfIdle.machine.cpu.regs.pc
  have hlooked := hboot.withMachine (hboot.machine.withBoard hboard)
  unfold Scheduler.stepOver
  dsimp only
  rw [← hboot.machine.regs, ← hopcode]
  split
  · exact hlooked.executeOne.stepOut
  · exact hlooked.stepInto

theorem Twins.loadDisk (h : Twins R d s s') (drive : Nat) (name : String) (bytes : Array UInt8) :
    Stage R d (s.loadDisk drive name bytes).2 (s'.loadDisk drive name bytes).2 := by
  unfold Scheduler.loadDisk
  rw [Disk.Controller.insertDisk_eq, run_transaction, run_transaction]
  rcases h.machine.board.disk.insert drive name bytes with ⟨e, he, he'⟩ | ⟨w, c, c', hc, hc', hagree⟩
  · rw [show s.machine.disk.insert drive name bytes = _ from he,
      show s'.machine.disk.insert drive name bytes = _ from he']
    exact .quiet (h.setDisk h.machine.board.disk)
  · rw [show s.machine.disk.insert drive name bytes = _ from hc,
      show s'.machine.disk.insert drive name bytes = _ from hc']
    exact (h.setDisk hagree).publish

theorem Twins.ejectDisk (h : Twins R d s s') (drive : Nat) :
    Stage R d (s.ejectDisk drive).2 (s'.ejectDisk drive).2 := by
  unfold Scheduler.ejectDisk
  rw [Disk.Controller.ejectDisk_eq, run_transaction, run_transaction]
  rcases h.machine.board.disk.eject drive with ⟨e, he, he'⟩ | ⟨c, c', hc, hc', hagree⟩
  · rw [show s.machine.disk.eject drive = _ from he, show s'.machine.disk.eject drive = _ from he']
    exact .quiet (h.setDisk h.machine.board.disk)
  · rw [show s.machine.disk.eject drive = _ from hc, show s'.machine.disk.eject drive = _ from hc']
    exact (h.setDisk hagree).publish

/-- **A command** that does not travel in time is finished by one panel, or by none. -/
theorem Twins.handle (h : Twins R d s s') {c : Command} (hc : c.move? = none) :
    Stage R d (s.handle c).2 (s'.handle c).2 := by
  cases c with
  | boot => exact h.setState .needBoot
  | reset => exact h.setState .needReset
  | run => exact h.start
  | pause =>
    have hpause := h.setState .paused
    obtain ⟨hd, m, rfl, hm⟩ := h
    unfold Scheduler.handle
    dsimp only
    split
    · exact .quiet ⟨hd, m, rfl, hm⟩
    · exact hpause
  | stepInto => exact h.stepInto
  | stepOver => exact h.stepOver
  | stepOut => exact h.stepOut
  | runToAddress address => exact (h.modifyDebugger _).start
  | setBreakpoint address => exact (h.modifyDebugger _).publish
  | clearBreakpoint address => exact (h.modifyDebugger _).publish
  | toggleBreakpoint address => exact (h.modifyDebugger _).publish
  | setDisassemblyAddress address =>
    obtain ⟨hd, m, rfl, hm⟩ := h
    unfold Scheduler.handle
    dsimp only
    split
    · refine publish ?_
      exact ⟨hd, m, rfl, hm⟩
    · exact .quiet ⟨hd, m, rfl, hm⟩
  | setSpeed mode =>
    obtain ⟨hd, m, rfl, hm⟩ := h
    exact .quiet ⟨hd, m, rfl, hm⟩
  | loadDisk drive name bytes => exact h.loadDisk drive name bytes
  | ejectDisk drive => exact h.ejectDisk drive
  | saveDisk drive => exact h.saveDisk drive
  | requestSnapshot =>
    obtain ⟨hd, m, rfl, hm⟩ := h
    exact .quiet ⟨hd, m, rfl, hm⟩
  | getSaveState => exact .quiet h
  | restoreState state => exact h.restoreState state
  | timeTravelBackward | timeTravelForward | timeTravelIndex => cases hc
  | setRegister register value => exact h.setRegister register value
  | keyPress key => exact .quiet (h.modifyMemory fun hx => hx.pressKey key)
  | button index pressed => exact .quiet (h.pressButton index pressed)
  | setBinaryBlock address bytes => exact .quiet (h.modifyMemory fun hx => hx.loadMain address bytes)

/-! ## Ticks -/

/-- Both enter a frame, or neither does. -/
theorem Twins.enter? (h : Twins R d s s') (now : Nat) :
    (s.enter? now = none ∧ s'.enter? now = none ∧ Twins R d (s.tick now).2 (s'.tick now).2) ∨
      ∃ f f', s.enter? now = some f ∧ s'.enter? now = some f' ∧ Stage R d f f' := by
  obtain ⟨hd, m, rfl, hm⟩ := h
  have hstart : Twins R d { s with previousTime := now } { s with machine := m, previousTime := now } :=
    ⟨hd, m, rfl, hm⟩
  have hboot := hstart.boot.setState .running
  have hreset := hstart.reset.setState .running
  unfold Scheduler.enter? Scheduler.tick
  dsimp only
  split
  · exact .inl ⟨rfl, rfl, hd, m, rfl, hm⟩
  · cases hs : s.state with
    | idle | paused =>
      rw [hs] at hstart
      exact .inl ⟨rfl, rfl, hstart⟩
    | needBoot =>
      rw [hs] at hboot
      exact .inr ⟨_, _, rfl, rfl, hboot⟩
    | needReset =>
      rw [hs] at hreset
      exact .inr ⟨_, _, rfl, rfl, hreset⟩
    | running =>
      rw [hs] at hstart
      exact .inr ⟨_, _, rfl, rfl, .quiet hstart⟩

theorem Twins.cycled (h : Twins R d s s') :
    (s.machine.runFor frameCycles).1 = (s'.machine.runFor frameCycles).1 ∧
      Stage R d s.cycled s'.cycled := by
  obtain ⟨hcomplete, hm⟩ := h.machine.runFor frameCycles
  refine ⟨hcomplete, ?_⟩
  unfold Scheduler.cycled
  generalize s.machine.runFor frameCycles = x at hcomplete hm
  generalize s'.machine.runFor frameCycles = y at hcomplete hm
  obtain ⟨complete, m⟩ := x
  obtain ⟨complete', m'⟩ := y
  obtain rfl : complete = complete' := hcomplete
  have hran := h.withMachine hm
  cases complete with
  | true => exact .quiet hran
  | false => exact hran.setState .paused

end Stages

end Scheduler

end AppleII
