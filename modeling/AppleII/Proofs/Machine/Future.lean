import AppleII.Proofs.Machine.Agreement
import AppleII.Proofs.Run
import AppleII.Proofs.SaveState.RoundTrip

/-!
# A save state determines the future

`Machine.Operation` lists what is done to a machine: instructions, accesses to its bus, interrupt
lines, resets and disks.  `saveState_determines_future` says that machines with the same save state
cannot be told apart by any sequence of them.
-/

namespace AppleII

open Disk (Chronicle)

namespace Machine

/-- What is done to a machine. -/
inductive Operation where
  | processInstruction (ignoreBreakpoints : Bool)
  | read (address : UInt16)
  | write (address : UInt16) (value : UInt8)
  | setNmi (level : Bool)
  | setIrq (level : Bool)
  | boot
  | reset
  | insert (drive : Nat) (fileName : String) (bytes : Array UInt8)
  | eject (drive : Nat)
  | save (drive : Nat)

/-- What comes of an operation. -/
inductive Answer where
  | none
  | step (result : StepResult)
  | byte (value : UInt8)
  | inserted (warning : Option Disk.Warning)
  | refused (e : Disk.Error)
  | file (contents : Option (String × Array UInt8))

/-- An operation carried out.  A disk that is refused changes nothing. -/
def operate (op : Operation) (m : Machine) : Answer × Machine :=
  match op with
  | .processInstruction ignoreBreakpoints =>
    let (result, m) := m.processInstruction ignoreBreakpoints
    (.step result, m)
  | .read address =>
    let (value, board) := m.board.read address
    (.byte value, { m with board })
  | .write address value => (.none, { m with board := m.board.write address value })
  | .setNmi level => (.none, { m with cpu.nmi := level })
  | .setIrq level => (.none, { m with cpu.irq := level })
  | .boot => (.none, m.boot)
  | .reset => (.none, m.reset)
  | .insert drive fileName bytes =>
    match m.disk.insert drive fileName bytes with
    | .ok (warning, disk) => (.inserted warning, { m with board.disk := disk })
    | .error e => (.refused e, m)
  | .eject drive =>
    match m.disk.eject drive with
    | .ok disk => (.none, { m with board.disk := disk })
    | .error e => (.refused e, m)
  | .save drive =>
    let (contents, disk) := m.disk.save drive
    (.file contents, { m with board.disk := disk })

/-- An operation with what is seen of it: its answer, and the save state after it. -/
def observe (op : Operation) (m : Machine) : (Answer × SaveState) × Machine :=
  let (answer, m) := operate op m
  ((answer, m.saveState), m)

/-- What is seen of some operations. -/
def observations (m : Machine) (ops : List Operation) : List (Answer × SaveState) :=
  (runAll observe ops m).1

/-- What a save state does not hold is the same: the kind of the processor, the ROMs and the
breakpoints. -/
structure SameSetup (m m' : Machine) : Prop where
  model : m.cpu.model = m'.cpu.model
  rom : m.memory.rom = m'.memory.rom
  slotRoms : m.memory.slotRoms = m'.memory.slotRoms
  diskRom : m.diskRom = m'.diskRom
  debugger : m.debugger = m'.debugger

/-! ## Agreement and save states -/

variable {R : Chronicle → Chronicle → Prop} {m m' : Machine}

theorem Agree.saveState (h : m.Agree R m') : m.saveState = m'.saveState := by
  obtain ⟨cpu, ⟨memory, disk, clock⟩, debugger, diskRom, skip⟩ := m
  obtain ⟨cpu', ⟨memory', disk', clock'⟩, debugger', diskRom', skip'⟩ := m'
  obtain ⟨⟨o, rfl⟩, ⟨⟨n, rfl⟩, ⟨x, rfl, -⟩, rfl⟩, rfl, rfl, rfl⟩ := h
  rfl

theorem Agree.install (h : m.Agree R m') (s : SaveState) (ram : Vector UInt8 Cell.count) (current : Fin 2)
    (drives : Disk.Drives) : (m.install s ram current drives).Agree R (m'.install s ram current drives) := by
  obtain ⟨⟨o, hcpu⟩, ⟨⟨n, hmemory⟩, ⟨x, hdisk, hx⟩, -⟩, hdebugger, hrom, -⟩ := h
  unfold Machine.install
  rw [hcpu, hmemory, hdisk]
  exact ⟨⟨o, rfl⟩, ⟨⟨n, rfl⟩, ⟨x, rfl, hx⟩, rfl⟩, hdebugger, hrom, rfl⟩

/-- A save state is refused by both machines for the same reason, or put into both of them. -/
theorem Agree.restoreState (h : m.Agree R m') (s : SaveState) :
    (∃ e, m.restoreState s = .error e ∧ m'.restoreState s = .error e) ∨
      ∃ x x', m.restoreState s = .ok x ∧ m'.restoreState s = .ok x' ∧ x.Agree R x' := by
  unfold Machine.restoreState
  cases s.checkVersion with
  | error e => exact .inl ⟨e, rfl, rfl⟩
  | ok _ =>
    cases SaveState.decodeBytes s.memory with
    | error e => exact .inl ⟨e, rfl, rfl⟩
    | ok image =>
      simp only [ok_bind]
      cases Memory.ramOfImage image with
      | error e => exact .inl ⟨e, rfl, rfl⟩
      | ok ram =>
        cases s.disk.decode with
        | error e => exact .inl ⟨e, rfl, rfl⟩
        | ok p => exact .inr ⟨_, _, rfl, rfl, h.install s ram p.1 p.2⟩

theorem agree_of_saveState_eq (h : m.saveState = m'.saveState) (hsetup : m.SameSetup m')
    (hskip : m.skipBreakpoint = m'.skipBreakpoint) : m.Agree Chronicle.Any m' := by
  obtain ⟨cpu, ⟨memory, disk, clock⟩, debugger, diskRom, skip⟩ := m
  obtain ⟨cpu', ⟨memory', disk', clock'⟩, debugger', diskRom', skip'⟩ := m'
  simp only [Machine.saveState, SaveState.mk.injEq] at h
  obtain ⟨-, hcpu, hswitches, hkeyboard, hram, hdisk, hclock⟩ := h
  refine ⟨⟨cpu'.lastOpcode, ?_⟩, ⟨⟨memory'.speakerClicks, ?_⟩, ⟨disk'.chronicle, ?_, trivial⟩,
    hclock⟩, hsetup.debugger, hsetup.diskRom, hskip⟩
  · have hmodel := hsetup.model
    simp only [Processor.capture, ProcessorState.mk.injEq] at hcpu
    cases cpu
    cases cpu'
    simp_all
  · have hrom := hsetup.rom
    have hslots := hsetup.slotRoms
    have hmap := Switches.toMap_injective hswitches
    have hcells := Vector.toArray_inj.mp (Base64.encode_injective hram)
    cases memory
    cases memory'
    simp_all [Machine.memory, Machine.switches]
  · simp only [DiskState.capture, DiskState.mk.injEq] at hdisk
    obtain ⟨hcurrent, hcycle, hdata, hmotor, hfirst, hsecond⟩ := hdisk
    have hfirst := DriveState.capture_injective hfirst
    have hsecond := DriveState.capture_injective hsecond
    obtain ⟨⟨first, second⟩, current⟩ := disk
    obtain ⟨⟨first', second'⟩, current'⟩ := disk'
    simp_all [Machine.disk, Disk.Controller.chronicle, Fin.ext_iff]

/-- A machine that is restored agrees with the one that was saved, if it is set up alike; it was not just resumed. -/
theorem agree_of_restoreState {m m₂ m₃ : Machine} (hsetup : m.SameSetup m₂)
    (h : m₂.restoreState m.saveState = .ok m₃) :
    m₃.Agree Chronicle.Any { m with skipBreakpoint := false } := by
  have hsave := saveState_of_restoreState m.mem_saveState_switches_iff h
  obtain ⟨-, ram, current, drives, -, -, rfl⟩ := restoreState_eq_ok_iff.mp h
  exact agree_of_saveState_eq hsave ⟨hsetup.model.symm, hsetup.rom.symm, hsetup.slotRoms.symm,
    hsetup.diskRom.symm, hsetup.debugger.symm⟩ rfl

/-! ## The operations -/

/-- **An operation** gives the same on machines that agree, and leaves them in agreement. -/
theorem Agree.operate [Chronicle.Kept R] (h : m.Agree R m') (op : Operation) :
    (Machine.operate op m).1 = (Machine.operate op m').1 ∧
      (Machine.operate op m).2.Agree R (Machine.operate op m').2 := by
  cases op with
  | processInstruction ignoreBreakpoints =>
    obtain ⟨hresult, hnext⟩ := h.processInstruction ignoreBreakpoints
    exact ⟨congrArg Answer.step hresult, hnext⟩
  | read address =>
    obtain ⟨hbyte, hboard⟩ := h.board.read address
    exact ⟨congrArg Answer.byte hbyte, h.withBoard hboard⟩
  | write address value => exact ⟨rfl, h.withBoard (h.board.write address value)⟩
  | setNmi level | setIrq level =>
    obtain ⟨o, hcpu⟩ := h.cpu
    refine ⟨rfl, ⟨o, ?_⟩, h.board, h.debugger, h.diskRom, h.skipBreakpoint⟩
    simp only [Machine.operate, hcpu]
  | boot => exact ⟨rfl, h.boot⟩
  | reset => exact ⟨rfl, h.reset⟩
  | insert drive fileName bytes =>
    rcases h.board.disk.insert drive fileName bytes with ⟨e, he, he'⟩ | ⟨w, c, c', hc, hc', hagree⟩
    · simp only [Machine.operate, Machine.disk, he, he']
      exact ⟨trivial, h⟩
    · simp only [Machine.operate, Machine.disk, hc, hc']
      exact ⟨trivial, h.withDisk hagree⟩
  | eject drive =>
    rcases h.board.disk.eject drive with ⟨e, he, he'⟩ | ⟨c, c', hc, hc', hagree⟩
    · simp only [Machine.operate, Machine.disk, he, he']
      exact ⟨trivial, h⟩
    · simp only [Machine.operate, Machine.disk, hc, hc']
      exact ⟨trivial, h.withDisk hagree⟩
  | save drive =>
    obtain ⟨hfile, hdisk⟩ := h.board.disk.save drive
    exact ⟨congrArg Answer.file hfile, h.withDisk hdisk⟩

theorem Agree.observe [Chronicle.Kept R] (h : m.Agree R m') (op : Operation) :
    (Machine.observe op m).1 = (Machine.observe op m').1 ∧
      (Machine.observe op m).2.Agree R (Machine.observe op m').2 := by
  obtain ⟨hanswer, hnext⟩ := h.operate op
  exact ⟨Prod.ext hanswer hnext.saveState, hnext⟩

/-- Machines that agree cannot be told apart. -/
theorem Agree.observations [Chronicle.Kept R] (h : m.Agree R m') (ops : List Operation) :
    m.observations ops = m'.observations ops :=
  (runAll_simulation (fun op _ _ h => h.observe op) ops h).1

end Machine

open Machine

/-- **A save state determines the future.** Machines with the same save state and setup answer alike to
every sequence of operations, and have the same save state after each.  A machine that is restored goes
on as the saved one from the point where it was saved. -/
theorem saveState_determines_future :
    (∀ m m' : Machine, m.saveState = m'.saveState → m.SameSetup m' →
      m.skipBreakpoint = m'.skipBreakpoint → ∀ ops, m.observations ops = m'.observations ops) ∧
    ∀ m m₂ : Machine, m.SameSetup m₂ →
      (m.Restorable → ∃ m₃, m₂.restoreState m.saveState = .ok m₃) ∧
      ∀ m₃, m₂.restoreState m.saveState = .ok m₃ →
        ∀ ops, m₃.observations ops = { m with skipBreakpoint := false }.observations ops := by
  constructor
  · intro m m' h hsetup hskip ops
    exact (agree_of_saveState_eq h hsetup hskip).observations ops
  · intro m m₂ hsetup
    refine ⟨fun hm => exists_restoreState hm m₂, fun m₃ h ops => ?_⟩
    exact (agree_of_restoreState hsetup h).observations ops

/-- A machine whose speaker has clicked, and one that is restored after a key was pressed. -/
theorem saveState_determines_future_ofModel :
    (∀ ops, (ofModel .cmos).observations ops =
      { ofModel .cmos with board.memory.speakerClicks := 1 }.observations ops) ∧
    ∃ m₃, { ofModel .cmos with board.memory.keyboardLatch := 0x8D }.restoreState (ofModel .cmos).saveState =
        .ok m₃ ∧ ∀ ops, m₃.observations ops = (ofModel .cmos).observations ops := by
  refine ⟨saveState_determines_future.1 _ _ rfl ⟨rfl, rfl, rfl, rfl, rfl⟩ rfl, ?_⟩
  obtain ⟨hexists, hfuture⟩ := saveState_determines_future.2 (ofModel .cmos)
    { ofModel .cmos with board.memory.keyboardLatch := 0x8D } ⟨rfl, rfl, rfl, rfl, rfl⟩
  obtain ⟨m₃, h⟩ := hexists (restorable_ofModel .cmos)
  exact ⟨m₃, h, hfuture m₃ h⟩

end AppleII
