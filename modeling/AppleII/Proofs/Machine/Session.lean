import AppleII.Proofs.Machine.Future
import AppleII.Proofs.Machine.Reset

/-!
# What holds throughout a session

In a session a machine is operated, given ROMs, saved, and restored from what was saved before.  What such a
session keeps of the disks and their switches is a `Board.Invariant`: it takes one look at an access to the I/O
page, the time, a reset and the changes of a disk, and the processor, the memory and the save states follow
(`Session.invariant`).
-/

namespace AppleII

open Processor (Bus)

namespace Board

/-- Two boards with the same drives and soft switches, whose controllers have the same drive selected and the
same time to stop its motor. -/
structure SameDisks (b b' : Board) : Prop where
  drives : b'.disk.drives = b.disk.drives
  current : b'.disk.current = b.disk.current
  motorOffAt : b'.disk.motorOffAt = b.disk.motorOffAt
  switches : b'.memory.switches = b.memory.switches

/-- The board after the disk controller was reset. -/
def resetDisk (b : Board) : Board :=
  { b with
    disk := (b.disk.reset b.memory.switches).1
    memory.switches := (b.disk.reset b.memory.switches).2 }

/-- A property of the disks and their switches that a session keeps, in which the disks that are put in are
`Fit`.  During a reset there is only `Q`, until the disk controller is reset as well. -/
structure Invariant (Fit : String → Array UInt8 → Prop) (Q P : Board → Prop) : Prop where
  congr : ∀ {b b' : Board}, b.SameDisks b' → P b → P b'
  access : ∀ {b : Board} (address : UInt16) (value : Option UInt8), P b → P (b.accessIoPage address value).2
  advance : ∀ {b : Board} (cycles : Nat), P b → P (b.advance cycles)
  insert : ∀ {b : Board} {drive : Nat} {fileName : String} {bytes : Array UInt8} {w : Option Disk.Warning}
    {disk : Disk.Controller}, Fit fileName bytes → b.disk.insert drive fileName bytes = .ok (w, disk) → P b →
      P { b with disk }
  eject : ∀ {b : Board} {drive : Nat} {disk : Disk.Controller}, b.disk.eject drive = .ok disk → P b →
    P { b with disk }
  save : ∀ {b : Board} (drive : Nat), P b → P { b with disk := (b.disk.save drive).2 }
  interrupt : ∀ {b : Board} (memory : Memory) (clock : Nat), P b → Q { b with memory, clock }
  keeps : Bus.Keeps Q
  reset : ∀ {b : Board}, Q b → P b.resetDisk

/-- The processor keeps what accesses to the I/O page and writes outside it keep. -/
theorem keeps_bus {P : Board → Prop}
    (haccess : ∀ {b : Board} (address : UInt16) (value : Option UInt8), P b → P (b.accessIoPage address value).2)
    (hpoke : ∀ {b : Board} (address : UInt16) (value : UInt8), P b →
      P { b with memory := b.memory.poke address value }) : Bus.Keeps P where
  read := by
    intro b hb address
    show P (b.read address).2
    unfold Board.read
    split
    · exact haccess address none hb
    · exact hb
  write := by
    intro b hb address value
    show P (b.write address value)
    unfold Board.write
    split
    · exact haccess address (some value) hb
    · exact hpoke address value hb

end Board

section Boards

variable {Fit : String → Array UInt8 → Prop} {P Q : Board → Prop}

namespace Board.Invariant

variable (h : Board.Invariant Fit Q P)
include h

/-- A write outside the I/O page touches neither disks nor switches. -/
theorem poke {b : Board} (address : UInt16) (value : UInt8) (hb : P b) :
    P { b with memory := b.memory.poke address value } := by
  have hsame : b.SameDisks { b with memory := b.memory.poke address value } :=
    ⟨rfl, rfl, rfl, b.memory.switches_poke address value⟩
  exact h.congr hsame hb

theorem bus : Bus.Keeps P := Board.keeps_bus h.access h.poke

end Board.Invariant

namespace Machine

theorem board_execute (m : Machine) :
    m.execute.2.board = (m.cpu.step m.board).2.2.advance (m.cpu.step m.board).1 := by
  obtain ⟨cpu, board, debugger, diskRom, skip⟩ := m
  unfold execute
  dsimp only
  split
  · rfl
  · rfl

/-- A breakpoint stops a machine before anything happens to its board. -/
theorem board_processInstruction (m : Machine) (ignoreBreakpoints : Bool) :
    (m.processInstruction ignoreBreakpoints).2.board = m.board ∨
      (m.processInstruction ignoreBreakpoints).2.board = m.execute.2.board := by
  unfold processInstruction
  dsimp only
  split
  · exact .inl rfl
  · refine .inr ?_
    rw [board_execute, board_execute]

/-- The board after a reset. -/
theorem board_reset (m : Machine) :
    m.reset.board = (Board.read { m.board with memory.switches := .reset } 0xC082).2.resetDisk := by
  unfold reset
  dsimp only
  cases Board.read { m.board with memory.switches := .reset } 0xC082 with
  | mk v board =>
    have hboard := Board.bus_reset m.cpu board
    cases hreset : m.cpu.reset board with
    | mk cpu board' =>
      rw [hreset] at hboard
      dsimp only at hboard ⊢
      rw [hboard]
      rfl

variable (h : Board.Invariant Fit Q P)
include h

theorem keeps_processInstruction {m : Machine} (ignoreBreakpoints : Bool) (hm : P m.board) :
    P (m.processInstruction ignoreBreakpoints).2.board := by
  rcases m.board_processInstruction ignoreBreakpoints with heq | heq
  · rwa [heq]
  · rw [heq, board_execute]
    exact h.advance _ (Processor.step_keeps h.bus m.cpu hm)

theorem keeps_reset {m : Machine} (hm : P m.board) : P m.reset.board := by
  rw [board_reset]
  exact h.reset (h.keeps.read (h.interrupt _ _ hm) _)

theorem keeps_boot {m : Machine} (hm : P m.board) : P m.boot.board := by
  obtain ⟨memory, -, hboot⟩ := m.boot_cases
  rw [hboot, board_reset]
  -- What the boot leaves of the memory and the clock is the same to `Q`.
  exact h.reset (h.keeps.read (h.interrupt (b := m.board) { memory with switches := .reset } 0 hm) _)

/-- The disks that an operation puts in are fit. -/
def Operation.Fits (Fit : String → Array UInt8 → Prop) : Operation → Prop
  | .insert _ fileName bytes => Fit fileName bytes
  | _ => True

theorem keeps_operate {op : Operation} (hfit : op.Fits Fit) {m : Machine} (hm : P m.board) :
    P (operate op m).2.board := by
  cases op with
  | processInstruction ignoreBreakpoints => exact keeps_processInstruction h ignoreBreakpoints hm
  | read address => exact h.bus.read hm address
  | write address value => exact h.bus.write hm address value
  | setNmi level | setIrq level => exact hm
  | boot => exact keeps_boot h hm
  | reset => exact keeps_reset h hm
  | insert drive fileName bytes =>
    unfold operate
    dsimp only
    split
    · next hinsert => exact h.insert hfit hinsert hm
    · exact hm
  | eject drive =>
    unfold operate
    dsimp only
    split
    · next heject => exact h.eject heject hm
    · exact hm
  | save drive => exact h.save drive hm

end Machine

end Boards

namespace Machine

theorem sameDisks_loadRom (m : Machine) (image : Array UInt8) : m.board.SameDisks (m.loadRom image).board := by
  have hswitches : (m.board.memory.loadRom image).switches = m.board.memory.switches := by
    unfold Memory.loadRom Memory.installSlotRom
    dsimp only
    split
    · rfl
    · rfl
  unfold loadRom
  dsimp only
  split
  · exact ⟨rfl, rfl, rfl, hswitches⟩
  · exact ⟨rfl, rfl, rfl, hswitches⟩

theorem sameDisks_loadDiskRom {m m' : Machine} {bytes : Array UInt8} (h : m.loadDiskRom bytes = .ok m') :
    m.board.SameDisks m'.board := by
  unfold loadDiskRom at h
  split at h
  · cases h
  · dsimp only at h
    split at h
    · cases h
      exact ⟨rfl, rfl, rfl, rfl⟩
    · cases h

/-- A machine that is given what another one saved has the disks of that one. -/
theorem sameDisks_restoreState {m m₁ m' : Machine} (h : m.restoreState m₁.saveState = .ok m') :
    m₁.board.SameDisks m'.board := by
  have hsave := saveState_of_restoreState m₁.mem_saveState_switches_iff h
  simp only [Machine.saveState, SaveState.mk.injEq, DiskState.capture, DiskState.mk.injEq] at hsave
  obtain ⟨-, -, hswitches, -, -, ⟨hcurrent, -, -, hstop, hfirst, hsecond⟩, -⟩ := hsave
  have hfirst := DriveState.capture_injective hfirst
  have hsecond := DriveState.capture_injective hsecond
  refine ⟨?_, Fin.ext hcurrent, hstop, Switches.toMap_injective hswitches⟩
  show m'.disk.drives = m₁.disk.drives
  cases hd : m'.disk.drives
  cases hd₁ : m₁.disk.drives
  simp_all

end Machine

/-! ## Sessions -/

/-- A machine, with the save states that were captured of it. -/
structure Session where
  machine : Machine
  kept : List SaveState := []

namespace Session

/-- What is done in a session. -/
inductive Action where
  | operate (op : Machine.Operation)
  | loadRom (image : Array UInt8)
  | loadDiskRom (bytes : Array UInt8)
  /-- The state of the machine is captured. -/
  | keep
  /-- The machine is restored from one of the states that were captured. -/
  | restore (n : Nat)

/-- An action.  What is refused changes nothing. -/
def act (s : Session) : Action → Session
  | .operate op => { s with machine := (Machine.operate op s.machine).2 }
  | .loadRom image => { s with machine := s.machine.loadRom image }
  | .loadDiskRom bytes =>
    match s.machine.loadDiskRom bytes with
    | .ok machine => { s with machine }
    | .error _ => s
  | .keep => { s with kept := s.kept ++ [s.machine.saveState] }
  | .restore n =>
    match s.kept[n]? with
    | some state =>
      match s.machine.restoreState state with
      | .ok machine => { s with machine }
      | .error _ => s
    | none => s

/-- The session after some actions with a new machine. -/
def run (model : Processor.Model) (actions : List Action) : Session :=
  actions.foldl act { machine := .ofModel model }

/-- The disks that an action puts in are fit. -/
def Action.Fits (Fit : String → Array UInt8 → Prop) : Action → Prop
  | .operate op => op.Fits Fit
  | _ => True

theorem Action.fits_of_forall {Fit : String → Array UInt8 → Prop} (h : ∀ fileName bytes, Fit fileName bytes)
    (a : Action) : a.Fits Fit := by
  cases a with
  | operate op =>
    cases op with
    | insert drive fileName bytes => exact h fileName bytes
    | _ => trivial
  | _ => trivial

/-- The board of the machine has a property, and every state that was captured is of such a machine. -/
structure Holds (P : Board → Prop) (s : Session) : Prop where
  machine : P s.machine.board
  kept : ∀ state ∈ s.kept, ∃ m : Machine, P m.board ∧ state = m.saveState

variable {Fit : String → Array UInt8 → Prop} {P Q : Board → Prop} (h : Board.Invariant Fit Q P)
include h

theorem Holds.act {s : Session} (hs : s.Holds P) {a : Action} (hfit : a.Fits Fit) : (s.act a).Holds P := by
  cases a with
  | operate op => exact ⟨Machine.keeps_operate h hfit hs.machine, hs.kept⟩
  | loadRom image => exact ⟨h.congr (s.machine.sameDisks_loadRom image) hs.machine, hs.kept⟩
  | loadDiskRom bytes =>
    unfold Session.act
    dsimp only
    split
    · next m hm => exact ⟨h.congr (Machine.sameDisks_loadDiskRom hm) hs.machine, hs.kept⟩
    · exact hs
  | keep =>
    refine ⟨hs.machine, fun state hstate => ?_⟩
    rcases List.mem_append.mp hstate with hkept | hlast
    · exact hs.kept state hkept
    · exact ⟨s.machine, hs.machine, List.mem_singleton.mp hlast⟩
  | restore n =>
    unfold Session.act
    dsimp only
    split
    · next state hstate =>
      obtain ⟨m₁, hm₁, rfl⟩ := hs.kept state (List.mem_of_getElem? hstate)
      split
      · next m' hm' => exact ⟨h.congr (Machine.sameDisks_restoreState hm') hm₁, hs.kept⟩
      · exact hs
    · exact hs

/-- **Sessions.** An invariant that a new machine has holds throughout a session in which the disks that are
put in are fit. -/
theorem invariant {model : Processor.Model} (hnew : P (Machine.ofModel model).board) {actions : List Action}
    (hfit : ∀ a ∈ actions, a.Fits Fit) : P (run model actions).machine.board := by
  -- By induction on the actions.  The states that were captured are carried along: a restore goes back to one.
  have hrun : ∀ (actions : List Action) (s : Session), (∀ a ∈ actions, a.Fits Fit) → s.Holds P →
      (actions.foldl Session.act s).Holds P := by
    intro actions
    induction actions with
    | nil =>
      intro s _ hs
      exact hs
    | cons a actions ih =>
      intro s hfit hs
      obtain ⟨hfirst, hrest⟩ := List.forall_mem_cons.mp hfit
      exact ih (s.act a) hrest (hs.act h hfirst)
  exact (hrun actions _ hfit ⟨hnew, fun _ hstate => absurd hstate List.not_mem_nil⟩).machine

end Session

end AppleII
