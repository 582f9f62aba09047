import AppleII.Proofs.Byte
import AppleII.Proofs.Disk.Controls
import AppleII.Proofs.Machine.Course
import AppleII.Proofs.Machine.Session
import AppleII.Proofs.Switch.Touch
import Mathlib.Data.List.Forall2

/-!
# The controls of a machine

The addresses of the four registers with a control are those of the soft switches of the selection and the mode, so
that what an access makes of both is a matter of the history of the controls (`Board.Shows.accessIoPage`).  In a
session the history is the one of the machine, or, after a restore, the one of the machine that the state was
captured of (`Session.controls`).
-/

namespace AppleII

open Disk (Controller Control driveTwo)
open Processor (Access Bus Logged)

/-! ## Addresses -/

/-- The control of a route. -/
def Route.control? : Route → Option Control
  | .slot 6 reg => Controller.control? reg
  | _ => none

/-- The control of an address. -/
def control? (address : UInt16) : Option Control :=
  if Memory.isIoPage address then (Route.ofAddress address).control? else none

/-- The control of an access. -/
def Processor.Access.control? : Access → Option Control
  | .read address _ | .write address _ => AppleII.control? address

namespace Disk.Control

/-- What a control makes of the soft switch of the selection. -/
def selectTurned? : Control → Option Bool
  | .select d => some (d == driveTwo)
  | .mode _ => none
  | .reset => some false

/-- What a control makes of the soft switch of the mode. -/
def writeTurned? : Control → Option Bool
  | .select _ => none
  | .mode write => some write
  | .reset => some false

theorem selectSwitch_toList_append (c : Option Control) (controls : List Control) :
    selectSwitch (c.toList ++ controls) = (c.bind selectTurned?).getD (selectSwitch controls) := by
  rcases c with _ | ⟨_⟩ | ⟨_⟩ | _ <;> rfl

theorem writeSwitch_toList_append (c : Option Control) (controls : List Control) :
    writeSwitch (c.toList ++ controls) = (c.bind writeTurned?).getD (writeSwitch controls) := by
  rcases c with _ | ⟨_⟩ | ⟨_⟩ | _ <;> rfl

end Disk.Control

/-- The soft switches of the selection and the mode are turned where there is a control. -/
theorem Switch.turned?_controls (low : UInt8) :
    driveSelect.turned? low = (Route.ofLow low).control?.bind Control.selectTurned? ∧
      driveWrite.turned? low = (Route.ofLow low).control?.bind Control.writeTurned? :=
  forall_byte (P := fun low => driveSelect.turned? low = (Route.ofLow low).control?.bind Control.selectTurned? ∧
    driveWrite.turned? low = (Route.ofLow low).control?.bind Control.writeTurned?) (by decide +kernel) low

/-! ## The board -/

/-- The controller and the soft switches are what a history of controls comes to. -/
structure Board.Shows (b : Board) (controls : List Control) : Prop where
  disk : b.disk.Shows controls
  driveSelect : b.memory.switches.isSet .driveSelect = Control.selectSwitch controls
  driveWrite : b.memory.switches.isSet .driveWrite = Control.writeSwitch controls

namespace Board

variable {b b' : Board} {controls : List Control}

theorem Shows.congr (h : b.Shows controls) (hsame : b.SameDisks b') : b'.Shows controls := by
  obtain ⟨⟨hcurrent, hmode⟩, hselect, hwrite⟩ := h
  refine ⟨⟨hsame.current.trans hcurrent, fun i => ?_⟩, ?_, ?_⟩
  · rw [hsame.drives, hmode]
  · rw [hsame.switches, hselect]
  · rw [hsame.switches, hwrite]

/-- **An access** turns the controller and the switches alike. -/
theorem Shows.accessIoPage (h : b.Shows controls) (address : UInt16) (value : Option UInt8) :
    (b.accessIoPage address value).2.Shows ((Route.ofAddress address).control?.toList ++ controls) := by
  obtain ⟨hselect, hwrite⟩ := Switch.turned?_controls address.toUInt8
  rw [← Route.ofAddress_eq] at hselect hwrite
  refine ⟨?_, ?_, ?_⟩
  · rcases b.accessIoPage_cases address value with ⟨reg, hroute, heq⟩ | ⟨hroute, heq⟩
    · rw [heq, hroute]
      exact h.disk.access reg value b.clock _
    · have hnone : (Route.ofAddress address).control? = none := by
        unfold Route.control?
        split
        · next reg hreg => exact absurd hreg (hroute reg)
        · rfl
      rw [heq, hnone]
      exact h.disk
  · rw [isSet_accessIoPage rfl rfl, hselect, h.driveSelect, Control.selectSwitch_toList_append]
  · rw [isSet_accessIoPage rfl rfl, hwrite, h.driveWrite, Control.writeSwitch_toList_append]

theorem Shows.read (h : b.Shows controls) (address : UInt16) :
    (b.read address).2.Shows ((control? address).toList ++ controls) := by
  unfold Board.read AppleII.control?
  split
  · exact h.accessIoPage address none
  · exact h

theorem Shows.write (h : b.Shows controls) (address : UInt16) (value : UInt8) :
    (b.write address value).Shows ((control? address).toList ++ controls) := by
  unfold Board.write AppleII.control?
  split
  · exact h.accessIoPage address (some value)
  · have hsame : b.SameDisks { b with memory := b.memory.poke address value } :=
      ⟨rfl, rfl, rfl, b.memory.switches_poke address value⟩
    exact h.congr hsame

/-- The controls of some accesses, the last one first. -/
def controlsOf (log : List Access) : List Control := (log.filterMap Access.control?).reverse

/-- What an access leaves in a history comes before what earlier ones have left there. -/
theorem reverse_filterMap_concat {α : Type} (f : Access → Option α) (log : List Access) (a : Access) :
    ((log ++ [a]).filterMap f).reverse = (f a).toList ++ (log.filterMap f).reverse := by
  rw [List.filterMap_append, List.reverse_append]
  cases h : f a with
  | none => simp [h]
  | some c => simp [h]

theorem controlsOf_concat (log : List Access) (a : Access) :
    controlsOf (log ++ [a]) = a.control?.toList ++ controlsOf log := reverse_filterMap_concat _ log a

/-- What is logged of the accesses to a board is its history. -/
theorem keeps_log (controls : List Control) :
    Bus.Keeps fun l : Logged Board => l.bus.Shows (controlsOf l.log.toList ++ controls) where
  read := by
    intro l h address
    show (l.bus.read address).2.Shows (controlsOf (l.log.push (.read address _)).toList ++ controls)
    rw [Array.toList_push, controlsOf_concat, List.append_assoc]
    exact h.read address
  write := by
    intro l h address value
    show (l.bus.write address value).Shows (controlsOf (l.log.push (.write address value)).toList ++ controls)
    rw [Array.toList_push, controlsOf_concat, List.append_assoc]
    exact h.write address value

theorem Shows.advance (h : b.Shows controls) (cycles : Nat) : (b.advance cycles).Shows controls :=
  ⟨h.disk.update _ _, h.driveSelect, h.driveWrite⟩

end Board

/-! ## The machine -/

namespace Machine

/-- The accesses that the next step of the processor makes. -/
def accesses (m : Machine) : List Access := (m.cpu.step (⟨m.board, #[]⟩ : Logged Board)).2.2.log.toList

/-- The controls of an operation, the last one first. -/
def controls (m : Machine) : Operation → List Control
  | .processInstruction ignoreBreakpoints =>
    if !ignoreBreakpoints && m.stops then [] else Board.controlsOf m.accesses
  | .read address | .write address _ => (control? address).toList
  | .boot | .reset => [.reset]
  | .setNmi _ | .setIrq _ | .insert .. | .eject _ | .save _ => []

variable {m : Machine} {history : List Control}

theorem shows_stepped (h : m.board.Shows history) :
    m.stepped.board.Shows (Board.controlsOf m.accesses ++ history) := by
  have hlogged := Processor.step_keeps (Board.keeps_log history) m.cpu (s := ⟨m.board, #[]⟩) h
  rw [Processor.bus_step_logged] at hlogged
  exact hlogged.advance _

theorem shows_processInstruction (h : m.board.Shows history) (ignoreBreakpoints : Bool) :
    (m.processInstruction ignoreBreakpoints).2.board.Shows
      (m.controls (.processInstruction ignoreBreakpoints) ++ history) := by
  rw [board_processInstruction_eq]
  unfold controls
  dsimp only
  split
  · exact h
  · exact shows_stepped h

/-- A reset turns the switches off, and leaves the selection and the modes as they are. -/
theorem shows_reset (h : m.disk.Shows history) : m.reset.board.Shows (.reset :: history) := by
  have hoff : Board.Shows { m.board with memory.switches := .reset } (.reset :: history) :=
    ⟨⟨h.current, h.writeMode⟩, rfl, rfl⟩
  -- The read that selects ROM goes to no register of the disk card.
  have hcard := hoff.read 0xC082
  have hnone : control? 0xC082 = none := by
    unfold control?
    rw [Route.ofAddress_eq]
    decide
  rw [hnone] at hcard
  rw [board_reset]
  generalize (Board.read { m.board with memory.switches := .reset } 0xC082).2 = b at hcard ⊢
  have hother (s : Switch) (hs : s ≠ .motor) :
      (b.disk.reset b.memory.switches).2.isSet s = b.memory.switches.isSet s :=
    Switches.isSet_set_of_ne _ false (Ne.symm hs)
  obtain ⟨hdisk, hselect, hwrite⟩ := hcard
  obtain ⟨hcurrent, hmode⟩ := hdisk.reset b.memory.switches
  exact ⟨⟨hcurrent, hmode⟩, (hother .driveSelect (by decide)).trans hselect,
    (hother .driveWrite (by decide)).trans hwrite⟩

theorem shows_boot (h : m.disk.Shows history) : m.boot.board.Shows (.reset :: history) := by
  obtain ⟨memory, -, hboot⟩ := m.boot_cases
  rw [hboot]
  exact shows_reset h

/-- **An operation** adds its controls to the history. -/
theorem shows_operate (h : m.board.Shows history) (op : Operation) :
    (operate op m).2.board.Shows (m.controls op ++ history) := by
  cases op with
  | processInstruction ignoreBreakpoints => exact shows_processInstruction h ignoreBreakpoints
  | read address => exact h.read address
  | write address value => exact h.write address value
  | setNmi level | setIrq level => exact h
  | boot => exact shows_boot h.disk
  | reset => exact shows_reset h.disk
  | insert drive fileName bytes =>
    unfold operate
    dsimp only
    split
    · next hinsert => exact ⟨h.disk.insert hinsert, h.driveSelect, h.driveWrite⟩
    · exact h
  | eject drive =>
    unfold operate
    dsimp only
    split
    · next heject => exact ⟨h.disk.eject heject, h.driveSelect, h.driveWrite⟩
    · exact h
  | save drive => exact ⟨h.disk.save drive, h.driveSelect, h.driveWrite⟩

end Machine

/-! ## Sessions -/

namespace Session

/-- A session with the history of its machine, and the histories of the states that were captured. -/
structure Recorded where
  session : Session
  history : List Control := []
  kept : List (List Control) := []

/-- An action.  A machine that is restored has the history of the state. -/
def Recorded.act (r : Recorded) (a : Action) : Recorded where
  session := r.session.act a
  history :=
    match a with
    | .operate op => r.session.machine.controls op ++ r.history
    | .restore n =>
      match r.session.kept[n]? with
      | some state =>
        match r.session.machine.restoreState state with
        | .ok _ => r.kept.getD n []
        | .error _ => r.history
      | none => r.history
    | .loadRom _ | .loadDiskRom _ | .keep => r.history
  kept :=
    match a with
    | .keep => r.kept ++ [r.history]
    | _ => r.kept

/-- The history of the machine after some actions with a new machine. -/
def controls (model : Processor.Model) (actions : List Action) : List Control :=
  (actions.foldl Recorded.act { session := { machine := .ofModel model } }).history

/-- The machine, and those that states were captured of, are what their histories come to. -/
structure Recorded.Shows (r : Recorded) : Prop where
  machine : r.session.machine.board.Shows r.history
  kept : List.Forall₂ (fun state history => ∃ m : Machine, m.board.Shows history ∧ state = m.saveState)
    r.session.kept r.kept

theorem Recorded.Shows.act {r : Recorded} (h : r.Shows) (a : Action) : (r.act a).Shows := by
  obtain ⟨hmachine, hkept⟩ := h
  cases a with
  | operate op => exact ⟨Machine.shows_operate hmachine op, hkept⟩
  | loadRom image => exact ⟨hmachine.congr (r.session.machine.sameDisks_loadRom image), hkept⟩
  | loadDiskRom bytes =>
    unfold Recorded.act Session.act
    dsimp only
    cases hrom : r.session.machine.loadDiskRom bytes with
    | ok m => exact ⟨hmachine.congr (Machine.sameDisks_loadDiskRom hrom), hkept⟩
    | error e => exact ⟨hmachine, hkept⟩
  | keep => exact ⟨hmachine, List.rel_append hkept (.cons ⟨_, hmachine, rfl⟩ .nil)⟩
  | restore n =>
    unfold Recorded.act Session.act
    dsimp only
    cases hstate : r.session.kept[n]? with
    | none => exact ⟨hmachine, hkept⟩
    | some state =>
      dsimp only
      cases hrestore : r.session.machine.restoreState state with
      | error e => exact ⟨hmachine, hkept⟩
      | ok m' =>
        obtain ⟨hn, hget⟩ := List.getElem?_eq_some_iff.mp hstate
        have hn' : n < r.kept.length := hkept.length_eq ▸ hn
        obtain ⟨m₁, hshows, hsaved⟩ := hkept.get hn hn'
        rw [List.get_eq_getElem, hget] at hsaved
        rw [hsaved] at hrestore
        refine ⟨?_, hkept⟩
        rw [List.getD_eq_getElem?_getD, List.getElem?_eq_getElem hn', Option.getD_some]
        exact hshows.congr (Machine.sameDisks_restoreState hrestore)

/-- **A session** shows the history of its controls. -/
theorem shows_controls (model : Processor.Model) (actions : List Action) :
    (run model actions).machine.board.Shows (controls model actions) := by
  have hrun : ∀ (actions : List Action) (r : Recorded), r.Shows →
      (actions.foldl Recorded.act r).Shows ∧
        (actions.foldl Recorded.act r).session = actions.foldl Session.act r.session := by
    intro actions
    induction actions with
    | nil =>
      intro r h
      exact ⟨h, rfl⟩
    | cons a actions ih =>
      intro r h
      exact ih (r.act a) (h.act a)
  have hempty (i : Fin 2) : (Disk.Drives.empty.get i).writeMode = false := by
    revert i
    decide
  have hnew : Recorded.Shows { session := { machine := .ofModel model } } := ⟨⟨⟨rfl, hempty⟩, rfl, rfl⟩, .nil⟩
  obtain ⟨⟨hmachine, -⟩, hsession⟩ := hrun actions _ hnew
  rwa [hsession] at hmachine

end Session

/-- **The controls and their switches.** Throughout a session with a new machine the selected drive is the one that
was selected last, and each drive is in the mode that was asked for last while it was selected.  The switch of the
selection is on only while the second drive is selected; both agree unless a reset found that drive selected and none
was selected since.  The switch of the mode agrees with the mode of the selected drive when no mode was asked for, and
when that drive was selected at the last access for a mode, unless it was one for write mode and there was a reset
since. -/
theorem switches_follow_controls (model : Processor.Model) (actions : List Session.Action) :
    let m := (Session.run model actions).machine
    let controls := Session.controls model actions
    (m.disk.current = Control.selected controls ∧
      ∀ i, (m.disk.drives.get i).writeMode = Control.modeOf i controls) ∧
    (m.switches.isSet .driveSelect = true → m.disk.current = driveTwo) ∧
    ((m.disk.current = driveTwo ↔ m.switches.isSet .driveSelect = true) ↔
      ¬∃ since before, controls = since ++ .reset :: before ∧ (∀ d, .select d ∉ since) ∧
        Control.selected before = driveTwo) ∧
    ((∀ write, .mode write ∉ controls) →
      m.disk.selected.writeMode = false ∧ m.switches.isSet .driveWrite = false) ∧
    ∀ since write before, controls = since ++ .mode write :: before → (∀ later, .mode later ∉ since) →
      m.disk.current = Control.selected before → (write = true → .reset ∉ since) →
        m.disk.selected.writeMode = write ∧ m.switches.isSet .driveWrite = write := by
  intro m controls
  obtain ⟨⟨hcurrent, hmode⟩, hselect, hwrite⟩ : m.board.Shows controls := Session.shows_controls model actions
  have hcurrent : m.disk.current = Control.selected controls := hcurrent
  have hselected : m.disk.selected.writeMode = Control.modeOf m.disk.current controls := hmode _
  have hselect : m.switches.isSet .driveSelect = Control.selectSwitch controls := hselect
  have hwrite : m.switches.isSet .driveWrite = Control.writeSwitch controls := hwrite
  refine ⟨⟨hcurrent, hmode⟩, ?_, ?_, fun hnone => ?_, fun since write before heq hsince hbefore hreset => ?_⟩
  · rw [hselect, hcurrent]
    exact Control.selected_of_selectSwitch
  · rw [hselect, hcurrent]
    exact Control.agree_select_iff
  · rw [hselected, hwrite]
    exact Control.agree_of_no_mode hnone _
  · rw [hselected, hwrite, hcurrent]
    rw [hcurrent] at hbefore
    rw [heq] at hbefore ⊢
    exact Control.agree_mode hsince hbefore hreset

/-- The first drive is put into write mode and the second one is selected, which is in read mode: the switch stays
on. -/
theorem mode_stays_with_drive :
    let m := (Session.run .cmos [.operate (.read 0xC0EF), .operate (.read 0xC0EB)]).machine
    m.disk.current = driveTwo ∧ m.disk.selected.writeMode = false ∧ m.switches.isSet .driveWrite = true := by
  decide +kernel

/-- The second drive is selected and put into write mode. -/
theorem switches_follow_controls_second :
    let actions := [Session.Action.operate (.read 0xC0EB), .operate (.read 0xC0EF)]
    let m := (Session.run .cmos actions).machine
    Session.controls .cmos actions = [] ++ .mode true :: [.select driveTwo] ∧ m.disk.current = driveTwo ∧
      m.switches.isSet .driveSelect = true ∧ m.disk.selected.writeMode = true ∧
      m.switches.isSet .driveWrite = true := by
  intro actions m
  have hcontrols : Session.controls .cmos actions = [] ++ .mode true :: [.select driveTwo] := by decide +kernel
  obtain ⟨⟨hcurrent, -⟩, -, hagree, -, hmode⟩ := switches_follow_controls .cmos actions
  have hselected : m.disk.current = driveTwo := by
    rw [hcurrent, hcontrols]
    rfl
  obtain ⟨hwrite, hswitch⟩ := hmode _ _ _ hcontrols (fun _ => List.not_mem_nil) hselected fun _ => List.not_mem_nil
  refine ⟨hcontrols, hselected, (hagree.mpr ?_).mp hselected, hwrite, hswitch⟩
  rintro ⟨since, before, heq, -⟩
  have hmem : Control.reset ∈ since ++ Control.reset :: before := by simp
  rw [← heq, hcontrols] at hmem
  exact absurd hmem (by decide)

end AppleII
