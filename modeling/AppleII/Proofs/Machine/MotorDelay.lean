import AppleII.Proofs.Disk.MotorDelay
import AppleII.Proofs.Machine.Controls
import AppleII.Proofs.Machine.Motors
import AppleII.Proofs.Machine.Waiting
import Mathlib.Tactic.IntervalCases

/-!
# When the motor of a machine stops

In a session the accesses to the two addresses of the motor, the resets and the restores are the history that the
motor goes by (`Session.motorHistory`).  Every action is obeyed (`Session.obeys_act`), so that the motor of the
selected drive stops at the end of the delay, to the cycle, whatever else is done (`motor_stops_on_time`).  That the
clock wraps around is part of the history too: a cycle at which a motor was asked to stop says nothing after that.
-/

namespace AppleII

open Disk (Controller MotorCall motorOffDelay)
open Disk.MotorCall (plan)
open Processor (Access Bus Logged)

/-! ## Addresses -/

/-- The call of an access to an address, at a cycle. -/
def motorCall? (cycle : Nat) (address : UInt16) : Option MotorCall :=
  if address = 0xC0E9 then some .start
  else if address = 0xC0E8 then some (.stop cycle)
  else none

/-- The call of an access, at a cycle. -/
def Processor.Access.motorCall? (cycle : Nat) : Access → Option MotorCall
  | .read address _ | .write address _ => AppleII.motorCall? cycle address

/-- An address of the I/O page is known by its low byte. -/
theorem Memory.eq_of_isIoPage {address : UInt16} (h : isIoPage address = true) :
    address = 0xC000 ||| address.toUInt8.toUInt16 := by
  have hpage : address &&& 0xFF00 = 0xC000 := eq_of_beq h
  rw [← hpage, ← UInt16.toBitVec_inj]
  ext i hi
  simp only [UInt16.toBitVec_or, UInt16.toBitVec_and, UInt8.toBitVec_toUInt16, UInt16.toBitVec_toUInt8]
  interval_cases i <;> simp

/-- In the I/O page there is a call where the soft switch of the motor is turned. -/
theorem motorCall?_of_ioPage {address : UInt16} (h : Memory.isIoPage address = true) (cycle : Nat) :
    motorCall? cycle address = (Route.ofAddress address).motorSwitch?.map (.ofSwitch cycle) := by
  have hlow (low : UInt8) : (Route.ofLow low).motorSwitch? =
      if 0xC000 ||| low.toUInt16 = 0xC0E9 then some true
      else if 0xC000 ||| low.toUInt16 = 0xC0E8 then some false else none :=
    forall_byte (P := fun low => (Route.ofLow low).motorSwitch? =
      if 0xC000 ||| low.toUInt16 = 0xC0E9 then some true
      else if 0xC000 ||| low.toUInt16 = 0xC0E8 then some false else none) (by decide +kernel) low
  rw [Route.ofAddress_eq, hlow, ← Memory.eq_of_isIoPage h]
  unfold motorCall?
  split
  · rfl
  · split <;> rfl

theorem motorCall?_of_not_ioPage {address : UInt16} (h : Memory.isIoPage address = false) (cycle : Nat) :
    motorCall? cycle address = none := by
  unfold motorCall?
  split
  · next heq =>
    rw [heq] at h
    exact absurd h (by decide)
  · split
    · next heq =>
      rw [heq] at h
      exact absurd h (by decide)
    · rfl

/-! ## The board -/

/-- The controller obeys a history of calls. -/
def Board.Obeys (b : Board) (calls : List MotorCall) : Prop :=
  b.disk.Obeys (b.memory.switches.isSet .motor) b.clock (plan calls)

namespace Board

variable {b b' : Board} {calls : List MotorCall}

theorem Obeys.congr (h : b.Obeys calls) (hsame : b.SameDisks b') (hclock : b'.clock = b.clock) : b'.Obeys calls := by
  unfold Obeys
  rw [hsame.switches, hclock]
  exact Controller.Obeys.congr h hsame.sameMotors

/-- **An access** is obeyed: the soft switch is turned first, and the controller sees the clock. -/
theorem Obeys.accessIoPage (h : b.Obeys calls) {address : UInt16} (hio : Memory.isIoPage address = true)
    (value : Option UInt8) :
    (b.accessIoPage address value).2.Obeys ((motorCall? b.clock address).toList ++ calls) := by
  unfold Obeys
  rw [motorCall?_of_ioPage hio, isSet_motor_accessIoPage]
  rcases b.accessIoPage_cases address value with ⟨reg, hroute, heq⟩ | ⟨hroute, heq⟩
  · rw [heq, hroute]
    exact Controller.Obeys.access h reg value _
  · rw [heq, Route.motorSwitch?_of_ne hroute]
    exact h

theorem Obeys.read (h : b.Obeys calls) (address : UInt16) :
    (b.read address).2.Obeys ((motorCall? b.clock address).toList ++ calls) := by
  unfold Board.read
  split
  · next hio => exact h.accessIoPage hio none
  · next hio =>
    rw [motorCall?_of_not_ioPage (Bool.eq_false_iff.mpr hio)]
    exact h

theorem Obeys.write (h : b.Obeys calls) (address : UInt16) (value : UInt8) :
    (b.write address value).Obeys ((motorCall? b.clock address).toList ++ calls) := by
  unfold Board.write
  split
  · next hio => exact h.accessIoPage hio (some value)
  · next hio =>
    rw [motorCall?_of_not_ioPage (Bool.eq_false_iff.mpr hio)]
    have hsame : b.SameDisks { b with memory := b.memory.poke address value } :=
      ⟨rfl, rfl, rfl, b.memory.switches_poke address value⟩
    exact h.congr hsame rfl

/-- The calls of some accesses at one cycle, the last one first. -/
def motorCallsOf (cycle : Nat) (log : List Access) : List MotorCall := (log.filterMap (·.motorCall? cycle)).reverse

/-- What is logged of the accesses to a board is obeyed; the clock stands still meanwhile. -/
theorem keeps_motorCalls (cycle : Nat) (calls : List MotorCall) :
    Bus.Keeps fun l : Logged Board => l.bus.clock = cycle ∧ l.bus.Obeys (motorCallsOf cycle l.log.toList ++ calls) where
  read := by
    rintro l ⟨rfl, h⟩ address
    refine ⟨l.bus.clock_read address, ?_⟩
    show (l.bus.read address).2.Obeys (motorCallsOf _ (l.log.push (.read address _)).toList ++ calls)
    rw [Array.toList_push, motorCallsOf, reverse_filterMap_concat, List.append_assoc]
    exact h.read address
  write := by
    rintro l ⟨rfl, h⟩ address value
    refine ⟨l.bus.clock_write address value, ?_⟩
    show (l.bus.write address value).Obeys (motorCallsOf _ (l.log.push (.write address value)).toList ++ calls)
    rw [Array.toList_push, motorCallsOf, reverse_filterMap_concat, List.append_assoc]
    exact h.write address value

theorem obeys_reset (h : b.Idle) : b.Obeys (.reset :: calls) := Controller.Idle.obeys h

theorem obeys_restore (h : b.Idle) : b.Obeys (.restore :: calls) := Controller.Idle.obeys h

/-- The call of cycles that go by. -/
def wrapCall (clock cycles : Nat) : List MotorCall := if clock + cycles < Count.size then [] else [.wrap]

theorem Obeys.advance (h : b.Obeys calls) (cycles : Nat) :
    (b.advance cycles).Obeys (wrapCall b.clock cycles ++ calls) := by
  unfold wrapCall
  split
  · next hfits =>
    refine Controller.Obeys.update h ?_
    rw [Count.add_of_lt hfits]
    exact Nat.le_add_right _ _
  · exact Controller.Obeys.wrap h _

/-- The drive that is not selected is left at a standstill, whatever the soft switch of the motor is. -/
theorem invariant_idle : Invariant (fun _ _ => True) Idle Idle where
  congr := fun hsame hb => Controller.Idle.congr hb hsame.sameMotors
  access := fun address value hb => hb.access address value
  advance := fun _ hb => Controller.Idle.update hb _ _
  insert := fun _ hinsert hb => Controller.Idle.congr hb (Controller.sameMotors_insert hinsert)
  eject := fun heject hb => Controller.Idle.congr hb (Controller.sameMotors_eject heject)
  save := fun drive hb => Controller.Idle.congr hb (Controller.worked_save _ drive).sameMotors
  interrupt := fun _ _ hb => hb
  keeps := invariant_motors.keeps
  reset := fun hb => (Controller.Idle.reset hb _).idle

end Board

/-! ## The machine -/

namespace Machine

/-- The calls of an operation, the last one first. -/
def motorCalls (m : Machine) : Operation → List MotorCall
  | .processInstruction ignoreBreakpoints =>
    if !ignoreBreakpoints && m.stops then []
    else Board.wrapCall m.clock (m.cpu.step m.board).1 ++ Board.motorCallsOf m.clock m.accesses
  | .read address | .write address _ => (motorCall? m.clock address).toList
  | .boot | .reset => [.reset]
  | .setNmi _ | .setIrq _ | .insert .. | .eject _ | .save _ => []

variable {m : Machine} {calls : List MotorCall}

theorem obeys_stepped (h : m.board.Obeys calls) :
    m.stepped.board.Obeys
      (Board.wrapCall m.clock (m.cpu.step m.board).1 ++ Board.motorCallsOf m.clock m.accesses ++ calls) := by
  have hlogged := Processor.step_keeps (Board.keeps_motorCalls m.clock calls) m.cpu (s := ⟨m.board, #[]⟩) ⟨rfl, h⟩
  rw [Processor.bus_step_logged] at hlogged
  obtain ⟨hclock, hobeys⟩ := hlogged
  have hstepped := hobeys.advance (m.cpu.step m.board).1
  rw [hclock] at hstepped
  rw [List.append_assoc]
  exact hstepped

theorem obeys_processInstruction (h : m.board.Obeys calls) (ignoreBreakpoints : Bool) :
    (m.processInstruction ignoreBreakpoints).2.board.Obeys
      (m.motorCalls (.processInstruction ignoreBreakpoints) ++ calls) := by
  rw [board_processInstruction_eq]
  unfold motorCalls
  dsimp only
  split
  · exact h
  · exact obeys_stepped h

/-- **An operation** is obeyed. -/
theorem obeys_operate (h : m.board.Obeys calls) (op : Operation) :
    (operate op m).2.board.Obeys (m.motorCalls op ++ calls) := by
  cases op with
  | processInstruction ignoreBreakpoints => exact obeys_processInstruction h ignoreBreakpoints
  | read address => exact h.read address
  | write address value => exact h.write address value
  | setNmi level | setIrq level => exact h
  | boot => exact Board.obeys_reset (keeps_boot Board.invariant_idle h.idle)
  | reset => exact Board.obeys_reset (keeps_reset Board.invariant_idle h.idle)
  | insert drive fileName bytes =>
    unfold operate
    dsimp only
    split
    · next hinsert => exact Controller.Obeys.congr h (Controller.sameMotors_insert hinsert)
    · exact h
  | eject drive =>
    unfold operate
    dsimp only
    split
    · next heject => exact Controller.Obeys.congr h (Controller.sameMotors_eject heject)
    · exact h
  | save drive => exact Controller.Obeys.congr h (Controller.worked_save _ drive).sameMotors

theorem clock_loadRom (m : Machine) (image : Array UInt8) : (m.loadRom image).clock = m.clock := by
  unfold loadRom
  dsimp only
  split <;> rfl

theorem clock_loadDiskRom {m' : Machine} {bytes : Array UInt8} (h : m.loadDiskRom bytes = .ok m') :
    m'.clock = m.clock := by
  unfold loadDiskRom at h
  split at h
  · cases h
  · dsimp only at h
    split at h
    · cases h
      rfl
    · cases h

/-- The motor of the selected drive keeps to a history of calls.  The last call comes first. -/
structure OnTime (m : Machine) (calls : List MotorCall) : Prop where
  /-- A motor that was started runs until the delay is over since the first call to stop it, and not longer, if the
  counts of the cycles fit: the one at the end of the delay, and those since then. -/
  stops : ∀ {after mid before : List MotorCall} {cycle : Nat},
    calls = after ++ .stop cycle :: (mid ++ .start :: before) →
    (∀ other, .stop other ∉ mid) → .reset ∉ mid → .restore ∉ mid →
    .start ∉ after → .reset ∉ after → .restore ∉ after → .wrap ∉ after → cycle + motorOffDelay < Count.size →
    (m.disk.runs m.disk.current = true ↔ m.clock < cycle + motorOffDelay)
  /-- A motor that was started is not to stop, whatever was asked for before. -/
  runs : ∀ {after before : List MotorCall}, calls = after ++ .start :: before →
    (∀ cycle, .stop cycle ∉ after) → .reset ∉ after → .restore ∉ after →
    m.disk.runs m.disk.current = true ∧ m.disk.motorOffAt = none

theorem onTime_of_obeys (h : m.board.Obeys calls) : m.OnTime calls where
  stops := by
    rintro after mid before cycle rfl hstop hreset hrestore hstart hreset' hrestore' hwrap hfits
    have hrun : plan (mid ++ .start :: before) = .run := MotorCall.plan_of_start hstop hreset hrestore
    exact (h.stop (MotorCall.plan_of_stop hstart hreset' hrestore' hwrap hfits hrun)).2.1
  runs := by
    rintro after before rfl hstop hreset hrestore
    exact (h.run (MotorCall.plan_of_start hstop hreset hrestore)).2

end Machine

/-! ## Sessions -/

namespace Session

/-- The calls of an action, the last one first.  What is refused calls nothing. -/
def motorCalls (s : Session) : Action → List MotorCall
  | .operate op => s.machine.motorCalls op
  | .restore n =>
    match s.kept[n]? with
    | some state =>
      match s.machine.restoreState state with
      | .ok _ => [.restore]
      | .error _ => []
    | none => []
  | .loadRom _ | .loadDiskRom _ | .keep => []

/-- The calls of some actions, the last one first. -/
def motorHistory (s : Session) : List Action → List MotorCall
  | [] => []
  | a :: actions => (s.act a).motorHistory actions ++ s.motorCalls a

variable {s : Session} {calls : List MotorCall}

theorem act_restore {n : Nat} {state : SaveState} {m : Machine} (hkept : s.kept[n]? = some state)
    (hm : s.machine.restoreState state = .ok m) :
    s.act (.restore n) = { s with machine := m } ∧ s.motorCalls (.restore n) = [.restore] := by
  unfold act motorCalls
  dsimp only
  rw [hkept]
  dsimp only
  rw [hm]
  exact ⟨rfl, rfl⟩

/-- **An action** is obeyed, unless it restores a state of which nothing is known. -/
theorem obeys_act (h : s.machine.board.Obeys calls) (a : Action)
    (hrestore : .restore ∉ s.motorCalls a ∨ s.Holds Board.Idle) :
    (s.act a).machine.board.Obeys (s.motorCalls a ++ calls) := by
  cases a with
  | operate op => exact Machine.obeys_operate h op
  | loadRom image => exact h.congr (s.machine.sameDisks_loadRom image) (s.machine.clock_loadRom image)
  | loadDiskRom bytes =>
    unfold act motorCalls
    dsimp only
    cases hrom : s.machine.loadDiskRom bytes with
    | ok m => exact h.congr (Machine.sameDisks_loadDiskRom hrom) (Machine.clock_loadDiskRom hrom)
    | error e => exact h
  | keep => exact h
  | restore n =>
    cases hstate : s.kept[n]? with
    | none =>
      unfold act motorCalls
      dsimp only
      rw [hstate]
      exact h
    | some state =>
      cases hm : s.machine.restoreState state with
      | error e =>
        unfold act motorCalls
        dsimp only
        rw [hstate]
        dsimp only
        rw [hm]
        exact h
      | ok m' =>
        obtain ⟨hact, hcall⟩ := act_restore hstate hm
        rw [hcall] at hrestore ⊢
        rw [hact]
        have hkept : s.Holds Board.Idle := hrestore.resolve_left fun hnone => hnone List.mem_cons_self
        obtain ⟨m₁, hidle, rfl⟩ := hkept.kept state (List.mem_of_getElem? hstate)
        exact Board.obeys_restore (Controller.Idle.congr hidle (Machine.sameDisks_restoreState hm).sameMotors)

/-- **A session** obeys its history. -/
theorem obeys_motorHistory (h : s.machine.board.Obeys calls) (actions : List Action)
    (hrestore : .restore ∉ s.motorHistory actions ∨ s.Holds Board.Idle) :
    (actions.foldl act s).machine.board.Obeys (s.motorHistory actions ++ calls) := by
  induction actions generalizing s calls with
  | nil => exact h
  | cons a actions ih =>
    have hact : (s.act a).machine.board.Obeys (s.motorCalls a ++ calls) :=
      obeys_act h a (hrestore.imp_left fun hnone hmem => hnone (List.mem_append_right _ hmem))
    have hrest : .restore ∉ (s.act a).motorHistory actions ∨ (s.act a).Holds Board.Idle := by
      rcases hrestore with hnone | hkept
      · exact .inl fun hmem => hnone (List.mem_append_left _ hmem)
      · exact .inr (hkept.act Board.invariant_idle (a.fits_of_forall fun _ _ => trivial))
    rw [motorHistory, List.append_assoc]
    exact ih hact hrest

/-- The motor keeps to the history of a session that begins with one motor at most. -/
theorem onTime_motorHistory (hidle : s.machine.board.Idle) (actions : List Action)
    (hrestore : .restore ∉ s.motorHistory actions ∨ s.Holds Board.Idle) :
    (actions.foldl act s).machine.OnTime (s.motorHistory actions) := by
  have hnone : s.machine.board.Obeys [] := Controller.Idle.obeys hidle
  have hobeys := obeys_motorHistory hnone actions hrestore
  rw [List.append_nil] at hobeys
  exact Machine.onTime_of_obeys hobeys

theorem motorHistory_append (s : Session) (first rest : List Action) :
    s.motorHistory (first ++ rest) = (first.foldl act s).motorHistory rest ++ s.motorHistory first := by
  induction first generalizing s with
  | nil => exact (List.append_nil _).symm
  | cons a first ih =>
    rw [List.cons_append, motorHistory, motorHistory, ih, List.append_assoc]
    rfl

end Session

/-! ## Time that goes by -/

/-- No call comes of the instruction of a machine that waits, as long as its clock does not wrap around. -/
theorem Machine.Waits.motorCalls {m : Machine} (h : m.Waits) (hfits : m.clock + 3 < Count.size) :
    m.motorCalls (.processInstruction true) = [] := by
  unfold Machine.motorCalls Board.motorCallsOf Board.wrapCall
  rw [h.accesses, h.cycles, if_pos hfits]
  simp [Access.motorCall?, motorCall?_of_not_ioPage h.first, motorCall?_of_not_ioPage h.second,
    motorCall?_of_not_ioPage h.third]

namespace Session

/-- So many rounds of an instruction that jumps to itself. -/
def wait (n : Nat) : List Action := List.replicate n (.operate (.processInstruction true))

/-- Round by round the time goes by, and nothing else comes of it. -/
theorem wait_spec {P : Board → Prop} (hadvance : ∀ {b : Board} (cycles : Nat), P b → P (b.advance cycles))
    {s : Session} (h : s.machine.Waits) (hP : P s.machine.board) {n : Nat}
    (hfits : s.machine.clock + 3 * n < Count.size) :
    ((wait n).foldl act s).machine.clock = s.machine.clock + 3 * n ∧
      P ((wait n).foldl act s).machine.board ∧ s.motorHistory (wait n) = [] := by
  induction n generalizing s with
  | zero => exact ⟨rfl, hP, rfl⟩
  | succ n ih =>
    obtain ⟨hwaits, hboard⟩ := h.processInstruction
    have hfirst : s.machine.clock + 3 < Count.size := by omega
    have hround : (s.machine.processInstruction true).2.clock = s.machine.clock + 3 :=
      (congrArg Board.clock hboard).trans (Count.add_of_lt hfirst)
    have hkept : P (s.machine.processInstruction true).2.board := by
      rw [hboard]
      exact hadvance 3 hP
    have hrest : (s.machine.processInstruction true).2.clock + 3 * n < Count.size := by omega
    obtain ⟨hclock, hlast, hhistory⟩ := ih (s := s.act (.operate (.processInstruction true))) hwaits hkept hrest
    refine ⟨hclock.trans ?_, hlast, ?_⟩
    · show (s.machine.processInstruction true).2.clock + 3 * n = _
      omega
    · show motorHistory _ (wait n) ++ s.machine.motorCalls (.processInstruction true) = []
      rw [hhistory, h.motorCalls hfirst]
      rfl

end Session

/-- **The motor stops on time.** In a session with a new machine, which is only restored to its own states, and in any
session from a moment on at which the drive that is not selected stands still, as long as nothing is restored, the
motor of the selected drive keeps to the history of its calls.  It runs until the delay is over since the first call
to stop it, to the cycle, whichever drives are selected meanwhile, where the counts of the cycles fit; a later start
cancels that call. -/
theorem motor_stops_on_time :
    (∀ (model : Processor.Model) (actions : List Session.Action),
      (Session.run model actions).machine.OnTime (Session.motorHistory { machine := .ofModel model } actions)) ∧
    ∀ (s : Session) (actions : List Session.Action), s.machine.disk.Idle → .restore ∉ s.motorHistory actions →
      (actions.foldl Session.act s).machine.OnTime (s.motorHistory actions) := by
  refine ⟨fun model actions => ?_, fun s actions hidle hrestore => ?_⟩
  · have hnew : Session.Holds Board.Idle { machine := .ofModel model } :=
      ⟨rfl, fun _ hstate => absurd hstate List.not_mem_nil⟩
    exact Session.onTime_motorHistory hnew.machine actions (.inr hnew)
  · exact Session.onTime_motorHistory hidle actions (.inl hrestore)

/-- The motor is to stop at cycle 0, and once more at cycle 3, when the other drive is selected: the first time
counts. -/
theorem motor_stops_on_time_lastCycle :
    let s : Session := { machine := .ofModel .cmos }
    let start : List Session.Action := [.operate (.write 0 0x4C), .operate (.read 0xC0E9), .operate (.read 0xC0E8),
      .operate (.processInstruction true), .operate (.read 0xC0EB), .operate (.read 0xC0E8)]
    let before := ((start ++ Session.wait 340160).foldl Session.act s).machine
    let after := ((start ++ Session.wait 340161).foldl Session.act s).machine
    s.machine.disk.Idle ∧ s.motorHistory start = [.stop 3, .stop 0, .start] ∧
      (before.clock = 1020483 ∧ before.disk.runs before.disk.current = true) ∧
      (after.clock = 1020486 ∧ ¬after.disk.runs after.disk.current = true) := by
  intro s start before after
  have hidle : s.machine.disk.Idle := rfl
  obtain ⟨hwaits, hclock, hhistory⟩ : (start.foldl Session.act s).machine.Waits ∧
      (start.foldl Session.act s).machine.clock = 3 ∧ s.motorHistory start = [.stop 3, .stop 0, .start] := by
    decide +kernel
  -- The rounds add nothing to the history.
  have hrounds (n : Nat) (hfits : 3 + 3 * n < Count.size) :
      ((start ++ Session.wait n).foldl Session.act s).machine.clock = 3 + 3 * n ∧
        s.motorHistory (start ++ Session.wait n) = [.stop 3] ++ .stop 0 :: ([] ++ .start :: []) := by
    have hroom : (start.foldl Session.act s).machine.clock + 3 * n < Count.size := by
      rw [hclock]
      exact hfits
    obtain ⟨hrest, -, hnone⟩ := Session.wait_spec (P := fun _ => True) (fun _ h => h) hwaits trivial hroom
    rw [List.foldl_append, hrest, hclock, Session.motorHistory_append, hnone, hhistory]
    exact ⟨rfl, rfl⟩
  have hruns (n : Nat) (hfits : 3 + 3 * n < Count.size) :
      (((start ++ Session.wait n).foldl Session.act s).machine.disk.runs
        ((start ++ Session.wait n).foldl Session.act s).machine.disk.current = true ↔
          3 + 3 * n < 0 + motorOffDelay) := by
    obtain ⟨hn, hcalls⟩ := hrounds n hfits
    have hrestore : .restore ∉ s.motorHistory (start ++ Session.wait n) := by
      rw [hcalls]
      decide
    rw [← hn]
    exact (motor_stops_on_time.2 s (start ++ Session.wait n) hidle hrestore).stops hcalls (fun _ => List.not_mem_nil)
      List.not_mem_nil List.not_mem_nil (by decide) (by decide) (by decide) (by decide) (by decide)
  have hbefore : 3 + 3 * 340160 < Count.size := by decide
  have hafter : 3 + 3 * 340161 < Count.size := by decide
  exact ⟨hidle, hhistory, ⟨(hrounds _ hbefore).1, (hruns _ hbefore).mpr (by decide)⟩, (hrounds _ hafter).1,
    fun hon => absurd ((hruns _ hafter).mp hon) (by decide)⟩

/-- The second drive is selected. -/
theorem Board.read_selectTwo (b : Board) :
    (b.read 0xC0EB).2.disk = b.disk.select Disk.driveTwo ∧ (b.read 0xC0EB).2.clock = b.clock := by
  have hroute : Route.ofAddress 0xC0EB = .slot 6 0xB := by
    rw [Route.ofAddress_eq]
    decide
  refine ⟨?_, b.clock_read _⟩
  unfold Board.read accessIoPage
  rw [if_pos (by decide), hroute]
  rfl

theorem Session.board_act_read (s : Session) (address : UInt16) :
    (s.act (.operate (.read address))).machine.board = (s.machine.board.read address).2 := rfl

/-- A motor that runs in the second drive, while the first one is selected, is not stopped by the time. -/
theorem Session.wait_selectTwo {s : Session} (h : s.machine.Waits) (hcurrent : s.machine.board.disk.current = 0)
    (hruns : s.machine.board.disk.runs 1 = true) {now n : Nat} (hnow : s.machine.board.clock = now)
    (hfits : now + 3 * n < Count.size) :
    let actions := wait n ++ [.operate (.read 0xC0EB)]
    let m := (actions.foldl act s).machine
    m.board.clock = now + 3 * n ∧ m.board.disk.runs m.board.disk.current = true ∧
      s.motorHistory actions = [] := by
  subst hnow
  have hadvance {b : Board} (cycles : Nat) (hb : b.disk.current = 0 ∧ b.disk.runs 1 = true) :
      (b.advance cycles).disk.current = 0 ∧ (b.advance cycles).disk.runs 1 = true := by
    obtain ⟨hcurrent, hother⟩ := b.disk.update_frame (Count.add b.clock cycles) b.memory.switches
    rw [hb.1] at hcurrent hother
    exact ⟨hcurrent, hother.trans hb.2⟩
  obtain ⟨hclock, ⟨-, hsecond⟩, hnone⟩ := wait_spec (P := fun b => b.disk.current = 0 ∧ b.disk.runs 1 = true)
    hadvance h ⟨hcurrent, hruns⟩ hfits
  obtain ⟨hselect, hstill⟩ := ((wait n).foldl act s).machine.board.read_selectTwo
  intro actions m
  have hlast : m.board = (((wait n).foldl act s).machine.board.read 0xC0EB).2 := by
    show ((wait n ++ [_]).foldl act s).machine.board = _
    rw [List.foldl_append, List.foldl_cons, List.foldl_nil, board_act_read]
  have hhistory : s.motorHistory actions = [] := by
    show s.motorHistory (wait n ++ [_]) = []
    rw [motorHistory_append, hnone]
    rfl
  rw [hlast, hstill, hselect, (Controller.select_frame _ _).1, Controller.runs_select]
  refine ⟨hclock, ?_, hhistory⟩
  split
  · rfl
  · exact hsecond

/-- The motors of both drives run in a state that is restored.  The delay stops the one of the selected drive, and then
the other drive is selected. -/
theorem motor_outlasts_restore :
    let both : Machine := { cpu := { model := .cmos }, board := {
      memory.ram := (Vector.replicate _ 0).set 0 0x4C (by decide)
      disk.drives := ⟨{ motorRunning := true }, { motorRunning := true }⟩ } }
    let s : Session := { machine := .ofModel .cmos, kept := [both.saveState] }
    let start : List Session.Action := [.restore 0, .operate (.read 0xC0E9), .operate (.read 0xC0E8)]
    let actions := start ++ (Session.wait 340162 ++ [.operate (.read 0xC0EB)])
    let m := (actions.foldl Session.act s).machine
    s.motorHistory actions = [] ++ .stop 0 :: ([] ++ .start :: [.restore]) ∧ ¬m.clock < 0 + motorOffDelay ∧
      m.disk.runs m.disk.current = true := by
  intro both s start
  have hintact : both.Restorable := by
    intro i
    have hdrive : both.disk.drives.get i = { motorRunning := true } := ite_self _
    rw [hdrive]
    exact ⟨by decide, by decide, fun h hstart => absurd (by simp [Disk.Drive.trackAt]) hstart⟩
  have hrestore : (Machine.ofModel .cmos).restoreState both.saveState = .ok both := by
    have hswitches : (Machine.ofModel .cmos).board.memory.switches.applyMap both.saveState.switches =
        both.board.memory.switches := Switches.applyMap_toMap both.switches _
    rw [Machine.restoreState_of_restorable hintact]
    unfold Machine.install
    rw [hswitches]
    rfl
  -- The first action restores the state.
  obtain ⟨hact, hcall⟩ := Session.act_restore (s := s) (n := 0) rfl hrestore
  obtain ⟨hhistory, hwaits, hclock, hcurrent, hruns⟩ : s.motorHistory start = [.stop 0, .start, .restore] ∧
      (start.foldl Session.act s).machine.Waits ∧ (start.foldl Session.act s).machine.board.clock = 0 ∧
      (start.foldl Session.act s).machine.board.disk.current = 0 ∧
      (start.foldl Session.act s).machine.board.disk.runs 1 = true := by
    simp only [start, Session.motorHistory, List.foldl_cons, hact, hcall]
    decide +kernel
  have hselected (n : Nat) (hn : ¬0 + 3 * n < 0 + motorOffDelay) (hfits : 0 + 3 * n < Count.size) :
      let actions := start ++ (Session.wait n ++ [.operate (.read 0xC0EB)])
      let m := (actions.foldl Session.act s).machine
      s.motorHistory actions = [] ++ .stop 0 :: ([] ++ .start :: [.restore]) ∧ ¬m.clock < 0 + motorOffDelay ∧
        m.disk.runs m.disk.current = true := by
    obtain ⟨htime, hlast, hnone⟩ := Session.wait_selectTwo hwaits hcurrent hruns hclock hfits
    intro actions m
    have hm : m.board = (((Session.wait n ++ [.operate (.read 0xC0EB)] : List Session.Action)).foldl Session.act
        (start.foldl Session.act s)).machine.board :=
      congrArg (fun s : Session => s.machine.board) List.foldl_append
    have hcalls : s.motorHistory actions = [] ++ .stop 0 :: ([] ++ .start :: [.restore]) := by
      rw [Session.motorHistory_append, hnone, hhistory]
      rfl
    unfold Machine.clock Machine.disk
    rw [hm, htime]
    exact ⟨hcalls, hn, hlast⟩
  exact hselected 340162 (by decide) (by decide)

end AppleII
