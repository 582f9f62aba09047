import AppleII.Proofs.Disk.Handling
import Mathlib.Data.List.Induction

/-!
# The stepper

The head of the selected drive follows the phases of its stepper while the motor runs.  An access to a phase leaves
the stepper alone, or it takes it to a neighbouring phase; then the head moves by one half-track, or stops at the end
of its range, and that is reported once (`Card.pulled_turn`).  So single steps in one direction walk the head to the
end of its range, and are reported as stops from there on (`Card.stepper_walks`).
-/

namespace AppleII.Disk

/-- A controller with the soft switches that it reads. -/
structure Card where
  controller : Controller
  switches : Switches

/-- What comes with an access to a register: the byte that is written, in a write, and the cycle. -/
structure Stamp where
  value : Option UInt8
  cycle : Nat

/-- An access to a phase of the stepper. -/
structure PhaseAccess where
  phase : Fin 4
  on : Bool
  stamp : Stamp

/-- The soft switch of a phase. -/
def phaseSwitch : Fin 4 → Switch
  | 0 => .phase0
  | 1 => .phase1
  | 2 => .phase2
  | 3 => .phase3

/-- The register that turns a phase off or on. -/
def phaseRegister (p : Fin 4) (on : Bool) : UInt8 := 2 * p.val.toUInt8 + if on then 1 else 0

/-- All phases are off. -/
def phasesOff : List Bool := List.replicate 4 false

/-- The ways in which the head may go. -/
inductive Direction where
  | outward
  | inward

namespace Direction

def offset : Direction → Int
  | outward => -1
  | inward => 1

/-- The phase that pulls the head from a phase on. -/
def next : Direction → Fin 4 → Fin 4
  | outward => Phase.previous
  | inward => Phase.next

/-- The last half-track in a direction. -/
def stop : Direction → Nat
  | outward => 0
  | inward => lastHalfTrack

/-- The number of half-tracks to the last one. -/
def room : Direction → Nat → Nat
  | outward, h => h
  | inward, h => lastHalfTrack - h

/-- The half-track that lies a number of half-tracks ahead. -/
def ahead : Direction → Nat → Nat → Nat
  | outward, h, k => h - k
  | inward, h, k => h + k

/-- What is reported of one step of a drive from a half-track. -/
def report (dir : Direction) (d : Fin 2) (h : Nat) : DriveEvent :=
  if dir.room h = 0 then .headAtStop d dir.stop else .headMoved d (dir.ahead h 1)

/-- What is reported of a number of steps of a drive from a half-track on. -/
def reports (dir : Direction) (d : Fin 2) (h n : Nat) : List DriveEvent :=
  (List.range (min (dir.room h) n)).map (fun k => .headMoved d (dir.ahead h (k + 1))) ++
    List.replicate (n - min (dir.room h) n) (.headAtStop d dir.stop)

end Direction

namespace Card

/-- An access to a register by its address: the soft switch is turned first. -/
def access (s : Card) (reg : UInt8) (t : Stamp) : Card :=
  let switches := s.switches.touch (0xC0E0 + reg.toUInt16) t.value.isSome
  ⟨(s.controller.access reg t.value t.cycle switches).2, switches⟩

def turn (s : Card) (a : PhaseAccess) : Card := s.access (phaseRegister a.phase a.on) a.stamp

/-- Accesses to phases, one after the other. -/
def turns (s : Card) (as : List PhaseAccess) : Card := as.foldl turn s

/-- A single step of the selected drive: the next phase is turned on, the one that the stepper was at is turned off,
and then the next one is. -/
def pulse (dir : Direction) (s : Card) (t : Stamp × Stamp × Stamp) : Card :=
  let phase := s.controller.selected.phase
  s.turns [⟨dir.next phase, true, t.1⟩, ⟨phase, false, t.2.1⟩, ⟨dir.next phase, false, t.2.2⟩]

def pulses (dir : Direction) (s : Card) (ts : List (Stamp × Stamp × Stamp)) : Card := ts.foldl (pulse dir) s

end Card

/-! ## Phases -/

theorem toggle?_phase (p : Fin 4) (on : Bool) :
    Switch.toggle? (0xC0E0 + (phaseRegister p on).toUInt16) = some (phaseSwitch p, on) := by
  rw [Switch.toggle?_eq]
  revert p on
  decide

theorem phases_set (sw : Switches) (p : Fin 4) (on : Bool) :
    (sw.set (phaseSwitch p) on).phases = sw.phases.set p.val on := by
  unfold Switches.phases
  simp only [Switches.isSet_set]
  match p with
  | 0 => rfl
  | 1 => rfl
  | 2 => rfl
  | 3 => rfl

/-- The registers of the phases come before the others. -/
theorem phaseRegister_lt (p : Fin 4) (on : Bool) : phaseRegister p on &&& 0x0F < 8 := by
  revert p on
  decide

theorem access_phaseRegister (c : Controller) (p : Fin 4) (on : Bool) (value : Option UInt8) (cycle : Nat)
    (sw : Switches) : (c.access (phaseRegister p on) value cycle sw).2 = c.stepPhases sw.phases := by
  have hlt := phaseRegister_lt p on
  unfold Controller.access
  split
  case h_9 => rfl
  all_goals
    next h =>
    rw [h] at hlt
    exact absurd hlt (by decide)

/-- An access to a phase turns it, and the head follows. -/
theorem Card.turn_eq (s : Card) (a : PhaseAccess) : s.turn a =
    ⟨s.controller.stepPhases (s.switches.phases.set a.phase.val a.on), s.switches.set (phaseSwitch a.phase) a.on⟩ := by
  have hswitches : s.switches.touch (0xC0E0 + (phaseRegister a.phase a.on).toUInt16) a.stamp.value.isSome =
      s.switches.set (phaseSwitch a.phase) a.on := by
    unfold Switches.touch
    rw [toggle?_phase]
    have hreads : (phaseSwitch a.phase).wiring.writeOnly = false := by
      generalize a.phase = p
      revert p
      decide
    simp [hreads]
  unfold turn Card.access
  dsimp only
  rw [hswitches, access_phaseRegister, phases_set]

/-! ## The head -/

namespace Controller

/-- The head of the selected drive pulled to a phase. -/
def pull (c : Controller) (offset : Int) (phase : Fin 4) : Controller :=
  let (move, d) := c.selected.moveHead offset
  { c with drives := c.drives.modify c.current fun u => { (u.moveHead offset).2 with phase } }.emit <|
    match move with
    | .moved => .headMoved c.current d.halfTrack.val
    | .atStop => .headAtStop c.current d.halfTrack.val

theorem stepPhases_of_off {c : Controller} (h : c.selected.motorRunning = false) (phases : List Bool) :
    c.stepPhases phases = c := by
  unfold stepPhases
  rw [h]
  rfl

theorem stepPhases_of_none {c : Controller} {phases : List Bool} (h : pull? phases c.selected.phase = none) :
    c.stepPhases phases = c := by
  unfold stepPhases
  rw [h]
  exact ite_self _

theorem stepPhases_of_some {c : Controller} (hmotor : c.selected.motorRunning = true) {phases : List Bool}
    {offset : Int} {phase : Fin 4} (h : pull? phases c.selected.phase = some (offset, phase)) :
    c.stepPhases phases = c.pull offset phase := by
  unfold stepPhases pull
  rw [h, hmotor]
  simp only [Drives.update_eq, selected, Drives.get_modify_self]
  rfl

@[simp] theorem selected_pull (c : Controller) (offset : Int) (phase : Fin 4) :
    (c.pull offset phase).selected = { (c.selected.moveHead offset).2 with phase } := Drives.get_modify_self _ _ _

@[simp] theorem current_pull (c : Controller) (offset : Int) (phase : Fin 4) :
    (c.pull offset phase).current = c.current := rfl

theorem get_other_pull (c : Controller) (offset : Int) (phase : Fin 4) :
    (c.pull offset phase).drives.get (Drives.other c.current) = c.drives.get (Drives.other c.current) :=
  Drives.get_modify_of_ne _ _ (Drives.other_ne _).symm

/-- What an access to a phase does to the selected drive. -/
inductive Pulled (c c' : Controller) : Prop
  | rests (hphase : c'.selected.phase = c.selected.phase) (hhead : c'.selected.halfTrack = c.selected.halfTrack)
    (hevents : c'.events = c.events)
  | moves (hphase : c'.selected.phase ≠ c.selected.phase)
    (hhead : c'.selected.halfTrack.val = c.selected.halfTrack.val + 1 ∨
      c.selected.halfTrack.val = c'.selected.halfTrack.val + 1)
    (hevents : c'.events = c.events.push (.headMoved c.current c'.selected.halfTrack.val))
  | stops (hphase : c'.selected.phase ≠ c.selected.phase) (hhead : c'.selected.halfTrack = c.selected.halfTrack)
    (hend : c.selected.halfTrack.val = 0 ∨ c.selected.halfTrack.val = lastHalfTrack)
    (hevents : c'.events = c.events.push (.headAtStop c.current c'.selected.halfTrack.val))

end Controller

/-- The head moves by one half-track, as long as there is one in that direction. -/
theorem Drive.moveHead_cases {d : Drive} (dir : Direction) (h : d.halfTrack.val ≤ lastHalfTrack) :
    (0 < dir.room d.halfTrack.val ∧ (d.moveHead dir.offset).1 = .moved ∧
      (d.moveHead dir.offset).2.halfTrack.val = dir.ahead d.halfTrack.val 1) ∨
    (dir.room d.halfTrack.val = 0 ∧ (d.moveHead dir.offset).1 = .atStop ∧ d.halfTrack.val = dir.stop ∧
      (d.moveHead dir.offset).2.halfTrack = d.halfTrack) := by
  have hlast : lastHalfTrack = 68 := rfl
  unfold moveHead
  dsimp only
  cases dir with
  | outward =>
    simp only [Direction.room, Direction.offset, Direction.ahead, Direction.stop]
    by_cases hzero : d.halfTrack.val = 0
    · refine .inr ⟨hzero, if_neg (by omega), hzero, Fin.ext ?_⟩
      show min _ lastHalfTrack = _
      omega
    · refine .inl ⟨by omega, if_pos (by omega), ?_⟩
      show min _ lastHalfTrack = _
      omega
  | inward =>
    simp only [Direction.room, Direction.offset, Direction.ahead, Direction.stop]
    by_cases hend : d.halfTrack.val = lastHalfTrack
    · refine .inr ⟨by omega, if_neg (by omega), hend, Fin.ext ?_⟩
      show min _ lastHalfTrack = _
      omega
    · refine .inl ⟨by omega, if_pos (by omega), ?_⟩
      show min _ lastHalfTrack = _
      omega

theorem Direction.next_ne (dir : Direction) (p : Fin 4) : dir.next p ≠ p := by
  cases dir <;> revert p <;> decide

namespace Controller

theorem pull?_eq_some {phases : List Bool} {p q : Fin 4} {offset : Int} (h : pull? phases p = some (offset, q)) :
    ∃ dir : Direction, offset = dir.offset ∧ q = dir.next p := by
  unfold pull? at h
  dsimp only at h
  split at h
  · cases h
  · split at h
    · cases h
      exact ⟨.inward, rfl, rfl⟩
    · split at h
      · cases h
        exact ⟨.outward, rfl, rfl⟩
      · cases h

/-- The stepper stays, or the head is pulled in one of the two directions. -/
theorem stepPhases_cases (c : Controller) (phases : List Bool) :
    c.stepPhases phases = c ∨
      ∃ dir : Direction, c.stepPhases phases = c.pull dir.offset (dir.next c.selected.phase) := by
  cases hmotor : c.selected.motorRunning with
  | false => exact .inl (stepPhases_of_off hmotor phases)
  | true =>
    cases hpull : pull? phases c.selected.phase with
    | none => exact .inl (stepPhases_of_none hpull)
    | some pulled =>
      obtain ⟨offset, phase⟩ := pulled
      obtain ⟨dir, rfl, rfl⟩ := pull?_eq_some hpull
      exact .inr ⟨dir, stepPhases_of_some hmotor hpull⟩

theorem pulled_pull {c : Controller} (dir : Direction) (h : c.selected.halfTrack.val ≤ lastHalfTrack) :
    c.Pulled (c.pull dir.offset (dir.next c.selected.phase)) := by
  have hphase : (c.pull dir.offset (dir.next c.selected.phase)).selected.phase ≠ c.selected.phase := by
    rw [selected_pull]
    exact dir.next_ne _
  rcases Drive.moveHead_cases dir h with ⟨hroom, hmove, hhead⟩ | ⟨-, hmove, hstop, hhead⟩
  · refine .moves hphase ?_ ?_
    · rw [selected_pull]
      dsimp only
      rw [hhead]
      cases dir with
      | outward =>
        simp only [Direction.room, Direction.ahead] at hroom ⊢
        omega
      | inward => exact .inl rfl
    · rw [selected_pull]
      unfold pull emit
      dsimp only
      rw [hmove]
  · refine .stops hphase ?_ ?_ ?_
    · rw [selected_pull]
      exact hhead
    · cases dir with
      | outward => exact .inl hstop
      | inward => exact .inr hstop
    · rw [selected_pull]
      unfold pull emit
      dsimp only
      rw [hmove]

theorem pulled_stepPhases {c : Controller} (h : c.selected.halfTrack.val ≤ lastHalfTrack) (phases : List Bool) :
    c.Pulled (c.stepPhases phases) := by
  rcases c.stepPhases_cases phases with heq | ⟨dir, heq⟩
  · rw [heq]
    exact .rests rfl rfl rfl
  · rw [heq]
    exact pulled_pull dir h

theorem stepPhases_frame (c : Controller) (phases : List Bool) : (c.stepPhases phases).current = c.current ∧
    (c.stepPhases phases).drives.get (Drives.other c.current) = c.drives.get (Drives.other c.current) := by
  rcases c.stepPhases_cases phases with heq | ⟨dir, heq⟩
  · rw [heq]
    exact ⟨rfl, rfl⟩
  · rw [heq]
    exact ⟨rfl, c.get_other_pull _ _⟩

theorem halfTrack_stepPhases_le {c : Controller} (h : c.selected.halfTrack.val ≤ lastHalfTrack) (phases : List Bool) :
    (c.stepPhases phases).selected.halfTrack.val ≤ lastHalfTrack := by
  rcases c.stepPhases_cases phases with heq | ⟨dir, heq⟩
  · rwa [heq]
  · rw [heq, selected_pull]
    exact Nat.min_le_right _ _

end Controller

/-! ## Accesses -/

namespace Card

variable {s : Card}

/-- **One access** to a phase. -/
theorem pulled_turn (h : s.controller.selected.halfTrack.val ≤ lastHalfTrack) (a : PhaseAccess) :
    s.controller.Pulled (s.turn a).controller := by
  rw [turn_eq]
  exact Controller.pulled_stepPhases h _

theorem turns_frame (s : Card) (as : List PhaseAccess) :
    (s.turns as).controller.current = s.controller.current ∧
      (s.turns as).controller.drives.get (Drives.other s.controller.current) =
        s.controller.drives.get (Drives.other s.controller.current) := by
  induction as generalizing s with
  | nil => exact ⟨rfl, rfl⟩
  | cons a as ih =>
    obtain ⟨hcurrent, hother⟩ := s.controller.stepPhases_frame (s.switches.phases.set a.phase.val a.on)
    obtain ⟨hcurrent', hother'⟩ := ih (s.turn a)
    rw [turn_eq] at hcurrent' hother'
    dsimp only at hcurrent' hother'
    rw [hcurrent] at hcurrent' hother'
    show ((s.turn a).turns as).controller.current = _ ∧ ((s.turn a).turns as).controller.drives.get _ = _
    rw [turn_eq]
    exact ⟨hcurrent', hother'.trans hother⟩

theorem halfTrack_turns_le (h : s.controller.selected.halfTrack.val ≤ lastHalfTrack) (as : List PhaseAccess) :
    (s.turns as).controller.selected.halfTrack.val ≤ lastHalfTrack := by
  induction as generalizing s with
  | nil => exact h
  | cons a as ih =>
    refine ih (s := s.turn a) ?_
    rw [turn_eq]
    exact Controller.halfTrack_stepPhases_le h _

/-- The selected drive turns, its head is in its range and no phase is on: single steps go one after the other. -/
structure Ready (s : Card) : Prop where
  running : s.controller.selected.motorRunning = true
  off : s.switches.phases = phasesOff
  inRange : s.controller.selected.halfTrack.val ≤ lastHalfTrack

end Card

/-! ## Single steps -/

section Pulse

variable (dir : Direction) (p : Fin 4)

theorem pull?_next : Controller.pull? (phasesOff.set (dir.next p).val true) p = some (dir.offset, dir.next p) := by
  cases dir <;> revert p <;> decide

/-- A phase that is on holds the stepper. -/
theorem pull?_held :
    Controller.pull? ((phasesOff.set (dir.next p).val true).set p.val false) (dir.next p) = none := by
  cases dir <;> revert p <;> decide

theorem phasesOff_set_set : ((phasesOff.set (dir.next p).val true).set p.val false).set (dir.next p).val false =
    phasesOff := by
  cases dir <;> revert p <;> decide

theorem pull?_phasesOff : Controller.pull? phasesOff p = none := by
  revert p
  decide

/-- A step changes the phase by one, cyclically. -/
theorem Direction.val_next : ((dir.next p).val : Int) = (p.val + dir.offset) % 4 := by
  cases dir <;> revert p <;> decide

end Pulse

namespace Direction

variable {dir : Direction} {h : Nat}

theorem ahead_zero (dir : Direction) (h : Nat) : dir.ahead h 0 = h := by
  cases dir <;> rfl

theorem reports_zero (dir : Direction) (d : Fin 2) (h : Nat) : dir.reports d h 0 = [] := by
  simp [reports]

/-- A step after others: there is room for it as long as the others have left some. -/
theorem ahead_ahead (hrange : h ≤ lastHalfTrack) (n : Nat) :
    dir.ahead (dir.ahead h (min (dir.room h) n)) (min (dir.room (dir.ahead h (min (dir.room h) n))) 1) =
      dir.ahead h (min (dir.room h) (n + 1)) := by
  cases dir with
  | outward =>
    simp only [ahead, room]
    omega
  | inward =>
    simp only [ahead, room]
    omega

/-- One step more is reported once more. -/
theorem reports_succ (hrange : h ≤ lastHalfTrack) (d : Fin 2) (n : Nat) :
    dir.reports d h (n + 1) = dir.reports d h n ++ [dir.report d (dir.ahead h (min (dir.room h) n))] := by
  unfold reports report
  by_cases hroom : n < dir.room h
  · have hleft : dir.room (dir.ahead h n) ≠ 0 := by
      cases dir with
      | outward =>
        simp only [ahead, room] at hroom ⊢
        omega
      | inward =>
        simp only [ahead, room] at hroom ⊢
        omega
    have hahead : dir.ahead (dir.ahead h n) 1 = dir.ahead h (n + 1) := by
      cases dir <;> simp only [ahead] <;> omega
    rw [Nat.min_eq_right hroom, Nat.min_eq_right (Nat.le_of_lt hroom), if_neg hleft, hahead, Nat.sub_self,
      Nat.sub_self, List.range_succ, List.map_append]
    simp
  · have hnone : dir.room (dir.ahead h (dir.room h)) = 0 := by
      cases dir with
      | outward => exact Nat.sub_self h
      | inward =>
        simp only [ahead, room]
        omega
    rw [Nat.min_eq_left (by omega), Nat.min_eq_left (by omega), if_pos hnone, Nat.succ_sub (by omega),
      List.replicate_succ', List.append_assoc]

end Direction

namespace Card

variable {s : Card} {dir : Direction}

/-- The head is pulled in the first of the three accesses; in the others the stepper rests. -/
theorem controller_pulse (h : s.Ready) (t : Stamp × Stamp × Stamp) : (s.pulse dir t).controller =
    s.controller.pull dir.offset (dir.next s.controller.selected.phase) := by
  generalize hp : s.controller.selected.phase = p
  have hphase : (s.controller.pull dir.offset (dir.next p)).selected.phase = dir.next p := by
    rw [Controller.selected_pull]
  -- The next phase pulls; while it stays on it holds the stepper where it has come to, and then nothing pulls.
  have hfirst : s.controller.stepPhases (phasesOff.set (dir.next p).val true) =
      s.controller.pull dir.offset (dir.next p) :=
    Controller.stepPhases_of_some h.running (by rw [hp]; exact pull?_next dir p)
  have hsecond := Controller.stepPhases_of_none (c := s.controller.pull dir.offset (dir.next p))
    (by rw [hphase]; exact pull?_held dir p)
  have hthird := Controller.stepPhases_of_none (c := s.controller.pull dir.offset (dir.next p))
    (by rw [hphase]; exact pull?_phasesOff (dir.next p))
  unfold pulse
  simp only [turns, List.foldl_cons, List.foldl_nil, turn_eq, phases_set, h.off, hp]
  rw [hfirst, hsecond, phasesOff_set_set, hthird]

theorem phases_pulse (h : s.Ready) (t : Stamp × Stamp × Stamp) : (s.pulse dir t).switches.phases = phasesOff := by
  unfold pulse
  simp only [turns, List.foldl_cons, List.foldl_nil, turn_eq, phases_set, h.off]
  exact phasesOff_set_set dir _

theorem ready_pulse (h : s.Ready) (t : Stamp × Stamp × Stamp) : (s.pulse dir t).Ready where
  running := by
    rw [controller_pulse h, Controller.selected_pull]
    exact h.running
  off := phases_pulse h t
  inRange := by
    rw [controller_pulse h, Controller.selected_pull]
    exact Nat.min_le_right _ _

/-- A step moves the head, unless it is at its stop, and is reported once. -/
theorem head_pulse (h : s.Ready) (t : Stamp × Stamp × Stamp) :
    (s.pulse dir t).controller.selected.halfTrack.val =
      dir.ahead s.controller.selected.halfTrack.val (min (dir.room s.controller.selected.halfTrack.val) 1) ∧
    (s.pulse dir t).controller.events = s.controller.events.push
      (dir.report s.controller.current s.controller.selected.halfTrack.val) := by
  rw [controller_pulse h, Controller.selected_pull]
  unfold Controller.pull Controller.emit Direction.report
  dsimp only
  rcases Drive.moveHead_cases dir h.inRange with ⟨hroom, hmove, hhead⟩ | ⟨hroom, hmove, hstop, hhead⟩
  · rw [Nat.min_eq_right hroom, if_neg (by omega), hmove, hhead]
    exact ⟨rfl, rfl⟩
  · rw [hroom, Nat.zero_min, if_pos rfl, hmove, hhead, ← hstop, dir.ahead_zero]
    exact ⟨rfl, rfl⟩

/-- What `n` single steps in one direction have done. -/
structure Walked (dir : Direction) (s : Card) (n : Nat) (s' : Card) : Prop where
  ready : s'.Ready
  head : s'.controller.selected.halfTrack.val =
    dir.ahead s.controller.selected.halfTrack.val (min (dir.room s.controller.selected.halfTrack.val) n)
  phase : (s'.controller.selected.phase.val : Int) = (s.controller.selected.phase.val + dir.offset * n) % 4
  events : s'.controller.events.toList = s.controller.events.toList ++
    dir.reports s.controller.current s.controller.selected.halfTrack.val n
  current : s'.controller.current = s.controller.current

theorem walked_zero (h : s.Ready) : s.Walked dir 0 s where
  ready := h
  head := by rw [Nat.min_zero, dir.ahead_zero]
  phase := by omega
  events := by rw [dir.reports_zero, List.append_nil]
  current := rfl

/-- One step more. -/
theorem Walked.pulse {n : Nat} {s' : Card} (h : s.Walked dir n s')
    (hrange : s.controller.selected.halfTrack.val ≤ lastHalfTrack) (t : Stamp × Stamp × Stamp) :
    s.Walked dir (n + 1) (s'.pulse dir t) where
  ready := ready_pulse h.ready t
  head := by
    rw [(head_pulse h.ready t).1, h.head, dir.ahead_ahead hrange]
  phase := by
    rw [controller_pulse h.ready, Controller.selected_pull]
    show ((dir.next _).val : Int) = _
    have hphase := h.phase
    rw [dir.val_next]
    push_cast
    rw [Int.mul_add]
    omega
  events := by
    rw [(head_pulse h.ready t).2, Array.toList_push, h.events, h.current, h.head, List.append_assoc,
      dir.reports_succ hrange]
  current := by
    rw [controller_pulse h.ready, Controller.current_pull, h.current]

theorem walked_pulses (h : s.Ready) (ts : List (Stamp × Stamp × Stamp)) :
    s.Walked dir ts.length (s.pulses dir ts) := by
  -- The last step comes on top of the others, so that the reports are appended in their order.
  induction ts using List.reverseRecOn with
  | nil => exact walked_zero h
  | append_singleton ts t ih =>
    unfold pulses at ih ⊢
    rw [List.foldl_append, List.length_append]
    exact ih.pulse h.inRange t

/-- **The stepper** walks and clamps.  Single steps take the head to the end of its range and leave it there, while the
phase goes on; each is reported once.  Whatever the accesses to the phases are, one of them moves the head by one
half-track with a report, or stops it with a report, or does nothing; the other drive rests. -/
theorem stepper_walks (s : Card) (hrange : s.controller.selected.halfTrack.val ≤ lastHalfTrack) :
    (s.controller.selected.motorRunning = true → s.switches.phases = phasesOff →
      ∀ ts : List (Stamp × Stamp × Stamp),
        ((s.pulses .outward ts).controller.selected.halfTrack.val =
            s.controller.selected.halfTrack.val - ts.length ∧
          ((s.pulses .outward ts).controller.selected.phase.val : Int) =
            ((s.controller.selected.phase.val : Int) - ts.length) % 4 ∧
          (s.pulses .outward ts).controller.events.toList = s.controller.events.toList ++
            ((List.range (min s.controller.selected.halfTrack.val ts.length)).map (fun k =>
              .headMoved s.controller.current (s.controller.selected.halfTrack.val - (k + 1))) ++
            List.replicate (ts.length - min s.controller.selected.halfTrack.val ts.length)
              (.headAtStop s.controller.current 0))) ∧
        ((s.pulses .inward ts).controller.selected.halfTrack.val =
            min 68 (s.controller.selected.halfTrack.val + ts.length) ∧
          ((s.pulses .inward ts).controller.selected.phase.val : Int) =
            ((s.controller.selected.phase.val : Int) + ts.length) % 4 ∧
          (s.pulses .inward ts).controller.events.toList = s.controller.events.toList ++
            ((List.range (min (68 - s.controller.selected.halfTrack.val) ts.length)).map (fun k =>
              .headMoved s.controller.current (s.controller.selected.halfTrack.val + (k + 1))) ++
            List.replicate (ts.length - min (68 - s.controller.selected.halfTrack.val) ts.length)
              (.headAtStop s.controller.current 68)))) ∧
    ∀ (as : List PhaseAccess) (a : PhaseAccess),
      (s.turns as).controller.Pulled (s.turns (as ++ [a])).controller ∧
      (s.turns as).controller.selected.halfTrack.val ≤ 68 ∧
      (s.turns as).controller.current = s.controller.current ∧
      (s.turns as).controller.drives.get (Drives.other s.controller.current) =
        s.controller.drives.get (Drives.other s.controller.current) := by
  refine ⟨fun hrunning hoff ts => ?_, fun as a => ?_⟩
  · have hready : s.Ready := ⟨hrunning, hoff, hrange⟩
    have hout : s.Walked .outward ts.length (s.pulses .outward ts) := walked_pulses hready ts
    have hin : s.Walked .inward ts.length (s.pulses .inward ts) := walked_pulses hready ts
    refine ⟨⟨?_, ?_, hout.events⟩, ?_, ?_, hin.events⟩
    · rw [hout.head]
      simp only [Direction.ahead, Direction.room]
      omega
    · rw [hout.phase]
      simp only [Direction.offset]
      omega
    · have hlast : lastHalfTrack = 68 := rfl
      rw [hin.head]
      simp only [Direction.ahead, Direction.room]
      omega
    · rw [hin.phase]
      simp only [Direction.offset]
      omega
  · have hhead := halfTrack_turns_le hrange as
    have hturn : s.turns (as ++ [a]) = (s.turns as).turn a := List.foldl_append
    obtain ⟨hcurrent, hother⟩ := s.turns_frame as
    rw [hturn]
    exact ⟨pulled_turn hhead a, hhead, hcurrent, hother⟩

/-- Four steps outward from half-track 2: two of them move the head, and two meet the stop. -/
theorem stepper_walks_fromTwo :
    let drive : Drive := { motorRunning := true, halfTrack := ⟨2, by decide⟩, phase := 1 }
    let s : Card := ⟨{ drives := ⟨.empty, drive⟩, current := driveTwo }, ⟨Vector.replicate _ false⟩⟩
    let steps := List.replicate 4 ((⟨none, 0⟩, ⟨none, 0⟩, ⟨none, 0⟩) : Stamp × Stamp × Stamp)
    s.controller.selected.halfTrack.val ≤ lastHalfTrack ∧ s.controller.selected.motorRunning = true ∧
      s.switches.phases = phasesOff ∧
      (s.pulses .outward steps).controller.selected.halfTrack.val = 0 ∧
      ((s.pulses .outward steps).controller.selected.phase.val : Int) = (1 - 4) % 4 ∧
      (s.pulses .outward steps).controller.events.toList =
        [.headMoved driveTwo 1, .headMoved driveTwo 0, .headAtStop driveTwo 0, .headAtStop driveTwo 0] := by
  intro drive s steps
  have hrange : s.controller.selected.halfTrack.val ≤ lastHalfTrack := by decide
  have hrunning : s.controller.selected.motorRunning = true := rfl
  have hoff : s.switches.phases = phasesOff := by decide
  obtain ⟨⟨hhead, hphase, hevents⟩, -⟩ := (stepper_walks s hrange).1 hrunning hoff steps
  exact ⟨hrange, hrunning, hoff, hhead, hphase, hevents⟩

end Card

end AppleII.Disk
