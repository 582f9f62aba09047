import AppleII.Proofs.Disk.Handling

/-!
# The motors of a controller

A motor runs while it is wanted, and for about a second longer.  `Controller.MotorLaw` is what the soft switch,
the selection, the timer and the motors have to do with one another.  Every access to a register keeps it, when
the soft switch was turned as the register asks (`MotorLaw.access`), and so do the time, a reset and the change
of a disk.
-/

namespace AppleII.Disk

namespace Controller

open Drives (other)

variable {c c' : Controller} {wanted : Bool}

/-- Whether the motor of a drive runs. -/
def runs (c : Controller) (i : Fin 2) : Bool := (c.drives.get i).motorRunning

/-- The drive that is not selected stands still. -/
def Idle (c : Controller) : Prop := c.runs (other c.current) = false

/-- How the motors follow the soft switch. -/
structure MotorLaw (c : Controller) (wanted : Bool) : Prop where
  idle : c.Idle
  /-- A wanted motor runs, and is not to stop. -/
  on : wanted = true → c.runs c.current = true ∧ c.motorOffAt = none
  /-- A motor that runs on is to stop. -/
  due : wanted = false → c.runs c.current = true → ∃ cycle, c.motorOffAt = some cycle

/-- Two motors never run at once. -/
theorem Idle.not_both (h : c.Idle) : ¬(c.runs 0 = true ∧ c.runs 1 = true) := by
  rintro ⟨hfirst, hsecond⟩
  unfold Idle at h
  rcases Drives.eq_or_eq_other 0 c.current with h0 | h0
  · have hother : other c.current = 1 := by
      rw [← h0]
      decide
    rw [hother, hsecond] at h
    cases h
  · rw [← h0, hfirst] at h
    cases h

/-- The motors, the selection and the timer of two controllers are the same. -/
structure SameMotors (c c' : Controller) : Prop where
  runs : ∀ i, c'.runs i = c.runs i
  current : c'.current = c.current
  motorOffAt : c'.motorOffAt = c.motorOffAt

theorem Idle.congr (h : c.Idle) (hsame : c.SameMotors c') : c'.Idle := by
  unfold Idle at h ⊢
  rw [hsame.runs, hsame.current, h]

theorem MotorLaw.congr (h : c.MotorLaw wanted) (hsame : c.SameMotors c') : c'.MotorLaw wanted := by
  obtain ⟨hidle, hon, hdue⟩ := h
  refine ⟨hidle.congr hsame, ?_, ?_⟩
  · rwa [hsame.runs, hsame.current, hsame.motorOffAt]
  · rwa [hsame.runs, hsame.current, hsame.motorOffAt]

theorem Worked.runs (h : c.Worked c') (i : Fin 2) : c'.runs i = c.runs i := (h.drives i).motorRunning

theorem Worked.sameMotors (h : c.Worked c') : c.SameMotors c' := ⟨h.runs, h.current, h.motorOffAt⟩

/-! ## Switching a motor -/

theorem runs_setMotor (c : Controller) (i j : Fin 2) (on : Bool) :
    (c.setMotor i on).runs j = if j = i then on else c.runs j := by
  unfold setMotor
  split
  · next heq =>
    split
    · next hij =>
      rw [hij]
      exact eq_of_beq heq
    · rfl
  · show ((c.drives.modify i fun u => { u with motorRunning := on }).get j).motorRunning = _
    split
    · next hij => rw [hij, Drives.get_modify_self]
    · next hij =>
      rw [Drives.get_modify_of_ne _ _ (Ne.symm hij)]
      rfl

theorem setMotor_frame (c : Controller) (i : Fin 2) (on : Bool) :
    (c.setMotor i on).current = c.current ∧ (c.setMotor i on).motorOffAt = c.motorOffAt := by
  unfold setMotor
  split <;> exact ⟨rfl, rfl⟩

theorem startMotor_frame (c : Controller) :
    c.startMotor.current = c.current ∧ c.startMotor.motorOffAt = none :=
  setMotor_frame { c with motorOffAt := none } c.current true

theorem runs_startMotor (c : Controller) (j : Fin 2) :
    c.startMotor.runs j = if j = c.current then true else c.runs j :=
  runs_setMotor { c with motorOffAt := none } c.current j true

/-- A selection switches the motors first. -/
theorem select_cases (c : Controller) (d : Fin 2) : ∃ log, c.select d =
    { (if c.runs (other d) = true then (c.setMotor (other d) false).setMotor d true else c) with
      current := d
      log } := by
  unfold select runs
  dsimp only
  generalize (if (c.drives.get (other d)).motorRunning = true then _ else c : Controller) = switched
  split
  · exact ⟨switched.log, rfl⟩
  · exact ⟨_, rfl⟩

theorem select_frame (c : Controller) (d : Fin 2) :
    (c.select d).current = d ∧ (c.select d).motorOffAt = c.motorOffAt := by
  obtain ⟨log, heq⟩ := c.select_cases d
  rw [heq]
  refine ⟨rfl, ?_⟩
  dsimp only
  split
  · rw [(setMotor_frame _ _ _).2, (setMotor_frame _ _ _).2]
  · rfl

/-- The motor goes over to the selected drive. -/
theorem runs_select (c : Controller) (d j : Fin 2) :
    (c.select d).runs j = if c.runs (other d) = true then decide (j = d) else c.runs j := by
  obtain ⟨log, heq⟩ := c.select_cases d
  rw [heq]
  show (if c.runs (other d) = true then (c.setMotor (other d) false).setMotor d true else c).runs j = _
  by_cases hother : c.runs (other d) = true
  · rw [if_pos hother, if_pos hother, runs_setMotor, runs_setMotor]
    rcases Drives.eq_or_eq_other j d with rfl | rfl
    · simp
    · simp [Drives.other_ne]
  · rw [if_neg hother, if_neg hother]

/-! ## The idle drive -/

/-- A selection stops the motor of the drive that is not selected by it. -/
theorem idle_select (c : Controller) (d : Fin 2) : (c.select d).Idle := by
  unfold Idle
  rw [(c.select_frame d).1, runs_select]
  split
  · simp [Drives.other_ne]
  · next hoff => exact Bool.eq_false_iff.mpr hoff

/-- The motor of the selected drive runs after a selection if that of the one selected before did. -/
theorem Idle.runs_select_self (h : c.Idle) (d : Fin 2) : (c.select d).runs d = c.runs c.current := by
  unfold Idle at h
  rw [runs_select]
  rcases Drives.eq_or_eq_other d c.current with rfl | rfl
  · rw [h]
    rfl
  · rw [Drives.other_other, h]
    cases c.runs c.current <;> simp

theorem Idle.startMotor (h : c.Idle) : c.startMotor.Idle := by
  unfold Idle at h ⊢
  rw [c.startMotor_frame.1, runs_startMotor, if_neg (Drives.other_ne _), h]

/-- Every access leaves the drive that is not selected at a standstill. -/
theorem Idle.access (h : c.Idle) (reg : UInt8) (value : Option UInt8) (cycle : Nat) (sw : Switches) :
    (c.access reg value cycle sw).2.Idle := by
  have hcases := c.access_cases reg value cycle sw
  generalize (c.access reg value cycle sw).2 = c' at hcases ⊢
  cases hcases with
  | requestStop => exact h
  | startMotor => exact h.startMotor
  | select _ d => exact c.idle_select d
  | worked _ hworked => exact h.congr hworked.sameMotors

/-! ## Accesses -/

theorem MotorLaw.requestStop (h : c.MotorLaw wanted) (cycle : Nat) : (c.requestStop cycle).MotorLaw false :=
  ⟨h.idle, nofun, fun _ _ => ⟨_, rfl⟩⟩

theorem MotorLaw.startMotor (h : c.MotorLaw wanted) : c.startMotor.MotorLaw true := by
  refine ⟨h.idle.startMotor, fun _ => ⟨?_, c.startMotor_frame.2⟩, nofun⟩
  rw [c.startMotor_frame.1, runs_startMotor, if_pos rfl]

theorem MotorLaw.select (h : c.MotorLaw wanted) (d : Fin 2) : (c.select d).MotorLaw wanted := by
  obtain ⟨hidle, hon, hdue⟩ := h
  obtain ⟨hcurrent, hstop⟩ := c.select_frame d
  refine ⟨c.idle_select d, ?_, ?_⟩
  · rwa [hcurrent, hidle.runs_select_self, hstop]
  · rwa [hcurrent, hidle.runs_select_self, hstop]

/-- What an access to a register makes of the soft switch of the motor. -/
def motorSwitch? (reg : UInt8) : Option Bool :=
  if reg &&& 0x0F = 0x8 then some false else if reg &&& 0x0F = 0x9 then some true else none

/-- **An access** keeps the law, when the soft switch is turned as the register asks. -/
theorem MotorLaw.access (h : c.MotorLaw wanted) (reg : UInt8) (value : Option UInt8) (cycle : Nat)
    (sw : Switches) : (c.access reg value cycle sw).2.MotorLaw ((motorSwitch? reg).getD wanted) := by
  have hcases := c.access_cases reg value cycle sw
  generalize (c.access reg value cycle sw).2 = c' at hcases ⊢
  unfold motorSwitch?
  cases hcases with
  | requestStop hreg =>
    rw [if_pos hreg]
    exact h.requestStop cycle
  | startMotor hreg =>
    rw [hreg]
    exact h.startMotor
  | select hreg d =>
    rw [if_neg hreg.1, if_neg hreg.2]
    exact h.select d
  | worked hreg hworked =>
    rw [if_neg hreg.1, if_neg hreg.2]
    exact h.congr hworked.sameMotors

/-! ## Time -/

/-- The law holds when the motor of the selected drive was stopped. -/
theorem Idle.stopped (h : c.Idle) : ({ c with motorOffAt := none }.setMotor c.current false).MotorLaw false := by
  obtain ⟨hcurrent, -⟩ := setMotor_frame { c with motorOffAt := none } c.current false
  have hruns (j : Fin 2) := runs_setMotor { c with motorOffAt := none } c.current j false
  refine ⟨?_, nofun, fun _ hon => ?_⟩
  · unfold Idle
    rw [hcurrent, hruns, if_neg (Drives.other_ne _)]
    exact h
  · rw [hcurrent, hruns, if_pos rfl] at hon
    cases hon

theorem MotorLaw.update {sw : Switches} (h : c.MotorLaw (sw.isSet .motor)) (cycle : Nat) :
    (c.update cycle sw).MotorLaw (sw.isSet .motor) := by
  unfold Controller.update
  split
  · next stop hstop =>
    split
    · -- A motor that is to stop is not wanted.
      have hoff : sw.isSet .motor = false := by
        cases hon : sw.isSet .motor with
        | false => rfl
        | true =>
          rw [(h.on hon).2] at hstop
          cases hstop
      have hstopped := h.idle.stopped
      unfold motorTimeout
      rw [hoff]
      exact hstopped
    · exact h
  · exact h

/-- **A reset** brings the law about, whatever the soft switch was. -/
theorem Idle.reset (h : c.Idle) (sw : Switches) :
    (c.reset sw).1.MotorLaw ((c.reset sw).2.isSet .motor) := by
  have hoff : (sw.set .motor false).isSet .motor = false := Switches.isSet_set_self _ _ _
  have hstopped := h.stopped
  unfold Controller.reset motorTimeout
  dsimp only
  rw [hoff]
  simp only [Bool.false_eq_true, if_false]
  generalize { c with motorOffAt := none }.setMotor c.current false = stopped at hstopped ⊢
  refine hstopped.congr ⟨fun i => ?_, rfl, rfl⟩
  unfold runs Drives.get
  split <;> rfl

/-! ## Disks -/

/-- A drive is given another disk or none, and its motor is left alone. -/
theorem sameMotors_modify (c : Controller) (i : Fin 2) {f : Drive → Drive}
    (hf : ∀ d, (f d).motorRunning = d.motorRunning) (e : DriveEvent) :
    c.SameMotors ({ c with drives := c.drives.modify i f }.emit e) :=
  ⟨get_modify_of (R := fun d d' => d'.motorRunning = d.motorRunning) (fun _ => rfl) c.drives i (hf _), rfl, rfl⟩

theorem sameMotors_insert {drive : Nat} {fileName : String} {bytes : Array UInt8} {w : Option Warning}
    (hinsert : c.insert drive fileName bytes = .ok (w, c')) : c.SameMotors c' := by
  obtain ⟨i, disk, -, -, -, rfl⟩ := insert_eq_ok_iff.mp hinsert
  exact c.sameMotors_modify i (f := fun u => u.load disk) (fun _ => rfl) _

theorem sameMotors_eject {drive : Nat} (heject : c.eject drive = .ok c') : c.SameMotors c' := by
  rcases eject_cases heject with rfl | ⟨i, -, rfl⟩
  · exact ⟨fun _ => rfl, rfl, rfl⟩
  · exact c.sameMotors_modify i (f := Drive.clear) (fun _ => rfl) _

end Controller

end AppleII.Disk
