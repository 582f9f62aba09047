import AppleII.Proofs.Disk.Motors

/-!
# When a motor stops

A motor stops `motorOffDelay` cycles after the first access that asks for it since the motor was started.  What it is
to do comes from the history of these accesses (`MotorCall.plan`), and the controller obeys: `Controller.Obeys` is kept
by every access to a register (`Obeys.access`) and by the time (`Obeys.update`), whichever drive is selected.  When the
clock wraps around, nothing more is known of a motor that is to stop (`Obeys.wrap`).  A time to stop that wraps around
has come already (`runs_update_requestStop`).
-/

namespace AppleII.Disk

/-- What a motor is started or stopped by. -/
inductive MotorCall where
  | start
  /-- The motor is to stop, at a cycle. -/
  | stop (cycle : Nat)
  /-- A boot or a reset. -/
  | reset
  /-- The drives are given the state that was saved of others. -/
  | restore
  /-- The clock wraps around. -/
  | wrap
  deriving DecidableEq, Repr

/-- What the motor of the selected drive is to do. -/
inductive MotorPlan where
  | unknown
  | run
  /-- It stops when the delay is over, from this cycle on. -/
  | stop (cycle : Nat)

namespace MotorCall

/-- The call of an access that turns the soft switch of the motor. -/
def ofSwitch (cycle : Nat) : Bool → MotorCall
  | true => start
  | false => stop cycle

/-- What a history of calls comes to, as far as counts tell.  The last call comes first in a history. -/
def plan : List MotorCall → MotorPlan
  | [] => .unknown
  | .start :: _ => .run
  | .stop cycle :: before =>
    match plan before with
    | .run => if cycle + motorOffDelay < Count.size then .stop cycle else .unknown
    | p => p
  | .wrap :: before =>
    match plan before with
    | .run => .run
    | _ => .unknown
  | .reset :: _ | .restore :: _ => .unknown

variable {after mid before : List MotorCall}

/-- As long as nothing but starts follows, and time, a motor that was started is to run. -/
theorem plan_of_start (hstop : ∀ cycle, .stop cycle ∉ after) (hreset : .reset ∉ after) (hrestore : .restore ∉ after) :
    plan (after ++ .start :: before) = .run := by
  induction after with
  | nil => rfl
  | cons call after ih =>
    have hrest := ih (fun cycle h => hstop cycle (List.mem_cons_of_mem _ h))
      (fun h => hreset (List.mem_cons_of_mem _ h)) fun h => hrestore (List.mem_cons_of_mem _ h)
    cases call with
    | start => rfl
    | stop cycle => exact absurd List.mem_cons_self (hstop cycle)
    | reset => exact absurd List.mem_cons_self hreset
    | restore => exact absurd List.mem_cons_self hrestore
    | wrap => rw [List.cons_append, plan, hrest]

/-- The first call to stop counts. -/
theorem plan_of_stop {cycle : Nat} (hstart : .start ∉ after) (hreset : .reset ∉ after) (hrestore : .restore ∉ after)
    (hwrap : .wrap ∉ after) (hfits : cycle + motorOffDelay < Count.size) (hplan : plan before = .run) :
    plan (after ++ .stop cycle :: before) = .stop cycle := by
  induction after with
  | nil =>
    rw [List.nil_append, plan, hplan]
    exact if_pos hfits
  | cons call after ih =>
    have hrest := ih (fun h => hstart (List.mem_cons_of_mem _ h)) (fun h => hreset (List.mem_cons_of_mem _ h))
      (fun h => hrestore (List.mem_cons_of_mem _ h)) fun h => hwrap (List.mem_cons_of_mem _ h)
    cases call with
    | start => exact absurd List.mem_cons_self hstart
    | stop later => rw [List.cons_append, plan, hrest]
    | reset => exact absurd List.mem_cons_self hreset
    | restore => exact absurd List.mem_cons_self hrestore
    | wrap => exact absurd List.mem_cons_self hwrap

end MotorCall

open MotorCall (plan)

namespace Controller

open Drives (other)

variable {c c' : Controller} {wanted : Bool} {clock : Nat} {p : MotorPlan} {calls : List MotorCall}

/-- The motor of the selected drive does what it is to do; the other one stands still. -/
structure Obeys (c : Controller) (wanted : Bool) (clock : Nat) (p : MotorPlan) : Prop where
  idle : c.Idle
  run : p = .run → wanted = true ∧ c.runs c.current = true ∧ c.motorOffAt = none
  stop : ∀ {cycle}, p = .stop cycle → wanted = false ∧
    (c.runs c.current = true ↔ clock < cycle + motorOffDelay) ∧
      (clock < cycle + motorOffDelay → c.motorOffAt = some (cycle + motorOffDelay))

theorem Idle.obeys (h : c.Idle) : c.Obeys wanted clock .unknown := ⟨h, nofun, nofun⟩

theorem Obeys.congr (h : c.Obeys wanted clock p) (hsame : c.SameMotors c') : c'.Obeys wanted clock p := by
  refine ⟨h.idle.congr hsame, fun hp => ?_, fun hp => ?_⟩
  · rw [hsame.runs, hsame.current, hsame.motorOffAt]
    exact h.run hp
  · rw [hsame.runs, hsame.current, hsame.motorOffAt]
    exact h.stop hp

/-! ## Accesses -/

theorem Obeys.startMotor (h : c.Obeys wanted clock p) : c.startMotor.Obeys true clock .run := by
  refine ⟨h.idle.startMotor, fun _ => ⟨rfl, ?_, c.startMotor_frame.2⟩, nofun⟩
  rw [c.startMotor_frame.1, runs_startMotor, if_pos rfl]

theorem motorOffAt_requestStop (c : Controller) (cycle : Nat) :
    (c.requestStop cycle).motorOffAt = some (c.motorOffAt.getD (Count.add cycle motorOffDelay)) := rfl

/-- The time to stop is that of the first access that asks for it; another one leaves it as it is. -/
theorem Obeys.requestStop (h : c.Obeys wanted clock (plan calls)) :
    (c.requestStop clock).Obeys false clock (plan (.stop clock :: calls)) := by
  have hdelay : 0 < motorOffDelay := by decide
  unfold plan
  cases hp : plan calls with
  | unknown => exact ⟨h.idle, nofun, nofun⟩
  | run =>
    obtain ⟨-, hruns, hnone⟩ := h.run hp
    dsimp only
    split
    · next hfits =>
      refine ⟨h.idle, nofun, fun heq => ?_⟩
      cases heq
      refine ⟨rfl, iff_of_true hruns (Nat.lt_add_of_pos_right hdelay), fun _ => ?_⟩
      rw [motorOffAt_requestStop, hnone, Option.getD_none, Count.add_of_lt hfits]
    · exact ⟨h.idle, nofun, nofun⟩
  | stop first =>
    obtain ⟨-, hruns, hdue⟩ := h.stop hp
    refine ⟨h.idle, nofun, fun heq => ?_⟩
    cases heq
    refine ⟨rfl, hruns, fun hclock => ?_⟩
    rw [motorOffAt_requestStop, hdue hclock, Option.getD_some]

/-- The motor and the time to stop it go over to the selected drive. -/
theorem Obeys.select (h : c.Obeys wanted clock p) (d : Fin 2) : (c.select d).Obeys wanted clock p := by
  obtain ⟨hcurrent, hstop⟩ := c.select_frame d
  refine ⟨c.idle_select d, fun hp => ?_, fun hp => ?_⟩
  · rw [hcurrent, h.idle.runs_select_self, hstop]
    exact h.run hp
  · rw [hcurrent, h.idle.runs_select_self, hstop]
    exact h.stop hp

/-- **An access** is obeyed, when the soft switch is turned as the register asks. -/
theorem Obeys.access (h : c.Obeys wanted clock (plan calls)) (reg : UInt8) (value : Option UInt8) (sw : Switches) :
    (c.access reg value clock sw).2.Obeys ((motorSwitch? reg).getD wanted) clock
      (plan (((motorSwitch? reg).map (MotorCall.ofSwitch clock)).toList ++ calls)) := by
  have hcases := c.access_cases reg value clock sw
  generalize (c.access reg value clock sw).2 = c' at hcases ⊢
  unfold motorSwitch?
  cases hcases with
  | requestStop hreg =>
    rw [if_pos hreg]
    exact h.requestStop
  | startMotor hreg =>
    rw [hreg]
    exact h.startMotor
  | select hreg d =>
    rw [if_neg hreg.1, if_neg hreg.2]
    exact h.select d
  | worked hreg hworked =>
    rw [if_neg hreg.1, if_neg hreg.2]
    exact h.congr hworked.sameMotors

/-! ## Time -/

/-- A motor that stands still is not started by the time. -/
theorem runs_update_of_off {sw : Switches} (hoff : sw.isSet .motor = false) (h : c.runs c.current = false)
    (cycle : Nat) : (c.update cycle sw).runs (c.update cycle sw).current = false := by
  unfold update motorTimeout
  split
  · split
    · rw [hoff, if_neg Bool.false_ne_true, (setMotor_frame _ _ _).1, runs_setMotor, if_pos rfl]
    · exact h
  · exact h

/-- At a time to stop that wraps around the motor has no delay at all. -/
theorem runs_update_requestStop {sw : Switches} (hoff : sw.isSet .motor = false) (hnone : c.motorOffAt = none)
    (hclock : clock < Count.size) (hwraps : Count.size ≤ clock + motorOffDelay) {later : Nat} (hlater : clock ≤ later) :
    ((c.requestStop clock).update later sw).runs c.current = false := by
  have hdue : (c.requestStop clock).motorOffAt = some (clock + motorOffDelay - Count.size) := by
    rw [motorOffAt_requestStop, hnone, Option.getD_none, Count.add_of_le hclock (by decide) hwraps]
  have hdelay : motorOffDelay < Count.size := by decide
  unfold Controller.update motorTimeout
  rw [hdue]
  dsimp only
  rw [if_pos (by omega), hoff, if_neg Bool.false_ne_true, runs_setMotor]
  exact if_pos rfl

/-- The time leaves the selection and the other drive alone. -/
theorem update_frame (c : Controller) (cycle : Nat) (sw : Switches) : (c.update cycle sw).current = c.current ∧
    (c.update cycle sw).runs (other c.current) = c.runs (other c.current) := by
  unfold update motorTimeout
  split
  · split
    · split
      · exact ⟨rfl, rfl⟩
      · refine ⟨(setMotor_frame _ _ _).1, ?_⟩
        rw [runs_setMotor, if_neg (Drives.other_ne _)]
        rfl
    · exact ⟨rfl, rfl⟩
  · exact ⟨rfl, rfl⟩

theorem Idle.update (h : c.Idle) (cycle : Nat) (sw : Switches) : (c.update cycle sw).Idle := by
  obtain ⟨hcurrent, hother⟩ := c.update_frame cycle sw
  unfold Idle at h ⊢
  rw [hcurrent, hother, h]

/-- The time does not stop a motor that is to run. -/
theorem Obeys.update_run {sw : Switches} (h : c.Obeys (sw.isSet .motor) clock .run) (later : Nat) :
    (c.update later sw).Obeys (sw.isSet .motor) later .run := by
  obtain ⟨hwanted, hruns, hnone⟩ := h.run rfl
  have hsame : c.update later sw = c := by
    unfold Controller.update
    rw [hnone]
  rw [hsame]
  exact ⟨h.idle, fun _ => ⟨hwanted, hruns, hnone⟩, nofun⟩

/-- **The time** stops the motor when the delay is over. -/
theorem Obeys.update {sw : Switches} (h : c.Obeys (sw.isSet .motor) clock p) {later : Nat} (hlater : clock ≤ later) :
    (c.update later sw).Obeys (sw.isSet .motor) later p := by
  refine ⟨h.idle.update later sw, fun hp => ?_, fun {cycle} hp => ?_⟩
  · subst hp
    exact (h.update_run later).run rfl
  · obtain ⟨hwanted, hruns, hdue⟩ := h.stop hp
    refine ⟨hwanted, ?_⟩
    by_cases hclock : clock < cycle + motorOffDelay
    · by_cases hover : later < cycle + motorOffDelay
      · have hsame : c.update later sw = c := by
          unfold Controller.update
          rw [hdue hclock]
          exact if_neg (Nat.not_le.mpr hover)
        rw [hsame]
        exact ⟨iff_of_true (hruns.mpr hclock) hover, fun _ => hdue hclock⟩
      · have hstopped : c.update later sw = { c with motorOffAt := none }.setMotor c.current false := by
          unfold Controller.update motorTimeout
          rw [hdue hclock]
          dsimp only
          rw [if_pos (Nat.not_lt.mp hover), hwanted, if_neg Bool.false_ne_true]
        refine ⟨iff_of_false ?_ hover, fun hlt => absurd hlt hover⟩
        rw [hstopped, (setMotor_frame _ _ _).1, runs_setMotor, if_pos rfl]
        exact Bool.false_ne_true
    · -- The motor has stopped before.  A stop that was asked for since then finds it standing.
      have hover : ¬later < cycle + motorOffDelay := fun hlt => hclock (Nat.lt_of_le_of_lt hlater hlt)
      have hoff : c.runs c.current = false := Bool.eq_false_iff.mpr fun hon => hclock (hruns.mp hon)
      refine ⟨iff_of_false ?_ hover, fun hlt => absurd hlt hover⟩
      rw [runs_update_of_off hwanted hoff]
      exact Bool.false_ne_true

/-- When the clock wraps around, only a motor that is to run goes on as before. -/
theorem Obeys.wrap {sw : Switches} (h : c.Obeys (sw.isSet .motor) clock (plan calls)) (later : Nat) :
    (c.update later sw).Obeys (sw.isSet .motor) later (plan (.wrap :: calls)) := by
  unfold plan
  cases hp : plan calls with
  | run => exact (hp ▸ h).update_run later
  | unknown | stop => exact (h.idle.update later sw).obeys

end Controller

end AppleII.Disk
