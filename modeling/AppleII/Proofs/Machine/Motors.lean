import AppleII.Proofs.Byte
import AppleII.Proofs.Disk.Motors
import AppleII.Proofs.Machine.Session
import AppleII.Proofs.Switch.Touch

/-!
# The motors of a machine

The two addresses that turn the soft switch of the motor are those of the two registers that start and stop it
(`Board.isSet_motor_accessIoPage`), so that the switch and the motors cannot part ways in a session
(`motors_follow_switch`).
-/

namespace AppleII

open Disk (Controller)

/-- What an access by a route makes of the soft switch of the motor. -/
def Route.motorSwitch? : Route → Option Bool
  | .slot 6 reg => Controller.motorSwitch? reg
  | _ => none

theorem Route.motorSwitch?_of_ne {route : Route} (h : ∀ reg, route ≠ .slot 6 reg) : route.motorSwitch? = none := by
  unfold motorSwitch?
  split
  · next reg => exact absurd rfl (h reg)
  · rfl

theorem Switch.turned?_motor (low : UInt8) : motor.turned? low = (Route.ofLow low).motorSwitch? :=
  forall_byte (P := fun low => motor.turned? low = (Route.ofLow low).motorSwitch?) (by decide +kernel) low

namespace Board

/-- The motors of the board follow the soft switch. -/
def Motors (b : Board) : Prop := b.disk.MotorLaw (b.memory.switches.isSet .motor)

/-- The drive that is not selected stands still. -/
def Idle (b : Board) : Prop := b.disk.Idle

/-- The soft switch of the motor is turned by the accesses to two registers of the disk card. -/
theorem isSet_motor_accessIoPage (b : Board) (address : UInt16) (value : Option UInt8) :
    (b.accessIoPage address value).2.memory.switches.isSet .motor =
      (Route.ofAddress address).motorSwitch?.getD (b.memory.switches.isSet .motor) := by
  rw [isSet_accessIoPage rfl rfl, Switch.turned?_motor, Route.ofAddress_eq]

theorem Motors.access {b : Board} (h : b.Motors) (address : UInt16) (value : Option UInt8) :
    (b.accessIoPage address value).2.Motors := by
  unfold Motors
  rw [isSet_motor_accessIoPage]
  rcases b.accessIoPage_cases address value with ⟨reg, hroute, heq⟩ | ⟨hroute, heq⟩
  · rw [heq, hroute]
    exact Controller.MotorLaw.access h reg value b.clock _
  · rw [heq, Route.motorSwitch?_of_ne hroute]
    exact h

theorem Idle.access {b : Board} (h : b.Idle) (address : UInt16) (value : Option UInt8) :
    (b.accessIoPage address value).2.Idle := by
  unfold accessIoPage
  dsimp only
  split
  · exact Controller.Idle.access h _ value b.clock _
  · show b.disk.Idle
    exact h

theorem SameDisks.sameMotors {b b' : Board} (h : b.SameDisks b') : b.disk.SameMotors b'.disk := by
  refine ⟨fun i => ?_, h.current, h.motorOffAt⟩
  unfold Controller.runs
  rw [h.drives]

/-- The law of the motors is kept.  During a reset, while the switches are off already and the motor still runs,
it is only known that the other drive stands still. -/
theorem invariant_motors : Invariant (fun _ _ => True) Idle Motors where
  congr := by
    intro b b' hsame hb
    unfold Motors
    rw [hsame.switches]
    exact Controller.MotorLaw.congr hb hsame.sameMotors
  access := fun address value hb => hb.access address value
  advance := fun _ hb => Controller.MotorLaw.update hb _
  insert := fun _ hinsert hb => Controller.MotorLaw.congr hb (Controller.sameMotors_insert hinsert)
  eject := fun heject hb => Controller.MotorLaw.congr hb (Controller.sameMotors_eject heject)
  save := fun drive hb => Controller.MotorLaw.congr hb (Controller.worked_save _ drive).sameMotors
  interrupt := fun _ _ hb => Controller.MotorLaw.idle hb
  keeps := keeps_bus (fun address value hb => hb.access address value) fun _ _ hb => hb
  reset := fun hb => Controller.Idle.reset hb _

end Board

/-- **The motors follow the soft switch.** Whatever is done in a session with a new machine, the drive that is
not selected stands still, so that two motors never run at once; while the soft switch is on, the motor of the
selected drive runs and no time is set to stop it; and a motor that runs while the switch is off is to stop. -/
theorem motors_follow_switch (model : Processor.Model) (actions : List Session.Action) :
    let m := (Session.run model actions).machine
    (m.disk.runs (Disk.Drives.other m.disk.current) = false ∧ ¬(m.disk.runs 0 = true ∧ m.disk.runs 1 = true)) ∧
      (m.switches.isSet .motor = true → m.disk.runs m.disk.current = true ∧ m.disk.motorOffAt = none) ∧
      (m.disk.runs m.disk.current = true → m.switches.isSet .motor = false →
        ∃ cycle, m.disk.motorOffAt = some cycle) := by
  intro m
  have hnew : (Machine.ofModel model).board.Motors := by
    refine ⟨rfl, fun hon => ?_, fun _ hon => ?_⟩
    · cases hon
    · cases hon
  have hlaw : m.disk.MotorLaw (m.switches.isSet .motor) :=
    Session.invariant Board.invariant_motors hnew fun a _ => a.fits_of_forall fun _ _ => trivial
  exact ⟨⟨hlaw.idle, hlaw.idle.not_both⟩, hlaw.on, fun hruns hoff => hlaw.due hoff hruns⟩

end AppleII
