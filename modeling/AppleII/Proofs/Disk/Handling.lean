import AppleII.Disk.Controller
import AppleII.Proofs.Except
import Mathlib.Logic.Relation

/-!
# What a controller does to its drives

Whatever a controller is asked to do, short of putting a disk into a drive or taking it out, a drive goes
through small steps only: a bit goes by under the head or is written, the head moves, a flag changes, or the
checksum of the container is computed anew (`Drive.Step`).  Four registers switch motors or drives, and the
others leave the motors alone (`Controller.access_cases`).  A property of a drive that every step keeps is kept
by every access, by the time and by a reset (`Drive.Handled`).
-/

namespace AppleII.Disk

namespace Drives

@[simp] theorem other_other (i : Fin 2) : other (other i) = i := by
  revert i
  decide

theorem other_ne (i : Fin 2) : other i ≠ i := by
  revert i
  decide

theorem eq_or_eq_other (i j : Fin 2) : i = j ∨ i = other j := by
  revert i j
  decide

end Drives

namespace Drive

/-- A step of a drive that leaves its motor alone. -/
inductive Step : Drive → Drive → Prop
  /-- A bit goes by under the head. -/
  | nextBit (d : Drive) : Step d d.nextBit.2
  | writeBit (d : Drive) (bit : Bool) : Step d (d.writeBit bit)
  | moveHead (d : Drive) (offset : Int) : Step d (d.moveHead offset).2
  | setPhase (d : Drive) (phase : Fin 4) : Step d { d with phase }
  | setWriteMode (d : Drive) (writeMode : Bool) : Step d { d with writeMode }
  /-- There are changes that are not saved. -/
  | change (d : Drive) : Step d { d with dirty := true }
  /-- The head goes home at a reset. -/
  | home (d : Drive) : Step d { d with halfTrack := homeHalfTrack, previousHalfTrack := homeHalfTrack }
  /-- The disk is saved. -/
  | save (d : Drive) : Step d { d with image := updateChecksum d.image, dirty := false }

/-- What becomes of a drive by any number of steps. -/
abbrev Worked : Drive → Drive → Prop := Relation.ReflTransGen Step

/-- What becomes of a drive by any number of steps while its motor is switched on and off. -/
abbrev Handled : Drive → Drive → Prop :=
  Relation.ReflTransGen fun d d' => Step d d' ∨ ∃ motorRunning, d' = { d with motorRunning }

theorem Worked.handled {d d' : Drive} (h : d.Worked d') : d.Handled d' :=
  Relation.ReflTransGen.mono (fun _ _ hstep => Or.inl hstep) d d' h

theorem handled_motor (d : Drive) (motorRunning : Bool) : d.Handled { d with motorRunning } :=
  .single (.inr ⟨motorRunning, rfl⟩)

/-- A property that every step keeps, and that does not depend on the motor, is kept. -/
theorem Handled.keeps {P : Drive → Prop} (hstep : ∀ {d d' : Drive}, Step d d' → P d → P d')
    (hmotor : ∀ {d : Drive} (motorRunning : Bool), P d → P { d with motorRunning }) {d d' : Drive}
    (h : d.Handled d') (hd : P d) : P d' := by
  induction h with
  | refl => exact hd
  | tail _ hlast ih =>
    rcases hlast with hlast | ⟨motorRunning, rfl⟩
    · exact hstep hlast ih
    · exact hmotor motorRunning ih

/-- A bit that is written changes a byte of the track under the head at most. -/
theorem writeBit_cases (d : Drive) (bit : Bool) :
    ∃ image location, d.writeBit bit = { d with image, location } ∧ image.size = d.image.size ∧
      ∀ i, (d.track.start ≠ 0 → i < d.track.start) → image[i]? = d.image[i]? := by
  unfold writeBit
  dsimp only
  split
  · next offset b hcell =>
    refine ⟨_, _, rfl, Array.size_modify, fun i hi => ?_⟩
    unfold cell? at hcell
    dsimp only at hcell
    split at hcell
    · next hon =>
      have hlt : i < d.track.start := hi hon.2.1
      obtain ⟨hoffset, -⟩ := Prod.mk.inj (Option.some.inj hcell)
      have hle : d.track.start ≤ offset := hoffset ▸ Nat.le_add_right _ _
      rw [Array.getElem?_modify, if_neg (by omega)]
      rfl
    · cases hcell
  · exact ⟨_, _, rfl, rfl, fun _ _ => rfl⟩

theorem Step.motorRunning {d d' : Drive} (h : Step d d') : d'.motorRunning = d.motorRunning := by
  cases h with
  | writeBit bit =>
    obtain ⟨image, location, heq, -⟩ := d.writeBit_cases bit
    rw [heq]
  | nextBit | moveHead | setPhase | setWriteMode | change | home | save => rfl

theorem Worked.motorRunning {d d' : Drive} (h : d.Worked d') : d'.motorRunning = d.motorRunning := by
  induction h with
  | refl => rfl
  | tail _ hlast ih => exact hlast.motorRunning.trans ih

/-! ## Bytes -/

theorem worked_seekOne (n : Nat) (d : Drive) : d.Worked (seekOne n d).2 := by
  induction n generalizing d with
  | zero => exact .refl
  | succ n ih =>
    unfold seekOne
    dsimp only
    split
    · exact .single (.nextBit d)
    · exact .head (.nextBit d) (ih _)

theorem worked_readBits (n : Nat) (acc : UInt8) (d : Drive) : d.Worked (readBits n acc d).2 := by
  induction n generalizing acc d with
  | zero => exact .refl
  | succ n ih => exact .head (.nextBit d) (ih _ _)

theorem worked_nextByte (d : Drive) : d.Worked d.nextByte.2 := by
  have hseek := worked_seekOne (max d.track.bits 1) d
  unfold nextByte
  dsimp only
  split
  · split
    · exact hseek.trans (worked_readBits 7 1 _)
    · exact hseek
  · exact .refl

theorem worked_writeBits (bits : List Bool) (d : Drive) : d.Worked (d.writeBits bits) := by
  induction bits generalizing d with
  | nil => exact .refl
  | cons bit bits ih => exact .head (.writeBit d bit) (ih _)

theorem worked_writeByte (d : Drive) (value : UInt8) (delta : Nat) : d.Worked (d.writeByte value delta).2 := by
  unfold writeByte
  split
  · exact .refl
  · exact .tail (worked_writeBits _ d) (.change _)

/-- The head moves and the stepper goes to another phase. -/
theorem worked_pull (d : Drive) (offset : Int) (phase : Fin 4) :
    d.Worked { (d.moveHead offset).2 with phase } :=
  .tail (.single (.moveHead d offset)) (.setPhase _ phase)

end Drive

namespace Controller

/-- What becomes of a controller whose drives are worked, while its motors and the selection are left alone. -/
structure Worked (c c' : Controller) : Prop where
  drives : ∀ i, (c.drives.get i).Worked (c'.drives.get i)
  current : c'.current = c.current
  motorOffAt : c'.motorOffAt = c.motorOffAt

/-- What becomes of the drives of a controller, whatever is switched. -/
def Handled (c c' : Controller) : Prop := ∀ i, (c.drives.get i).Handled (c'.drives.get i)

theorem Worked.refl (c : Controller) : c.Worked c := ⟨fun _ => .refl, rfl, rfl⟩

theorem Worked.trans {c c' c'' : Controller} (h : c.Worked c') (h' : c'.Worked c'') : c.Worked c'' :=
  ⟨fun i => (h.drives i).trans (h'.drives i), h'.current.trans h.current, h'.motorOffAt.trans h.motorOffAt⟩

theorem Worked.handled {c c' : Controller} (h : c.Worked c') : c.Handled c' := fun i => (h.drives i).handled

theorem Handled.refl (c : Controller) : c.Handled c := fun _ => .refl

theorem Handled.trans {c c' c'' : Controller} (h : c.Handled c') (h' : c'.Handled c'') : c.Handled c'' :=
  fun i => (h i).trans (h' i)

/-- One of two drives changes. -/
theorem get_modify_of {R : Drive → Drive → Prop} (hrefl : ∀ d, R d d) (ds : Drives) (i : Fin 2)
    {f : Drive → Drive} (h : R (ds.get i) (f (ds.get i))) (j : Fin 2) : R (ds.get j) ((ds.modify i f).get j) := by
  by_cases hij : i = j
  · subst hij
    rwa [Drives.get_modify_self]
  · rw [Drives.get_modify_of_ne ds f hij]
    exact hrefl _

theorem worked_modify (c : Controller) (i : Fin 2) {f : Drive → Drive}
    (h : (c.drives.get i).Worked (f (c.drives.get i))) : c.Worked { c with drives := c.drives.modify i f } :=
  ⟨get_modify_of (fun _ => .refl) c.drives i h, rfl, rfl⟩

theorem worked_update {α : Type} (c : Controller) (i : Fin 2) {f : Drive → α × Drive}
    (h : (c.drives.get i).Worked (f (c.drives.get i)).2) :
    c.Worked { c with drives := (c.drives.update i f).2 } := by
  rw [Drives.update_eq]
  exact c.worked_modify i (f := fun d => (f d).2) h

/-! ## Registers that leave the motors alone -/

theorem worked_stepPhases (c : Controller) (phases : List Bool) : c.Worked (c.stepPhases phases) := by
  unfold stepPhases
  split
  · exact .refl c
  · split
    · exact .refl c
    · next offset phase _ =>
      obtain ⟨hdrives, -, -⟩ := c.worked_update c.current
        (f := fun d => ((d.moveHead offset).1, { (d.moveHead offset).2 with phase }))
        (Drive.worked_pull _ offset phase)
      exact ⟨hdrives, rfl, rfl⟩

theorem worked_flushWrite (c : Controller) (delta : Nat) : c.Worked (c.flushWrite delta) := by
  obtain ⟨hdrives, -, -⟩ := c.worked_update c.current (f := fun d => d.writeByte c.dataRegister delta)
    (Drive.worked_writeByte _ _ _)
  unfold flushWrite
  dsimp only
  split
  · exact ⟨hdrives, rfl, rfl⟩
  · exact ⟨hdrives, rfl, rfl⟩

theorem worked_flushIfWriting (c : Controller) (cycle : Nat) : c.Worked (c.flushIfWriting cycle) := by
  obtain ⟨hdrives, hcurrent, hstop⟩ := c.worked_flushWrite (cycle - c.previousCycle)
  unfold flushIfWriting
  split
  · exact ⟨hdrives, hcurrent, hstop⟩
  · exact .refl c

theorem worked_loadData (c : Controller) (value : Option UInt8) : c.Worked (c.loadData value) := by
  cases value with
  | none => exact .refl c
  | some v => exact ⟨fun _ => .refl, rfl, rfl⟩

theorem worked_setWriteMode (c : Controller) (on : Bool) : c.Worked (c.setWriteMode on) := by
  obtain ⟨hdrives, -, -⟩ := c.worked_modify c.current (f := fun d => { d with writeMode := on })
    (.single (.setWriteMode _ on))
  unfold setWriteMode
  dsimp only
  split
  · exact ⟨hdrives, rfl, rfl⟩
  · exact ⟨hdrives, rfl, rfl⟩

theorem worked_readData (c : Controller) : c.Worked c.readData.2 := by
  obtain ⟨hdrives, -, -⟩ := c.worked_update c.current (f := Drive.nextByte) (Drive.worked_nextByte _)
  unfold readData
  split
  · dsimp only
    split
    · exact ⟨hdrives, rfl, rfl⟩
    · exact ⟨hdrives, rfl, rfl⟩
  · exact .refl c

theorem worked_save (c : Controller) (drive : Nat) : c.Worked (c.save drive).2 := by
  unfold save
  split
  · dsimp only
    split
    · exact c.worked_modify _ (.single (.save _))
    · exact .refl c
  · exact .refl c

theorem worked_resume (c : Controller) : c.Worked c.resume := by
  unfold resume
  split
  · exact ⟨fun _ => .refl, rfl, rfl⟩
  · exact .refl c

/-! ## Any access -/

theorem handled_setMotor (c : Controller) (d : Fin 2) (on : Bool) : c.Handled (c.setMotor d on) := by
  unfold setMotor
  split
  · exact .refl c
  · exact get_modify_of (fun _ => .refl) c.drives d (Drive.handled_motor _ on)

theorem handled_startMotor (c : Controller) : c.Handled c.startMotor :=
  handled_setMotor { c with motorOffAt := none } c.current true

theorem handled_select (c : Controller) (d : Fin 2) : c.Handled (c.select d) := by
  have hswitch := (c.handled_setMotor (Drives.other d) false).trans
    ((c.setMotor (Drives.other d) false).handled_setMotor d true)
  unfold select
  dsimp only
  split
  · split
    · exact hswitch
    · exact hswitch
  · split
    · exact .refl c
    · exact .refl c

/-- What becomes of a controller by an access to a register. -/
inductive Accessed (c : Controller) (reg : UInt8) (cycle : Nat) : Controller → Prop
  | requestStop (h : reg &&& 0x0F = 0x8) : Accessed c reg cycle (c.requestStop cycle)
  | startMotor (h : reg &&& 0x0F = 0x9) : Accessed c reg cycle c.startMotor
  | select (h : reg &&& 0x0F ≠ 0x8 ∧ reg &&& 0x0F ≠ 0x9) (d : Fin 2) : Accessed c reg cycle (c.select d)
  | worked (h : reg &&& 0x0F ≠ 0x8 ∧ reg &&& 0x0F ≠ 0x9) {c' : Controller} (hworked : c.Worked c') :
    Accessed c reg cycle c'

/-- **The sixteen registers.** Only four of them switch motors or drives. -/
theorem access_cases (c : Controller) (reg : UInt8) (value : Option UInt8) (cycle : Nat) (sw : Switches) :
    c.Accessed reg cycle (c.access reg value cycle sw).2 := by
  unfold access
  split
  · next h => exact .requestStop h
  · next h => exact .startMotor h
  · next h => exact .select (by rw [h]; decide) driveOne
  · next h => exact .select (by rw [h]; decide) driveTwo
  · next h => exact .worked (by rw [h]; decide) c.worked_readData
  · next h =>
    exact .worked (by rw [h]; decide)
      ((c.worked_flushIfWriting cycle).trans ((c.flushIfWriting cycle).worked_loadData value))
  · next h =>
    exact .worked (by rw [h]; decide)
      ((c.worked_flushIfWriting cycle).trans ((c.flushIfWriting cycle).worked_setWriteMode false))
  · next h =>
    obtain ⟨hdrives, hcurrent, hstop⟩ := c.worked_setWriteMode true
    have hmode : c.Worked { c.setWriteMode true with previousCycle := cycle } := ⟨hdrives, hcurrent, hstop⟩
    exact .worked (by rw [h]; decide) (hmode.trans (worked_loadData _ value))
  · next h8 h9 _ _ _ _ _ _ => exact .worked ⟨h8, h9⟩ (c.worked_stepPhases sw.phases)

theorem handled_access (c : Controller) (reg : UInt8) (value : Option UInt8) (cycle : Nat)
    (sw : Switches) : c.Handled (c.access reg value cycle sw).2 := by
  have hcases := c.access_cases reg value cycle sw
  generalize (c.access reg value cycle sw).2 = c' at hcases ⊢
  cases hcases with
  | requestStop => exact .refl c
  | startMotor => exact c.handled_startMotor
  | select _ d => exact c.handled_select d
  | worked _ h => exact h.handled

/-! ## Time -/

theorem handled_motorTimeout (c : Controller) (sw : Switches) : c.Handled (c.motorTimeout sw) := by
  unfold motorTimeout
  split
  · exact .refl c
  · exact c.handled_setMotor c.current false

theorem handled_update (c : Controller) (cycle : Nat) (sw : Switches) : c.Handled (c.update cycle sw) := by
  unfold update
  split
  · split
    · exact handled_motorTimeout { c with motorOffAt := none } sw
    · exact .refl c
  · exact .refl c

theorem handled_reset (c : Controller) (sw : Switches) : c.Handled (c.reset sw).1 := by
  have hstop := handled_motorTimeout { c with motorOffAt := none } (sw.set .motor false)
  refine Handled.trans hstop fun i => ?_
  unfold reset
  dsimp only
  generalize motorTimeout { c with motorOffAt := none } (sw.set .motor false) = stopped
  by_cases hi : i = 0
  · simp only [Drives.get, if_pos hi]
    exact Drive.Worked.handled (.single (.home _))
  · simp only [Drives.get, if_neg hi]
    exact Drive.Worked.handled (.single (.home _))

/-! ## Disks -/

section Disks

variable {c c' : Controller} {drive : Nat}

theorem driveNumber_eq_ok_iff {i : Fin 2} : driveNumber drive = .ok i ↔ drive = i.val := by
  unfold driveNumber
  split
  · rw [Except.ok.injEq, Fin.ext_iff]
  · next h =>
    constructor
    · intro he
      cases he
    · rintro rfl
      exact absurd i.isLt h

/-- A disk is put into a drive when there is such a drive and its image is decoded. -/
theorem insert_eq_ok_iff {fileName : String} {bytes : Array UInt8} {w : Option Warning} :
    c.insert drive fileName bytes = .ok (w, c') ↔
      ∃ i disk, drive = Fin.val i ∧ Image.decode fileName bytes = .ok disk ∧ disk.warning = w ∧
        { c with drives := c.drives.modify i fun u => u.load disk }.emit (.diskInserted i) = c' := by
  simp only [insert, bind_eq_ok_iff, driveNumber_eq_ok_iff]
  constructor
  · rintro ⟨i, hi, disk, hdecode, h⟩
    cases h
    exact ⟨i, disk, hi, hdecode, rfl, rfl⟩
  · rintro ⟨i, disk, hi, hdecode, rfl, rfl⟩
    exact ⟨i, hi, disk, hdecode, rfl⟩

/-- A drive that a disk is put into has it. -/
theorem get_of_insert {i : Fin 2} {fileName : String} {bytes : Array UInt8} {w : Option Warning} {disk : Image}
    (h : c.insert i.val fileName bytes = .ok (w, c')) (hdecode : Image.decode fileName bytes = .ok disk) :
    c'.drives.get i = (c.drives.get i).load disk := by
  obtain ⟨j, disk', hj, hdecode', -, rfl⟩ := insert_eq_ok_iff.mp h
  obtain rfl := Fin.ext hj
  obtain rfl := Except.ok.inj (hdecode.symm.trans hdecode')
  exact Drives.get_modify_self _ _ _

/-- A disk is taken out of a drive that has one. -/
theorem eject_cases (h : c.eject drive = .ok c') :
    c' = c ∨ ∃ i, drive = Fin.val i ∧ c' = { c with drives := c.drives.modify i Drive.clear }.emit (.diskEjected i) := by
  obtain ⟨i, hi, hclear⟩ := bind_eq_ok_iff.mp h
  split at hclear
  · cases hclear
    exact .inr ⟨i, driveNumber_eq_ok_iff.mp hi, rfl⟩
  · cases hclear
    exact .inl rfl

end Disks

end Controller

end AppleII.Disk
