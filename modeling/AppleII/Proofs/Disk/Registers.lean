import AppleII.Proofs.Disk.Motors
import AppleII.Proofs.Disk.Revolution

/-!
# What the registers do to the drives

Three registers write to the selected drive or give it another mode (`Controller.Touched`).  The others, and the
time and a reset with them, are quiet: they switch motors, turn disks and move heads, and leave the disks and the
modes alone (`Drive.Quiet`).
-/

namespace AppleII.Disk

namespace Drive

/-- The motor was switched, the disk has turned or the head has moved, and nothing else has changed. -/
def Quiet (d d' : Drive) : Prop :=
  ∃ motorRunning halfTrack previousHalfTrack phase location,
    d' = { d with motorRunning, halfTrack, previousHalfTrack, phase, location }

theorem Quiet.refl (d : Drive) : d.Quiet d := ⟨_, _, _, _, _, rfl⟩

theorem Quiet.trans {d d' d'' : Drive} (h : d.Quiet d') (h' : d'.Quiet d'') : d.Quiet d'' := by
  obtain ⟨_, _, _, _, _, rfl⟩ := h
  obtain ⟨_, _, _, _, _, rfl⟩ := h'
  exact ⟨_, _, _, _, _, rfl⟩

theorem Quiet.writeMode {d d' : Drive} (h : d.Quiet d') : d'.writeMode = d.writeMode := by
  obtain ⟨_, _, _, _, _, rfl⟩ := h
  rfl

theorem Quiet.image {d d' : Drive} (h : d.Quiet d') : d'.image = d.image := by
  obtain ⟨_, _, _, _, _, rfl⟩ := h
  rfl

theorem Turned.quiet {d d' : Drive} (h : d.Turned d') : d.Quiet d' := by
  obtain ⟨_, rfl⟩ := h
  exact ⟨_, _, _, _, _, rfl⟩

/-! ## Reading turns the disk -/

theorem turned_seekOne (n : Nat) (d : Drive) : d.Turned (seekOne n d).2 := by
  induction n generalizing d with
  | zero => exact .refl d
  | succ n ih =>
    unfold seekOne
    dsimp only
    split
    · exact d.turned_nextBit
    · exact d.turned_nextBit.trans (ih _)

theorem turned_readBits (n : Nat) (acc : UInt8) (d : Drive) : d.Turned (readBits n acc d).2 := by
  induction n generalizing acc d with
  | zero => exact .refl d
  | succ n ih => exact d.turned_nextBit.trans (ih _ _)

theorem turned_nextByte (d : Drive) : d.Turned d.nextByte.2 := by
  have hseek := turned_seekOne (max d.track.bits 1) d
  unfold nextByte
  dsimp only
  split
  · split
    · exact hseek.trans (turned_readBits 7 1 _)
    · exact hseek
  · exact .refl d

/-! ## Writing -/

/-- Whether a value goes to the disk: there is one, with a track under the head, and the value is not 0. -/
def Takes (d : Drive) (value : UInt8) : Prop :=
  d.hasDisk = true ∧ d.isEmptyAt d.halfTrack = false ∧ value ≠ 0

theorem writeByte_of_takes {d : Drive} {value : UInt8} (h : d.Takes value) (delta : Nat) :
    (d.writeByte value delta).2 = { d.writeBits (bitsWritten value delta) with dirty := true } := by
  obtain ⟨hdisk, htrack, hvalue⟩ := h
  simp [writeByte, hdisk, htrack, hvalue]

theorem writeByte_of_not_takes {d : Drive} {value : UInt8} (h : ¬d.Takes value) (delta : Nat) :
    d.writeByte value delta = (none, d) := by
  unfold writeByte
  split
  · rfl
  · next hnone =>
    simp only [Bool.or_eq_true, Bool.not_eq_true', not_or, beq_iff_eq, Bool.not_eq_false, Bool.not_eq_true] at hnone
    obtain ⟨⟨hdisk, htrack⟩, hvalue⟩ := hnone
    exact absurd ⟨hdisk, htrack, hvalue⟩ h

theorem writeMode_writeBits (d : Drive) (bits : List Bool) : (d.writeBits bits).writeMode = d.writeMode := by
  induction bits generalizing d with
  | nil => rfl
  | cons bit bits ih =>
    obtain ⟨image, location, heq, -⟩ := d.writeBit_cases bit
    exact (ih (d.writeBit bit)).trans (by rw [heq])

theorem writeMode_writeByte (d : Drive) (value : UInt8) (delta : Nat) :
    (d.writeByte value delta).2.writeMode = d.writeMode := by
  by_cases h : d.Takes value
  · rw [writeByte_of_takes h]
    exact d.writeMode_writeBits _
  · rw [writeByte_of_not_takes h]

end Drive

namespace Controller

/-- Every drive was left quiet. -/
def Quiet (c c' : Controller) : Prop := ∀ i, (c.drives.get i).Quiet (c'.drives.get i)

theorem Quiet.refl (c : Controller) : c.Quiet c := fun _ => .refl _

theorem Quiet.trans {c c' c'' : Controller} (h : c.Quiet c') (h' : c'.Quiet c'') : c.Quiet c'' :=
  fun i => (h i).trans (h' i)

theorem quiet_modify (c : Controller) (i : Fin 2) {f : Drive → Drive}
    (h : (c.drives.get i).Quiet (f (c.drives.get i))) : c.Quiet { c with drives := c.drives.modify i f } :=
  get_modify_of Drive.Quiet.refl c.drives i h

theorem quiet_updateDrive {α : Type} (c : Controller) (i : Fin 2) {f : Drive → α × Drive}
    (h : (c.drives.get i).Quiet (f (c.drives.get i)).2) :
    c.Quiet { c with drives := (c.drives.update i f).2 } := by
  rw [Drives.update_eq]
  exact c.quiet_modify i (f := fun d => (f d).2) h

/-! ## Quiet registers -/

theorem quiet_setMotor (c : Controller) (i : Fin 2) (on : Bool) : c.Quiet (c.setMotor i on) := by
  unfold setMotor
  split
  · exact .refl c
  · exact c.quiet_modify i (f := fun d => { d with motorRunning := on }) ⟨_, _, _, _, _, rfl⟩

theorem quiet_startMotor (c : Controller) : c.Quiet c.startMotor :=
  quiet_setMotor { c with motorOffAt := none } c.current true

theorem quiet_select (c : Controller) (d : Fin 2) : c.Quiet (c.select d) := by
  obtain ⟨log, heq⟩ := c.select_cases d
  have hswitch := (c.quiet_setMotor (Drives.other d) false).trans
    ((c.setMotor (Drives.other d) false).quiet_setMotor d true)
  rw [heq]
  split
  · exact hswitch
  · exact .refl c

theorem quiet_readData (c : Controller) : c.Quiet c.readData.2 := by
  have hread := c.quiet_updateDrive c.current (f := Drive.nextByte) (Drive.turned_nextByte _).quiet
  unfold readData
  split
  · dsimp only
    split
    · exact hread
    · exact hread
  · exact .refl c

theorem quiet_stepPhases (c : Controller) (phases : List Bool) : c.Quiet (c.stepPhases phases) := by
  unfold stepPhases
  split
  · exact .refl c
  · split
    · exact .refl c
    · next offset phase _ =>
      exact c.quiet_updateDrive c.current
        (f := fun d => ((d.moveHead offset).1, { (d.moveHead offset).2 with phase })) ⟨_, _, _, _, _, rfl⟩

/-! ## Registers that write and switch modes -/

/-- The data register is written to a drive if that is selected, spins in write mode and takes the value. -/
def Writing (c : Controller) (i : Fin 2) : Prop :=
  c.current = i ∧ (c.drives.get i).motorRunning = true ∧ (c.drives.get i).writeMode = true ∧
    (c.drives.get i).Takes c.dataRegister

/-- A drive that the data register is written to; the others are left alone. -/
theorem get_flushIfWriting (c : Controller) (cycle : Nat) (i : Fin 2) :
    (c.Writing i → (c.flushIfWriting cycle).drives.get i =
      ((c.drives.get i).writeByte c.dataRegister (cycle - c.previousCycle)).2) ∧
    (¬c.Writing i → (c.flushIfWriting cycle).drives.get i = c.drives.get i) := by
  -- Only the selected drive is touched, and only when it spins in write mode.
  have hflush (delta : Nat) : (c.flushWrite delta).drives =
      c.drives.modify c.current fun d => (d.writeByte c.dataRegister delta).2 := by
    unfold flushWrite
    simp only [Drives.update_eq]
    split
    · rfl
    · rfl
  unfold flushIfWriting selected
  constructor
  · rintro ⟨rfl, hmotor, hmode, -⟩
    rw [if_pos (by rw [hmotor, hmode]; rfl)]
    show (c.flushWrite _).drives.get c.current = _
    rw [hflush, Drives.get_modify_self]
  · intro hnot
    split
    · next hspins =>
      obtain ⟨hmotor, hmode⟩ := Bool.and_eq_true_iff.mp hspins
      show (c.flushWrite _).drives.get i = _
      rw [hflush]
      by_cases hi : c.current = i
      · subst hi
        have htakes : ¬(c.drives.get c.current).Takes c.dataRegister := fun htakes =>
          hnot ⟨rfl, hmotor, hmode, htakes⟩
        rw [Drives.get_modify_self, Drive.writeByte_of_not_takes htakes]
      · rw [Drives.get_modify_of_ne _ _ hi]
    · rfl

theorem writeMode_flushIfWriting (c : Controller) (cycle : Nat) (i : Fin 2) :
    ((c.flushIfWriting cycle).drives.get i).writeMode = (c.drives.get i).writeMode := by
  by_cases h : c.Writing i
  · rw [(c.get_flushIfWriting cycle i).1 h, Drive.writeMode_writeByte]
  · rw [(c.get_flushIfWriting cycle i).2 h]

theorem drives_setWriteMode (c : Controller) (on : Bool) :
    (c.setWriteMode on).drives = c.drives.modify c.current fun d => { d with writeMode := on } := by
  unfold setWriteMode
  dsimp only
  split
  · rfl
  · rfl

theorem drives_loadData (c : Controller) (value : Option UInt8) : (c.loadData value).drives = c.drives := by
  cases value with
  | none => rfl
  | some v => rfl

/-- What becomes of the drives by an access to a register. -/
inductive Touched (c : Controller) (reg : UInt8) (cycle : Nat) (c' : Controller) : Prop
  | load (h : reg &&& 0x0F = 0xD) (hdrives : c'.drives = (c.flushIfWriting cycle).drives)
  | readMode (h : reg &&& 0x0F = 0xE)
    (hdrives : c'.drives = (c.flushIfWriting cycle).drives.modify c.current fun d => { d with writeMode := false })
  | writeMode (h : reg &&& 0x0F = 0xF)
    (hdrives : c'.drives = c.drives.modify c.current fun d => { d with writeMode := true })
  | quiet (h : reg &&& 0x0F ≠ 0xD ∧ reg &&& 0x0F ≠ 0xE ∧ reg &&& 0x0F ≠ 0xF) (hquiet : c.Quiet c')

theorem touched_access (c : Controller) (reg : UInt8) (value : Option UInt8) (cycle : Nat) (sw : Switches) :
    c.Touched reg cycle (c.access reg value cycle sw).2 := by
  unfold access
  split
  · next h => exact .quiet (by rw [h]; decide) (.refl c)
  · next h => exact .quiet (by rw [h]; decide) c.quiet_startMotor
  · next h => exact .quiet (by rw [h]; decide) (c.quiet_select driveOne)
  · next h => exact .quiet (by rw [h]; decide) (c.quiet_select driveTwo)
  · next h => exact .quiet (by rw [h]; decide) c.quiet_readData
  · next h => exact .load h ((c.flushIfWriting cycle).drives_loadData value)
  · next h =>
    refine .readMode h (((c.flushIfWriting cycle).drives_setWriteMode false).trans ?_)
    rw [(c.worked_flushIfWriting cycle).current]
  · next h =>
    exact .writeMode h ((drives_loadData { c.setWriteMode true with previousCycle := cycle } value).trans
      (c.drives_setWriteMode true))
  · next _ _ _ _ _ hD hE hF => exact .quiet ⟨hD, hE, hF⟩ (c.quiet_stepPhases sw.phases)

/-! ## Time -/

theorem quiet_motorTimeout (c : Controller) (sw : Switches) : c.Quiet (c.motorTimeout sw) := by
  unfold motorTimeout
  split
  · exact .refl c
  · exact c.quiet_setMotor c.current false

theorem quiet_update (c : Controller) (cycle : Nat) (sw : Switches) : c.Quiet (c.update cycle sw) := by
  unfold update
  split
  · split
    · exact quiet_motorTimeout { c with motorOffAt := none } sw
    · exact .refl c
  · exact .refl c

theorem quiet_reset (c : Controller) (sw : Switches) : c.Quiet (c.reset sw).1 := by
  have hstop := quiet_motorTimeout { c with motorOffAt := none } (sw.set .motor false)
  refine Quiet.trans hstop fun i => ?_
  unfold reset
  dsimp only
  generalize motorTimeout { c with motorOffAt := none } (sw.set .motor false) = stopped
  by_cases hi : i = 0
  · simp only [Drives.get, if_pos hi]
    exact ⟨_, _, _, _, _, rfl⟩
  · simp only [Drives.get, if_neg hi]
    exact ⟨_, _, _, _, _, rfl⟩

theorem quiet_resume (c : Controller) : c.Quiet c.resume := by
  unfold resume
  split
  · exact .refl c
  · exact .refl c

end Controller

end AppleII.Disk
