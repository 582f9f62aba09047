import AppleII.Proofs.Disk.Acceptance
import AppleII.Proofs.Disk.Events
import AppleII.Proofs.Disk.Protection
import AppleII.Proofs.SaveState.RoundTrip

/-!
# The mark of unsaved changes

Whoever writes the disks back at the end looks at one flag of a drive.  A disk that is put in, taken out, saved or
restored settles what the drive holds (`Controller.settles`), and the flag with it.  Nothing else clears the flag, and
nothing else changes the container without setting it, so that a drive whose flag is clear holds what was settled last
(`no_unsaved_write_missed`).
-/

namespace AppleII.Disk

namespace Controller

/-- The controller with the contents of a save state.  A state that is refused is none. -/
def restore (c : Controller) (s : DiskState) : Except StateError Controller := do
  let (current, drives) ← s.decode
  return { c with
    drives
    current
    previousCycle := s.previousCycle
    dataRegister := s.dataRegister
    motorOffAt := s.motorOffAt }

/-- What is done to a controller over its whole life. -/
inductive Action where
  | operate (op : Operation)
  | takeEvents
  | restore (state : DiskState)

/-- The controller after an action.  A save state that is refused leaves it as it is. -/
def act (c : Controller) : Action → Controller
  | .operate op => c.perform op
  | .takeEvents => c.takeEvents.2
  | .restore state => match c.restore state with
    | .ok c' => c'
    | .error _ => c

theorem act_restore (c : Controller) (state : DiskState) :
    c.act (.restore state) = match c.restore state with
      | .ok c' => c'
      | .error _ => c := rfl

def actAll (c : Controller) (actions : List Action) : Controller := actions.foldl act c

/-- Whether an action gives a drive another disk, takes its disk out, saves it, or restores the drive. -/
def settles (c : Controller) (i : Fin 2) : Action → Bool
  | .operate (.insert drive fileName bytes) => drive == i.val && (Image.decode fileName bytes).isOk
  | .operate (.eject drive) => drive == i.val && (c.drives.get i).hasDisk
  | .operate (.save drive) => drive == i.val && (c.drives.get i).hasDisk
  | .restore state => state.decode.isOk
  | _ => false

/-- The container that some actions settled last in a drive; at first it is `image`. -/
def settledImage (i : Fin 2) (image : Array UInt8) : Controller → List Action → Array UInt8
  | _, [] => image
  | c, a :: actions =>
    settledImage i (if c.settles i a then ((c.act a).drives.get i).image else image) (c.act a) actions

/-- Of some actions, none settles a drive when its turn comes. -/
def Unsettled (i : Fin 2) : Controller → List Action → Prop
  | _, [] => True
  | c, a :: actions => c.settles i a = false ∧ Unsettled i (c.act a) actions

variable {c : Controller} {i : Fin 2}

/-! ## One action -/

theorem spared_or_dirty_access (c : Controller) (i : Fin 2) (reg : UInt8) (value : Option UInt8) (cycle : Nat)
    (sw : Switches) :
    let d := (c.access reg value cycle sw).2.drives.get i
    (c.drives.get i).Spared d ∨ d.dirty = true := by
  by_cases hwrites : c.WritesTo i (.access reg value cycle sw)
  · have hspared := spared_access_of_writesTo hwrites
    obtain ⟨-, -, -, -, htakes⟩ := hwrites
    refine .inr (hspared.dirty.trans ?_)
    rw [Drive.writeByte_of_takes htakes]
  · exact .inl (spared_access hwrites)

theorem spared_insert_of_not_settles {drive : Nat} {fileName : String} {bytes : Array UInt8}
    (h : c.settles i (.operate (.insert drive fileName bytes)) = false) :
    (c.drives.get i).Spared ((c.perform (.insert drive fileName bytes)).drives.get i) := by
  rw [perform_insert]
  cases hinsert : c.insert drive fileName bytes with
  | error e => exact .refl _
  | ok r =>
    obtain ⟨w, c'⟩ := r
    obtain ⟨j, disk, rfl, hdecode, -, rfl⟩ := insert_eq_ok_iff.mp hinsert
    have hne : j ≠ i := by
      rintro rfl
      rw [settles, hdecode] at h
      simp [Except.isOk, Except.toBool] at h
    exact c.spared_modifyDrive_of_ne hne _

theorem spared_eject_of_not_settles {drive : Nat} (h : c.settles i (.operate (.eject drive)) = false) :
    (c.drives.get i).Spared ((c.perform (.eject drive)).drives.get i) := by
  rw [perform_eject]
  cases heject : c.eject drive with
  | error e => exact .refl _
  | ok c' =>
    obtain ⟨j, hj, hclear⟩ := bind_eq_ok_iff.mp heject
    obtain rfl := driveNumber_eq_ok_iff.mp hj
    split at hclear
    · next hdisk =>
      cases hclear
      have hne : j ≠ i := by
        rintro rfl
        simp [settles, hdisk] at h
      exact c.spared_modifyDrive_of_ne hne _
    · cases hclear
      exact .refl _

theorem spared_save_of_not_settles {drive : Nat} (h : c.settles i (.operate (.save drive)) = false) :
    (c.drives.get i).Spared ((c.perform (.save drive)).drives.get i) := by
  show (c.drives.get i).Spared ((c.save drive).2.drives.get i)
  unfold save
  split
  · next hdrive =>
    dsimp only
    split
    · next hdisk =>
      have hne : (⟨drive, hdrive⟩ : Fin 2) ≠ i := by
        rintro rfl
        simp [settles, hdisk] at h
      exact c.spared_modifyDrive_of_ne hne _
    · exact .refl _
  · exact .refl _

theorem act_restore_of_not_settles {state : DiskState} (h : c.settles i (.restore state) = false) :
    c.act (.restore state) = c := by
  cases hdecode : state.decode with
  | ok r => simp [settles, hdecode, Except.isOk, Except.toBool] at h
  | error e =>
    have hrefused : c.restore state = .error e := bind_eq_error hdecode _
    rw [act_restore, hrefused]

/-- **A step.** An action that does not settle a drive spares it or marks it. -/
theorem spared_or_dirty {a : Action} (h : c.settles i a = false) :
    (c.drives.get i).Spared ((c.act a).drives.get i) ∨ ((c.act a).drives.get i).dirty = true := by
  cases a with
  | takeEvents => exact .inl (.refl _)
  | restore state =>
    rw [act_restore_of_not_settles h]
    exact .inl (.refl _)
  | operate op =>
    cases op with
    | access reg value cycle switches => exact c.spared_or_dirty_access i reg value cycle switches
    | update cycle switches => exact .inl (c.quiet_update cycle switches i).spared
    | reset switches => exact .inl (c.quiet_reset switches i).spared
    | insert drive fileName bytes => exact .inl (spared_insert_of_not_settles h)
    | eject drive => exact .inl (spared_eject_of_not_settles h)
    | save drive => exact .inl (spared_save_of_not_settles h)
    | pause goesOn =>
      cases goesOn with
      | false => exact .inl (.refl _)
      | true => exact .inl (c.quiet_resume i).spared

/-- A drive that is not marked after such an action was not marked before, and holds what it held. -/
theorem image_act_of_not_settles {a : Action} (h : c.settles i a = false)
    (hclean : ((c.act a).drives.get i).dirty = false) :
    (c.drives.get i).dirty = false ∧ ((c.act a).drives.get i).image = (c.drives.get i).image := by
  rcases spared_or_dirty h with hspared | hdirty
  · exact ⟨hspared.dirty.symm.trans hclean, hspared.image⟩
  · rw [hclean] at hdirty
    cases hdirty

/-- A drive that is marked stays so. -/
theorem dirty_act_of_not_settles {a : Action} (h : c.settles i a = false)
    (hdirty : (c.drives.get i).dirty = true) : ((c.act a).drives.get i).dirty = true := by
  rcases spared_or_dirty h with hspared | hmarked
  · exact hspared.dirty.trans hdirty
  · exact hmarked

/-! ## Any number of actions -/

/-- **A run.** What holds of the settled container at first, it holds of the one that was settled last: it is in the
drive while that is not marked. -/
theorem image_actAll {image : Array UInt8} (actions : List Action)
    (h : (c.drives.get i).dirty = false → (c.drives.get i).image = image)
    (hclean : ((c.actAll actions).drives.get i).dirty = false) :
    ((c.actAll actions).drives.get i).image = settledImage i image c actions := by
  induction actions generalizing c image with
  | nil => exact h hclean
  | cons a actions ih =>
    refine ih (fun hclean' => ?_) hclean
    cases hsettles : c.settles i a with
    | true => rfl
    | false =>
      obtain ⟨hbefore, hsame⟩ := image_act_of_not_settles hsettles hclean'
      exact hsame.trans (h hbefore)

/-- **A run.** A drive that is marked stays so until something settles it. -/
theorem dirty_actAll {actions : List Action} (h : Unsettled i c actions)
    (hdirty : (c.drives.get i).dirty = true) : ((c.actAll actions).drives.get i).dirty = true := by
  induction actions generalizing c with
  | nil => exact hdirty
  | cons a actions ih =>
    obtain ⟨hfirst, hrest⟩ := h
    exact ih hrest (dirty_act_of_not_settles hfirst hdirty)

/-! ## What settles a drive -/

theorem eject_of_hasDisk (h : (c.drives.get i).hasDisk = true) :
    c.eject i.val = .ok ({ c with drives := c.drives.modify i Drive.clear }.emit (.diskEjected i)) :=
  bind_eq_ok_iff.mpr ⟨i, driveNumber_eq_ok_iff.mpr rfl, if_pos h⟩

/-- The state of a drive in the state of a controller. -/
def driveState (s : DiskState) (i : Fin 2) : DriveState := if i.val = 0 then s.first else s.second

/-- A drive that is restored has the state that was saved of it. -/
theorem capture_of_restore {c' : Controller} {state : DiskState} (h : c.restore state = .ok c') (i : Fin 2) :
    DriveState.capture (c'.drives.get i) = driveState state i := by
  obtain ⟨⟨current, drives⟩, hdecode, h⟩ := bind_eq_ok_iff.mp h
  cases h
  obtain ⟨-, hfirst, hsecond⟩ := DiskState.decode_eq_ok_iff.mp hdecode
  unfold Drives.get driveState
  dsimp only
  by_cases hi : i = 0
  · rw [if_pos hi, if_pos (Fin.val_eq_zero_iff.mpr hi)]
    exact DriveState.capture_of_decode hfirst
  · rw [if_neg hi, if_neg (mt Fin.val_eq_zero_iff.mp hi)]
    exact DriveState.capture_of_decode hsecond

end Controller

/-- A machine that is restored has its controller restored. -/
theorem restore_of_restoreState {m m' : Machine} {s : SaveState} (h : m.restoreState s = .ok m') :
    m.disk.restore s.disk = .ok m'.disk := by
  obtain ⟨-, ram, current, drives, -, hdisk, rfl⟩ := Machine.restoreState_eq_ok_iff.mp h
  exact bind_eq_ok_iff.mpr ⟨_, hdisk, rfl⟩

/-- An image is a converted one exactly if the file was no container. -/
theorem converted_iff {fileName : String} {bytes : Array UInt8} {image : Image}
    (hdecode : Image.decode fileName bytes = .ok image) : image.converted = true ↔ ¬HasWozMagic bytes := by
  obtain ⟨hdetect, hcontainer, -⟩ := decode_cases hdecode
  rcases detect_cases hdetect with hmagic | ⟨hnone, order, -, hformat⟩
  · rw [container_of_hasMagic hmagic] at hcontainer
    have hasis : false = image.converted := congrArg (fun c => c.2.2) (Except.ok.inj hcontainer)
    rw [← hasis]
    exact ⟨fun h => absurd h Bool.false_ne_true, fun h => absurd (hasWozMagic_of_hasMagic hmagic) h⟩
  · rw [hformat] at hcontainer
    rw [container_sectorImage (size_of_container hcontainer)] at hcontainer
    have hmade : true = image.converted := congrArg (fun c => c.2.2) (Except.ok.inj hcontainer)
    exact ⟨fun _ => hnone, fun _ => hmade.symm⟩

open Controller (settledImage Unsettled driveState)

/-- **No unsaved write is missed.** Whatever is done to a controller, a drive that is not marked holds the container
that was settled last.  A disk that is put in settles its own container, and marks the drive if that was made of a
sector image; the mark stays until something settles the drive.  A save clears the mark, changes no byte but those of
the checksum, and gives out what it leaves in the drive.  A disk that is taken out leaves nothing, and a restored drive
has the container and the mark that were captured of it. -/
theorem no_unsaved_write_missed (c : Controller) (i : Fin 2) :
    (∀ actions, ((c.actAll actions).drives.get i).dirty = false →
      ((c.actAll actions).drives.get i).image = settledImage i (c.drives.get i).image c actions) ∧
    (∀ fileName bytes image, Image.decode fileName bytes = .ok image →
      let inserted := c.act (.operate (.insert i.val fileName bytes))
      (inserted.drives.get i).image = image.bytes ∧
        ((inserted.drives.get i).dirty = true ↔ ¬HasWozMagic bytes) ∧
        (¬HasWozMagic bytes → ∀ actions, Unsettled i inserted actions →
          ((inserted.actAll actions).drives.get i).dirty = true)) ∧
    ((c.drives.get i).hasDisk = true →
      let saved := c.act (.operate (.save i.val))
      let ejected := c.act (.operate (.eject i.val))
      (saved.drives.get i).dirty = false ∧
        (c.save i.val).1 = some ((c.drives.get i).fileName, (saved.drives.get i).image) ∧
        (∀ k, k < 8 ∨ 12 ≤ k → (saved.drives.get i).image[k]? = (c.drives.get i).image[k]?) ∧
        (ejected.drives.get i).dirty = false ∧ (ejected.drives.get i).image = #[]) ∧
    ∀ (m m' : Machine) (s : SaveState), m.restoreState s = .ok m' →
      m.disk.act (.restore s.disk) = m'.disk ∧
        DriveState.capture (m'.disk.drives.get i) = driveState s.disk i := by
  refine ⟨fun actions => Controller.image_actAll actions fun _ => rfl, ?_, ?_, ?_⟩
  · intro fileName bytes image hdecode inserted
    have hget : inserted.drives.get i = (c.drives.get i).load image := by
      have hinsert := (c.insert_eq_ok_iff).mpr ⟨i, image, rfl, hdecode, rfl, rfl⟩
      have hinserted := Controller.get_of_insert hinsert hdecode
      rwa [show inserted = _ from (c.perform_insert i.val fileName bytes).trans (by rw [hinsert])]
    have hmarked : (inserted.drives.get i).dirty = true ↔ ¬HasWozMagic bytes := by
      rw [hget]
      exact converted_iff hdecode
    refine ⟨by rw [hget]; rfl, hmarked, fun hnone actions hactions => ?_⟩
    exact Controller.dirty_actAll hactions (hmarked.mpr hnone)
  · intro hdisk saved ejected
    obtain ⟨hgiven, hsaved⟩ := Controller.save_of_hasDisk hdisk
    have hsaved' : saved.drives.get i = _ := hsaved
    have hejected : ejected.drives.get i = (c.drives.get i).clear := by
      rw [show ejected = _ from (c.perform_eject i.val).trans (by rw [Controller.eject_of_hasDisk hdisk])]
      exact Drives.get_modify_self _ _ _
    rw [hsaved', hejected]
    exact ⟨rfl, hgiven, fun k hk => getElem?_updateChecksum _ hk, rfl, rfl⟩
  · intro m m' s hrestore
    have hdisk := restore_of_restoreState hrestore
    refine ⟨?_, Controller.capture_of_restore hdisk i⟩
    rw [Controller.act_restore, hdisk]

end AppleII.Disk
