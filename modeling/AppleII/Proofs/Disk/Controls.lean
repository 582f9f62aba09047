import AppleII.Proofs.Disk.Registers

/-!
# The controls of the drives

Four registers select a drive, or a mode of the drive that is selected.  Each of them has a soft switch beside the
field of the controller, which a reset turns off while the field stays.  From the history of the controls (`Control`)
it follows what the controller and its switches are (`Controller.Shows`, `Switches.Shows`), and when they agree
(`Control.agree_select_iff`, `Control.agree_mode`).
-/

namespace AppleII.Disk

/-- What selects a drive or a mode, or turns the soft switches of both off. -/
inductive Control where
  | select (drive : Fin 2)
  /-- The selected drive is put into write mode or read mode. -/
  | mode (write : Bool)
  /-- A boot or a reset. -/
  | reset
  deriving DecidableEq, Repr

namespace Control

/-! ## What a history comes to

The last control comes first in a history. -/

/-- The drive that was selected last. -/
def selected : List Control → Fin 2
  | [] => driveOne
  | .select d :: _ => d
  | .mode _ :: before | .reset :: before => selected before

/-- The mode that a drive was put into last, while it was selected. -/
def modeOf (i : Fin 2) : List Control → Bool
  | [] => false
  | .mode write :: before => if selected before = i then write else modeOf i before
  | .select _ :: before | .reset :: before => modeOf i before

/-- The soft switch of the selection. -/
def selectSwitch : List Control → Bool
  | [] => false
  | .select d :: _ => d == driveTwo
  | .reset :: _ => false
  | .mode _ :: before => selectSwitch before

/-- The soft switch of the mode. -/
def writeSwitch : List Control → Bool
  | [] => false
  | .mode write :: _ => write
  | .reset :: _ => false
  | .select _ :: before => writeSwitch before

/-! ## Agreement -/

variable {controls since before : List Control}

theorem selected_append (h : ∀ d, .select d ∉ since) : selected (since ++ before) = selected before := by
  induction since with
  | nil => rfl
  | cons c since ih =>
    have hrest := ih fun d hd => h d (List.mem_cons_of_mem _ hd)
    cases c with
    | select d => exact absurd List.mem_cons_self (h d)
    | mode | reset => exact hrest

theorem modeOf_append (h : ∀ write, .mode write ∉ since) (i : Fin 2) :
    modeOf i (since ++ before) = modeOf i before := by
  induction since with
  | nil => rfl
  | cons c since ih =>
    have hrest := ih fun write hwrite => h write (List.mem_cons_of_mem _ hwrite)
    cases c with
    | mode write => exact absurd List.mem_cons_self (h write)
    | select | reset => exact hrest

theorem writeSwitch_append (h : ∀ write, .mode write ∉ since) (hreset : .reset ∉ since) :
    writeSwitch (since ++ before) = writeSwitch before := by
  induction since with
  | nil => rfl
  | cons c since ih =>
    have hrest := ih (fun write hwrite => h write (List.mem_cons_of_mem _ hwrite))
      (fun hc => hreset (List.mem_cons_of_mem _ hc))
    cases c with
    | mode write => exact absurd List.mem_cons_self (h write)
    | reset => exact absurd List.mem_cons_self hreset
    | select => exact hrest

/-- Without an access that asks for write mode, the switch of the mode is not turned on. -/
theorem writeSwitch_append_of_off (h : ∀ write, .mode write ∉ since) (hoff : writeSwitch before = false) :
    writeSwitch (since ++ before) = false := by
  induction since with
  | nil => exact hoff
  | cons c since ih =>
    have hrest := ih fun write hwrite => h write (List.mem_cons_of_mem _ hwrite)
    cases c with
    | mode write => exact absurd List.mem_cons_self (h write)
    | reset => rfl
    | select => exact hrest

/-- The switch of the selection is on for the second drive only. -/
theorem selected_of_selectSwitch (h : selectSwitch controls = true) : selected controls = driveTwo := by
  induction controls with
  | nil => cases h
  | cons c before ih =>
    cases c with
    | select d => exact eq_of_beq h
    | mode => exact ih h
    | reset => cases h

/-- **The selection** agrees with its switch, unless a reset found the second drive selected, and none was selected
since. -/
theorem agree_select_iff : (selected controls = driveTwo ↔ selectSwitch controls = true) ↔
    ¬∃ since before, controls = since ++ .reset :: before ∧ (∀ d, .select d ∉ since) ∧ selected before = driveTwo := by
  constructor
  · rintro hagree ⟨since, before, rfl, hsince, hbefore⟩
    have hselected : selected (since ++ .reset :: before) = driveTwo := (selected_append hsince).trans hbefore
    have hswitch := hagree.mp hselected
    clear hagree hselected
    -- Back to the reset the switch is on, and the reset turned it off.
    induction since with
    | nil => cases hswitch
    | cons c since ih =>
      have hrest : ∀ d, .select d ∉ since := fun d hd => hsince d (List.mem_cons_of_mem _ hd)
      cases c with
      | select d => exact absurd List.mem_cons_self (hsince d)
      | mode => exact ih hrest hswitch
      | reset => cases hswitch
  · intro hnone
    refine ⟨fun hselected => ?_, selected_of_selectSwitch⟩
    induction controls with
    | nil => cases hselected
    | cons c before ih =>
      cases c with
      | select d => exact beq_iff_eq.mpr hselected
      | mode write =>
        refine ih (fun ⟨since, before', heq, hsince, hbefore⟩ => hnone ?_) hselected
        refine ⟨.mode write :: since, before', by rw [heq]; rfl, fun d hd => ?_, hbefore⟩
        rcases List.mem_cons.mp hd with hd | hd
        · cases hd
        · exact hsince d hd
      | reset => exact absurd ⟨[], before, rfl, fun _ => List.not_mem_nil, hselected⟩ hnone

/-- **The mode** of the selected drive agrees with its switch, when that drive was selected at the last access for a
mode, unless that was one for write mode, and there was a reset since. -/
theorem agree_mode {write : Bool} (hsince : ∀ write, .mode write ∉ since)
    (hselected : selected (since ++ .mode write :: before) = selected before) (hreset : write = true → .reset ∉ since) :
    modeOf (selected (since ++ .mode write :: before)) (since ++ .mode write :: before) = write ∧
      writeSwitch (since ++ .mode write :: before) = write := by
  constructor
  · rw [hselected, modeOf_append hsince]
    exact if_pos rfl
  · cases write with
    | true => rw [writeSwitch_append hsince (hreset rfl)]; rfl
    | false => exact writeSwitch_append_of_off hsince rfl

theorem agree_of_no_mode (h : ∀ write, .mode write ∉ controls) (i : Fin 2) :
    modeOf i controls = false ∧ writeSwitch controls = false := by
  have hmode : modeOf i (controls ++ []) = modeOf i [] := modeOf_append h i
  have hswitch : writeSwitch (controls ++ []) = false := writeSwitch_append_of_off h rfl
  rw [List.append_nil] at hmode hswitch
  exact ⟨hmode, hswitch⟩

end Control

namespace Controller

variable {c c' : Controller} {controls : List Control}

/-- The selection and the modes are what a history of controls comes to. -/
structure Shows (c : Controller) (controls : List Control) : Prop where
  current : c.current = Control.selected controls
  writeMode : ∀ i, (c.drives.get i).writeMode = Control.modeOf i controls

theorem Shows.quiet (h : c.Shows controls) (hquiet : c.Quiet c') (hcurrent : c'.current = c.current) :
    c'.Shows controls :=
  ⟨hcurrent.trans h.current, fun i => (hquiet i).writeMode.trans (h.writeMode i)⟩

/-- The control of a register. -/
def control? (reg : UInt8) : Option Control :=
  match reg &&& 0x0F with
  | 0xA => some (.select driveOne)
  | 0xB => some (.select driveTwo)
  | 0xE => some (.mode false)
  | 0xF => some (.mode true)
  | _ => none

/-- The drive that is selected after an access. -/
theorem current_access (c : Controller) (reg : UInt8) (value : Option UInt8) (cycle : Nat) (sw : Switches) :
    (c.access reg value cycle sw).2.current =
      if reg &&& 0x0F = 0xA then driveOne else if reg &&& 0x0F = 0xB then driveTwo else c.current := by
  have hflush := (c.worked_flushIfWriting cycle).current
  unfold access
  split
  · next h => rw [h]; rfl
  · next h => rw [h]; exact c.startMotor_frame.1
  · next h => rw [h]; exact (c.select_frame driveOne).1
  · next h => rw [h]; exact (c.select_frame driveTwo).1
  · next h => rw [h]; exact c.worked_readData.current
  · next h => rw [h]; exact ((c.flushIfWriting cycle).worked_loadData value).current.trans hflush
  · next h => rw [h]; exact ((c.flushIfWriting cycle).worked_setWriteMode false).current.trans hflush
  · next h =>
    rw [h]
    exact (worked_loadData { c.setWriteMode true with previousCycle := cycle } value).current.trans
      (c.worked_setWriteMode true).current
  · next _ _ hA hB _ _ _ _ =>
    rw [if_neg hA, if_neg hB]
    exact (c.worked_stepPhases sw.phases).current

/-- One of the drives is given a mode. -/
theorem writeMode_modify (ds : Drives) (i j : Fin 2) (on : Bool) :
    ((ds.modify i fun d => { d with writeMode := on }).get j).writeMode =
      if i = j then on else (ds.get j).writeMode := by
  split
  · next hij =>
    subst hij
    rw [Drives.get_modify_self]
  · next hij => rw [Drives.get_modify_of_ne _ _ hij]

/-- **An access** goes into the history when it is one to a register with a control. -/
theorem Shows.access (h : c.Shows controls) (reg : UInt8) (value : Option UInt8) (cycle : Nat) (sw : Switches) :
    (c.access reg value cycle sw).2.Shows ((control? reg).toList ++ controls) := by
  have hcurrent := c.current_access reg value cycle sw
  have htouched := c.touched_access reg value cycle sw
  generalize (c.access reg value cycle sw).2 = c' at hcurrent htouched ⊢
  unfold control?
  cases htouched with
  | load hreg hdrives =>
    rw [hreg] at hcurrent ⊢
    refine ⟨hcurrent.trans h.current, fun i => ?_⟩
    rw [hdrives, writeMode_flushIfWriting, h.writeMode]
    rfl
  | readMode hreg hdrives =>
    rw [hreg] at hcurrent ⊢
    refine ⟨hcurrent.trans h.current, fun i => ?_⟩
    rw [hdrives, writeMode_modify, writeMode_flushIfWriting, h.current, h.writeMode]
    rfl
  | writeMode hreg hdrives =>
    rw [hreg] at hcurrent ⊢
    refine ⟨hcurrent.trans h.current, fun i => ?_⟩
    rw [hdrives, writeMode_modify, h.current, h.writeMode]
    rfl
  | quiet hreg hquiet =>
    have hmode (i : Fin 2) := (hquiet i).writeMode.trans (h.writeMode i)
    split
    · next hA =>
      rw [hA] at hcurrent
      exact ⟨hcurrent, hmode⟩
    · next hB =>
      rw [hB] at hcurrent
      exact ⟨hcurrent, hmode⟩
    · next hE => exact absurd hE hreg.2.1
    · next hF => exact absurd hF hreg.2.2
    · next hA hB _ _ =>
      rw [if_neg hA, if_neg hB] at hcurrent
      exact ⟨hcurrent.trans h.current, hmode⟩

/-! ## Time and disks -/

theorem current_motorTimeout (c : Controller) (sw : Switches) : (c.motorTimeout sw).current = c.current := by
  unfold motorTimeout
  split
  · rfl
  · exact (c.setMotor_frame c.current false).1

theorem Shows.update (h : c.Shows controls) (cycle : Nat) (sw : Switches) : (c.update cycle sw).Shows controls := by
  refine h.quiet (c.quiet_update cycle sw) ?_
  unfold Controller.update
  split
  · split
    · exact current_motorTimeout _ sw
    · rfl
  · rfl

/-- A reset leaves the selection and the modes as they are. -/
theorem Shows.reset (h : c.Shows controls) (sw : Switches) : (c.reset sw).1.Shows (.reset :: controls) := by
  obtain ⟨hcurrent, hmode⟩ := h.quiet (c.quiet_reset sw) (current_motorTimeout { c with motorOffAt := none } _)
  exact ⟨hcurrent, hmode⟩

/-- A drive is given another disk or none, and its mode is left alone. -/
theorem Shows.modify (h : c.Shows controls) (i : Fin 2) {f : Drive → Drive}
    (hf : ∀ d, (f d).writeMode = d.writeMode) : Shows { c with drives := c.drives.modify i f } controls := by
  refine ⟨h.current, fun j => ?_⟩
  have hmode := get_modify_of (R := fun d d' => d'.writeMode = d.writeMode) (fun _ => rfl) c.drives i (hf _) j
  exact hmode.trans (h.writeMode j)

theorem Shows.insert (h : c.Shows controls) {drive : Nat} {fileName : String} {bytes : Array UInt8}
    {w : Option Warning} (hinsert : c.insert drive fileName bytes = .ok (w, c')) : c'.Shows controls := by
  obtain ⟨i, disk, -, -, -, rfl⟩ := insert_eq_ok_iff.mp hinsert
  obtain ⟨hcurrent, hmode⟩ := h.modify i (f := fun u => u.load disk) fun _ => rfl
  exact ⟨hcurrent, hmode⟩

theorem Shows.eject (h : c.Shows controls) {drive : Nat} (heject : c.eject drive = .ok c') : c'.Shows controls := by
  rcases eject_cases heject with rfl | ⟨i, -, rfl⟩
  · exact h
  · obtain ⟨hcurrent, hmode⟩ := h.modify i (f := Drive.clear) fun _ => rfl
    exact ⟨hcurrent, hmode⟩

theorem Shows.save (h : c.Shows controls) (drive : Nat) : (c.save drive).2.Shows controls := by
  unfold Controller.save
  split
  · dsimp only
    split
    · exact h.modify _ (f := fun u => { u with image := updateChecksum u.image, dirty := false }) fun _ => rfl
    · exact h
  · exact h

end Controller

end AppleII.Disk
