import AppleII.Machine.InPlace
import AppleII.Proofs.SaveState.Malformed

/-!
# What is refused changes nothing

Every change in place that may be refused is the `transaction` of a pure change: it writes one part of its
machine after the other, but never before something that is still refused.  A save state is refused exactly
when it is `SaveState.Malformed`, if it fits words (`refused_unchanged`); the end of a track is a sum that nothing
checks (`restore_breaks_off`).
-/

namespace AppleII

section Transactions

variable {ε ε' σ α β : Type}

/-- A change that is made as a whole or, when it is refused, not at all. -/
def transaction (f : σ → Except ε (α × σ)) : EStateM ε σ α := fun s =>
  match f s with
  | .ok (a, s') => .ok a s'
  | .error e => .error e s

/-- Whenever the change is refused, everything is as before. -/
def Atomic (x : EStateM ε σ α) : Prop := ∀ s e s', x.run s = .error e s' → s' = s

theorem run_transaction (f : σ → Except ε (α × σ)) (s : σ) :
    (transaction f).run s =
      match f s with
      | .ok (a, s') => .ok a s'
      | .error e => .error e s := rfl

theorem run_transaction_eq_error_iff {f : σ → Except ε (α × σ)} {s s' : σ} {e : ε} :
    (transaction f).run s = .error e s' ↔ f s = .error e ∧ s' = s := by
  rw [run_transaction]
  cases f s with
  | ok p => simp
  | error e' => simp [eq_comm]

theorem atomic_transaction (f : σ → Except ε (α × σ)) : Atomic (transaction f) :=
  fun _ _ _ h => (run_transaction_eq_error_iff.mp h).2

theorem check_ok_bind (a : α) (f : α → EStateM ε σ β) : (check (.ok a) >>= f) = f a := rfl

/-- A change of the memory is made as a whole in the machine. -/
theorem Machine.onMemory_transaction (explain : ε → ε') (f : Memory → Except ε (α × Memory)) :
    onMemory explain (transaction f) = transaction fun m : Machine =>
      ((f m.memory).mapError explain).map fun (a, memory) => (a, { m with board.memory := memory }) := by
  funext m
  unfold onMemory transaction EStateM.run
  beta_reduce
  cases f m.memory <;> rfl

end Transactions

/-! ## Disks -/

namespace Disk.Controller

theorem insertDisk_eq (drive : Nat) (fileName : String) (bytes : Array UInt8) :
    insertDisk drive fileName bytes = transaction fun c => c.insert drive fileName bytes := by
  funext c
  unfold insertDisk transaction insert
  cases driveNumber drive with
  | error e => rfl
  | ok d =>
    cases Image.decode fileName bytes with
    | error e => rfl
    | ok disk => rfl

theorem ejectDisk_eq (drive : Nat) :
    ejectDisk drive = transaction fun c => (c.eject drive).map fun c' => ((), c') := by
  funext c
  unfold ejectDisk transaction eject
  cases driveNumber drive with
  | error e => rfl
  | ok d =>
    show (if (c.drives.get d).hasDisk then _ else _ : EStateM Error Controller Unit) c = _
    cases h : (c.drives.get d).hasDisk <;>
      simp only [bind, Except.bind, h] <;> rfl

end Disk.Controller

/-! ## ROMs -/

theorem Memory.plugSlotRom_eq (slot : Nat) (bytes : Array UInt8) :
    plugSlotRom slot bytes = transaction fun m => (m.setSlotRom slot bytes).map fun m' => ((), m') := by
  funext m
  unfold plugSlotRom transaction setSlotRom
  by_cases hslot : 1 ≤ slot ∧ slot ≤ 7
  · by_cases hsize : bytes.size = slotRomSize
    · simp only [dif_pos hslot, hsize]
      rfl
    · simp only [dif_pos hslot, if_neg hsize, if_pos (show bytes.size ≠ slotRomSize from hsize)]
      rfl
  · simp only [dif_neg hslot]
    rfl

theorem Memory.setSlotRom_diskSlot (m : Memory) {bytes : Array UInt8} (h : bytes.size = slotRomSize) :
    m.setSlotRom diskSlot.val bytes = .ok (m.installSlotRom diskSlot (slotRomOf bytes 0)) := by
  have hslot : 1 ≤ diskSlot.val ∧ diskSlot.val ≤ 7 := by decide
  rw [setSlotRom, dif_pos hslot, if_pos h]

namespace Machine

theorem plugSlotRom_eq (slot : Nat) (bytes : Array UInt8) :
    plugSlotRom slot bytes = transaction fun m : Machine =>
      (((m.memory.setSlotRom slot bytes).map fun memory => ((), memory)).mapError
        SlotRomError.message).map fun (u, memory) => (u, { m with board.memory := memory }) := by
  unfold plugSlotRom
  rw [Memory.plugSlotRom_eq, onMemory_transaction]

/-- The boot ROM is remembered before its slot is given it, but by then it is known to fit. -/
theorem plugDiskRom_eq (bytes : Array UInt8) :
    plugDiskRom bytes = transaction fun m : Machine =>
      ((m.loadDiskRom bytes).mapError DiskRomError.message).map fun m' => ((), m') := by
  funext m
  unfold plugDiskRom
  rw [plugSlotRom_eq]
  unfold transaction loadDiskRom
  by_cases hsize : bytes.size = slotRomSize
  · simp only [hsize, ne_eq, not_true_eq_false, if_false, Memory.setSlotRom_diskSlot _ hsize]
    by_cases hrom : isDiskRom (Memory.slotRomOf bytes 0)
    · simp only [hrom]
      rfl
    · simp only [hrom]
      rfl
  · simp only [hsize, ne_eq, not_false_eq_true, if_true]
    rfl

/-- RAM is checked before the disks are, and once more when it is replaced. -/
theorem restore_eq (s : SaveState) :
    restore s = transaction fun m : Machine => (m.restoreState s).map fun m' => ((), m') := by
  funext m
  unfold restore Memory.replaceRam transaction restoreState
  -- Check after check; once all have passed, both sides write the same.
  cases s.checkVersion with
  | error e => rfl
  | ok _ =>
    cases SaveState.decodeBytes s.memory with
    | error e => rfl
    | ok image =>
      simp only [check_ok_bind, ok_bind]
      cases Memory.ramOfImage image with
      | error e => rfl
      | ok ram =>
        cases s.disk.decode with
        | error e => rfl
        | ok p => rfl

theorem run_restore_of_ok {s : SaveState} {m m' : Machine} (h : m.restoreState s = .ok m') :
    (restore s).run m = .ok () m' := by
  rw [restore_eq, run_transaction, h]
  rfl

theorem run_restore_of_error {s : SaveState} {m : Machine} {e : StateError} (h : m.restoreState s = .error e) :
    (restore s).run m = .error e m := by
  rw [restore_eq, run_transaction, h]
  rfl

/-- A save state that is put into a machine also ends its resumption, and leaves the debugger alone; one that is
refused changes nothing. -/
theorem restore_cases (s : SaveState) (m : Machine) :
    (∃ e, (restore s).run m = .error e m) ∨
      ∃ m', (restore s).run m = .ok () m' ∧ m'.skipBreakpoint = false ∧ m'.debugger = m.debugger := by
  cases h : m.restoreState s with
  | error e => exact .inl ⟨e, run_restore_of_error h⟩
  | ok m' =>
    obtain ⟨-, ram, current, drives, -, -, rfl⟩ := restoreState_eq_ok_iff.mp h
    exact .inr ⟨m.install s ram current drives, run_restore_of_ok h, rfl, rfl⟩

end Machine

/-! ## The refusals -/

/-- **What is refused changes nothing.** A save state whose tracks end at numbers of 64 bits is refused exactly
when its version is not 1, its memory is not the text of 163840 bytes, it selects a drive that does not exist, or
one of its drives has a container that is no text of bytes, a table of tracks without 80 entries, a head or a
stepper out of range, or a track outside its container.  When one is refused, or a disk, its removal or a ROM is,
the controller or the machine is what it was, in every part. -/
theorem refused_unchanged (m : Machine) (s : SaveState) :
    (s.FitsWords → ((∃ e m', e ≠ .overflow ∧ (Machine.restore s).run m = .error e m') ↔ s.Malformed)) ∧
    Atomic (Machine.restore s) ∧
    (∀ (drive : Nat) (fileName : String) (bytes : Array UInt8),
      Atomic (Disk.Controller.insertDisk drive fileName bytes)) ∧
    (∀ drive : Nat, Atomic (Disk.Controller.ejectDisk drive)) ∧
    (∀ bytes : Array UInt8, Atomic (Machine.plugDiskRom bytes)) ∧
    ∀ (slot : Nat) (bytes : Array UInt8), Atomic (Machine.plugSlotRom slot bytes) := by
  refine ⟨fun hfits => ?_, ?_, fun drive fileName bytes => ?_, fun drive => ?_, fun bytes => ?_, fun slot bytes => ?_⟩
  · have hknown := Machine.restoreState_ne_overflow hfits m
    rw [← not_not (a := s.Malformed), ← Machine.exists_restoreState_iff (m := m)]
    cases h : m.restoreState s with
    | ok m' => simp [Machine.run_restore_of_ok h]
    | error e =>
      have he : e ≠ .overflow := fun heq => hknown (heq ▸ h)
      simp [Machine.run_restore_of_error h, he]
  · rw [Machine.restore_eq]
    exact atomic_transaction _
  · rw [Disk.Controller.insertDisk_eq]
    exact atomic_transaction _
  · rw [Disk.Controller.ejectDisk_eq]
    exact atomic_transaction _
  · rw [Machine.plugDiskRom_eq]
    exact atomic_transaction _
  · rw [Machine.plugSlotRom_eq]
    exact atomic_transaction _

/-- A save state of another version, a third drive, and ROMs without a byte or a slot are refused by a
machine that was never switched on. -/
theorem refused_unchanged_ofModel :
    let m := Machine.ofModel .nmos
    let c := m.disk
    (∃ e m', (Machine.restore { m.saveState with version := 2 }).run m = .error e m' ∧ m' = m) ∧
    (∃ e c', (Disk.Controller.insertDisk 2 "blank.dsk" #[]).run c = .error e c' ∧ c' = c) ∧
    (∃ e c', (Disk.Controller.ejectDisk 2).run c = .error e c' ∧ c' = c) ∧
    (∃ e m', (Machine.plugDiskRom #[]).run m = .error e m' ∧ m' = m) ∧
    ∃ e m', (Machine.plugSlotRom 0 #[]).run m = .error e m' ∧ m' = m := by
  intro m c
  obtain ⟨hrestore, hatomic, hinsert, heject, hdiskRom, hslotRom⟩ :=
    refused_unchanged m { m.saveState with version := 2 }
  have hstarts : ∀ start ∈ m.saveState.disk.first.trackStarts, start = 0 := by decide
  have hdrive : m.saveState.disk.first.FitsWords := fun hstart _ used =>
    absurd (hstarts _ (List.mem_of_getElem? hstart)) used
  obtain ⟨e, m', -, h⟩ := (hrestore ⟨hdrive, hdrive⟩).mpr (.version (Nat.succ_ne_self 1))
  exact ⟨⟨e, m', h, hatomic _ _ _ h⟩, ⟨_, _, rfl, hinsert 2 "blank.dsk" #[] _ _ _ rfl⟩,
    ⟨_, _, rfl, heject 2 _ _ _ rfl⟩, ⟨_, _, rfl, hdiskRom #[] _ _ _ rfl⟩,
    ⟨_, _, rfl, hslotRom 0 #[] _ _ _ rfl⟩⟩

/-- A track of one byte that begins at the last of all numbers lies outside its container, but is not refused. -/
theorem restore_breaks_off :
    let m := Machine.ofModel .cmos
    let d := m.saveState.disk.first
    let s := { m.saveState with
      disk.first.trackStarts := d.trackStarts.set 0 0xFFFFFFFFFFFFFFFF
      disk.first.trackBits := d.trackBits.set 0 8 }
    s.Malformed ∧ ¬∃ e m', e ≠ .overflow ∧ (Machine.restore s).run m = .error e m' := by
  intro m d s
  have hdata : Base64.encode Disk.Drive.empty.image = s.disk.first.data := rfl
  have hbreak : (match s.disk.decode with | .error e => decide (e = .overflow) | .ok _ => false) = true := by
    decide +kernel
  have hdisk : s.disk.decode = .error .overflow := by
    split at hbreak
    · next e herror => exact herror.trans (congrArg Except.error (of_decide_eq_true hbreak))
    · cases hbreak
  have hoverflow : m.restoreState s = .error .overflow := Machine.restoreState_saveState_of_disk_error hdisk
  refine ⟨.first (.track (h := 0) hdata rfl rfl (by decide) (by decide)), ?_⟩
  rintro ⟨e, m', he, hrun⟩
  rw [Machine.run_restore_of_error hoverflow] at hrun
  cases hrun
  exact he rfl

end AppleII
