import AppleII.Proofs.SaveState.Drive
import AppleII.Proofs.SaveState.Switches

/-!
# Saving and restoring are inverse to each other

`restoreState_eq_ok_iff` says which save states a machine accepts and what it becomes.  A machine with
intact drives restores what it saved, and what any save state with the names of all switches restores
is saved as that state again (`saveState_restoreState`).
-/

namespace AppleII

namespace DiskState

theorem decode_eq_ok_iff {s : DiskState} {current : Fin 2} {drives : Disk.Drives} :
    s.decode = .ok (current, drives) ↔
      s.current = current.val ∧ s.first.decode 0 = .ok drives.first ∧
        s.second.decode 1 = .ok drives.second := by
  obtain ⟨first, second⟩ := drives
  by_cases h : s.current < 2
  · simp only [decode, dif_pos h, bind_eq_ok_iff]
    constructor
    · rintro ⟨a, ha, b, hb, heq⟩
      cases heq
      exact ⟨rfl, ha, hb⟩
    · rintro ⟨hc, ha, hb⟩
      refine ⟨first, ha, second, hb, ?_⟩
      simp only [hc]
      rfl
  · rw [decode, dif_neg h]
    constructor
    · intro he
      cases he
    · rintro ⟨hc, -, -⟩
      exact absurd (hc ▸ current.isLt) h

theorem decode_capture {c : Disk.Controller} (hc : ∀ i, (c.drives.get i).Intact) :
    (capture c).decode = .ok (c.current, c.drives) :=
  decode_eq_ok_iff.mpr ⟨rfl, DriveState.decode_capture (hc 0) 0, DriveState.decode_capture (hc 1) 1⟩

end DiskState

namespace Memory

theorem ramOfImage_eq_ok_iff {image : Array UInt8} {ram : Vector UInt8 Cell.count} :
    ramOfImage image = .ok ram ↔ ram.toArray = image := by
  by_cases h : image.size = Cell.count
  · rw [ramOfImage, dif_pos h, Except.ok.injEq]
    constructor
    · rintro rfl
      rfl
    · rintro rfl
      rfl
  · rw [ramOfImage, dif_neg h]
    constructor
    · intro he
      cases he
    · rintro rfl
      exact absurd ram.size_toArray h

end Memory

namespace Machine

/-- A save state is accepted when its version is known, its memory is the text of all RAM, and its disks
are consistent. -/
theorem restoreState_eq_ok_iff {m m' : Machine} {s : SaveState} :
    m.restoreState s = .ok m' ↔
      s.version = SaveState.currentVersion ∧ ∃ ram current drives,
        Base64.decode s.memory = .ok (Vector.toArray ram) ∧ s.disk.decode = .ok (current, drives) ∧
          m.install s ram current drives = m' := by
  simp only [restoreState, SaveState.checkVersion, bind_eq_ok_iff, SaveState.ensure_eq_ok_iff,
    SaveState.decodeBytes_eq_ok_iff, Memory.ramOfImage_eq_ok_iff]
  constructor
  · rintro ⟨-, hversion, -, hmemory, ram, rfl, ⟨current, drives⟩, hdisk, hm⟩
    exact ⟨hversion, ram, current, drives, hmemory, hdisk, Except.ok.inj hm⟩
  · rintro ⟨hversion, ram, current, drives, hmemory, hdisk, rfl⟩
    exact ⟨(), hversion, _, hmemory, ram, rfl, (current, drives), hdisk, rfl⟩

/-- A machine that a save state is put into has that state, apart from the names of the switches. -/
theorem saveState_install {m : Machine} {s : SaveState} {ram : Vector UInt8 Cell.count}
    {current : Fin 2} {drives : Disk.Drives} (hversion : s.version = SaveState.currentVersion)
    (hmemory : Base64.decode s.memory = .ok ram.toArray)
    (hdisk : s.disk.decode = .ok (current, drives)) :
    (m.install s ram current drives).saveState =
      { s with switches := (m.switches.applyMap s.switches).toMap } := by
  obtain ⟨hcurrent, hfirst, hsecond⟩ := DiskState.decode_eq_ok_iff.mp hdisk
  have hdisks : DiskState.capture (m.install s ram current drives).disk = s.disk := by
    simp only [DiskState.capture, disk, install, DriveState.capture_of_decode hfirst,
      DriveState.capture_of_decode hsecond, ← hcurrent]
  have hram := Base64.encode_of_decode_eq_ok hmemory
  simp only [saveState, hdisks, ← hversion]
  simp only [memory, switches, clock, install, hram, Processor.capture, Processor.restore]

/-- Both drives of the machine are intact. -/
def Restorable (m : Machine) : Prop := ∀ i, (m.disk.drives.get i).Intact

theorem restorable_ofModel (model : Processor.Model) : (ofModel model).Restorable := by
  have hempty : Disk.Drive.empty.Intact := by
    refine ⟨by decide, by decide, fun h hstart => absurd ?_ hstart⟩
    simp [Disk.Drive.trackAt, Disk.Drive.empty]
  intro i
  show (if i = 0 then Disk.Drive.empty else Disk.Drive.empty).Intact
  rwa [ite_self]

/-- What a machine with intact drives saved is put into another one as it was. -/
theorem restoreState_of_restorable {m : Machine} (hm : m.Restorable) (m₂ : Machine) :
    m₂.restoreState m.saveState = .ok (m₂.install m.saveState m.memory.ram m.disk.current m.disk.drives) :=
  restoreState_eq_ok_iff.mpr
    ⟨rfl, _, _, _, Base64.decode_encode m.memory.ram.toArray, DiskState.decode_capture hm, rfl⟩

/-- Every machine accepts what a machine with intact drives saved. -/
theorem exists_restoreState {m : Machine} (hm : m.Restorable) (m₂ : Machine) :
    ∃ m₃, m₂.restoreState m.saveState = .ok m₃ := ⟨_, restoreState_of_restorable hm m₂⟩

/-- Whatever save state is put into a machine, its drives are intact afterwards. -/
theorem restorable_of_restoreState {m m' : Machine} {s : SaveState} (h : m.restoreState s = .ok m') :
    m'.Restorable := by
  obtain ⟨-, ram, current, drives, -, hdisk, rfl⟩ := restoreState_eq_ok_iff.mp h
  obtain ⟨-, hfirst, hsecond⟩ := DiskState.decode_eq_ok_iff.mp hdisk
  exact Fin.forall_fin_two.mpr ⟨DriveState.intact_of_decode hfirst, DriveState.intact_of_decode hsecond⟩

theorem mem_saveState_switches_iff (m : Machine) (n : String) :
    n ∈ m.saveState.switches ↔ ∃ sw : Switch, sw.name = n := Switches.mem_toMap_iff m.switches n

/-- A machine that was given a state with the names of all switches has that state. -/
theorem saveState_of_restoreState {s : SaveState} {m m' : Machine}
    (names : ∀ n, n ∈ s.switches ↔ ∃ sw : Switch, sw.name = n) (h : m.restoreState s = .ok m') :
    m'.saveState = s := by
  obtain ⟨hversion, ram, current, drives, hmemory, hdisk, rfl⟩ := restoreState_eq_ok_iff.mp h
  rw [saveState_install hversion hmemory hdisk, Switches.toMap_applyMap _ names]

end Machine

/-- **Saving and restoring are inverse to each other.** A machine with intact drives can be restored
from what it saved, in any machine, which then saves the same state.  A save state that names exactly
the switches there are is saved again by every machine that accepts it. -/
theorem saveState_restoreState :
    (∀ m m₂ : Machine, m.Restorable →
      ∃ m₃, m₂.restoreState m.saveState = .ok m₃ ∧ m₃.saveState = m.saveState) ∧
    ∀ (s : SaveState) (m m' : Machine), (∀ n, n ∈ s.switches ↔ ∃ sw : Switch, sw.name = n) →
      m.restoreState s = .ok m' → m'.saveState = s := by
  constructor
  · intro m m₂ hm
    obtain ⟨m₃, h⟩ := Machine.exists_restoreState hm m₂
    exact ⟨m₃, h, Machine.saveState_of_restoreState m.mem_saveState_switches_iff h⟩
  · intro s m m' names h
    exact Machine.saveState_of_restoreState names h

/-- A machine that was never switched on can be restored in one with another processor. -/
theorem saveState_restoreState_ofModel :
    (Machine.ofModel .nmos).Restorable ∧
      (∃ m₃, (Machine.ofModel .cmos).restoreState (Machine.ofModel .nmos).saveState = .ok m₃ ∧
        m₃.saveState = (Machine.ofModel .nmos).saveState) ∧
      ∀ n, n ∈ (Machine.ofModel .nmos).saveState.switches ↔ ∃ sw : Switch, sw.name = n :=
  ⟨Machine.restorable_ofModel _, saveState_restoreState.1 _ _ (Machine.restorable_ofModel _),
    Machine.mem_saveState_switches_iff _⟩

end AppleII
