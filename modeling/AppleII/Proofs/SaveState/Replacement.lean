import AppleII.Proofs.SaveState.RoundTrip

/-!
# What a restored machine keeps

Whether a save state is accepted does not depend on the machine (`Machine.restoreState_eq`), and what is accepted
replaces all that a save state can hold but the switches that it does not name (`Machine.saveState_eq_of_restoreState`).
Two machines that restored the same save state are saved alike exactly if they agreed on these switches before
(`Machine.saveState_eq_iff_of_restoreState`).
-/

namespace AppleII

/-- What is decoded of a save state before it is put into a machine. -/
def SaveState.payload (s : SaveState) : Except StateError (Vector UInt8 Cell.count × Fin 2 × Disk.Drives) := do
  s.checkVersion
  let image ← SaveState.decodeBytes s.memory
  let ram ← Memory.ramOfImage image
  let disks ← s.disk.decode
  return (ram, disks)

namespace Switches

/-- The same map makes two states of the switches equal exactly if they agree on what it does not name. -/
theorem applyMap_eq_iff {sw sw' : Switches} {names : Std.ExtTreeMap String Bool} :
    sw.applyMap names = sw'.applyMap names ↔ ∀ s : Switch, s.name ∉ names → sw.isSet s = sw'.isSet s := by
  constructor
  · intro h s hs
    have hnone : names[s.name]? = none := Std.ExtTreeMap.getElem?_eq_none hs
    have hset := congrArg (isSet · s) h
    simpa only [isSet_applyMap, hnone, Option.getD_none] using hset
  · intro h
    refine ext_isSet fun s => ?_
    rw [isSet_applyMap, isSet_applyMap]
    cases hs : names[s.name]? with
    | some on => rfl
    | none => exact h s fun hmem => by simp [Std.ExtTreeMap.getElem?_eq_some_getElem hmem] at hs

end Switches

namespace Machine

variable {m m' m₁ m₁' m₂ m₂' : Machine} {s : SaveState}

/-- The machine has no say in what is accepted. -/
theorem restoreState_eq (m : Machine) (s : SaveState) :
    m.restoreState s = s.payload.map fun p => m.install s p.1 p.2.1 p.2.2 := by
  unfold restoreState SaveState.payload
  cases s.checkVersion with
  | error e => rfl
  | ok _ =>
    cases SaveState.decodeBytes s.memory with
    | error e => rfl
    | ok image =>
      simp only [ok_bind]
      cases Memory.ramOfImage image with
      | error e => rfl
      | ok ram => cases s.disk.decode <;> rfl

theorem restoreState_eq_error_iff {e : StateError} : m.restoreState s = .error e ↔ s.payload = .error e := by
  rw [restoreState_eq]
  cases s.payload with
  | error e' => rw [Except.map, Except.error.injEq, Except.error.injEq]
  | ok p => simp [Except.map]

/-- The switches have no say in it either. -/
theorem exists_restoreState_switches (h : m.restoreState s = .ok m') (names : Std.ExtTreeMap String Bool) :
    ∃ m₁, m.restoreState { s with switches := names } = .ok m₁ := by
  have hpayload : { s with switches := names }.payload = s.payload := rfl
  rw [restoreState_eq] at h ⊢
  rw [hpayload]
  cases hp : s.payload with
  | error e =>
    rw [hp] at h
    cases h
  | ok p => exact ⟨_, rfl⟩

theorem saveState_eq_of_restoreState (h : m.restoreState s = .ok m') :
    m'.saveState = { s with switches := (m.switches.applyMap s.switches).toMap } := by
  obtain ⟨hversion, ram, current, drives, hmemory, hdisk, rfl⟩ := restoreState_eq_ok_iff.mp h
  exact saveState_install hversion hmemory hdisk

theorem switches_of_restoreState (h : m.restoreState s = .ok m') : m'.switches = m.switches.applyMap s.switches := by
  obtain ⟨-, ram, current, drives, -, -, rfl⟩ := restoreState_eq_ok_iff.mp h
  rfl

theorem saveState_eq_iff_of_restoreState (h₁ : m₁.restoreState s = .ok m₁') (h₂ : m₂.restoreState s = .ok m₂') :
    m₁'.saveState = m₂'.saveState ↔
      ∀ sw : Switch, sw.name ∉ s.switches → m₁.switches.isSet sw = m₂.switches.isSet sw := by
  rw [saveState_eq_of_restoreState h₁, saveState_eq_of_restoreState h₂, ← Switches.applyMap_eq_iff]
  constructor
  · intro h
    exact Switches.toMap_injective (congrArg SaveState.switches h)
  · intro h
    rw [h]

end Machine

/-- **A restored machine depends on the save state and on the switches that this does not name.** A save state is
accepted by all machines or refused by all of them with the same error.  A machine that accepts it has everything from
it, save the switches that it does not name: these stay as they are.  So two machines, however different, are saved
alike after they restored the same save state, exactly if they agreed on these switches before. -/
theorem restoreState_replaces (s : SaveState) :
    (∀ (m m' : Machine) (e : StateError), m.restoreState s = .error e → m'.restoreState s = .error e) ∧
      (∀ m m' : Machine, m.restoreState s = .ok m' →
        { m'.saveState with switches := s.switches } = s ∧
          ∀ sw : Switch, m'.switches.isSet sw = s.switches[sw.name]?.getD (m.switches.isSet sw)) ∧
      ∀ m₁ m₁' m₂ m₂' : Machine, m₁.restoreState s = .ok m₁' → m₂.restoreState s = .ok m₂' →
        (m₁'.saveState = m₂'.saveState ↔
          ∀ sw : Switch, sw.name ∉ s.switches → m₁.switches.isSet sw = m₂.switches.isSet sw) := by
  refine ⟨fun m m' e h => ?_, fun m m' h => ⟨?_, fun sw => ?_⟩, fun m₁ m₁' m₂ m₂' h₁ h₂ => ?_⟩
  · exact Machine.restoreState_eq_error_iff.mpr (Machine.restoreState_eq_error_iff.mp h)
  · rw [Machine.saveState_eq_of_restoreState h]
  · rw [Machine.switches_of_restoreState h, Switches.isSet_applyMap]
  · exact Machine.saveState_eq_iff_of_restoreState h₁ h₂

/-- The save state of a new machine, without the switch of high resolution. -/
def withoutHires : SaveState :=
  { (Machine.ofModel .cmos).saveState with
    switches := (Machine.ofModel .cmos).saveState.switches.erase Switch.hires.name }

/-- A new machine in which one more switch is on. -/
def machineWith (sw : Switch) : Machine :=
  let m := Machine.ofModel .cmos
  { m with board.memory.switches := m.switches.set sw true }

theorem notMem_withoutHires_iff (sw : Switch) : sw.name ∉ withoutHires.switches ↔ sw = .hires := by
  have hname : Switch.hires.name = sw.name ↔ sw = .hires :=
    ⟨fun h => (Switch.name_injective h).symm, fun h => h ▸ rfl⟩
  have hmem : sw.name ∈ (Machine.ofModel .cmos).saveState.switches :=
    (Machine.mem_saveState_switches_iff _ _).mpr ⟨sw, rfl⟩
  simp [withoutHires, Std.ExtTreeMap.mem_erase, hname, hmem]

/-- Every machine accepts it. -/
theorem exists_restoreState_withoutHires (m : Machine) : ∃ m', m.restoreState withoutHires = .ok m' := by
  obtain ⟨m', h⟩ := Machine.exists_restoreState (Machine.restorable_ofModel .cmos) m
  exact Machine.exists_restoreState_switches h _

/-- Machines with different display pages are saved alike after they restored it, and refuse it alike in another
version. -/
theorem restoreState_replaces_withoutHires :
    (∃ m₁' m₂', (Machine.ofModel .cmos).restoreState withoutHires = .ok m₁' ∧
      (machineWith .page2).restoreState withoutHires = .ok m₂' ∧ m₁'.saveState = m₂'.saveState ∧
        { m₂'.saveState with switches := withoutHires.switches } = withoutHires) ∧
      (Machine.ofModel .cmos).restoreState { withoutHires with version := 2 } = .error (.version 2 1) ∧
      (machineWith .page2).restoreState { withoutHires with version := 2 } = .error (.version 2 1) := by
  obtain ⟨m₁', h₁⟩ := exists_restoreState_withoutHires (.ofModel .cmos)
  obtain ⟨m₂', h₂⟩ := exists_restoreState_withoutHires (machineWith .page2)
  obtain ⟨-, hall, hiff⟩ := restoreState_replaces withoutHires
  refine ⟨⟨m₁', m₂', h₁, h₂, (hiff _ _ _ _ h₁ h₂).mpr fun sw hsw => ?_, (hall _ _ h₂).1⟩, rfl, ?_⟩
  · rw [(notMem_withoutHires_iff sw).mp hsw]
    decide +kernel
  · exact (restoreState_replaces { withoutHires with version := 2 }).1 (.ofModel .cmos) _ _ rfl

/-- **A switch that a save state does not name shows through.** Two machines that differ in it alone are saved
differently after both restored the same save state. -/
theorem hires_shows_through :
    ∃ m₁' m₂', (Machine.ofModel .cmos).restoreState withoutHires = .ok m₁' ∧
      (machineWith .hires).restoreState withoutHires = .ok m₂' ∧ m₁'.saveState ≠ m₂'.saveState := by
  obtain ⟨m₁', h₁⟩ := exists_restoreState_withoutHires (.ofModel .cmos)
  obtain ⟨m₂', h₂⟩ := exists_restoreState_withoutHires (machineWith .hires)
  refine ⟨m₁', m₂', h₁, h₂, fun heq => ?_⟩
  have hsame := (Machine.saveState_eq_iff_of_restoreState h₁ h₂).mp heq .hires ((notMem_withoutHires_iff _).mpr rfl)
  exact absurd hsame (by decide +kernel)

end AppleII
