import AppleII.Machine.Basic

/-!
# Where a machine starts

A boot and a reset let ROM answer at the reset vector, whatever the switches were before, so that the first
instruction is the one that the vector in ROM names (`Machine.pc_reset`, `Machine.pc_boot`).
-/

namespace AppleII

/-- A ROM image of the size of ROM is taken as it is. -/
theorem Memory.getElem_romOfImage {image : Array UInt8} (hsize : image.size = romSize) {i : Nat}
    (hi : i < romSize) : (romOfImage image)[i] = getElem image i (hsize ▸ hi) := by
  have hused : romBytesUsed image.size = romSize := by
    rw [hsize]
    decide
  have hfirst : image.size + i - romSize = i := by omega
  unfold romOfImage
  rw [Vector.getElem_ofFn]
  simp only [hused, Nat.le_add_left, if_true, hfirst]
  rw [Array.getD_eq_getD_getElem?, Array.getElem?_eq_getElem (hsize ▸ hi)]
  rfl

/-- Installing a ROM turns no switch. -/
theorem Memory.switches_loadRom (m : Memory) (image : Array UInt8) : (m.loadRom image).switches = m.switches := by
  unfold loadRom
  simp only
  split
  · unfold installSlotRom
    rfl
  · rfl

namespace Board

variable {b : Board} {address : UInt16}

theorem clock_read (b : Board) (address : UInt16) : (b.read address).2.clock = b.clock := by
  unfold read accessIoPage
  split
  · split <;> rfl
  · rfl

theorem clock_write (b : Board) (address : UInt16) (value : UInt8) : (b.write address value).clock = b.clock := by
  unfold write accessIoPage
  split
  · split <;> rfl
  · rfl

/-- Where the RAM of the language card is not read, ROM answers. -/
theorem read_rom (hcard : b.memory.switches.isSet .cardRead = false)
    (hio : Memory.isIoPage address = false) (haddress : 0xD000 ≤ address) :
    b.read address = (getElem b.memory.rom (address.toNat % romSize) (Nat.mod_lt _ (by decide)), b) := by
  have hram : ¬ address < 0xC000 := by
    rw [UInt16.le_iff_toNat_le] at haddress
    rw [UInt16.lt_iff_toNat_lt]
    simp only [UInt16.reduceToNat] at haddress ⊢
    omega
  have hslots : ¬ address < 0xD000 := UInt16.not_lt.mpr haddress
  have hselect : Cell.select? b.memory.switches false address = none := by
    simp [Cell.select?, hram, hslots, hcard]
  have hinternal : Memory.usesInternalRom b.memory.switches address = true := by
    have h : 0xC800 ≤ address := UInt16.le_trans (by decide) haddress
    simp [Memory.usesInternalRom, h]
  simp [read, hio, Memory.peek, hselect, Memory.romByte, hinternal]

theorem read_languageCard (hio : Memory.isIoPage address = true) (h : Route.ofAddress address = .languageCard) :
    b.read address = (0, { b with
      memory.switches := Memory.accessCard (b.memory.switches.touch address false) (address &&& 0x0F) false }) := by
  unfold read accessIoPage Memory.touch
  rw [if_pos hio, h]
  simp only [Memory.handle, Option.isSome_none]

/-- The soft switch that a reset reads selects ROM. -/
theorem read_romSwitch (b : Board) :
    b.read 0xC082 = (0, { b with memory.switches := Memory.accessCard b.memory.switches 0x02 false }) := by
  have hio : Memory.isIoPage 0xC082 = true := by decide
  have hroute : Route.ofAddress 0xC082 = .languageCard := by
    rw [Route.ofAddress_eq]
    decide
  have htoggle : Switch.toggle? 0xC082 = none := by
    rw [Switch.toggle?_eq]
    decide +kernel
  rw [read_languageCard hio hroute, Switches.touch_of_none htoggle]
  rfl

/-- A reset of the processor fetches the reset vector from ROM. -/
theorem pc_reset (p : Processor) (hcard : b.memory.switches.isSet .cardRead = false) :
    (p.reset b).1.regs.pc = Processor.word b.memory.rom[0x3FFC] b.memory.rom[0x3FFD] := by
  have hlow : b.read 0xFFFC = _ := read_rom hcard (by decide) (by decide)
  have hhigh : b.read 0xFFFD = _ := read_rom hcard (by decide) (by decide)
  show Processor.word (b.read 0xFFFC).1 ((b.read 0xFFFC).2.read 0xFFFD).1 = _
  rw [hlow, hhigh]
  rfl

/-- The reset vector lies outside the I/O page, so that fetching it changes nothing. -/
theorem bus_reset (p : Processor) (b : Board) : (p.reset b).2 = b := by
  show ((b.read 0xFFFC).2.read 0xFFFD).2 = b
  have hlow : Memory.isIoPage 0xFFFC = false := by decide
  have hhigh : Memory.isIoPage 0xFFFD = false := by decide
  simp only [read, hlow, hhigh, Bool.false_eq_true, if_false]

end Board

namespace Machine

theorem rom_loadRom (m : Machine) (image : Array UInt8) :
    (m.loadRom image).memory.rom = Memory.romOfImage image := by
  unfold loadRom Memory.loadRom
  simp only
  split <;> split <;> rfl

theorem switches_loadRom (m : Machine) (image : Array UInt8) : (m.loadRom image).switches = m.switches := by
  unfold loadRom
  simp only
  split
  · exact m.memory.switches_loadRom image
  · exact m.memory.switches_loadRom image

/-- A reset starts the processor on a board whose ROM was selected, and leaves the debugger alone. -/
theorem reset_cases (m : Machine) :
    ∃ board, m.reset = { m with
      cpu := (m.cpu.reset (Board.read { m.board with memory.switches := .reset } 0xC082).2).1
      board
      skipBreakpoint := false } := by
  unfold reset
  dsimp only
  cases Board.read { m.board with memory.switches := .reset } 0xC082 with
  | mk v board =>
    dsimp only
    cases m.cpu.reset board with
    | mk cpu board =>
      dsimp only
      cases board.disk.reset board.memory.switches with
      | mk disk switches => exact ⟨_, rfl⟩

theorem pc_reset (m : Machine) :
    m.reset.cpu.regs.pc = Processor.word m.memory.rom[0x3FFC] m.memory.rom[0x3FFD] := by
  have hrom : (Memory.accessCard .reset 0x02 false).isSet .cardRead = false := by decide +kernel
  obtain ⟨board, hreset⟩ := m.reset_cases
  rw [hreset, Board.read_romSwitch]
  exact Board.pc_reset _ hrom

/-- The soft switches after a reset, which also turns the motor off. -/
theorem switches_reset (m : Machine) : m.reset.switches = (Memory.accessCard .reset 0x02 false).set .motor false := by
  have hswitches : m.reset.switches =
      (m.cpu.reset (Board.read { m.board with memory.switches := .reset } 0xC082).2).2.memory.switches.set
        .motor false := by
    unfold reset
    dsimp only
    cases Board.read { m.board with memory.switches := .reset } 0xC082 with
    | mk v board =>
      dsimp only
      cases m.cpu.reset board with
      | mk cpu board => rfl
  rw [hswitches, Board.bus_reset, Board.read_romSwitch]

theorem debugger_reset (m : Machine) : m.reset.debugger = m.debugger := by
  obtain ⟨board, hreset⟩ := m.reset_cases
  rw [hreset]

theorem skipBreakpoint_reset (m : Machine) : m.reset.skipBreakpoint = false := by
  obtain ⟨board, hreset⟩ := m.reset_cases
  rw [hreset]

/-- A boot is a reset of the machine with the RAM cleared and the clock at zero. -/
theorem boot_cases (m : Machine) :
    ∃ memory : Memory, memory.rom = m.memory.rom ∧
      m.boot = reset { m with board := { memory, disk := m.board.disk, clock := 0 } } := by
  unfold boot
  cases h : m.diskRom with
  | none => exact ⟨m.board.memory.reset, rfl, rfl⟩
  | some rom => exact ⟨m.board.memory.reset.installSlotRom Memory.diskSlot rom, rfl, rfl⟩

theorem pc_boot (m : Machine) :
    m.boot.cpu.regs.pc = Processor.word m.memory.rom[0x3FFC] m.memory.rom[0x3FFD] := by
  obtain ⟨memory, hrom, hboot⟩ := m.boot_cases
  simp only [hboot, pc_reset, ← hrom]
  rfl

theorem debugger_boot (m : Machine) : m.boot.debugger = m.debugger := by
  obtain ⟨memory, -, hboot⟩ := m.boot_cases
  rw [hboot, debugger_reset]

theorem skipBreakpoint_boot (m : Machine) : m.boot.skipBreakpoint = false := by
  obtain ⟨memory, -, hboot⟩ := m.boot_cases
  rw [hboot, skipBreakpoint_reset]

end Machine

end AppleII
