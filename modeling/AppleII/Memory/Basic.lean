import AppleII.Memory.Cell
import AppleII.Processor.Bus
import AppleII.Switch.Route

/-!
# Memory

RAM, ROM, the ROMs of the slots, the soft switches, the keyboard and the speaker.  Reads and writes
go to the I/O page `$C000`–`$C0FF`, to the cell of RAM that the switches select, or to ROM.
-/

namespace AppleII

/-- The size of the built-in ROM, `$C000`–`$FFFF`. -/
def romSize : Nat := 0x4000

def slotRomSize : Nat := 0x100

/-- Why a slot ROM is refused. -/
inductive SlotRomError where
  | slot
  | size
  deriving DecidableEq, Repr

/-- The text of the refusal. -/
def SlotRomError.message : SlotRomError → String
  | .slot => "Slot must be 1-7"
  | .size => "Slot ROM must be 256 bytes"

/-- The memory of the computer. -/
structure Memory where
  ram : Vector UInt8 Cell.count := Vector.replicate _ 0
  rom : Vector UInt8 romSize := Vector.replicate _ 0xFF
  /-- The ROMs of slots 1 to 7; there is no slot 0. -/
  slotRoms : Vector (Option (Vector UInt8 slotRomSize)) 8 := Vector.replicate _ none
  switches : Switches := .reset
  /-- The last key, with the strobe in bit 7. -/
  keyboardLatch : UInt8 := 0
  /-- How often the speaker has moved. -/
  speakerClicks : UInt64 := 0

namespace Memory

/-! ## ROM -/

/-- The bytes at the end of a ROM image that are used.  A 20 KiB image has 12 KiB of ROM. -/
def romBytesUsed (size : Nat) : Nat := if size = 0x5000 then 0x3000 else min size romSize

/-- The ROM of an image: its last bytes end at `$FFFF`, and the rest is full of ones. -/
def romOfImage (image : Array UInt8) : Vector UInt8 romSize :=
  Vector.ofFn fun i =>
    if romSize ≤ i.val + romBytesUsed image.size then
      image.getD (image.size + i.val - romSize) 0xFF
    else 0xFF

def slotRomOf (bytes : Array UInt8) (offset : Nat) : Vector UInt8 slotRomSize :=
  Vector.ofFn fun i => bytes.getD (offset + i.val) 0

/-- The slot of the disk card. -/
def diskSlot : Fin 8 := ⟨6, by decide⟩

/-- The ROM of a slot given. -/
def installSlotRom (m : Memory) (slot : Fin 8) (rom : Vector UInt8 slotRomSize) : Memory :=
  { m with slotRoms := m.slotRoms.set slot.val (some rom) slot.isLt }

/-- A ROM image installed.  A 20 KiB image also holds the boot ROM of the disk card in slot 6. -/
def loadRom (m : Memory) (image : Array UInt8) : Memory :=
  let m := { m with rom := romOfImage image }
  if image.size = 0x5000 then m.installSlotRom diskSlot (slotRomOf image 0x0600) else m

/-- The ROM of one of the slots 1 to 7 given. -/
def setSlotRom (m : Memory) (slot : Nat) (bytes : Array UInt8) : Except SlotRomError Memory :=
  if h : 1 ≤ slot ∧ slot ≤ 7 then
    if bytes.size = slotRomSize then
      .ok (m.installSlotRom ⟨slot, by omega⟩ (slotRomOf bytes 0))
    else .error .size
  else .error .slot

/-- Whether a slot has a ROM. -/
def hasSlotRom (m : Memory) (slot : Nat) : Bool := ((m.slotRoms[slot]?).join).isSome

/-! ## Direct access -/

/-- The value of a cell. -/
@[inline] def get (m : Memory) (c : Cell) : UInt8 := getElem m.ram c.val c.isLt

/-- A cell given a value. -/
@[inline] def set (m : Memory) (c : Cell) (v : UInt8) : Memory :=
  { m with ram := m.ram.set c.val v c.isLt }

@[simp] theorem get_set_self (m : Memory) (c : Cell) (v : UInt8) : (m.set c v).get c = v := by
  simp [get, set]

theorem get_set_of_ne (m : Memory) {c d : Cell} (v : UInt8) (h : c ≠ d) :
    (m.set c v).get d = m.get d := by
  have h' : c.val ≠ d.val := fun e => h (Fin.ext e)
  simp [get, set, h']

/-- RAM cleared and the switches reset; the ROMs stay. -/
def reset (m : Memory) : Memory :=
  { m with ram := Vector.replicate _ 0, switches := .reset, keyboardLatch := 0 }

/-- Bytes stored in main memory, whatever the switches say; addresses wrap after `$FFFF`. -/
def loadMain (m : Memory) (address : UInt16) (bytes : Array UInt8) : Memory :=
  (bytes.foldl (fun (m, a) b => (m.set (Cell.inMain a) b, a + 1)) (m, address)).1

def pressKey (m : Memory) (key : UInt8) : Memory := { m with keyboardLatch := key ||| 0x80 }

/-- Whether a key waits to be read. -/
def hasKeyStrobe (m : Memory) : Bool := m.keyboardLatch &&& 0x80 != 0

/-- The switch of a game button. -/
def buttonSwitch? : Nat → Option Switch
  | 0 => some .button0
  | 1 => some .button1
  | 2 => some .button2
  | _ => none

/-- A game button is pressed or released; there are three. -/
def setButton (m : Memory) (button : Nat) (pressed : Bool) : Memory :=
  match buttonSwitch? button with
  | some s => { m with switches := m.switches.set s pressed }
  | none => m

/-! ## The I/O page -/

/-- The strobe cleared; the latch as it was. -/
def clearStrobe (m : Memory) : UInt8 × Memory :=
  (m.keyboardLatch, { m with keyboardLatch := m.keyboardLatch &&& 0x7F })

/-- The switches after an access to a language-card register.  Bit 3 clear selects the second bank,
and bits 0 and 1 equal let RAM be read.  Two reads of odd addresses in a row let RAM be written. -/
def accessCard (sw : Switches) (reg : UInt16) (isWrite : Bool) : Switches :=
  let sw := sw.set .cardBank2 (reg &&& 0x08 == 0)
  let sw := sw.set .cardRead (reg &&& 0x03 == 0 || reg &&& 0x03 == 3)
  if reg &&& 0x01 != 0 then
    let sw := if !isWrite && sw.isSet .cardPreWrite then sw.set .cardWrite true else sw
    sw.set .cardPreWrite (!isWrite)
  else (sw.set .cardWrite false).set .cardPreWrite false

/-- An access to the I/O page that goes to no slot, after the switches are turned.  `value` is what
is written. -/
def handle (m : Memory) (route : Route) (address : UInt16) (value : Option UInt8) : UInt8 × Memory :=
  match route with
  | .keyboard => (if value.isSome then 0 else m.keyboardLatch, m)
  | .clearStrobe => m.clearStrobe
  | .status s =>
    if value.isSome then (0, m.clearStrobe.2)
    else ((if m.switches.isSet s then 0x80 else 0) ||| (m.keyboardLatch &&& 0x7F), m)
  | .speaker => (0, { m with speakerClicks := m.speakerClicks + 1 })
  | .languageCard =>
    (0, { m with switches := accessCard m.switches (address &&& 0x0F) value.isSome })
  | .toggle | .slot .. | .floating => (0, m)

/-- The switch of an I/O address turned. -/
@[inline] def touch (m : Memory) (address : UInt16) (isWrite : Bool) : Memory :=
  { m with switches := m.switches.touch address isWrite }

/-- An access to the I/O page with nothing in the slots. -/
def accessIoPage (m : Memory) (address : UInt16) (value : Option UInt8) : UInt8 × Memory :=
  (m.touch address value.isSome).handle (.ofAddress address) address value

/-! ## The bus -/

/-- Whether an address lies in the I/O page. -/
@[inline] def isIoPage (address : UInt16) : Bool := address &&& 0xFF00 == 0xC000

/-- Whether the built-in ROM answers below `$D000`, and not the ROM of a slot. -/
def usesInternalRom (sw : Switches) (address : UInt16) : Bool :=
  sw.isSet .internalRom || 0xC800 ≤ address || (address &&& 0xFF00 == 0xC300 && !sw.isSet .slot3Rom)

/-- The byte that ROM gives at an address from `$C100` on. -/
def romByte (m : Memory) (address : UInt16) : UInt8 :=
  let builtIn := getElem m.rom (address.toNat % romSize) (Nat.mod_lt _ (by decide))
  if usesInternalRom m.switches address then builtIn
  else
    match getElem m.slotRoms (address.toNat / 0x100 % 8) (Nat.mod_lt _ (by decide)) with
    | some rom => getElem rom (address.toNat % slotRomSize) (Nat.mod_lt _ (by decide))
    | none => builtIn

/-- A read outside the I/O page. -/
@[inline] def peek (m : Memory) (address : UInt16) : UInt8 :=
  match Cell.select? m.switches false address with
  | some c => m.get c
  | none => m.romByte address

/-- A write outside the I/O page. -/
@[inline] def poke (m : Memory) (address : UInt16) (value : UInt8) : Memory :=
  match Cell.select? m.switches true address with
  | some c => m.set c value
  | none => m

/-- Nothing but RAM is written. -/
theorem exists_poke_eq (m : Memory) (address : UInt16) (value : UInt8) :
    ∃ ram, m.poke address value = { m with ram } := by
  unfold poke
  split
  · exact ⟨_, rfl⟩
  · exact ⟨m.ram, rfl⟩

@[simp] theorem switches_poke (m : Memory) (address : UInt16) (value : UInt8) :
    (m.poke address value).switches = m.switches := by
  obtain ⟨ram, h⟩ := m.exists_poke_eq address value
  rw [h]

instance : Processor.Bus Memory where
  read m address :=
    if isIoPage address then m.accessIoPage address none else (m.peek address, m)
  write m address value :=
    if isIoPage address then (m.accessIoPage address (some value)).2 else m.poke address value

end Memory

end AppleII
