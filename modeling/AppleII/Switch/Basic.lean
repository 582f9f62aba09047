/-!
# Soft switches

A soft switch is a Boolean that an access to an I/O address turns off or on.  `Switch.wiring` gives
the addresses of each of the 31 switches; `Switches` is the state of all of them.
-/

namespace AppleII

/-- The soft switches. -/
inductive Switch where
  | store80
  | ramRead
  | ramWrite
  | internalRom
  | altZeroPage
  | slot3Rom
  | columns80
  | altCharset
  | text
  | mixed
  | page2
  | hires
  | annunciator0
  | annunciator1
  | annunciator2
  | annunciator3
  | button0
  | button1
  | button2
  /-- The language card uses its second bank. -/
  | cardBank2
  /-- The language card answers reads. -/
  | cardRead
  /-- The language card takes writes. -/
  | cardWrite
  /-- The last access to the language card was a read of an odd address. -/
  | cardPreWrite
  | phase0
  | phase1
  | phase2
  | phase3
  /-- The drive motor is wanted. -/
  | motor
  /-- The second drive is selected. -/
  | driveSelect
  | driveData
  | driveWrite
  deriving DecidableEq, Repr, Inhabited

/-- How a switch is reached. -/
structure Wiring where
  name : String
  /-- An access here turns the switch off. -/
  off : Option UInt16
  /-- An access here turns the switch on. -/
  on : Option UInt16
  /-- A read here shows the switch in bit 7. -/
  status : Option UInt16
  /-- Only writes turn the switch. -/
  writeOnly : Bool := false
  deriving DecidableEq, Repr

namespace Switch

/-- The number of switches. -/
def count : Nat := 31

/-- All switches, in the order of their definition. -/
def all : Vector Switch count :=
  #v[store80, ramRead, ramWrite, internalRom, altZeroPage, slot3Rom, columns80, altCharset, text, mixed,
    page2, hires, annunciator0, annunciator1, annunciator2, annunciator3, button0, button1, button2,
    cardBank2, cardRead, cardWrite, cardPreWrite, phase0, phase1, phase2, phase3, motor, driveSelect,
    driveData, driveWrite]

/-- The place of a switch in `all`. -/
def index (s : Switch) : Fin count := ⟨s.ctorIdx, by cases s <;> decide⟩

theorem all_index (s : Switch) : all[s.index] = s := by cases s <;> rfl

theorem index_inj {s t : Switch} (h : s.index = t.index) : s = t := by
  have e : all[s.index] = all[t.index] := by simp only [h]
  rwa [all_index, all_index] at e

/-- A switch that is turned by the addresses `off` and `off + 1`. -/
def toggled (name : String) (off : UInt16) (status : Option UInt16) (writeOnly : Bool) : Wiring :=
  { name, off := some off, on := some (off + 1), status, writeOnly }

/-- A switch that no address turns. -/
def hidden (name : String) (status : Option UInt16) : Wiring :=
  { name, off := none, on := none, status }

/-- The addresses of a switch. -/
def wiring : Switch → Wiring
  | store80 => toggled "STORE80" 0xC000 (some 0xC018) true
  | ramRead => toggled "RAMRD" 0xC002 (some 0xC013) true
  | ramWrite => toggled "RAMWRT" 0xC004 (some 0xC014) true
  | internalRom => toggled "INTCXROM" 0xC006 (some 0xC015) true
  | altZeroPage => toggled "ALTZP" 0xC008 (some 0xC016) true
  | slot3Rom => toggled "SLOTC3ROM" 0xC00A (some 0xC017) true
  | columns80 => toggled "COLUMN80" 0xC00C (some 0xC01F) true
  | altCharset => toggled "ALTCHARSET" 0xC00E (some 0xC01E) true
  | text => toggled "TEXT" 0xC050 (some 0xC01A) false
  | mixed => toggled "MIXED" 0xC052 (some 0xC01B) false
  | page2 => toggled "PAGE2" 0xC054 (some 0xC01C) false
  | hires => toggled "HIRES" 0xC056 (some 0xC01D) false
  | annunciator0 => toggled "AN0" 0xC058 none false
  | annunciator1 => toggled "AN1" 0xC05A none false
  | annunciator2 => toggled "AN2" 0xC05C none false
  | annunciator3 => toggled "AN3" 0xC05E none false
  | button0 => hidden "PB0" (some 0xC061)
  | button1 => hidden "PB1" (some 0xC062)
  | button2 => hidden "PB2" (some 0xC063)
  | cardBank2 => hidden "BSRBANK2" (some 0xC011)
  | cardRead => hidden "BSRREADRAM" (some 0xC012)
  | cardWrite => hidden "BSRWRITERAM" none
  | cardPreWrite => hidden "BSRPREWRITE" none
  | phase0 => toggled "DRVSM0" 0xC0E0 none false
  | phase1 => toggled "DRVSM1" 0xC0E2 none false
  | phase2 => toggled "DRVSM2" 0xC0E4 none false
  | phase3 => toggled "DRVSM3" 0xC0E6 none false
  | motor => toggled "DRIVE" 0xC0E8 none false
  | driveSelect => toggled "DRVSEL" 0xC0EA none false
  | driveData => toggled "DRVDATA" 0xC0EC none false
  | driveWrite => toggled "DRVWRITE" 0xC0EE none false

/-- The name of a switch in a save state. -/
def name (s : Switch) : String := s.wiring.name

def ofName? (n : String) : Option Switch := all.toList.find? fun s => s.name == n

theorem ofName?_name (s : Switch) : ofName? s.name = some s := by cases s <;> decide

/-- The switch and the value that an access to an I/O address with the given low byte gives it. -/
def findToggle (low : UInt8) : Option (Switch × Bool) :=
  all.toList.findSome? fun s =>
    if s.wiring.off == some (0xC000 ||| low.toUInt16) then some (s, false)
    else if s.wiring.on == some (0xC000 ||| low.toUInt16) then some (s, true)
    else none

/-- `findToggle` for each low byte. -/
def toggles : Vector (Option (Switch × Bool)) 256 := Vector.ofFn fun i => findToggle i.val.toUInt8

/-- The place of an address in a page of 256. -/
@[inline] def pageOffset (address : UInt16) : Fin 256 :=
  ⟨address.toUInt8.toNat, address.toUInt8.toNat_lt⟩

/-- The switch and the value that an access to an address gives it. -/
def toggle? (address : UInt16) : Option (Switch × Bool) := toggles.get (pageOffset address)

theorem toggle?_eq (address : UInt16) : toggle? address = findToggle address.toUInt8 := by
  show getElem (Vector.ofFn fun i : Fin 256 => findToggle i.val.toUInt8) address.toUInt8.toNat
    address.toUInt8.toNat_lt = _
  rw [Vector.getElem_ofFn]
  exact congrArg findToggle UInt8.ofNat_toNat

end Switch

/-- The state of all switches. -/
structure Switches where
  flags : Vector Bool Switch.count
  deriving DecidableEq, Repr

namespace Switches

/-- Whether a switch is on. -/
@[inline] def isSet (sw : Switches) (s : Switch) : Bool :=
  getElem sw.flags s.index.val s.index.isLt

/-- One switch given a value. -/
@[inline] def set (sw : Switches) (s : Switch) (b : Bool) : Switches :=
  ⟨sw.flags.set s.index.val b s.index.isLt⟩

/-- At reset the text display alone is on. -/
def reset : Switches :=
  Switches.set ⟨Vector.replicate Switch.count false⟩ .text true

instance : Inhabited Switches := ⟨reset⟩

/-- The effect of an access to an I/O address.  Reads leave the write-only switches alone. -/
def touch (sw : Switches) (address : UInt16) (isWrite : Bool) : Switches :=
  match Switch.toggle? address with
  | some (s, b) => if isWrite || !s.wiring.writeOnly then sw.set s b else sw
  | none => sw

theorem touch_of_none {sw : Switches} {address : UInt16} {isWrite : Bool}
    (h : Switch.toggle? address = none) : sw.touch address isWrite = sw := by
  unfold touch
  rw [h]

/-- The four stepper phases of the disk drives. -/
def phases (sw : Switches) : List Bool :=
  [sw.isSet .phase0, sw.isSet .phase1, sw.isSet .phase2, sw.isSet .phase3]

@[simp] theorem isSet_set_self (sw : Switches) (s : Switch) (b : Bool) :
    (sw.set s b).isSet s = b := by
  simp [isSet, set]

theorem isSet_set_of_ne (sw : Switches) {s t : Switch} (b : Bool) (h : s ≠ t) :
    (sw.set s b).isSet t = sw.isSet t := by
  have h' : s.index.val ≠ t.index.val := fun e => h (Switch.index_inj (Fin.ext e))
  simp [isSet, set, h']

theorem isSet_set (sw : Switches) (s t : Switch) (b : Bool) :
    (sw.set s b).isSet t = if s = t then b else sw.isSet t := by
  split
  · next h => rw [← h, isSet_set_self]
  · next h => exact isSet_set_of_ne sw b h

end Switches

end AppleII
