import AppleII.Switch.Basic

/-!
# Routes of the I/O page

Every address `$C000`–`$C0FF` leads to one handler.
-/

namespace AppleII

/-- Where an access to the I/O page goes. -/
inductive Route where
  /-- The keyboard latch. -/
  | keyboard
  /-- The key strobe is cleared. -/
  | clearStrobe
  /-- A switch shown in bit 7. -/
  | status (s : Switch)
  /-- A switch is turned and nothing is read. -/
  | toggle
  | speaker
  | languageCard
  /-- A register of a peripheral card. -/
  | slot (slot reg : UInt8)
  /-- Nothing is connected. -/
  | floating
  deriving DecidableEq, Repr, Inhabited

namespace Route

/-- The route of the I/O address with the given low byte. -/
def ofLow (low : UInt8) : Route :=
  if low < 0x10 then .keyboard
  else if low == 0x10 then .clearStrobe
  else if 0x30 ≤ low && low < 0x40 then .speaker
  else if 0x80 ≤ low && low < 0x90 then .languageCard
  else if 0x90 ≤ low then .slot ((low - 0x80) >>> 4) (low &&& 0x0F)
  else
    match Switch.all.toList.find? fun s => s.wiring.status == some (0xC000 ||| low.toUInt16) with
    | some s => .status s
    | none => if (Switch.findToggle low).isSome then .toggle else .floating

/-- `ofLow` for each low byte. -/
def table : Vector Route 256 := Vector.ofFn fun i => ofLow i.val.toUInt8

/-- The route of an address in the I/O page. -/
def ofAddress (address : UInt16) : Route := table.get (Switch.pageOffset address)

theorem ofAddress_eq (address : UInt16) : ofAddress address = ofLow address.toUInt8 := by
  show getElem (Vector.ofFn fun i : Fin 256 => ofLow i.val.toUInt8) address.toUInt8.toNat
    address.toUInt8.toNat_lt = _
  rw [Vector.getElem_ofFn]
  exact congrArg ofLow UInt8.ofNat_toNat

end Route

end AppleII
