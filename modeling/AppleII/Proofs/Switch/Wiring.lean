import AppleII.Proofs.Byte
import AppleII.Switch.Route

/-!
# The wiring of the switches

The tables of the I/O page are built from the wiring, and hold nothing else: an address turns the one switch that is
wired to it (`Switch.findToggle_eq_some_iff`), and it shows the one whose status it is (`Route.ofLow_eq_status_iff`).
-/

namespace AppleII

/-- The low byte of an I/O address. -/
theorem toUInt8_ioAddress (low : UInt8) : (0xC000 ||| low.toUInt16).toUInt8 = low := by
  revert low
  exact forall_byte (by decide +kernel)

/-- At reset the text display alone is on. -/
theorem Switches.isSet_reset (s : Switch) : reset.isSet s = decide (s = .text) := by
  cases s <;> decide

namespace Switch

theorem mem_all (s : Switch) : s ∈ all.toList := by
  rw [← all_index s]
  simp

/-- The address that turns a switch off, or the one that turns it on. -/
def address? (s : Switch) (on : Bool) : Option UInt16 := if on then s.wiring.on else s.wiring.off

/-- What an access to an I/O address makes of a switch. -/
def turned? (s : Switch) (low : UInt8) : Option Bool :=
  (findToggle low).bind fun t => if t.1 = s then some t.2 else none

variable {s : Switch} {on : Bool} {low : UInt8}

/-- No two of the addresses that turn switches are the same. -/
theorem findToggle_of_address? {address : UInt16} (h : s.address? on = some address) :
    findToggle address.toUInt8 = some (s, on) := by
  have hall : (s.address? on).all fun a => findToggle a.toUInt8 == some (s, on) := by
    cases on <;> cases s <;> decide
  rw [h] at hall
  exact beq_iff_eq.mp hall

/-- An address turns the switches that are wired to it. -/
theorem findToggle_eq_some_iff : findToggle low = some (s, on) ↔ s.address? on = some (0xC000 ||| low.toUInt16) := by
  constructor
  · intro h
    obtain ⟨t, -, ht⟩ := List.exists_of_findSome?_eq_some h
    split at ht
    · next hoff =>
      cases ht
      exact beq_iff_eq.mp hoff
    · split at ht
      · next hon =>
        cases ht
        exact beq_iff_eq.mp hon
      · cases ht
  · intro h
    rw [← toUInt8_ioAddress low]
    exact findToggle_of_address? h

theorem turned?_eq_some_iff : s.turned? low = some on ↔ s.address? on = some (0xC000 ||| low.toUInt16) := by
  rw [← findToggle_eq_some_iff, turned?]
  constructor
  · intro h
    obtain ⟨⟨t, b⟩, ht, heq⟩ := Option.bind_eq_some_iff.mp h
    split at heq
    · next hts =>
      cases heq
      rw [ht, ← hts]
    · cases heq
  · intro h
    rw [h]
    exact if_pos rfl

end Switch

/-- The addresses that show a switch are those that its wiring says. -/
theorem Route.ofLow_eq_status_iff {low : UInt8} {s : Switch} :
    ofLow low = .status s ↔ s.wiring.status = some (0xC000 ||| low.toUInt16) := by
  constructor
  · intro h
    have hfind : Switch.all.toList.find? (fun s => s.wiring.status == some (0xC000 ||| low.toUInt16)) = some s := by
      unfold ofLow at h
      grind
    have hfound := List.find?_some hfind
    exact beq_iff_eq.mp hfound
  · intro h
    have hall : s.wiring.status.all fun a => ofLow a.toUInt8 == .status s := by
      cases s <;> decide
    rw [h] at hall
    have hroute := beq_iff_eq.mp hall
    rwa [toUInt8_ioAddress] at hroute

end AppleII
