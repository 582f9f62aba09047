import AppleII.Proofs.Memory.Access
import Mathlib.Data.List.Induction

/-!
# A key waits

A key stays in the latch, with its strobe, until an access clears the strobe (`Memory.keyboardLatch_accessAll`).  Any
access to `$C010` does, and so does a write to an address that shows a switch.  Among these are the addresses of the
buttons, where a write should leave the keyboard alone (`strobe_lost_to_button`).
-/

namespace AppleII

open Processor (Bus)

/-- The addresses that show switches. -/
def Switch.shown : List UInt16 := all.toList.filterMap fun s => s.wiring.status

theorem Switch.mem_shown_iff {address : UInt16} : address ∈ shown ↔ ∃ s : Switch, s.wiring.status = some address := by
  unfold shown
  rw [List.mem_filterMap]
  exact ⟨fun ⟨s, _, h⟩ => ⟨s, h⟩, fun ⟨s, h⟩ => ⟨s, s.mem_all, h⟩⟩

/-- A switch is shown in one of two places. -/
theorem Switch.range_of_mem_shown {address : UInt16} (h : address ∈ shown) :
    0xC011 ≤ address ∧ address ≤ 0xC01F ∨ 0xC061 ≤ address ∧ address ≤ 0xC063 := by
  obtain ⟨s, hs⟩ := mem_shown_iff.mp h
  have hall : s.wiring.status.all fun a => 0xC011 ≤ a && a ≤ 0xC01F || 0xC061 ≤ a && a ≤ 0xC063 := by
    cases s <;> decide
  rw [hs] at hall
  simpa using hall

/-- The buttons are shown at three addresses. -/
theorem Switch.mem_shown_of_button {address : UInt16} (hfrom : 0xC061 ≤ address) (hto : address ≤ 0xC063) :
    address ∈ shown := by
  have hcases : address = 0xC061 ∨ address = 0xC062 ∨ address = 0xC063 := by
    simp only [UInt16.le_iff_toNat_le, ← UInt16.toNat_inj, UInt16.reduceToNat] at hfrom hto ⊢
    omega
  rw [mem_shown_iff]
  rcases hcases with rfl | rfl | rfl
  · exact ⟨.button0, rfl⟩
  · exact ⟨.button1, rfl⟩
  · exact ⟨.button2, rfl⟩

namespace Route

/-- An access that is led here clears the strobe. -/
def clears (route : Route) (isWrite : Bool) : Bool :=
  match route with
  | .clearStrobe => true
  | .status _ => isWrite
  | _ => false

theorem ofLow_eq_clearStrobe_iff {low : UInt8} : ofLow low = .clearStrobe ↔ low = 0x10 := by
  unfold ofLow
  constructor
  · grind
  · grind

theorem clears_iff {route : Route} {isWrite : Bool} :
    route.clears isWrite = true ↔ route = .clearStrobe ∨ isWrite = true ∧ ∃ s, route = .status s := by
  cases route <;> simp [clears]

end Route

namespace Memory

variable {m : Memory} {a : Access} {accesses : List Access}

/-- An access clears the strobe. -/
def Access.Acknowledges (a : Access) : Prop := a.address = 0xC010 ∨ a.value.isSome = true ∧ a.address ∈ Switch.shown

instance : DecidablePred Access.Acknowledges := fun a =>
  inferInstanceAs (Decidable (a.address = 0xC010 ∨ a.value.isSome = true ∧ a.address ∈ Switch.shown))

/-! ## One access -/

@[simp] theorem keyboardLatch_touch (m : Memory) (address : UInt16) (isWrite : Bool) :
    (m.touch address isWrite).keyboardLatch = m.keyboardLatch := by
  unfold touch
  rfl

theorem keyboardLatch_handle (m : Memory) (route : Route) (address : UInt16) (value : Option UInt8) :
    (m.handle route address value).2.keyboardLatch =
      if route.clears value.isSome then m.keyboardLatch &&& 0x7F else m.keyboardLatch := by
  cases route with
  | status s => cases value <;> rfl
  | keyboard | clearStrobe | toggle | speaker | languageCard | slot | floating => rfl

/-- An access to the I/O page clears the strobe where its route does. -/
theorem Access.acknowledges_iff (h : isIoPage a.address = true) :
    a.Acknowledges ↔ (Route.ofAddress a.address).clears a.value.isSome = true := by
  have haddress := ioAddress_toUInt8 h
  have hclear : a.address = 0xC010 ↔ a.address.toUInt8 = 0x10 := by
    constructor
    · intro heq
      rw [heq]
      rfl
    · intro heq
      rw [← haddress, heq]
      rfl
  unfold Acknowledges
  rw [Route.clears_iff, Route.ofAddress_eq, Route.ofLow_eq_clearStrobe_iff, hclear, Switch.mem_shown_iff]
  simp only [Route.ofLow_eq_status_iff, haddress]

/-- No access outside the I/O page clears the strobe. -/
theorem Access.Acknowledges.isIoPage (h : a.Acknowledges) : isIoPage a.address = true := by
  rw [isIoPage_iff]
  rcases h with hclear | ⟨-, hshown⟩
  · rw [hclear]
    decide
  · have hrange := Switch.range_of_mem_shown hshown
    grind

/-- The latch keeps the key, with its strobe or without. -/
theorem keyboardLatch_access (m : Memory) (a : Access) :
    (m.access a).keyboardLatch = if a.Acknowledges then m.keyboardLatch &&& 0x7F else m.keyboardLatch := by
  by_cases hpage : isIoPage a.address = true
  · rw [access_of_isIoPage hpage, accessIoPage, keyboardLatch_handle, keyboardLatch_touch]
    simp only [Access.acknowledges_iff hpage]
  · obtain ⟨ram, haccess⟩ := exists_access_eq (m := m) (Bool.eq_false_iff.mpr hpage)
    rw [if_neg fun h => hpage h.isIoPage, haccess]

/-- The addresses that read the keyboard, and the one that clears its strobe. -/
theorem read_keyboard {address : UInt16} (hfrom : 0xC000 ≤ address) (hto : address ≤ 0xC010) (m : Memory) :
    (Bus.read m address).1 = m.keyboardLatch := by
  have hpage : isIoPage address = true := isIoPage_iff.mpr ⟨hfrom, UInt16.le_trans hto (by decide)⟩
  have hlow : address.toUInt8 ≤ 0x10 := by
    simp only [UInt16.le_iff_toNat_le, UInt8.le_iff_toNat_le, UInt16.toNat_toUInt8, UInt16.reduceToNat,
      UInt8.reduceToNat] at hfrom hto ⊢
    omega
  have hroute : Route.ofAddress address = .keyboard ∨ Route.ofAddress address = .clearStrobe := by
    rw [Route.ofAddress_eq]
    unfold Route.ofLow
    grind
  show (if isIoPage address then m.accessIoPage address none else (m.peek address, m)).1 = _
  rw [if_pos hpage, accessIoPage]
  rcases hroute with h | h <;> simp [h, handle, clearStrobe]

/-! ## Runs -/

/-- After a key the latch tells whether it was acknowledged. -/
theorem keyboardLatch_accessAll (m : Memory) (accesses : List Access) :
    (m.accessAll accesses).keyboardLatch =
      if ∃ a ∈ accesses, a.Acknowledges then m.keyboardLatch &&& 0x7F else m.keyboardLatch := by
  induction accesses using List.reverseRecOn with
  | nil => simp [accessAll]
  | append_singleton accesses a ih =>
    rw [accessAll_concat, keyboardLatch_access, ih]
    have htwice : m.keyboardLatch &&& 0x7F &&& 0x7F = m.keyboardLatch &&& 0x7F := by
      rw [UInt8.and_assoc, UInt8.and_self]
    by_cases ha : a.Acknowledges
    · by_cases hbefore : ∃ a ∈ accesses, a.Acknowledges
      · simp [ha, hbefore, htwice]
      · simp [ha, hbefore]
    · simp [ha]

/-- The strobe is bit 7 of the latch. -/
theorem latch_bits (key : UInt8) :
    (key ||| 0x80) &&& 0x80 ≠ 0 ∧ (key &&& 0x7F) &&& 0x80 = 0 ∧ (key ||| 0x80) &&& 0x7F = key &&& 0x7F := by
  revert key
  exact forall_byte (by decide +kernel)

/-- The keyboard holds a key that waits. -/
structure Waits (m : Memory) (key : UInt8) : Prop where
  strobe : m.hasKeyStrobe = true
  read : ∀ address, 0xC000 ≤ address → address ≤ 0xC010 → (Bus.read m address).1 = key ||| 0x80

/-- The keyboard holds a key that was acknowledged. -/
structure Acknowledged (m : Memory) (key : UInt8) : Prop where
  strobe : m.hasKeyStrobe = false
  read : ∀ address, 0xC000 ≤ address → address ≤ 0xC010 → (Bus.read m address).1 = key &&& 0x7F

theorem waits_of_keyboardLatch {key : UInt8} (h : m.keyboardLatch = key ||| 0x80) : m.Waits key where
  strobe := by
    rw [hasKeyStrobe, h]
    exact bne_iff_ne.mpr (latch_bits key).1
  read address hfrom hto := (read_keyboard hfrom hto m).trans h

theorem acknowledged_of_keyboardLatch {key : UInt8} (h : m.keyboardLatch = key &&& 0x7F) : m.Acknowledged key where
  strobe := by
    rw [hasKeyStrobe, h, (latch_bits key).2.1]
    rfl
  read address hfrom hto := (read_keyboard hfrom hto m).trans h

/-- A key waits until the first access that acknowledges it, and is acknowledged from then on. -/
theorem accessAll_pressKey (m : Memory) (key : UInt8) (accesses : List Access) :
    ((∀ a ∈ accesses, ¬a.Acknowledges) → ((m.pressKey key).accessAll accesses).Waits key) ∧
      ((∃ a ∈ accesses, a.Acknowledges) → ((m.pressKey key).accessAll accesses).Acknowledged key) := by
  have hlatch := (m.pressKey key).keyboardLatch_accessAll accesses
  constructor
  · intro hnone
    rw [if_neg (by simpa using hnone)] at hlatch
    exact waits_of_keyboardLatch hlatch
  · intro hsome
    rw [if_pos hsome] at hlatch
    exact acknowledged_of_keyboardLatch (hlatch.trans (latch_bits key).2.2)

end Memory

open Memory (Access)

/-- **A key waits until it is acknowledged.** Once a key is pressed, let there be any accesses of which none goes to
`$C010`–`$C01F`, and none is a write to the addresses of the buttons, `$C061`–`$C063`.  The strobe stays, and every read
of `$C000`–`$C00F` gives the key with bit 7 set.  So does a read of `$C010`, which clears the strobe as a write does:
until the next key the reads give the key with bit 7 clear.  A write to the address of a button clears the strobe too. -/
theorem key_waits (m : Memory) (key : UInt8) {before : List Access}
    (hbefore : ∀ a ∈ before, (a.address < 0xC010 ∨ 0xC01F < a.address) ∧
      (a.value = none ∨ a.address < 0xC061 ∨ 0xC063 < a.address))
    {clear : Access} (hclear : clear.address = 0xC010) (after : List Access) :
    ((m.pressKey key).accessAll before).Waits key ∧
      ((m.pressKey key).accessAll (before ++ clear :: after)).Acknowledged key ∧
      ∀ (button : Access), button.value.isSome = true → 0xC061 ≤ button.address → button.address ≤ 0xC063 →
        ((m.pressKey key).accessAll (before ++ button :: after)).Acknowledged key := by
  have hquiet : ∀ a ∈ before, ¬a.Acknowledges := by
    intro a ha hack
    obtain ⟨hout, hbutton⟩ := hbefore a ha
    rcases hack with heq | ⟨hwrite, hshown⟩
    · grind
    · have hrange := Switch.range_of_mem_shown hshown
      grind
  refine ⟨(m.accessAll_pressKey key before).1 hquiet, ?_, fun button hwrite hfrom hto => ?_⟩
  · exact (m.accessAll_pressKey key _).2 ⟨clear, by simp, .inl hclear⟩
  · exact (m.accessAll_pressKey key _).2 ⟨button, by simp, .inr ⟨hwrite, Switch.mem_shown_of_button hfrom hto⟩⟩

/-- A key is read while it waits, and again after it was acknowledged. -/
theorem key_waits_read :
    let read : Access := ⟨0xC000, none⟩
    (∀ a ∈ [read, ⟨0xC061, none⟩, ⟨0xC000, some 0⟩], (a.address < 0xC010 ∨ 0xC01F < a.address) ∧
      (a.value = none ∨ a.address < 0xC061 ∨ 0xC063 < a.address)) ∧
      ((({} : Memory).pressKey 0x41).accessAll [read, ⟨0xC061, none⟩, ⟨0xC000, some 0⟩]).Waits 0x41 ∧
      ((({} : Memory).pressKey 0x41).accessAll [read, ⟨0xC061, none⟩, ⟨0xC000, some 0⟩, ⟨0xC010, some 0⟩,
        read]).Acknowledged 0x41 := by
  intro read
  have hbefore : ∀ a ∈ [read, ⟨0xC061, none⟩, ⟨0xC000, some 0⟩], (a.address < 0xC010 ∨ 0xC01F < a.address) ∧
      (a.value = none ∨ a.address < 0xC061 ∨ 0xC063 < a.address) := by
    decide
  obtain ⟨hwaits, hacknowledged, -⟩ := @key_waits {} 0x41 _ hbefore ⟨0xC010, some 0⟩ rfl [read]
  exact ⟨hbefore, hwaits, hacknowledged⟩

/-- **A write to the address of a button loses the key.** The strobe is gone, though `$C010` was never accessed. -/
theorem strobe_lost_to_button :
    let write : Access := ⟨0xC061, some 0⟩
    (write.address < 0xC010 ∨ 0xC01F < write.address) ∧
      ((({} : Memory).pressKey 0x41).accessAll [write]).hasKeyStrobe = false := by
  decide +kernel

end AppleII
