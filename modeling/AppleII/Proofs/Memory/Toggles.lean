import AppleII.Proofs.Memory.Access
import AppleII.Proofs.Switch.Touch
import Mathlib.Data.List.Induction

/-!
# The switches that an address turns

Twenty-four switches have an address that turns them off and one that turns them on.  Such a switch shows the last
access that turned it (`Memory.isSet_respondAll`): nothing else that is done to a memory alters it
(`Memory.isSet_access`).
-/

namespace AppleII

open Processor (Bus)

namespace Memory

/-- An access turns a switch: it goes to one of its two addresses, and it is a write if only writes turn the switch. -/
def Access.Turns (a : Access) (s : Switch) : Prop :=
  (s.wiring.off = some a.address ∨ s.wiring.on = some a.address) ∧ (a.value.isSome = true ∨ s.wiring.writeOnly = false)

instance (a : Access) (s : Switch) : Decidable (a.Turns s) := inferInstanceAs (Decidable (_ ∧ _))

/-- What is done to a memory. -/
inductive Stimulus where
  | access (a : Access)
  | key (key : UInt8)
  | button (button : Nat) (pressed : Bool)
  deriving DecidableEq, Repr

def Stimulus.access? : Stimulus → Option Access
  | .access a => some a
  | _ => none

def respond (m : Memory) : Stimulus → Memory
  | .access a => m.access a
  | .key key => m.pressKey key
  | .button button pressed => m.setButton button pressed

def respondAll (m : Memory) (stimuli : List Stimulus) : Memory := stimuli.foldl respond m

/-- The accesses that turn a switch. -/
def turning (s : Switch) (stimuli : List Stimulus) : List Access :=
  (stimuli.filterMap Stimulus.access?).filter fun a => a.Turns s

/-- A read of an address shows a switch, over what the keyboard sent, and changes nothing. -/
structure ShowsAt (m : Memory) (s : Switch) (address : UInt16) : Prop where
  high : (Bus.read m address).1 &&& 0x80 ≠ 0 ↔ m.switches.isSet s = true
  low : (Bus.read m address).1 &&& 0x7F = m.keyboardLatch &&& 0x7F
  unchanged : (Bus.read m address).2 = m

end Memory

/-! ## The wiring -/

namespace Switch

variable {s : Switch} {address : UInt16}

/-- A switch with an address is turned in the I/O page, and not by the language card. -/
theorem wired {on : Bool} (h : s.address? on = some address) : Memory.isIoPage address = true ∧ s.isCard = false := by
  have hall : (s.address? on).all fun a => Memory.isIoPage a && !s.isCard := by
    cases on <;> cases s <;> decide
  rw [h] at hall
  simpa using hall

/-- The buttons have no address that turns them. -/
theorem address?_buttonSwitch {button : Nat} (h : Memory.buttonSwitch? button = some s) (on : Bool) :
    s.address? on = none := by
  unfold Memory.buttonSwitch? at h
  split at h
  · cases h
    cases on <;> rfl
  · cases h
    cases on <;> rfl
  · cases h
    cases on <;> rfl
  · cases h

/-- The addresses that show switches lie in the I/O page, and turn none. -/
theorem status_inert (h : s.wiring.status = some address) :
    Memory.isIoPage address = true ∧ toggle? address = none := by
  have hall : s.wiring.status.all fun a => Memory.isIoPage a && (findToggle a.toUInt8).isNone := by
    cases s <;> decide
  rw [h] at hall
  rw [toggle?_eq]
  simpa using hall

end Switch

namespace Memory

variable {s : Switch} {m : Memory} {a : Access}

/-! ## One stimulus -/

/-- What an address of the I/O page makes of a switch. -/
theorem turned?_toUInt8 {address : UInt16} (h : isIoPage address = true) (s : Switch) :
    s.turned? address.toUInt8 =
      if s.wiring.off = some address ∨ s.wiring.on = some address then some (s.wiring.on == some address) else none := by
  have hiff (on : Bool) : s.turned? address.toUInt8 = some on ↔ s.address? on = some address := by
    rw [Switch.turned?_eq_some_iff, ioAddress_toUInt8 h]
  by_cases hon : s.wiring.on = some address
  · rw [if_pos (.inr hon), (hiff true).mpr hon, beq_iff_eq.mpr hon]
  · rw [beq_eq_false_iff_ne.mpr hon]
    by_cases hoff : s.wiring.off = some address
    · rw [if_pos (.inl hoff), (hiff false).mpr hoff]
    · rw [if_neg (not_or.mpr ⟨hoff, hon⟩)]
      cases hturned : s.turned? address.toUInt8 with
      | none => rfl
      | some on =>
        have haddress := (hiff on).mp hturned
        cases on with
        | true => exact absurd haddress hon
        | false => exact absurd haddress hoff

/-- An access that turns a switch gives it the value of its address, and any other access leaves it alone. -/
theorem isSet_access (hcard : s.isCard = false) (m : Memory) (a : Access) :
    (m.access a).switches.isSet s =
      if a.Turns s then s.wiring.on == some a.address else m.switches.isSet s := by
  cases hpage : isIoPage a.address with
  | false =>
    have hout (on : Bool) : s.address? on ≠ some a.address := by
      intro h
      cases hpage.symm.trans (Switch.wired h).1
    have hturns : ¬a.Turns s := fun h => h.1.elim (hout false) (hout true)
    rw [if_neg hturns, switches_access_of_not_isIoPage hpage]
  | true =>
    rw [access_of_isIoPage hpage]
    unfold accessIoPage Access.Turns
    rw [isSet_handle hcard, isSet_touch, turned?_toUInt8 hpage]
    by_cases haddress : s.wiring.off = some a.address ∨ s.wiring.on = some a.address
    · simp [haddress]
    · simp [haddress]

/-- A button turns no switch that an address turns. -/
theorem isSet_setButton {on : Bool} {address : UInt16} (h : s.address? on = some address) (m : Memory)
    (button : Nat) (pressed : Bool) : (m.setButton button pressed).switches.isSet s = m.switches.isSet s := by
  unfold setButton
  split
  · next t ht =>
    refine Switches.isSet_set_of_ne _ _ ?_
    rintro rfl
    cases h.symm.trans (Switch.address?_buttonSwitch ht on)
  · rfl

/-- The address that shows a switch. -/
theorem showsAt_status {address : UInt16} (h : s.wiring.status = some address) (m : Memory) : m.ShowsAt s address := by
  obtain ⟨hpage, hinert⟩ := Switch.status_inert h
  have hroute : Route.ofAddress address = .status s := by
    rw [Route.ofAddress_eq, Route.ofLow_eq_status_iff, ioAddress_toUInt8 hpage, h]
  have hread : Bus.read m address =
      ((if m.switches.isSet s then 0x80 else 0) ||| (m.keyboardLatch &&& 0x7F), m) := by
    show (if isIoPage address then m.accessIoPage address none else (m.peek address, m)) = _
    rw [if_pos hpage, accessIoPage, hroute]
    have htouch : m.touch address (none : Option UInt8).isSome = m := by
      unfold touch
      rw [Switches.touch_of_none hinert]
    rw [htouch]
    rfl
  have hbits (on : Bool) (latch : UInt8) :
      (((if on then 0x80 else 0) ||| (latch &&& 0x7F)) &&& 0x80 ≠ 0 ↔ on = true) ∧
        ((if on then 0x80 else 0) ||| (latch &&& 0x7F)) &&& 0x7F = latch &&& 0x7F := by
    cases on
    all_goals
      revert latch
      exact forall_byte (by decide +kernel)
  obtain ⟨hhigh, hlow⟩ := hbits (m.switches.isSet s) m.keyboardLatch
  refine ⟨?_, ?_, congrArg Prod.snd hread⟩
  · rw [hread]
    exact hhigh
  · rw [hread]
    exact hlow

/-! ## Runs -/

theorem respondAll_concat (m : Memory) (stimuli : List Stimulus) (x : Stimulus) :
    m.respondAll (stimuli ++ [x]) = (m.respondAll stimuli).respond x := by
  unfold respondAll
  rw [List.foldl_append]
  rfl

theorem turning_concat (s : Switch) (stimuli : List Stimulus) (x : Stimulus) :
    turning s (stimuli ++ [x]) = turning s stimuli ++ turning s [x] := by
  unfold turning
  rw [List.filterMap_append, List.filter_append]

theorem turning_access (s : Switch) (a : Access) : turning s [.access a] = if a.Turns s then [a] else [] := by
  unfold turning
  split <;> simp_all [Stimulus.access?]

/-- A switch shows the last access that turned it, or what it was before. -/
theorem isSet_respondAll {on : Bool} {address : UInt16} (h : s.address? on = some address) (m : Memory)
    (stimuli : List Stimulus) :
    (m.respondAll stimuli).switches.isSet s =
      match (turning s stimuli).getLast? with
      | some a => s.wiring.on == some a.address
      | none => m.switches.isSet s := by
  induction stimuli using List.reverseRecOn with
  | nil => rfl
  | append_singleton stimuli x ih =>
    rw [respondAll_concat, turning_concat]
    cases x with
    | access a =>
      rw [respond, isSet_access (Switch.wired h).2, turning_access]
      split
      · rw [List.getLast?_concat]
      · rw [List.append_nil]
        exact ih
    | key key =>
      rw [show turning s [.key key] = [] from rfl, List.append_nil]
      exact ih
    | button button pressed =>
      rw [show turning s [.button button pressed] = [] from rfl, List.append_nil, respond, isSet_setButton h]
      exact ih

end Memory

open Memory (Access Stimulus turning)

/-- **A switch shows the last access that turned it.** After any accesses, keys and buttons, from reset on, a switch with
an address that turns it on, and another that turns it off, is on exactly if the last of the accesses that turned it
went to the former, or if there was none and it is the text display.  Whatever the memory, an access that does not turn
the switch leaves it alone, and so does a button.  A read of the address that shows the switch tells its value in bit 7
over what the keyboard sent, and changes nothing. -/
theorem toggle_shows_last_access {m : Memory} (hreset : m.switches = .reset) {s : Switch} {on : UInt16}
    (hon : s.wiring.on = some on) (stimuli : List Stimulus) :
    ((m.respondAll stimuli).switches.isSet s = true ↔
        (∃ a ∈ (turning s stimuli).getLast?, a.address = on) ∨ turning s stimuli = [] ∧ s = .text) ∧
      (∀ (m' : Memory) (a : Access), ¬a.Turns s → (m'.access a).switches.isSet s = m'.switches.isSet s) ∧
      (∀ (m' : Memory) (button : Nat) (pressed : Bool),
        (m'.setButton button pressed).switches.isSet s = m'.switches.isSet s) ∧
      ∀ (m' : Memory) (status : UInt16), s.wiring.status = some status → m'.ShowsAt s status := by
  have haddress : s.address? true = some on := hon
  refine ⟨?_, fun m' a h => ?_, Memory.isSet_setButton haddress, fun m' _ h => m'.showsAt_status h⟩
  · rw [Memory.isSet_respondAll haddress, hreset, hon]
    cases hlast : (turning s stimuli).getLast? with
    | none =>
      rw [List.getLast?_eq_none_iff.mp hlast]
      simp [Switches.isSet_reset]
    | some a =>
      have hne : turning s stimuli ≠ [] := by
        rintro hnil
        rw [hnil] at hlast
        cases hlast
      simp [hne, eq_comm (a := on)]
  · rw [Memory.isSet_access (Switch.wired haddress).2, if_neg h]

/-- Reads do not turn the switch that lets auxiliary memory be read. -/
theorem toggle_shows_last_access_ramRead :
    let stimuli : List Stimulus :=
      [.access ⟨0xC003, some 0⟩, .button 0 true, .access ⟨0xC002, none⟩, .key 0x41, .access ⟨0xC013, none⟩]
    ({} : Memory).switches = .reset ∧ Switch.ramRead.wiring.on = some 0xC003 ∧
      turning .ramRead stimuli = [⟨0xC003, some 0⟩] ∧ (({} : Memory).respondAll stimuli).switches.isSet .ramRead = true := by
  intro stimuli
  have hturning : turning .ramRead stimuli = [⟨0xC003, some 0⟩] := by decide
  refine ⟨rfl, rfl, hturning, (toggle_shows_last_access rfl rfl stimuli).1.mpr (.inl ?_)⟩
  rw [hturning]
  exact ⟨_, rfl, rfl⟩

end AppleII
