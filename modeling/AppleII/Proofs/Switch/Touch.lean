import AppleII.Machine.Board
import AppleII.Proofs.Switch.Wiring

/-!
# What turns a switch

Writes to the two addresses of a switch turn it and, unless the switch is write-only, reads do so too
(`Memory.isSet_touch`).  The switches of the language card are turned by its handler, which leaves the others alone
(`Memory.isSet_handle`), so that every other switch is turned by an access as by a touch (`Board.isSet_accessIoPage`).
-/

namespace AppleII

/-- The switches that the handler of the language card turns. -/
def Switch.isCard : Switch → Bool
  | .cardBank2 | .cardRead | .cardWrite | .cardPreWrite => true
  | _ => false

/-- No address turns a switch of the language card. -/
theorem Switch.turned?_of_isCard {s : Switch} (hs : s.isCard = true) (low : UInt8) : s.turned? low = none := by
  have hhidden (on : Bool) : s.address? on = none := by
    revert hs
    cases on <;> cases s <;> decide
  cases h : s.turned? low with
  | none => rfl
  | some on => cases (hhidden on).symm.trans (turned?_eq_some_iff.mp h)

namespace Memory

variable {s : Switch}

/-- Reads turn a switch as writes do, unless it is one that only writes turn. -/
theorem isSet_touch (m : Memory) (s : Switch) (address : UInt16) (isWrite : Bool) :
    (m.touch address isWrite).switches.isSet s =
      if isWrite || !s.wiring.writeOnly then (s.turned? address.toUInt8).getD (m.switches.isSet s)
      else m.switches.isSet s := by
  unfold touch Switches.touch Switch.turned?
  rw [← Switch.toggle?_eq]
  cases Switch.toggle? address with
  | none => exact (ite_self _).symm
  | some t =>
    obtain ⟨t, on⟩ := t
    by_cases ht : t = s
    · subst ht
      dsimp only
      split
      · simp
      · rfl
    · dsimp only [Option.bind_some]
      rw [if_neg ht, Option.getD_none, ite_self]
      split
      · exact Switches.isSet_set_of_ne m.switches on ht
      · rfl

theorem isSet_accessCard (hs : s.isCard = false) (sw : Switches) (reg : UInt16) (isWrite : Bool) :
    (accessCard sw reg isWrite).isSet s = sw.isSet s := by
  have hset (sw : Switches) {t : Switch} (on : Bool) (ht : t.isCard = true) : (sw.set t on).isSet s = sw.isSet s := by
    refine Switches.isSet_set_of_ne sw on ?_
    rintro rfl
    rw [hs] at ht
    cases ht
  unfold accessCard
  dsimp only
  split
  · rw [hset _ _ rfl]
    split
    · rw [hset _ _ rfl, hset _ _ rfl, hset _ _ rfl]
    · rw [hset _ _ rfl, hset _ _ rfl]
  · rw [hset _ _ rfl, hset _ _ rfl, hset _ _ rfl, hset _ _ rfl]

/-- What goes to no slot leaves the switches alone, but for those of the language card. -/
theorem isSet_handle (hs : s.isCard = false) (m : Memory) (route : Route) (address : UInt16) (value : Option UInt8) :
    (m.handle route address value).2.switches.isSet s = m.switches.isSet s := by
  cases route with
  | status t =>
    unfold handle
    dsimp only
    split
    · rfl
    · rfl
  | languageCard => exact isSet_accessCard hs _ _ _
  | keyboard | clearStrobe | speaker | toggle | slot | floating => rfl

end Memory

namespace Board

/-- An access to the I/O page goes to the disk controller, or it goes on in the memory. -/
theorem accessIoPage_cases (b : Board) (address : UInt16) (value : Option UInt8) :
    (∃ reg, Route.ofAddress address = .slot 6 reg ∧ (b.accessIoPage address value).2 =
      { b with
        memory := b.memory.touch address value.isSome
        disk := (b.disk.access reg value b.clock (b.memory.touch address value.isSome).switches).2 }) ∨
    (∀ reg, Route.ofAddress address ≠ .slot 6 reg) ∧ (b.accessIoPage address value).2 =
      { b with
        memory := ((b.memory.touch address value.isSome).handle (.ofAddress address) address value).2 } := by
  unfold accessIoPage
  dsimp only
  split
  · next reg hroute => exact .inl ⟨reg, hroute, rfl⟩
  · next hroute => exact .inr ⟨hroute, rfl⟩

/-- A switch of the board after an access to the I/O page. -/
theorem isSet_accessIoPage {s : Switch} (hs : s.wiring.writeOnly = false) (hcard : s.isCard = false) (b : Board)
    (address : UInt16) (value : Option UInt8) :
    (b.accessIoPage address value).2.memory.switches.isSet s =
      (s.turned? address.toUInt8).getD (b.memory.switches.isSet s) := by
  have htouch := b.memory.isSet_touch s address value.isSome
  rw [hs, Bool.not_false, Bool.or_true, if_pos rfl] at htouch
  rw [← htouch]
  rcases b.accessIoPage_cases address value with ⟨reg, -, heq⟩ | ⟨-, heq⟩
  · rw [heq]
  · rw [heq]
    dsimp only
    exact Memory.isSet_handle hcard (b.memory.touch address value.isSome) (.ofAddress address) address value

end Board

end AppleII
