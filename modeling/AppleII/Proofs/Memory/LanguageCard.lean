import AppleII.Proofs.Memory.Access
import AppleII.Proofs.Switch.Touch
import Mathlib.Data.List.Basic
import Mathlib.Data.List.Induction

/-!
# The switches of the language card

Sixteen addresses turn the four switches of the language card, and no other access does
(`Memory.isSet_access_of_not_toCard`).  From the accesses to these addresses alone it follows what the switches are
(`Switches.FollowsCard`): three of them tell of the last access, and the one that lets RAM be written tells of two
reads in a row.
-/

namespace AppleII

namespace Memory

namespace Access

/-- The access goes to the language card. -/
def ToCard (a : Access) : Prop := 0xC080 ≤ a.address ∧ a.address ≤ 0xC08F

/-- The access goes to an odd address. -/
def IsOdd (a : Access) : Prop := a.address.toNat % 2 = 1

/-- A read of an odd address. -/
def IsOddRead (a : Access) : Prop := a.IsOdd ∧ a.value = none

instance : DecidablePred ToCard := fun a => inferInstanceAs (Decidable (0xC080 ≤ a.address ∧ a.address ≤ 0xC08F))

instance : DecidablePred IsOdd := fun a => inferInstanceAs (Decidable (a.address.toNat % 2 = 1))

instance : DecidablePred IsOddRead := fun a => inferInstanceAs (Decidable (a.IsOdd ∧ a.value = none))

/-- Some accesses hold two reads of odd addresses in a row, and no even address after them. -/
def DoubleRead (accesses : List Access) : Prop :=
  ∃ a b since, a :: b :: since <:+ accesses ∧ a.IsOddRead ∧ b.IsOddRead ∧ ∀ c ∈ since, c.IsOdd

/-- Bit 0 of an address tells whether it is odd. -/
theorem and_one_eq_zero_iff (a : Access) : a.address &&& 0x01 = 0 ↔ ¬a.IsOdd := by
  rw [← UInt16.toNat_inj, UInt16.toNat_and, IsOdd]
  simp only [UInt16.reduceToNat, Nat.and_one_is_mod]
  omega

theorem not_doubleRead_nil : ¬DoubleRead [] := by
  rintro ⟨a, b, since, hsuffix, -⟩
  simp at hsuffix

/-- The last access makes the second of two reads in a row, or it comes after them. -/
theorem doubleRead_concat {accesses : List Access} {x : Access} :
    DoubleRead (accesses ++ [x]) ↔
      x.IsOdd ∧ (DoubleRead accesses ∨ x.value = none ∧ ∃ a ∈ accesses.getLast?, a.IsOddRead) := by
  constructor
  · rintro ⟨a, b, since, hsuffix, ha, hb, hsince⟩
    obtain ⟨front, hfront⟩ := hsuffix
    rcases List.eq_nil_or_concat' since with rfl | ⟨since, c, rfl⟩
    · -- The two reads are the last two accesses.
      have hlast : (front ++ [a]) ++ [b] = accesses ++ [x] := by
        rw [← hfront, List.append_assoc]
        rfl
      obtain ⟨rfl, hx⟩ := List.append_inj' hlast rfl
      obtain rfl : b = x := List.singleton_inj.mp hx
      refine ⟨hb.1, .inr ⟨hb.2, a, ?_, ha⟩⟩
      rw [List.getLast?_concat]
      rfl
    · have hlast : (front ++ a :: b :: since) ++ [c] = accesses ++ [x] := by
        rw [← hfront]
        simp
      obtain ⟨rfl, hx⟩ := List.append_inj' hlast rfl
      obtain rfl : c = x := List.singleton_inj.mp hx
      refine ⟨hsince c (by simp), .inl ⟨a, b, since, List.suffix_append _ _, ha, hb, fun d hd => ?_⟩⟩
      exact hsince d (List.mem_append_left _ hd)
  · rintro ⟨hx, ⟨a, b, since, ⟨front, rfl⟩, ha, hb, hsince⟩ | ⟨hread, a, ha, hodd⟩⟩
    · refine ⟨a, b, since ++ [x], ⟨front, by simp⟩, ha, hb, fun c hc => ?_⟩
      rcases List.mem_append.mp hc with hc | hc
      · exact hsince c hc
      · rwa [List.mem_singleton.mp hc]
    · obtain ⟨front, rfl⟩ := List.getLast?_eq_some_iff.mp ha
      exact ⟨a, x, [], ⟨front, by simp⟩, hodd, ⟨hx, hread⟩, nofun⟩

end Access

end Memory

open Memory (Access accessCard)

/-- The switches of the language card are what accesses to it make of switches that are off. -/
structure Switches.FollowsCard (sw : Switches) (card : List Access) : Prop where
  bank2 : sw.isSet .cardBank2 = true ↔ ∃ a ∈ card.getLast?, a.address &&& 0x08 = 0
  read : sw.isSet .cardRead = true ↔ ∃ a ∈ card.getLast?, a.address &&& 0x03 = 0 ∨ a.address &&& 0x03 = 3
  preWrite : sw.isSet .cardPreWrite = true ↔ ∃ a ∈ card.getLast?, a.IsOddRead
  write : sw.isSet .cardWrite = true ↔ Access.DoubleRead card

namespace Switches

/-- What an access to a register of the language card makes of its switches. -/
theorem card_accessCard (sw : Switches) (reg : UInt16) (isWrite : Bool) :
    (accessCard sw reg isWrite).isSet .cardBank2 = (reg &&& 0x08 == 0) ∧
      (accessCard sw reg isWrite).isSet .cardRead = (reg &&& 0x03 == 0 || reg &&& 0x03 == 3) ∧
      (accessCard sw reg isWrite).isSet .cardPreWrite = (reg &&& 0x01 != 0 && !isWrite) ∧
      (accessCard sw reg isWrite).isSet .cardWrite =
        (reg &&& 0x01 != 0 && (sw.isSet .cardWrite || !isWrite && sw.isSet .cardPreWrite)) := by
  unfold accessCard
  cases hodd : reg &&& 0x01 != 0 with
  | false => simp [isSet_set]
  | true =>
    cases isWrite with
    | true => simp [isSet_set]
    | false => cases hpre : sw.isSet .cardPreWrite <;> simp [isSet_set, hpre]

theorem followsCard_reset : reset.FollowsCard [] where
  bank2 := by simp [isSet_reset]
  read := by simp [isSet_reset]
  preWrite := by simp [isSet_reset]
  write := by simp [isSet_reset, Access.not_doubleRead_nil]

/-- One more access to the card. -/
theorem FollowsCard.accessCard {sw : Switches} {card : List Access} (h : sw.FollowsCard card) (a : Access) :
    (accessCard sw (a.address &&& 0x0F) a.value.isSome).FollowsCard (card ++ [a]) := by
  obtain ⟨hbank2, hread, hpreWrite, hwrite⟩ := card_accessCard sw (a.address &&& 0x0F) a.value.isSome
  have hmask (mask : UInt16) (h : 0x0F &&& mask = mask) : a.address &&& 0x0F &&& mask = a.address &&& mask := by
    rw [UInt16.and_assoc, h]
  rw [hmask 0x08 (by decide)] at hbank2
  rw [hmask 0x03 (by decide)] at hread
  rw [hmask 0x01 (by decide)] at hpreWrite hwrite
  refine ⟨?_, ?_, ?_, ?_⟩
  · simp [hbank2]
  · simp [hread]
  · simp [hpreWrite, Access.IsOddRead, a.and_one_eq_zero_iff]
  · rw [hwrite, Access.doubleRead_concat, ← h.write, ← h.preWrite]
    simp [a.and_one_eq_zero_iff]

end Switches

/-! ## The route to the card -/

theorem Route.ofLow_eq_languageCard_iff {low : UInt8} : ofLow low = .languageCard ↔ 0x80 ≤ low ∧ low < 0x90 := by
  unfold ofLow
  constructor
  · grind
  · grind

/-- No address of the card turns a switch. -/
theorem Switch.findToggle_of_card {low : UInt8} (hfrom : 0x80 ≤ low) (hto : low < 0x90) : findToggle low = none := by
  have hclear (s : Switch) (on : Bool) : (s.address? on).all fun a => a < 0xC080 || 0xC090 ≤ a := by
    cases on <;> cases s <;> decide
  have hin (low : UInt8) : 0x80 ≤ low ∧ low < 0x90 →
      0xC080 ≤ 0xC000 ||| low.toUInt16 ∧ 0xC000 ||| low.toUInt16 < 0xC090 := by
    revert low
    exact forall_byte (by decide +kernel)
  obtain ⟨hlow, hhigh⟩ := hin low ⟨hfrom, hto⟩
  by_contra hturned
  obtain ⟨⟨s, on⟩, h⟩ := Option.ne_none_iff_exists'.mp hturned
  have hout := hclear s on
  rw [findToggle_eq_some_iff.mp h] at hout
  rcases Bool.or_eq_true _ _ ▸ hout with hbelow | habove
  · exact absurd (of_decide_eq_true hbelow) (UInt16.not_lt.mpr hlow)
  · exact absurd hhigh (UInt16.not_lt.mpr (of_decide_eq_true habove))

namespace Memory

variable {m : Memory} {s : Switch} {a : Access}

/-- The sixteen addresses of the card lie in the I/O page and lead to the card. -/
theorem Access.toCard_iff : a.ToCard ↔ isIoPage a.address = true ∧ Route.ofAddress a.address = .languageCard := by
  rw [Route.ofAddress_eq, Route.ofLow_eq_languageCard_iff, isIoPage_iff, Access.ToCard]
  simp only [UInt16.le_iff_toNat_le, UInt8.le_iff_toNat_le, UInt8.lt_iff_toNat_lt, UInt16.toNat_toUInt8,
    UInt16.reduceToNat, UInt8.reduceToNat]
  omega

theorem Access.ToCard.touch_eq (h : a.ToCard) (isWrite : Bool) : m.touch a.address isWrite = m := by
  obtain ⟨-, hroute⟩ := Access.toCard_iff.mp h
  rw [Route.ofAddress_eq, Route.ofLow_eq_languageCard_iff] at hroute
  have htoggle : Switch.toggle? a.address = none := by
    rw [Switch.toggle?_eq, Switch.findToggle_of_card hroute.1 hroute.2]
  unfold touch
  rw [Switches.touch_of_none htoggle]

/-- An access to the card is one to the register of its address. -/
theorem switches_access_of_toCard (h : a.ToCard) :
    (m.access a).switches = accessCard m.switches (a.address &&& 0x0F) a.value.isSome := by
  obtain ⟨hpage, hroute⟩ := Access.toCard_iff.mp h
  rw [access_of_isIoPage hpage]
  unfold accessIoPage
  rw [h.touch_eq, hroute]
  rfl

/-- Only what leads to the card turns its switches. -/
theorem switches_handle_of_ne {route : Route} (h : route ≠ .languageCard) (address : UInt16) (value : Option UInt8) :
    (m.handle route address value).2.switches = m.switches := by
  cases route with
  | status t =>
    unfold handle
    dsimp only
    split
    · rfl
    · rfl
  | languageCard => exact absurd rfl h
  | keyboard | clearStrobe | speaker | toggle | slot | floating => rfl

/-- An access that does not go to the card leaves its switches alone. -/
theorem isSet_access_of_not_toCard (h : ¬a.ToCard) (hs : s.isCard = true) (m : Memory) :
    (m.access a).switches.isSet s = m.switches.isSet s := by
  cases hpage : isIoPage a.address with
  | false => rw [switches_access_of_not_isIoPage hpage]
  | true =>
    have hroute : Route.ofAddress a.address ≠ .languageCard := fun hcard => h (Access.toCard_iff.mpr ⟨hpage, hcard⟩)
    rw [access_of_isIoPage hpage]
    unfold accessIoPage
    rw [switches_handle_of_ne hroute, isSet_touch, Switch.turned?_of_isCard hs, Option.getD_none, ite_self]

end Memory

/-- Nothing but the switches of the card counts. -/
theorem Switches.FollowsCard.congr {sw sw' : Switches} {card : List Access} (h : sw.FollowsCard card)
    (heq : ∀ s : Switch, s.isCard = true → sw'.isSet s = sw.isSet s) : sw'.FollowsCard card where
  bank2 := by rw [heq _ rfl, h.bank2]
  read := by rw [heq _ rfl, h.read]
  preWrite := by rw [heq _ rfl, h.preWrite]
  write := by rw [heq _ rfl, h.write]

/-- **The switches of the language card follow from the accesses to it.** After any reads and writes at any
addresses, from reset on, look at those that went to `$C080`–`$C08F`.  RAM can be written exactly if two reads of odd
addresses came one right after the other, with no even address since; the next read can let it be written exactly if the
last of them was a read of an odd address.  The second bank is used exactly if the last of them had bit 3 clear, and the
card is read exactly if bits 0 and 1 were both clear or both set.  An access to another address turns none of these
switches, whatever the memory. -/
theorem followsCard_accessAll {m : Memory} (h : m.switches = .reset) (accesses : List Access) :
    (m.accessAll accesses).switches.FollowsCard (accesses.filter fun a => a.ToCard) ∧
      ∀ (m' : Memory) (a : Access) (s : Switch), ¬a.ToCard → s.isCard = true →
        (m'.access a).switches.isSet s = m'.switches.isSet s := by
  refine ⟨?_, fun m' a s ha hs => Memory.isSet_access_of_not_toCard ha hs m'⟩
  induction accesses using List.reverseRecOn with
  | nil =>
    rw [show (m.accessAll []).switches = m.switches from rfl, h]
    exact Switches.followsCard_reset
  | append_singleton accesses a ih =>
    rw [Memory.accessAll_concat, List.filter_append]
    by_cases ha : a.ToCard
    · rw [Memory.switches_access_of_toCard ha, List.filter_cons_of_pos (by simpa using ha), List.filter_nil]
      exact ih.accessCard a
    · rw [List.filter_cons_of_neg (by simpa using ha), List.filter_nil, List.append_nil]
      exact ih.congr fun s hs => Memory.isSet_access_of_not_toCard ha hs _

/-- Two reads of odd addresses let RAM be written, with an access elsewhere between them and a write to the card after
them. -/
theorem followsCard_accessAll_twoReads :
    ({} : Memory).switches = .reset ∧
      (({} : Memory).accessAll [⟨0xC081, none⟩, ⟨0xC054, none⟩, ⟨0xC089, none⟩,
        ⟨0xC085, some 0⟩]).switches.isSet .cardWrite = true := by
  refine ⟨rfl, (followsCard_accessAll rfl _).1.write.mpr ?_⟩
  exact ⟨⟨0xC081, none⟩, ⟨0xC089, none⟩, [⟨0xC085, some 0⟩], by decide, by decide, by decide, by decide⟩

end AppleII
