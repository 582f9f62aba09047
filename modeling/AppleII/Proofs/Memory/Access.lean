import AppleII.Proofs.Memory.Banks
import AppleII.Proofs.Switch.Wiring

/-!
# Accesses to the memory

Reads and writes one after the other (`Memory.accessAll`).  An access to the I/O page goes where its route leads, and
any other access leaves everything but RAM alone.
-/

namespace AppleII

open Processor (Bus)

namespace Memory

/-- An access to an address. -/
structure Access where
  address : UInt16
  /-- What is written; none for a read. -/
  value : Option UInt8
  deriving DecidableEq, Repr

/-- The I/O page is `$C000`–`$C0FF`. -/
theorem isIoPage_iff {address : UInt16} : isIoPage address = true ↔ 0xC000 ≤ address ∧ address ≤ 0xC0FF := by
  constructor
  · intro hpage
    by_contra hout
    rw [isIoPage_eq_false (by grind)] at hpage
    cases hpage
  · rintro ⟨hlow, hhigh⟩
    simp only [UInt16.le_iff_toNat_le, UInt16.reduceToNat] at hlow hhigh
    unfold isIoPage
    rw [beq_iff_eq, ← UInt16.toNat_inj, UInt16.toNat_and]
    -- The mask keeps the number of the page and nothing else.
    have hquotient : (address.toNat &&& 0xFF00) / 2 ^ 8 = 0xC0 := by
      rw [Nat.and_div_two_pow, show address.toNat / 2 ^ 8 = 0xC0 by omega]
      decide
    have hremainder : (address.toNat &&& 0xFF00) % 2 ^ 8 = 0 := by
      rw [Nat.and_mod_two_pow]
      exact Nat.and_zero _
    simp only [UInt16.reduceToNat]
    omega

/-- The memory after an access. -/
def access (m : Memory) (a : Access) : Memory :=
  match a.value with
  | none => (Bus.read m a.address).2
  | some v => Bus.write m a.address v

def accessAll (m : Memory) (accesses : List Access) : Memory := accesses.foldl access m

/-- An address in the I/O page is told from its low byte. -/
theorem ioAddress_toUInt8 {address : UInt16} (h : isIoPage address = true) :
    0xC000 ||| address.toUInt8.toUInt16 = address := by
  obtain ⟨hlow, hhigh⟩ := isIoPage_iff.mp h
  have hadd (low : UInt8) : 0xC000 ||| low.toUInt16 = 0xC000 + low.toUInt16 := by
    revert low
    exact forall_byte (by decide +kernel)
  rw [hadd, ← UInt16.toNat_inj]
  simp only [UInt16.le_iff_toNat_le, UInt16.toNat_add, UInt8.toNat_toUInt16, UInt16.toNat_toUInt8,
    UInt16.reduceToNat] at hlow hhigh ⊢
  omega

variable {m : Memory} {a : Access}

theorem access_of_isIoPage (h : isIoPage a.address = true) : m.access a = (m.accessIoPage a.address a.value).2 := by
  unfold access
  cases a.value with
  | none => simp [Bus.read, h]
  | some v => simp [Bus.write, h]

/-- An access outside the I/O page changes nothing but RAM. -/
theorem exists_access_eq (h : isIoPage a.address = false) : ∃ ram, m.access a = { m with ram } := by
  unfold access
  cases a.value with
  | none => exact ⟨m.ram, by simp [Bus.read, h]⟩
  | some v =>
    obtain ⟨ram, hpoke⟩ := m.exists_poke_eq a.address v
    exact ⟨ram, by simp [Bus.write, h, hpoke]⟩

theorem switches_access_of_not_isIoPage (h : isIoPage a.address = false) : (m.access a).switches = m.switches := by
  obtain ⟨ram, haccess⟩ := exists_access_eq (m := m) h
  rw [haccess]

theorem accessAll_concat (m : Memory) (accesses : List Access) (a : Access) :
    m.accessAll (accesses ++ [a]) = (m.accessAll accesses).access a := by
  unfold accessAll
  rw [List.foldl_append]
  rfl

end Memory

end AppleII
