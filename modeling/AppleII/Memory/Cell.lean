import AppleII.Switch.Basic

/-!
# Memory cells

All RAM of the computer is one row of cells: main memory, auxiliary memory, and then for each of the
two a language card of 12 KiB and the 4 KiB of its second bank.  `Cell.select?` says which cell an address names under the
switches, for reading and for writing; no cell is named where ROM answers or nothing is stored.
-/

namespace AppleII

/-- The number of cells: twice 64 KiB and twice 16 KiB. -/
def Cell.count : Nat := 0x28000

/-- A cell of RAM. -/
abbrev Cell := Fin Cell.count

namespace Cell

def inMain (address : UInt16) : Cell :=
  ⟨address.toNat, by have := address.toNat_lt; simp only [count]; omega⟩

/-- The cell of an address in auxiliary memory. -/
def inAux (address : UInt16) : Cell :=
  ⟨0x10000 + address.toNat, by have := address.toNat_lt; simp only [count]; omega⟩

/-- The cell of an address from `$D000` on in a language card.  Its second bank stands in for the
first at `$D000`–`$DFFF` only. -/
def inCard (aux bank2 : Bool) (address : UInt16) : Cell :=
  let start := if aux then 0x24000 else 0x20000
  if bank2 && decide (address < 0xE000) then
    ⟨start + 0x3000 + address.toNat % 0x1000, by simp only [start, count]; split <;> omega⟩
  else
    ⟨start + (address.toNat - 0xD000), by
      have := address.toNat_lt
      simp only [start, count]
      split <;> omega⟩

/-- Whether an address below `$C000` lies in auxiliary memory.  The zero page and the stack follow
one switch; the display pages follow another while 80-column storage is on; the rest follows
separate switches for reading and writing. -/
def usesAux (sw : Switches) (isWrite : Bool) (address : UInt16) : Bool :=
  if address < 0x0200 then sw.isSet .altZeroPage
  else if sw.isSet .store80 && ((0x0400 ≤ address && address < 0x0800) ||
      (sw.isSet .hires && 0x2000 ≤ address && address < 0x4000)) then
    sw.isSet .page2
  else sw.isSet (if isWrite then .ramWrite else .ramRead)

/-- The cell that an address names, if one does. -/
def select? (sw : Switches) (isWrite : Bool) (address : UInt16) : Option Cell :=
  if address < 0xC000 then
    some (if usesAux sw isWrite address then inAux address else inMain address)
  else if address < 0xD000 then none
  else if sw.isSet (if isWrite then .cardWrite else .cardRead) then
    some (inCard (sw.isSet .altZeroPage) (sw.isSet .cardBank2) address)
  else none

end Cell

end AppleII
