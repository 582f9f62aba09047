import AppleII.Memory.Basic
import Mathlib.Tactic.ByContra

/-!
# Banks of RAM

RAM is six banks: main memory and auxiliary memory, and a language card with a second bank for each of the
two.  `Selects` says which byte of which bank an access goes to, window by window.  `read_write_of_selects` says that
this is what reads and writes do: they reach the selected byte and nothing else.
-/

namespace AppleII

/-- The banks of RAM. -/
inductive Bank where
  | main
  | aux
  /-- The language card of main or auxiliary memory. -/
  | card (aux : Bool)
  /-- The second bank of a language card. -/
  | cardBank2 (aux : Bool)
  deriving DecidableEq, Repr

namespace Bank

def size : Bank → Nat
  | main | aux => 0x10000
  | card _ => 0x3000
  | cardBank2 _ => 0x1000

/-- The place of a bank in RAM. -/
def start : Bank → Nat
  | main => 0
  | aux => 0x10000
  | card false => 0x20000
  | cardBank2 false => 0x23000
  | card true => 0x24000
  | cardBank2 true => 0x27000

/-- The address of the first byte of a bank. -/
def origin : Bank → Nat
  | main | aux => 0
  | card _ | cardBank2 _ => 0xD000

/-- Main or auxiliary memory. -/
def ram (inAux : Bool) : Bank := if inAux then aux else main

theorem size_ram (inAux : Bool) : (ram inAux).size = 0x10000 := by
  cases inAux <;> rfl

theorem origin_ram (inAux : Bool) : (ram inAux).origin = 0 := by
  cases inAux <;> rfl

/-- The banks do not overlap. -/
theorem disjoint {b b' : Bank} (h : b ≠ b') :
    b.start + b.size ≤ b'.start ∨ b'.start + b'.size ≤ b.start := by
  revert h
  rcases b with _ | _ | (_ | _) | (_ | _) <;> rcases b' with _ | _ | (_ | _) | (_ | _) <;> decide

theorem eq_of_start_add {b b' : Bank} {i i' : Nat} (hi : i < b.size) (hi' : i' < b'.size)
    (h : b.start + i = b'.start + i') : b = b' ∧ i = i' := by
  obtain rfl : b = b' := by
    by_contra hne
    have hapart := disjoint hne
    omega
  exact ⟨rfl, Nat.add_left_cancel h⟩

end Bank

/-- The bytes of a bank. -/
def Memory.bank (m : Memory) (b : Bank) : Array UInt8 :=
  m.ram.toArray.extract b.start (b.start + b.size)

/-- An access to an address goes to byte `i` of a bank, under the given switches. -/
inductive Selects (sw : Switches) (isWrite : Bool) (address : UInt16) : Bank → Nat → Prop
  /-- The zero page and the stack. -/
  | zeroPage (h : address < 0x0200) :
    Selects sw isWrite address (.ram (sw.isSet .altZeroPage)) address.toNat
  /-- The text page, while 80-column storage is on. -/
  | textPage (h : 0x0400 ≤ address ∧ address < 0x0800) (store80 : sw.isSet .store80 = true) :
    Selects sw isWrite address (.ram (sw.isSet .page2)) address.toNat
  /-- The graphics page, while 80-column storage and high resolution are on. -/
  | hiresPage (h : 0x2000 ≤ address ∧ address < 0x4000) (store80 : sw.isSet .store80 = true)
      (hires : sw.isSet .hires = true) :
    Selects sw isWrite address (.ram (sw.isSet .page2)) address.toNat
  /-- The rest of the addresses below the I/O page. -/
  | rest (h : 0x0200 ≤ address ∧ address < 0xC000)
      (noText : sw.isSet .store80 = true → ¬(0x0400 ≤ address ∧ address < 0x0800))
      (noHires : sw.isSet .store80 = true → sw.isSet .hires = true → ¬(0x2000 ≤ address ∧ address < 0x4000)) :
    Selects sw isWrite address (.ram (sw.isSet (if isWrite then .ramWrite else .ramRead))) address.toNat
  /-- The part of a language card that has no second bank. -/
  | card (h : 0xE000 ≤ address) (enabled : sw.isSet (if isWrite then .cardWrite else .cardRead) = true) :
    Selects sw isWrite address (.card (sw.isSet .altZeroPage)) (address.toNat - 0xD000)
  | cardBank1 (h : 0xD000 ≤ address ∧ address < 0xE000)
      (enabled : sw.isSet (if isWrite then .cardWrite else .cardRead) = true)
      (bank2 : sw.isSet .cardBank2 = false) :
    Selects sw isWrite address (.card (sw.isSet .altZeroPage)) (address.toNat - 0xD000)
  | cardBank2 (h : 0xD000 ≤ address ∧ address < 0xE000)
      (enabled : sw.isSet (if isWrite then .cardWrite else .cardRead) = true)
      (bank2 : sw.isSet .cardBank2 = true) :
    Selects sw isWrite address (.cardBank2 (sw.isSet .altZeroPage)) (address.toNat - 0xD000)

namespace Selects

variable {sw : Switches} {isWrite : Bool} {address address' : UInt16} {b b' : Bank} {i i' : Nat}

/-- A bank holds its addresses in their order. -/
theorem toNat_eq (h : Selects sw isWrite address b i) : address.toNat = b.origin + i := by
  cases h with
  | zeroPage | textPage | hiresPage | rest => rw [Bank.origin_ram, Nat.zero_add]
  | card h | cardBank1 h | cardBank2 h =>
    simp only [UInt16.le_iff_toNat_le, UInt16.reduceToNat] at h
    simp only [Bank.origin]
    omega

theorem lt_size (h : Selects sw isWrite address b i) : i < b.size := by
  have haddress := address.toNat_lt
  cases h with
  | zeroPage | textPage | hiresPage | rest => rwa [Bank.size_ram]
  | card h | cardBank1 h | cardBank2 h =>
    simp only [UInt16.lt_iff_toNat_lt, UInt16.le_iff_toNat_le, UInt16.reduceToNat] at h
    simp only [Bank.size]
    omega

/-- Two addresses never select the same byte for the same kind of access. -/
theorem address_eq (h : Selects sw isWrite address b i) (h' : Selects sw isWrite address' b i) :
    address = address' :=
  UInt16.toNat_inj.mp (h.toNat_eq.trans h'.toNat_eq.symm)

end Selects

/-! ## The routing of accesses -/

namespace Cell

variable {sw : Switches} {isWrite : Bool} {address : UInt16}

/-- Below the I/O page an access goes to main or to auxiliary memory. -/
theorem select?_ram (h : address < 0xC000) :
    ∃ c, select? sw isWrite address = some c ∧
      c.val = (Bank.ram (usesAux sw isWrite address)).start + address.toNat := by
  refine ⟨_, if_pos h, ?_⟩
  cases usesAux sw isWrite address
  · exact (Nat.zero_add _).symm
  · rfl

/-- Above the slots an access goes to a language card, if the card is enabled. -/
theorem select?_card (h : 0xD000 ≤ address)
    (enabled : sw.isSet (if isWrite then .cardWrite else .cardRead) = true) :
    ∃ c, select? sw isWrite address = some c ∧
      c.val = (if sw.isSet .cardBank2 && decide (address < 0xE000) then
        Bank.cardBank2 (sw.isSet .altZeroPage) else .card (sw.isSet .altZeroPage)).start +
          (address.toNat - 0xD000) := by
  have hram : ¬ address < 0xC000 := UInt16.not_lt.mpr (UInt16.le_trans (by decide) h)
  refine ⟨inCard (sw.isSet .altZeroPage) (sw.isSet .cardBank2) address, ?_, ?_⟩
  · unfold select?
    rw [if_neg hram, if_neg (UInt16.not_lt.mpr h), if_pos enabled]
  · unfold inCard
    dsimp only
    split
    · next hbank2 =>
      simp only [Bool.and_eq_true, decide_eq_true_eq, UInt16.lt_iff_toNat_lt, UInt16.reduceToNat] at hbank2
      simp only [UInt16.le_iff_toNat_le, UInt16.reduceToNat] at h
      cases sw.isSet .altZeroPage with
      | false =>
        show 0x20000 + 0x3000 + address.toNat % 0x1000 = 0x23000 + (address.toNat - 0xD000)
        omega
      | true =>
        show 0x24000 + 0x3000 + address.toNat % 0x1000 = 0x27000 + (address.toNat - 0xD000)
        omega
    · cases sw.isSet .altZeroPage <;> rfl

end Cell

/-- The cell that an access is routed to is the selected byte. -/
theorem Selects.select?_eq {sw : Switches} {isWrite : Bool} {address : UInt16} {b : Bank} {i : Nat}
    (h : Selects sw isWrite address b i) :
    ∃ c, Cell.select? sw isWrite address = some c ∧ c.val = b.start + i := by
  cases h with
  | zeroPage h =>
    have hroute := @Cell.select?_ram sw isWrite address (UInt16.lt_of_lt_of_le h (by decide))
    rwa [Cell.usesAux, if_pos h] at hroute
  | textPage h store80 =>
    have hzero : ¬ address < 0x0200 := UInt16.not_lt.mpr (UInt16.le_trans (by decide) h.1)
    have haux : Cell.usesAux sw isWrite address = sw.isSet .page2 := by
      simp [Cell.usesAux, hzero, store80, h]
    rw [← haux]
    exact Cell.select?_ram (UInt16.lt_of_lt_of_le h.2 (by decide))
  | hiresPage h store80 hires =>
    have hzero : ¬ address < 0x0200 := UInt16.not_lt.mpr (UInt16.le_trans (by decide) h.1)
    have haux : Cell.usesAux sw isWrite address = sw.isSet .page2 := by
      simp [Cell.usesAux, hzero, store80, hires, h]
    rw [← haux]
    exact Cell.select?_ram (UInt16.lt_of_lt_of_le h.2 (by decide))
  | rest h noText noHires =>
    have hzero : ¬ address < 0x0200 := UInt16.not_lt.mpr h.1
    have haux : Cell.usesAux sw isWrite address = sw.isSet (if isWrite then .ramWrite else .ramRead) := by
      unfold Cell.usesAux
      rw [if_neg hzero, if_neg]
      simp only [Bool.and_eq_true, Bool.or_eq_true, decide_eq_true_eq, and_assoc]
      rintro ⟨store80, htext | ⟨hires, hpage⟩⟩
      · exact noText store80 htext
      · exact noHires store80 hires hpage
    rw [← haux]
    exact Cell.select?_ram h.2
  | card h enabled =>
    have hroute := Cell.select?_card (UInt16.le_trans (by decide) h) enabled
    rwa [decide_eq_false (UInt16.not_lt.mpr h), Bool.and_false] at hroute
  | cardBank1 h enabled bank2 =>
    have hroute := Cell.select?_card h.1 enabled
    rwa [bank2, Bool.false_and] at hroute
  | cardBank2 h enabled bank2 =>
    have hroute := Cell.select?_card h.1 enabled
    rwa [bank2, decide_eq_true h.2] at hroute

theorem exists_selects_ram (sw : Switches) (isWrite : Bool) {address : UInt16} (h : address < 0xC000) :
    ∃ b i, Selects sw isWrite address b i := by
  by_cases hzero : address < 0x0200
  · exact ⟨_, _, .zeroPage hzero⟩
  · by_cases htext : sw.isSet .store80 = true ∧ 0x0400 ≤ address ∧ address < 0x0800
    · exact ⟨_, _, .textPage htext.2 htext.1⟩
    · by_cases hhires : sw.isSet .store80 = true ∧ sw.isSet .hires = true ∧ 0x2000 ≤ address ∧ address < 0x4000
      · exact ⟨_, _, .hiresPage hhires.2.2 hhires.1 hhires.2.1⟩
      · exact ⟨_, _, .rest ⟨UInt16.not_lt.mp hzero, h⟩ (fun store80 hpage => htext ⟨store80, hpage⟩)
          fun store80 hires hpage => hhires ⟨store80, hires, hpage⟩⟩

theorem exists_selects_card {sw : Switches} {isWrite : Bool} {address : UInt16} (h : 0xD000 ≤ address)
    (enabled : sw.isSet (if isWrite then .cardWrite else .cardRead) = true) :
    ∃ b i, Selects sw isWrite address b i := by
  by_cases hhigh : address < 0xE000
  · cases bank2 : sw.isSet .cardBank2 with
    | true => exact ⟨_, _, .cardBank2 ⟨h, hhigh⟩ enabled bank2⟩
    | false => exact ⟨_, _, .cardBank1 ⟨h, hhigh⟩ enabled bank2⟩
  · exact ⟨_, _, .card (UInt16.not_lt.mp hhigh) enabled⟩

/-- An access selects a byte unless it goes to ROM, to a slot or to the I/O page. -/
theorem exists_selects_iff {sw : Switches} {isWrite : Bool} {address : UInt16} :
    (∃ b i, Selects sw isWrite address b i) ↔ address < 0xC000 ∨
      0xD000 ≤ address ∧ sw.isSet (if isWrite then .cardWrite else .cardRead) = true := by
  constructor
  · rintro ⟨b, i, h⟩
    cases h with
    | zeroPage h => exact .inl (UInt16.lt_of_lt_of_le h (by decide))
    | textPage h | hiresPage h => exact .inl (UInt16.lt_of_lt_of_le h.2 (by decide))
    | rest h => exact .inl h.2
    | card h enabled => exact .inr ⟨UInt16.le_trans (by decide) h, enabled⟩
    | cardBank1 h enabled | cardBank2 h enabled => exact .inr ⟨h.1, enabled⟩
  · rintro (h | ⟨h, enabled⟩)
    · exact exists_selects_ram sw isWrite h
    · exact exists_selects_card h enabled

theorem Cell.select?_eq_none {sw : Switches} {isWrite : Bool} {address : UInt16}
    (h : ¬∃ b i, Selects sw isWrite address b i) : Cell.select? sw isWrite address = none := by
  rw [exists_selects_iff, not_or, not_and] at h
  obtain ⟨hram, hcard⟩ := h
  unfold Cell.select?
  rw [if_neg hram]
  split
  · rfl
  · next hslots => exact if_neg (hcard (UInt16.not_lt.mp hslots))

/-- An access selects at most one byte. -/
theorem Selects.unique {sw : Switches} {isWrite : Bool} {address : UInt16} {b b' : Bank} {i i' : Nat}
    (h : Selects sw isWrite address b i) (h' : Selects sw isWrite address b' i') : b = b' ∧ i = i' := by
  obtain ⟨c, hc, hval⟩ := h.select?_eq
  obtain ⟨c', hc', hval'⟩ := h'.select?_eq
  obtain rfl : c = c' := Option.some.inj (hc.symm.trans hc')
  exact Bank.eq_of_start_add h.lt_size h'.lt_size (hval.symm.trans hval')

/-! ## Reads and writes -/

namespace Memory

variable {m : Memory} {address : UInt16}

/-- The I/O page is `$C000`–`$C0FF`. -/
theorem isIoPage_eq_false (h : address < 0xC000 ∨ 0xC0FF < address) : isIoPage address = false := by
  unfold isIoPage
  rw [beq_eq_false_iff_ne]
  intro hpage
  have hmask : address.toNat &&& 0xFF00 = 0xC000 := by
    simpa using congrArg UInt16.toNat hpage
  -- The mask keeps the number of the page.
  have hquotient : address.toNat / 2 ^ 8 &&& 2 ^ 8 - 1 = 0xC0 := by
    have hdiv := Nat.and_div_two_pow (a := address.toNat) (b := 0xFF00) (n := 8)
    rw [hmask] at hdiv
    exact hdiv.symm
  rw [Nat.and_two_pow_sub_one_eq_mod] at hquotient
  have haddress := address.toNat_lt
  simp only [UInt16.lt_iff_toNat_lt, UInt16.reduceToNat] at h
  omega

/-- RAM is its banks, one after the other. -/
theorem ram_eq_banks (m : Memory) : m.ram.toArray =
    m.bank .main ++ m.bank .aux ++ m.bank (.card false) ++ m.bank (.cardBank2 false) ++
      m.bank (.card true) ++ m.bank (.cardBank2 true) := by
  have hall : m.ram.toArray.extract 0 0x28000 = m.ram.toArray :=
    Array.extract_eq_self_of_le (Nat.le_of_eq m.ram.size_toArray)
  simp [bank, Bank.start, Bank.size, Array.extract_append_extract, hall]

/-- A byte of a bank is the one at its place in RAM. -/
theorem getElem?_bank (m : Memory) {b : Bank} {i : Nat} (hi : i < b.size) :
    (m.bank b)[i]? = m.ram[b.start + i]? := by
  unfold bank
  rw [Array.getElem?_extract, Vector.getElem?_toArray]
  split
  · rfl
  · next hout =>
    refine (Vector.getElem?_eq_none ?_).symm
    rw [Vector.size_toArray] at hout
    omega

theorem getElem?_ram (m : Memory) (c : Cell) : m.ram[c.val]? = some (m.get c) :=
  Vector.getElem?_eq_getElem c.isLt

theorem getElem?_ram_set_of_ne (m : Memory) {c : Cell} {k : Nat} (v : UInt8) (h : c.val ≠ k) :
    (m.set c v).ram[k]? = m.ram[k]? := by
  exact Vector.getElem?_set_ne c.isLt h

theorem getElem?_bank_of_size_le (m : Memory) {b : Bank} {i : Nat} (hi : b.size ≤ i) :
    (m.bank b)[i]? = none := by
  refine Array.getElem?_eq_none ?_
  unfold bank
  rw [Array.size_extract]
  omega

theorem getElem?_bank_of_selects {b : Bank} {i : Nat} (h : Selects m.switches false address b i) :
    (m.bank b)[i]? = some (m.peek address) := by
  obtain ⟨c, hc, hval⟩ := h.select?_eq
  unfold peek
  rw [getElem?_bank m h.lt_size, ← hval, getElem?_ram, hc]

/-- A read that selects no byte gives what ROM has. -/
theorem peek_of_not_selects (h : ¬∃ b i, Selects m.switches false address b i) :
    m.peek address = m.romByte address := by
  unfold peek
  rw [Cell.select?_eq_none h]

theorem romByte_poke (m : Memory) (address address' : UInt16) (v : UInt8) :
    (m.poke address v).romByte address' = m.romByte address' := by
  obtain ⟨ram, h⟩ := m.exists_poke_eq address v
  rw [h]
  rfl

theorem getElem?_bank_poke {b : Bank} {i : Nat} (h : Selects m.switches true address b i) (v : UInt8) :
    ((m.poke address v).bank b)[i]? = some v := by
  obtain ⟨c, hc, hval⟩ := h.select?_eq
  unfold poke
  rw [hc, getElem?_bank _ h.lt_size, ← hval]
  exact (getElem?_ram _ c).trans (congrArg some (get_set_self m c v))

theorem getElem?_bank_poke_of_not {b : Bank} {i : Nat} (h : ¬Selects m.switches true address b i)
    (v : UInt8) : ((m.poke address v).bank b)[i]? = (m.bank b)[i]? := by
  rcases Nat.lt_or_ge i b.size with hi | hi
  · rw [getElem?_bank _ hi, getElem?_bank _ hi]
    by_cases hsome : ∃ b' i', Selects m.switches true address b' i'
    · obtain ⟨b', i', h'⟩ := hsome
      obtain ⟨c, hc, hval⟩ := h'.select?_eq
      unfold poke
      rw [hc]
      -- If the cell that is written were that of the byte, the write would select the byte.
      refine getElem?_ram_set_of_ne m v fun heq => h ?_
      obtain ⟨rfl, rfl⟩ := Bank.eq_of_start_add h'.lt_size hi (hval.symm.trans heq)
      exact h'
    · unfold poke
      rw [Cell.select?_eq_none hsome]
  · rw [getElem?_bank_of_size_le _ hi, getElem?_bank_of_size_le _ hi]

/-- What is written is read where the read selects the same byte. -/
theorem peek_poke {b : Bank} {i : Nat} (hread : Selects m.switches false address b i)
    (hwrite : Selects m.switches true address b i) (v : UInt8) : (m.poke address v).peek address = v := by
  have hbyte := getElem?_bank_of_selects (m := m.poke address v) (by rw [switches_poke]; exact hread)
  rw [getElem?_bank_poke hwrite] at hbyte
  exact (Option.some.inj hbyte).symm

/-- Where it does not, the read gives what it gave before. -/
theorem peek_poke_of_not (h : ∀ b i, Selects m.switches false address b i → ¬Selects m.switches true address b i)
    (v : UInt8) : (m.poke address v).peek address = m.peek address := by
  by_cases hread : ∃ b i, Selects m.switches false address b i
  · obtain ⟨b, i, hread⟩ := hread
    have hbyte := getElem?_bank_of_selects (m := m.poke address v) (by rw [switches_poke]; exact hread)
    rw [getElem?_bank_poke_of_not (h b i hread), getElem?_bank_of_selects hread] at hbyte
    exact (Option.some.inj hbyte).symm
  · have hread' : ¬∃ b i, Selects (m.poke address v).switches false address b i := by
      rwa [switches_poke]
    rw [peek_of_not_selects hread, peek_of_not_selects hread', romByte_poke]

end Memory

open Processor (Bus)

/-- **Bank switching maps every address to one byte.** RAM is its six banks.  Outside the I/O page, an access
to an address selects at most one byte of one bank, and another byte for every address: a byte below `$C000`, and
from `$D000` on while the language card is enabled for that kind of access.  A read gives the byte that it selects
and changes nothing.  A write gives its value to the byte that it selects, leaves every other byte, and changes
nothing but RAM.  A read right after it gives the value if it selects the byte that was written, and what it gave
before if it does not. -/
theorem read_write_of_selects (m : Memory) {address : UInt16} (h : address < 0xC000 ∨ 0xC0FF < address) (v : UInt8) :
    m.ram.toArray = m.bank .main ++ m.bank .aux ++ m.bank (.card false) ++ m.bank (.cardBank2 false) ++
        m.bank (.card true) ++ m.bank (.cardBank2 true) ∧
      (∀ isWrite, ((∃ b i, Selects m.switches isWrite address b i) ↔ address < 0xC000 ∨
          0xD000 ≤ address ∧ m.switches.isSet (if isWrite then .cardWrite else .cardRead) = true) ∧
        (∀ b i b' i', Selects m.switches isWrite address b i → Selects m.switches isWrite address b' i' →
          b = b' ∧ i = i') ∧
        ∀ b i address', Selects m.switches isWrite address b i → Selects m.switches isWrite address' b i →
          address = address') ∧
      (Bus.read m address).2 = m ∧
      (∀ b i, Selects m.switches false address b i → (m.bank b)[i]? = some (Bus.read m address).1) ∧
      (∃ ram, Bus.write m address v = { m with ram }) ∧
      (∀ b i, Selects m.switches true address b i → ((Bus.write m address v).bank b)[i]? = some v) ∧
      (∀ b i, ¬Selects m.switches true address b i →
        ((Bus.write m address v).bank b)[i]? = (m.bank b)[i]?) ∧
      (∀ b i, Selects m.switches false address b i → Selects m.switches true address b i →
        (Bus.read (Bus.write m address v) address).1 = v) ∧
      ((∀ b i, Selects m.switches false address b i → ¬Selects m.switches true address b i) →
        (Bus.read (Bus.write m address v) address).1 = (Bus.read m address).1) := by
  have hpage := Memory.isIoPage_eq_false h
  have hread (m : Memory) : Bus.read m address = (m.peek address, m) := if_neg (by rw [hpage]; decide)
  have hwrite : Bus.write m address v = m.poke address v := if_neg (by rw [hpage]; decide)
  simp only [hread, hwrite]
  refine ⟨m.ram_eq_banks, fun isWrite => ⟨exists_selects_iff, ?_, ?_⟩, trivial, ?_, ?_, ?_, ?_, ?_, ?_⟩
  · intro b i b' i' hb hb'
    exact hb.unique hb'
  · intro b i address' hb hb'
    exact hb.address_eq hb'
  · intro b i hb
    exact Memory.getElem?_bank_of_selects hb
  · exact m.exists_poke_eq address v
  · intro b i hb
    exact Memory.getElem?_bank_poke hb v
  · intro b i hb
    exact Memory.getElem?_bank_poke_of_not hb v
  · intro b i hb hb'
    exact Memory.peek_poke hb hb' v
  · intro hother
    exact Memory.peek_poke_of_not hother v

/-- A memory that shows the second display page, and whose writes otherwise go to auxiliary memory. -/
def secondPage : Memory where
  switches := ((Switches.reset.set .store80 true).set .page2 true).set .ramWrite true

/-- The display page is read where it is written, the page after it is not. -/
theorem read_write_of_selects_secondPage :
    ((0x0400 : UInt16) < 0xC000 ∨ 0xC0FF < (0x0400 : UInt16)) ∧
      (Bus.read (Bus.write secondPage 0x0400 0xC1) 0x0400).1 = 0xC1 ∧
      (Bus.read (Bus.write secondPage 0x0800 0xC1) 0x0800).1 = (Bus.read secondPage 0x0800).1 := by
  have hdisplay (isWrite : Bool) : Selects secondPage.switches isWrite 0x0400 (.ram true) 0x0400 :=
    .textPage (by decide) (by decide)
  have hmain : Selects secondPage.switches false 0x0800 (.ram false) 0x0800 :=
    .rest (by decide) (by decide) (by decide)
  have haux : Selects secondPage.switches true 0x0800 (.ram true) 0x0800 :=
    .rest (by decide) (by decide) (by decide)
  obtain ⟨-, -, -, -, -, -, -, hsame, -⟩ := @read_write_of_selects secondPage 0x0400 (by decide) 0xC1
  obtain ⟨-, -, -, -, -, -, -, -, hother⟩ := @read_write_of_selects secondPage 0x0800 (by decide) 0xC1
  refine ⟨by decide, hsame _ _ (hdisplay false) (hdisplay true), hother fun b i hread hwrite => ?_⟩
  obtain ⟨rfl, -⟩ := hread.unique hmain
  exact absurd (hwrite.unique haux).1 (by decide)

end AppleII
