/-!
# The bus

A processor sees the rest of the computer through reads and writes of bytes, and a read may change
what it reads from.  `Logged` keeps the accesses of any bus in order, and `FlatMemory` is the plain
64 KiB memory in which every address is a cell.
-/

namespace AppleII.Processor

/-- What a processor is wired to: a read answers with a byte, and every access may change the bus. -/
class Bus (σ : Type) where
  read : σ → UInt16 → UInt8 × σ
  write : σ → UInt16 → UInt8 → σ

/-- One access, with the byte that was read or written. -/
inductive Access where
  | read (address : UInt16) (value : UInt8)
  | write (address : UInt16) (value : UInt8)
  deriving DecidableEq, Repr, Inhabited

/-- A bus together with the accesses made to it, oldest first. -/
structure Logged (σ : Type) where
  bus : σ
  log : Array Access := #[]

instance {σ : Type} [Bus σ] : Bus (Logged σ) where
  read s address :=
    let (value, bus) := Bus.read s.bus address
    (value, ⟨bus, s.log.push (.read address value)⟩)
  write s address value :=
    ⟨Bus.write s.bus address value, s.log.push (.write address value)⟩

/-- 64 KiB of memory, one cell for each address. -/
structure FlatMemory where
  cells : Vector UInt8 0x10000

namespace FlatMemory

/-- Memory full of zeros. -/
def zeros : FlatMemory := ⟨Vector.replicate 0x10000 0⟩

/-- The cell at an address. -/
@[inline] def get (m : FlatMemory) (address : UInt16) : UInt8 :=
  getElem m.cells address.toNat address.toNat_lt

/-- The cell at an address given a value. -/
@[inline] def set (m : FlatMemory) (address : UInt16) (value : UInt8) : FlatMemory :=
  ⟨m.cells.set address.toNat value address.toNat_lt⟩

/-- Bytes stored from an address on; addresses wrap after `$FFFF`. -/
def load (m : FlatMemory) (address : UInt16) (bytes : Array UInt8) : FlatMemory :=
  (bytes.foldl (fun (m, a) b => (m.set a b, a + 1)) (m, address)).1

@[simp] theorem get_set_self (m : FlatMemory) (a : UInt16) (v : UInt8) : (m.set a v).get a = v := by
  simp [get, set]

theorem get_set_of_ne (m : FlatMemory) {a b : UInt16} (v : UInt8) (h : a ≠ b) :
    (m.set a v).get b = m.get b := by
  have h' : a.toNat ≠ b.toNat := fun e => h (UInt16.toNat_inj.mp e)
  simp [get, set, h']

end FlatMemory

instance : Bus FlatMemory where
  read m address := (m.get address, m)
  write m address value := m.set address value

end AppleII.Processor
