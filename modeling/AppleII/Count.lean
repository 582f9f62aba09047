/-!
# Counts

Cycles are counted in words of 64 bits, so that a sum of counts wraps around.  Where a count is compared with such a
sum it has to fit (`Count.add_of_lt`).
-/

namespace AppleII.Count

/-- So many counts there are. -/
def size : Nat := 0x10000000000000000

/-- The sum of two counts, which wraps around. -/
def add (a b : Nat) : Nat := (a.toUInt64 + b.toUInt64).toNat

theorem add_eq_mod (a b : Nat) : add a b = (a + b) % size := by
  simp [add, size, UInt64.toNat_add]

theorem add_assoc (a b c : Nat) : add (add a b) c = add a (b + c) := by
  rw [add_eq_mod, add_eq_mod, add_eq_mod, Nat.mod_add_mod, Nat.add_assoc]

theorem add_of_le {a b : Nat} (ha : a < size) (hb : b < size) (h : size ≤ a + b) : add a b = a + b - size := by
  rw [add_eq_mod, Nat.mod_eq_sub_mod h, Nat.mod_eq_of_lt (by omega)]

theorem add_of_lt {a b : Nat} (h : a + b < size) : add a b = a + b := by
  rw [add_eq_mod, Nat.mod_eq_of_lt h]

end AppleII.Count
