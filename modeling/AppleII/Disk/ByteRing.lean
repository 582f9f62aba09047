/-!
# Byte rings

A ring keeps the last bytes that were pushed, as many as it has places.
-/

namespace AppleII.Disk

/-- A ring of bytes with one place at least. -/
structure ByteRing where
  bytes : Array UInt8
  /-- The number of bytes pushed so far. -/
  pushed : Nat
  nonempty : 0 < bytes.size

namespace ByteRing

/-- An empty ring with the given number of places, at least one. -/
def ofCapacity (capacity : Nat) : ByteRing where
  bytes := Array.replicate (max capacity 1) 0
  pushed := 0
  nonempty := by simp only [Array.size_replicate]; omega

/-- The number of places. -/
def capacity (r : ByteRing) : Nat := r.bytes.size

/-- One more byte; it takes the place of the oldest one when the ring is full. -/
def push (r : ByteRing) (b : UInt8) : ByteRing where
  bytes := r.bytes.set (r.pushed % r.bytes.size) b (Nat.mod_lt _ r.nonempty)
  pushed := r.pushed + 1
  nonempty := by simpa using r.nonempty

/-- The byte that was pushed after `i` others, as long as the ring keeps it. -/
def get (r : ByteRing) (i : Nat) : UInt8 :=
  getElem r.bytes (i % r.bytes.size) (Nat.mod_lt _ r.nonempty)

@[simp] theorem capacity_push (r : ByteRing) (b : UInt8) : (r.push b).capacity = r.capacity := by
  simp [capacity, push]

@[simp] theorem get_push_self (r : ByteRing) (b : UInt8) : (r.push b).get r.pushed = b := by
  simp [get, push]

/-- The last `n` bytes that the ring keeps, oldest first. -/
def lastN (r : ByteRing) (n : Nat) : List UInt8 :=
  let n := min (min n r.capacity) r.pushed
  (List.range n).map fun i => r.get (r.pushed - n + i)

instance : Inhabited ByteRing := ⟨ofCapacity 256⟩

end ByteRing

end AppleII.Disk
