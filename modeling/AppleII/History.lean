/-!
# A history of states

A history keeps the last sixty states in a ring of slots, with a cursor that goes back and forth among
them.  `newest` is the slot that was filled last.  A state recorded while the cursor is in the past is
filled in after the newest one, and the cursor goes to it.
-/

namespace AppleII

/-- The number of slots of a history. -/
abbrev History.capacity : Nat := 60

structure History (α : Type) where
  slots : Vector (Option α) History.capacity := Vector.replicate _ none
  /-- The slot that was filled last. -/
  newest : Fin History.capacity := 0
  /-- The slot that is shown. -/
  cursor : Fin History.capacity := 0

namespace History

variable {α : Type}

/-- A history without states. -/
def empty : History α := {}

/-- The state in a slot. -/
@[inline] def slot (h : History α) (i : Fin capacity) : Option α := getElem h.slots i.val i.isLt

/-- A slot filled. -/
def fill (h : History α) (i : Fin capacity) (a : α) : History α :=
  { h with slots := h.slots.set i.val (some a) i.isLt }

@[simp] theorem slot_empty (i : Fin capacity) : (empty : History α).slot i = none := by
  simp [slot, empty]

@[simp] theorem slot_fill_self (h : History α) (i : Fin capacity) (a : α) :
    (h.fill i a).slot i = some a := by
  simp [slot, fill]

theorem slot_fill_of_ne (h : History α) {i j : Fin capacity} (a : α) (ne : i ≠ j) :
    (h.fill i a).slot j = h.slot j := by
  have ne' : i.val ≠ j.val := fun e => ne (Fin.ext e)
  simp [slot, fill, ne']

/-- How many slots are filled. -/
def size (h : History α) : Nat := h.slots.toList.countP Option.isSome

/-- Whether no slot is filled. -/
def isEmpty (h : History α) : Bool := h.slots.toList.all Option.isNone

/-- All states forgotten. -/
def clear (_ : History α) : History α := empty

/-- A state recorded; the cursor goes to it. -/
def push (h : History α) (a : α) : History α :=
  let i := h.newest + 1
  { h.fill i a with newest := i, cursor := i }

/-- Whether there is an older state than the one at the cursor. -/
def canGoBack (h : History α) : Bool :=
  let i := h.cursor - 1
  i != h.newest && (h.slot i).isSome

/-- Whether there is a newer state than the one at the cursor. -/
def canGoForward (h : History α) : Bool :=
  h.cursor != h.newest && (h.slot (h.cursor + 1)).isSome

/-- The state at a slot, to which the cursor goes. -/
def goTo (h : History α) (i : Fin capacity) : Option α × History α :=
  (h.slot i, { h with cursor := i })

/-- The next older state.  From the newest slot the present state is filled in there first, so that
going forward comes back to it. -/
def stepBackward (h : History α) (present : α) : Option α × History α :=
  let h := if h.cursor = h.newest then h.fill h.newest present else h
  if h.canGoBack then h.goTo (h.cursor - 1) else (none, h)

/-- The next newer state. -/
def stepForward (h : History α) : Option α × History α :=
  if h.canGoForward then h.goTo (h.cursor + 1) else (none, h)

/-- The state in a slot; the cursor goes there if it is filled. -/
def jumpTo (h : History α) (index : Nat) : Option α × History α :=
  if hi : index < capacity then
    let i : Fin capacity := ⟨index, hi⟩
    if (h.slot i).isSome then h.goTo i else (none, h)
  else (none, h)

end History

/-- Counts frames between automatic snapshots. -/
structure SnapshotTimer where
  /-- Frames from one snapshot to the next; none are taken when it is 0. -/
  interval : Nat := 0
  frames : Nat := 0
  deriving DecidableEq, Repr, Inhabited

/-- A frame has gone by: whether a snapshot is due. -/
def SnapshotTimer.tick (t : SnapshotTimer) : Bool × SnapshotTimer :=
  if t.interval = 0 then (false, t)
  else if t.interval ≤ t.frames + 1 then (true, { t with frames := 0 })
  else (false, { t with frames := t.frames + 1 })

end AppleII
