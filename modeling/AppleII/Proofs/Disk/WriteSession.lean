import AppleII.Disk.Controller
import AppleII.Proofs.Disk.Recording
import Mathlib.Algebra.Order.BigOperators.Group.List
import Mathlib.Algebra.Order.Group.Nat

/-!
# Writing through the registers

The data register is a pipeline: a value that is loaded goes to the disk when the next one is loaded,
and takes as many bits as the cycles in between tell.  `access_readBack` says that a session of loads,
from the switch to write mode up to the switch back to read mode, leaves bits on the track that are read
back as the values that were loaded, and changes nothing else.
-/

namespace AppleII.Disk

open TrackItem (prependBits)

/-- An access to a register of the disk card. -/
structure Access where
  reg : UInt8
  /-- What is written; none for a read. -/
  value : Option UInt8
  cycle : Nat
  switches : Switches

/-- Accesses one after the other. -/
def Controller.accessAll (c : Controller) (as : List Access) : Controller :=
  as.foldl (fun c a => (c.access a.reg a.value a.cycle a.switches).2) c

/-- Some accesses load the data register with values at cycles, and otherwise go to the register that
shifts. -/
inductive Loads : List Access → List (UInt8 × Nat) → Prop
  | done : Loads [] []
  | shift {a : Access} {as : List Access} {vs : List (UInt8 × Nat)} :
      a.reg = 0xC → Loads as vs → Loads (a :: as) vs
  | load {a : Access} {as : List Access} {v : UInt8} {vs : List (UInt8 × Nat)} :
      a.reg = 0xD → a.value = some v → Loads as vs → Loads (a :: as) ((v, a.cycle) :: vs)

/-- The values loaded from a cycle on, each with the cycles for which it stays in the register, when the
last one stays there up to the cycle `stop`. -/
def heldFor (v : UInt8) (cycle : Nat) : List (UInt8 × Nat) → Nat → List (UInt8 × Nat)
  | [], stop => [(v, stop - cycle)]
  | (v', cycle') :: vs, stop => (v, cycle' - cycle) :: heldFor v' cycle' vs stop

/-- The number of bits that a value takes on the disk when it was held for some cycles, 16 or more. -/
def bitCount (cycles : Nat) : Nat := if 40 ≤ cycles then 10 else if 36 ≤ cycles then 9 else 8

/-- The bits of some values in the order in which they go to the disk. -/
def bitsOf (held : List (UInt8 × Nat)) : List Bool := held.flatMap fun p => Drive.bitsWritten p.1 p.2

/-! ## Bits and values -/

theorem map_fst_heldFor (v : UInt8) (cycle : Nat) (vs : List (UInt8 × Nat)) (stop : Nat) :
    (heldFor v cycle vs stop).map Prod.fst = v :: vs.map Prod.fst := by
  induction vs generalizing v cycle with
  | nil => rfl
  | cons p vs ih =>
    obtain ⟨v', cycle'⟩ := p
    simp only [heldFor, List.map_cons, ih]

theorem bitsWritten_eq {cycles : Nat} (h : 16 ≤ cycles) (v : UInt8) :
    Drive.bitsWritten v cycles = prependBits v (List.replicate (bitCount cycles - 8) false) := by
  unfold Drive.bitsWritten bitCount
  rw [if_pos h]
  by_cases h36 : 36 ≤ cycles
  · by_cases h40 : 40 ≤ cycles
    · rw [if_pos h36, if_pos h40, if_pos h40]
      rfl
    · rw [if_pos h36, if_neg h40, if_neg h40, if_pos h36]
      rfl
  · rw [if_neg h36, if_neg (by omega : ¬40 ≤ cycles), if_neg (by omega : ¬40 ≤ cycles), if_neg h36]
    rfl

theorem eight_le_bitCount (cycles : Nat) : 8 ≤ bitCount cycles ∧ bitCount cycles ≤ 10 := by
  unfold bitCount
  split
  · omega
  · split <;> omega

section Held

variable {held : List (UInt8 × Nat)} (hheld : ∀ p ∈ held, 16 ≤ p.2)
include hheld

/-- What is written are the bytes with a gap of at most two 0 bits behind each. -/
theorem bitsOf_eq_spacedBits :
    bitsOf held = Drive.spacedBits (held.map fun p => (p.1, bitCount p.2 - 8)) := by
  induction held with
  | nil => rfl
  | cons p held ih =>
    have hp := bitsWritten_eq (hheld p List.mem_cons_self) p.1
    have hrest := ih fun q hq => hheld q (List.mem_cons_of_mem p hq)
    unfold bitsOf Drive.spacedBits at *
    rw [List.flatMap_cons, hp, hrest, List.map_cons, List.flatMap_cons]

theorem length_bitsOf : (bitsOf held).length = (held.map fun p => bitCount p.2).sum := by
  induction held with
  | nil => rfl
  | cons p held ih =>
    have hp := bitsWritten_eq (hheld p List.mem_cons_self) p.1
    have hrest := ih fun q hq => hheld q (List.mem_cons_of_mem p hq)
    have hcount := eight_le_bitCount p.2
    unfold bitsOf at *
    rw [List.flatMap_cons, List.length_append, hp, hrest, List.map_cons, List.sum_cons,
      length_prependBits, List.length_replicate]
    omega

end Held

/-! ## The drive -/

namespace Drive

theorem OnTrack.onTrack_writeBits {d : Drive} (h : d.OnTrack) (bits : List Bool) :
    (d.writeBits bits).OnTrack := by
  induction bits generalizing d with
  | nil => exact h
  | cons bit bits ih => exact ih (h.writeBit bit)

/-- Bits are written alike in either mode, whether there are unsaved changes or not. -/
theorem writeBits_withMode {d : Drive} (h : d.OnTrack) (bits : List Bool) (writeMode dirty : Bool) :
    Drive.writeBits { d with writeMode, dirty } bits = { d.writeBits bits with writeMode, dirty } := by
  induction bits generalizing d with
  | nil => rfl
  | cons bit bits ih =>
    have h' : OnTrack { d with writeMode, dirty } := ⟨h.start, h.bits, h.inside⟩
    have hone : Drive.writeBit { d with writeMode, dirty } bit = { d.writeBit bit with writeMode, dirty } := by
      rw [h.writeBit_eq, h'.writeBit_eq]
      rfl
    show Drive.writeBits (Drive.writeBit { d with writeMode, dirty } bit) bits = _
    rw [hone, ih (h.writeBit bit)]
    rfl

/-- On a track a value other than 0 is written. -/
theorem OnTrack.writeByte_eq {d : Drive} (h : d.OnTrack) {value : UInt8} (hvalue : value ≠ 0) (delta : Nat) :
    d.writeByte value delta =
      (some (bitsWritten value delta).length, { d.writeBits (bitsWritten value delta) with dirty := true }) := by
  have hstart : d.isEmptyAt d.halfTrack = false := by
    simpa [isEmptyAt, track] using h.start
  unfold writeByte
  rw [if_neg]
  simpa [h.hasDisk, hstart] using hvalue

/-- A drive in write mode that has written some bits. -/
def writing (d : Drive) (bits : List Bool) (dirty : Bool) : Drive :=
  { d.writeBits bits with writeMode := true, dirty }

theorem OnTrack.writing {d : Drive} (h : d.OnTrack) (bits : List Bool) (dirty : Bool) :
    (d.writing bits dirty).OnTrack := by
  have hwritten := h.onTrack_writeBits bits
  exact ⟨hwritten.start, hwritten.bits, hwritten.inside⟩

/-- A value that is written comes after the bits that were written before. -/
theorem OnTrack.writeByte_writing {d : Drive} (h : d.OnTrack) (bits : List Bool) (dirty : Bool)
    {value : UInt8} (hvalue : value ≠ 0) (delta : Nat) :
    (d.writing bits dirty).writeByte value delta =
      (some (bitsWritten value delta).length, d.writing (bits ++ bitsWritten value delta) true) := by
  have hmore : (d.writeBits bits).writeBits (bitsWritten value delta) =
      d.writeBits (bits ++ bitsWritten value delta) := by
    unfold Drive.writeBits
    rw [List.foldl_append]
  rw [(h.writing bits dirty).writeByte_eq hvalue]
  unfold Drive.writing
  rw [writeBits_withMode (h.onTrack_writeBits bits), hmore]

theorem OnTrack.motorRunning_writeBits {d : Drive} (h : d.OnTrack) (bits : List Bool) :
    (d.writeBits bits).motorRunning = d.motorRunning := by
  induction bits generalizing d with
  | nil => rfl
  | cons bit bits ih =>
    show ((d.writeBit bit).writeBits bits).motorRunning = d.motorRunning
    rw [ih (h.writeBit bit), h.writeBit_eq]

end Drive

/-! ## The session -/

namespace Controller

/-- A controller whose selected drive has become `d`, and whose data register holds a value since a cycle;
the rest of it is as it was, apart from the log. -/
def Becomes (c c' : Controller) (d : Drive) (value : UInt8) (cycle : Nat) : Prop :=
  ∃ log, c' = { c with
    drives := c.drives.modify c.current fun _ => d
    dataRegister := value
    previousCycle := cycle
    log }

section Becomes

variable {c c' : Controller} {d : Drive} {value : UInt8} {cycle : Nat}

theorem Becomes.selected (h : c.Becomes c' d value cycle) : c'.selected = d := by
  obtain ⟨log, rfl⟩ := h
  exact Drives.get_modify_self _ _ _

theorem Becomes.register (h : c.Becomes c' d value cycle) :
    c'.dataRegister = value ∧ c'.previousCycle = cycle := by
  obtain ⟨log, rfl⟩ := h
  exact ⟨rfl, rfl⟩

theorem Becomes.trans {c'' : Controller} {d' : Drive} {value' : UInt8} {cycle' : Nat}
    (h : c.Becomes c' d value cycle) (h' : c'.Becomes c'' d' value' cycle') :
    c.Becomes c'' d' value' cycle' := by
  obtain ⟨log, rfl⟩ := h
  obtain ⟨log', rfl⟩ := h'
  have hdrives : (c.drives.modify c.current fun _ => d).modify c.current (fun _ => d') =
      c.drives.modify c.current fun _ => d' := by
    by_cases hi : c.current = 0 <;> simp [Drives.modify, hi]
  exact ⟨log', by simp only [hdrives]⟩

theorem modify_selected (c : Controller) (f : Drive → Drive) :
    c.drives.modify c.current f = c.drives.modify c.current fun _ => f c.selected := by
  unfold Controller.selected
  by_cases hi : c.current = 0 <;> simp [Drives.modify, Drives.get, hi]

theorem becomes_setWriteMode (c : Controller) (on : Bool) :
    c.Becomes (c.setWriteMode on) { c.selected with writeMode := on } c.dataRegister c.previousCycle := by
  unfold setWriteMode modifySelected
  dsimp only
  split
  · exact ⟨_, by rw [← c.modify_selected fun d => { d with writeMode := on }]; rfl⟩
  · exact ⟨_, by rw [← c.modify_selected fun d => { d with writeMode := on }]⟩

/-- A value that is written leaves the data register. -/
theorem becomes_flushWrite {delta n : Nat} (hbyte : c.selected.writeByte c.dataRegister delta = (some n, d)) :
    c.Becomes (c.flushWrite delta) d 0 c.previousCycle := by
  have hbits : ((c.drives.get c.current).writeByte c.dataRegister delta).1 = some n := congrArg Prod.fst hbyte
  have hdrives := c.modify_selected fun d => (d.writeByte c.dataRegister delta).2
  rw [hbyte] at hdrives
  unfold flushWrite
  simp only [Drives.update_eq, hbits, hdrives]
  exact ⟨_, rfl⟩

theorem becomes_flushIfWriting {n : Nat} (hmotor : c.selected.motorRunning = true)
    (hmode : c.selected.writeMode = true)
    (hbyte : c.selected.writeByte c.dataRegister (cycle - c.previousCycle) = (some n, d)) :
    c.Becomes (c.flushIfWriting cycle) d 0 cycle := by
  obtain ⟨log, heq⟩ := becomes_flushWrite hbyte
  unfold flushIfWriting
  rw [hmotor, hmode, heq]
  exact ⟨log, rfl⟩

/-- A session begins with the switch to write mode, which loads the first value. -/
theorem becomes_begin (c : Controller) (v : UInt8) (cycle : Nat) (sw : Switches) :
    c.Becomes (c.access 0xF (some v) cycle sw).2 (c.selected.writing [] c.selected.dirty) v cycle := by
  obtain ⟨log, heq⟩ := c.becomes_setWriteMode true
  show c.Becomes ({ c.setWriteMode true with previousCycle := cycle }.loadData (some v)) _ v cycle
  rw [heq]
  exact ⟨log, rfl⟩

end Becomes

section Turning

variable {c c' : Controller} {bits : List Bool} {dirty : Bool} {value : UInt8} {cycle : Nat}
  (h : c.Becomes c' (c.selected.writing bits dirty) value cycle)
  (hmotor : c.selected.motorRunning = true) (htrack : c.selected.OnTrack)
include h

theorem Becomes.shift (v : Option UInt8) (cycle' : Nat) (sw : Switches) :
    (c'.access 0xC v cycle' sw).2 = c' := by
  show c'.readData.2 = c'
  unfold readData
  rw [h.selected]
  simp [Drive.writing]

include hmotor htrack

/-- The value in the register goes to the disk. -/
theorem Becomes.flush (hvalue : value ≠ 0) (cycle' : Nat) :
    c.Becomes (c'.flushIfWriting cycle')
      (c.selected.writing (bits ++ Drive.bitsWritten value (cycle' - cycle)) true) 0 cycle' := by
  have hselected := h.selected
  obtain ⟨hregister, hcycle⟩ := h.register
  have hrunning : c'.selected.motorRunning = true := by
    rw [hselected, ← hmotor]
    exact htrack.motorRunning_writeBits bits
  have hbyte := htrack.writeByte_writing bits dirty hvalue (cycle' - cycle)
  rw [← hselected, ← hregister, ← hcycle] at hbyte
  have hflush := becomes_flushIfWriting hrunning (by rw [hselected]; rfl) hbyte
  rw [hregister, hcycle] at hflush
  exact h.trans hflush

/-- A load writes the value that was in the register. -/
theorem Becomes.load (hvalue : value ≠ 0) (v : UInt8) (cycle' : Nat) (sw : Switches) :
    c.Becomes (c'.access 0xD (some v) cycle' sw).2
      (c.selected.writing (bits ++ Drive.bitsWritten value (cycle' - cycle)) true) v cycle' := by
  obtain ⟨log, heq⟩ := h.flush hmotor htrack hvalue cycle'
  show c.Becomes ((c'.flushIfWriting cycle').loadData (some v)) _ v cycle'
  rw [heq]
  exact ⟨log, rfl⟩

/-- The switch back to read mode writes the value that was in the register. -/
theorem Becomes.stop (hvalue : value ≠ 0) (v : Option UInt8) (cycle' : Nat) (sw : Switches) :
    c.Becomes (c'.access 0xE v cycle' sw).2
      { c.selected.writing (bits ++ Drive.bitsWritten value (cycle' - cycle)) true with writeMode := false }
      0 cycle' := by
  have hflush := h.flush hmotor htrack hvalue cycle'
  have hmode := (c'.flushIfWriting cycle').becomes_setWriteMode false
  rw [hflush.selected, hflush.register.1, hflush.register.2] at hmode
  exact hflush.trans hmode

/-- **The loads of a session.** All that they load goes to the disk, but for the last value. -/
theorem Becomes.loads {as : List Access} {vs : List (UInt8 × Nat)} (hloads : Loads as vs) (stop : Nat)
    (hvalues : ∀ p ∈ heldFor value cycle vs stop, p.1 ≠ 0) :
    ∃ bits' dirty' value' cycle', value' ≠ 0 ∧
      c.Becomes (c'.accessAll as) (c.selected.writing bits' dirty') value' cycle' ∧
      bits' ++ Drive.bitsWritten value' (stop - cycle') = bits ++ bitsOf (heldFor value cycle vs stop) := by
  -- The disk is one value behind the register: each load writes the one before it.
  induction hloads generalizing c' bits dirty value cycle with
  | done =>
    refine ⟨bits, dirty, value, cycle, hvalues _ List.mem_cons_self, h, ?_⟩
    simp [heldFor, bitsOf]
  | @shift a as vs hreg _ ih =>
    have hskip : c'.accessAll (a :: as) = c'.accessAll as := by
      show (c'.access a.reg a.value a.cycle a.switches).2.accessAll as = _
      rw [hreg, h.shift]
    rw [hskip]
    exact ih h hvalues
  | @load a as v vs hreg hvalue _ ih =>
    have hnext := h.load hmotor htrack (hvalues _ List.mem_cons_self) v a.cycle a.switches
    obtain ⟨bits', dirty', value', cycle', hvalue', hbecomes, hbits⟩ := ih hnext fun p hp =>
      hvalues p (List.mem_cons_of_mem _ hp)
    refine ⟨bits', dirty', value', cycle', hvalue', ?_, ?_⟩
    · show c.Becomes ((c'.access a.reg a.value a.cycle a.switches).2.accessAll as) _ value' cycle'
      rw [hreg, hvalue]
      exact hbecomes
    · rw [hbits, List.append_assoc]
      rfl

end Turning

/-- **A session** writes all that it loads, and leaves the register empty. -/
theorem becomes_session {c : Controller} (hmotor : c.selected.motorRunning = true)
    (htrack : c.selected.OnTrack) {first last : Access} {loads : List Access} {v : UInt8}
    {vs : List (UInt8 × Nat)} (hfirst : first.reg = 0xF) (hvalue : first.value = some v)
    (hloads : Loads loads vs) (hlast : last.reg = 0xE)
    (hvalues : ∀ p ∈ heldFor v first.cycle vs last.cycle, p.1 ≠ 0) :
    c.Becomes (c.accessAll (first :: loads ++ [last]))
      { c.selected.writing (bitsOf (heldFor v first.cycle vs last.cycle)) true with writeMode := false }
      0 last.cycle := by
  have hbegin := c.becomes_begin v first.cycle first.switches
  rw [← hfirst, ← hvalue] at hbegin
  obtain ⟨bits, dirty, value, cycle, hne, hloaded, hbits⟩ :=
    hbegin.loads hmotor htrack hloads last.cycle hvalues
  have hstop := hloaded.stop hmotor htrack hne last.value last.cycle last.switches
  rw [hbits, List.nil_append, ← hlast] at hstop
  have hsplit : c.accessAll (first :: loads ++ [last]) =
      ((((c.access first.reg first.value first.cycle first.switches).2.accessAll loads).access last.reg
        last.value last.cycle last.switches).2) := by
    unfold accessAll
    rw [List.cons_append, List.foldl_cons, List.foldl_append]
    rfl
  rw [hsplit]
  exact hstop

end Controller

/-- Bytes that were recorded on a track are read back from where their bits begin. -/
theorem Drive.OnTrack.nextBytes_recorded {d : Drive} (h : d.OnTrack) {held : List (UInt8 × Nat)}
    {image : Array UInt8} (hheld : ∀ p ∈ held, p.1 &&& 0x80 != 0 ∧ 16 ≤ p.2)
    (hfit : (held.map fun p => bitCount p.2).sum ≤ d.track.bits) (hrecorded : d.Recorded (bitsOf held) image) :
    (Drive.nextBytes held.length { d with image, writeMode := false, dirty := true }).1 =
      held.map Prod.fst := by
  have hspaced := bitsOf_eq_spacedBits fun p hp => (hheld p hp).2
  have hroom : ∀ p ∈ held, bitCount p.2 - 8 < d.track.bits := by
    intro p hp
    have hone := List.single_le_sum (fun _ _ => Nat.zero_le _) (bitCount p.2)
      (List.mem_map_of_mem (f := fun p => bitCount p.2) hp)
    have hten := eight_le_bitCount p.2
    omega
  have hturned : Drive.OnTrack { d with image, writeMode := false, dirty := true } :=
    ⟨h.start, h.bits, hrecorded.size ▸ h.inside⟩
  have hgives := hturned.gives hrecorded.hit
  rw [hspaced] at hgives
  have hread := Drive.nextBytes_of_gives_spaced (k := 0) _ hturned.hasDisk ?_ ?_ hgives
  · rw [List.length_map, List.map_map] at hread
    exact hread
  · intro q hq
    obtain ⟨p, hp, rfl⟩ := List.mem_map.mp hq
    exact ⟨(hheld p hp).1, hroom p hp⟩
  · exact Nat.pos_of_ne_zero h.bits

/-- **What is written is read back.** Bytes with their highest bit set are loaded one after the other, each
held for 16 cycles or more, while the motor of the selected drive runs and its head stands on a track: the
first by the switch to write mode, the last written by the switch back to read mode.  As long as their bits
fit the track, they are read again from where the writing began.  The data register is empty, the drive is
in read mode with unsaved changes, no bit outside the written ones has changed in its container, and nothing
else has changed but the place of the head, the cycle of the last load and the log.  Whether the disk is
write-protected makes no difference. -/
theorem access_readBack {c : Controller} (hmotor : c.selected.motorRunning = true)
    (htrack : c.selected.OnTrack) {first last : Access} {loads : List Access} {v : UInt8}
    {vs : List (UInt8 × Nat)} (hfirst : first.reg = 0xF) (hvalue : first.value = some v)
    (hloads : Loads loads vs) (hlast : last.reg = 0xE)
    (hheld : ∀ p ∈ heldFor v first.cycle vs last.cycle, p.1 &&& 0x80 != 0 ∧ 16 ≤ p.2)
    (hfit : ((heldFor v first.cycle vs last.cycle).map fun p => bitCount p.2).sum ≤ c.selected.track.bits) :
    let c' := c.accessAll (first :: loads ++ [last])
    (Drive.nextBytes (vs.length + 1) { c'.selected with location := c.selected.location }).1 =
        v :: vs.map Prod.fst ∧
      c'.dataRegister = 0 ∧ c'.selected.dirty = true ∧ c'.selected.writeMode = false ∧
      (∀ i, (∀ k < ((heldFor v first.cycle vs last.cycle).map fun p => bitCount p.2).sum,
          i ≠ c.selected.ahead k) →
        imageBit? c'.selected.image i = imageBit? c.selected.image i) ∧
      ∃ image location log, image.size = c.selected.image.size ∧ c' = { c with
        drives := c.drives.modify c.current fun d =>
          { d with image, location, dirty := true, writeMode := false }
        dataRegister := 0
        previousCycle := last.cycle
        log } := by
  intro c'
  have hne : ∀ p ∈ heldFor v first.cycle vs last.cycle, p.1 ≠ 0 := by
    intro p hp hzero
    have hhigh := (hheld p hp).1
    rw [hzero] at hhigh
    simp at hhigh
  have hbecomes := Controller.becomes_session hmotor htrack hfirst hvalue hloads hlast hne
  have hlength := length_bitsOf fun p hp => (hheld p hp).2
  have hcount := congrArg List.length (map_fst_heldFor v first.cycle vs last.cycle)
  have hfst := map_fst_heldFor v first.cycle vs last.cycle
  generalize heldFor v first.cycle vs last.cycle = held at *
  -- The head and the container are those that the bits of the session leave.
  obtain ⟨image, location, hwrite, hrecorded⟩ := htrack.writeBits (hlength.trans_le hfit)
  have hselected : c'.selected =
      { c.selected with image, location, writeMode := false, dirty := true } := by
    rw [hbecomes.selected]
    unfold Drive.writing
    rw [hwrite]
  rw [hselected]
  refine ⟨?_, hbecomes.register.1, rfl, rfl, fun i hi => hrecorded.frame i fun k hk => hi k (by omega), ?_⟩
  · have hread := htrack.nextBytes_recorded hheld hfit hrecorded
    simp only [List.length_map, List.length_cons] at hcount
    rw [← hcount, ← hfst]
    exact hread
  · obtain ⟨log, heq⟩ := hbecomes
    refine ⟨image, location, log, hrecorded.size, ?_⟩
    rw [c.modify_selected]
    show c.accessAll _ = _
    rw [heq]
    unfold Drive.writing
    rw [hwrite]

/-- A controller whose first drive turns a track of 19 bits, of which 15 have gone by. -/
def shortTrack : Controller where
  drives := { Drives.empty with first := { Drive.empty with
    motorRunning := true
    image := Array.replicate 4 0xAA
    tracks := Vector.replicate _ { start := 1, bits := 19 }
    location := 15 } }

/-- Two loads that fill a track of 19 bits, past its end: the first value takes ten bits and the second one
nine. -/
theorem access_readBack_shortTrack :
    shortTrack.selected.motorRunning = true ∧ shortTrack.selected.OnTrack ∧
      Loads [⟨0xC, none, 10, .reset⟩, ⟨0xD, some 0xD5, 40, .reset⟩] [(0xD5, 40)] ∧
      (∀ p ∈ heldFor 0xFF 0 [(0xD5, 40)] 76, p.1 &&& 0x80 != 0 ∧ 16 ≤ p.2) ∧
      ((heldFor 0xFF 0 [(0xD5, 40)] 76).map fun p => bitCount p.2).sum ≤ shortTrack.selected.track.bits ∧
      let c' := shortTrack.accessAll [⟨0xF, some 0xFF, 0, .reset⟩, ⟨0xC, none, 10, .reset⟩,
        ⟨0xD, some 0xD5, 40, .reset⟩, ⟨0xE, none, 76, .reset⟩]
      (Drive.nextBytes 2 { c'.selected with location := 15 }).1 = [0xFF, 0xD5] ∧ c'.dataRegister = 0 := by
  have htrack : shortTrack.selected.OnTrack := by
    refine ⟨?_, ?_, ?_⟩ <;> simp [shortTrack, Controller.selected, Drives.get, driveOne, Drive.track,
      Drive.trackAt, Track.stop, bytesFor]
  have hbits : shortTrack.selected.track.bits = 19 := by
    simp [shortTrack, Controller.selected, Drives.get, driveOne, Drive.track, Drive.trackAt]
  have hloads : Loads [⟨0xC, none, 10, .reset⟩, ⟨0xD, some 0xD5, 40, .reset⟩] [(0xD5, 40)] :=
    .shift rfl (.load rfl rfl .done)
  have hheld : ∀ p ∈ heldFor 0xFF 0 [(0xD5, 40)] 76, p.1 &&& 0x80 != 0 ∧ 16 ≤ p.2 := by decide
  have hfit : ((heldFor 0xFF 0 [(0xD5, 40)] 76).map fun p => bitCount p.2).sum ≤
      shortTrack.selected.track.bits := by
    rw [hbits]
    decide
  have hfirst : (⟨0xF, some 0xFF, 0, .reset⟩ : Access).reg = 0xF := rfl
  have hlast : (⟨0xE, none, 76, .reset⟩ : Access).reg = 0xE := rfl
  obtain ⟨hread, hregister, -⟩ := access_readBack rfl htrack hfirst rfl hloads hlast hheld hfit
  exact ⟨rfl, htrack, hloads, hheld, hfit, hread, hregister⟩

end AppleII.Disk
