import AppleII.Proofs.Disk.Recording
import AppleII.Proofs.Disk.Registers
import Mathlib.Data.List.Rotate
import Mathlib.Data.Nat.Find
import Mathlib.Order.Bounds.Defs

/-!
# A track as a cycle of bits

A head that stands on a track meets its bits round and round, from the place of the head on
(`Drive.OnTrack.nextBits_eq`).  So bits that are written are the bits that are read from the same place on, and one
revolution gives every bit of the track once (`Drive.nextBits_writeBits`).  A byte is found where the next 1 bit of
the cycle lies, and there is none only if the whole cycle has none (`Drive.nextByte_next_one`).
-/

namespace AppleII.Disk

open TrackItem (prependBits)

namespace Drive

/-- A bit of the track under the head, counted from its start on, round and round. -/
def trackBit (d : Drive) (i : Nat) : Bool :=
  (imageBit? d.image (8 * d.track.start + i % d.track.bits)).getD false

/-- The bits of the track under the head. -/
def trackBits (d : Drive) : List Bool := (List.range d.track.bits).map d.trackBit

/-- Bits read one after the other. -/
def nextBits : Nat → Drive → List Bool × Drive
  | 0, d => ([], d)
  | n + 1, d =>
    let (b, d) := d.nextBit
    let (bs, d) := nextBits n d
    (b :: bs, d)

theorem nextBits_succ (n : Nat) (d : Drive) :
    nextBits (n + 1) d = (d.nextBit.1 :: (nextBits n d.nextBit.2).1, (nextBits n d.nextBit.2).2) := rfl

theorem trackBit_congr {d : Drive} {i j : Nat} (h : i ≡ j [MOD d.track.bits]) : d.trackBit i = d.trackBit j := by
  unfold trackBit
  rw [h]

/-! ## Reading -/

theorem OnTrack.imageBit?_ahead {d : Drive} (h : d.OnTrack) (k : Nat) :
    imageBit? d.image (d.ahead k) = some (d.trackBit (d.location + k)) := by
  have hinside := h.ahead_inside k
  unfold trackBit
  rw [show 8 * d.track.start + (d.location + k) % d.track.bits = d.ahead k from rfl]
  unfold imageBit?
  rw [Array.getElem?_eq_getElem hinside]
  rfl

theorem OnTrack.nextBit {d : Drive} (h : d.OnTrack) :
    d.nextBit = (d.trackBit d.location, { d with location := d.location % d.track.bits + 1 }) :=
  h.nextBit_eq (h.imageBit?_ahead 0)

/-- **Reading.** The bits that lie ahead are read one after the other, and the disk turns by as many. -/
theorem OnTrack.nextBits_eq {d : Drive} (h : d.OnTrack) (n : Nat) :
    ∃ location, nextBits n d = ((List.range n).map fun k => d.trackBit (d.location + k), { d with location }) ∧
      location ≡ d.location + n [MOD d.track.bits] := by
  induction n generalizing d with
  | zero => exact ⟨d.location, rfl, rfl⟩
  | succ n ih =>
    obtain ⟨location, heq, hlocation⟩ :=
      ih (d := { d with location := d.location % d.track.bits + 1 }) ⟨h.start, h.bits, h.inside⟩
    have hplace (k : Nat) : d.location % d.track.bits + 1 + k ≡ d.location + (k + 1) [MOD d.track.bits] := by
      rw [Nat.add_assoc, Nat.add_comm 1 k]
      exact (Nat.mod_modEq _ _).add_right _
    refine ⟨location, ?_, hlocation.trans (hplace n)⟩
    have hbits : (List.range n).map (fun k => d.trackBit (d.location % d.track.bits + 1 + k)) =
        (List.range n).map (fun k => d.trackBit (d.location + (k + 1))) :=
      List.map_congr_left fun k _ => trackBit_congr (hplace k)
    rw [nextBits_succ, h.nextBit, heq, List.range_succ_eq_map, List.map_cons, List.map_map]
    exact congrArg (fun bs => (d.trackBit d.location :: bs, { d with location })) hbits

theorem turned_nextBits (n : Nat) (d : Drive) : d.Turned (nextBits n d).2 := by
  induction n generalizing d with
  | zero => exact .refl d
  | succ n ih => exact d.turned_nextBit.trans (ih _)

/-! ## Writing -/

theorem OnTrack.writeBits_modEq {d : Drive} (h : d.OnTrack) (bits : List Bool) :
    (d.writeBits bits).location ≡ d.location + bits.length [MOD d.track.bits] := by
  induction bits generalizing d with
  | nil => exact Nat.ModEq.refl _
  | cons bit bits ih =>
    have hone := h.writeBit_eq bit
    have htrack : (d.writeBit bit).track = d.track := by rw [hone]; rfl
    have hrest := ih (h.writeBit bit)
    rw [htrack, show (d.writeBit bit).location = d.location % d.track.bits + 1 by rw [hone]] at hrest
    refine hrest.trans ?_
    rw [List.length_cons, Nat.add_comm bits.length 1, ← Nat.add_assoc]
    exact ((Nat.mod_modEq _ _).add_right 1).add_right _

/-- The bytes before and behind a track are not written to. -/
theorem OnTrack.getElem?_writeBits {d : Drive} (h : d.OnTrack) (bits : List Bool) {i : Nat}
    (hi : i < d.track.start ∨ d.track.stop ≤ i) : (d.writeBits bits).image[i]? = d.image[i]? := by
  induction bits generalizing d with
  | nil => rfl
  | cons bit bits ih =>
    have hone := h.writeBit_eq bit
    have htrack : (d.writeBit bit).track = d.track := by rw [hone]; rfl
    have hother : d.ahead 0 / 8 ≠ i := by
      have hlt : (d.location + 0) % d.track.bits < d.track.bits := Nat.mod_lt _ (Nat.pos_of_ne_zero h.bits)
      unfold Track.stop bytesFor at hi
      unfold ahead
      omega
    refine (ih (h.writeBit bit) (by rwa [htrack])).trans ?_
    rw [hone]
    exact (Array.getElem?_modify ..).trans (if_neg hother)

/-- What was recorded is read from the place on where it was written. -/
theorem OnTrack.nextBits_of_recorded {d : Drive} (h : d.OnTrack) {bits : List Bool} {image : Array UInt8}
    (hrecorded : d.Recorded bits image) : (nextBits bits.length { d with image }).1 = bits := by
  have hinside : d.track.stop ≤ image.size := hrecorded.size ▸ h.inside
  have htrack : OnTrack { d with image } := ⟨h.start, h.bits, hinside⟩
  obtain ⟨location, heq, -⟩ := htrack.nextBits_eq bits.length
  rw [heq]
  refine List.ext_getElem (by simp) fun k _ hk => ?_
  have hbit := (htrack.imageBit?_ahead k).symm.trans (hrecorded.hit k hk)
  simpa using hbit

/-- The bits of a track from a place on, round and round, as many as it has. -/
theorem trackBits_rotate (d : Drive) (i : Nat) :
    d.trackBits.rotate i = (List.range d.track.bits).map fun k => d.trackBit (i + k) := by
  refine List.ext_getElem (by simp [trackBits]) fun k _ _ => ?_
  rw [List.getElem_rotate]
  simp only [trackBits, List.getElem_map, List.getElem_range, List.length_map, List.length_range]
  exact trackBit_congr ((Nat.mod_modEq _ _).trans (by rw [Nat.add_comm]))

/-- **Bits that are written are read.** As many bits as a track has at most are read again from the place on where they
were written; every other bit of the container is what it was, those behind the last one of the track among them, and
so is all else of the drive.  Whatever is written or read, the disk turns by as many bits, and a revolution gives the
bits of the track once each, from the place of the head on. -/
theorem nextBits_writeBits {d : Drive} (h : d.OnTrack) :
    (∀ bits : List Bool, bits.length ≤ d.track.bits →
      let written := d.writeBits bits
      (nextBits bits.length { written with location := d.location }).1 = bits ∧
        (∀ i, (∀ k < bits.length, i ≠ d.ahead k) → imageBit? written.image i = imageBit? d.image i) ∧
        (∀ i, i < 8 * d.track.start ∨ 8 * d.track.start + d.track.bits ≤ i →
          imageBit? written.image i = imageBit? d.image i) ∧
        (∀ i, i < d.track.start ∨ d.track.stop ≤ i → written.image[i]? = d.image[i]?) ∧
        written = { d with image := written.image, location := written.location }) ∧
    (∀ bits : List Bool, (d.writeBits bits).location ≡ d.location + bits.length [MOD d.track.bits]) ∧
    (∀ n, d.Turned (nextBits n d).2 ∧ (nextBits n d).2.location ≡ d.location + n [MOD d.track.bits]) ∧
    (nextBits d.track.bits d).1 = d.trackBits.rotate d.location := by
  refine ⟨fun bits hfit => ?_, h.writeBits_modEq, fun n => ⟨turned_nextBits n d, ?_⟩, ?_⟩
  · intro written
    obtain ⟨image, location, heq, hrecorded⟩ := h.writeBits hfit
    have hwritten : written = { d with image, location } := heq
    rw [hwritten]
    refine ⟨h.nextBits_of_recorded hrecorded, hrecorded.frame, fun i hi => ?_, fun i hi => ?_, rfl⟩
    · refine hrecorded.frame i fun k _ => ?_
      have hlt : (d.location + k) % d.track.bits < d.track.bits := Nat.mod_lt _ (Nat.pos_of_ne_zero h.bits)
      unfold ahead
      omega
    · have hframe := h.getElem?_writeBits bits hi
      rwa [heq] at hframe
  · obtain ⟨location, heq, hlocation⟩ := h.nextBits_eq n
    rw [heq]
    exact hlocation
  · obtain ⟨location, heq, -⟩ := h.nextBits_eq d.track.bits
    rw [heq, trackBits_rotate]

/-- On a track of eleven bits four bits are written across its end, from the second last bit on; the five spare bits of
its last byte stay as they were. -/
theorem nextBits_writeBits_shortTrack :
    let d : Drive :=
      { image := #[0x00, 0x00, 0x1F], tracks := Vector.replicate _ { start := 1, bits := 11 }, location := 20 }
    let bits := [true, false, true, true]
    d.OnTrack ∧ bits.length ≤ d.track.bits ∧
      (nextBits 4 { d.writeBits bits with location := 20 }).1 = bits ∧
      (∀ i, 19 ≤ i → imageBit? (d.writeBits bits).image i = imageBit? d.image i) ∧
      (d.writeBits bits).image = #[0x00, 0xC0, 0x5F] ∧
      (nextBits 11 d).1 = d.trackBits.rotate 20 := by
  intro d bits
  have htrack : d.OnTrack := ⟨by decide, by decide, by decide⟩
  obtain ⟨hwritten, -, -, hrevolution⟩ := nextBits_writeBits htrack
  obtain ⟨hread, -, hspare, -, -⟩ := hwritten bits (by decide)
  exact ⟨htrack, by decide, hread, fun i hi => hspare i (.inr hi), by decide, hrevolution⟩

/-! ## The next byte -/

theorem readBits_eq (n : Nat) (acc : UInt8) (d : Drive) :
    readBits n acc d = ((nextBits n d).1.foldl shiftIn acc, (nextBits n d).2) := by
  induction n generalizing acc d with
  | zero => rfl
  | succ n ih => exact ih _ _

/-- The search gives up after `n` bits that are 0. -/
theorem seekOne_of_zeros {n : Nat} {d : Drive} (h : ∀ b ∈ (nextBits n d).1, b = false) :
    seekOne n d = (false, (nextBits n d).2) := by
  induction n generalizing d with
  | zero => rfl
  | succ n ih =>
    rw [nextBits_succ] at h
    obtain ⟨hfirst, hrest⟩ := List.forall_mem_cons.mp h
    unfold seekOne
    dsimp only
    rw [hfirst, if_neg Bool.false_ne_true]
    exact ih hrest

/-- The search ends behind the first 1 bit. -/
theorem seekOne_of_one {n k : Nat} {d : Drive} (hk : k < n) (hzeros : ∀ b ∈ (nextBits k d).1, b = false)
    (hone : (nextBits k d).2.nextBit.1 = true) : seekOne n d = (true, (nextBits k d).2.nextBit.2) := by
  induction n generalizing k d with
  | zero => omega
  | succ n ih =>
    unfold seekOne
    dsimp only
    cases k with
    | zero => exact if_pos hone
    | succ k =>
      rw [nextBits_succ] at hzeros
      obtain ⟨hfirst, hrest⟩ := List.forall_mem_cons.mp hzeros
      rw [hfirst, if_neg Bool.false_ne_true]
      exact ih (Nat.lt_of_succ_lt_succ hk) hrest hone

/-- The bits of a byte that is put together from a 1 bit and seven others. -/
theorem prependBits_foldl_shiftIn (bits : List Bool) (h : bits.length = 7) :
    prependBits (bits.foldl shiftIn 1) [] = true :: bits := by
  have key : ∀ a b c d e f g : Bool,
      prependBits ([a, b, c, d, e, f, g].foldl shiftIn 1) [] = [true, a, b, c, d, e, f, g] := by decide
  rcases bits with _ | ⟨a, _ | ⟨b, _ | ⟨c, _ | ⟨d, _ | ⟨e, _ | ⟨f, _ | ⟨g, _ | ⟨i, bits⟩⟩⟩⟩⟩⟩⟩⟩ <;> simp at h
  exact key a b c d e f g

/-- From every place on there is a next 1 bit within a revolution, if the track has one at all. -/
theorem exists_next_one {d : Drive} (hone : true ∈ d.trackBits) (i : Nat) :
    ∃ k < d.track.bits, IsLeast {k | d.trackBit (i + k) = true} k := by
  have hrotated : true ∈ d.trackBits.rotate i := List.mem_rotate.mpr hone
  rw [trackBits_rotate] at hrotated
  obtain ⟨k, hk, hbit⟩ := List.mem_map.mp hrotated
  have hexists : ∃ k, d.trackBit (i + k) = true := ⟨k, hbit⟩
  exact ⟨Nat.find hexists, Nat.lt_of_le_of_lt (Nat.find_min' hexists hbit) (List.mem_range.mp hk),
    Nat.find_spec hexists, fun j hj => Nat.find_min' hexists hj⟩

/-- A revolution without a 1 bit gives no byte. -/
theorem OnTrack.nextByte_of_zeros {d : Drive} (h : d.OnTrack) (hzeros : true ∉ d.trackBits) :
    d.nextByte = (0, (nextBits d.track.bits d).2) := by
  have hpos := Nat.pos_of_ne_zero h.bits
  have hbits : ∀ b ∈ (nextBits d.track.bits d).1, b = false := by
    obtain ⟨location, heq, -⟩ := h.nextBits_eq d.track.bits
    rw [heq, ← trackBits_rotate]
    intro b hb
    exact Bool.eq_false_iff.mpr fun hone => hzeros (List.mem_rotate.mp (hone ▸ hb))
  unfold nextByte
  rw [if_pos h.hasDisk, Nat.max_eq_left hpos]
  dsimp only
  rw [seekOne_of_zeros hbits, if_neg Bool.false_ne_true]

theorem le_of_highest {b : UInt8} (hb : (b &&& 0x80 != 0) = true) : 0x80 ≤ b := by
  revert hb
  exact forall_byte (P := fun b => (b &&& 0x80 != 0) = true → 0x80 ≤ b) (by decide +kernel) b

/-- The byte that begins with the next 1 bit, and where the head stands behind it. -/
theorem OnTrack.nextByte_of_least {d : Drive} (h : d.OnTrack) {k : Nat} (hk : k < d.track.bits)
    (hleast : IsLeast {k | d.trackBit (d.location + k) = true} k) :
    prependBits d.nextByte.1 [] = (List.range 8).map (fun j => d.trackBit (d.location + k + j)) ∧
      d.nextByte.2.location ≡ d.location + k + 8 [MOD d.track.bits] := by
  obtain ⟨place, hpast, hplace⟩ := h.nextBits_eq k
  have hthere : OnTrack { d with location := place } := ⟨h.start, h.bits, h.inside⟩
  obtain ⟨behind, hread, hbehind⟩ := hthere.nextBits_eq 8
  have hzeros : ∀ b ∈ (nextBits k d).1, b = false := by
    rw [hpast]
    intro b hb
    obtain ⟨j, hj, rfl⟩ := List.mem_map.mp hb
    exact Bool.eq_false_iff.mpr fun hbit => absurd (hleast.2 hbit) (Nat.not_le_of_lt (List.mem_range.mp hj))
  have hbits : (List.range 8).map (fun j => d.trackBit (place + j)) =
      (List.range 8).map (fun j => d.trackBit (d.location + k + j)) :=
    List.map_congr_left fun j _ => trackBit_congr (hplace.add_right j)
  have hone : (nextBits k d).2.nextBit.1 = true := by
    rw [hpast, hthere.nextBit]
    exact (trackBit_congr hplace).trans hleast.1
  have hbyte : d.nextByte = readBits 7 1 (nextBits k d).2.nextBit.2 := by
    unfold nextByte
    rw [if_pos h.hasDisk, Nat.max_eq_left (Nat.pos_of_ne_zero h.bits)]
    dsimp only
    rw [seekOne_of_one hk hzeros hone, if_pos rfl]
  -- The 1 bit and the seven that are read below it are the eight bits from there on.
  rw [nextBits_succ] at hread
  obtain ⟨hfound, hend⟩ := Prod.mk.inj hread
  rw [hpast] at hone hbyte
  rw [hbyte, readBits_eq]
  have hseven : (nextBits 7 (Drive.nextBit { d with location := place }).2).1.length = 7 := by
    have hlength := congrArg List.length hfound
    simpa using hlength
  refine ⟨?_, ?_⟩
  · rw [prependBits_foldl_shiftIn _ hseven, ← hone, hfound]
    exact hbits
  · rw [hend]
    exact hbehind.trans (hplace.add_right 8)

/-- **The next byte** begins with the next 1 bit of the track, round and round, and has the seven bits behind it; the
search for it goes no further than one revolution.  A track without a 1 bit gives 0, and the head stands where it
stood.  Nothing else changes, and every byte but 0 has its highest bit set. -/
theorem nextByte_next_one {d : Drive} (h : d.OnTrack) {i : Nat} (hi : d.location ≡ i [MOD d.track.bits]) :
    (true ∉ d.trackBits → d.nextByte.1 = 0 ∧ d.nextByte.2.location ≡ i [MOD d.track.bits]) ∧
    (true ∈ d.trackBits → ∃ k < d.track.bits, IsLeast {k | d.trackBit (i + k) = true} k ∧
      prependBits d.nextByte.1 [] = (List.range 8).map (fun j => d.trackBit (i + k + j)) ∧
      d.nextByte.2.location ≡ i + k + 8 [MOD d.track.bits]) ∧
    d.Turned d.nextByte.2 ∧ (d.nextByte.1 = 0 ∨ 0x80 ≤ d.nextByte.1) := by
  have hzeros (hnone : true ∉ d.trackBits) :
      d.nextByte.1 = 0 ∧ d.nextByte.2.location ≡ i [MOD d.track.bits] := by
    obtain ⟨location, heq, hlocation⟩ := h.nextBits_eq d.track.bits
    rw [h.nextByte_of_zeros hnone, heq]
    exact ⟨rfl, (hlocation.trans Nat.add_modEq_right).trans hi⟩
  have hones (hone : true ∈ d.trackBits) : ∃ k < d.track.bits, IsLeast {k | d.trackBit (i + k) = true} k ∧
      prependBits d.nextByte.1 [] = (List.range 8).map (fun j => d.trackBit (i + k + j)) ∧
      d.nextByte.2.location ≡ i + k + 8 [MOD d.track.bits] := by
    obtain ⟨k, hk, hleast⟩ := exists_next_one hone i
    have hplace (j : Nat) : d.trackBit (d.location + j) = d.trackBit (i + j) := trackBit_congr (hi.add_right j)
    obtain ⟨hbyte, hlocation⟩ := h.nextByte_of_least hk (by simpa only [hplace] using hleast)
    refine ⟨k, hk, hleast, ?_, hlocation.trans ((hi.add_right k).add_right 8)⟩
    rw [hbyte]
    exact List.map_congr_left fun j _ => trackBit_congr ((hi.add_right k).add_right j)
  refine ⟨hzeros, hones, turned_nextByte d, ?_⟩
  by_cases hone : true ∈ d.trackBits
  · obtain ⟨k, -, hleast, hbyte, -⟩ := hones hone
    have hfirst : (d.nextByte.1 &&& 0x80 != 0) = d.trackBit (i + k + 0) := (List.cons.inj hbyte).1
    exact .inr (le_of_highest (hfirst.trans hleast.1))
  · exact .inl (hzeros hone).1

/-- On a track of five bits the head stands just behind the only 1 bit: the search goes over four 0 bits, and the byte
meets that bit twice.  With 0 bits alone the three spare bits of the last byte are not taken for a byte. -/
theorem nextByte_next_one_behind :
    let d : Drive := { image := #[0x00, 0x20], tracks := Vector.replicate _ { start := 1, bits := 5 }, location := 3 }
    let erased : Drive := { d with image := #[0x00, 0x07] }
    (d.OnTrack ∧ d.location ≡ 8 [MOD d.track.bits] ∧ true ∈ d.trackBits ∧ d.nextByte.1 = 0x84 ∧
      ∃ k < 5, IsLeast {k | d.trackBit (8 + k) = true} k ∧ d.nextByte.2.location ≡ 8 + k + 8 [MOD 5]) ∧
    erased.OnTrack ∧ true ∉ erased.trackBits ∧ erased.nextByte.1 = 0 ∧ erased.nextByte.2.location ≡ 3 [MOD 5] := by
  intro d erased
  have htrack : d.OnTrack := ⟨by decide, by decide, by decide⟩
  have herased : erased.OnTrack := ⟨by decide, by decide, by decide⟩
  have hplace : d.location ≡ 8 [MOD d.track.bits] := by decide
  obtain ⟨-, hone, -⟩ := nextByte_next_one htrack hplace
  obtain ⟨hzeros, -⟩ := nextByte_next_one herased (Nat.ModEq.refl 3)
  obtain ⟨k, hk, hleast, -, hlocation⟩ := hone (by decide)
  exact ⟨⟨htrack, hplace, by decide, by decide, k, hk, hleast, hlocation⟩, herased, by decide, hzeros (by decide)⟩

end Drive

end AppleII.Disk
