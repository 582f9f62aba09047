import AppleII.Proofs.Disk.Revolution
import Mathlib.Data.Nat.ModEq

/-!
# Bits laid down on a track

A drive whose head stands on a track writes round and round it.  `Recorded` says what becomes of the
container: as long as a row of bits is no longer than the track, each of them is found at its place
afterwards, and every other bit of the container is what it was (`Drive.OnTrack.writeBits`).  A reader that
is put back to where the writing began is given these bits again (`Drive.OnTrack.gives`).
-/

namespace AppleII.Disk

open TrackItem (prependBits)

/-- A bit of a container, counted from bit 7 of its first byte on. -/
def imageBit? (image : Array UInt8) (i : Nat) : Option Bool :=
  image[i / 8]?.map fun b => b &&& Drive.bitMask (i % 8).toUInt8 != 0

/-- A byte with one of its bits given, counted from bit 7 down. -/
def withBit (v : UInt8) (i : UInt8) (bit : Bool) : UInt8 :=
  if bit then v ||| Drive.bitMask i else v &&& ~~~Drive.bitMask i

theorem or_and_self (v m : UInt8) : (v ||| m) &&& m = m := by
  apply byte_ext
  intro i hi
  simpa using Or.inr

theorem or_and (v m n : UInt8) : (v ||| m) &&& n = (v &&& n) ||| (m &&& n) := by
  apply byte_ext
  intro i hi
  simp [Bool.and_or_distrib_right]

theorem bitMask_ne_zero : ∀ i : Fin 8, Drive.bitMask i.val.toUInt8 ≠ 0 := by decide

theorem bitMask_and_bitMask : ∀ i j : Fin 8, i ≠ j →
    Drive.bitMask i.val.toUInt8 &&& Drive.bitMask j.val.toUInt8 = 0 ∧
      ~~~Drive.bitMask i.val.toUInt8 &&& Drive.bitMask j.val.toUInt8 = Drive.bitMask j.val.toUInt8 := by
  decide

/-- A bit of a byte with one of its bits given. -/
theorem bit_withBit (v : UInt8) (bit : Bool) {i j : Nat} (hi : i < 8) (hj : j < 8) :
    (withBit v i.toUInt8 bit &&& Drive.bitMask j.toUInt8 != 0) =
      if i = j then bit else v &&& Drive.bitMask j.toUInt8 != 0 := by
  unfold withBit
  by_cases hij : i = j
  · subst hij
    rw [if_pos rfl]
    cases bit with
    | true => simpa [or_and_self] using bitMask_ne_zero ⟨i, hi⟩
    | false => simp [UInt8.and_assoc]
  · have hmask := bitMask_and_bitMask ⟨i, hi⟩ ⟨j, hj⟩ (by simpa using hij)
    rw [if_neg hij]
    cases bit with
    | true => simp [or_and, hmask.1]
    | false => simp [UInt8.and_assoc, hmask.2]

/-- A container with one of its bits given. -/
def setBit (image : Array UInt8) (i : Nat) (bit : Bool) : Array UInt8 :=
  image.modify (i / 8) fun v => withBit v (i % 8).toUInt8 bit

@[simp] theorem size_setBit (image : Array UInt8) (i : Nat) (bit : Bool) :
    (setBit image i bit).size = image.size := by
  simp [setBit]

theorem imageBit?_setBit_self {image : Array UInt8} {i : Nat} (hi : i / 8 < image.size) (bit : Bool) :
    imageBit? (setBit image i bit) i = some bit := by
  have hmod : i % 8 < 8 := Nat.mod_lt _ (by decide)
  unfold imageBit? setBit
  rw [Array.getElem?_modify, if_pos rfl, Array.getElem?_eq_getElem hi]
  simp only [Option.map_some, bit_withBit _ bit hmod hmod, if_true]

theorem imageBit?_setBit_of_ne (image : Array UInt8) {i j : Nat} (hij : i ≠ j) (bit : Bool) :
    imageBit? (setBit image i bit) j = imageBit? image j := by
  unfold imageBit? setBit
  rw [Array.getElem?_modify]
  by_cases hbyte : i / 8 = j / 8
  · -- The same byte, so that it is another one of its eight bits.
    have hbit : i % 8 ≠ j % 8 := by omega
    rw [if_pos hbyte, Option.map_map]
    refine congrArg (Option.map · _) (funext fun v => ?_)
    simp only [Function.comp, bit_withBit v bit (Nat.mod_lt i (by decide)) (Nat.mod_lt j (by decide)),
      if_neg hbit]
  · rw [if_neg hbyte]

namespace Drive

/-- The head stands on a track that lies in the container. -/
structure OnTrack (d : Drive) : Prop where
  start : d.track.start ≠ 0
  bits : d.track.bits ≠ 0
  inside : d.track.stop ≤ d.image.size

/-- The bit of the container that the head meets after `k` others. -/
def ahead (d : Drive) (k : Nat) : Nat := 8 * d.track.start + (d.location + k) % d.track.bits

theorem OnTrack.hasDisk {d : Drive} (h : d.OnTrack) : d.hasDisk := by
  have hsize : d.image.size ≠ 0 := by
    intro hzero
    have hinside := h.inside
    have hstart := h.start
    unfold Track.stop at hinside
    omega
  simpa [Drive.hasDisk] using hsize

/-- Every bit that the head meets lies in the container. -/
theorem OnTrack.ahead_inside {d : Drive} (h : d.OnTrack) (k : Nat) : d.ahead k / 8 < d.image.size := by
  have hlt : (d.location + k) % d.track.bits < d.track.bits := Nat.mod_lt _ (Nat.pos_of_ne_zero h.bits)
  have hinside := h.inside
  unfold Track.stop bytesFor at hinside
  unfold ahead
  omega

/-- Within one revolution the head meets no bit twice. -/
theorem ahead_inj {d : Drive} {j k : Nat} (hj : j < d.track.bits)
    (hk : k < d.track.bits) (heq : d.ahead j = d.ahead k) : j = k := by
  unfold ahead at heq
  have hmod : d.location + j ≡ d.location + k [MOD d.track.bits] := Nat.add_left_cancel heq
  exact (Nat.ModEq.add_left_cancel' d.location hmod).eq_of_lt_of_lt hj hk

theorem OnTrack.settle_eq {d : Drive} (h : d.OnTrack) :
    d.settle = { d with location := d.location % d.track.bits } := by
  unfold settle
  rw [if_neg h.bits]

/-- A settled head meets the first bit that lies ahead. -/
theorem OnTrack.cell?_settle {d : Drive} (h : d.OnTrack) :
    cell? { d with location := d.location % d.track.bits } =
      some (d.ahead 0 / 8, (d.ahead 0 % 8).toUInt8) := by
  have hinside := h.ahead_inside 0
  have hbyte : d.ahead 0 / 8 = d.track.start + d.location % d.track.bits / 8 := by
    unfold ahead
    rw [Nat.add_zero]
    omega
  have hbit : d.ahead 0 % 8 = d.location % d.track.bits % 8 := by
    unfold ahead
    rw [Nat.add_zero]
    omega
  rw [hbyte] at hinside ⊢
  rw [hbit]
  exact if_pos ⟨h.bits, h.start, hinside⟩

/-- What lies ahead after one more bit has gone by. -/
theorem ahead_next (d : Drive) (image : Array UInt8) (k : Nat) :
    ahead { d with image, location := d.location % d.track.bits + 1 } k = d.ahead (k + 1) := by
  show 8 * d.track.start + (d.location % d.track.bits + 1 + k) % d.track.bits = d.ahead (k + 1)
  unfold ahead
  rw [Nat.add_assoc, Nat.mod_add_mod, Nat.add_comm 1 k]

/-! ## Writing -/

/-- The head and the container after a bit was written. -/
theorem OnTrack.writeBit_eq {d : Drive} (h : d.OnTrack) (bit : Bool) :
    d.writeBit bit = { d with
      image := setBit d.image (d.ahead 0) bit
      location := d.location % d.track.bits + 1 } := by
  unfold Drive.writeBit
  simp only [h.settle_eq, h.cell?_settle]
  rfl

theorem OnTrack.writeBit {d : Drive} (h : d.OnTrack) (bit : Bool) : (d.writeBit bit).OnTrack := by
  rw [h.writeBit_eq]
  exact ⟨h.start, h.bits, by simpa [track, trackAt] using h.inside⟩

theorem OnTrack.ahead_writeBit {d : Drive} (h : d.OnTrack) (bit : Bool) (k : Nat) :
    (d.writeBit bit).ahead k = d.ahead (k + 1) := by
  rw [h.writeBit_eq]
  exact d.ahead_next _ k

/-- A container is that of a drive but for some bits, which lie where the head meets them. -/
structure Recorded (d : Drive) (bits : List Bool) (image : Array UInt8) : Prop where
  size : image.size = d.image.size
  hit : ∀ k (hk : k < bits.length), imageBit? image (d.ahead k) = some bits[k]
  frame : ∀ i, (∀ k < bits.length, i ≠ d.ahead k) → imageBit? image i = imageBit? d.image i

/-- **Writing.** As long as a row of bits fits its track, each of them is found where the head met it, and
nothing else has changed in the container.  The head has turned. -/
theorem OnTrack.writeBits {bits : List Bool} {d : Drive} (h : d.OnTrack) (hfit : bits.length ≤ d.track.bits) :
    ∃ image location, d.writeBits bits = { d with image, location } ∧ d.Recorded bits image := by
  induction bits generalizing d with
  | nil =>
    refine ⟨d.image, d.location, rfl, rfl, ?_, fun i _ => rfl⟩
    intro k hk
    cases hk
  | cons bit bits ih =>
    have hone := h.writeBit_eq bit
    have htrack : (d.writeBit bit).track = d.track := by rw [hone]; rfl
    have hlength : bits.length < d.track.bits := hfit
    obtain ⟨image, location, heq, hrest⟩ := ih (h.writeBit bit) (by rw [htrack]; omega)
    refine ⟨image, location, ?_, ?_, ?_, ?_⟩
    · show (d.writeBit bit).writeBits bits = _
      rw [heq, hone]
    · rw [hrest.size, hone]
      exact size_setBit _ _ _
    · intro k hk
      cases k with
      | zero =>
        -- The bits after the first one lie elsewhere.
        have hfirst : imageBit? image (d.ahead 0) = imageBit? (d.writeBit bit).image (d.ahead 0) := by
          refine hrest.frame _ fun k hk heq => ?_
          rw [h.ahead_writeBit] at heq
          have hzero := ahead_inj (by omega) (by omega) heq
          omega
        rw [hfirst, hone]
        exact imageBit?_setBit_self (h.ahead_inside 0) bit
      | succ k =>
        have hk' : k < bits.length := Nat.lt_of_succ_lt_succ hk
        rw [← h.ahead_writeBit bit k, hrest.hit k hk']
        rfl
    · intro i hi
      have hother : imageBit? image i = imageBit? (d.writeBit bit).image i := by
        refine hrest.frame i fun k hk => ?_
        rw [h.ahead_writeBit]
        exact hi (k + 1) (Nat.succ_lt_succ hk)
      rw [hother, hone]
      exact imageBit?_setBit_of_ne _ (hi 0 (Nat.succ_pos _)).symm bit

/-! ## Reading back -/

/-- The next bit is the one that the head meets. -/
theorem OnTrack.nextBit_eq {d : Drive} (h : d.OnTrack) {bit : Bool}
    (hbit : imageBit? d.image (d.ahead 0) = some bit) :
    d.nextBit = (bit, { d with location := d.location % d.track.bits + 1 }) := by
  obtain ⟨v, hv, hvbit⟩ := Option.map_eq_some_iff.mp hbit
  unfold Drive.nextBit
  simp only [h.settle_eq, h.cell?_settle, Array.getD_eq_getD_getElem?, hv, Option.getD_some, hvbit]

/-- A drive gives the bits that lie where the head meets them. -/
theorem OnTrack.gives {bits : List Bool} {d : Drive} (h : d.OnTrack)
    (hbits : ∀ k (hk : k < bits.length), imageBit? d.image (d.ahead k) = some bits[k]) : d.Gives bits := by
  induction bits generalizing d with
  | nil => trivial
  | cons bit bits ih =>
    have hnext := h.nextBit_eq (hbits 0 (Nat.succ_pos _))
    refine ⟨by rw [hnext]; rfl, ?_⟩
    rw [hnext]
    refine ih ⟨h.start, h.bits, h.inside⟩ fun k hk => ?_
    rw [d.ahead_next d.image k]
    exact hbits (k + 1) (Nat.succ_lt_succ hk)

end Drive

end AppleII.Disk
