import AppleII.Proofs.Disk.Stepper

/-!
# The place in the track when the head moves

A disk turns on while the head moves, so the place in the track is carried over from the last track that the head
stood on to the one that it comes to (`Drive.location_moveHead`).  The half-tracks without a track in between do not
count (`Drive.Crosses.location_eq`).  A place on the old track becomes one on the new track, whatever their lengths,
and no number on the way outgrows its word (`head_moves_keep_place`).
-/

namespace AppleII.Disk

/-! ## Reads and products that may fail -/

/-- Where a head stands: its half-track, the last one with a track that it was moved from, and the place in the
track.  Nothing bounds the numbers. -/
structure HeadPosition where
  halfTrack : Nat
  previous : Nat
  location : Nat

/-- A product in a word of 64 bits. -/
def product64? (a b : Nat) : Option Nat := if a * b < 0x10000000000000000 then some (a * b) else none

/-- The head moved, as `Drive.moveHead` moves it.  A track is looked up in the table by its number, which may miss,
and the place is computed in 64 bits, which may not hold it. -/
def HeadPosition.move? (tracks : Vector Track halfTracks) (p : HeadPosition) (offset : Int) :
    Option (HeadMove × HeadPosition) := do
  let under ← tracks[p.halfTrack]?
  let previous := if under.start = 0 then p.previous else p.halfTrack
  let target := (p.halfTrack : Int) + offset
  let move := if 0 ≤ target ∧ target ≤ lastHalfTrack then HeadMove.moved else HeadMove.atStop
  let halfTrack := min target.toNat lastHalfTrack
  let track ← tracks[halfTrack]?
  if track.start = 0 ∨ previous = halfTrack then
    return (move, { p with halfTrack, previous })
  else
    let old ← tracks[previous]?
    let product ← product64? p.location track.bits
    let q := product / max old.bits 1 % 0x100000000
    return (move, { halfTrack, previous, location := if 3 < q then q - 4 else q })

theorem product64?_of_lt {a b : Nat} (ha : a < 0x100000000) (hb : b < 0x100000000) :
    product64? a b = some (a * b) := by
  have hprod : a * b < 0x100000000 * 0x100000000 := Nat.mul_lt_mul'' ha hb
  unfold product64?
  rw [if_pos (by omega)]

/-! ## The place on another track -/

section Rescale

variable {location old new : Nat}

/-- A place on the old track corresponds to one on the new track. -/
theorem scaled_le (h : location ≤ max old 1) : location * new / max old 1 ≤ new := by
  apply Nat.div_le_of_le_mul
  exact Nat.mul_le_mul_right new h

/-- A place on the old track is carried over without loss. -/
theorem rescale_eq (h : location ≤ max old 1) (hnew : new < 0x100000000) :
    let q := location * new / max old 1
    q < 0x100000000 ∧ Drive.rescale location old new = (if 3 < q then q - 4 else q) := by
  intro q
  have hq : q ≤ new := scaled_le h
  have hword : q < 0x100000000 := by omega
  refine ⟨hword, ?_⟩
  show (if 3 < q % 0x100000000 then _ else _) = _
  rw [Nat.mod_eq_of_lt hword]

theorem rescale_le (h : location ≤ max old 1) : Drive.rescale location old new ≤ new := by
  have hq : location * new / max old 1 ≤ new := scaled_le h
  have hmod := Nat.mod_le (location * new / max old 1) 0x100000000
  unfold Drive.rescale
  dsimp only
  split <;> omega

theorem rescale_lt (location old new : Nat) : Drive.rescale location old new < 0x100000000 := by
  have hmod : location * new / max old 1 % 0x100000000 < 0x100000000 := Nat.mod_lt _ (by decide)
  unfold Drive.rescale
  dsimp only
  split <;> omega

end Rescale

/-! ## Moves -/

namespace Drive

variable {d d' : Drive} {home : Fin halfTracks}

/-- The half-track in whose bits the place is counted: the one under the head, and off the tracks the last one with a
track that the head was moved from. -/
def reference (d : Drive) : Fin halfTracks :=
  if d.isEmptyAt d.halfTrack then d.previousHalfTrack else d.halfTrack

def position (d : Drive) : HeadPosition := ⟨d.halfTrack.val, d.previousHalfTrack.val, d.location⟩

/-- The place and the lengths of the tracks are numbers of 32 bits. -/
structure FitsWords (d : Drive) : Prop where
  location : d.location < 0x100000000
  bits : ∀ h, (d.trackAt h).bits < 0x100000000

/-- The place is carried over onto a track that is not the one it is counted in; else it stays. -/
theorem location_moveHead (d : Drive) (offset : Int) :
    let d' := (d.moveHead offset).2
    d'.location = if d.isEmptyAt d'.halfTrack = true ∨ d.reference = d'.halfTrack then d.location
      else rescale d.location (d.trackAt d.reference).bits (d.trackAt d'.halfTrack).bits := by
  intro d'
  have hlocation : d'.location = if !d.isEmptyAt d'.halfTrack && d.reference != d'.halfTrack then
      rescale d.location (d.trackAt d.reference).bits (d.trackAt d'.halfTrack).bits else d.location := rfl
  rw [hlocation]
  by_cases hempty : d.isEmptyAt d'.halfTrack = true
  · simp [hempty]
  · by_cases hsame : d.reference = d'.halfTrack
    · simp [hsame]
    · simp [hempty, hsame]

theorem location_moveHead_of_other {offset : Int} (htrack : d.isEmptyAt (d.moveHead offset).2.halfTrack = false)
    (hother : (d.moveHead offset).2.halfTrack ≠ d.reference) : (d.moveHead offset).2.location =
      rescale d.location (d.trackAt d.reference).bits (d.trackAt (d.moveHead offset).2.halfTrack).bits := by
  rw [location_moveHead, if_neg]
  rintro (hempty | hsame)
  · rw [htrack] at hempty
    cases hempty
  · exact hother hsame.symm

theorem FitsWords.moveHead (h : d.FitsWords) (offset : Int) : (d.moveHead offset).2.FitsWords := by
  refine ⟨?_, h.bits⟩
  rw [location_moveHead]
  split
  · exact h.location
  · exact rescale_lt _ _ _

/-- The head stays in its range, and so does the half-track that is remembered. -/
theorem inRange_moveHead (hhead : d.halfTrack.val ≤ lastHalfTrack) (hprevious : d.previousHalfTrack.val ≤ lastHalfTrack)
    (offset : Int) : (d.moveHead offset).2.halfTrack.val ≤ lastHalfTrack ∧
      (d.moveHead offset).2.previousHalfTrack.val ≤ lastHalfTrack := by
  refine ⟨Nat.min_le_right _ _, ?_⟩
  show d.reference.val ≤ lastHalfTrack
  unfold reference
  split
  · exact hprevious
  · exact hhead

/-- **No read misses.** With reads of the table that may miss and a product of 64 bits, a move gives the same. -/
theorem move?_position (h : d.FitsWords) (offset : Int) :
    d.position.move? d.tracks offset = some ((d.moveHead offset).1, (d.moveHead offset).2.position) := by
  have hread (i : Fin halfTracks) : d.tracks[i.val]? = some (d.trackAt i) := Vector.getElem?_eq_getElem i.isLt
  have hempty (i : Fin halfTracks) : (d.trackAt i).start = 0 ↔ d.isEmptyAt i = true := beq_iff_eq.symm
  have hprevious : (if (d.trackAt d.halfTrack).start = 0 then d.previousHalfTrack.val else d.halfTrack.val) =
      d.reference.val := by
    unfold reference
    simp only [hempty]
    split <;> rfl
  let ahead := clampHalfTrack ((d.halfTrack.val : Int) + offset).toNat
  unfold HeadPosition.move? position
  have hahead : min ((d.halfTrack.val : Int) + offset).toNat lastHalfTrack = ahead.val := rfl
  simp only [hread, hahead, hprevious, Option.bind_eq_bind, Option.bind_some]
  have hlocation : (d.moveHead offset).2.location = if d.isEmptyAt ahead = true ∨ d.reference = ahead then d.location
      else rescale d.location (d.trackAt d.reference).bits (d.trackAt ahead).bits := d.location_moveHead offset
  have hstays : (d.trackAt ahead).start = 0 ∨ d.reference.val = ahead.val ↔
      d.isEmptyAt ahead = true ∨ d.reference = ahead := by
    rw [hempty, Fin.ext_iff]
  by_cases hkept : d.isEmptyAt ahead = true ∨ d.reference = ahead
  · rw [if_pos hkept] at hlocation
    rw [if_pos (hstays.mpr hkept), hlocation]
    rfl
  · rw [if_neg hkept] at hlocation
    rw [if_neg (mt hstays.mp hkept), product64?_of_lt h.location (h.bits ahead), hlocation]
    rfl

/-! ## Half-tracks without a track -/

/-- The head is moved by single steps over half-tracks without a track, and over `home`.  What else is done leaves the
head, its place and the tracks as they are: no bit is read or written. -/
inductive Crosses (home : Fin halfTracks) (d : Drive) : Drive → Prop
  | start : Crosses home d d
  | move {d' : Drive} (h : Crosses home d d') (dir : Direction)
    (hlands : (d'.moveHead dir.offset).2.halfTrack = home ∨ d.isEmptyAt (d'.moveHead dir.offset).2.halfTrack = true) :
    Crosses home d (d'.moveHead dir.offset).2
  | still {d' d'' : Drive} (h : Crosses home d d') (hposition : d''.position = d'.position)
    (htracks : d''.tracks = d'.tracks) : Crosses home d d''

theorem isEmptyAt_congr (h : d'.tracks = d.tracks) (i : Fin halfTracks) : d'.isEmptyAt i = d.isEmptyAt i := by
  unfold isEmptyAt trackAt
  rw [h]

theorem reference_congr (hposition : d'.position = d.position) (htracks : d'.tracks = d.tracks) :
    d'.reference = d.reference := by
  obtain ⟨hhead, hprevious, -⟩ := HeadPosition.mk.inj hposition
  unfold reference
  rw [isEmptyAt_congr htracks, Fin.ext hhead, Fin.ext hprevious]

/-- **A run** of moves: the place is counted in `home` throughout, and stays. -/
theorem Crosses.location_eq (hhome : d.reference = home) (h : Crosses home d d') :
    d'.location = d.location ∧ d'.reference = home ∧ d'.tracks = d.tracks := by
  induction h with
  | start => exact ⟨rfl, hhome, rfl⟩
  | @move d' _ dir hlands ih =>
    obtain ⟨hlocation, hreference, htracks⟩ := ih
    have hempty := isEmptyAt_congr htracks (d'.moveHead dir.offset).2.halfTrack
    refine ⟨?_, ?_, htracks⟩
    · rw [location_moveHead, hempty, hreference, if_pos, hlocation]
      rcases hlands with hback | hnone
      · exact .inr hback.symm
      · exact .inl hnone
    · show (if d'.isEmptyAt _ then d'.reference else _) = home
      rw [hempty, hreference]
      rcases hlands with hback | hnone
      · rw [hback]
        exact ite_self _
      · rw [if_pos hnone]
  | still _ hposition htracks ih =>
    obtain ⟨hlocation, hreference, htracks'⟩ := ih
    refine ⟨?_, ?_, htracks.trans htracks'⟩
    · exact (HeadPosition.mk.inj hposition).2.2.trans hlocation
    · rw [reference_congr hposition htracks, hreference]

end Drive

/-- **Head moves keep the place in the track.** A head in its range stays in it, and so does the half-track that it
remembers; so all reads hit the table, and all numbers fit in their words.  The place changes only when the head comes
onto a track other than the one that the place is counted in.  Then it becomes the corresponding place there, less the
four bits that pass meanwhile: exactly, and within the track, if it lay within the old one.  While the head crosses
half-tracks without a track, up to when it is back on the track that it came from, the place stays. -/
theorem head_moves_keep_place {d : Drive} (hhead : d.halfTrack.val ≤ lastHalfTrack)
    (hprevious : d.previousHalfTrack.val ≤ lastHalfTrack) (hwords : d.FitsWords) :
    (∀ dir : Direction,
      let d' := (d.moveHead dir.offset).2
      let r := d.reference
      let q := d.location * (d.trackAt d'.halfTrack).bits / max (d.trackAt r).bits 1
      let carried (q : Nat) := if 3 < q then q - 4 else q
      d.position.move? d.tracks dir.offset = some ((d.moveHead dir.offset).1, d'.position) ∧
        d'.halfTrack.val ≤ lastHalfTrack ∧ d'.previousHalfTrack.val ≤ lastHalfTrack ∧ d'.FitsWords ∧
        (d'.location ≠ d.location → d.isEmptyAt d'.halfTrack = false ∧ d'.halfTrack ≠ r) ∧
        (d.isEmptyAt d'.halfTrack = false → d'.halfTrack ≠ r →
          d'.location = carried (q % 0x100000000) ∧
            (d.location ≤ max (d.trackAt r).bits 1 → q < 0x100000000 ∧ d'.location = carried q ∧
              d'.location ≤ (d.trackAt d'.halfTrack).bits))) ∧
      ∀ d' : Drive, d.Crosses d.reference d' → d'.location = d.location := by
  refine ⟨?_, fun d' hcrosses => (Drive.Crosses.location_eq rfl hcrosses).1⟩
  intro dir d' r q carried
  obtain ⟨hhead', hprevious'⟩ := Drive.inRange_moveHead hhead hprevious dir.offset
  refine ⟨Drive.move?_position hwords dir.offset, hhead', hprevious', hwords.moveHead dir.offset, ?_, ?_⟩
  · intro hmoved
    have hlocation : d'.location = _ := d.location_moveHead dir.offset
    constructor
    · apply Bool.eq_false_iff.mpr
      intro hempty
      exact hmoved (hlocation.trans (if_pos (.inl hempty)))
    · intro hsame
      exact hmoved (hlocation.trans (if_pos (.inr hsame.symm)))
  · intro htrack hother
    have hrescaled : d'.location = Drive.rescale d.location (d.trackAt r).bits (d.trackAt d'.halfTrack).bits :=
      Drive.location_moveHead_of_other htrack hother
    refine ⟨hrescaled, ?_⟩
    intro hwithin
    obtain ⟨hword, hexact⟩ := rescale_eq hwithin (hwords.bits d'.halfTrack)
    exact ⟨hword, hrescaled.trans hexact, hrescaled ▸ rescale_le hwithin⟩

/-- A drive with tracks of different lengths on half-tracks 0 and 2; the head stands between them and comes from the
first one. -/
def betweenTracks : Drive :=
  { Drive.empty with
    halfTrack := ⟨1, by decide⟩
    previousHalfTrack := ⟨0, by decide⟩
    tracks := ((Vector.replicate _ {}).set 0 { start := 1536, bits := 50304 } (by decide)).set 2
      { start := 8192, bits := 25152 } (by decide)
    location := 50303 }

/-- The last bit of the longer track becomes one of the last bits of the shorter one; back on its own track, after some
steps in between, it is still the last one. -/
theorem head_moves_keep_place_betweenTracks :
    let d := betweenTracks
    let back := ((d.moveHead (-1)).2.moveHead 1).2.moveHead (-1)
    d.halfTrack.val ≤ lastHalfTrack ∧ d.previousHalfTrack.val ≤ lastHalfTrack ∧ d.FitsWords ∧
      (d.moveHead 1).2.halfTrack = 2 ∧ (d.moveHead 1).2.location = 25147 ∧
      back.2.halfTrack = d.reference ∧ back.2.location = 50303 := by
  intro d back
  have hwords : d.FitsWords := ⟨by decide, by decide +kernel⟩
  obtain ⟨hmoves, hcrosses⟩ := head_moves_keep_place (d := d) (by decide) (by decide) hwords
  obtain ⟨-, -, -, -, -, hcarried⟩ := hmoves .inward
  obtain ⟨-, hexact⟩ := hcarried (by decide +kernel) (by decide +kernel)
  obtain ⟨-, hlocation, -⟩ := hexact (by decide +kernel)
  refine ⟨by decide, by decide, hwords, by decide +kernel, hlocation.trans (by decide +kernel), by decide +kernel, ?_⟩
  refine hcrosses back.2 (.move (.move (.move .start .outward ?_) .inward ?_) .outward ?_)
  · exact .inl (by decide +kernel)
  · exact .inr (by decide +kernel)
  · exact .inl (by decide +kernel)

end AppleII.Disk
