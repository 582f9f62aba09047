import AppleII.Proofs.Byte
import AppleII.Proofs.Disk.Track

/-!
# Reading a track round and round

A drive whose track holds the bits of some items gives the nibbles of these items, one after the other
and again from the first one after the last (`nextBytes_revolutions`).  A reader that stands behind a
synchronising byte passes over its two 0 bits, so that it is never out of step with the items.
-/

namespace AppleII.Disk

open TrackItem (prependBits allBits)

namespace Drive

/-- Bytes read one after the other. -/
def nextBytes : Nat → Drive → List UInt8 × Drive
  | 0, d => ([], d)
  | n + 1, d =>
    let (b, d) := d.nextByte
    let (bs, d) := nextBytes n d
    (b :: bs, d)

/-- The first bytes of a longer row of bytes. -/
theorem nextBytes_take (n m : Nat) (d : Drive) : (nextBytes n d).1 = (nextBytes (n + m) d).1.take n := by
  induction n generalizing d with
  | zero => rfl
  | succ n ih =>
    rw [Nat.succ_add]
    simp only [nextBytes, List.take_succ_cons, ← ih]

/-- The drive with its head at the start of the track of a half-track. -/
def atStart (d : Drive) (h : Fin halfTracks) : Drive := { d with halfTrack := h, location := 0 }

/-- The disk has turned under the head, and nothing else has changed. -/
def Turned (d d' : Drive) : Prop := ∃ location, d' = { d with location }

theorem Turned.refl (d : Drive) : d.Turned d := ⟨_, rfl⟩

theorem Turned.trans {d d' d'' : Drive} (h : d.Turned d') (h' : d'.Turned d'') : d.Turned d'' := by
  obtain ⟨_, rfl⟩ := h
  obtain ⟨_, rfl⟩ := h'
  exact ⟨_, rfl⟩

theorem Turned.track {d d' : Drive} (h : d.Turned d') : d'.track = d.track := by
  obtain ⟨_, rfl⟩ := h
  rfl

theorem Turned.hasDisk {d d' : Drive} (h : d.Turned d') : d'.hasDisk = d.hasDisk := by
  obtain ⟨_, rfl⟩ := h
  rfl

theorem turned_nextBit (d : Drive) : d.Turned d.nextBit.2 := ⟨_, rfl⟩

/-! ## Bits that are given -/

/-- The bits that the head meets next begin with some bits. -/
def Gives : Drive → List Bool → Prop
  | _, [] => True
  | d, b :: bs => d.nextBit.1 = b ∧ d.nextBit.2.Gives bs

/-- 0 bits are passed over up to the first 1 bit. -/
theorem seekOne_of_gives {bits : List Bool} (k : Nat) {n : Nat} {d : Drive} (hk : k < n)
    (h : d.Gives (List.replicate k false ++ true :: bits)) :
    (seekOne n d).1 = true ∧ (seekOne n d).2.Gives bits ∧ d.Turned (seekOne n d).2 := by
  induction n generalizing k d with
  | zero => omega
  | succ n ih =>
    have hturn := d.turned_nextBit
    cases k with
    | zero =>
      obtain ⟨hbit, hrest⟩ := h
      simp only [seekOne, hbit, if_true]
      exact ⟨trivial, hrest, hturn⟩
    | succ k =>
      obtain ⟨hbit, hrest⟩ := h
      obtain ⟨hfound, hgives, hturned⟩ := ih k (by omega) hrest
      simp only [seekOne, hbit, Bool.false_eq_true, if_false]
      exact ⟨hfound, hgives, hturn.trans hturned⟩

/-- One more bit below the bits of a byte. -/
def shiftIn (v : UInt8) (b : Bool) : UInt8 := (v <<< 1) ||| (if b then 1 else 0)

theorem readBits_of_gives {rest : List Bool} (bits : List Bool) (acc : UInt8) {d : Drive}
    (h : d.Gives (bits ++ rest)) :
    (readBits bits.length acc d).1 = bits.foldl shiftIn acc ∧
      (readBits bits.length acc d).2.Gives rest ∧ d.Turned (readBits bits.length acc d).2 := by
  induction bits generalizing acc d with
  | nil => exact ⟨rfl, h, .refl d⟩
  | cons b bits ih =>
    obtain ⟨rfl, hrest⟩ := h
    obtain ⟨hvalue, hgives, hturned⟩ := ih _ hrest
    exact ⟨hvalue, hgives, d.turned_nextBit.trans hturned⟩

/-- The bits of a byte below its first one. -/
def lowBits (b : UInt8) : List Bool := (prependBits b []).tail

theorem prependBits_eq {b : UInt8} (hb : b &&& 0x80 != 0) (rest : List Bool) :
    prependBits b rest = true :: (lowBits b ++ rest) := by
  show (b &&& 0x80 != 0) :: (lowBits b ++ rest) = _
  rw [hb]

/-- The bits of a byte are put together again. -/
theorem foldl_lowBits {b : UInt8} (hb : b &&& 0x80 != 0) :
    (lowBits b).foldl shiftIn 1 = b := by
  revert hb
  exact forall_byte (P := fun b => b &&& 0x80 != 0 → (lowBits b).foldl shiftIn 1 = b) (by decide +kernel) b

/-- After at most as many 0 bits as a revolution has, the next byte is read as it is. -/
theorem nextByte_of_gives {rest : List Bool} {b : UInt8} {k : Nat} {d : Drive} (hdisk : d.hasDisk)
    (hk : k < d.track.bits) (hb : b &&& 0x80 != 0)
    (h : d.Gives (List.replicate k false ++ prependBits b rest)) :
    d.nextByte.1 = b ∧ d.nextByte.2.Gives rest ∧ d.Turned d.nextByte.2 := by
  rw [prependBits_eq hb] at h
  obtain ⟨hfound, hgives, hturned⟩ := seekOne_of_gives k (n := max d.track.bits 1) (by omega) h
  obtain ⟨hvalue, hrest, hturned'⟩ := readBits_of_gives (lowBits b) 1 hgives
  unfold nextByte
  simp only [hdisk, hfound, if_true]
  exact ⟨hvalue.trans (foldl_lowBits hb), hrest, hturned.trans hturned'⟩

/-! ## Bytes with gaps -/

/-- The bits of bytes, each with a number of 0 bits behind it. -/
def spacedBits (vs : List (UInt8 × Nat)) : List Bool :=
  vs.flatMap fun v => prependBits v.1 (List.replicate v.2 false)

/-- **Self-synchronisation.** Bytes with their highest bit set are read as they are, whatever 0 bits lie
before and between them. -/
theorem nextBytes_of_gives_spaced (vs : List (UInt8 × Nat)) {k : Nat} {d : Drive} (hdisk : d.hasDisk)
    (hvs : ∀ v ∈ vs, v.1 &&& 0x80 != 0 ∧ v.2 < d.track.bits) (hk : k < d.track.bits)
    (h : d.Gives (List.replicate k false ++ spacedBits vs)) :
    (nextBytes vs.length d).1 = vs.map Prod.fst := by
  induction vs generalizing k d with
  | nil => rfl
  | cons v vs ih =>
    obtain ⟨hhigh, hgap⟩ := hvs v List.mem_cons_self
    have hgives : d.Gives (List.replicate k false ++
        prependBits v.1 (List.replicate v.2 false ++ spacedBits vs)) := h
    obtain ⟨hbyte, hnext, hturned⟩ := nextByte_of_gives hdisk hk hhigh hgives
    have htail := ih (hturned.hasDisk ▸ hdisk)
      (fun u hu => hturned.track ▸ hvs u (List.mem_cons_of_mem v hu)) (hturned.track ▸ hgap) hnext
    simp only [List.length_cons, nextBytes, List.map_cons, hbyte, htail]

/-- The 0 bits behind an item. -/
def gap : TrackItem → Nat
  | .byte _ => 0
  | .sync => 2

theorem allBits_eq_spacedBits (items : List TrackItem) :
    allBits items = spacedBits (items.map fun i => (i.nibble, gap i)) := by
  induction items with
  | nil => rfl
  | cons i items ih => cases i <;> simp only [allBits, ih] <;> rfl

/-- The bits of items are read as the nibbles of these items. -/
theorem nextBytes_of_gives (items : List TrackItem) (hitems : ∀ i ∈ items, i.nibble &&& 0x80 != 0)
    {d : Drive} (hdisk : d.hasDisk) (hbits : 2 < d.track.bits) (h : d.Gives (allBits items)) :
    (nextBytes items.length d).1 = items.map TrackItem.nibble := by
  rw [allBits_eq_spacedBits] at h
  have hread := nextBytes_of_gives_spaced (k := 0) _ hdisk ?_ (by omega) h
  · rw [List.length_map, List.map_map] at hread
    exact hread
  · intro v hv
    obtain ⟨i, hi, rfl⟩ := List.mem_map.mp hv
    refine ⟨hitems i hi, ?_⟩
    cases i with
    | byte b => exact Nat.lt_of_le_of_lt (Nat.zero_le 2) hbits
    | sync => exact hbits

/-! ## Revolutions -/

/-- The track under the head holds some bits. -/
structure Holds (d : Drive) (bits : List Bool) : Prop where
  start : d.track.start ≠ 0
  length : d.track.bits = bits.length
  nonempty : bits ≠ []
  bits : BitsAt d.image d.track.start bits

theorem Holds.turned {d d' : Drive} {bits : List Bool} (h : d.Holds bits) (ht : d.Turned d') :
    d'.Holds bits := by
  obtain ⟨_, rfl⟩ := ht
  exact ⟨h.start, h.length, h.nonempty, h.bits⟩

/-- The next bit is the one at the place of the head in its track. -/
theorem Holds.nextBit {d : Drive} {bits : List Bool} (h : d.Holds bits) {i : Nat} (hi : i < bits.length)
    (hloc : d.location % bits.length = i) :
    d.nextBit = (bits[i], { d with location := i + 1 }) := by
  obtain ⟨b, hbyte, hbit⟩ := h.bits i hi
  obtain ⟨hsize, hget⟩ := Array.getElem?_eq_some_iff.mp hbyte
  have hbits : d.track.bits ≠ 0 := by
    rw [h.length]
    omega
  have hsettle : d.settle = { d with location := i } := by
    unfold settle
    rw [if_neg hbits, h.length, hloc]
  have hcell : cell? { d with location := i } = some (d.track.start + i / 8, (i % 8).toUInt8) :=
    if_pos ⟨hbits, h.start, hsize⟩
  unfold Drive.nextBit
  simp only [hsettle, hcell, ← hbit]
  rw [Array.getD_eq_getD_getElem?, hbyte]
  rfl

/-- From any place in its track on the drive gives the rest of the track, and then what it gives from
the start of the track on. -/
theorem Holds.gives_append {bits rest : List Bool} (hrest : ∀ d : Drive, d.Holds bits →
      d.location % bits.length = 0 → d.Gives rest) (before after : List Bool) (hbits : bits = before ++ after)
    {d : Drive} (h : d.Holds bits) (hloc : d.location % bits.length = before.length % bits.length) :
    d.Gives (after ++ rest) := by
  induction after generalizing before d with
  | nil =>
    have hlen : before.length = bits.length := by rw [hbits, List.append_nil]
    exact hrest d h (by rw [hloc, hlen, Nat.mod_self])
  | cons b after ih =>
    have hlt : before.length < bits.length := by rw [hbits, List.length_append, List.length_cons]; omega
    have hget : bits[before.length] = b := by simp [hbits]
    rw [Nat.mod_eq_of_lt hlt] at hloc
    have hnext := h.nextBit hlt hloc
    refine ⟨by rw [hnext, hget], ?_⟩
    rw [hnext]
    refine ih (before ++ [b]) (by simp [hbits]) (h.turned ⟨_, rfl⟩) ?_
    simp

/-- From the start of a track on a drive gives the bits of the track again and again. -/
theorem Holds.gives {bits : List Bool} (n : Nat) {d : Drive} (h : d.Holds bits)
    (hloc : d.location % bits.length = 0) : d.Gives (List.replicate n bits).flatten := by
  induction n generalizing d with
  | zero => trivial
  | succ n ih =>
    rw [List.replicate_succ, List.flatten_cons]
    exact h.gives_append (fun d h hloc => ih h hloc) [] bits rfl (by simp [hloc])

theorem allBits_append (xs ys : List TrackItem) : allBits (xs ++ ys) = allBits xs ++ allBits ys := by
  induction xs with
  | nil => rfl
  | cons i xs ih => cases i <;> simp [allBits, prependBits, ih]

theorem allBits_flatten (n : Nat) (items : List TrackItem) :
    allBits (List.replicate n items).flatten = (List.replicate n (allBits items)).flatten := by
  induction n with
  | zero => rfl
  | succ n ih => simp only [List.replicate_succ, List.flatten_cons, allBits_append, ih]

/-- **Revolutions.** The bytes read from the start of a track on are the nibbles of its items, once for
each revolution. -/
theorem nextBytes_revolutions {items : List TrackItem} (hitems : ∀ i ∈ items, i.nibble &&& 0x80 != 0)
    {d : Drive} (hdisk : d.hasDisk) (h : d.Holds (allBits items)) (hloc : d.location = 0) (n : Nat) :
    (nextBytes (n * items.length) d).1 = (List.replicate n (items.map TrackItem.nibble)).flatten := by
  have hbits : 2 < d.track.bits := by
    rw [h.length]
    cases items with
    | nil => exact absurd rfl h.nonempty
    | cons i items => cases i <;> simp [allBits, prependBits]
  have hgives := h.gives n (by rw [hloc, Nat.zero_mod])
  rw [← allBits_flatten] at hgives
  have hread := nextBytes_of_gives (List.replicate n items).flatten
    (fun i hi => hitems i (by
      obtain ⟨l, hl, hi⟩ := List.mem_flatten.mp hi
      rwa [List.eq_of_mem_replicate hl] at hi))
    hdisk hbits hgives
  simpa using hread

end Drive

end AppleII.Disk
