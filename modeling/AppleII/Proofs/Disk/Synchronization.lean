import AppleII.Proofs.Disk.Recording

/-!
# Getting into step

A reader that starts in the middle of a group of eight 1 bits and two 0 bits reads bytes that begin two bits earlier in
their group every time, until the two 0 bits of a group come in front of a byte: then it is in step with the groups,
and with the nibbles behind them (`nextBytes_synchronizes`).
-/

namespace AppleII.Disk

open TrackItem (allBits prependBits)

namespace Drive

/-- Some bits lie on the track under the head from a place on, round and round. -/
def LiesAt (d : Drive) (place : Nat) (bits : List Bool) : Prop :=
  ∀ i (hi : i < bits.length),
    imageBit? d.image (8 * d.track.start + (place + i) % d.track.bits) = some bits[i]

/-- The byte that a reader takes from the third bit of a group on, or from a later one: it has the two 0 bits above
`ones` bits of the group that follows. -/
def slipped (ones : Nat) : UInt8 := ~~~(3 <<< ones.toUInt8)

/-- The bytes that a reader takes from bit `j` of a group on before it is in step, each with the 0 bits behind it. -/
def lead : Nat → List (UInt8 × Nat)
  | 0 => []
  | 1 => [(0xFE, 1)]
  | j + 2 => (slipped j, 0) :: lead j

/-! ## Bits that lie on a track -/

theorem LiesAt.right {d : Drive} {place : Nat} {before bits : List Bool} (h : d.LiesAt place (before ++ bits)) :
    d.LiesAt (place + before.length) bits := by
  intro i hi
  have hinside : before.length + i < (before ++ bits).length := by
    rw [List.length_append]
    omega
  have hbit := h (before.length + i) hinside
  rw [List.getElem_append_right (Nat.le_add_right _ _)] at hbit
  rw [Nat.add_assoc, hbit]
  simp

/-- From their place on the drive gives the bits. -/
theorem OnTrack.gives_of_liesAt {d : Drive} (h : d.OnTrack) {place : Nat} {bits : List Bool}
    (hlies : d.LiesAt place bits) (hloc : d.location % d.track.bits = place % d.track.bits) : d.Gives bits := by
  refine h.gives fun k hk => ?_
  have hplace : d.ahead k = 8 * d.track.start + (place + k) % d.track.bits := by
    unfold ahead
    rw [← Nat.mod_add_mod, hloc, Nat.mod_add_mod]
  rw [hplace, hlies k hk]

theorem length_le_spacedBits {vs : List (UInt8 × Nat)} {v : UInt8 × Nat} (hv : v ∈ vs) :
    8 + v.2 ≤ (spacedBits vs).length := by
  induction vs with
  | nil => cases hv
  | cons u vs ih =>
    have hcons : (spacedBits (u :: vs)).length = u.2 + 8 + (spacedBits vs).length := by
      show (prependBits u.1 (List.replicate u.2 false) ++ spacedBits vs).length = _
      rw [List.length_append, length_prependBits, List.length_replicate]
    rcases List.mem_cons.mp hv with rfl | hv
    · omega
    · have hle := ih hv
      omega

theorem spacedBits_append (us vs : List (UInt8 × Nat)) :
    spacedBits (us ++ vs) = spacedBits us ++ spacedBits vs := List.flatMap_append

/-- Bytes are read as they lie on a track, from the 0 bits on that come before them. -/
theorem OnTrack.nextBytes_of_liesAt {d : Drive} (h : d.OnTrack) {place zeros : Nat} {us : List (UInt8 × Nat)}
    (hus : ∀ v ∈ us, v.1 &&& 0x80 != 0) (hlies : d.LiesAt place (List.replicate zeros false ++ spacedBits us))
    (hfit : zeros + (spacedBits us).length ≤ d.track.bits)
    (hloc : d.location % d.track.bits = place % d.track.bits) :
    (nextBytes us.length d).1 = us.map Prod.fst := by
  cases us with
  | nil => rfl
  | cons u us =>
    have hfirst := length_le_spacedBits (List.mem_cons_self (a := u) (l := us))
    refine nextBytes_of_gives_spaced (u :: us) h.hasDisk (fun v hv => ⟨hus v hv, ?_⟩) (by omega)
      (h.gives_of_liesAt hlies hloc)
    have hgap := length_le_spacedBits hv
    omega

/-! ## The lead -/

/-- What a reader meets of the groups before it is in step. -/
structure Leads (j groups zeros : Nat) (us : List (UInt8 × Nat)) : Prop where
  inside : j ≤ 10 * groups
  groups_le : groups ≤ 4
  length_le : us.length ≤ groups
  high : ∀ v ∈ us, v.1 &&& 0x80 != 0
  bits : (allBits (List.replicate groups .sync)).drop j = List.replicate zeros false ++ spacedBits us

/-- From a 1 bit of a group on, the bytes begin two bits earlier in their group every time. -/
theorem leads_lead (j : Fin 8) : Leads j.val ((j.val + 1) / 2) 0 (lead j.val) := by
  have hbits : ∀ j : Fin 8,
      (allBits (List.replicate ((j.val + 1) / 2) .sync)).drop j.val = spacedBits (lead j.val) := by decide
  have hlead : ∀ j : Fin 8, (lead j.val).length = (j.val + 1) / 2 ∧ ∀ v ∈ lead j.val, v.1 &&& 0x80 != 0 := by
    decide
  obtain ⟨hlength, hhigh⟩ := hlead j
  exact ⟨by omega, by omega, hlength.le, hhigh, hbits j⟩

/-- From the two 0 bits of a group on, a reader is in step. -/
theorem leads_zeros {j : Nat} (h : 8 ≤ j) (h' : j < 10) : Leads j 1 (10 - j) [] := by
  obtain rfl | rfl : j = 8 ∨ j = 9 := by omega
  · exact ⟨by decide, by decide, by decide, by decide, by decide⟩
  · exact ⟨by decide, by decide, by decide, by decide, by decide⟩

theorem exists_leads {j : Nat} (h : j < 10) : ∃ groups zeros us, Leads j groups zeros us := by
  by_cases hone : j < 8
  · exact ⟨_, _, _, leads_lead ⟨j, hone⟩⟩
  · exact ⟨_, _, _, leads_zeros (by omega) h⟩

/-- The bytes that a reader takes from the groups. -/
def leadIn (k groups : Nat) (us : List (UInt8 × Nat)) : List (UInt8 × Nat) :=
  us ++ List.replicate (k - groups) (0xFF, 2)

section Leads

variable {j k groups zeros : Nat} {us : List (UInt8 × Nat)} (h : Leads j groups zeros us)
include h

theorem Leads.high_leadIn : ∀ v ∈ leadIn k groups us, v.1 &&& 0x80 != 0 := by
  intro v hv
  rcases List.mem_append.mp hv with hv | hv
  · exact h.high v hv
  · rw [List.eq_of_mem_replicate hv]
    decide

theorem Leads.length_leadIn_le (hk : 4 ≤ k) : (leadIn k groups us).length ≤ k := by
  have hgroups := h.groups_le
  have hlength := h.length_le
  rw [leadIn, List.length_append, List.length_replicate]
  omega

/-- From bit `j` on the groups are the bits of these bytes. -/
theorem Leads.split (hk : 4 ≤ k) : ∃ before : List Bool, before.length = j ∧
    allBits (List.replicate k .sync) = before ++ (List.replicate zeros false ++ spacedBits (leadIn k groups us)) := by
  have hgroups := h.groups_le
  have hinside := h.inside
  obtain ⟨more, rfl⟩ : ∃ more, k = groups + more := ⟨k - groups, by omega⟩
  have hmore : allBits (List.replicate more .sync) = spacedBits (List.replicate more (0xFF, 2)) := by
    rw [allBits_eq_spacedBits, List.map_replicate]
    rfl
  refine ⟨(allBits (List.replicate groups .sync)).take j, ?_, ?_⟩
  · rw [List.length_take, length_allBits, List.length_replicate, List.count_replicate_self]
    omega
  · calc allBits (List.replicate (groups + more) .sync)
        = allBits (List.replicate groups .sync) ++ allBits (List.replicate more .sync) := by
          rw [← List.replicate_append_replicate, allBits_append]
      _ = (allBits (List.replicate groups .sync)).take j ++ (allBits (List.replicate groups .sync)).drop j ++
            spacedBits (List.replicate more (0xFF, 2)) := by rw [List.take_append_drop, hmore]
      _ = _ := by
          rw [h.bits, leadIn, Nat.add_sub_cancel_left, spacedBits_append, List.append_assoc, List.append_assoc]

end Leads

/-- **Self-synchronisation.** A reader that starts anywhere in the first of some groups of eight 1 bits and two 0 bits
reads the nibbles behind them, after no more bytes than there are groups.  Four groups are enough. -/
theorem nextBytes_synchronizes {d : Drive} (h : d.OnTrack) {k place j : Nat} {vs : List (UInt8 × Nat)} (hk : 4 ≤ k)
    (hj : j < 10) (hvs : ∀ v ∈ vs, v.1 &&& 0x80 != 0)
    (hlies : d.LiesAt place (allBits (List.replicate k .sync) ++ spacedBits vs))
    (hfit : (allBits (List.replicate k .sync) ++ spacedBits vs).length ≤ d.track.bits)
    (hloc : d.location % d.track.bits = (place + j) % d.track.bits) :
    ∃ first : List UInt8, first.length ≤ k ∧ (∀ b ∈ first, b &&& 0x80 != 0) ∧
      (nextBytes (first.length + vs.length) d).1 = first ++ vs.map Prod.fst := by
  obtain ⟨groups, zeros, us, hleads⟩ := exists_leads hj
  obtain ⟨before, rfl, hsplit⟩ := hleads.split hk
  have hhigh : ∀ v ∈ leadIn k groups us, v.1 &&& 0x80 != 0 := hleads.high_leadIn
  rw [hsplit, List.append_assoc, List.append_assoc, ← spacedBits_append] at hlies hfit
  rw [List.length_append, List.length_append, List.length_replicate] at hfit
  refine ⟨(leadIn k groups us).map Prod.fst, ?_, ?_, ?_⟩
  · rw [List.length_map]
    exact hleads.length_leadIn_le hk
  · intro b hb
    obtain ⟨v, hv, rfl⟩ := List.mem_map.mp hb
    exact hhigh v hv
  · have hread := h.nextBytes_of_liesAt (fun v hv => ?_) hlies.right (by omega) hloc
    · rwa [List.length_append, List.map_append, ← List.length_map (f := Prod.fst)] at hread
    · rcases List.mem_append.mp hv with hv | hv
      · exact hhigh v hv
      · exact hvs v hv

/-- A track of eight bytes, with four groups from its bit 60 on: a reader that starts in the last 1 bit of the first
group is in step at the fifth byte. -/
theorem nextBytes_synchronizes_slipped :
    let vs : List (UInt8 × Nat) := [(0xD5, 3), (0xAA, 5)]
    let d : Drive :=
      { image := #[0x00, 0xF3, 0xFC, 0xFF, 0x3F, 0xCD, 0x51, 0x54, 0x0F]
        tracks := Vector.replicate _ { start := 1, bits := 64 }
        location := 67 }
    d.OnTrack ∧ d.LiesAt 60 (allBits (List.replicate 4 .sync) ++ spacedBits vs) ∧
      ∃ first : List UInt8, first.length ≤ 4 ∧ (∀ b ∈ first, b &&& 0x80 != 0) ∧
        (nextBytes (first.length + 2) d).1 = first ++ [0xD5, 0xAA] := by
  intro vs d
  have htrack : d.OnTrack := ⟨by decide, by decide, by decide⟩
  have hlies : d.LiesAt 60 (allBits (List.replicate 4 .sync) ++ spacedBits vs) := by
    unfold LiesAt
    decide
  exact ⟨htrack, hlies, nextBytes_synchronizes (j := 7) htrack (by decide) (by decide) (by decide) hlies (by decide)
    (by decide)⟩

end Drive

end AppleII.Disk
