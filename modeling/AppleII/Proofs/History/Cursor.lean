import AppleII.Proofs.History.Timeline

/-!
# Moving the cursor of a history

Whatever way the cursor is asked to move, it comes to a filled slot, or it stays (`History.Moved`).  A step forward
takes back the step back before it (`History.stepForward_stepBackward`).
-/

namespace AppleII

namespace History

variable {α : Type} {h h' : History α} {present : α} {found : Option α}

/-- What stands in a slot was there before, or was filled in. -/
theorem slot_of_fill {i j : Fin capacity} {a : α} (hj : (h.fill i present).slot j = some a) :
    h.slot j = some a ∨ a = present := by
  by_cases hi : i = j
  · rw [← hi, slot_fill_self] at hj
    exact .inr (Option.some.inj hj).symm
  · rw [slot_fill_of_ne h present hi] at hj
    exact .inl hj

theorem slot_of_push {j : Fin capacity} {a : α} (hj : (h.push present).slot j = some a) :
    h.slot j = some a ∨ a = present := by
  have hfill : (h.fill (h.newest + 1) present).slot j = some a := hj
  exact slot_of_fill hfill

/-- A cursor was moved: either it stands on a filled slot, whose state was found, or it has stayed.  At most the
present state is new in the history, in the newest slot, and only when the cursor stood there. -/
structure Moved (h : History α) (present : α) (found : Option α) (h' : History α) : Prop where
  newest : h'.newest = h.newest
  others : ∀ {i : Fin capacity}, i ≠ h.newest → h'.slot i = h.slot i
  slots : ∀ {i : Fin capacity} {a : α}, h'.slot i = some a → h.slot i = some a ∨ a = present
  arrives : ∀ {a : α}, found = some a → h'.slot h'.cursor = some a
  stays : found = none → h'.cursor = h.cursor ∧ (h.cursor ≠ h.newest → h' = h)

theorem moved_refused (h : History α) (present : α) : h.Moved present none h where
  newest := rfl
  others _ := rfl
  slots := .inl
  arrives := nofun
  stays _ := ⟨rfl, fun _ => rfl⟩

theorem moved_goTo {i : Fin capacity} (filled : (h.slot i).isSome) (present : α) :
    h.Moved present (h.goTo i).1 (h.goTo i).2 where
  newest := rfl
  others _ := rfl
  slots := .inl
  arrives := id
  stays hnone := by
    have hnone : h.slot i = none := hnone
    rw [hnone] at filled
    cases filled

/-- The present state may be filled in before, if the cursor stands on the newest slot. -/
theorem Moved.of_fill (hmoved : (h.fill h.newest present).Moved present found h') (hnew : h.cursor = h.newest) :
    h.Moved present found h' where
  newest := hmoved.newest
  others hi := (hmoved.others hi).trans (slot_fill_of_ne h present (Ne.symm hi))
  slots := by
    intro i a hi
    rcases hmoved.slots hi with hslot | hpresent
    · exact slot_of_fill hslot
    · exact .inr hpresent
  arrives := hmoved.arrives
  stays hnone := ⟨(hmoved.stays hnone).1, fun hne => absurd hnew hne⟩

/-- A step back, once the present state is in its place. -/
theorem moved_back (h : History α) (present : α) :
    h.Moved present (if h.canGoBack then h.goTo (h.cursor - 1) else (none, h)).1
      (if h.canGoBack then h.goTo (h.cursor - 1) else (none, h)).2 := by
  split
  · next hback =>
    have hfilled : (h.slot (h.cursor - 1)).isSome := (Bool.and_eq_true_iff.mp hback).2
    exact moved_goTo hfilled present
  · exact moved_refused h present

theorem moved_stepBackward (h : History α) (present : α) :
    h.Moved present (h.stepBackward present).1 (h.stepBackward present).2 := by
  unfold stepBackward
  by_cases hnew : h.cursor = h.newest
  · simp only [if_pos hnew]
    exact (moved_back _ present).of_fill hnew
  · simp only [if_neg hnew]
    exact moved_back h present

/-- What is filled in at the newest slot does not open the way back. -/
theorem canGoBack_fill (h : History α) (present : α) : (h.fill h.newest present).canGoBack = h.canGoBack := by
  unfold canGoBack
  by_cases hoff : h.cursor - 1 = h.newest
  · simp [fill, hoff]
  · have hslot := slot_fill_of_ne h present (Ne.symm hoff)
    show ((h.cursor - 1 != h.newest) && ((h.fill h.newest present).slot (h.cursor - 1)).isSome) = _
    rw [hslot]

/-- A step back from the newest slot, where the present state is left behind. -/
theorem stepBackward_of_newest (hnew : h.cursor = h.newest) (hback : h.canGoBack = true) :
    h.stepBackward present = (h.fill h.newest present).goTo (h.cursor - 1) := by
  unfold stepBackward
  dsimp only
  rw [if_pos hnew, if_pos ((h.canGoBack_fill present).trans hback)]
  rfl

/-- A step back comes to the slot before the cursor when it can. -/
theorem stepBackward_cases (h : History α) (present : α) :
    if h.canGoBack then
      (h.stepBackward present).1 = h.slot (h.cursor - 1) ∧ (h.stepBackward present).2.cursor = h.cursor - 1
    else (h.stepBackward present).1 = none := by
  by_cases hnew : h.cursor = h.newest
  · split
    · next hback =>
      rw [stepBackward_of_newest hnew hback]
      have hne : h.newest ≠ h.cursor - 1 := fun heq => by simp [canGoBack, ← heq] at hback
      exact ⟨slot_fill_of_ne h present hne, rfl⟩
    · next hback =>
      simp only [stepBackward, if_pos hnew, canGoBack_fill, if_neg hback]
  · simp only [stepBackward, if_neg hnew]
    split
    · exact ⟨rfl, rfl⟩
    · rfl

theorem cursor_stepBackward_ne (hne : h.cursor ≠ h.newest) (hback : h.canGoBack = true) (present : α) :
    (h.stepBackward present).2.cursor ≠ h.cursor := by
  unfold stepBackward
  dsimp only
  rw [if_neg hne, if_pos hback]
  show h.cursor - 1 ≠ h.cursor
  grind

theorem moved_stepForward (h : History α) (present : α) : h.Moved present h.stepForward.1 h.stepForward.2 := by
  unfold stepForward
  split
  · next hforward =>
    have hfilled : (h.slot (h.cursor + 1)).isSome := (Bool.and_eq_true_iff.mp hforward).2
    exact moved_goTo hfilled present
  · exact moved_refused h present

theorem moved_jumpTo (h : History α) (index : Nat) (present : α) :
    h.Moved present (h.jumpTo index).1 (h.jumpTo index).2 := by
  unfold jumpTo
  split
  · dsimp only
    split
    · next hfilled => exact moved_goTo hfilled present
    · exact moved_refused h present
  · exact moved_refused h present

/-- The slot that a step back leaves is found again by the step forward. -/
theorem stepForward_stepBackward (hmoved : (h.stepBackward present).2.cursor ≠ h.cursor)
    (hfilled : h.cursor ≠ h.newest → (h.slot h.cursor).isSome) :
    (h.stepBackward present).2.stepForward.1 = (if h.cursor = h.newest then some present else h.slot h.cursor) ∧
      (h.stepBackward present).2.stepForward.2.cursor = h.cursor := by
  -- `h₁` is the history with the present state in its place.
  obtain ⟨h₁, hcursor, hslot, hsome, hback⟩ : ∃ h₁ : History α, h₁.cursor = h.cursor ∧
      h₁.slot h.cursor = (if h.cursor = h.newest then some present else h.slot h.cursor) ∧
      (h₁.slot h.cursor).isSome ∧
      h.stepBackward present = if h₁.canGoBack then h₁.goTo (h₁.cursor - 1) else (none, h₁) := by
    unfold stepBackward
    by_cases hnew : h.cursor = h.newest
    · refine ⟨h.fill h.newest present, rfl, ?_, ?_, ?_⟩
      · rw [if_pos hnew, hnew, slot_fill_self]
      · rw [hnew, slot_fill_self, Option.isSome_some]
      · rw [if_pos hnew]
    · refine ⟨h, rfl, ?_, hfilled hnew, ?_⟩
      · rw [if_neg hnew]
      · rw [if_neg hnew]
  rw [hback] at hmoved ⊢
  have hcan : h₁.canGoBack = true := by
    by_contra hstays
    rw [if_neg hstays] at hmoved
    exact hmoved hcursor
  have hnewest : (h₁.cursor - 1 != h₁.newest) = true := (Bool.and_eq_true_iff.mp hcan).1
  have hnext : h₁.cursor - 1 + 1 = h.cursor := by grind
  rw [if_pos hcan]
  have hforward : (h₁.goTo (h₁.cursor - 1)).2.canGoForward = true := by
    refine Bool.and_eq_true_iff.mpr ⟨hnewest, ?_⟩
    show (h₁.slot (h₁.cursor - 1 + 1)).isSome = true
    rw [hnext]
    exact hsome
  rw [stepForward, if_pos hforward, ← hslot, ← hnext]
  exact ⟨rfl, rfl⟩

end History

end AppleII
