import AppleII.Proofs.Scheduler.TimeTravel

/-!
# What time travel shows

A command to travel selects a filled slot of the history, or none (`Command.Selects`).  Either way the machine is
paused; it has the state that stands in the slot of the cursor, or nothing has changed (`travel_shows_cursor`).  As
many steps forward as there were steps back from the newest slot, or more, take the machine back to the state that it
had (`Scheduler.Returns`): the first step back records that state in the newest slot, and no other slot is ever
written to.
-/

namespace AppleII

open Disk (Image)
open History (capacity)

/-! ## The selected slot -/

/-- A command to travel selects a filled slot: the one before the cursor, unless that is the newest one again; the one
after the cursor, unless the cursor stands on the newest one; or the one with a number. -/
inductive Command.Selects (h : History SaveState) : Command → Fin capacity → Prop
  | backward {i : Fin capacity} (filled : (h.slot i).isSome) (before : i = h.cursor - 1) (older : i ≠ h.newest) :
    Selects h .timeTravelBackward i
  | forward {i : Fin capacity} (filled : (h.slot i).isSome) (behind : i = h.cursor + 1) (older : h.cursor ≠ h.newest) :
    Selects h .timeTravelForward i
  | index {i : Fin capacity} (filled : (h.slot i).isSome) : Selects h (.timeTravelIndex i.val) i

/-- The commands that travel in time. -/
def Command.travels (c : Command) : Bool := c.move?.isSome

section Selection

variable {h : History SaveState} {c : Command} {move : History.Move SaveState} {i : Fin capacity}

theorem Command.selects_backward_iff :
    Command.timeTravelBackward.Selects h i ↔ h.canGoBack = true ∧ i = h.cursor - 1 := by
  unfold History.canGoBack
  rw [Bool.and_eq_true_iff, bne_iff_ne]
  constructor
  · intro hi
    cases hi with
    | backward hfilled hbefore holder =>
      subst hbefore
      exact ⟨⟨holder, hfilled⟩, rfl⟩
  · rintro ⟨⟨holder, hfilled⟩, rfl⟩
    exact .backward hfilled rfl holder

theorem Command.selects_forward_iff :
    Command.timeTravelForward.Selects h i ↔ h.canGoForward = true ∧ i = h.cursor + 1 := by
  unfold History.canGoForward
  rw [Bool.and_eq_true_iff, bne_iff_ne]
  constructor
  · intro hi
    cases hi with
    | forward hfilled hbehind holder =>
      subst hbehind
      exact ⟨⟨holder, hfilled⟩, rfl⟩
  · rintro ⟨⟨holder, hfilled⟩, rfl⟩
    exact .forward hfilled rfl holder

theorem Command.selects_index_iff {index : Nat} :
    (Command.timeTravelIndex index).Selects h i ↔ i.val = index ∧ (h.slot i).isSome := by
  constructor
  · intro hi
    cases hi with
    | index hfilled => exact ⟨rfl, hfilled⟩
  · rintro ⟨rfl, hfilled⟩
    exact .index hfilled

/-- The cursor goes to the slot that is selected. -/
theorem Command.move_of_selects (hc : c.move? = some move) (hi : c.Selects h i) (present : SaveState) :
    (move present h).1.isSome ∧ (move present h).2.cursor = i := by
  cases c with
  | timeTravelBackward =>
    cases hc
    obtain ⟨hback, rfl⟩ := Command.selects_backward_iff.mp hi
    have hcases := h.stepBackward_cases present
    rw [if_pos hback] at hcases
    exact ⟨hcases.1 ▸ (Bool.and_eq_true_iff.mp hback).2, hcases.2⟩
  | timeTravelForward =>
    cases hc
    obtain ⟨hforward, rfl⟩ := Command.selects_forward_iff.mp hi
    dsimp only
    rw [History.stepForward, if_pos hforward]
    exact ⟨(Bool.and_eq_true_iff.mp hforward).2, rfl⟩
  | timeTravelIndex index =>
    cases hc
    obtain ⟨rfl, hfilled⟩ := Command.selects_index_iff.mp hi
    dsimp only
    rw [History.jumpTo, dif_pos i.isLt, if_pos hfilled]
    exact ⟨hfilled, rfl⟩
  | _ => cases hc

/-- Where no slot is selected none is found. -/
theorem Command.move_of_not_selects (hc : c.move? = some move) (hnone : ∀ i, ¬c.Selects h i) (present : SaveState) :
    (move present h).1 = none := by
  cases c with
  | timeTravelBackward =>
    cases hc
    have hstays : ¬h.canGoBack = true := fun hback => hnone _ (Command.selects_backward_iff.mpr ⟨hback, rfl⟩)
    have hcases := h.stepBackward_cases present
    rwa [if_neg hstays] at hcases
  | timeTravelForward =>
    cases hc
    have hstays : ¬h.canGoForward = true := fun hforward =>
      hnone _ (Command.selects_forward_iff.mpr ⟨hforward, rfl⟩)
    dsimp only
    rw [History.stepForward, if_neg hstays]
  | timeTravelIndex index =>
    cases hc
    dsimp only
    unfold History.jumpTo
    split
    · next hi =>
      have hempty : ¬(h.slot ⟨index, hi⟩).isSome := fun hfilled =>
        hnone ⟨index, hi⟩ (Command.selects_index_iff.mpr ⟨rfl, hfilled⟩)
      dsimp only
      rw [if_neg hempty]
    · rfl
  | _ => cases hc

end Selection

namespace Scheduler

variable {s s₀ : Scheduler} {c : Command}

/-- After a command to travel the machine is paused and has the state of the slot that was selected; if none was,
neither its state nor the cursor has changed.  No slot but the newest one has. -/
theorem Recallable.shows_cursor (hs : s.Recallable) (hc : c.travels = true) (time : Nat) :
    let s' := s.after [.command time c]
    s'.state = .paused ∧
      (∀ i, c.Selects s.history i →
        s'.history.cursor = i ∧ s'.history.slot i = some s'.machine.saveState) ∧
      ((∀ i, ¬c.Selects s.history i) →
        s'.history.cursor = s.history.cursor ∧ s'.machine.saveState = s.machine.saveState) ∧
      s'.history.newest = s.history.newest ∧
      ∀ i, i ≠ s.history.newest → s'.history.slot i = s.history.slot i := by
  obtain ⟨move, hmove⟩ := Option.isSome_iff_exists.mp hc
  have hmoved := Command.moved_of_move? hmove s.machine.saveState s.history
  have hhistory := history_after_travel hmove s time
  have hstate := hs.saveState_after_travel hmove time
  have hpaused : (s.after [.command time c]).state = .paused := by
    rw [after_travel hmove]
    exact state_travel _ _
  dsimp only
  rw [hhistory, hstate]
  refine ⟨hpaused, fun i hi => ?_, fun hnone => ?_, hmoved.newest, fun i hi => hmoved.others hi⟩
  · obtain ⟨hsome, hcursor⟩ := Command.move_of_selects hmove hi s.machine.saveState
    obtain ⟨state, hfound⟩ := Option.isSome_iff_exists.mp hsome
    refine ⟨hcursor, ?_⟩
    rw [← hcursor, hmoved.arrives hfound, hfound]
    rfl
  · have hfound := Command.move_of_not_selects hmove hnone s.machine.saveState
    exact ⟨(hmoved.stays hfound).1, by rw [hfound]; rfl⟩

/-! ## Back and forth -/

/-- The history of a scheduler stays one of a timeline. -/
theorem exists_describes_react {t : Timeline SaveState} (ht : t.Describes s.history) (i : Input) :
    ∃ t' : Timeline SaveState, t'.Describes (react i s).2.history := by
  cases i with
  | tick time now =>
    show ∃ t' : Timeline SaveState, t'.Describes ((s.atTime time).tick now).2.history
    rcases history_tick (s.atTime time) now with heq | hpushed
    · exact ⟨t, heq ▸ ht⟩
    · exact ⟨_, hpushed ▸ ht.push _⟩
  | command time c =>
    show ∃ t' : Timeline SaveState, t'.Describes ((s.atTime time).handle c).2.history
    cases hc : c.move? with
    | none => exact ⟨t, history_handle hc (s.atTime time) ▸ ht⟩
    | some move =>
      rw [handle_of_move hc, history_travel]
      cases c with
      | timeTravelBackward =>
        cases hc
        exact ⟨_, (ht.stepBackward _).2⟩
      | timeTravelForward =>
        cases hc
        exact ⟨_, ht.stepForward.2⟩
      | timeTravelIndex index =>
        cases hc
        exact ⟨_, (ht.jumpTo index).2⟩
      | _ => cases hc

theorem exists_describes_after (hhistory : s₀.history = .empty) (inputs : List Input) :
    ∃ t : Timeline SaveState, t.Describes (s₀.after inputs).history := by
  induction inputs using List.reverseRecOn with
  | nil => exact ⟨.empty, hhistory ▸ Timeline.describes_empty⟩
  | append_singleton inputs i ih =>
    obtain ⟨t, ht⟩ := ih
    rw [after_concat]
    exact exists_describes_react ht i

/-- At most `k` steps forward take the machine to a state: it has the state at the newest slot, or the state stands
there. -/
structure Returns (s : Scheduler) (state : SaveState) (k : Nat) : Prop where
  recallable : s.Recallable
  timeline : ∃ t : Timeline SaveState, t.Describes s.history ∧ t.back ≤ k ∧
    if t.back = 0 then s.machine.saveState = state else t.ago 0 = some state

namespace Returns

variable {state : SaveState} {k : Nat}

theorem of_newest (hs : s.Recallable) {t : Timeline SaveState} (ht : t.Describes s.history)
    (hnew : s.history.cursor = s.history.newest) : s.Returns s.machine.saveState 0 := by
  have hback := ht.cursor_eq_newest_iff.mp hnew
  refine ⟨hs, t, ht, hback.le, ?_⟩
  rw [if_pos hback]

/-- A step back leads at most one step further away: the state is recorded before it is left. -/
theorem backward (h : s.Returns state k) (time : Nat) :
    (s.after [.command time .timeTravelBackward]).Returns state (k + 1) := by
  obtain ⟨hs, t, ht, hle, hstate⟩ := h
  have hhistory := history_after_travel (c := .timeTravelBackward) rfl s time
  have hsaved := hs.saveState_after_travel (c := .timeTravelBackward) rfl time
  obtain ⟨hanswer, hdescribes⟩ := ht.stepBackward s.machine.saveState
  obtain ⟨hago, hback⟩ := t.stepBackward_cases s.machine.saveState
  refine ⟨hs.after (List.forall_mem_singleton.mpr trivial), _, hhistory ▸ hdescribes, ?_, ?_⟩
  · rcases hback with hback | ⟨hback, -⟩ <;> omega
  · rw [hago]
    by_cases hzero : t.back = 0
    · rw [if_pos hzero] at hstate ⊢
      subst hstate
      split
      · next hstill =>
        obtain hmoved | ⟨-, hnone⟩ := hback
        · omega
        · rw [hsaved, hanswer, hnone]
          rfl
      · rfl
    · rw [if_neg hzero] at hstate ⊢
      rw [if_neg (by rcases hback with hback | ⟨hback, -⟩ <;> omega)]
      exact hstate

/-- A step forward leads a step nearer, up to the state itself. -/
theorem forward (h : s.Returns state k) (time : Nat) :
    (s.after [.command time .timeTravelForward]).Returns state (k - 1) := by
  obtain ⟨hs, t, ht, hle, hstate⟩ := h
  have hhistory := history_after_travel (c := .timeTravelForward) rfl s time
  have hsaved := hs.saveState_after_travel (c := .timeTravelForward) rfl time
  obtain ⟨hanswer, hdescribes⟩ := ht.stepForward
  obtain ⟨hago, hback, hfound⟩ := t.stepForward_cases
  refine ⟨hs.after (List.forall_mem_singleton.mpr trivial), _, hhistory ▸ hdescribes, by omega, ?_⟩
  rw [hago, hsaved, hanswer, hfound, hback]
  by_cases hzero : t.back = 0
  · rw [if_pos hzero] at hstate ⊢
    rw [if_pos (by omega)]
    exact hstate
  · rw [if_neg hzero] at hstate ⊢
    split
    · next hone =>
      rw [hone, hstate]
      rfl
    · exact hstate

theorem backwards (h : s.Returns state k) (times : List Nat) :
    (s.after (times.map (.command · .timeTravelBackward))).Returns state (k + times.length) := by
  induction times generalizing s k with
  | nil => exact h
  | cons time times ih =>
    have hrest := ih (h.backward time)
    rw [List.length_cons, Nat.add_comm times.length, ← Nat.add_assoc]
    exact hrest

theorem forwards (h : s.Returns state k) (times : List Nat) :
    (s.after (times.map (.command · .timeTravelForward))).Returns state (k - times.length) := by
  induction times generalizing s k with
  | nil => exact h
  | cons time times ih =>
    have hrest := ih (h.forward time)
    rw [List.length_cons, Nat.add_comm times.length, ← Nat.sub_sub]
    exact hrest

/-- No more steps are needed. -/
theorem returned (h : s.Returns state 0) :
    s.history.cursor = s.history.newest ∧ s.machine.saveState = state := by
  obtain ⟨-, t, ht, hle, hstate⟩ := h
  have hzero : t.back = 0 := by omega
  rw [if_pos hzero] at hstate
  exact ⟨ht.cursor_eq_newest_iff.mpr hzero, hstate⟩

end Returns

end Scheduler

/-- **Time travel shows what the cursor says.** Whatever has reached a scheduler whose history was empty at first, a
command to travel pauses it.  If the command selects a slot, the cursor goes there and the machine has the state of
that slot; if it selects none, the cursor and the state of the machine are what they were.  The state of no slot but
the newest one is ever altered.  From the newest slot, any number of steps back and as many steps forward, or more,
end there with the state that the machine had. -/
theorem travel_shows_cursor {s₀ : Scheduler} (hmachine : s₀.machine.Restorable) (hhistory : s₀.history = .empty)
    {inputs : List Input} (hfits : ∀ i ∈ inputs, i.Fits Image.Whole) :
    let s := s₀.after inputs
    (∀ (c : Command) (time : Nat), c.travels = true →
      let s' := s.after [.command time c]
      s'.state = .paused ∧
        (∀ i, c.Selects s.history i →
          s'.history.cursor = i ∧ s'.history.slot i = some s'.machine.saveState) ∧
        ((∀ i, ¬c.Selects s.history i) →
          s'.history.cursor = s.history.cursor ∧ s'.machine.saveState = s.machine.saveState) ∧
        s'.history.newest = s.history.newest ∧
        ∀ i, i ≠ s.history.newest → s'.history.slot i = s.history.slot i) ∧
      (s.history.cursor = s.history.newest → ∀ back forth : List Nat, back.length ≤ forth.length →
        let s' := (s.after (back.map (.command · .timeTravelBackward))).after
          (forth.map (.command · .timeTravelForward))
        s'.history.cursor = s'.history.newest ∧ s'.machine.saveState = s.machine.saveState) := by
  intro s
  have hs : s.Recallable := (Scheduler.Recallable.of_empty hmachine hhistory).after hfits
  refine ⟨fun c time hc => hs.shows_cursor hc time, fun hnew back forth hlength => ?_⟩
  obtain ⟨t, ht⟩ := Scheduler.exists_describes_after hhistory inputs
  have hreturns := ((Scheduler.Returns.of_newest hs ht hnew).backwards back).forwards forth
  have hnone : 0 + back.length - forth.length = 0 := by omega
  rw [hnone] at hreturns
  exact hreturns.returned

/-- From the newest of two snapshots a step back leads to the one before it; two steps back and two forward lead to the
present state, though there is only one snapshot to go back to. -/
theorem travel_shows_cursor_twoSnapshots :
    let s₀ : Scheduler := { machine := .ofModel .cmos }
    let s := s₀.after twoSnapshots
    let s' := s.after [.command 0 .timeTravelBackward]
    let s'' := (s.after [.command 0 .timeTravelBackward, .command 0 .timeTravelBackward]).after
      [.command 0 .timeTravelForward, .command 0 .timeTravelForward]
    s₀.machine.Restorable ∧ s₀.history = .empty ∧ (∀ i ∈ twoSnapshots, i.Fits Image.Whole) ∧
      Command.timeTravelBackward.travels = true ∧ Command.timeTravelBackward.Selects s.history 1 ∧
      s'.history.slot 1 = some s'.machine.saveState ∧
      s.history.cursor = s.history.newest ∧ s''.machine.saveState = s.machine.saveState := by
  have hmachine : (Machine.ofModel .cmos).Restorable := Machine.restorable_ofModel .cmos
  obtain ⟨hshows, hreturns⟩ :=
    @travel_shows_cursor { machine := .ofModel .cmos } hmachine rfl twoSnapshots fits_twoSnapshots
  obtain ⟨hcursor, hnewest, -, hfilled⟩ := history_twoSnapshots
  dsimp only at hcursor hnewest hfilled ⊢
  have hnew := hcursor.trans hnewest.symm
  have hselects : Command.timeTravelBackward.Selects
      (Scheduler.after { machine := .ofModel .cmos } twoSnapshots).history 1 := by
    refine .backward ?_ (by rw [hcursor]; decide) (by rw [hnewest]; decide)
    rw [← Option.isSome_map, hfilled]
    rfl
  exact ⟨hmachine, rfl, fits_twoSnapshots, rfl, hselects, ((hshows _ 0 rfl).2.1 1 hselects).2, hnew,
    (hreturns hnew [0, 0] [0, 0] (Nat.le_refl _)).2⟩

end AppleII
