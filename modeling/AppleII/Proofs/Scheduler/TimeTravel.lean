import AppleII.Proofs.Scheduler.Recall

/-!
# There and back in time

A step forward takes back the step backward before it: the machine has its state again
(`backward_then_forward`).  From the newest slot this is so whatever was executed, since the present state is recorded
there first.  From an older slot nothing is recorded: the machine comes back as it was when the cursor came there, and
what was changed since then is lost (`changed_in_the_past`).
-/

namespace AppleII

open Disk (Image)

namespace Scheduler

/-- A command to travel took the cursor to where it stands, and left the machine in a state.  Since then the history
has not changed. -/
inductive Arrived (s₀ : Scheduler) (inputs : List Input) (state : SaveState) : Prop
  | intro (front : List Input) (time : Nat) (c : Command) (back : List Input)
      (split : inputs = front ++ .command time c :: back) (travels : c.move?.isSome)
      (arrival : (s₀.after (front ++ [.command time c])).machine.saveState = state)
      (unchanged : (s₀.after inputs).history = (s₀.after (front ++ [.command time c])).history)

variable {s s₀ : Scheduler} {inputs : List Input}

/-- The slot that a step backward leaves is the one that the step forward comes to. -/
theorem Recallable.after_backward_forward (hs : s.Recallable) {time : Nat}
    (hmoved : (s.after [.command time .timeTravelBackward]).history.cursor ≠ s.history.cursor)
    (hfilled : s.history.cursor ≠ s.history.newest → (s.history.slot s.history.cursor).isSome) (time' : Nat) :
    let s'' := (s.after [.command time .timeTravelBackward]).after [.command time' .timeTravelForward]
    s''.history.cursor = s.history.cursor ∧
      some s''.machine.saveState =
        if s.history.cursor = s.history.newest then some s.machine.saveState else s.history.slot s.history.cursor := by
  have hs' : (s.after [.command time .timeTravelBackward]).Recallable :=
    hs.after (List.forall_mem_singleton.mpr trivial)
  have hbackward := history_after_travel (c := .timeTravelBackward) rfl s time
  generalize s.after [.command time .timeTravelBackward] = s' at hmoved hs' hbackward
  dsimp only
  have hforward := history_after_travel (c := .timeTravelForward) rfl s' time'
  have hstate := hs'.saveState_after_travel (c := .timeTravelForward) rfl time'
  generalize s'.after [.command time' .timeTravelForward] = s'' at hforward hstate
  rw [hbackward] at hmoved hforward hstate
  obtain ⟨hfound, hcursor⟩ := History.stepForward_stepBackward hmoved hfilled
  rw [hfound] at hstate
  refine ⟨hforward ▸ hcursor, ?_⟩
  rw [hstate]
  split
  · rfl
  · next hne =>
    obtain ⟨state, hslot⟩ := Option.isSome_iff_exists.mp (hfilled hne)
    rw [hslot]
    rfl

theorem Arrived.later {state : SaveState} (h : s₀.Arrived inputs state) {i : Input}
    (hhistory : (s₀.after (inputs ++ [i])).history = (s₀.after inputs).history) :
    s₀.Arrived (inputs ++ [i]) state := by
  obtain ⟨front, time, c, back, rfl, travels, arrival, unchanged⟩ := h
  refine ⟨front, time, c, back ++ [i], ?_, travels, arrival, hhistory.trans unchanged⟩
  rw [List.append_assoc, List.cons_append]

/-- An older slot at the cursor is filled, with the state in which the machine came to it. -/
theorem arrived_of_ne (hs₀ : s₀.Recallable) (hhistory : s₀.history = .empty)
    (hfits : ∀ i ∈ inputs, i.Fits Image.Whole)
    (hne : (s₀.after inputs).history.cursor ≠ (s₀.after inputs).history.newest) :
    ∃ state, (s₀.after inputs).history.slot (s₀.after inputs).history.cursor = some state ∧
      s₀.Arrived inputs state := by
  -- By induction on the inputs: the last one leaves the history alone, records a state, or moves the cursor.
  induction inputs using List.reverseRecOn with
  | nil =>
    have hnil : (s₀.after []).history = .empty := hhistory
    rw [hnil] at hne
    exact absurd rfl hne
  | append_singleton inputs i ih =>
    obtain ⟨hbefore, hlast⟩ := List.forall_mem_append.mp hfits
    have hs := hs₀.after hbefore
    have hafter := s₀.after_concat inputs i
    have hkept (heq : (s₀.after (inputs ++ [i])).history = (s₀.after inputs).history) :
        ∃ state, (s₀.after (inputs ++ [i])).history.slot (s₀.after (inputs ++ [i])).history.cursor = some state ∧
          s₀.Arrived (inputs ++ [i]) state := by
      obtain ⟨state, hslot, harrived⟩ := ih hbefore (heq ▸ hne)
      exact ⟨state, heq ▸ hslot, harrived.later heq⟩
    cases i with
    | tick time now =>
      rcases history_tick ((s₀.after inputs).atTime time) now with heq | hpushed
      · exact hkept ((congrArg history hafter).trans heq)
      · -- The cursor goes to a state that is recorded.
        have hpushed := (congrArg history hafter).trans hpushed
        rw [hpushed] at hne
        exact absurd rfl hne
    | command time c =>
      cases hc : c.move? with
      | none => exact hkept ((congrArg history hafter).trans (history_handle hc _))
      | some move =>
        have hmoved := Command.moved_of_move? hc (s₀.after inputs).machine.saveState (s₀.after inputs).history
        have heq := history_after_travel hc (s₀.after inputs) time
        have hstate := hs.saveState_after_travel hc time
        rw [← after_append] at heq hstate
        cases hfound : (move (s₀.after inputs).machine.saveState (s₀.after inputs).history).1 with
        | some state =>
          rw [hfound] at hstate
          refine ⟨state, ?_, inputs, time, c, [], rfl, by rw [hc]; rfl, hstate, rfl⟩
          rw [heq]
          exact hmoved.arrives hfound
        | none =>
          obtain ⟨hcursor, hsame⟩ := hmoved.stays hfound
          rw [heq, hcursor, hmoved.newest] at hne
          exact hkept (heq.trans (hsame hne))

end Scheduler

/-- **There and back in time.** Whatever has reached a scheduler whose history was empty at first, if a step backward
moves the cursor, a step forward right after it takes the cursor back.  Had the cursor stood at the newest slot, then
the machine has the state again that it had before the step backward.  Otherwise it has the state of the slot, in which
it had come there, however it was changed since then. -/
theorem backward_then_forward {s₀ : Scheduler} (hmachine : s₀.machine.Restorable) (hhistory : s₀.history = .empty)
    {inputs : List Input} (hfits : ∀ i ∈ inputs, i.Fits Image.Whole) (time time' : Nat) :
    let s := s₀.after inputs
    let s' := s.after [.command time .timeTravelBackward]
    let s'' := s'.after [.command time' .timeTravelForward]
    s'.history.cursor ≠ s.history.cursor →
      s''.history.cursor = s.history.cursor ∧
        (s.history.cursor = s.history.newest → s''.machine.saveState = s.machine.saveState) ∧
        (s.history.cursor ≠ s.history.newest →
          s.history.slot s.history.cursor = some s''.machine.saveState ∧ s₀.Arrived inputs s''.machine.saveState) := by
  intro s s' s'' hmoved
  have hs₀ : s₀.Recallable := .of_empty hmachine hhistory
  have hs : s.Recallable := hs₀.after hfits
  have harrived := Scheduler.arrived_of_ne hs₀ hhistory hfits
  have hfilled (hne : s.history.cursor ≠ s.history.newest) : (s.history.slot s.history.cursor).isSome := by
    obtain ⟨state, hslot, -⟩ := harrived hne
    exact Option.isSome_of_eq_some hslot
  obtain ⟨hcursor, hstate⟩ := hs.after_backward_forward hmoved hfilled time'
  refine ⟨hcursor, fun hnew => ?_, fun hne => ?_⟩
  · rw [if_pos hnew] at hstate
    exact Option.some.inj hstate
  · obtain ⟨state, hslot, harrived⟩ := harrived hne
    rw [if_neg hne] at hstate
    have hsame := Option.some.inj (hstate.trans hslot)
    exact ⟨hstate.symm, hsame ▸ harrived⟩

/-! ## Two snapshots -/

/-- Two snapshots of a machine that executes a no-operation before each, and the state from before. -/
def twoSnapshots : List Input :=
  [.command 0 .timeTravelBackward, .command 0 (.setRegister .pc 0x0010),
    .command 0 (.setBinaryBlock 0x0010 #[0xEA, 0xEA]), .command 0 (.setBreakpoint 0x0011),
    .command 0 (.setBreakpoint 0x0012), .command 0 .requestSnapshot, .command 0 .run, .tick 0 16688100,
    .command 0 .requestSnapshot, .command 0 .run, .tick 0 16688100]

theorem fits_twoSnapshots : ∀ i ∈ twoSnapshots, i.Fits Image.Whole := by
  simp [twoSnapshots, Input.Fits, Command.Fits]

theorem history_twoSnapshots :
    let h := (Scheduler.after { machine := .ofModel .cmos } twoSnapshots).history
    h.cursor = 2 ∧ h.newest = 2 ∧ (h.slot 0).isSome ∧ (h.slot 1).map (·.cpu.regs.pc) = some 0x0011 := by
  decide +kernel

/-- A step backward leads from the newest snapshot to the one before it, and another one may follow. -/
theorem back_twoSnapshots (present : SaveState) :
    let h := (Scheduler.after { machine := .ofModel .cmos } twoSnapshots).history
    let h' := (h.stepBackward present).2
    h.cursor = h.newest ∧ h'.cursor ≠ h.cursor ∧ h'.cursor ≠ h'.newest ∧ h'.canGoBack = true ∧
      ∃ state, h'.slot h'.cursor = some state ∧ state.cpu.regs.pc = 0x0011 := by
  have hslots := history_twoSnapshots
  dsimp only at hslots ⊢
  generalize (Scheduler.after { machine := .ofModel .cmos } twoSnapshots).history = h at hslots ⊢
  obtain ⟨hcursor, hnewest, holdest, hpc⟩ := hslots
  obtain ⟨state, hslot, hpc⟩ := Option.map_eq_some_iff.mp hpc
  have hback : h.canGoBack = true := by
    rw [History.canGoBack, hcursor, hnewest, Bool.and_eq_true_iff]
    exact ⟨rfl, Option.isSome_of_eq_some hslot⟩
  rw [History.stepBackward_of_newest (hcursor.trans hnewest.symm) hback, hcursor, hnewest]
  refine ⟨rfl, ?_, ?_, Bool.and_eq_true_iff.mpr ⟨?_, ?_⟩, state, ?_, hpc⟩
  · show (2 - 1 : Fin History.capacity) ≠ 2
    decide
  · show (2 - 1 : Fin History.capacity) ≠ h.newest
    rw [hnewest]
    decide
  · show ((2 - 1 - 1 : Fin History.capacity) != h.newest) = true
    rw [hnewest]
    decide
  · show ((h.fill 2 present).slot (2 - 1 - 1)).isSome = true
    rw [History.slot_fill_of_ne h present (by decide)]
    exact holdest
  · show (h.fill 2 present).slot 1 = some state
    rw [History.slot_fill_of_ne h present (by decide), hslot]

theorem backward_then_forward_twoSnapshots :
    let s₀ : Scheduler := { machine := .ofModel .cmos }
    let s := s₀.after twoSnapshots
    let s' := s.after [.command 0 .timeTravelBackward]
    let s'' := s'.after [.command 0 .timeTravelForward]
    s₀.machine.Restorable ∧ s₀.history = .empty ∧ (∀ i ∈ twoSnapshots, i.Fits Image.Whole) ∧
      s'.history.cursor ≠ s.history.cursor ∧ s.history.cursor = s.history.newest ∧
      s''.history.cursor = s.history.cursor ∧ s''.machine.saveState = s.machine.saveState := by
  have hmachine : (Machine.ofModel .cmos).Restorable := Machine.restorable_ofModel .cmos
  have hreturns := @backward_then_forward { machine := .ofModel .cmos } hmachine rfl twoSnapshots fits_twoSnapshots 0 0
  have hback := back_twoSnapshots
  dsimp only at hback hreturns ⊢
  generalize Scheduler.after { machine := .ofModel .cmos } twoSnapshots = s at hback hreturns ⊢
  obtain ⟨hnew, hmoved, -⟩ := hback s.machine.saveState
  rw [← Scheduler.history_after_travel (c := .timeTravelBackward) rfl s 0] at hmoved
  obtain ⟨hcursor, hnewest, -⟩ := hreturns hmoved
  exact ⟨hmachine, rfl, fits_twoSnapshots, hmoved, hnew, hcursor, hnewest hnew⟩

/-- A program counter that is set in the past is lost on the way back and forth. -/
theorem Scheduler.Recallable.pc_lost {s : Scheduler} (hs : s.Recallable) (hpaused : s.state = .paused)
    (hne : s.history.cursor ≠ s.history.newest) (hback : s.history.canGoBack = true) {state : SaveState} {pc : UInt16}
    (hslot : s.history.slot s.history.cursor = some state) (hpc : state.cpu.regs.pc ≠ pc) :
    let s := s.after [.command 0 (.setRegister .pc pc)]
    let s' := s.after [.command 0 .timeTravelBackward]
    let s'' := s'.after [.command 0 .timeTravelForward]
    s'.history.cursor ≠ s.history.cursor ∧ s''.machine.saveState ≠ s.machine.saveState := by
  have hset : (s.after [.command 0 (.setRegister .pc pc)]).machine.saveState.cpu.regs.pc = pc := by
    show ((s.atTime 0).setRegister .pc pc).machine.cpu.regs.pc = pc
    rw [setRegister, if_pos (show (s.atTime 0).state = .paused from hpaused)]
    rfl
  have hhistory : (s.after [.command 0 (.setRegister .pc pc)]).history = s.history :=
    history_handle (c := .setRegister .pc pc) rfl (s.atTime 0)
  have hs : (s.after [.command 0 (.setRegister .pc pc)]).Recallable :=
    hs.after (List.forall_mem_singleton.mpr trivial)
  generalize s.after [.command 0 (.setRegister .pc pc)] = s' at hset hhistory hs
  rw [← hhistory] at hne hback hslot
  have hmoved : (s'.after [.command 0 .timeTravelBackward]).history.cursor ≠ s'.history.cursor := by
    rw [history_after_travel rfl]
    exact History.cursor_stepBackward_ne hne hback _
  obtain ⟨-, hstate⟩ := hs.after_backward_forward hmoved (fun _ => Option.isSome_of_eq_some hslot) 0
  rw [if_neg hne, hslot] at hstate
  refine ⟨hmoved, fun hsame => hpc ?_⟩
  rw [← Option.some.inj hstate, hsame]
  exact hset

/-- What is changed in the past is lost: after a step backward the program counter is set, and another step backward
and the step forward right after it set it back. -/
theorem changed_in_the_past :
    let s₀ : Scheduler := { machine := .ofModel .cmos }
    let inputs := twoSnapshots ++ [.command 0 .timeTravelBackward, .command 0 (.setRegister .pc 0x0020)]
    let s := s₀.after inputs
    let s' := s.after [.command 0 .timeTravelBackward]
    let s'' := s'.after [.command 0 .timeTravelForward]
    s₀.machine.Restorable ∧ s₀.history = .empty ∧ (∀ i ∈ inputs, i.Fits Image.Whole) ∧
      s'.history.cursor ≠ s.history.cursor ∧ s''.machine.saveState ≠ s.machine.saveState := by
  have hmachine : (Machine.ofModel .cmos).Restorable := Machine.restorable_ofModel .cmos
  have hfits : ∀ i ∈ [Input.command 0 .timeTravelBackward, .command 0 (.setRegister .pc 0x0020)],
      i.Fits Image.Whole := by
    simp [Input.Fits, Command.Fits]
  have hsplit (s : Scheduler) : s.after (twoSnapshots ++
      [.command 0 .timeTravelBackward, .command 0 (.setRegister .pc 0x0020)]) =
        ((s.after twoSnapshots).after [.command 0 .timeTravelBackward]).after
          [.command 0 (.setRegister .pc 0x0020)] :=
    (s.after_append _ _).trans ((s.after twoSnapshots).after_append [.command 0 .timeTravelBackward] [_])
  have hs := (@Scheduler.Recallable.of_empty { machine := .ofModel .cmos } hmachine rfl).after fits_twoSnapshots
  have hback := back_twoSnapshots
  dsimp only at hback ⊢
  have hfits := List.forall_mem_append.mpr ⟨fits_twoSnapshots, hfits⟩
  refine ⟨hmachine, rfl, hfits, ?_⟩
  rw [hsplit]
  generalize Scheduler.after { machine := .ofModel .cmos } twoSnapshots = s₁ at hback hs ⊢
  obtain ⟨-, -, hne, hcan, state, hslot, hpc⟩ := hback s₁.machine.saveState
  rw [← Scheduler.history_after_travel (c := .timeTravelBackward) rfl s₁ 0] at hne hcan hslot
  have hpaused : (s₁.after [.command 0 .timeTravelBackward]).state = .paused := by
    rw [Scheduler.after_travel (c := .timeTravelBackward) rfl]
    exact Scheduler.state_travel _ _
  have hs : (s₁.after [.command 0 .timeTravelBackward]).Recallable :=
    hs.after (List.forall_mem_singleton.mpr trivial)
  generalize s₁.after [.command 0 .timeTravelBackward] = s₂ at hpaused hs hne hcan hslot ⊢
  exact hs.pc_lost hpaused hne hcan hslot (hpc ▸ by decide)

end AppleII
