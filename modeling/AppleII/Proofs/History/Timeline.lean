import AppleII.History
import AppleII.Proofs.Run
import Mathlib.Algebra.Group.Units.Equiv
import Mathlib.Data.List.FinRange
import Mathlib.Data.ZMod.Defs

/-!
# Histories as timelines

A timeline is what a history stands for: a list of at most sixty states, oldest first, and how far the
shown state lies back from the newest one.  `Timeline.Describes` ties the slots of a history to it: the
slot `k` places before the newest one holds the state `k` places before the newest state.  Every
operation of a history keeps that, so that a history and its timeline answer alike on every run.
-/

namespace AppleII

open History (capacity)

/-! ## Slots -/

namespace History

instance : NeZero capacity := ⟨by decide⟩

/-- Seen from the next slot, a slot lies one place further back. -/
theorem back_succ {n i : Fin capacity} (ne : n + 1 ≠ i) : (n + 1 - i).val = (n - i).val + 1 := by
  grind

theorem slots_toList {α : Type} (h : History α) : h.slots.toList = (List.finRange capacity).map h.slot := by
  apply List.ext_getElem
  · simp
  · intro i _ _
    simp [slot]

end History

theorem countP_range_lt {n m : Nat} (h : n ≤ m) : (List.range m).countP (fun k => decide (k < n)) = n := by
  obtain ⟨r, rfl⟩ := Nat.exists_eq_add_of_le h
  rw [List.range_add, List.countP_append, List.countP_eq_length.mpr (by simp),
    List.countP_eq_zero.mpr (by simp)]
  simp

/-- The states that are kept, oldest first, and the shown one, counted back from the newest. -/
structure Timeline (α : Type) where
  states : List α := []
  back : Nat := 0
  /-- The slot of the newest state. -/
  newest : Fin capacity := 0
  length_le : states.length ≤ capacity := by simp
  back_lt : back ≠ 0 → back < states.length := by simp

namespace Timeline

variable {α : Type}

/-! ## The operations -/

/-- No states. -/
def empty : Timeline α := {}

/-- The state a number of places before the newest one. -/
def ago (t : Timeline α) (k : Nat) : Option α := t.states.reverse[k]?

/-- One more state, which is shown; the oldest one goes when there are too many. -/
def push (t : Timeline α) (a : α) : Timeline α where
  states := (t.states ++ [a]).drop (t.states.length + 1 - capacity)
  newest := t.newest + 1
  length_le := by simp only [List.length_drop, List.length_append, List.length_singleton]; omega

/-- Another state in place of the newest one, or as the first one. -/
def replaceNewest (t : Timeline α) (a : α) : Timeline α where
  states := t.states.dropLast ++ [a]
  newest := t.newest
  length_le := by
    have := t.length_le
    simp only [List.length_append, List.length_dropLast, List.length_singleton, capacity] at *
    omega

/-- The state `k` places before the newest one is shown, if there is one. -/
def show? (t : Timeline α) (k : Nat) : Option α × Timeline α :=
  if h : k < t.states.length then (t.ago k, { t with back := k, back_lt := fun _ => h }) else (none, t)

/-- The next older state.  From the newest one the present state is put in its place first. -/
def stepBackward (t : Timeline α) (present : α) : Option α × Timeline α :=
  let t := if t.back = 0 then t.replaceNewest present else t
  t.show? (t.back + 1)

/-- The next newer state. -/
def stepForward (t : Timeline α) : Option α × Timeline α :=
  if 0 < t.back then t.show? (t.back - 1) else (none, t)

/-- The state of a slot. -/
def jumpTo (t : Timeline α) (index : Nat) : Option α × Timeline α :=
  if index < capacity then t.show? ((t.newest.val + capacity - index) % capacity) else (none, t)

/-! ## Reading backwards -/

theorem ago_isSome (t : Timeline α) (k : Nat) : (t.ago k).isSome = decide (k < t.states.length) := by
  by_cases h : k < t.states.length <;> simp [ago, h]

theorem reverse_push (t : Timeline α) (a : α) :
    (t.push a).states.reverse = (a :: t.states.reverse).take capacity := by
  have h := t.length_le
  simp only [push, List.reverse_drop, List.reverse_append, List.reverse_singleton,
    List.singleton_append, List.take_eq_take_iff, List.length_append, List.length_cons,
    List.length_reverse, List.length_nil, capacity] at *
  omega

theorem ago_push_zero (t : Timeline α) (a : α) : (t.push a).ago 0 = some a := by
  rw [ago, reverse_push]
  rfl

theorem ago_push_succ (t : Timeline α) (a : α) {k : Nat} (h : k + 1 < capacity) :
    (t.push a).ago (k + 1) = t.ago k := by
  rw [ago, reverse_push, List.getElem?_take_of_lt h, List.getElem?_cons_succ, ago]

theorem reverse_replaceNewest (t : Timeline α) (a : α) :
    (t.replaceNewest a).states.reverse = a :: t.states.reverse.tail := by
  simp [replaceNewest]

theorem ago_replaceNewest_zero (t : Timeline α) (a : α) : (t.replaceNewest a).ago 0 = some a := by
  rw [ago, reverse_replaceNewest, List.getElem?_cons_zero]

theorem ago_replaceNewest_succ (t : Timeline α) (a : α) (k : Nat) :
    (t.replaceNewest a).ago (k + 1) = t.ago (k + 1) := by
  rw [ago, reverse_replaceNewest, List.getElem?_cons_succ, List.getElem?_tail, ago]

theorem show?_fst (t : Timeline α) (k : Nat) : (t.show? k).1 = t.ago k := by
  by_cases h : k < t.states.length <;> simp [show?, ago, h]

theorem show?_states (t : Timeline α) (k : Nat) : (t.show? k).2.states = t.states := by
  by_cases h : k < t.states.length <;> simp [show?, h]

theorem show?_back {t : Timeline α} {k : Nat} (h : (t.ago k).isSome) : (t.show? k).2.back = k := by
  rw [ago_isSome, decide_eq_true_iff] at h
  simp [show?, h]

/-- Forward from where a step back from the newest state leads is the state that was left. -/
theorem stepForward_stepBackward {t : Timeline α} {present : α} (hback : t.back = 0)
    (h : (t.stepBackward present).1.isSome) :
    (t.stepBackward present).2.stepForward.1 = some present := by
  simp only [stepBackward, if_pos hback, show?_fst] at h ⊢
  have hone : ((t.replaceNewest present).show? 1).2.back = 1 := show?_back h
  simp only [show (t.replaceNewest present).back = 0 from rfl, Nat.zero_add, stepForward, hone,
    Nat.one_pos, if_true, Nat.sub_self, show?_fst]
  rw [ago, show?_states]
  exact ago_replaceNewest_zero t present

/-- A step back records the present state if the newest one is shown, and goes back one place if it can. -/
theorem stepBackward_cases (t : Timeline α) (present : α) :
    (t.stepBackward present).2.ago 0 = (if t.back = 0 then some present else t.ago 0) ∧
      ((t.stepBackward present).2.back = t.back + 1 ∨
        (t.stepBackward present).2.back = t.back ∧ (t.stepBackward present).1 = none) := by
  have hrecorded : (if t.back = 0 then t.replaceNewest present else t).back = t.back := by
    split
    · next hzero => exact hzero.symm
    · rfl
  have hago : (if t.back = 0 then t.replaceNewest present else t).ago 0 =
      if t.back = 0 then some present else t.ago 0 := by
    split
    · exact t.ago_replaceNewest_zero present
    · rfl
  unfold stepBackward
  dsimp only
  generalize (if t.back = 0 then t.replaceNewest present else t) = t' at hrecorded hago ⊢
  refine ⟨by rw [ago, show?_states, ← ago, hago], ?_⟩
  cases hfound : t'.ago (t'.back + 1) with
  | some a => exact .inl (by rw [show?_back (by rw [hfound]; rfl), hrecorded])
  | none =>
    have hstays : ¬ t'.back + 1 < t'.states.length := by
      have hempty := t'.ago_isSome (t'.back + 1)
      rw [hfound] at hempty
      exact of_decide_eq_false hempty.symm
    rw [show?, dif_neg hstays]
    exact .inr ⟨hrecorded, rfl⟩

/-- A step forward goes one place nearer to the newest state, unless that is shown. -/
theorem stepForward_cases (t : Timeline α) :
    t.stepForward.2.ago 0 = t.ago 0 ∧ t.stepForward.2.back = t.back - 1 ∧
      t.stepForward.1 = if t.back = 0 then none else t.ago (t.back - 1) := by
  unfold stepForward
  by_cases hpos : 0 < t.back
  · have hfilled : (t.ago (t.back - 1)).isSome := by
      have hlt := t.back_lt (Nat.ne_of_gt hpos)
      rw [ago_isSome, decide_eq_true_iff]
      omega
    rw [if_pos hpos, if_neg (Nat.ne_of_gt hpos), show?_fst]
    exact ⟨by rw [ago, show?_states, ← ago], show?_back hfilled, rfl⟩
  · have hzero : t.back = 0 := by omega
    rw [if_neg hpos, if_pos hzero]
    refine ⟨rfl, ?_, rfl⟩
    show t.back = t.back - 1
    omega

/-! ## The history of a timeline -/

/-- A history holds the states of a timeline: the slot that lies `k` places before the newest one holds
the state `k` places before the newest state, and the cursor lies as far back as the shown state. -/
structure Describes (t : Timeline α) (h : History α) : Prop where
  newest : h.newest = t.newest
  cursor : (h.newest - h.cursor).val = t.back
  slot : ∀ i, h.slot i = t.ago (h.newest - i).val

theorem describes_empty : (empty : Timeline α).Describes History.empty where
  newest := rfl
  cursor := rfl
  slot i := by simp [ago, empty]

namespace Describes

variable {t : Timeline α} {h : History α}

theorem cursor_eq_newest_iff (d : t.Describes h) : h.cursor = h.newest ↔ t.back = 0 := by
  have := d.cursor
  grind

theorem slot_cursor (d : t.Describes h) : h.slot h.cursor = t.ago t.back := by
  rw [d.slot, d.cursor]

theorem push (d : t.Describes h) (a : α) : (t.push a).Describes (h.push a) where
  newest := by simp [History.push, Timeline.push, d.newest]
  cursor := by simp [History.push, Timeline.push]
  slot i := by
    show (h.fill (h.newest + 1) a).slot i = (t.push a).ago (h.newest + 1 - i).val
    by_cases e : h.newest + 1 = i
    · rw [← e, History.slot_fill_self, sub_self, Fin.val_zero, ago_push_zero]
    · have hb := History.back_succ e
      have hlt := (h.newest + 1 - i).isLt
      rw [History.slot_fill_of_ne _ _ e, d.slot, hb, ago_push_succ _ _ (by omega)]

theorem fill_newest (d : t.Describes h) (a : α) (hback : t.back = 0) :
    (t.replaceNewest a).Describes (h.fill h.newest a) where
  newest := d.newest
  cursor := d.cursor.trans hback
  slot i := by
    show (h.fill h.newest a).slot i = (t.replaceNewest a).ago (h.newest - i).val
    by_cases e : h.newest = i
    · rw [← e, History.slot_fill_self, sub_self, Fin.val_zero, ago_replaceNewest_zero]
    · obtain ⟨k, hk⟩ : ∃ k, (h.newest - i).val = k + 1 := ⟨(h.newest - i).val - 1, by grind⟩
      rw [History.slot_fill_of_ne _ _ e, d.slot, hk, ago_replaceNewest_succ]

/-- The cursor goes to a filled slot. -/
theorem goTo (d : t.Describes h) {i : Fin capacity} {k : Nat} (hk : (h.newest - i).val = k)
    (hlt : k < t.states.length) :
    (h.goTo i).1 = (t.show? k).1 ∧ (t.show? k).2.Describes (h.goTo i).2 := by
  simp only [Timeline.show?, dif_pos hlt, History.goTo]
  refine ⟨by rw [d.slot, hk], ?_⟩
  exact { newest := d.newest, cursor := hk, slot := d.slot }

/-! ### What a history tells of itself -/

theorem canGoBack (d : t.Describes h) : h.canGoBack = decide (t.back + 1 < t.states.length) := by
  have hlen := t.length_le
  have hc := d.cursor
  have hlt := h.newest.isLt
  by_cases e : h.cursor - 1 = h.newest
  · -- the cursor lies on the oldest of sixty states
    have hb : t.back + 1 = capacity := by grind
    simp [History.canGoBack, e]
    omega
  · have hb : (h.newest - (h.cursor - 1)).val = t.back + 1 := by grind
    simp only [History.canGoBack, d.slot, hb, ago_isSome]
    simp [e]

theorem canGoForward (d : t.Describes h) : h.canGoForward = decide (0 < t.back) := by
  by_cases e : h.cursor = h.newest
  · simp [History.canGoForward, e, d.cursor_eq_newest_iff.mp e]
  · have hpos : 0 < t.back := Nat.pos_of_ne_zero fun hz => e (d.cursor_eq_newest_iff.mpr hz)
    have hlt := t.back_lt (by omega)
    have hb : (h.newest - (h.cursor + 1)).val = t.back - 1 := by
      have := d.cursor
      grind
    simp only [History.canGoForward, d.slot, hb, ago_isSome]
    simp [e, hpos]
    omega

theorem slot_isSome (d : t.Describes h) (i : Fin capacity) :
    (h.slot i).isSome = decide ((h.newest - i).val < t.states.length) := by
  rw [d.slot, ago_isSome]

theorem size (d : t.Describes h) : h.size = t.states.length := by
  have hfilled : Option.isSome ∘ h.slot =
      (fun k : Nat => decide (k < t.states.length)) ∘ Fin.val ∘ Equiv.subLeft h.newest :=
    funext d.slot_isSome
  -- going back from the newest slot meets every slot once
  have hperm := Equiv.Perm.map_finRange_perm (Equiv.subLeft h.newest)
  rw [History.size, History.slots_toList, List.countP_map, hfilled, ← Function.comp_assoc, ← List.countP_map,
    hperm.countP_eq, ← List.countP_map, List.map_coe_finRange_eq_range, countP_range_lt t.length_le]

theorem isEmpty (d : t.Describes h) : h.isEmpty = t.states.isEmpty := by
  have hsize := d.size
  rw [History.size] at hsize
  rw [Bool.eq_iff_iff, List.isEmpty_iff, ← List.length_eq_zero_iff, ← hsize, List.countP_eq_zero,
    History.isEmpty, List.all_eq_true]
  simp

theorem slot_cursor_isSome (d : t.Describes h) (filled : h.isEmpty = false) :
    (h.slot h.cursor).isSome := by
  rw [d.isEmpty, List.isEmpty_eq_false_iff, ← List.length_pos_iff] at filled
  have hback := t.back_lt
  rw [d.slot_cursor, ago_isSome, decide_eq_true_iff]
  omega

/-! ### Moving the cursor -/

/-- The step back itself, once the present state is in its place. -/
theorem goBack (d : t.Describes h) :
    (if h.canGoBack then h.goTo (h.cursor - 1) else (none, h)).1 = (t.show? (t.back + 1)).1 ∧
      (t.show? (t.back + 1)).2.Describes (if h.canGoBack then h.goTo (h.cursor - 1) else (none, h)).2 := by
  by_cases hlt : t.back + 1 < t.states.length
  · have hb : (h.newest - (h.cursor - 1)).val = t.back + 1 := by
      have hlen := t.length_le
      have hc := d.cursor
      grind
    rw [d.canGoBack, if_pos (decide_eq_true hlt)]
    exact d.goTo hb hlt
  · rw [d.canGoBack, if_neg (by simpa using hlt), Timeline.show?, dif_neg hlt]
    exact ⟨rfl, d⟩

theorem stepBackward (d : t.Describes h) (present : α) :
    (h.stepBackward present).1 = (t.stepBackward present).1 ∧
      (t.stepBackward present).2.Describes (h.stepBackward present).2 := by
  by_cases e : h.cursor = h.newest
  · have hback := d.cursor_eq_newest_iff.mp e
    simp only [History.stepBackward, Timeline.stepBackward, if_pos e, if_pos hback]
    exact (d.fill_newest present hback).goBack
  · have hback : ¬ t.back = 0 := fun hz => e (d.cursor_eq_newest_iff.mpr hz)
    simp only [History.stepBackward, Timeline.stepBackward, if_neg e, if_neg hback]
    exact d.goBack

theorem stepForward (d : t.Describes h) :
    h.stepForward.1 = t.stepForward.1 ∧ t.stepForward.2.Describes h.stepForward.2 := by
  by_cases hpos : 0 < t.back
  · have hb : (h.newest - (h.cursor + 1)).val = t.back - 1 := by
      have := d.cursor
      grind
    have hlt := t.back_lt (by omega)
    rw [History.stepForward, d.canGoForward, if_pos (decide_eq_true hpos), Timeline.stepForward,
      if_pos hpos]
    exact d.goTo hb (by omega)
  · rw [History.stepForward, d.canGoForward, if_neg (by simpa using hpos), Timeline.stepForward,
      if_neg hpos]
    exact ⟨rfl, d⟩

theorem jumpTo (d : t.Describes h) (index : Nat) :
    (h.jumpTo index).1 = (t.jumpTo index).1 ∧ (t.jumpTo index).2.Describes (h.jumpTo index).2 := by
  by_cases hi : index < capacity
  · have hb : (h.newest - ⟨index, hi⟩).val = (t.newest.val + capacity - index) % capacity := by
      rw [d.newest]
      grind
    simp only [History.jumpTo, Timeline.jumpTo, dif_pos hi, if_pos hi, d.slot_isSome, hb]
    by_cases hlt : (t.newest.val + capacity - index) % capacity < t.states.length
    · rw [if_pos (decide_eq_true hlt)]
      exact d.goTo hb hlt
    · rw [if_neg (by simpa using hlt), Timeline.show?, dif_neg hlt]
      exact ⟨rfl, d⟩
  · rw [History.jumpTo, dif_neg hi, Timeline.jumpTo, if_neg hi]
    exact ⟨rfl, d⟩

end Describes

end Timeline

/-! ## Runs -/

/-- What is done with a history. -/
inductive History.Action (α : Type) where
  | push (a : α)
  | stepBackward (present : α)
  | stepForward
  | jumpTo (index : Nat)
  | clear

namespace History.Action

variable {α : Type}

/-- An action on a history: the state that it comes to, if it moves to one. -/
def onHistory : Action α → History α → Option α × History α
  | push a, h => (none, h.push a)
  | stepBackward present, h => h.stepBackward present
  | stepForward, h => h.stepForward
  | jumpTo index, h => h.jumpTo index
  | clear, h => (none, h.clear)

/-- The same action on a timeline. -/
def onTimeline : Action α → Timeline α → Option α × Timeline α
  | push a, t => (none, t.push a)
  | stepBackward present, t => t.stepBackward present
  | stepForward, t => t.stepForward
  | jumpTo index, t => t.jumpTo index
  | clear, _ => (none, .empty)

theorem onHistory_simulates (act : Action α) (h : History α) (t : Timeline α) (d : t.Describes h) :
    (act.onHistory h).1 = (act.onTimeline t).1 ∧ (act.onTimeline t).2.Describes (act.onHistory h).2 := by
  cases act with
  | push a => exact ⟨rfl, d.push a⟩
  | stepBackward present => exact d.stepBackward present
  | stepForward => exact d.stepForward
  | jumpTo index => exact d.jumpTo index
  | clear => exact ⟨rfl, Timeline.describes_empty⟩

end History.Action

/-- **A history is a timeline.** Whatever is done from an empty history on, the answers are those of the
timeline.  Afterwards the history tells of itself what the timeline does, its filled slots are a run
that ends at the newest one, the cursor stands on a filled slot, and a step back from the newest slot
can be taken back. -/
theorem history_refines_timeline {α : Type} (acts : List (History.Action α)) :
    ∃ answers h t,
      runAll History.Action.onHistory acts .empty = (answers, h) ∧
      runAll History.Action.onTimeline acts .empty = (answers, t) ∧
      t.Describes h ∧
      h.canGoBack = decide (t.back + 1 < t.states.length) ∧
      h.canGoForward = decide (0 < t.back) ∧
      h.size = t.states.length ∧ h.isEmpty = t.states.isEmpty ∧
      (∀ i, (h.slot i).isSome ↔ (h.newest - i).val < t.states.length) ∧
      (h.isEmpty = false → (h.slot h.cursor).isSome) ∧
      (h.cursor = h.newest → ∀ present s h', h.stepBackward present = (some s, h') →
        h'.stepForward.1 = some present) := by
  obtain ⟨hanswers, d⟩ := runAll_simulation History.Action.onHistory_simulates acts
    Timeline.describes_empty
  refine ⟨_, _, _, rfl, Prod.ext hanswers.symm rfl, d, d.canGoBack, d.canGoForward, d.size, d.isEmpty,
    fun i => ?_, d.slot_cursor_isSome, fun hcur present s h' hstep => ?_⟩
  · rw [d.slot_isSome, decide_eq_true_iff]
  · obtain ⟨hanswer, d'⟩ := d.stepBackward present
    rw [hstep] at hanswer d'
    rw [d'.stepForward.1]
    exact Timeline.stepForward_stepBackward (d.cursor_eq_newest_iff.mp hcur) (by rw [← hanswer]; rfl)

end AppleII
