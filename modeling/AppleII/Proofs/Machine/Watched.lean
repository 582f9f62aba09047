import AppleII.Proofs.Machine.StepOut

/-!
# What a debugger stops

A machine that a debugger watches executes what it executes when nothing stops it, as far as the first instruction
that the debugger does not let pass (`Machine.watched_runWhile`): it halts before that one, at an enabled breakpoint, or
after it, if that one ends a step out.
-/

namespace AppleII

namespace Debugger

variable {d d' : Debugger} {a x : UInt16}

/-- Whether a lasting breakpoint at an address is enabled; none where there is no lasting one. -/
def lasting? (d : Debugger) (a : UInt16) : Option Bool := (d.breakpoints[a]?.filter (!·.once)).map (·.enabled)

/-- A hit is counted, or the breakpoint goes away. -/
theorem Hit.getElem? {b : Breakpoint} (h : d.Hit a b d') (x : UInt16) :
    d'.breakpoints[x]? =
      if x = a then (d.breakpoints[a]?.filter (!·.once)).map fun b => { b with hitCount := b.hitCount + 1 }
      else d.breakpoints[x]? := by
  by_cases hx : x = a
  · rw [if_pos hx, hx, h.counted, h.there, Option.filter_some]
    obtain ⟨address, enabled, hitCount, once⟩ := b
    cases once <;> rfl
  · rw [if_neg hx, h.others x hx]

theorem Hit.lasting? {b : Breakpoint} (h : d.Hit a b d') : d'.lasting? x = d.lasting? x := by
  unfold Debugger.lasting?
  rw [h.getElem? x]
  by_cases hx : x = a
  · rw [if_pos hx, hx, h.there, Option.filter_some]
    obtain ⟨address, enabled, hitCount, once⟩ := b
    cases once <;> rfl
  · rw [if_neg hx]

theorem getElem?_runTo (d : Debugger) (a x : UInt16) :
    (d.runTo a).breakpoints[x]? =
      if x = a then some (d.breakpoints[a]?.getD { address := a, once := true }) else d.breakpoints[x]? := by
  have hcmp : compare a x = .eq ↔ x = a := Std.compare_eq_iff_eq.trans eq_comm
  unfold runTo
  rw [Std.ExtTreeMap.getElem?_alter]
  simp only [hcmp]
  cases d.breakpoints[a]? <;> rfl

theorem lasting?_runTo (d : Debugger) (a x : UInt16) : (d.runTo a).lasting? x = d.lasting? x := by
  unfold lasting?
  rw [getElem?_runTo]
  by_cases hx : x = a
  · rw [if_pos hx, hx]
    cases d.breakpoints[a]? <;> rfl
  · rw [if_neg hx]

/-- After a hit at the address of a run to it, everything is as it was before, but for the count of a lasting
breakpoint there. -/
theorem Hit.getElem?_of_runTo {b : Breakpoint} (h : (d.runTo a).Hit a b d') (x : UInt16) :
    d'.breakpoints[x]? =
      if x = a then (d.breakpoints[a]?.filter (!·.once)).map fun b => { b with hitCount := b.hitCount + 1 }
      else d.breakpoints[x]? := by
  rw [h.getElem? x, getElem?_runTo, getElem?_runTo, if_pos rfl]
  by_cases hx : x = a
  · rw [if_pos hx, if_pos hx]
    cases d.breakpoints[a]? <;> rfl
  · rw [if_neg hx, if_neg hx, if_neg hx]

/-- Where there is a breakpoint, another one for one hit is not set. -/
theorem runTo_of_there {b : Breakpoint} (h : d.breakpoints[a]? = some b) : d.runTo a = d := by
  have hsame : (d.runTo a).breakpoints = d.breakpoints := by
    refine Std.ExtTreeMap.ext_getElem? fun x => ?_
    rw [getElem?_runTo, h]
    by_cases hx : x = a
    · rw [if_pos hx, hx, h]
      rfl
    · rw [if_neg hx]
  show { d with breakpoints := (d.runTo a).breakpoints } = d
  rw [hsame]

end Debugger

namespace Machine

/-- The machine with another debugger. -/
def under (m : Machine) (d : Debugger) : Machine := { m with debugger := d }

/-- The machine with no breakpoints, and with no step out armed. -/
def unwatched (m : Machine) : Machine := m.under {}

/-- A debugger lets the machine execute its next instruction, and go on after it. -/
structure Passes (d : Debugger) (m : Machine) : Prop where
  goes : (m.under d).stops = false
  stays : (m.under d).endsStepOut = false

/-- How a debugger halts a machine at an instruction that it does not let pass: which instructions are still
executed, and the processor and the debugger then. -/
inductive Halting (d : Debugger) (x : Machine) : List Machine → Processor → Debugger → Prop
  | stopped {b : Breakpoint} {d' : Debugger} (stops : (x.under d).stops = true) (hit : d.Hit x.cpu.regs.pc b d') :
      Halting d x [] x.cpu d'
  | returned (goes : (x.under d).stops = false) (returns : (x.under d).endsStepOut = true) :
      Halting d x [x] x.stepped.cpu d.disarmStepOut

/-- A run of a machine that a debugger watches, beside the run of the same machine that nothing stops: for each of
them the machines at the instructions, and the machine after the run with whether it has come to its end. -/
inductive Watched (d : Debugger) (watched plain : List Machine × Bool × Machine) : Prop
  /-- The debugger lets everything pass: both runs are the same. -/
  | goesOn (before : ∀ x ∈ plain.1, Passes d x) (executed : watched.1.map unwatched = plain.1)
      (complete : watched.2.1 = true ∧ plain.2.1 = true) (same : watched.2.2.unwatched = plain.2.2)
      (still : watched.2.2.debugger = d)
  /-- The run ends at the first instruction that the debugger does not let pass. -/
  | halts (front back last : List Machine) (x : Machine) (course : plain.1 = front ++ x :: back)
      (before : ∀ y ∈ front, Passes d y) (executed : watched.1.map unwatched = front ++ last)
      (halted : watched.2.1 = false) (halting : Halting d x last watched.2.2.cpu watched.2.2.debugger)

variable {d d' : Debugger} {m x : Machine}

theorem Halting.not_passes {last : List Machine} {cpu : Processor} (h : Halting d x last cpu d') : ¬ Passes d x := by
  intro hpasses
  cases h with
  | stopped stops => exact absurd (hpasses.goes.symm.trans stops) Bool.noConfusion
  | returned goes returns => exact absurd (hpasses.stays.symm.trans returns) Bool.noConfusion

theorem Halting.lasting? {last : List Machine} {cpu : Processor} (h : Halting d x last cpu d') (a : UInt16) :
    d'.lasting? a = d.lasting? a := by
  cases h with
  | stopped stops hit => exact hit.lasting?
  | returned => rfl

theorem stays_of_not_returnsAbove (h : ∀ depth, d.stepOut? = some depth → ¬ m.ReturnsAbove depth) :
    (m.under d).endsStepOut = false := by
  refine Bool.eq_false_of_not_eq_true fun hends => ?_
  obtain ⟨depth, hdepth, habove⟩ := endsStepOut_iff.mp hends
  exact h depth hdepth habove

theorem passes_of_not_onBreakpoint (h : ¬ (m.under d).OnBreakpoint)
    (hreturns : ∀ depth, d.stepOut? = some depth → ¬ m.ReturnsAbove depth) : Passes d m where
  goes := by
    rw [stops, Bool.and_eq_false_iff]
    exact .inr (Bool.eq_false_of_not_eq_true fun hhit => h (isSome_hit?_iff.mp hhit))
  stays := stays_of_not_returnsAbove hreturns

theorem not_onBreakpoint_of_disabled {b : Breakpoint} (hb : d.breakpoints[m.cpu.regs.pc]? = some b)
    (hdisabled : b.enabled = false) : ¬ (m.under d).OnBreakpoint := by
  rintro ⟨b', hb', henabled⟩
  obtain rfl := Option.some.inj (hb.symm.trans hb')
  exact absurd (hdisabled.symm.trans henabled) Bool.noConfusion

/-- A debugger without an enabled breakpoint, and with no step out armed, lets everything pass. -/
theorem passes_of_disabled (hdisabled : ∀ (a : UInt16) (b : Breakpoint), d.breakpoints[a]? = some b → b.enabled = false)
    (hunarmed : d.stepOut? = none) (m : Machine) : Passes d m := by
  refine passes_of_not_onBreakpoint ?_ fun depth hdepth => nomatch hunarmed.symm.trans hdepth
  rintro ⟨b, hb, henabled⟩
  exact absurd ((hdisabled _ b hb).symm.trans henabled) Bool.noConfusion

/-- A machine that was just resumed is not stopped at its first instruction. -/
theorem passes_of_resumed (h : m.skipBreakpoint = true)
    (hreturns : ∀ depth, d.stepOut? = some depth → ¬ m.ReturnsAbove depth) : Passes d m where
  goes := by
    have hskip : (m.under d).skipBreakpoint = true := h
    rw [stops, hskip]
    rfl
  stays := stays_of_not_returnsAbove hreturns

/-- Away from its address, a breakpoint for one hit does not show. -/
theorem onBreakpoint_runTo {a : UInt16} (h : m.cpu.regs.pc ≠ a) :
    (m.under (d.runTo a)).OnBreakpoint ↔ (m.under d).OnBreakpoint := by
  show (∃ b, (d.runTo a).breakpoints[m.cpu.regs.pc]? = some b ∧ _) ↔ _
  rw [Debugger.getElem?_runTo, if_neg h]
  rfl

/-- At its address it does, unless there is a disabled one. -/
theorem onBreakpoint_runTo_self {a : UInt16} (h : m.cpu.regs.pc = a)
    (henabled : ∀ b, d.breakpoints[a]? = some b → b.enabled = true) : (m.under (d.runTo a)).OnBreakpoint := by
  refine ⟨_, (d.getElem?_runTo a m.cpu.regs.pc).trans (if_pos h), ?_⟩
  cases hb : d.breakpoints[a]? with
  | none => rfl
  | some b => exact henabled b hb

theorem Watched.cons {l l' : List Machine} {r r' : Bool × Machine} (h : Watched d (l, r) (l', r'))
    (hm : Passes d m.unwatched) : Watched d (m :: l, r) (m.unwatched :: l', r') := by
  cases h with
  | goesOn before executed complete same still =>
    exact .goesOn (List.forall_mem_cons.mpr ⟨hm, before⟩) (congrArg (m.unwatched :: ·) executed) complete same still
  | halts front back last x course before executed halted halting =>
    exact .halts (m.unwatched :: front) back last x (congrArg (m.unwatched :: ·) course)
      (List.forall_mem_cons.mpr ⟨hm, before⟩) (congrArg (m.unwatched :: ·) executed) halted halting

/-- **A machine that a debugger watches** executes what it executes when nothing stops it, as far as the first
instruction that the debugger does not let pass. -/
theorem watched_runWhile (more : Nat → Nat → Bool) (fuel spent : Nat) (m : Machine) :
    Watched m.debugger ((m.course more fuel spent).dropLast, runWhile more fuel spent m)
      ((m.unwatched.course more fuel spent).dropLast, runWhile more fuel spent m.unwatched) := by
  induction fuel generalizing m spent with
  | zero => exact .goesOn (by simp [course]) rfl ⟨rfl, rfl⟩ rfl rfl
  | succ fuel ih =>
    have hclock : m.unwatched.clock = m.clock := rfl
    have hgoes : m.unwatched.stops = false := stops_of_empty rfl
    have hstays : m.unwatched.endsStepOut = false := endsStepOut_of_unarmed rfl
    rw [dropLast_course_succ hgoes, runWhile_succ more hgoes, hclock, hstays]
    simp only [Bool.false_eq_true, if_false]
    by_cases hmore : more spent m.clock = true
    · simp only [hmore, if_true]
      cases hstops : m.stops with
      | true =>
        obtain ⟨m', hhalt, hhalts⟩ := halts_of_stops hstops
        obtain ⟨b, hhit⟩ := hhalts.hit
        have hcpu : m'.cpu = m.cpu := by rw [hhalts.frame]
        rw [course_of_stops hstops, runWhile, if_pos hmore, hhalt]
        refine .halts [] _ [] m.unwatched rfl (by simp) rfl rfl ?_
        show Halting m.debugger m.unwatched [] m'.cpu m'.debugger
        rw [hcpu]
        exact .stopped hstops hhit
      | false =>
        rw [dropLast_course_succ hstops, runWhile_succ more hstops, if_pos hmore, if_pos hmore]
        cases hends : m.endsStepOut with
        | true => exact .halts [] _ [m.unwatched] m.unwatched rfl (by simp) rfl rfl (.returned hstops hends)
        | false => exact (ih _ m.stepped).cons ⟨hstops, hends⟩
    · rw [course, if_neg fun hgoes => hmore hgoes.1, runWhile, if_neg hmore]
      rw [if_neg hmore, if_neg hmore]
      exact .goesOn (by simp) rfl ⟨rfl, rfl⟩ rfl rfl

end Machine

end AppleII
