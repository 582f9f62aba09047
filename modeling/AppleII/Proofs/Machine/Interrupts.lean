import AppleII.Proofs.Machine.Course
import AppleII.Proofs.Machine.Future
import AppleII.Proofs.Machine.Reset
import AppleII.Proofs.Processor.Interrupts

/-!
# Interrupts in a run

The non-maskable line interrupts when it rises, and what it was at the step before is a part of the save state.  So
every rise is served once, whatever else is done to the machine, and whatever machine the run goes on with
(`edges_served_once`).
-/

namespace AppleII

open Disk (Chronicle)
open Processor (Access Due due_eq_nonMaskable_iff due_eq_request_iff)
open Processor.Exec (interruptVector nonMaskableVector)

namespace Machine

/-- What is done in a run: an operation, or the state of the machine is saved and put at once into another machine, or
back into itself. -/
inductive Move where
  | operate (op : Operation)
  | transfer (into : Option Machine)

/-- The machine with which a run goes on.  A state that is refused is not put into anything. -/
def move (m : Machine) : Move → Machine
  | .operate op => (operate op m).2
  | .transfer into =>
    match (into.getD m).restoreState m.saveState with
    | .ok m' => m'
    | .error _ => m

/-- A step is executed: it is not stopped by a breakpoint. -/
def executes (m : Machine) : Move → Bool
  | .operate (.processInstruction ignoreBreakpoints) => ignoreBreakpoints || !m.stops
  | _ => false

def Move.resets : Move → Bool
  | .operate .boot | .operate .reset => true
  | _ => false

/-- An executed step. -/
structure Step where
  before : Machine
  after : Machine
  /-- The level of the non-maskable line at the step before; none if there was no step since reset. -/
  previous : Option Bool

/-- The level of the non-maskable line at the last step since reset. -/
def lastLevel (previous : Option Bool) (m : Machine) (mv : Move) : Option Bool :=
  if m.executes mv then some m.cpu.nmi
  else if mv.resets then none
  else previous

/-- The steps that a run executes. -/
def steps (previous : Option Bool) (m : Machine) : List Move → List Step
  | [] => []
  | mv :: moves =>
    let rest := steps (m.lastLevel previous mv) (m.move mv) moves
    if m.executes mv then ⟨m, m.move mv, previous⟩ :: rest else rest

/-- The vector of the interrupt that the next step serves, as its accesses show. -/
def vector? (m : Machine) : Option UInt16 := Access.vector? (m.cpu.accesses m.board)

namespace Step

/-- The vector of the interrupt that was served. -/
def vector? (s : Step) : Option UInt16 := s.before.vector?

/-- The non-maskable line is high, and it was low at the step before, if there was one. -/
def rises (s : Step) : Bool := s.before.cpu.nmi && s.previous != some true

/-- What the processor has come to, and the level of the line that it compares with. -/
structure Sound (s : Step) : Prop where
  cpu : s.after.cpu = (s.before.cpu.step s.before.board).2.1
  previous : s.before.cpu.previousNmi = (s.previous == some true)

end Step

/-! ## Moves -/

theorem cpu_processInstruction_true (m : Machine) :
    (m.processInstruction true).2.cpu = (m.cpu.step m.board).2.1 := by
  rw [processInstruction_true]
  split
  · rfl
  · rfl

theorem cpu_of_executes {m : Machine} {mv : Move} (h : m.executes mv = true) :
    (m.move mv).cpu = (m.cpu.step m.board).2.1 := by
  unfold executes at h
  split at h
  · next ignoreBreakpoints =>
    show (m.processInstruction ignoreBreakpoints).2.cpu = _
    cases ignoreBreakpoints with
    | true => exact m.cpu_processInstruction_true
    | false =>
      have hstops : m.stops = false := by simpa using h
      rw [processInstruction_of_not_stops hstops, cpu_processInstruction_true]
  · cases h

theorem previousNmi_reset (m : Machine) : m.reset.cpu.previousNmi = false := by
  unfold reset
  dsimp only
  cases Board.read { m.board with memory.switches := .reset } 0xC082 with
  | mk v board =>
    have hprocessor : (m.cpu.reset board).1.previousNmi = false := rfl
    cases hreset : m.cpu.reset board with
    | mk cpu board' =>
      rw [hreset] at hprocessor
      exact hprocessor

theorem previousNmi_boot (m : Machine) : m.boot.cpu.previousNmi = false := by
  obtain ⟨memory, -, hboot⟩ := m.boot_cases
  rw [hboot, previousNmi_reset]

theorem cpu_restoreState {m m₂ m' : Machine} (h : m₂.restoreState m.saveState = .ok m') :
    m'.cpu = { m.cpu with model := m₂.cpu.model, lastOpcode := m₂.cpu.lastOpcode } := by
  obtain ⟨-, ram, current, drives, -, -, rfl⟩ := restoreState_eq_ok_iff.mp h
  rfl

/-- What is not executed leaves the level of the line at the last step alone, or resets it. -/
theorem previousNmi_of_not_executes {m : Machine} {mv : Move} (h : m.executes mv = false) :
    (m.move mv).cpu.previousNmi = if mv.resets then false else m.cpu.previousNmi := by
  cases mv with
  | operate op =>
    cases op with
    | processInstruction ignoreBreakpoints =>
      obtain ⟨rfl, hstops⟩ : ignoreBreakpoints = false ∧ m.stops = true := by simpa [executes] using h
      obtain ⟨debugger, hhalted⟩ := processInstruction_of_stops hstops
      show (m.processInstruction false).2.cpu.previousNmi = _
      rw [hhalted]
      rfl
    | boot =>
      have hboot : m.move (.operate .boot) = m.boot := rfl
      rw [hboot, previousNmi_boot]
      rfl
    | reset =>
      have hreset : m.move (.operate .reset) = m.reset := rfl
      rw [hreset, previousNmi_reset]
      rfl
    | insert drive fileName bytes =>
      simp only [move, operate]
      split
      · rfl
      · rfl
    | eject drive =>
      simp only [move, operate]
      split
      · rfl
      · rfl
    | read | write | setNmi | setIrq | save => rfl
  | transfer into =>
    unfold move
    dsimp only
    split
    · next m' hm' =>
      rw [cpu_restoreState hm']
      rfl
    · rfl

theorem previousNmi_move {m : Machine} {previous : Option Bool} (h : m.cpu.previousNmi = (previous == some true))
    (mv : Move) : (m.move mv).cpu.previousNmi = (m.lastLevel previous mv == some true) := by
  unfold lastLevel
  cases hexecutes : m.executes mv with
  | true =>
    rw [cpu_of_executes hexecutes]
    show m.cpu.nmi = _
    cases m.cpu.nmi <;> rfl
  | false =>
    rw [previousNmi_of_not_executes hexecutes]
    cases mv.resets with
    | true => rfl
    | false => exact h

/-- **Runs.** At every step the processor compares the line with what it was at the step before. -/
theorem sound_steps {m : Machine} {previous : Option Bool} (h : m.cpu.previousNmi = (previous == some true))
    (moves : List Move) : ∀ s ∈ m.steps previous moves, s.Sound := by
  induction moves generalizing m previous with
  | nil => exact fun _ hs => absurd hs List.not_mem_nil
  | cons mv moves ih =>
    have hrest := ih (previousNmi_move h mv)
    unfold steps
    dsimp only
    split
    · next hexecutes => exact List.forall_mem_cons.mpr ⟨⟨cpu_of_executes hexecutes, h⟩, hrest⟩
    · exact hrest

/-! ## One step -/

theorem vector?_eq (m : Machine) : m.vector? = m.cpu.due.vector? := m.cpu.vector?_accesses m.board

namespace Step.Sound

variable {s : Step} (h : s.Sound)
include h

theorem rises_eq : s.rises = (s.before.cpu.nmi && !s.before.cpu.previousNmi) := by
  rw [h.previous]
  rfl

/-- A rise of the line is served, and nothing else through that vector. -/
theorem vector?_eq_nonMaskable_iff : s.vector? = some nonMaskableVector ↔ s.rises = true := by
  rw [Step.vector?, vector?_eq, Due.vector?_eq_nonMaskable_iff, due_eq_nonMaskable_iff, h.rises_eq]

/-- A request is served at a step at which the line does not rise, unless it is disabled. -/
theorem vector?_eq_interrupt_iff : s.vector? = some interruptVector ↔
    s.before.cpu.irq = true ∧ s.before.cpu.regs.status.interruptDisable = false ∧ s.rises = false := by
  rw [Step.vector?, vector?_eq, Due.vector?_eq_interrupt_iff, due_eq_request_iff, h.rises_eq]

end Step.Sound

/-- A step that serves none of the two executes one opcode. -/
theorem Step.existsUnique_executes {s : Step} (hnonMaskable : s.vector? ≠ some nonMaskableVector)
    (hrequest : s.vector? ≠ some interruptVector) : ∃! opcode, s.before.cpu.Executes s.before.board opcode := by
  rw [Step.vector?, vector?_eq, Ne, Due.vector?_eq_nonMaskable_iff] at hnonMaskable
  rw [Step.vector?, vector?_eq, Ne, Due.vector?_eq_interrupt_iff] at hrequest
  have hdue : s.before.cpu.due = .instruction := by
    cases hp : s.before.cpu.due with
    | nonMaskable => exact absurd hp hnonMaskable
    | request => exact absurd hp hrequest
    | instruction => rfl
  have hexecutes := s.before.cpu.executes_of_due s.before.board hdue
  exact ⟨_, hexecutes, fun opcode hopcode => Option.some.inj (hopcode.lastOpcode.symm.trans hexecutes.lastOpcode)⟩

/-! ## Agreement -/

section Agreement

theorem agree_self (m : Machine) : m.Agree Chronicle.Any m :=
  agree_of_saveState_eq rfl ⟨rfl, rfl, rfl, rfl, rfl⟩ rfl

variable {R : Chronicle → Chronicle → Prop} {m m' : Machine}

theorem Agree.stops (h : m.Agree R m') : m.stops = m'.stops := by
  unfold Machine.stops
  rw [h.skipBreakpoint, h.debugger, h.regs]

theorem Agree.executes (h : m.Agree R m') (mv : Move) : m.executes mv = m'.executes mv := by
  unfold Machine.executes
  rw [h.stops]

theorem Agree.vector? (h : m.Agree R m') : m.vector? = m'.vector? := by
  obtain ⟨o, hcpu⟩ := h.cpu
  rw [vector?_eq, vector?_eq, hcpu]
  rfl

theorem Agree.move (h : m.Agree Chronicle.Any m') (mv : Move) : (m.move mv).Agree Chronicle.Any (m'.move mv) := by
  cases mv with
  | operate op => exact (h.operate op).2
  | transfer into =>
    have hsame := h.saveState
    unfold Machine.move
    dsimp only
    rw [← hsame]
    cases into with
    | none =>
      rcases h.restoreState m.saveState with ⟨e, he, he'⟩ | ⟨x, x', hx, hx', hagree⟩
      · rw [Option.getD_none, Option.getD_none, he, he']
        exact h
      · rw [Option.getD_none, Option.getD_none, hx, hx']
        exact hagree
    | some m₂ =>
      rw [Option.getD_some, Option.getD_some]
      split
      · exact agree_self _
      · exact h

/-- Machines that agree serve the same interrupts. -/
theorem Agree.vectors (h : m.Agree Chronicle.Any m') (previous : Option Bool) (moves : List Move) :
    (m.steps previous moves).map Step.vector? = (m'.steps previous moves).map Step.vector? := by
  induction moves generalizing m m' previous with
  | nil => rfl
  | cons mv moves ih =>
    obtain ⟨o, hcpu⟩ := h.cpu
    have hlevel : m.lastLevel previous mv = m'.lastLevel previous mv := by
      unfold lastLevel
      rw [h.executes, hcpu]
    have hrest := ih (h.move mv) (m.lastLevel previous mv)
    rw [hlevel] at hrest
    unfold steps
    dsimp only
    rw [hlevel, h.executes]
    split
    · rw [List.map_cons, List.map_cons, hrest]
      exact congrArg (· :: _) h.vector?
    · exact hrest

end Agreement

end Machine

open Machine

/-- **Every rise of the non-maskable line is served once**, a request whenever it is not disabled, and every other step
executes one opcode.  What a restored machine serves is what the saved one does, apart from the breakpoint over which a
machine that was just resumed would have gone. -/
theorem edges_served_once :
    (∀ (m : Machine) (moves : List Move), m.cpu.previousNmi = false →
      let steps := m.steps none moves
      -- As many are served as there are rises.
      steps.countP (fun s => s.vector? == some nonMaskableVector) = steps.countP (fun s => s.rises) ∧
      -- A step serves what is due, or executes one opcode.
      ∀ s ∈ steps,
        s.after.cpu = (s.before.cpu.step s.before.board).2.1 ∧
        (s.vector? = some nonMaskableVector ↔ s.rises = true) ∧
        (s.vector? = some interruptVector ↔
          s.before.cpu.irq = true ∧ s.before.cpu.regs.status.interruptDisable = false ∧ s.rises = false) ∧
        (∀ vector, s.vector? = some vector → s.before.cpu.Serves s.before.board vector) ∧
        (s.vector? ≠ some nonMaskableVector → s.vector? ≠ some interruptVector →
          ∃! opcode, s.before.cpu.Executes s.before.board opcode)) ∧
    ∀ m m₂ : Machine,
      (m.Restorable → ∃ m₃, m₂.restoreState m.saveState = .ok m₃) ∧
      -- The same is due in every machine that is restored, and in one that is set up alike it stays the same.
      ∀ m₃, m₂.restoreState m.saveState = .ok m₃ →
        (∀ nmi irq, { m₃ with cpu.nmi := nmi, cpu.irq := irq }.vector? =
          { m with cpu.nmi := nmi, cpu.irq := irq }.vector?) ∧
        (m.SameSetup m₂ → ∀ previous moves,
          (m₃.steps previous moves).map Step.vector? =
            ({ m with skipBreakpoint := false }.steps previous moves).map Step.vector?) := by
  refine ⟨fun m moves h => ?_, fun m m₂ => ⟨fun hm => exists_restoreState hm m₂, fun m₃ hm₃ => ⟨fun nmi irq => ?_, ?_⟩⟩⟩
  · have hstart : m.cpu.previousNmi = ((none : Option Bool) == some true) := h
    have hsound := sound_steps hstart moves
    refine ⟨?_, fun s hs => ⟨(hsound s hs).cpu, (hsound s hs).vector?_eq_nonMaskable_iff,
      (hsound s hs).vector?_eq_interrupt_iff, fun vector hvector => ?_, fun hnonMaskable hrequest =>
        Step.existsUnique_executes hnonMaskable hrequest⟩⟩
    · refine List.countP_congr fun s hs => ?_
      rw [beq_iff_eq]
      exact (hsound s hs).vector?_eq_nonMaskable_iff
    · rw [Step.vector?, vector?_eq] at hvector
      exact s.before.cpu.serves_of_due s.before.board hvector
  · rw [vector?_eq, vector?_eq, cpu_restoreState hm₃]
    rfl
  · intro hsetup previous moves
    exact (agree_of_restoreState hsetup hm₃).vectors previous moves

/-- Two rises, and between them a high level with which the run goes on in another machine. -/
theorem edges_served_once_ofModel :
    let step : Move := .operate (.processInstruction true)
    let steps := (ofModel .cmos).steps none
      [.operate (.setNmi true), step, .transfer (some (ofModel .nmos)), step, .operate (.setNmi false), step,
        .operate (.setNmi true), step]
    let pressed := { ofModel .cmos with board.memory.keyboardLatch := 0x8D }
    (ofModel .cmos).cpu.previousNmi = false ∧
      steps.countP (fun s => s.vector? == some nonMaskableVector) = 2 ∧
      ∃ m₃, pressed.restoreState (ofModel .cmos).saveState = .ok m₃ ∧
        ∀ previous moves, (m₃.steps previous moves).map Step.vector? =
          ((ofModel .cmos).steps previous moves).map Step.vector? := by
  intro step steps pressed
  obtain ⟨hserved, hrestored⟩ := edges_served_once
  obtain ⟨hexists, hsame⟩ := hrestored (ofModel .cmos) pressed
  obtain ⟨m₃, hm₃⟩ := hexists (restorable_ofModel .cmos)
  have hstep (m : Machine) : (m.move step).cpu.nmi = m.cpu.nmi := by
    rw [cpu_of_executes rfl]
    rfl
  have htransfer (m m₂ : Machine) : (m.move (.transfer (some m₂))).cpu.nmi = m.cpu.nmi := by
    unfold move
    dsimp only
    split
    · next m' hm' =>
      rw [cpu_restoreState hm']
    · rfl
  have hline (m : Machine) (level : Bool) : (m.move (.operate (.setNmi level))).cpu.nmi = level := rfl
  have hexecutes (m : Machine) : m.executes step = true := rfl
  have hquiet (m m₂ : Machine) : m.executes (.transfer (some m₂)) = false := rfl
  have hquiet' (m : Machine) (level : Bool) : m.executes (.operate (.setNmi level)) = false := rfl
  refine ⟨rfl, ?_, m₃, hm₃, (hsame m₃ hm₃).2 ⟨rfl, rfl, rfl, rfl, rfl⟩⟩
  rw [(hserved (ofModel .cmos) _ rfl).1]
  simp [Machine.steps, lastLevel, Move.resets, Step.rises, hexecutes, hquiet, hquiet', hstep, htransfer, hline]

end AppleII
