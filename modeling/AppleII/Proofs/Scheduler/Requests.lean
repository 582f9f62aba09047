import AppleII.Proofs.Scheduler.Trace

/-!
# Requests

A boot or a reset that a user asks for is left to the next frame.  Until then the request is nothing but the
run state, and every command that enters another run state takes its place.  A request is kept until it is
done, before anything else happens to the machine, or until it is displaced (`request_until_displaced`).
-/

namespace AppleII

/-- The commands that take the place of a request: the other one, and those that run, pause or step the
machine or that travel in time. -/
def Command.displaces : Command → Request → Bool
  | .boot, r => r == .reset
  | .reset, r => r == .boot
  | .run, _ | .pause, _ | .stepInto, _ | .stepOver, _ | .stepOut, _ | .runToAddress _, _
  | .timeTravelBackward, _ | .timeTravelForward, _ | .timeTravelIndex _, _ => true
  | _, _ => false

namespace Scheduler

variable {s : Scheduler} {r : Request} {c : Command}

theorem state_handle_of_not_displaces (hs : s.state = r.state) (hc : c.displaces r = false) :
    (s.handle c).2.state = r.state ∧ s.commandEvents c = [] := by
  obtain ⟨-, -, hpaused⟩ := r.state_ne
  by_cases hquiet : c.quiet = true
  · obtain ⟨debugger, hstanding⟩ := standing_handle_of_quiet hquiet s
    exact ⟨(congrArg Standing.state hstanding).trans hs, commandEvents_of_quiet hquiet s⟩
  · cases c with
    | boot =>
      cases r with
      | boot => exact ⟨rfl, rfl⟩
      | reset => cases hc
    | reset =>
      cases r with
      | boot => cases hc
      | reset => exact ⟨rfl, rfl⟩
    | restoreState state => exact ⟨(s.restoreState_cases state).1.trans hs, rfl⟩
    | setRegister register value =>
      have hstill : s.setRegister register value = s := if_neg (hs ▸ hpaused)
      exact ⟨(congrArg Scheduler.state hstill).trans hs, rfl⟩
    | run | pause | stepInto | stepOver | stepOut | runToAddress | timeTravelBackward | timeTravelForward
    | timeTravelIndex => cases hc
    | _ => exact absurd rfl hquiet

theorem state_handle_of_displaces (hs : s.state = r.state) (hc : c.displaces r = true) :
    (s.handle c).2.state ≠ r.state := by
  obtain ⟨hidle, hrunning, hpaused⟩ := r.state_ne
  have hstart : ∀ s' : Scheduler, s'.state = s.state → s'.start.state = .running := by
    intro s' h
    rw [start, if_neg (h.trans hs ▸ hidle)]
    rfl
  cases c with
  | boot =>
    cases r with
    | boot => cases hc
    | reset => exact RunState.noConfusion
  | reset =>
    cases r with
    | boot => exact RunState.noConfusion
    | reset => cases hc
  | run => exact hstart s rfl ▸ hrunning.symm
  | runToAddress address => exact hstart (s.modifyDebugger (·.runTo address)) rfl ▸ hrunning.symm
  | pause =>
    have hpause : (s.handle .pause).2 = s.setState .paused := if_neg (hs ▸ hidle)
    rw [hpause]
    exact hpaused.symm
  | stepInto => exact hpaused.symm
  | stepOut => exact hrunning.symm
  | stepOver =>
    rcases s.state_stepOver with h | h
    · exact h ▸ hrunning.symm
    · exact h ▸ hpaused.symm
  | timeTravelBackward => exact s.state_travel _ ▸ hpaused.symm
  | timeTravelForward => exact s.state_travel _ ▸ hpaused.symm
  | timeTravelIndex index => exact s.state_travel _ ▸ hpaused.symm
  | _ => cases hc

/-- At a tick a request is done before anything else, or it stays. -/
theorem tick_of_request (hs : s.state = r.state) (now : Nat) :
    (∃ es, s.tickEvents now = ⟨r.act, s.machine⟩ :: es) ∨
      s.tickEvents now = [] ∧ (s.tick now).2.state = r.state := by
  cases h : s.enter? now with
  | none =>
    right
    exact ⟨by rw [tickEvents, h], (congrArg Standing.state (standing_tick_of_none h)).trans hs⟩
  | some f =>
    left
    refine ⟨f.frameEvents, ?_⟩
    rw [tickEvents, h]
    show s.requested ++ f.frameEvents = _
    rw [requested_of_state hs]
    rfl

/-- What becomes of a request of some inputs later. -/
inductive Fate (s : Scheduler) (r : Request) (inputs : List Input) : Prop
  /-- It stays, and nothing has happened to the machine. -/
  | kept (nothing : s.events inputs = []) (state : (s.after inputs).state = r.state)
  /-- It is done before anything else happens to the machine. -/
  | done (m : Machine) (es : List Event) (first : s.events inputs = ⟨r.act, m⟩ :: es)
  /-- A command takes its place before anything happens to the machine. -/
  | displaced (front : List Input) (time : Nat) (c : Command) (back : List Input)
    (split : inputs = front ++ .command time c :: back) (displaces : c.displaces r = true)
    (nothing : s.events front = []) (state : (s.after front).state = r.state)
    (lost : (s.after (front ++ [.command time c])).state ≠ r.state)

theorem fate_of_request (hs : s.state = r.state) (inputs : List Input) : s.Fate r inputs := by
  induction inputs generalizing s with
  | nil => exact .kept rfl hs
  | cons i inputs ih =>
    -- What the first input leaves pending meets its fate in the rest.
    have hlater : (react i s).1 = [] → (react i s).2.state = r.state → s.Fate r (i :: inputs) := by
      intro hnothing hstate
      have hevents : ∀ is, s.events (i :: is) = (react i s).2.events is := by
        intro is
        rw [events_cons, hnothing, List.nil_append]
      cases ih hstate with
      | kept nothing state => exact .kept ((hevents _).trans nothing) state
      | done m es first => exact .done m es ((hevents _).trans first)
      | displaced front time c back split displaces nothing state lost =>
        exact .displaced (i :: front) time c back (congrArg (i :: ·) split) displaces
          ((hevents _).trans nothing) state lost
    cases i with
    | tick time now =>
      rcases tick_of_request (s := s.atTime time) hs now with ⟨es, h⟩ | ⟨hnothing, hstate⟩
      · exact .done _ (es ++ _) (congrArg (· ++ _) h)
      · exact hlater hnothing hstate
    | command time c =>
      cases hc : c.displaces r with
      | true =>
        have hlost := state_handle_of_displaces (s := s.atTime time) hs hc
        exact .displaced [] time c inputs rfl hc rfl hs hlost
      | false =>
        obtain ⟨hstate, hnothing⟩ := state_handle_of_not_displaces (s := s.atTime time) hs hc
        exact hlater hnothing hstate

end Scheduler

/-- **A request is kept until it is displaced.** Whatever reaches a scheduler after a user asked for a boot or
a reset, one of three things holds: the request still stands and nothing has happened to the machine; it was
done, and that before anything else; or a command took its place while it stood, and it is lost.  The commands
that do this are exactly those that `Command.displaces` names. -/
theorem request_until_displaced (s₀ : Scheduler) (r : Request) (time : Nat) (inputs : List Input) :
    (s₀.after [.command time r.command]).Fate r inputs := by
  refine Scheduler.fate_of_request ?_ inputs
  cases r <;> rfl

/-- A step boots a machine first that was never booted, but not when its boot was asked for just before: then
it executes an instruction in a machine without a boot. -/
theorem boot_displaced_by_step :
    (Scheduler.withNops.events [.command 0 .stepInto]).map Event.act = [.boot, .instruction] ∧
      (Scheduler.withNops.events [.command 0 .boot, .command 0 .stepInto]).map Event.act =
        [.instruction] := by
  constructor <;> rfl

end AppleII
