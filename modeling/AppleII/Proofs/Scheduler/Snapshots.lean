import AppleII.Proofs.Scheduler.Agreement
import AppleII.Proofs.Scheduler.Halts
import AppleII.Proofs.Scheduler.Recall

/-!
# When snapshots are taken

A frame counts for the interval if it was complete, and a request stands until a frame is run, whether that one is
complete or the machine halts in it.  `Scheduler.SnapshotDue` says for which ticks this makes a snapshot, in terms of
the inputs before (`snapshot_iff_due`).  So the snapshot of a request can show a machine that has halted in the middle
of a frame (`snapshot_of_halted_frame`).
-/

namespace AppleII

/-- After `n` frames a snapshot is due at the next one if that is a multiple of the interval. -/
theorem SnapshotTimer.tick_eq {t : SnapshotTimer} {n : Nat} (hinterval : 0 < t.interval)
    (hframes : t.frames = n % t.interval) :
    t.tick = (decide (t.interval ∣ n + 1), { t with frames := (n + 1) % t.interval }) := by
  have hlt := Nat.mod_lt n hinterval
  have hnext : (n + 1) % t.interval = (n % t.interval + 1) % t.interval := by rw [Nat.mod_add_mod]
  unfold tick
  rw [if_neg (Nat.ne_of_gt hinterval), hframes]
  by_cases hlast : n % t.interval + 1 = t.interval
  · have hzero : (n + 1) % t.interval = 0 := by rw [hnext, hlast, Nat.mod_self]
    rw [if_pos (Nat.le_of_eq hlast.symm), hzero, decide_eq_true (Nat.dvd_of_mod_eq_zero hzero)]
  · have hbefore : n % t.interval + 1 < t.interval := Nat.lt_of_le_of_ne hlt hlast
    have hcount : (n + 1) % t.interval = n % t.interval + 1 := by rw [hnext, Nat.mod_eq_of_lt hbefore]
    have hpart : ¬t.interval ∣ n + 1 := by
      rw [Nat.dvd_iff_mod_eq_zero, hcount]
      exact Nat.succ_ne_zero _
    rw [if_neg (Nat.not_le.mpr hbefore), hcount, decide_eq_false hpart]

theorem SnapshotTimer.tick_of_interval_eq_zero {t : SnapshotTimer} (h : t.interval = 0) : t.tick = (false, t) :=
  if_pos h

namespace Scheduler

/-- The frame that an input runs, if it runs one: whether it is complete, or the machine halts in it. -/
def frame? (i : Input) (s : Scheduler) : Option Bool :=
  match i with
  | .command .. => none
  | .tick time now => ((s.atTime time).enter? now).map fun f => (f.machine.runFor frameCycles).1

/-- The frames that are run while some inputs are handled. -/
def framesRun (s : Scheduler) (inputs : List Input) : List Bool :=
  (runAll (fun i s => ((frame? i s).toList, (react i s).2)) inputs s).1.flatten

/-- A snapshot was asked for, and no frame was run since. -/
inductive Requested (s₀ : Scheduler) (inputs : List Input) : Prop
  | intro (front : List Input) (time : Nat) (back : List Input)
    (split : inputs = front ++ .command time .requestSnapshot :: back)
    (stands : (s₀.after (front ++ [.command time .requestSnapshot])).framesRun back = [])

/-- A tick after some inputs makes a snapshot. -/
inductive SnapshotDue (s₀ : Scheduler) (inputs : List Input) (time now : Nat) : Prop
  /-- It runs a frame, and a snapshot was asked for. -/
  | requested {complete : Bool} (frame : frame? (.tick time now) (s₀.after inputs) = some complete)
    (requested : s₀.Requested inputs)
  /-- It completes a frame, whose number is a multiple of the interval. -/
  | interval (frame : frame? (.tick time now) (s₀.after inputs) = some true) (pos : 0 < s₀.snapshots.interval)
    (multiple : s₀.snapshots.interval ∣ (s₀.framesRun inputs).count true + 1)

variable {s s₀ : Scheduler} {inputs : List Input}

theorem framesRun_cons (s : Scheduler) (i : Input) (is : List Input) :
    s.framesRun (i :: is) = (frame? i s).toList ++ (react i s).2.framesRun is := rfl

theorem framesRun_concat (s : Scheduler) (is : List Input) (i : Input) :
    s.framesRun (is ++ [i]) = s.framesRun is ++ (frame? i (s.after is)).toList := by
  induction is generalizing s with
  | nil => exact List.append_nil _
  | cons j is ih => rw [List.cons_append, framesRun_cons, ih, framesRun_cons, List.append_assoc, after_cons]

/-- A request is made by the last input, or the last input runs no frame. -/
theorem requested_concat {i : Input} : s₀.Requested (inputs ++ [i]) ↔
    (∃ time, i = .command time .requestSnapshot) ∨ s₀.Requested inputs ∧ frame? i (s₀.after inputs) = none := by
  constructor
  · rintro ⟨front, time, back, split, stands⟩
    rcases List.eq_nil_or_concat' back with rfl | ⟨back, j, rfl⟩
    · obtain ⟨-, hlast⟩ := List.append_inj' split rfl
      exact .inl ⟨time, List.singleton_inj.mp hlast⟩
    · have hsplit : inputs ++ [i] = (front ++ .command time .requestSnapshot :: back) ++ [j] := by
        rw [split, List.append_assoc]
        rfl
      obtain ⟨rfl, hlast⟩ := List.append_inj' hsplit rfl
      obtain rfl : i = j := List.singleton_inj.mp hlast
      rw [framesRun_concat, List.append_eq_nil_iff, Option.toList_eq_nil_iff, ← after_append, List.append_assoc]
        at stands
      exact .inr ⟨⟨front, time, back, rfl, stands.1⟩, stands.2⟩
  · rintro (⟨time, rfl⟩ | ⟨⟨front, time, back, rfl, stands⟩, hnone⟩)
    · exact ⟨inputs, time, [], rfl, rfl⟩
    · refine ⟨front, time, back ++ [i], by rw [List.append_assoc, List.cons_append], ?_⟩
      rw [framesRun_concat, stands, ← after_append, List.append_assoc]
      exact congrArg Option.toList hnone

/-! ## The timer and the request -/

/-- What decides about the next snapshot. -/
def timing (s : Scheduler) : SnapshotTimer × Bool := (s.snapshots, s.snapshotRequested)

theorem timing_adopt (s : Scheduler) (state : Option SaveState) : (s.adopt state).timing = s.timing := by
  unfold adopt
  split
  · split <;> rfl
  · rfl

theorem timing_travel (s : Scheduler) (move : History.Move SaveState) : (s.travel move).timing = s.timing :=
  timing_adopt _ _

/-- Commands have no say in when snapshots are taken, but for the request. -/
theorem timing_handle {c : Command} (hc : c ≠ .requestSnapshot) (s : Scheduler) :
    (s.handle c).2.timing = s.timing := by
  cases c with
  | requestSnapshot => exact absurd rfl hc
  | pause =>
    show timing (if _ then _ else _) = _
    split <;> rfl
  | stepInto => exact congrArg Prod.snd s.recording_stepInto
  | stepOver => exact congrArg Prod.snd s.recording_stepOver
  | stepOut => exact congrArg Prod.snd s.recording_stepOut
  | setDisassemblyAddress address =>
    show timing (if _ then _ else _) = _
    split <;> rfl
  | loadDisk drive name bytes =>
    show (s.loadDisk drive name bytes).2.timing = _
    unfold loadDisk
    split <;> rfl
  | ejectDisk drive =>
    show (s.ejectDisk drive).2.timing = _
    unfold ejectDisk
    split <;> rfl
  | restoreState state =>
    show (s.restoreState state).2.timing = _
    unfold restoreState
    split <;> rfl
  | timeTravelBackward | timeTravelForward | timeTravelIndex =>
    rw [handle_of_move rfl]
    exact s.timing_travel _
  | setRegister register value =>
    show (s.setRegister register value).timing = _
    unfold setRegister
    split <;> rfl
  | button index pressed =>
    show (s.pressButton index pressed).timing = _
    unfold pressButton
    split <;> rfl
  | boot | reset | run | runToAddress | setBreakpoint | clearBreakpoint | toggleBreakpoint | setSpeed | saveDisk
  | getSaveState | keyPress | setBinaryBlock => rfl

theorem recording_cycled (s : Scheduler) : s.cycled.recording = s.recording := by
  unfold cycled
  generalize s.machine.runFor frameCycles = r
  dsimp only
  split
  · exact s.recording_withMachine r.2
  · exact s.recording_withMachine r.2

theorem recording_polled (s : Scheduler) (now : Nat) : (s.polled now).recording = s.recording := by
  have hinput (s : Scheduler) : s.pollInput.recording = s.recording := by
    unfold pollInput
    split <;> rfl
  unfold polled
  dsimp only
  split
  · exact hinput (s.countFrame now)
  · rfl

/-- The timer is asked for complete frames only. -/
def asked (t : SnapshotTimer) (complete : Bool) : Bool × SnapshotTimer := if complete then t.tick else (false, t)

theorem interval_asked (t : SnapshotTimer) (complete : Bool) : (asked t complete).2.interval = t.interval := by
  unfold asked SnapshotTimer.tick
  split
  · split
    · rfl
    · split <;> rfl
  · rfl

theorem takeSnapshot_eq (s : Scheduler) (complete : Bool) :
    (s.takeSnapshot complete).machine = s.machine ∧
      (s.takeSnapshot complete).timing = ((asked s.snapshots complete).2, false) ∧
      (s.takeSnapshot complete).history =
        if s.snapshotRequested || (asked s.snapshots complete).1 then s.history.push s.machine.saveState
        else s.history := by
  have htake : s.takeSnapshot complete =
      if s.snapshotRequested || (asked s.snapshots complete).1 then
        { s with
          snapshots := (asked s.snapshots complete).2
          snapshotRequested := false
          history := s.history.push s.machine.saveState }
      else { s with snapshots := (asked s.snapshots complete).2 } := rfl
  rw [htake]
  split
  · exact ⟨rfl, rfl, rfl⟩
  · next hnone =>
    have hrequested : s.snapshotRequested = false := by
      simp only [Bool.or_eq_true, not_or] at hnone
      exact Bool.eq_false_iff.mpr hnone.1
    exact ⟨rfl, congrArg (Prod.mk _) hrequested, rfl⟩

/-- **A frame** ends the request, and makes a snapshot if there is one or if the timer says so. -/
theorem runFrame_snapshot (s : Scheduler) (now : Nat) {complete : Bool}
    (hcomplete : (s.machine.runFor frameCycles).1 = complete) :
    (s.runFrame now).timing = ((asked s.snapshots complete).2, false) ∧
      (s.runFrame now).history =
        if s.snapshotRequested || (asked s.snapshots complete).1 then
          s.history.push (s.runFrame now).machine.saveState
        else s.history := by
  have hrecording := (recording_polled s.cycled now).trans s.recording_cycled
  obtain ⟨hhistory, htiming⟩ := Prod.mk.inj hrecording
  obtain ⟨hsnapshots, hrequested⟩ := Prod.mk.inj htiming
  obtain ⟨hmachine, htiming, htaken⟩ := (s.cycled.polled now).takeSnapshot_eq complete
  rw [runFrame_eq, hcomplete, endFrame_eq]
  rw [hsnapshots] at htiming
  rw [hsnapshots, hrequested, hhistory, ← hmachine] at htaken
  exact ⟨htiming, htaken⟩

/-! ## Runs -/

/-- The frame of a tick is that of the scheduler which the tick enters. -/
theorem exists_enter?_of_frame {time now : Nat} {complete : Bool} (h : frame? (.tick time now) s = some complete) :
    ∃ f, (s.atTime time).enter? now = some f ∧ (f.machine.runFor frameCycles).1 = complete :=
  Option.map_eq_some_iff.mp h

theorem enter?_of_frame_eq_none {time now : Nat} (h : frame? (.tick time now) s = none) :
    (s.atTime time).enter? now = none := Option.map_eq_none_iff.mp h

/-- **A frame** asks the timer, if it is complete, and ends the request. -/
theorem timing_react_of_frame {i : Input} {complete : Bool} (h : frame? i s = some complete) :
    (react i s).2.timing = ((asked s.snapshots complete).2, false) := by
  cases i with
  | command time c => cases h
  | tick time now =>
    obtain ⟨f, henter, hcomplete⟩ := exists_enter?_of_frame h
    have hsnapshots : f.snapshots = s.snapshots := congrArg (fun p => p.2.1) (recording_enter henter)
    show ((s.atTime time).tick now).2.timing = _
    rw [tick_of_enter henter, ← hsnapshots]
    exact (f.runFrame_snapshot now hcomplete).1

/-- What runs no frame leaves the timer alone, and makes a request or leaves it alone. -/
theorem timing_react_of_none {i : Input} (h : frame? i s = none) :
    (react i s).2.snapshots = s.snapshots ∧
      ((react i s).2.snapshotRequested = true ↔
        (∃ time, i = .command time .requestSnapshot) ∨ s.snapshotRequested = true) := by
  have hquiet (htiming : (react i s).2.timing = s.timing) (hi : ∀ time, i ≠ .command time .requestSnapshot) :
      (react i s).2.snapshots = s.snapshots ∧
        ((react i s).2.snapshotRequested = true ↔
          (∃ time, i = .command time .requestSnapshot) ∨ s.snapshotRequested = true) := by
    obtain ⟨hsnapshots, hrequested⟩ := Prod.mk.inj htiming
    rw [hsnapshots, hrequested]
    refine ⟨rfl, .inr, ?_⟩
    rintro (⟨time, rfl⟩ | hrequested)
    · exact absurd rfl (hi time)
    · exact hrequested
  cases i with
  | command time c =>
    by_cases hc : c = .requestSnapshot
    · subst hc
      exact ⟨rfl, fun _ => .inl ⟨time, rfl⟩, fun _ => rfl⟩
    · exact hquiet (timing_handle hc (s.atTime time)) fun _ heq => hc (Input.command.inj heq).2
  | tick time now =>
    refine hquiet ?_ fun _ heq => nomatch heq
    show ((s.atTime time).tick now).2.timing = _
    rcases tick_of_none (enter?_of_frame_eq_none h) with heq | heq
    · rw [heq]
      rfl
    · rw [heq]
      rfl

/-- The timer and the request after some inputs. -/
structure Timed (s₀ : Scheduler) (inputs : List Input) : Prop where
  interval : (s₀.after inputs).snapshots.interval = s₀.snapshots.interval
  counted : 0 < s₀.snapshots.interval →
    (s₀.after inputs).snapshots.frames = (s₀.framesRun inputs).count true % s₀.snapshots.interval
  requested : (s₀.after inputs).snapshotRequested = true ↔ s₀.Requested inputs

namespace Timed

theorem nil (hrequested : s₀.snapshotRequested = false) (hframes : s₀.snapshots.frames = 0) : s₀.Timed [] where
  interval := rfl
  counted _ := hframes.trans (Nat.zero_mod _).symm
  requested := by
    have hnone : ¬s₀.Requested [] := by
      rintro ⟨front, time, back, split, -⟩
      exact absurd split.symm (List.append_ne_nil_of_right_ne_nil _ (List.cons_ne_nil _ _))
    refine ⟨fun h => ?_, fun h => absurd h hnone⟩
    rw [show (s₀.after []).snapshotRequested = s₀.snapshotRequested from rfl, hrequested] at h
    cases h

/-- The timer at a complete frame. -/
theorem asked_true (h : s₀.Timed inputs) (hpos : 0 < s₀.snapshots.interval) :
    asked (s₀.after inputs).snapshots true =
      (decide (s₀.snapshots.interval ∣ (s₀.framesRun inputs).count true + 1),
        { (s₀.after inputs).snapshots with
          frames := ((s₀.framesRun inputs).count true + 1) % s₀.snapshots.interval }) := by
  have hframes := h.counted hpos
  rw [← h.interval] at hpos hframes ⊢
  exact SnapshotTimer.tick_eq hpos hframes

/-- One more input. -/
theorem concat (h : s₀.Timed inputs) (i : Input) : s₀.Timed (inputs ++ [i]) := by
  cases hframe : frame? i (s₀.after inputs) with
  | none =>
    obtain ⟨hsnapshots, hrequested⟩ := timing_react_of_none hframe
    rw [← after_concat] at hsnapshots hrequested
    refine ⟨?_, fun hpos => ?_, ?_⟩
    · rw [hsnapshots, h.interval]
    · rw [hsnapshots, h.counted hpos, framesRun_concat, hframe]
      simp
    · rw [hrequested, h.requested, requested_concat]
      simp [hframe]
  | some complete =>
    have htiming := timing_react_of_frame hframe
    rw [← after_concat] at htiming
    obtain ⟨hsnapshots, hrequested⟩ := Prod.mk.inj htiming
    refine ⟨?_, fun hpos => ?_, ?_⟩
    · rw [hsnapshots, interval_asked, h.interval]
    · rw [hsnapshots, framesRun_concat, hframe, List.count_append]
      cases complete with
      | false => exact h.counted hpos
      | true => exact congrArg (fun p => p.2.frames) (h.asked_true hpos)
    · have hnone : ¬s₀.Requested (inputs ++ [i]) := by
        rw [requested_concat, hframe]
        rintro (⟨time, rfl⟩ | ⟨-, hno⟩)
        · cases hframe
        · cases hno
      rw [hrequested]
      exact ⟨nofun, fun hreq => absurd hreq hnone⟩

theorem after (hrequested : s₀.snapshotRequested = false) (hframes : s₀.snapshots.frames = 0)
    (inputs : List Input) : s₀.Timed inputs := by
  induction inputs using List.reverseRecOn with
  | nil => exact .nil hrequested hframes
  | append_singleton inputs i ih => exact ih.concat i

/-- The request and the timer make a snapshot exactly when it is due. -/
theorem due_iff (h : s₀.Timed inputs) {time now : Nat} {complete : Bool}
    (hframe : frame? (.tick time now) (s₀.after inputs) = some complete) :
    ((s₀.after inputs).snapshotRequested || (asked (s₀.after inputs).snapshots complete).1) = true ↔
      s₀.SnapshotDue inputs time now := by
  rw [Bool.or_eq_true, h.requested]
  constructor
  · rintro (hrequested | hasked)
    · exact .requested hframe hrequested
    · cases complete with
      | false => cases hasked
      | true =>
        rcases Nat.eq_zero_or_pos s₀.snapshots.interval with hzero | hpos
        · have htick := SnapshotTimer.tick_of_interval_eq_zero (h.interval.trans hzero)
          rw [show asked (s₀.after inputs).snapshots true = (s₀.after inputs).snapshots.tick from rfl, htick]
            at hasked
          cases hasked
        · rw [h.asked_true hpos] at hasked
          exact .interval hframe hpos (of_decide_eq_true hasked)
  · rintro (⟨-, hrequested⟩ | ⟨hframe', hpos, hmultiple⟩)
    · exact .inl hrequested
    · obtain rfl : complete = true := Option.some.inj (hframe.symm.trans hframe')
      rw [h.asked_true hpos]
      exact .inr (decide_eq_true hmultiple)

end Timed

/-- A tick records the state that it leaves the machine in when a snapshot is due. -/
theorem Timed.history_tick (h : s₀.Timed inputs) (time now : Nat) :
    (s₀.SnapshotDue inputs time now → (s₀.after (inputs ++ [.tick time now])).history =
        (s₀.after inputs).history.push (s₀.after (inputs ++ [.tick time now])).machine.saveState) ∧
      (¬s₀.SnapshotDue inputs time now →
        (s₀.after (inputs ++ [.tick time now])).history = (s₀.after inputs).history) := by
  have hafter : s₀.after (inputs ++ [.tick time now]) = (((s₀.after inputs).atTime time).tick now).2 :=
    s₀.after_concat inputs _
  rw [hafter]
  cases hframe : frame? (.tick time now) (s₀.after inputs) with
  | none =>
    refine ⟨?_, fun _ => ?_⟩
    · rintro (⟨hframe', -⟩ | ⟨hframe', -⟩)
      all_goals cases hframe.symm.trans hframe'
    · rcases tick_of_none (enter?_of_frame_eq_none hframe) with heq | heq
      · rw [heq]
        rfl
      · rw [heq]
        rfl
  | some complete =>
    obtain ⟨f, henter, hcomplete⟩ := exists_enter?_of_frame hframe
    obtain ⟨hkept, htiming⟩ := Prod.mk.inj (recording_enter henter)
    obtain ⟨hsnapshots, hrequested⟩ := Prod.mk.inj htiming
    have hhistory := (f.runFrame_snapshot now hcomplete).2
    rw [hsnapshots, hrequested, hkept] at hhistory
    have hdue := h.due_iff hframe
    rw [tick_of_enter henter]
    exact ⟨fun hyes => hhistory.trans (if_pos (hdue.mpr hyes)),
      fun hno => hhistory.trans (if_neg fun hyes => hno (hdue.mp hyes))⟩

/-- No command records a state. -/
theorem newest_handle (s : Scheduler) (c : Command) : (s.handle c).2.history.newest = s.history.newest := by
  cases hc : c.move? with
  | none => rw [history_handle hc]
  | some move =>
    rw [handle_of_move hc, history_travel]
    exact (Command.moved_of_move? hc _ _).newest

end Scheduler

/-- **When snapshots are taken.** Take a scheduler without a request, whose timer has not counted a frame, and any
commands and ticks.  A tick after them records the state that it leaves the machine in, once, exactly if one of two
things holds: it runs a frame and a snapshot was asked for since the last frame that was run, or it completes a frame
whose number among the complete ones is a multiple of the interval, which is not 0.  A frame in which the machine halts
does not count for the interval, but it is as good as any other for a request.  No command records a state. -/
theorem snapshot_iff_due {s₀ : Scheduler} (hrequested : s₀.snapshotRequested = false)
    (hframes : s₀.snapshots.frames = 0) (inputs : List Input) :
    (∀ time now,
      (s₀.SnapshotDue inputs time now → (s₀.after (inputs ++ [.tick time now])).history =
        (s₀.after inputs).history.push (s₀.after (inputs ++ [.tick time now])).machine.saveState) ∧
      (¬s₀.SnapshotDue inputs time now →
        (s₀.after (inputs ++ [.tick time now])).history = (s₀.after inputs).history)) ∧
      ∀ time c, (s₀.after (inputs ++ [.command time c])).history.newest = (s₀.after inputs).history.newest := by
  refine ⟨(Scheduler.Timed.after hrequested hframes inputs).history_tick, fun time c => ?_⟩
  rw [Scheduler.after_concat]
  exact Scheduler.newest_handle _ c

/-- A snapshot is asked for, and then a breakpoint at the reset vector ends the frame at once. -/
def haltedFrame : List Input :=
  [.command 0 .requestSnapshot, .command 0 (.setBreakpoint 0xEAEA), .command 0 .boot]

theorem Scheduler.frame?_of_paused {time now : Nat} {s f : Scheduler} (h : (s.atTime time).enter? now = some f)
    (hpaused : (react (.tick time now) s).2.state = .paused) : frame? (.tick time now) s = some false := by
  have hrunning : f.state = .running := by
    rcases enter?_cases h with ⟨r, -, hserved⟩ | ⟨hstate, rfl⟩
    · exact congrArg Standing.state hserved
    · exact hstate
  have hstate : (f.runFrame now).state = .paused := by
    have htick : ((s.atTime time).tick now).2.state = .paused := hpaused
    rwa [tick_of_enter h] at htick
  have hstanding := (congrArg Standing.state (standing_runFrame f now)).symm.trans hstate
  dsimp only at hstanding
  unfold frame?
  dsimp only
  rw [h]
  cases hcomplete : (f.machine.runFor frameCycles).1 with
  | false => exact congrArg some hcomplete
  | true =>
    rw [hcomplete, if_pos rfl, hrunning] at hstanding
    cases hstanding

theorem frame?_haltedFrame :
    Scheduler.frame? (.tick 0 16688100) (Scheduler.withNops.after haltedFrame) = some false := by
  have hmemory (s : Scheduler) : (s.after [.command 0 .requestSnapshot]).machine.memory = s.machine.memory := rfl
  have hspeed (s : Scheduler) : (s.after [.command 0 .requestSnapshot]).speedMode = s.speedMode := rfl
  have hpc := pc_boot_of_nops (hmemory Scheduler.withNops)
  have hdue : Scheduler.withNops.speedMode.refresh ≤ 16688100 := le_rfl
  rw [← hspeed] at hdue
  have hsplit := Scheduler.withNops.after_append [.command 0 .requestSnapshot]
    [.command 0 (.setBreakpoint 0xEAEA), .command 0 .boot]
  obtain ⟨⟨f, hf⟩, hpaused⟩ := Scheduler.paused_after_boot _ hpc hdue
  rw [Scheduler.after_concat] at hpaused
  rw [haltedFrame, ← List.singleton_append, hsplit]
  exact Scheduler.frame?_of_paused hf hpaused

theorem snapshotDue_haltedFrame : Scheduler.withNops.SnapshotDue haltedFrame 0 16688100 :=
  .requested frame?_haltedFrame (.intro [] 0 _ rfl rfl)

theorem snapshot_iff_due_haltedFrame :
    Scheduler.withNops.snapshotRequested = false ∧ Scheduler.withNops.snapshots.frames = 0 ∧
      Scheduler.withNops.SnapshotDue haltedFrame 0 16688100 ∧
      (Scheduler.withNops.after (haltedFrame ++ [.tick 0 16688100])).history =
        (Scheduler.withNops.after haltedFrame).history.push
          (Scheduler.withNops.after (haltedFrame ++ [.tick 0 16688100])).machine.saveState := by
  obtain ⟨hticks, -⟩ := @snapshot_iff_due Scheduler.withNops rfl rfl haltedFrame
  exact ⟨rfl, rfl, snapshotDue_haltedFrame, (hticks 0 16688100).1 snapshotDue_haltedFrame⟩

/-- **The snapshot of a request can be one of a frame cut short.** The frame is not complete, but it makes the
snapshot. -/
theorem snapshot_of_halted_frame :
    Scheduler.frame? (.tick 0 16688100) (Scheduler.withNops.after haltedFrame) = some false ∧
      (Scheduler.withNops.after haltedFrame).history.newest = 0 ∧
      (Scheduler.withNops.after (haltedFrame ++ [.tick 0 16688100])).history.newest = 1 := by
  have htimed := @Scheduler.Timed.after Scheduler.withNops rfl rfl haltedFrame
  refine ⟨frame?_haltedFrame, rfl, ?_⟩
  rw [(htimed.history_tick 0 16688100).1 snapshotDue_haltedFrame]
  rfl

end AppleII
