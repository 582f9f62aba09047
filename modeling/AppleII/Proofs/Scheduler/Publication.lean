import AppleII.Proofs.Disk.Hearing
import AppleII.Proofs.Scheduler.Agreement

/-!
# The drive events on the panels

A command or a tick may publish more than one panel, of which a scheduler keeps the last only.  Its `stages` are the
schedulers that it goes through, with one panel at most from each of them to the next, so that `panels` are all the
panels of a run.  The events that they show are compared with the ones that a scheduler hears that is listened to.
-/

namespace AppleII

open Disk (Chronicle DriveEvent)

namespace Scheduler

/-! ## The panels of a run -/

/-- The schedulers in the middle of an input. -/
def between (i : Input) (s : Scheduler) : List Scheduler :=
  match i with
  | .command time c => if c.move?.isSome then [(s.atTime time).setState .paused] else []
  | .tick time now =>
    match (s.atTime time).enter? now with
    | some f => [f, f.cycled, f.cycled.polled now]
    | none => []

/-- The schedulers that an input goes through. -/
def stages (i : Input) (s : Scheduler) : List Scheduler := between i s ++ [(react i s).2]

/-- The panel that was published between a scheduler and a later one, if there was one. -/
def panel? (s t : Scheduler) : Option Panel := if t.published = s.published then none else some t.latest

/-- The panels that were published along some schedulers. -/
def panelsAlong : Scheduler → List Scheduler → List Panel
  | _, [] => []
  | s, t :: ts => (s.panel? t).toList ++ panelsAlong t ts

/-- The panels of an input, and the scheduler after it. -/
def exhibit (i : Input) (s : Scheduler) : List Panel × Scheduler := (s.panelsAlong (stages i s), (react i s).2)

/-- Every panel that is published while some inputs are handled, the first one first. -/
def panels (s : Scheduler) (inputs : List Input) : List Panel := (runAll exhibit inputs s).1.flatten

theorem panels_cons (s : Scheduler) (i : Input) (is : List Input) :
    s.panels (i :: is) = s.panelsAlong (stages i s) ++ (react i s).2.panels is := rfl

/-- The drive events on some panels. -/
def driveEvents (panels : List Panel) : List DriveEvent := panels.flatMap Panel.driveEvents

theorem driveEvents_append (ps qs : List Panel) : driveEvents (ps ++ qs) = driveEvents ps ++ driveEvents qs :=
  List.flatMap_append

/-- The scheduler, its disk controller with an empty log of every event. -/
def listening (s : Scheduler) : Scheduler := s.setDisk s.machine.disk.listening

/-- The events that the disk controller emits while some inputs are handled: the ones that are heard. -/
def emitted (s : Scheduler) (inputs : List Input) : List DriveEvent :=
  (s.listening.after inputs).machine.disk.log.heard

/-! ## One panel -/

/-- From a scheduler to a later one some panels were published, and no others. -/
structure Shows (s : Scheduler) (panels : List Panel) (t : Scheduler) : Prop where
  count : t.published = s.published + panels.length
  latest : t.latest = panels.getLast?.getD s.latest
  pending : s.pending = [] → t.pending = []

theorem Shows.trans {s t u : Scheduler} {ps qs : List Panel} (h : s.Shows ps t) (h' : t.Shows qs u) :
    s.Shows (ps ++ qs) u where
  count := by rw [h'.count, h.count, List.length_append, Nat.add_assoc]
  latest := by
    rw [h'.latest, h.latest, List.getLast?_append]
    cases qs.getLast? <;> rfl
  pending hs := h'.pending (h.pending hs)

/-- A scheduler, and its twin that is listened to: the events from before and those that were heard are the ones
that were shown, and those that are still to be shown. -/
def Hears (before shown : List DriveEvent) (s s' : Scheduler) : Prop :=
  Twins (Chronicle.Hears before (shown ++ s.pending)) s.display s s'

variable {R : Chronicle → Chronicle → Prop} {d : Display} {before shown : List DriveEvent}
  {s s' t t' u u' : Scheduler}

theorem Twins.display_eq (h : Twins R d s s') : s'.display = d := by
  obtain ⟨hd, m, rfl, -⟩ := h
  exact hd

theorem Twins.published (h : Twins R d s s') : s'.published = s.published :=
  congrArg Display.published (h.display_eq.trans h.1.symm)

theorem Twins.view (h : Twins R d s s') : s'.view = s.view := by
  obtain ⟨-, m, rfl, ⟨o, hcpu⟩, ⟨⟨n, hmemory⟩, ⟨x, hdisk, -⟩, hclock⟩, hdebugger, -, -⟩ := h
  unfold Scheduler.view Machine.switches Machine.clock Machine.disk
  dsimp only
  rw [hcpu, hmemory, hdisk, ← hclock, ← hdebugger]

theorem latest_publish (s : Scheduler) :
    s.publish.latest = { s.view with driveEvents := s.pending ++ s.machine.disk.events.toList } := rfl

theorem publish_eq {s : Scheduler} {panel : Panel} (h : s.publish.latest = panel) : s.publish = { s with
    machine.board.disk := s.machine.disk.takeEvents.2
    pending := []
    latest := panel
    published := s.published + 1 } := by
  subst h
  rfl

/-- Twins publish the same panel, if they have the same events. -/
theorem Twins.latest_publish (h : Twins R d s s') (hevents : s.machine.disk.events = s'.machine.disk.events) :
    s'.publish.latest = s.publish.latest := by
  have hview := h.view
  obtain ⟨-, m, rfl, -⟩ := h
  rw [Scheduler.latest_publish, Scheduler.latest_publish, hview, hevents]

/-- **A panel** shows the events that were to be shown, and takes them out of the queue. -/
theorem Hears.publish (h : Hears before shown s s') :
    Hears before (shown ++ s.publish.latest.driveEvents) s.publish s'.publish ∧
      s'.publish.latest = s.publish.latest := by
  obtain ⟨hevents, htaken⟩ := h.machine.board.disk.takeEvents
  have hlatest := h.latest_publish hevents
  refine ⟨?_, hlatest⟩
  obtain ⟨-, m, rfl, hm⟩ := h
  have htakes : shown ++ s.publish.latest.driveEvents ++ [] =
      shown ++ s.pending ++ s.machine.disk.events.toList := by
    rw [Scheduler.latest_publish, List.append_nil, List.append_assoc]
  -- Nothing is pending any more, and the queue is empty: what was heard was shown.
  rw [publish_eq hlatest]
  refine ⟨rfl, { m with board.disk := m.disk.takeEvents.2 }, rfl, ?_⟩
  show Machine.Agree (Chronicle.Hears before (shown ++ s.publish.latest.driveEvents ++ [])) _ _
  rw [htakes]
  exact hm.withDisk htaken

/-! ## Stages -/

theorem Hears.of_twins (h : Twins (Chronicle.Hears before (shown ++ d.pending)) d s s') :
    Hears before shown s s' := by
  obtain ⟨rfl, h⟩ := h
  exact ⟨rfl, h⟩

theorem shows_quiet (h : t.display = s.display) : s.panel? t = none ∧ s.Shows [] t := by
  have hpublished : t.published = s.published := congrArg Display.published h
  have hlatest : t.latest = s.latest := congrArg Display.latest h
  have hpending : t.pending = s.pending := congrArg Display.pending h
  exact ⟨if_pos hpublished, hpublished, hlatest, hpending.trans⟩

theorem shows_publish (h : u.display = s.display) :
    s.panel? u.publish = some u.publish.latest ∧ s.Shows [u.publish.latest] u.publish := by
  have hpublished : u.publish.published = s.published + 1 := congrArg (Display.published · + 1) h
  refine ⟨if_neg ?_, hpublished, rfl, fun _ => rfl⟩
  rw [hpublished]
  exact Nat.succ_ne_self s.published

/-- What was heard at a stage was shown on its panel, or is still to be shown. -/
theorem Stage.hears (h : Stage (Chronicle.Hears before (shown ++ s.pending)) s.display t t') :
    Hears before (shown ++ driveEvents (s.panel? t).toList) t t' ∧ s.panel? t' = s.panel? t ∧
      s.Shows (s.panel? t).toList t := by
  cases h with
  | quiet twins =>
    obtain ⟨hpanel, hshows⟩ := shows_quiet twins.1
    rw [hpanel, (shows_quiet twins.display_eq).1]
    refine ⟨?_, rfl, hshows⟩
    rw [show driveEvents (none : Option Panel).toList = [] from rfl, List.append_nil]
    exact .of_twins twins
  | @published u u' twins eq eq' =>
    subst eq eq'
    obtain ⟨hpanel, hshows⟩ := shows_publish twins.1
    obtain ⟨hhears, hlatest⟩ := (Hears.of_twins twins).publish
    rw [hpanel, (shows_publish twins.display_eq).1, hlatest]
    refine ⟨?_, rfl, hshows⟩
    rw [show driveEvents (some u.publish.latest).toList = u.publish.latest.driveEvents from List.append_nil _]
    exact hhears

/-- What was heard along some schedulers was shown on their panels, or is still to be shown. -/
structure Passes (before shown : List DriveEvent) (s s' : Scheduler) (ts ts' : List Scheduler)
    (t t' : Scheduler) : Prop where
  hears : Hears before (shown ++ driveEvents (s.panelsAlong ts)) t t'
  same : s'.panelsAlong ts' = s.panelsAlong ts
  shows : s.Shows (s.panelsAlong ts) t

variable {ts ts' : List Scheduler}

theorem Passes.nil (h : Hears before shown s s') : Passes before shown s s' [] [] s s' := by
  refine ⟨?_, rfl, rfl, rfl, fun h => h⟩
  rw [show driveEvents (s.panelsAlong []) = [] from rfl, List.append_nil]
  exact h

theorem Stage.passes (h : Stage (Chronicle.Hears before (shown ++ s.pending)) s.display t t')
    (hsame : s'.published = s.published)
    (rest : ∀ {shown}, Hears before shown t t' → Passes before shown t t' ts ts' u u') :
    Passes before shown s s' (t :: ts) (t' :: ts') u u' := by
  obtain ⟨hhears, hpanel, hshows⟩ := h.hears
  obtain ⟨hrest, hpanels, hrests⟩ := rest hhears
  have hpanel' : s'.panel? t' = s.panel? t := by
    rw [← hpanel]
    unfold panel?
    rw [hsame]
  refine ⟨?_, ?_, hshows.trans hrests⟩
  · rw [panelsAlong, driveEvents_append, ← List.append_assoc]
    exact hrest
  · rw [panelsAlong, panelsAlong, hpanel', hpanels]

/-- **An input** shows what was heard while it was handled, or it is still to be shown. -/
theorem Hears.react (h : Hears before shown s s') (i : Input) :
    Passes before shown s s' (stages i s) (stages i s') (react i s).2 (react i s').2 := by
  have hsame := h.published
  have hat (time : Nat) :
      Twins (Chronicle.Hears before (shown ++ s.pending)) s.display (s.atTime time) (s'.atTime time) := by
    obtain ⟨hd, m, rfl, hm⟩ := h
    exact ⟨hd, m, rfl, hm⟩
  unfold stages between Scheduler.react
  cases i with
  | command time c =>
    dsimp only
    cases hc : c.move? with
    | none => exact ((hat time).handle hc).passes hsame .nil
    | some move =>
      -- The pause is shown before the machine is put into another state, and that is shown once more.
      rw [handle_of_move hc, handle_of_move hc]
      refine ((hat time).setState .paused).passes hsame fun hpaused => ?_
      exact ((hat time).travel hpaused move).passes hpaused.published .nil
  | tick time now =>
    dsimp only
    rcases (hat time).enter? now with ⟨hnone, hnone', hidle⟩ | ⟨f, f', hf, hf', hstage⟩
    · rw [hnone, hnone']
      exact (Stage.quiet hidle).passes hsame .nil
    · rw [hf, hf', tick_of_enter hf, tick_of_enter hf']
      -- Each part of a frame may publish: it is entered, it halts, and it is counted.
      refine hstage.passes hsame fun hentered => ?_
      obtain ⟨hcomplete, hcycled⟩ := hentered.cycled
      refine hcycled.passes hentered.published fun hcycled => ?_
      refine (hcycled.polled now).passes hcycled.published fun hpolled => ?_
      rw [runFrame_eq, runFrame_eq, endFrame_eq, endFrame_eq, ← hcomplete]
      exact (Stage.quiet (hpolled.takeSnapshot _)).passes hpolled.published .nil

/-- **A run** shows what was heard, or it is still to be shown. -/
theorem Hears.after (h : Hears before shown s s') (inputs : List Input) :
    Hears before (shown ++ driveEvents (s.panels inputs)) (s.after inputs) (s'.after inputs) ∧
      s'.panels inputs = s.panels inputs ∧ s.Shows (s.panels inputs) (s.after inputs) := by
  induction inputs generalizing s s' shown with
  | nil =>
    obtain ⟨hhears, hpanels, hshows⟩ := Passes.nil h
    exact ⟨hhears, hpanels, hshows⟩
  | cons i is ih =>
    obtain ⟨hhears, hpanels, hshows⟩ := h.react i
    obtain ⟨hrest, hrests, hmore⟩ := ih hhears
    rw [panels_cons, panels_cons, after_cons, after_cons, driveEvents_append, ← List.append_assoc, hpanels, hrests]
    exact ⟨hrest, rfl, hshows.trans hmore⟩

theorem hears_listening (s : Scheduler) :
    Hears (s.pending ++ s.machine.disk.events.toList) [] s s.listening :=
  ⟨rfl, _, rfl, ⟨s.machine.cpu.lastOpcode, rfl⟩,
    ⟨⟨s.machine.memory.speakerClicks, rfl⟩, s.machine.disk.agree_listening s.pending, rfl⟩, rfl, rfl, rfl⟩

end Scheduler

open Scheduler

/-- **Every drive event is published once.** From a scheduler that has taken no events yet, as a new one has not, the
events on all the panels of a run, and then those that still wait in the disk controller, are the ones that waited at
first, and then those that the controller emitted: none is lost, none comes twice, and they stay in order.  The panels
are all that were published, the last one is the one that is kept, and they are the same when somebody listens. -/
theorem drive_events_published_once (s : Scheduler) (hnew : s.pending = []) (inputs : List Input) :
    driveEvents (s.panels inputs) ++ (s.after inputs).machine.disk.events.toList =
        s.machine.disk.events.toList ++ s.emitted inputs ∧
      (s.after inputs).pending = [] ∧
      (s.after inputs).published = s.published + (s.panels inputs).length ∧
      (s.after inputs).latest = (s.panels inputs).getLast?.getD s.latest ∧
      s.listening.panels inputs = s.panels inputs := by
  obtain ⟨hhears, hpanels, hshows⟩ := s.hears_listening.after inputs
  have hpending := hshows.pending hnew
  obtain ⟨x, hdisk, hx⟩ := hhears.machine.board.disk
  have hemitted : s.emitted inputs = x.log.heard := congrArg (·.log.heard) hdisk
  have hheard := hx.heard
  rw [hnew, hpending, List.nil_append, List.nil_append, List.append_nil, ← hemitted] at hheard
  exact ⟨hheard.symm, hpending, hshows.count, hshows.latest, hpanels⟩

/-- A paused machine whose first motor runs: it is reported whenever the machine goes on. -/
theorem drive_events_published_once_paused :
    let s : Scheduler :=
      { machine := { Machine.ofModel .cmos with board.disk.drives.first.motorRunning := true }, state := .paused }
    let inputs : List Input :=
      [.command 0 .run, .command 1 (.ejectDisk 2), .command 2 .timeTravelForward, .command 3 .run]
    driveEvents (s.panels inputs) ++ (s.after inputs).machine.disk.events.toList = [] ++ s.emitted inputs ∧
      (s.panels inputs).map (·.driveEvents) = [[.motorOn 0], [], [], [.motorOn 0]] ∧
      s.emitted inputs = [.motorOn 0, .motorOn 0] := by
  intro s inputs
  obtain ⟨hevents, -⟩ := drive_events_published_once s rfl inputs
  exact ⟨hevents, rfl, rfl⟩

end AppleII
