import AppleII.Proofs.Disk.Agreement

/-!
# A controller that is listened to

Every event of a controller is queued, and it is logged if its category is switched on.  A controller that is
listened to logs all of them, and does nothing else differently (`Chronicle.Hears`).  So its log tells which events
there were, also of a controller with another log, whatever became of them in the queue.
-/

namespace AppleII.Disk

namespace LogLevels

/-- The categories of all events switched on. -/
def withEvents (levels : LogLevels) : LogLevels := { levels with flow := true, state := true }

/-- Every event is logged. -/
def Listens (levels : LogLevels) : Prop := ∀ e : DriveEvent, (LogEntry.event e).enabled levels = true

theorem listens_withEvents (levels : LogLevels) : levels.withEvents.Listens := by
  intro e
  cases e <;> rfl

end LogLevels

namespace Log

/-- The events in a log, the oldest one first. -/
def heard (l : Log) : List DriveEvent := l.entries.toList.filterMap LogEntry.event?

theorem levels_add (l : Log) (e : LogEntry) : (l.add e).levels = l.levels := by
  unfold add
  split <;> rfl

theorem heard_add_of_none (l : Log) {e : LogEntry} (h : e.event? = none) : (l.add e).heard = l.heard := by
  unfold add
  split
  · simp [heard, h]
  · rfl

theorem heard_add_event {l : Log} (h : l.levels.Listens) (e : DriveEvent) :
    (l.add (.event e)).heard = l.heard ++ [e] := by
  unfold add
  rw [if_pos (h e)]
  simp [heard, LogEntry.event?]

end Log

namespace Chronicle

/-- Two chronicles with the same events and bytes.  The second one is listened to: the events from `before` its log
was begun and those in its log are the ones that were `taken` and those that still wait. -/
structure Hears (before taken : List DriveEvent) (x y : Chronicle) : Prop where
  events : y.events = x.events
  recent : y.recent = x.recent
  bits : y.log.levels.bits = x.log.levels.bits
  listens : y.log.levels.Listens
  heard : before ++ y.log.heard = taken ++ x.events.toList

theorem levels_note (x : Chronicle) (e : LogEntry) : (x.note e).log.levels = x.log.levels := x.log.levels_add e

theorem levels_emit (x : Chronicle) (e : DriveEvent) : (x.emit e).log.levels = x.log.levels :=
  x.log.levels_add (.event e)

variable {before taken : List DriveEvent} {x y : Chronicle}

namespace Hears

theorem note (h : Hears before taken x y) {e e' : LogEntry} (he' : e'.event? = none) :
    Hears before taken (x.note e) (y.note e') where
  events := h.events
  recent := h.recent
  bits := by rw [levels_note, levels_note, h.bits]
  listens := by
    rw [levels_note]
    exact h.listens
  heard := (congrArg (before ++ ·) (Log.heard_add_of_none y.log he')).trans h.heard

theorem emit (h : Hears before taken x y) (e : DriveEvent) : Hears before taken (x.emit e) (y.emit e) where
  events := congrArg (·.push e) h.events
  recent := h.recent
  bits := by rw [levels_emit, levels_emit, h.bits]
  listens := by
    rw [levels_emit]
    exact h.listens
  heard := by
    show before ++ (y.log.add (.event e)).heard = taken ++ (x.events.push e).toList
    rw [Log.heard_add_event h.listens, Array.toList_push, ← List.append_assoc, ← List.append_assoc, h.heard]

theorem remember (h : Hears before taken x y) (byte : UInt8) :
    Hears before taken (x.remember byte) (y.remember byte) := by
  unfold Chronicle.remember
  rw [h.bits]
  split
  · exact ⟨h.events, congrArg (·.push byte) h.recent, h.bits, h.listens, h.heard⟩
  · exact h

/-- The events that wait are taken. -/
theorem take (h : Hears before taken x y) :
    Hears before (taken ++ x.events.toList) { x with events := #[] } { y with events := #[] } where
  events := rfl
  recent := h.recent
  bits := h.bits
  listens := h.listens
  heard := by
    rw [h.heard]
    exact (List.append_nil _).symm

end Hears

instance : Kept (Hears before taken) where
  note h _ he := h.note he
  noteRecent h _ := h.note rfl
  emit := Hears.emit
  remember := Hears.remember

end Chronicle

namespace Controller

/-- The controller with an empty log of every event. -/
def listening (c : Controller) : Controller := { c with log := { levels := c.log.levels.withEvents } }

theorem agree_listening (c : Controller) (taken : List DriveEvent) :
    c.Agree (Chronicle.Hears (taken ++ c.events.toList) taken) c.listening :=
  ⟨⟨c.events, c.recent, { levels := c.log.levels.withEvents }⟩, rfl, rfl, rfl, rfl,
    c.log.levels.listens_withEvents, List.append_nil _⟩

theorem Agree.takeEvents {before taken : List DriveEvent} {c c' : Controller}
    (h : c.Agree (Chronicle.Hears before taken) c') :
    c.takeEvents.1 = c'.takeEvents.1 ∧
      c.takeEvents.2.Agree (Chronicle.Hears before (taken ++ c.events.toList)) c'.takeEvents.2 := by
  obtain ⟨x, rfl, hx⟩ := h
  exact ⟨hx.events.symm, { x with events := #[] }, rfl, hx.take⟩

end Controller

end AppleII.Disk
