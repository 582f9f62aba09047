import AppleII.Disk.Controller

/-!
# Controllers that differ in what they have written down

The events, the remembered bytes and the log of a controller are its `Chronicle`.  It is written to, and decides
nothing else.  So two controllers that differ in their chronicles only give the same at every operation, and differ
in their chronicles only again.  What relates the chronicles is up to the reader, as long as everything that is
written down in both of them keeps it (`Chronicle.Kept`).
-/

namespace AppleII.Disk

/-- The event that an entry of the log tells of. -/
def LogEntry.event? : LogEntry → Option DriveEvent
  | .event e => some e
  | _ => none

/-- What a controller has written down. -/
structure Chronicle where
  events : Array DriveEvent
  recent : ByteRing
  log : Log

namespace Chronicle

def note (x : Chronicle) (e : LogEntry) : Chronicle := { x with log := x.log.add e }

def emit (x : Chronicle) (e : DriveEvent) : Chronicle := { x.note (.event e) with events := x.events.push e }

/-- A byte that was read. -/
def remember (x : Chronicle) (byte : UInt8) : Chronicle :=
  if x.log.levels.bits then { x with recent := x.recent.push byte } else x

/-- Related chronicles stay related, whatever is written down in both of them. -/
class Kept (R : Chronicle → Chronicle → Prop) : Prop where
  note : ∀ {x y}, R x y → ∀ e : LogEntry, e.event? = none → R (x.note e) (y.note e)
  noteRecent : ∀ {x y}, R x y → ∀ n,
    R (x.note (.recent (x.recent.lastN n))) (y.note (.recent (y.recent.lastN n)))
  emit : ∀ {x y}, R x y → ∀ e, R (x.emit e) (y.emit e)
  remember : ∀ {x y}, R x y → ∀ byte, R (x.remember byte) (y.remember byte)

/-- Any two chronicles. -/
def Any : Chronicle → Chronicle → Prop := fun _ _ => True

instance : Kept Any := ⟨fun _ _ _ => trivial, fun _ _ => trivial, fun _ _ => trivial, fun _ _ => trivial⟩

end Chronicle

namespace Controller

def chronicle (c : Controller) : Chronicle := ⟨c.events, c.recent, c.log⟩

/-- Two controllers that differ in their chronicles at most, which are related. -/
def Agree (R : Chronicle → Chronicle → Prop) (c c' : Controller) : Prop :=
  ∃ x : Chronicle, c' = { c with events := x.events, recent := x.recent, log := x.log } ∧ R c.chronicle x

namespace Agree

open Chronicle (Kept)

variable {R : Chronicle → Chronicle → Prop} {c c' : Controller}

/-! ## What writes nothing down -/

theorem modifySelected (h : c.Agree R c') (f : Drive → Drive) :
    (c.modifySelected f).Agree R (c'.modifySelected f) := by
  obtain ⟨x, rfl, hx⟩ := h
  exact ⟨x, rfl, hx⟩

theorem loadData (h : c.Agree R c') (value : Option UInt8) :
    (c.loadData value).Agree R (c'.loadData value) := by
  obtain ⟨x, rfl, hx⟩ := h
  cases value with
  | none => exact ⟨x, rfl, hx⟩
  | some v => exact ⟨x, rfl, hx⟩

theorem save (h : c.Agree R c') (drive : Nat) :
    (c.save drive).1 = (c'.save drive).1 ∧ (c.save drive).2.Agree R (c'.save drive).2 := by
  obtain ⟨x, rfl, hx⟩ := h
  unfold Controller.save
  dsimp only
  split
  · split
    · exact ⟨rfl, x, rfl, hx⟩
    · exact ⟨rfl, x, rfl, hx⟩
  · exact ⟨rfl, x, rfl, hx⟩

/-! ## What is written down -/

variable [Kept R]

theorem note (h : c.Agree R c') {e : LogEntry} (he : e.event? = none) : (c.note e).Agree R (c'.note e) := by
  obtain ⟨x, rfl, hx⟩ := h
  exact ⟨x.note e, rfl, Kept.note hx e he⟩

theorem emit (h : c.Agree R c') (e : DriveEvent) : (c.emit e).Agree R (c'.emit e) := by
  obtain ⟨x, rfl, hx⟩ := h
  exact ⟨x.emit e, rfl, Kept.emit hx e⟩

/-- The bytes need not be the same ones. -/
theorem noteRecent (h : c.Agree R c') (n : Nat) :
    (c.note (.recent (c.recent.lastN n))).Agree R (c'.note (.recent (c'.recent.lastN n))) := by
  obtain ⟨x, rfl, hx⟩ := h
  exact ⟨x.note (.recent (x.recent.lastN n)), rfl, Kept.noteRecent hx n⟩

theorem remember (h : c.Agree R c') (byte : UInt8) :
    Agree R (if c.log.levels.bits then { c with recent := c.recent.push byte } else c)
      (if c'.log.levels.bits then { c' with recent := c'.recent.push byte } else c') := by
  obtain ⟨x, rfl, hx⟩ := h
  have hsame : (if c.log.levels.bits then { c with recent := c.recent.push byte } else c).chronicle =
      c.chronicle.remember byte := apply_ite chronicle _ _ _
  refine ⟨x.remember byte, ?_, ?_⟩
  · unfold Chronicle.remember
    dsimp only
    split <;> split <;> rfl
  · rw [hsame]
    exact Kept.remember hx byte

/-! ## The registers -/

theorem setMotor (h : c.Agree R c') (d : Fin 2) (on : Bool) :
    (c.setMotor d on).Agree R (c'.setMotor d on) := by
  obtain ⟨x, rfl, hx⟩ := h
  unfold Controller.setMotor
  dsimp only
  split
  · exact ⟨x, rfl, hx⟩
  · refine emit ?_ _
    exact ⟨x, rfl, hx⟩

theorem stepPhases (h : c.Agree R c') (phases : List Bool) :
    (c.stepPhases phases).Agree R (c'.stepPhases phases) := by
  obtain ⟨x, rfl, hx⟩ := h
  unfold Controller.stepPhases selected
  dsimp only
  split
  · exact ⟨x, rfl, hx⟩
  · split
    · exact ⟨x, rfl, hx⟩
    · refine emit ?_ _
      exact ⟨x, rfl, hx⟩

theorem flushWrite (h : c.Agree R c') (delta : Nat) : (c.flushWrite delta).Agree R (c'.flushWrite delta) := by
  obtain ⟨x, rfl, hx⟩ := h
  unfold Controller.flushWrite
  dsimp only
  split
  · refine note ?_ rfl
    exact ⟨x, rfl, hx⟩
  · exact ⟨x, rfl, hx⟩

theorem flushIfWriting (h : c.Agree R c') (cycle : Nat) :
    (c.flushIfWriting cycle).Agree R (c'.flushIfWriting cycle) := by
  obtain ⟨y, hflush, hy⟩ := h.flushWrite (cycle - c.previousCycle)
  obtain ⟨x, rfl, hx⟩ := h
  unfold Controller.flushIfWriting selected
  dsimp only at hflush ⊢
  split
  · rw [hflush]
    exact ⟨y, rfl, hy⟩
  · exact ⟨x, rfl, hx⟩

theorem setWriteMode (h : c.Agree R c') (on : Bool) : (c.setWriteMode on).Agree R (c'.setWriteMode on) := by
  obtain ⟨x, rfl, hx⟩ := h
  unfold Controller.setWriteMode selected
  dsimp only
  split
  · exact (note ⟨x, rfl, hx⟩ rfl).modifySelected _
  · exact modifySelected ⟨x, rfl, hx⟩ _

theorem requestStop (h : c.Agree R c') (cycle : Nat) :
    (c.requestStop cycle).Agree R (c'.requestStop cycle) := by
  obtain ⟨x, rfl, hx⟩ := h
  refine noteRecent ?_ 32
  exact ⟨x, rfl, hx⟩

theorem startMotor (h : c.Agree R c') : c.startMotor.Agree R c'.startMotor := by
  obtain ⟨x, rfl, hx⟩ := h
  refine setMotor ?_ _ true
  exact ⟨x, rfl, hx⟩

theorem announce (h : c.Agree R c') (d : Fin 2) :
    Agree R { (if c.current = d then c else c.note (.driveSelected d)) with current := d }
      { (if c'.current = d then c' else c'.note (.driveSelected d)) with current := d } := by
  obtain ⟨x, rfl, hx⟩ := h
  dsimp only
  split
  · exact ⟨x, rfl, hx⟩
  · exact ⟨x.note (.driveSelected d), rfl, Kept.note hx _ rfl⟩

theorem select (h : c.Agree R c') (d : Fin 2) : (c.select d).Agree R (c'.select d) := by
  have hswitch := (h.setMotor (Drives.other d) false).setMotor d true
  obtain ⟨x, rfl, hx⟩ := h
  refine announce ?_ d
  dsimp only
  split
  · exact hswitch
  · exact ⟨x, rfl, hx⟩

theorem readData (h : c.Agree R c') :
    c.readData.1 = c'.readData.1 ∧ c.readData.2.Agree R c'.readData.2 := by
  obtain ⟨x, rfl, hx⟩ := h
  unfold Controller.readData selected
  dsimp only
  split
  · have hturned : Agree R { c with drives := (c.drives.update c.current Drive.nextByte).2 }
        { c with
          drives := (c.drives.update c.current Drive.nextByte).2
          events := x.events
          recent := x.recent
          log := x.log } := ⟨x, rfl, hx⟩
    exact ⟨rfl, hturned.remember _⟩
  · exact ⟨rfl, x, rfl, hx⟩

/-- **The sixteen registers** give the same, and leave the controllers in agreement. -/
theorem access (h : c.Agree R c') (reg : UInt8) (value : Option UInt8) (cycle : Nat) (sw : Switches) :
    (c.access reg value cycle sw).1 = (c'.access reg value cycle sw).1 ∧
      (c.access reg value cycle sw).2.Agree R (c'.access reg value cycle sw).2 := by
  unfold Controller.access
  split
  · exact ⟨rfl, h.requestStop cycle⟩
  · exact ⟨rfl, h.startMotor⟩
  · exact ⟨rfl, h.select driveOne⟩
  · exact ⟨rfl, h.select driveTwo⟩
  · exact h.readData
  · exact ⟨rfl, (h.flushIfWriting cycle).loadData value⟩
  · obtain ⟨x, heq, hx⟩ := (h.flushIfWriting cycle).setWriteMode false
    dsimp only
    rw [heq]
    exact ⟨rfl, x, rfl, hx⟩
  · obtain ⟨x, heq, hx⟩ := h.setWriteMode true
    rw [heq]
    refine ⟨rfl, loadData ?_ value⟩
    exact ⟨x, rfl, hx⟩
  · exact ⟨rfl, h.stepPhases sw.phases⟩

/-! ## Time -/

theorem motorTimeout (h : c.Agree R c') (sw : Switches) : (c.motorTimeout sw).Agree R (c'.motorTimeout sw) := by
  have hoff := h.setMotor c.current false
  obtain ⟨x, rfl, hx⟩ := h
  unfold Controller.motorTimeout
  split
  · exact ⟨x, rfl, hx⟩
  · exact hoff

theorem update (h : c.Agree R c') (cycle : Nat) (sw : Switches) :
    (c.update cycle sw).Agree R (c'.update cycle sw) := by
  obtain ⟨x, rfl, hx⟩ := h
  unfold Controller.update
  dsimp only
  split
  · split
    · refine motorTimeout ?_ sw
      exact ⟨x, rfl, hx⟩
    · exact ⟨x, rfl, hx⟩
  · exact ⟨x, rfl, hx⟩

theorem reset (h : c.Agree R c') (sw : Switches) :
    (c.reset sw).1.Agree R (c'.reset sw).1 ∧ (c.reset sw).2 = (c'.reset sw).2 := by
  have hstop : Agree R { c with motorOffAt := none } { c' with motorOffAt := none } := by
    obtain ⟨x, rfl, hx⟩ := h
    exact ⟨x, rfl, hx⟩
  obtain ⟨x, heq, hx⟩ := hstop.motorTimeout (sw.set .motor false)
  unfold Controller.reset
  dsimp only
  rw [heq]
  exact ⟨⟨x, rfl, hx⟩, rfl⟩

/-- A running motor is reported to both. -/
theorem resume (h : c.Agree R c') : c.resume.Agree R c'.resume := by
  obtain ⟨x, rfl, hx⟩ := h
  unfold Controller.resume selected
  dsimp only
  split
  · exact emit ⟨x, rfl, hx⟩ _
  · exact ⟨x, rfl, hx⟩

/-! ## Disks -/

/-- A disk is refused by both controllers for the same reason, or put into both of them. -/
theorem insert (h : c.Agree R c') (drive : Nat) (fileName : String) (bytes : Array UInt8) :
    (∃ e, c.insert drive fileName bytes = .error e ∧ c'.insert drive fileName bytes = .error e) ∨
      ∃ w d d', c.insert drive fileName bytes = .ok (w, d) ∧
        c'.insert drive fileName bytes = .ok (w, d') ∧ d.Agree R d' := by
  obtain ⟨x, rfl, hx⟩ := h
  unfold Controller.insert
  cases driveNumber drive with
  | error e => exact .inl ⟨e, rfl, rfl⟩
  | ok i =>
    cases Image.decode fileName bytes with
    | error e => exact .inl ⟨e, rfl, rfl⟩
    | ok image =>
      refine .inr ⟨_, _, _, rfl, rfl, emit ?_ _⟩
      exact ⟨x, rfl, hx⟩

theorem eject (h : c.Agree R c') (drive : Nat) :
    (∃ e, c.eject drive = .error e ∧ c'.eject drive = .error e) ∨
      ∃ d d', c.eject drive = .ok d ∧ c'.eject drive = .ok d' ∧ d.Agree R d' := by
  obtain ⟨x, rfl, hx⟩ := h
  unfold Controller.eject
  cases driveNumber drive with
  | error e => exact .inl ⟨e, rfl, rfl⟩
  | ok i =>
    refine .inr ?_
    by_cases hdisk : (c.drives.get i).hasDisk
    · refine ⟨_, _, if_pos hdisk, if_pos hdisk, emit ?_ _⟩
      exact ⟨x, rfl, hx⟩
    · exact ⟨_, _, if_neg hdisk, if_neg hdisk, x, rfl, hx⟩

end Agree

end Controller

end AppleII.Disk
