import AppleII.Proofs.Disk.Motors
import AppleII.Proofs.Disk.Saved
import AppleII.Proofs.Run
import Mathlib.Data.List.Chain

/-!
# The events tell the state of the drives

A motor is reported when it is switched on or off, and a disk when it is put in or taken out.  So the last report
about the motor of a drive tells whether it runs, and the last one about its disk whether there is one
(`status_of_events`).  Only a resumption reports a motor that was not switched; without that the reports about a motor
turn from one to the other (`Turns`).
-/

namespace AppleII.Disk

namespace DriveEvent

/-- What an event tells about the motor of a drive. -/
def motor? (i : Fin 2) : DriveEvent → Option Bool
  | .motorOn j => if j = i then some true else none
  | .motorOff j => if j = i then some false else none
  | _ => none

/-- What an event tells about the disk of a drive. -/
def disk? (i : Fin 2) : DriveEvent → Option Bool
  | .diskInserted j => if j = i then some true else none
  | .diskEjected j => if j = i then some false else none
  | _ => none

/-- The event of a motor that is switched. -/
def ofMotor (i : Fin 2) (on : Bool) : DriveEvent := if on then .motorOn i else .motorOff i

theorem motor?_ofMotor (i j : Fin 2) (on : Bool) : (ofMotor j on).motor? i = if j = i then some on else none := by
  cases on <;> rfl

theorem disk?_ofMotor (i j : Fin 2) (on : Bool) : (ofMotor j on).disk? i = none := by
  cases on <;> rfl

end DriveEvent

open DriveEvent (motor? disk?)

/-- What some events tell about a motor or a disk, one after the other. -/
def reports (about : DriveEvent → Option Bool) (events : List DriveEvent) : List Bool := events.filterMap about

theorem reports_singleton (about : DriveEvent → Option Bool) (e : DriveEvent) :
    reports about [e] = (about e).toList := by
  unfold reports
  cases h : about e <;> simp [h]

theorem reports_append (about : DriveEvent → Option Bool) (es es' : List DriveEvent) :
    reports about (es ++ es') = reports about es ++ reports about es' := List.filterMap_append

/-- Reports that turn from one to the other take something from one state to another. -/
inductive Turns : Bool → List Bool → Bool → Prop
  | done (on : Bool) : Turns on [] on
  | turn {on last : Bool} {reports : List Bool} (rest : Turns (!on) reports last) : Turns on ((!on) :: reports) last

namespace Turns

variable {on on' on'' : Bool} {reports reports' : List Bool}

theorem append (h : Turns on reports on') (h' : Turns on' reports' on'') : Turns on (reports ++ reports') on'' := by
  induction h with
  | done => exact h'
  | turn _ ih => exact .turn (ih h')

/-- The last report tells the state. -/
theorem last_eq (h : Turns on reports on') : on' = reports.getLast?.getD on := by
  induction h with
  | done => rfl
  | @turn on last reports _ ih =>
    rw [List.getLast?_cons]
    exact ih.trans (by cases reports.getLast? <;> rfl)

/-- No report repeats the one before. -/
theorem isChain (h : Turns on reports on') : (on :: reports).IsChain (· ≠ ·) := by
  induction h with
  | done => exact .singleton _
  | @turn on _ _ _ ih => exact .cons_cons (by cases on <;> decide) ih

end Turns

namespace Drive

/-- No step puts a disk in or takes one out. -/
theorem Step.hasDisk {d d' : Drive} (h : Step d d') : d'.hasDisk = d.hasDisk := by
  cases h with
  | writeBit bit =>
    obtain ⟨image, location, heq, hsize, -⟩ := d.writeBit_cases bit
    rw [heq]
    simp [Drive.hasDisk, Array.isEmpty, hsize]
  | save => simp [Drive.hasDisk, Array.isEmpty, size_updateChecksum]
  | nextBit | moveHead | setPhase | setWriteMode | change | home => rfl

theorem Handled.hasDisk {d d' : Drive} (h : d.Handled d') : d'.hasDisk = d.hasDisk :=
  h.keeps (P := fun d' => d'.hasDisk = d.hasDisk) (fun hstep hd => hstep.hasDisk.trans hd) (fun _ hd => hd) rfl

end Drive

namespace Controller

variable {c c' c'' : Controller} {es es' : List DriveEvent}

/-! ## Motors -/

/-- A controller emits some events, which tell how the motors turn on and off and nothing about disks. -/
structure ReportsMotors (c : Controller) (es : List DriveEvent) (c' : Controller) : Prop where
  events : c'.events.toList = c.events.toList ++ es
  motors : ∀ i, Turns (c.runs i) (reports (motor? i) es) (c'.runs i)
  disks : ∀ i, reports (disk? i) es = []

namespace ReportsMotors

theorem of_silent (hevents : c'.events = c.events) (hruns : ∀ i, c'.runs i = c.runs i) : c.ReportsMotors [] c' where
  events := by rw [hevents, List.append_nil]
  motors i := by
    rw [hruns]
    exact .done _
  disks _ := rfl

theorem trans (h : c.ReportsMotors es c') (h' : c'.ReportsMotors es' c'') : c.ReportsMotors (es ++ es') c'' where
  events := by rw [h'.events, h.events, List.append_assoc]
  motors i := by
    rw [reports_append]
    exact (h.motors i).append (h'.motors i)
  disks i := by
    rw [reports_append]
    exact List.append_eq_nil_iff.mpr ⟨h.disks i, h'.disks i⟩

/-- What is neither a motor nor an event does not matter. -/
theorem congr {b : Controller} (h : c.ReportsMotors es b) (hevents : c'.events = b.events)
    (hruns : ∀ i, c'.runs i = b.runs i) : c.ReportsMotors es c' where
  events := by rw [hevents, h.events]
  motors i := by
    rw [hruns]
    exact h.motors i
  disks := h.disks

end ReportsMotors

theorem reports_setMotor (c : Controller) (i : Fin 2) (on : Bool) : ∃ es, c.ReportsMotors es (c.setMotor i on) := by
  by_cases hsame : c.runs i = on
  · have hstill : c.setMotor i on = c := if_pos (beq_iff_eq.mpr hsame)
    rw [hstill]
    exact ⟨[], .of_silent rfl fun _ => rfl⟩
  · have hevents : (c.setMotor i on).events = c.events.push (.ofMotor i on) :=
      congrArg events (if_neg (mt beq_iff_eq.mp hsame))
    refine ⟨[.ofMotor i on], ?_, fun j => ?_, fun j => ?_⟩
    · rw [hevents, Array.toList_push]
    · rw [runs_setMotor, reports_singleton, DriveEvent.motor?_ofMotor]
      by_cases hij : i = j
      · subst hij
        rw [if_pos rfl, if_pos rfl, Bool.eq_not_of_ne (Ne.symm hsame)]
        exact .turn (.done _)
      · rw [if_neg hij, if_neg (Ne.symm hij)]
        exact .done _
    · rw [reports_singleton, DriveEvent.disk?_ofMotor]
      rfl

theorem reports_startMotor (c : Controller) : ∃ es, c.ReportsMotors es c.startMotor := by
  obtain ⟨es, h⟩ := reports_setMotor { c with motorOffAt := none } c.current true
  exact ⟨es, h.events, h.motors, h.disks⟩

theorem reports_select (c : Controller) (d : Fin 2) : ∃ es, c.ReportsMotors es (c.select d) := by
  obtain ⟨log, heq⟩ := c.select_cases d
  rw [heq]
  split
  · obtain ⟨es, hoff⟩ := c.reports_setMotor (Drives.other d) false
    obtain ⟨es', hon⟩ := (c.setMotor (Drives.other d) false).reports_setMotor d true
    exact ⟨es ++ es', (hoff.trans hon).congr rfl fun _ => rfl⟩
  · exact ⟨[], .of_silent rfl fun _ => rfl⟩

/-- The head of a drive tells nothing about its motor and its disk. -/
theorem reports_stepPhases (c : Controller) (phases : List Bool) :
    ∃ es, c.ReportsMotors es (c.stepPhases phases) := by
  have hruns := (c.worked_stepPhases phases).runs
  have hevents : (c.stepPhases phases).events = c.events ∨
      ∃ e : DriveEvent, (c.stepPhases phases).events = c.events.push e ∧ (∀ i, e.motor? i = none) ∧
        ∀ i, e.disk? i = none := by
    unfold stepPhases
    split
    · exact .inl rfl
    · split
      · exact .inl rfl
      · dsimp only
        split
        · exact .inr ⟨_, rfl, fun _ => rfl, fun _ => rfl⟩
        · exact .inr ⟨_, rfl, fun _ => rfl, fun _ => rfl⟩
  rcases hevents with hsame | ⟨e, hevents, hmotor, hdisk⟩
  · exact ⟨[], .of_silent hsame hruns⟩
  · refine ⟨[e], by rw [hevents, Array.toList_push], fun i => ?_, fun i => ?_⟩
    · rw [hruns, reports_singleton, hmotor]
      exact .done _
    · rw [reports_singleton, hdisk]
      rfl

/-! ## Registers -/

theorem events_readData (c : Controller) : c.readData.2.events = c.events := by
  unfold readData
  split
  · dsimp only
    split <;> rfl
  · rfl

theorem events_loadData (c : Controller) (value : Option UInt8) : (c.loadData value).events = c.events := by
  cases value <;> rfl

theorem events_flushIfWriting (c : Controller) (cycle : Nat) : (c.flushIfWriting cycle).events = c.events := by
  have hflush (delta : Nat) : (c.flushWrite delta).events = c.events := by
    unfold flushWrite
    dsimp only
    split <;> rfl
  unfold flushIfWriting
  split
  · exact hflush _
  · rfl

theorem events_setWriteMode (c : Controller) (on : Bool) : (c.setWriteMode on).events = c.events := by
  unfold setWriteMode
  dsimp only
  split <;> rfl

/-- **An access** reports every motor that it switches. -/
theorem reports_access (c : Controller) (reg : UInt8) (value : Option UInt8) (cycle : Nat) (sw : Switches) :
    ∃ es, c.ReportsMotors es (c.access reg value cycle sw).2 := by
  unfold access
  split
  · exact ⟨[], .of_silent rfl fun _ => rfl⟩
  · exact c.reports_startMotor
  · exact c.reports_select driveOne
  · exact c.reports_select driveTwo
  · exact ⟨[], .of_silent c.events_readData c.worked_readData.runs⟩
  · exact ⟨[], .of_silent ((events_loadData _ value).trans (c.events_flushIfWriting cycle))
      ((c.worked_flushIfWriting cycle).trans (worked_loadData _ value)).runs⟩
  · exact ⟨[], .of_silent ((events_setWriteMode _ false).trans (c.events_flushIfWriting cycle))
      ((c.worked_flushIfWriting cycle).trans (worked_setWriteMode _ false)).runs⟩
  · refine ⟨[], .of_silent ((events_loadData _ value).trans (c.events_setWriteMode true)) fun i => ?_⟩
    rw [(worked_loadData _ value).runs]
    exact (c.worked_setWriteMode true).runs i
  · exact c.reports_stepPhases sw.phases

/-! ## Time -/

theorem reports_motorTimeout (c : Controller) (sw : Switches) : ∃ es, c.ReportsMotors es (c.motorTimeout sw) := by
  unfold motorTimeout
  split
  · exact ⟨[], .of_silent rfl fun _ => rfl⟩
  · exact c.reports_setMotor c.current false

theorem reports_update (c : Controller) (cycle : Nat) (sw : Switches) :
    ∃ es, c.ReportsMotors es (c.update cycle sw) := by
  unfold update
  split
  · split
    · obtain ⟨es, h⟩ := reports_motorTimeout { c with motorOffAt := none } sw
      exact ⟨es, h.events, h.motors, h.disks⟩
    · exact ⟨[], .of_silent rfl fun _ => rfl⟩
  · exact ⟨[], .of_silent rfl fun _ => rfl⟩

theorem reports_reset (c : Controller) (sw : Switches) : ∃ es, c.ReportsMotors es (c.reset sw).1 := by
  obtain ⟨es, h⟩ := reports_motorTimeout { c with motorOffAt := none } (sw.set .motor false)
  have hstopped : c.ReportsMotors es (motorTimeout { c with motorOffAt := none } (sw.set .motor false)) :=
    ⟨h.events, h.motors, h.disks⟩
  refine ⟨es, hstopped.congr rfl fun i => ?_⟩
  unfold reset runs Drives.get
  dsimp only
  split <;> rfl

theorem reports_save (c : Controller) (drive : Nat) : c.ReportsMotors [] (c.save drive).2 := by
  refine .of_silent ?_ (c.worked_save drive).runs
  unfold save
  split
  · dsimp only
    split <;> rfl
  · rfl

/-! ## Operations -/

/-- What is asked of a controller. -/
inductive Operation where
  | access (reg : UInt8) (value : Option UInt8) (cycle : Nat) (switches : Switches)
  | update (cycle : Nat) (switches : Switches)
  | reset (switches : Switches)
  | insert (drive : Nat) (fileName : String) (bytes : Array UInt8)
  | eject (drive : Nat)
  | save (drive : Nat)
  /-- Everything pauses, or it goes on after a pause. -/
  | pause (goesOn : Bool)

/-- Everything goes on after a pause. -/
def Operation.resumes : Operation → Bool
  | .pause goesOn => goesOn
  | _ => false

/-- The controller after an operation.  A disk that is refused leaves it as it is, and so does a pause. -/
def perform (c : Controller) : Operation → Controller
  | .access reg value cycle switches => (c.access reg value cycle switches).2
  | .update cycle switches => c.update cycle switches
  | .reset switches => (c.reset switches).1
  | .insert drive fileName bytes => match c.insert drive fileName bytes with
    | .ok (_, c') => c'
    | .error _ => c
  | .eject drive => match c.eject drive with
    | .ok c' => c'
    | .error _ => c
  | .save drive => (c.save drive).2
  | .pause goesOn => if goesOn then c.resume else c

theorem perform_insert (c : Controller) (drive : Nat) (fileName : String) (bytes : Array UInt8) :
    c.perform (.insert drive fileName bytes) = match c.insert drive fileName bytes with
      | .ok (_, c') => c'
      | .error _ => c := rfl

theorem perform_eject (c : Controller) (drive : Nat) :
    c.perform (.eject drive) = match c.eject drive with
      | .ok c' => c'
      | .error _ => c := rfl

def performAll (c : Controller) (ops : List Operation) : Controller := ops.foldl perform c

/-- The events that an operation adds to those there are. -/
def emitted (c : Controller) (op : Operation) : List DriveEvent :=
  (c.perform op).events.toList.drop c.events.size

/-- The events of those of some operations that are `counted`. -/
def emittedBy (counted : Operation → Bool) (c : Controller) : List Operation → List DriveEvent
  | [] => []
  | op :: ops => (if counted op then c.emitted op else []) ++ emittedBy counted (c.perform op) ops

/-- What the events of an operation tell. -/
structure Emits (c : Controller) (op : Operation) (es : List DriveEvent) : Prop where
  events : (c.perform op).events.toList = c.events.toList ++ es
  turns : op.resumes = false → ∀ i, Turns (c.runs i) (reports (motor? i) es) ((c.perform op).runs i)
  repeats : op.resumes = true → ∀ i, (c.perform op).runs i = c.runs i ∧ ∀ on ∈ reports (motor? i) es, on = c.runs i
  disks : ∀ i, ((c.perform op).drives.get i).hasDisk = (reports (disk? i) es).getLast?.getD (c.drives.get i).hasDisk
  ejected : ∀ i, .diskEjected i ∈ es → (c.drives.get i).hasDisk = true

variable {op : Operation}

/-- An operation on the motors. -/
theorem ReportsMotors.emits (h : c.ReportsMotors es (c.perform op)) (hhandled : c.Handled (c.perform op))
    (hop : op.resumes = false) : c.Emits op es where
  events := h.events
  turns _ := h.motors
  repeats hresumes := absurd (hop.symm.trans hresumes) Bool.false_ne_true
  disks i := by
    rw [h.disks]
    exact (hhandled i).hasDisk
  ejected i hmem := by
    have hreport : false ∈ reports (disk? i) es := List.mem_filterMap.mpr ⟨_, hmem, if_pos rfl⟩
    rw [h.disks] at hreport
    cases hreport

/-- An operation that does nothing. -/
theorem Emits.of_eq (h : c.perform op = c) : c.Emits op [] where
  events := by rw [h, List.append_nil]
  turns _ i := by
    rw [h]
    exact .done _
  repeats _ i := ⟨by rw [h], nofun⟩
  disks i := by
    rw [h]
    rfl
  ejected := nofun

/-- A drive is given another disk or none, and tells so. -/
theorem Emits.of_modify {i : Fin 2} {f : Drive → Drive} {e : DriveEvent} {on : Bool}
    (h : c.perform op = { c with drives := c.drives.modify i f }.emit e) (hop : op.resumes = false)
    (hmotor : ∀ d, (f d).motorRunning = d.motorRunning) (hdisk : (f (c.drives.get i)).hasDisk = on)
    (hreport : e = if on then .diskInserted i else .diskEjected i)
    (hejected : on = false → (c.drives.get i).hasDisk = true) : c.Emits op [e] where
  events := by
    rw [h]
    exact Array.toList_push
  turns _ j := by
    have hruns : (c.perform op).runs j = c.runs j := by
      rw [h]
      exact get_modify_of (R := fun d d' => d'.motorRunning = d.motorRunning) (fun _ => rfl) c.drives i (hmotor _) j
    rw [hruns, reports_singleton, hreport]
    cases on <;> exact .done _
  repeats hresumes := absurd (hop.symm.trans hresumes) Bool.false_ne_true
  disks j := by
    rw [h, reports_singleton, hreport]
    show ((c.drives.modify i f).get j).hasDisk = _
    by_cases hij : i = j
    · subst hij
      rw [Drives.get_modify_self, hdisk]
      cases on <;> simp [DriveEvent.disk?]
    · rw [Drives.get_modify_of_ne _ _ hij]
      cases on <;> simp [DriveEvent.disk?, hij]
  ejected j hmem := by
    rw [hreport] at hmem
    cases on with
    | true => cases List.mem_singleton.mp hmem
    | false =>
      cases List.mem_singleton.mp hmem
      exact hejected rfl

/-- A resumption repeats that the selected motor runs. -/
theorem exists_emits_resume (c : Controller) : ∃ es, c.Emits (.pause true) es := by
  cases hruns : c.selected.motorRunning with
  | false =>
    have hstill : c.resume = c := if_neg (Bool.eq_false_iff.mp hruns)
    exact ⟨[], .of_eq hstill⟩
  | true =>
    have hresume : c.perform (.pause true) = c.emit (.motorOn c.current) := if_pos hruns
    refine ⟨[.motorOn c.current], ?_, nofun, fun _ i => ?_, fun i => ?_, fun i hmem => ?_⟩
    · rw [hresume]
      exact Array.toList_push
    · refine ⟨by rw [hresume]; rfl, fun on hon => ?_⟩
      rw [reports_singleton, Option.mem_toList, DriveEvent.motor?, Option.ite_none_right_eq_some] at hon
      obtain ⟨rfl, hon⟩ := hon
      exact (Option.some.inj hon).symm.trans hruns.symm
    · rw [hresume, reports_singleton]
      rfl
    · cases List.mem_singleton.mp hmem

theorem exists_emits_insert (c : Controller) (drive : Nat) (fileName : String) (bytes : Array UInt8) :
    ∃ es, c.Emits (.insert drive fileName bytes) es := by
  cases hinsert : c.insert drive fileName bytes with
  | error e =>
    have hstill : c.perform (.insert drive fileName bytes) = c := by
      rw [perform_insert, hinsert]
    exact ⟨[], .of_eq hstill⟩
  | ok r =>
    obtain ⟨w, c'⟩ := r
    obtain ⟨i, disk, -, hdecode, -, rfl⟩ := insert_eq_ok_iff.mp hinsert
    have hperform : c.perform (.insert drive fileName bytes) =
        { c with drives := c.drives.modify i fun u => u.load disk }.emit (.diskInserted i) := by
      rw [perform_insert, hinsert]
    have hdisk : ((c.drives.get i).load disk).hasDisk = true := (Drive.carries_load _ disk).hasDisk hdecode
    exact ⟨_, .of_modify hperform rfl (fun _ => rfl) hdisk rfl nofun⟩

theorem exists_emits_eject (c : Controller) (drive : Nat) : ∃ es, c.Emits (.eject drive) es := by
  have hstill (h : c.eject drive = .ok c ∨ ∃ e, c.eject drive = .error e) : c.perform (.eject drive) = c := by
    rcases h with h | ⟨e, h⟩
    · rw [perform_eject, h]
    · rw [perform_eject, h]
  cases hnumber : driveNumber drive with
  | error e =>
    have herror : c.eject drive = .error e := bind_eq_error hnumber _
    exact ⟨[], .of_eq (hstill (.inr ⟨e, herror⟩))⟩
  | ok i =>
    have heject : c.eject drive = if (c.drives.get i).hasDisk then
        .ok ({ c with drives := c.drives.modify i Drive.clear }.emit (.diskEjected i)) else .ok c := by
      unfold eject
      rw [hnumber]
      rfl
    cases hdisk : (c.drives.get i).hasDisk with
    | false =>
      rw [hdisk] at heject
      exact ⟨[], .of_eq (hstill (.inl heject))⟩
    | true =>
      rw [hdisk, if_pos rfl] at heject
      have hperform : c.perform (.eject drive) =
          { c with drives := c.drives.modify i Drive.clear }.emit (.diskEjected i) := by
        rw [perform_eject, heject]
      exact ⟨_, .of_modify hperform rfl (fun _ => rfl) rfl rfl fun _ => hdisk⟩

theorem exists_emits (c : Controller) (op : Operation) : ∃ es, c.Emits op es := by
  cases op with
  | access reg value cycle switches =>
    obtain ⟨es, h⟩ := c.reports_access reg value cycle switches
    exact ⟨es, h.emits (c.handled_access reg value cycle switches) rfl⟩
  | update cycle switches =>
    obtain ⟨es, h⟩ := c.reports_update cycle switches
    exact ⟨es, h.emits (c.handled_update cycle switches) rfl⟩
  | reset switches =>
    obtain ⟨es, h⟩ := c.reports_reset switches
    exact ⟨es, h.emits (c.handled_reset switches) rfl⟩
  | insert drive fileName bytes => exact c.exists_emits_insert drive fileName bytes
  | eject drive => exact c.exists_emits_eject drive
  | save drive => exact ⟨[], (c.reports_save drive).emits (c.worked_save drive).handled rfl⟩
  | pause goesOn =>
    cases goesOn with
    | false => exact ⟨[], .of_eq rfl⟩
    | true => exact c.exists_emits_resume

/-- **A step.** The events that an operation emits tell what becomes of the drives. -/
theorem emits (c : Controller) (op : Operation) : c.Emits op (c.emitted op) := by
  obtain ⟨es, h⟩ := c.exists_emits op
  have hemitted : c.emitted op = es := by
    unfold emitted
    rw [h.events, ← Array.length_toList, List.drop_left]
  rwa [hemitted]

/-! ## Runs -/

theorem performAll_cons (c : Controller) (op : Operation) (ops : List Operation) :
    c.performAll (op :: ops) = (c.perform op).performAll ops := rfl

/-- Events are only added. -/
theorem events_performAll (c : Controller) (ops : List Operation) :
    (c.performAll ops).events.toList = c.events.toList ++ c.emittedBy (fun _ => true) ops := by
  induction ops generalizing c with
  | nil => exact (List.append_nil _).symm
  | cons op ops ih =>
    rw [performAll_cons, ih, (c.emits op).events, List.append_assoc]
    rfl

theorem getLast?_append_getD {l l' : List Bool} (on : Bool) :
    (l ++ l').getLast?.getD on = l'.getLast?.getD (l.getLast?.getD on) := by
  rw [List.getLast?_append]
  cases l'.getLast? <;> rfl

theorem Emits.runs_eq (h : c.Emits op es) (i : Fin 2) :
    (c.perform op).runs i = (reports (motor? i) es).getLast?.getD (c.runs i) := by
  cases hop : op.resumes with
  | false => exact (h.turns hop i).last_eq
  | true =>
    obtain ⟨hruns, hsame⟩ := h.repeats hop i
    rw [hruns]
    cases hlast : (reports (motor? i) es).getLast? with
    | none => rfl
    | some on => exact (hsame on (List.mem_of_getLast? hlast)).symm

/-- **A run.** What the last report of every operation tells, the last report of all tells. -/
theorem last_performAll {shown : Controller → Bool} {about : DriveEvent → Option Bool}
    (h : ∀ c op, shown (c.perform op) = (reports about (c.emitted op)).getLast?.getD (shown c)) (c : Controller)
    (ops : List Operation) :
    shown (c.performAll ops) = (reports about (c.emittedBy (fun _ => true) ops)).getLast?.getD (shown c) := by
  induction ops generalizing c with
  | nil => rfl
  | cons op ops ih =>
    rw [performAll_cons, ih, h, ← getLast?_append_getD, ← reports_append]
    rfl

theorem runs_performAll (c : Controller) (ops : List Operation) (i : Fin 2) :
    (c.performAll ops).runs i =
      (reports (motor? i) (c.emittedBy (fun _ => true) ops)).getLast?.getD (c.runs i) :=
  @last_performAll (fun c => c.runs i) _ (fun c op => (c.emits op).runs_eq i) c ops

theorem hasDisk_performAll (c : Controller) (ops : List Operation) (i : Fin 2) :
    ((c.performAll ops).drives.get i).hasDisk =
      (reports (disk? i) (c.emittedBy (fun _ => true) ops)).getLast?.getD (c.drives.get i).hasDisk :=
  @last_performAll (fun c => (c.drives.get i).hasDisk) _ (fun c op => (c.emits op).disks i) c ops

/-- **A run.** Without resumptions the reports about a motor turn from one to the other. -/
theorem turns_performAll (c : Controller) (ops : List Operation) (i : Fin 2) :
    Turns (c.runs i) (reports (motor? i) (c.emittedBy (fun op => !op.resumes) ops)) ((c.performAll ops).runs i) := by
  induction ops generalizing c with
  | nil => exact .done _
  | cons op ops ih =>
    rw [performAll_cons, emittedBy, reports_append]
    refine Turns.append ?_ (ih _)
    cases hop : op.resumes with
    | false => exact (c.emits op).turns hop i
    | true =>
      rw [((c.emits op).repeats hop i).1]
      exact .done _

end Controller

/-- **The events tell the state of the drives.** Whatever is asked of a new controller, in any order, the motor of a
drive runs exactly if the last event about it is that it was switched on, and the drive has a disk exactly if the last
event about that is that it was put in.  The events are those that the operations emitted, one after the other.  Without
those of resumptions, the events about a motor turn from on to off and from off to on, and the first one is on.  A disk
is only reported as taken out of a drive that had one. -/
theorem status_of_events (log : Log) (ops : List Controller.Operation) :
    let start : Controller := { Controller.empty with log }
    let c := start.performAll ops
    c.events.toList = start.emittedBy (fun _ => true) ops ∧
      ∀ i : Fin 2,
        ((c.drives.get i).motorRunning = true ↔ (reports (motor? i) c.events.toList).getLast? = some true) ∧
        ((c.drives.get i).hasDisk = true ↔ (reports (disk? i) c.events.toList).getLast? = some true) ∧
        (false :: reports (motor? i) (start.emittedBy (fun op => !op.resumes) ops)).IsChain (· ≠ ·) ∧
        ∀ op, DriveEvent.diskEjected i ∈ c.emitted op → (c.drives.get i).hasDisk = true := by
  intro start c
  have hevents : c.events.toList = start.emittedBy (fun _ => true) ops := start.events_performAll ops
  have hlast (reports : List Bool) : reports.getLast?.getD false = true ↔ reports.getLast? = some true := by
    cases reports.getLast? <;> simp
  have hstill (i : Fin 2) : start.runs i = false := (by decide : ∀ i, Controller.empty.runs i = false) i
  have hnone (i : Fin 2) : (start.drives.get i).hasDisk = false :=
    (by decide : ∀ i, (Controller.empty.drives.get i).hasDisk = false) i
  refine ⟨hevents, fun i => ⟨?_, ?_, ?_, fun op => (c.emits op).ejected i⟩⟩
  · have hruns := start.runs_performAll ops i
    rw [hstill] at hruns
    rw [hevents, ← hlast, ← hruns]
    rfl
  · have hdisk := start.hasDisk_performAll ops i
    rw [hnone] at hdisk
    rw [hevents, ← hlast, ← hdisk]
  · have hturns := start.turns_performAll ops i
    rw [hstill] at hturns
    exact hturns.isChain

end AppleII.Disk
