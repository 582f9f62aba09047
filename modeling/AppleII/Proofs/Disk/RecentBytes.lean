import AppleII.Proofs.Disk.Hearing
import AppleII.Proofs.Disk.Stepper
import AppleII.Proofs.Disk.Unsaved
import Mathlib.Data.List.DropRight

/-!
# The bytes that were read last

A ring of bytes holds the last ones that were pushed to it, as many as it has places (`ByteRing.Holds`).  To the ring
of a controller only the bytes that are read off the disks are pushed (`Controller.trail_act`).  So the log shows the
last of them when a motor is to stop, the oldest one first and sixteen in a line (`log_shows_last_bytes`).
-/

namespace AppleII.Disk

/-! ## Rings -/

namespace ByteRing

variable {r : ByteRing} {bs : List UInt8}

def pushAll (r : ByteRing) (bs : List UInt8) : ByteRing := bs.foldl push r

/-- What a new ring comes to when some bytes are pushed to it: those that are not a whole round old are in their
places. -/
structure Holds (r : ByteRing) (bs : List UInt8) : Prop where
  pushed : r.pushed = bs.length
  get : ∀ i (hi : i < bs.length), bs.length ≤ i + r.capacity → r.get i = bs[i]

@[simp] theorem capacity_ofCapacity (n : Nat) : (ofCapacity n).capacity = max n 1 := by
  simp [capacity, ofCapacity]

theorem holds_ofCapacity (n : Nat) : (ofCapacity n).Holds [] := by
  refine ⟨rfl, ?_⟩
  intro i hi
  cases hi

theorem pushAll_append (r : ByteRing) (bs bs' : List UInt8) : r.pushAll (bs ++ bs') = (r.pushAll bs).pushAll bs' :=
  List.foldl_append

@[simp] theorem capacity_pushAll (r : ByteRing) (bs : List UInt8) : (r.pushAll bs).capacity = r.capacity := by
  induction bs generalizing r with
  | nil => rfl
  | cons b bs ih =>
    show ((r.push b).pushAll bs).capacity = r.capacity
    rw [ih, capacity_push]

/-- Two bytes that are less than a round apart have different places. -/
theorem place_ne {i j places : Nat} (hij : i < j) (hround : j < i + places) : j % places ≠ i % places := by
  intro h
  have hdvd : places ∣ j - i := (Nat.modEq_iff_dvd' hij.le).mp h.symm
  have hle : places ≤ j - i := Nat.le_of_dvd (by omega) hdvd
  omega

/-- A byte that is pushed takes the place of the one that is a whole round older, and of no other. -/
theorem get_push_of_lt {i : Nat} (hi : i < r.pushed) (hround : r.pushed < i + r.capacity) (b : UInt8) :
    (r.push b).get i = r.get i := by
  have hne : r.pushed % r.bytes.size ≠ i % r.bytes.size := place_ne hi hround
  unfold get push
  simp only [Array.size_set]
  exact Array.getElem_set_ne _ _ hne

theorem Holds.push (h : r.Holds bs) (b : UInt8) : (r.push b).Holds (bs ++ [b]) := by
  obtain ⟨hpushed, hget⟩ := h
  refine ⟨?_, ?_⟩
  · show r.pushed + 1 = (bs ++ [b]).length
    simp [hpushed]
  · intro i hi hlast
    simp only [List.length_append, List.length_singleton, capacity_push] at hi hlast
    by_cases hnew : i = bs.length
    · subst hnew
      rw [List.getElem_concat_length rfl, ← hpushed, get_push_self]
    · have hold : i < bs.length := by omega
      rw [get_push_of_lt (by omega) (by omega), hget i hold (by omega), List.getElem_append_left hold]

/-- **A run** of pushes, from any ring on. -/
theorem Holds.pushAll (h : r.Holds bs) (bs' : List UInt8) : (r.pushAll bs').Holds (bs ++ bs') := by
  induction bs' generalizing r bs with
  | nil =>
    rw [List.append_nil]
    exact h
  | cons b bs' ih =>
    have hrest : ((r.push b).pushAll bs').Holds ((bs ++ [b]) ++ bs') := ih (h.push b)
    rwa [List.append_assoc, List.singleton_append] at hrest

/-- A ring gives the last bytes that it holds. -/
theorem Holds.lastN_eq (h : r.Holds bs) (n : Nat) :
    r.lastN n = bs.rtake (min n (min r.capacity bs.length)) := by
  obtain ⟨hpushed, hget⟩ := h
  unfold lastN List.rtake
  rw [hpushed, Nat.min_assoc]
  apply List.ext_getElem
  · simp
    omega
  · intro i hi hi'
    simp only [List.length_map, List.length_range] at hi
    simp only [List.getElem_map, List.getElem_range, List.getElem_drop]
    exact hget _ _ (by omega)

theorem lastN_pushAll (capacity n : Nat) (bs : List UInt8) :
    ((ofCapacity capacity).pushAll bs).lastN n = bs.rtake (min n (min (max capacity 1) bs.length)) := by
  rw [((holds_ofCapacity capacity).pushAll bs).lastN_eq, capacity_pushAll, capacity_ofCapacity, List.nil_append]

end ByteRing

/-! ## Lines of the log -/

namespace LogEntry

/-- A line with some bytes. -/
def byteLine (bs : List UInt8) : String := "  " ++ " ".intercalate (bs.map fun b => Text.upperHex 2 b.toNat)

/-- The bytes of line `i` are those from `16 * i` on. -/
theorem byteLines_eq {fuel : Nat} {bs : List UInt8} (h : bs.length ≤ fuel) :
    byteLines fuel bs = (List.range ((bs.length + 15) / 16)).map fun i => byteLine ((bs.drop (16 * i)).take 16) := by
  induction fuel generalizing bs with
  | zero =>
    obtain rfl := List.length_eq_zero_iff.mp (Nat.le_zero.mp h)
    rfl
  | succ fuel ih =>
    cases hbs : bs with
    | nil => rfl
    | cons b rest =>
      rw [← hbs]
      have hpos : 0 < bs.length := by simp [hbs]
      have hlines : (bs.length + 15) / 16 = ((bs.drop 16).length + 15) / 16 + 1 := by
        rw [List.length_drop]
        omega
      have hfirst : byteLines (fuel + 1) bs = byteLine (bs.take 16) :: byteLines fuel (bs.drop 16) := by
        rw [hbs]
        rfl
      have hrest : (bs.drop 16).length ≤ fuel := by
        rw [List.length_drop]
        omega
      rw [hfirst, ih hrest, hlines, List.range_succ_eq_map, List.map_cons, List.map_map]
      congr 1
      apply List.map_congr_left
      intro i _
      simp only [Function.comp_apply, List.drop_drop]
      congr 3
      omega

end LogEntry

theorem Log.lines_add {l : Log} {e : LogEntry} (h : e.enabled l.levels = true) :
    (l.add e).lines = l.lines ++ e.lines := by
  unfold Log.add Log.lines
  rw [if_pos h]
  simp

/-! ## The ring of a controller -/

namespace Controller

variable {c : Controller}

/-- The bytes that a controller remembers, and the categories that it logs. -/
def trail (c : Controller) : ByteRing × LogLevels := (c.recent, c.log.levels)

/-- The byte that the data register gives: the next one of the selected drive, while that turns in read mode. -/
def dataByte? (c : Controller) : Option UInt8 :=
  if c.selected.motorRunning && !c.selected.writeMode then some c.selected.nextByte.1 else none

/-- The byte that is read off a disk by an action. -/
def byteRead? (c : Controller) : Action → Option UInt8
  | .operate (.access reg _ _ _) => if reg &&& 0x0F = 0xC then c.dataByte? else none
  | _ => none

/-- The bytes that are read off the disks by some actions, the first one first. -/
def bytesRead (c : Controller) : List Action → List UInt8
  | [] => []
  | a :: actions => (c.byteRead? a).toList ++ bytesRead (c.act a) actions

/-! ### What leaves the ring alone -/

@[simp] theorem trail_note (c : Controller) (e : LogEntry) : (c.note e).trail = c.trail := by
  unfold note trail
  rw [Log.levels_add]

@[simp] theorem trail_emit (c : Controller) (e : DriveEvent) : (c.emit e).trail = c.trail := by
  unfold emit trail
  rw [Log.levels_add]

@[simp] theorem trail_setMotor (c : Controller) (d : Fin 2) (on : Bool) : (c.setMotor d on).trail = c.trail := by
  unfold setMotor
  split
  · rfl
  · rw [trail_emit]
    rfl

theorem trail_startMotor (c : Controller) : c.startMotor.trail = c.trail :=
  trail_setMotor { c with motorOffAt := none } c.current true

theorem trail_requestStop (c : Controller) (cycle : Nat) : (c.requestStop cycle).trail = c.trail := by
  unfold requestStop
  rw [trail_note]
  rfl

theorem trail_select (c : Controller) (d : Fin 2) : (c.select d).trail = c.trail := by
  have hmotors : (if (c.drives.get (Drives.other d)).motorRunning = true then
      (c.setMotor (Drives.other d) false).setMotor d true else c).trail = c.trail := by
    split <;> simp
  unfold select
  dsimp only
  generalize (if (c.drives.get (Drives.other d)).motorRunning = true then _ else c : Controller) = switched at hmotors ⊢
  have hselected : (if switched.current = d then switched else switched.note (.driveSelected d)).trail = c.trail := by
    split <;> simp [hmotors]
  exact hselected

theorem trail_stepPhases (c : Controller) (phases : List Bool) : (c.stepPhases phases).trail = c.trail := by
  rcases c.stepPhases_cases phases with heq | ⟨dir, heq⟩
  · rw [heq]
  · rw [heq]
    unfold pull
    exact trail_emit _ _

theorem trail_loadData (c : Controller) (value : Option UInt8) : (c.loadData value).trail = c.trail := by
  cases value <;> rfl

theorem trail_flushIfWriting (c : Controller) (cycle : Nat) : (c.flushIfWriting cycle).trail = c.trail := by
  have hflush (delta : Nat) : (c.flushWrite delta).trail = c.trail := by
    unfold flushWrite
    dsimp only
    split
    · rw [trail_note]
      rfl
    · rfl
  unfold flushIfWriting
  split
  · exact hflush _
  · rfl

theorem trail_setWriteMode (c : Controller) (on : Bool) : (c.setWriteMode on).trail = c.trail := by
  have hnoted (changed : Bool) : (if changed then c.note (.writeMode c.current on) else c).trail = c.trail := by
    split <;> simp
  exact hnoted (c.selected.writeMode != on)

theorem trail_motorTimeout (c : Controller) (sw : Switches) : (c.motorTimeout sw).trail = c.trail := by
  unfold motorTimeout
  split <;> simp

theorem trail_update (c : Controller) (cycle : Nat) (sw : Switches) : (c.update cycle sw).trail = c.trail := by
  unfold update
  split
  · split
    · exact trail_motorTimeout { c with motorOffAt := none } sw
    · rfl
  · rfl

theorem trail_resume (c : Controller) : c.resume.trail = c.trail := by
  unfold resume
  split <;> simp

theorem trail_save (c : Controller) (drive : Nat) : (c.save drive).2.trail = c.trail := by
  unfold save
  split
  · dsimp only
    split <;> rfl
  · rfl

theorem trail_insert (c : Controller) (drive : Nat) (fileName : String) (bytes : Array UInt8) :
    (c.perform (.insert drive fileName bytes)).trail = c.trail := by
  rw [perform_insert]
  cases hinsert : c.insert drive fileName bytes with
  | error e => rfl
  | ok r =>
    obtain ⟨w, c'⟩ := r
    obtain ⟨i, disk, -, -, -, rfl⟩ := insert_eq_ok_iff.mp hinsert
    exact trail_emit _ _

theorem trail_eject (c : Controller) (drive : Nat) : (c.perform (.eject drive)).trail = c.trail := by
  rw [perform_eject]
  cases heject : c.eject drive with
  | error e => rfl
  | ok c' =>
    rcases eject_cases heject with rfl | ⟨i, -, rfl⟩
    · rfl
    · exact trail_emit _ _

theorem trail_restore (c : Controller) (state : DiskState) : (c.act (.restore state)).trail = c.trail := by
  rw [act_restore]
  cases hrestore : c.restore state with
  | error e => rfl
  | ok c' =>
    obtain ⟨⟨current, drives⟩, -, h⟩ := bind_eq_ok_iff.mp hrestore
    cases h
    rfl

/-! ### What is pushed to the ring -/

theorem trail_readData (hbits : c.log.levels.bits = true) :
    c.readData.2.trail = (c.recent.pushAll c.dataByte?.toList, c.log.levels) := by
  unfold readData dataByte?
  by_cases hreads : (c.selected.motorRunning && !c.selected.writeMode) = true
  · rw [if_pos hreads, if_pos hreads, Drives.update_eq]
    simp only [hbits, if_true]
    rfl
  · rw [if_neg hreads, if_neg hreads]
    rfl

theorem trail_access (hbits : c.log.levels.bits = true) (reg : UInt8) (value : Option UInt8) (cycle : Nat)
    (sw : Switches) : (c.access reg value cycle sw).2.trail =
      (c.recent.pushAll (c.byteRead? (.operate (.access reg value cycle sw))).toList, c.log.levels) := by
  simp only [byteRead?]
  by_cases hdata : reg &&& 0x0F = 0xC
  · rw [if_pos hdata, ← trail_readData hbits]
    unfold access
    rw [hdata]
    rfl
  · rw [if_neg hdata]
    show _ = c.trail
    unfold access
    split
    · exact c.trail_requestStop cycle
    · exact c.trail_startMotor
    · exact c.trail_select driveOne
    · exact c.trail_select driveTwo
    · contradiction
    · rw [trail_loadData, trail_flushIfWriting]
    · rw [trail_setWriteMode, trail_flushIfWriting]
    · rw [trail_loadData]
      exact c.trail_setWriteMode true
    · exact c.trail_stepPhases sw.phases

/-- **A step.** Nothing is pushed to the ring but the byte that is read. -/
theorem trail_act (hbits : c.log.levels.bits = true) (a : Action) :
    (c.act a).trail = (c.recent.pushAll (c.byteRead? a).toList, c.log.levels) := by
  cases a with
  | takeEvents => rfl
  | restore state => exact c.trail_restore state
  | operate op =>
    cases op with
    | access reg value cycle switches => exact trail_access hbits reg value cycle switches
    | update cycle switches => exact c.trail_update cycle switches
    | reset switches => exact trail_motorTimeout { c with motorOffAt := none } (switches.set .motor false)
    | insert drive fileName bytes => exact c.trail_insert drive fileName bytes
    | eject drive => exact c.trail_eject drive
    | save drive => exact c.trail_save drive
    | pause goesOn =>
      cases goesOn with
      | false => rfl
      | true => exact c.trail_resume

/-- **A run.** The bytes that are read are pushed to the ring, one after the other. -/
theorem trail_actAll (hbits : c.log.levels.bits = true) (actions : List Action) :
    (c.actAll actions).trail = (c.recent.pushAll (c.bytesRead actions), c.log.levels) := by
  induction actions generalizing c with
  | nil => rfl
  | cons a actions ih =>
    obtain ⟨hrecent, hlevels⟩ := Prod.mk.inj (trail_act hbits a)
    show ((c.act a).actAll actions).trail = _
    rw [ih (by rw [hlevels, hbits]), hrecent, hlevels, ← ByteRing.pushAll_append]
    rfl

/-- The bytes that are remembered are logged when the motor is to stop. -/
theorem lines_access_requestStop (hbits : c.log.levels.bits = true) {reg : UInt8} (hreg : reg &&& 0x0F = 0x8)
    (value : Option UInt8) (cycle : Nat) (sw : Switches) :
    (c.access reg value cycle sw).2.log.lines = c.log.lines ++ (LogEntry.recent (c.recent.lastN 32)).lines := by
  unfold access
  rw [hreg]
  exact Log.lines_add hbits

end Controller

/-- **The log shows the bytes that were read last.** A ring gives the last of the bytes that were pushed to it, in
their order: as many as it is asked for, as it has places and as there were.  So, whatever was done to a new controller
while bytes were logged, a motor that is to stop has the last 32 bytes logged that were read off the disks, or all if
there were fewer, the oldest one first and sixteen in a line. -/
theorem log_shows_last_bytes :
    (∀ (capacity n : Nat) (bs : List UInt8), ((ByteRing.ofCapacity capacity).pushAll bs).lastN n =
      bs.rtake (min n (min (max capacity 1) bs.length))) ∧
    ∀ log : Log, log.levels.bits = true → ∀ reg : UInt8, reg &&& 0x0F = 0x8 →
      ∀ (actions : List Controller.Action) (value : Option UInt8) (cycle : Nat) (sw : Switches),
        let start : Controller := { Controller.empty with log }
        let c := start.actAll actions
        let read := start.bytesRead actions
        let shown := read.rtake (min 32 read.length)
        (c.access reg value cycle sw).2.log.lines =
          c.log.lines ++ s!"[BITS] Last {shown.length} bytes:" ::
            (List.range ((shown.length + 15) / 16)).map fun i => LogEntry.byteLine ((shown.drop (16 * i)).take 16) := by
  refine ⟨ByteRing.lastN_pushAll, ?_⟩
  intro log hbits reg hreg actions value cycle sw start c read shown
  obtain ⟨hrecent, hlevels⟩ := Prod.mk.inj (Controller.trail_actAll (c := start) hbits actions)
  have hshown : c.recent.lastN 32 = shown := by
    have hring : c.recent = (ByteRing.ofCapacity 256).pushAll read := hrecent
    rw [hring, ByteRing.lastN_pushAll]
    show read.rtake _ = read.rtake _
    congr 1
    omega
  have hbits' : c.log.levels.bits = true := by
    rw [hlevels]
    exact hbits
  rw [Controller.lines_access_requestStop hbits' hreg, hshown]
  show _ ++ _ :: LogEntry.byteLines shown.length shown = _
  rw [LogEntry.byteLines_eq (Nat.le_refl _)]

/-- The state of a controller whose first drive turns a track of three bytes. -/
def threeNibbles : DiskState :=
  .capture { Controller.empty with
    drives.first := { Drive.empty with
      motorRunning := true
      image := #[0x00, 0xD5, 0xAA, 0x96]
      tracks := Vector.replicate _ { start := 1, bits := 24 } } }

/-- Of 34 bytes that were read, the last 32 are logged in two lines. -/
theorem log_shows_last_bytes_nibbles :
    let log : Log := { levels := { bits := true } }
    let start : Controller := { Controller.empty with log }
    let reads := Controller.Action.restore threeNibbles :: List.replicate 34 (.operate (.access 0xC none 0 .reset))
    log.levels.bits = true ∧ (0x8 : UInt8) &&& 0x0F = 0x8 ∧
      start.bytesRead reads = (List.replicate 11 [0xD5, 0xAA, 0x96]).flatten ++ [0xD5] ∧
      ((start.actAll reads).access 0x8 none 0 .reset).2.log.lines = ["[BITS] Last 32 bytes:",
        "  96 D5 AA 96 D5 AA 96 D5 AA 96 D5 AA 96 D5 AA 96", "  D5 AA 96 D5 AA 96 D5 AA 96 D5 AA 96 D5 AA 96 D5"] := by
  intro log start reads
  have hread : start.bytesRead reads = (List.replicate 11 [0xD5, 0xAA, 0x96]).flatten ++ [0xD5] := by decide +kernel
  have hnone : (start.actAll reads).log.lines = [] := by decide +kernel
  refine ⟨rfl, rfl, hread, ?_⟩
  rw [log_shows_last_bytes.2 log rfl 0x8 rfl reads none 0 .reset, hread, hnone]
  decide +kernel

end AppleII.Disk
