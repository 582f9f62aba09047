import AppleII.Processor.Step

/-!
# Processors on related buses

`Bus.Simulation R` says that two buses related by `R` answer alike and stay related.  Then two
processors with the same registers take the same step on them (`Processor.step_related`): everything
that an instruction does is built from a few accesses, and each of them keeps the relation.  So a step also
keeps every property of a bus that each access keeps (`Processor.step_keeps`).

`Bus.SimulationUnless E R` leaves out the accesses after which the first bus has escaped, which is `E`.  A step is then
the same unless it escapes (`Processor.step_related_unless`).
-/

namespace AppleII.Processor

variable {σ τ : Type}

/-- Related buses give the same byte at every address, and every access leaves them related. -/
structure Bus.Simulation [Bus σ] [Bus τ] (R : σ → τ → Prop) : Prop where
  read : ∀ {s t}, R s t → ∀ address,
    (Bus.read s address).1 = (Bus.read t address).1 ∧ R (Bus.read s address).2 (Bus.read t address).2
  write : ∀ {s t}, R s t → ∀ address value, R (Bus.write s address value) (Bus.write t address value)

/-- A property of a bus that every access keeps. -/
structure Bus.Keeps [Bus σ] (P : σ → Prop) : Prop where
  read : ∀ {s}, P s → ∀ address, P (Bus.read s address).2
  write : ∀ {s}, P s → ∀ address value, P (Bus.write s address value)

/-- Every access to related buses lets the first one escape, or gives the same byte and leaves them related.  A bus
that has escaped does not come back. -/
structure Bus.SimulationUnless [Bus σ] [Bus τ] (E : σ → Prop) (R : σ → τ → Prop) : Prop where
  keeps : Bus.Keeps E
  read : ∀ {s t}, R s t → ∀ address, E (Bus.read s address).2 ∨
    (Bus.read s address).1 = (Bus.read t address).1 ∧ R (Bus.read s address).2 (Bus.read t address).2
  write : ∀ {s t}, R s t → ∀ address value, E (Bus.write s address value) ∨
    R (Bus.write s address value) (Bus.write t address value)

/-- In a simulation no bus escapes. -/
theorem Bus.Simulation.unless [Bus σ] [Bus τ] {R : σ → τ → Prop} (hR : Bus.Simulation R) :
    Bus.SimulationUnless (fun _ => False) R where
  keeps := ⟨False.elim, False.elim⟩
  read h address := .inr (hR.read h address)
  write h address value := .inr (hR.write h address value)

/-- The same registers and cycles, on related buses. -/
structure Datapath.Related (R : σ → τ → Prop) (d : Datapath σ) (e : Datapath τ) : Prop where
  regs : d.regs = e.regs
  bus : R d.bus e.bus
  cycles : d.cycles = e.cycles

namespace Exec

variable {E : σ → Prop} {R : σ → τ → Prop} {α β : Type}

/-- Computations that give the same from related states and leave them related, unless the first one escapes. -/
structure Related (E : σ → Prop) (R : σ → τ → Prop) (x : Exec σ α) (y : Exec τ α) : Prop where
  escaped : ∀ d, E d.bus → E (x d).2.bus
  same : ∀ {d e}, d.Related R e → E (x d).2.bus ∨ (x d).1 = (y e).1 ∧ (x d).2.Related R (y e).2

namespace Related

/-! ## The accesses -/

theorem pure (a : α) : Related E R (Pure.pure a) (Pure.pure a) := ⟨fun _ h => h, fun h => .inr ⟨rfl, h⟩⟩

theorem bind {x : Exec σ α} {y : Exec τ α} {f : α → Exec σ β} {g : α → Exec τ β}
    (hx : Related E R x y) (hf : ∀ a, Related E R (f a) (g a)) : Related E R (x >>= f) (y >>= g) where
  escaped d h := (hf (x d).1).escaped (x d).2 (hx.escaped d h)
  same {d e} h := by
    show E (f (x d).1 (x d).2).2.bus ∨ (f (x d).1 (x d).2).1 = (g (y e).1 (y e).2).1 ∧
      (f (x d).1 (x d).2).2.Related R (g (y e).1 (y e).2).2
    rcases hx.same h with hescaped | ⟨hanswer, hnext⟩
    · exact .inl ((hf (x d).1).escaped _ hescaped)
    · rw [hanswer]
      exact (hf (y e).1).same hnext

theorem ite (c : Prop) [Decidable c] {x x' : Exec σ α} {y y' : Exec τ α} (h : Related E R x y)
    (h' : Related E R x' y') : Related E R (if c then x else x') (if c then y else y') := by
  split
  · exact h
  · exact h'

theorem regs : Related E R (Exec.regs : Exec σ Registers) Exec.regs := ⟨fun _ h => h, fun h => .inr ⟨h.regs, h⟩⟩

theorem modifyRegs (f : Registers → Registers) :
    Related E R (Exec.modifyRegs f : Exec σ Unit) (Exec.modifyRegs f) :=
  ⟨fun _ h => h, fun h => .inr ⟨rfl, congrArg f h.regs, h.bus, h.cycles⟩⟩

theorem wait (n : Nat) : Related E R (Exec.wait n : Exec σ Unit) (Exec.wait n) :=
  ⟨fun _ h => h, fun h => .inr ⟨rfl, h.regs, h.bus, congrArg (· + n) h.cycles⟩⟩

theorem jumpTo (address : UInt16) : Related E R (Exec.jumpTo address : Exec σ Unit) (Exec.jumpTo address) :=
  modifyRegs _

theorem indexed (base : UInt16) (index : UInt8) (writes : Bool) :
    Related E R (Exec.indexed base index writes : Exec σ UInt16) (Exec.indexed base index writes) := by
  unfold Exec.indexed
  exact .ite _ (.bind (.wait 1) fun _ => .pure _) (.pure _)

theorem takeBranch (offset : UInt8) :
    Related E R (Exec.takeBranch offset : Exec σ Unit) (Exec.takeBranch offset) := by
  unfold Exec.takeBranch
  exact .bind .regs fun _ => .bind (.jumpTo _) fun _ => .wait _

variable [Bus σ] [Bus τ] (hR : Bus.SimulationUnless E R)
include hR

theorem read (address : UInt16) : Related E R (Exec.read address : Exec σ UInt8) (Exec.read address) where
  escaped _ h := hR.keeps.read h address
  same h := (hR.read h.bus address).imp_right fun ⟨hbyte, hbus⟩ => ⟨hbyte, h.regs, hbus, h.cycles⟩

theorem write (address : UInt16) (value : UInt8) :
    Related E R (Exec.write address value : Exec σ Unit) (Exec.write address value) where
  escaped _ h := hR.keeps.write h address value
  same h := (hR.write h.bus address value).imp_right fun hbus => ⟨rfl, h.regs, hbus, h.cycles⟩

/-! ## The parts of an instruction -/

theorem fetchByte : Related E R (Exec.fetchByte : Exec σ UInt8) Exec.fetchByte := by
  unfold Exec.fetchByte
  refine .bind .regs fun r => .bind (.read hR _) fun v => ?_
  exact .bind (.modifyRegs _) fun _ => .bind (.wait 1) fun _ => .pure v

theorem fetchWord : Related E R (Exec.fetchWord : Exec σ UInt16) Exec.fetchWord := by
  unfold Exec.fetchWord
  exact .bind (.fetchByte hR) fun _ => .bind (.fetchByte hR) fun _ => .pure _

theorem readWord (low high : UInt16) :
    Related E R (Exec.readWord low high : Exec σ UInt16) (Exec.readWord low high) := by
  unfold Exec.readWord
  exact .bind (.read hR low) fun _ => .bind (.read hR high) fun _ => .pure _

theorem readPointer (p : UInt8) :
    Related E R (Exec.readPointer p : Exec σ UInt16) (Exec.readPointer p) := readWord hR _ _

theorem pushByte (value : UInt8) :
    Related E R (Exec.pushByte value : Exec σ Unit) (Exec.pushByte value) := by
  unfold Exec.pushByte
  exact .bind .regs fun _ => .bind (.write hR _ value) fun _ => .modifyRegs _

theorem pullByte : Related E R (Exec.pullByte : Exec σ UInt8) Exec.pullByte := by
  unfold Exec.pullByte
  exact .bind (.modifyRegs _) fun _ => .bind .regs fun _ => .read hR _

theorem pushWord (value : UInt16) :
    Related E R (Exec.pushWord value : Exec σ Unit) (Exec.pushWord value) := by
  unfold Exec.pushWord
  exact .bind (.pushByte hR _) fun _ => .pushByte hR _

theorem pullWord : Related E R (Exec.pullWord : Exec σ UInt16) Exec.pullWord := by
  unfold Exec.pullWord
  exact .bind (.pullByte hR) fun _ => .bind (.pullByte hR) fun _ => .pure _

theorem operandAddress (mode : Mode) (writes : Bool) :
    Related E R (Exec.operandAddress mode writes : Exec σ UInt16) (Exec.operandAddress mode writes) := by
  cases mode with
  | immediate => exact .bind .regs fun _ => .bind (.jumpTo _) fun _ => .pure _
  | zeroPage => exact .bind (.fetchByte hR) fun _ => .pure _
  | zeroPageX | zeroPageY =>
    exact .bind (.fetchByte hR) fun _ => .bind (.wait 1) fun _ => .bind .regs fun _ => .pure _
  | absolute => exact .fetchWord hR
  | absoluteX | absoluteY =>
    exact .bind (.fetchWord hR) fun _ => .bind .regs fun _ => .indexed _ _ _
  | indirectX =>
    refine .bind (.fetchByte hR) fun _ => .bind (.wait 3) fun _ => ?_
    exact .bind .regs fun _ => .readPointer hR _
  | indirectY =>
    refine .bind (.fetchByte hR) fun _ => .bind (.readPointer hR _) fun _ => ?_
    exact .bind (.wait 2) fun _ => .bind .regs fun _ => .indexed _ _ _
  | zeroPageIndirect =>
    exact .bind (.fetchByte hR) fun _ => .bind (.wait 2) fun _ => .readPointer hR _

theorem jumpThrough (vector : UInt16) :
    Related E R (Exec.jumpThrough vector : Exec σ Unit) (Exec.jumpThrough vector) := by
  unfold Exec.jumpThrough
  exact .bind (.readWord hR _ _) fun _ => .jumpTo _

theorem serviceInterrupt (m : Model) (vector : UInt16) :
    Related E R (Exec.serviceInterrupt m vector : Exec σ Unit) (Exec.serviceInterrupt m vector) := by
  unfold Exec.serviceInterrupt
  refine .bind .regs fun _ => .bind (.pushWord hR _) fun _ => .bind (.pushByte hR _) fun _ => ?_
  exact .bind (.modifyRegs _) fun _ => .bind (.jumpThrough hR vector) fun _ => .wait 7

theorem jumpIndirect (m : Model) :
    Related E R (Exec.jumpIndirect m : Exec σ Unit) (Exec.jumpIndirect m) := by
  unfold Exec.jumpIndirect
  refine .bind (.fetchWord hR) fun _ => ?_
  cases m with
  | nmos => exact .bind (.readWord hR _ _) fun _ => .bind (.jumpTo _) fun _ => .wait 2
  | cmos => exact .bind (.readWord hR _ _) fun _ => .bind (.jumpTo _) fun _ => .wait 3

theorem returnFromInterrupt :
    Related E R (Exec.returnFromInterrupt : Exec σ Unit) Exec.returnFromInterrupt := by
  unfold Exec.returnFromInterrupt
  refine .bind (.pullByte hR) fun _ => .bind (.modifyRegs _) fun _ => ?_
  exact .bind (.pullWord hR) fun _ => .bind (.jumpTo _) fun _ => .wait 5

theorem skipBytes (n : Nat) : Related E R (Exec.skipBytes n : Exec σ Unit) (Exec.skipBytes n) := by
  induction n with
  | zero => exact .pure ()
  | succ n ih => exact .bind (.fetchByte hR) fun _ => ih

/-- **An instruction** does the same on related buses. -/
theorem execute (m : Model) (i : Instruction) :
    Related E R (Exec.execute m i : Exec σ Unit) (Exec.execute m i) := by
  cases i with
  | read op mode =>
    refine .bind (.operandAddress hR mode false) fun _ => .bind (.read hR _) fun _ => ?_
    exact .bind (.modifyRegs _) fun _ => .wait 1
  | write s mode =>
    refine .bind (.operandAddress hR mode true) fun _ => .bind .regs fun _ => ?_
    exact .bind (.write hR _ _) fun _ => .wait 1
  | modify op mode =>
    refine .bind (.operandAddress hR mode true) fun _ => .bind (.read hR _) fun _ => ?_
    refine .bind .regs fun _ => .bind (.modifyRegs _) fun _ => ?_
    exact .bind (.write hR _ _) fun _ => .wait 3
  | modifyAccumulator op => exact .bind (.modifyRegs _) fun _ => .wait 1
  | register op => exact .bind (.modifyRegs _) fun _ => .wait 1
  | push g => exact .bind .regs fun _ => .bind (.pushByte hR _) fun _ => .wait 2
  | pull g => exact .bind (.pullByte hR) fun _ => .bind (.modifyRegs _) fun _ => .wait 3
  | pushStatus => exact .bind .regs fun _ => .bind (.pushByte hR _) fun _ => .wait 2
  | pullStatus => exact .bind (.pullByte hR) fun _ => .bind (.modifyRegs _) fun _ => .wait 3
  | branch c =>
    refine .bind (.fetchByte hR) fun _ => .bind .regs fun _ => ?_
    exact .ite _ (.takeBranch _) (.pure ())
  | branchBit n b =>
    refine .bind (.fetchByte hR) fun _ => .bind (.read hR _) fun _ => .bind (.fetchByte hR) fun _ => ?_
    exact .bind (.wait 2) fun _ => .ite _ (.takeBranch _) (.pure ())
  | jump => exact .bind (.fetchWord hR) fun _ => .jumpTo _
  | jumpIndirect => exact .jumpIndirect hR m
  | jumpIndexedIndirect =>
    refine .bind (.fetchWord hR) fun _ => .bind .regs fun _ => .bind (.readWord hR _ _) fun _ => ?_
    exact .bind (.jumpTo _) fun _ => .wait 3
  | call =>
    refine .bind (.fetchWord hR) fun _ => .bind .regs fun _ => .bind (.pushWord hR _) fun _ => ?_
    exact .bind (.jumpTo _) fun _ => .wait 3
  | ret => exact .bind (.pullWord hR) fun _ => .bind (.jumpTo _) fun _ => .wait 5
  | «break» =>
    refine .bind .regs fun _ => .bind (.pushWord hR _) fun _ => .bind (.pushByte hR _) fun _ => ?_
    exact .bind (.modifyRegs _) fun _ => .bind (.jumpThrough hR _) fun _ => .wait 6
  | returnFromInterrupt => exact .returnFromInterrupt hR
  | skip operands extra => exact .bind (.skipBytes hR operands) fun _ => .wait extra

end Related

end Exec

section Unless

variable {E : σ → Prop} {R : σ → τ → Prop} [Bus σ] [Bus τ] (hR : Bus.SimulationUnless E R)
include hR

theorem perform_related (m : Model) (d : Due) :
    Exec.Related E R (perform m d : Exec σ (Option UInt8)) (perform m d) := by
  cases d with
  | nonMaskable => exact .bind (.serviceInterrupt hR m _) fun _ => .pure none
  | request => exact .bind (.serviceInterrupt hR m _) fun _ => .pure none
  | instruction =>
    exact .bind (.fetchByte hR) fun _ => .bind (.execute hR m _) fun _ => .pure _

/-- **A step** that does not escape takes as long on both buses and leaves the same processor.  The opcode of the step
before plays no part in it. -/
theorem step_related_unless (p : Processor) (o : Option UInt8) {s : σ} {t : τ} (h : R s t) :
    E (p.step s).2.2 ∨ (p.step s).1 = ({ p with lastOpcode := o }.step t).1 ∧
      (p.step s).2.1 = ({ p with lastOpcode := o }.step t).2.1 ∧
      R (p.step s).2.2 ({ p with lastOpcode := o }.step t).2.2 := by
  have hstart : (⟨p.regs, s, 0⟩ : Datapath σ).Related R ⟨p.regs, t, 0⟩ := ⟨rfl, h, rfl⟩
  refine ((perform_related hR p.model p.due).same hstart).imp_right fun ⟨hopcode, hnext⟩ => ?_
  refine ⟨hnext.cycles, ?_, hnext.bus⟩
  show { p with
      regs := (perform p.model p.due ⟨p.regs, s, 0⟩).2.regs
      totalCycles := Count.add p.totalCycles (perform p.model p.due ⟨p.regs, s, 0⟩).2.cycles
      previousNmi := p.nmi
      lastOpcode := (perform p.model p.due ⟨p.regs, s, 0⟩).1 } = _
  rw [hopcode, hnext.regs, hnext.cycles]
  rfl

end Unless

variable {R : σ → τ → Prop} [Bus σ] [Bus τ] (hR : Bus.Simulation R)
include hR

/-- On buses that answer alike a step is the same. -/
theorem step_related (p : Processor) (o : Option UInt8) {s : σ} {t : τ} (h : R s t) :
    (p.step s).1 = ({ p with lastOpcode := o }.step t).1 ∧
      (p.step s).2.1 = ({ p with lastOpcode := o }.step t).2.1 ∧
      R (p.step s).2.2 ({ p with lastOpcode := o }.step t).2.2 :=
  (step_related_unless hR.unless p o h).resolve_left id

theorem reset_related (p : Processor) (o : Option UInt8) {s : σ} {t : τ} (h : R s t) :
    (p.reset s).1 = ({ p with lastOpcode := o }.reset t).1 ∧
      R (p.reset s).2 ({ p with lastOpcode := o }.reset t).2 := by
  have hstart : (⟨.powerUp, s, 0⟩ : Datapath σ).Related R ⟨.powerUp, t, 0⟩ := ⟨rfl, h, rfl⟩
  obtain ⟨-, hnext⟩ := ((Exec.Related.jumpThrough hR.unless Exec.resetVector).same hstart).resolve_left id
  refine ⟨?_, hnext.bus⟩
  exact congrArg (fun regs =>
      ({ model := p.model, regs, totalCycles := Count.add p.totalCycles resetCycles } : Processor))
    hnext.regs

end AppleII.Processor

/-! ## Invariants of a bus -/

namespace AppleII.Processor

variable {σ : Type} [Bus σ]

variable {P : σ → Prop} (hP : Bus.Keeps P)
include hP

/-- A property that every access keeps relates a bus to itself. -/
theorem Bus.Keeps.simulation : Bus.Simulation fun s t : σ => s = t ∧ P s where
  read := by
    rintro s t ⟨rfl, hs⟩ address
    exact ⟨rfl, rfl, hP.read hs address⟩
  write := by
    rintro s t ⟨rfl, hs⟩ address value
    exact ⟨rfl, hP.write hs address value⟩

/-- A step keeps what every access keeps. -/
theorem step_keeps (p : Processor) {s : σ} (h : P s) : P (p.step s).2.2 :=
  (step_related hP.simulation p p.lastOpcode ⟨rfl, h⟩).2.2.2

end AppleII.Processor

/-! ## Logged accesses -/

namespace AppleII.Processor

variable {σ : Type} [Bus σ]

/-- The accesses that a step makes, in their order. -/
def accesses (p : Processor) (s : σ) : List Access := (p.step (⟨s, #[]⟩ : Logged σ)).2.2.log.toList

theorem Logged.simulation : Bus.Simulation fun (l : Logged σ) (s : σ) => l.bus = s where
  read := by
    rintro l s rfl address
    exact ⟨rfl, rfl⟩
  write := by
    rintro l s rfl address value
    rfl

/-- The log plays no part in a step. -/
theorem step_logged (p : Processor) (s : σ) (log : Array Access) :
    (p.step (⟨s, log⟩ : Logged σ)).1 = (p.step s).1 ∧ (p.step (⟨s, log⟩ : Logged σ)).2.1 = (p.step s).2.1 ∧
      (p.step (⟨s, log⟩ : Logged σ)).2.2.bus = (p.step s).2.2 :=
  step_related Logged.simulation p p.lastOpcode rfl

theorem bus_step_logged (p : Processor) (s : σ) (log : Array Access) :
    (p.step (⟨s, log⟩ : Logged σ)).2.2.bus = (p.step s).2.2 :=
  (p.step_logged s log).2.2

end AppleII.Processor
