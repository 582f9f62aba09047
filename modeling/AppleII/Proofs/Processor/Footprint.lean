import AppleII.Proofs.Processor.Datasheet
import AppleII.Proofs.Processor.Execution

/-!
# What a step writes

In plain memory a step changes the operand of an instruction that writes one, and the stack cells that it pushes, and
no other byte (`get_step_of_notMem_footprint`).  Where the operand lies is calculated with numbers: what is added in
page 0 wraps at its end, and the stack wraps inside page 1.
-/

namespace AppleII.Processor

open Exec (stackCell)

namespace FlatMemory

/-- The byte at a number, which wraps after `$FFFF`. -/
def byteAt (mem : FlatMemory) (n : Nat) : Nat := (mem.get (UInt16.ofNat n)).toNat

/-- The word whose bytes lie in page 0 from a number on, which wraps inside the page. -/
def pointerAt (mem : FlatMemory) (n : Nat) : Nat :=
  mem.byteAt (n % 0x100) + 0x100 * mem.byteAt ((n + 1) % 0x100)

end FlatMemory

/-- The address of an operand whose bytes start at `operand`.  Sums in page 0 wrap after `$FF`, all others after
`$FFFF`. -/
def effectiveAddress (r : Registers) (mem : FlatMemory) (operand : Nat) (mode : Mode) : Nat :=
  let low := mem.byteAt operand
  let full := low + 0x100 * mem.byteAt (operand + 1)
  match mode with
  | .immediate => operand % 0x10000
  | .zeroPage => low
  | .zeroPageX => (low + r.x.toNat) % 0x100
  | .zeroPageY => (low + r.y.toNat) % 0x100
  | .absolute => full
  | .absoluteX => (full + r.x.toNat) % 0x10000
  | .absoluteY => (full + r.y.toNat) % 0x10000
  | .indirectX => mem.pointerAt (low + r.x.toNat)
  | .indirectY => (mem.pointerAt low + r.y.toNat) % 0x10000
  | .zeroPageIndirect => mem.pointerAt low

/-- The addresses of so many stack cells, from the stack pointer down; page 1 wraps. -/
def stackCells (sp : UInt8) : Nat → List Nat
  | 0 => []
  | n + 1 => (0x100 + sp.toNat) :: stackCells (sp - 1) n

/-- The addresses that an instruction writes, given what it writes and where its operand bytes start. -/
def Written.addresses (r : Registers) (mem : FlatMemory) (operand : Nat) : Option Written → List Nat
  | none => []
  | some (.operand mode) => [effectiveAddress r mem operand mode]
  | some (.stack n) => stackCells r.sp n

/-- The addresses that a step may write: three cells of the stack for an interrupt, and for an instruction what is
documented of its opcode. -/
def footprint (p : Processor) (mem : FlatMemory) : List Nat :=
  match p.due with
  | .nonMaskable | .request => stackCells p.regs.sp 3
  | .instruction =>
    Written.addresses p.regs mem (p.regs.pc.toNat + 1) (Datasheet.written? p.model (mem.get p.regs.pc))

/-! ## The operand -/

theorem FlatMemory.toNat_get (mem : FlatMemory) (address : UInt16) :
    (mem.get address).toNat = mem.byteAt address.toNat := by
  rw [byteAt, UInt16.ofNat_toNat]

theorem FlatMemory.byteAt_mod (mem : FlatMemory) (n : Nat) : mem.byteAt (n % 0x10000) = mem.byteAt n := by
  have hmod : UInt16.ofNat (n % 0x10000) = UInt16.ofNat n := UInt16.ofNat_mod_size
  rw [byteAt, hmod, byteAt]

theorem FlatMemory.toNat_pointer (mem : FlatMemory) (p : UInt8) :
    (word (mem.get p.toUInt16) (mem.get (p + 1).toUInt16)).toNat = mem.pointerAt p.toNat := by
  have hp : p.toNat % 0x100 = p.toNat := Nat.mod_eq_of_lt p.toNat_lt
  rw [toNat_word, FlatMemory.toNat_get, FlatMemory.toNat_get, UInt8.toNat_toUInt16, UInt8.toNat_toUInt16,
    UInt8.toNat_add, pointerAt, hp]
  rfl

theorem FlatMemory.pointerAt_mod (mem : FlatMemory) (n : Nat) : mem.pointerAt (n % 0x100) = mem.pointerAt n := by
  rw [pointerAt, pointerAt, Nat.mod_mod, Nat.mod_add_mod]

/-- The operand bytes behind an opcode at `$FFFF` are at the start of page 0. -/
theorem effectiveAddress_mod (r : Registers) (mem : FlatMemory) (operand : Nat) (mode : Mode) :
    effectiveAddress r mem (operand % 0x10000) mode = effectiveAddress r mem operand mode := by
  have hnext : mem.byteAt (operand % 0x10000 + 1) = mem.byteAt (operand + 1) := by
    rw [← mem.byteAt_mod, Nat.mod_add_mod, mem.byteAt_mod]
  unfold effectiveAddress
  rw [mem.byteAt_mod, hnext, Nat.mod_mod]

theorem toNat_address (r : Registers) (mem : FlatMemory) (operand : UInt16) (mode : Mode) :
    (mode.address r mem operand).1.toNat = effectiveAddress r mem operand.toNat mode := by
  have hlow : (mem.get operand).toNat = mem.byteAt operand.toNat := mem.toNat_get operand
  have hfull : (word (mem.get operand) (mem.get (operand + 1))).toNat =
      mem.byteAt operand.toNat + 0x100 * mem.byteAt (operand.toNat + 1) := by
    rw [toNat_word, hlow, FlatMemory.toNat_get, UInt16.toNat_add]
    exact congrArg (_ + 0x100 * ·) (mem.byteAt_mod _)
  cases mode with
  | immediate => exact (Nat.mod_eq_of_lt operand.toNat_lt).symm
  | zeroPage | zeroPageX | zeroPageY | absolute | absoluteX | absoluteY =>
    simp [Mode.address, effectiveAddress, hlow, hfull]
  | indirectX =>
    have hpointer := mem.toNat_pointer (mem.get operand + r.x)
    rw [UInt8.toNat_add, hlow] at hpointer
    exact hpointer.trans (mem.pointerAt_mod _)
  | zeroPageIndirect =>
    have hpointer := mem.toNat_pointer (mem.get operand)
    rw [hlow] at hpointer
    exact hpointer
  | indirectY =>
    have hpointer := mem.toNat_pointer (mem.get operand)
    rw [hlow] at hpointer
    show (_ + r.y.toUInt16).toNat = _
    rw [UInt16.toNat_add]
    exact congrArg (fun n => (n + r.y.toNat) % 0x10000) hpointer

theorem address_bus (r : Registers) (mem : FlatMemory) (operand : UInt16) (mode : Mode) :
    (mode.address r mem operand).2 = mem := by
  cases mode <;> rfl

theorem addresses_operand (r : Registers) (mem : FlatMemory) (w : Option Written) :
    Written.addresses { r with pc := r.pc + 1 } mem (r.pc + 1).toNat w =
      Written.addresses r mem (r.pc.toNat + 1) w := by
  rcases w with _ | mode | n
  · rfl
  · exact congrArg ([·]) (effectiveAddress_mod r mem (r.pc.toNat + 1) mode)
  · rfl

/-! ## Instructions -/

theorem FlatMemory.get_set_of_toNat_ne (mem : FlatMemory) {a b : UInt16} (v : UInt8) (h : a.toNat ≠ b.toNat) :
    (mem.set b v).get a = mem.get a :=
  mem.get_set_of_ne v fun hb => h (congrArg UInt16.toNat hb).symm

namespace Exec

variable (d : Datapath FlatMemory) {a : UInt16}

theorem operandAddress_bus (mode : Mode) (writes : Bool) : (operandAddress mode writes d).2.bus = d.bus := by
  rw [(operandAddress_address mode writes d).2, address_bus]

theorem toNat_operandAddress (mode : Mode) (writes : Bool) :
    (operandAddress mode writes d).1.toNat = effectiveAddress d.regs d.bus d.regs.pc.toNat mode := by
  rw [(operandAddress_address mode writes d).1, toNat_address]

/-- A push changes the first of the cells that are left to push to. -/
theorem get_pushByte {n : Nat} (v : UInt8) (h : a.toNat ∉ stackCells d.regs.sp (n + 1)) :
    (pushByte v d).2.bus.get a = d.bus.get a ∧ a.toNat ∉ stackCells (pushByte v d).2.regs.sp n := by
  obtain ⟨hfirst, hothers⟩ := not_or.mp fun hor => h (List.mem_cons.mpr hor)
  refine ⟨d.bus.get_set_of_toNat_ne v ?_, hothers⟩
  rw [toNat_stackCell]
  exact hfirst

theorem get_pushWord {n : Nat} (v : UInt16) (h : a.toNat ∉ stackCells d.regs.sp (n + 2)) :
    (pushWord v d).2.bus.get a = d.bus.get a ∧ a.toNat ∉ stackCells (pushWord v d).2.regs.sp n := by
  have hhigh := get_pushByte d (v >>> 8).toUInt8 h
  have hlow := get_pushByte (pushByte (v >>> 8).toUInt8 d).2 v.toUInt8 hhigh.2
  exact ⟨hlow.1.trans hhigh.1, hlow.2⟩

theorem skipBytes_bus (n : Nat) : (skipBytes n d).2.bus = d.bus := by
  induction n generalizing d with
  | zero => rfl
  | succ n ih => exact ih _

theorem takeBranch_ite_bus (c : Bool) (offset : UInt8) :
    ((if c then takeBranch offset else pure () : Exec FlatMemory Unit) d).2.bus = d.bus := by
  cases c <;> rfl

/-- An instruction writes where it is documented to, and nowhere else. -/
theorem get_execute (m : Model) (i : Instruction)
    (h : a.toNat ∉ Written.addresses d.regs d.bus d.regs.pc.toNat i.written?) :
    (execute m i d).2.bus.get a = d.bus.get a := by
  cases i with
  | read op mode => exact congrArg (FlatMemory.get · a) (operandAddress_bus d mode false)
  | write s mode | modify op mode =>
    have haddress : a.toNat ≠ (operandAddress mode true d).1.toNat := by
      rw [toNat_operandAddress]
      exact List.ne_of_not_mem_cons h
    simp [execute, FlatMemory.get_set_of_toNat_ne _ _ haddress, operandAddress_bus]
  | push g => exact (get_pushByte d (d.regs.get g) h).1
  | pushStatus => exact (get_pushByte d d.regs.status.pushedByProgram h).1
  | call =>
    have hcells : a.toNat ∉ stackCells (fetchWord d).2.regs.sp (0 + 2) := h
    have hword := (get_pushWord (fetchWord d).2 ((fetchWord d).2.regs.pc - 1) hcells).1
    simp only [fetchWord_apply, FlatMemory.readWord_eq] at hword
    simp only [execute, bind_apply, fetchWord_apply, regs_apply, jumpTo_apply, wait_apply, FlatMemory.readWord_eq]
    exact hword
  | «break» =>
    have hword := get_pushWord d (d.regs.pc + 1) h
    have hstatus := get_pushByte (pushWord (d.regs.pc + 1) d).2 d.regs.status.pushedByProgram hword.2
    exact hstatus.1.trans hword.1
  | skip operands extra => exact congrArg (FlatMemory.get · a) (skipBytes_bus d operands)
  | branch c => exact congrArg (FlatMemory.get · a) (takeBranch_ite_bus _ _ _)
  | branchBit n b => exact congrArg (FlatMemory.get · a) (takeBranch_ite_bus _ _ _)
  | jumpIndirect => cases m <;> rfl
  | modifyAccumulator | register | pull | pullStatus | jump | jumpIndexedIndirect | ret | returnFromInterrupt => rfl

theorem get_serviceInterrupt (m : Model) (vector : UInt16) (h : a.toNat ∉ stackCells d.regs.sp 3) :
    (serviceInterrupt m vector d).2.bus.get a = d.bus.get a := by
  have hword := get_pushWord d d.regs.pc h
  have hstatus := get_pushByte (pushWord d.regs.pc d).2 d.regs.status.pushedByInterrupt hword.2
  exact hstatus.1.trans hword.1

end Exec

/-- **A step writes only where it should.** -/
theorem get_step_of_notMem_footprint (p : Processor) (mem : FlatMemory) (a : UInt16)
    (h : a.toNat ∉ footprint p mem) : (p.step mem).2.2.get a = mem.get a := by
  unfold footprint at h
  cases hdue : p.due with
  | nonMaskable =>
    rw [hdue] at h
    unfold step
    rw [hdue]
    exact Exec.get_serviceInterrupt ⟨p.regs, mem, 0⟩ p.model Exec.nonMaskableVector h
  | request =>
    rw [hdue] at h
    unfold step
    rw [hdue]
    exact Exec.get_serviceInterrupt ⟨p.regs, mem, 0⟩ p.model Exec.interruptVector h
  | instruction =>
    have hdecoded := Instruction.documented_decode p.model (mem.get p.regs.pc)
    simp only [hdue] at h
    rw [hdecoded.written?, ← addresses_operand] at h
    rw [p.step_instruction mem hdue]
    exact Exec.get_execute ⟨{ p.regs with pc := p.regs.pc + 1 }, mem, 1⟩ p.model _ h

/-- `STA $F0,X` with `$20` in the index stores to `$10`; the byte at `$0110` stays. -/
theorem get_step_store_wraps :
    let mem : FlatMemory := ((FlatMemory.zeros.set 0x0300 0x95).set 0x0301 0xF0).set 0x0110 7
    let p : Processor := { model := .nmos, regs := { Registers.powerUp with a := 1, x := 0x20, pc := 0x0300 } }
    footprint p mem = [0x10] ∧ (p.step mem).2.2.get 0x0110 = 7 := by
  intro mem p
  have hopcode : mem.get p.regs.pc = 0x95 := by simp [mem, p, FlatMemory.get_set_of_ne]
  have hoperand : mem.byteAt (p.regs.pc.toNat + 1) = 0xF0 := by
    simp [FlatMemory.byteAt, mem, p, FlatMemory.get_set_of_ne]
  have hfootprint : footprint p mem = [0x10] := by
    have hdue : p.due = .instruction := rfl
    have hwritten : Datasheet.written? p.model 0x95 = some (.operand .zeroPageX) := rfl
    simp only [footprint, hdue, hopcode, hwritten, Written.addresses, effectiveAddress, hoperand]
    decide
  refine ⟨hfootprint, ?_⟩
  rw [get_step_of_notMem_footprint p mem 0x0110 (by rw [hfootprint]; decide)]
  exact FlatMemory.get_set_self _ _ _

end AppleII.Processor
