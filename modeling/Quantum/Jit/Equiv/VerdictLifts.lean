import Quantum.Jit.Equiv.Verdict

/-!
# Where the lifts of integer instructions panic

The lift of an integer instruction panics exactly when it comes to a load or store through a guest address
that the profile checks and that does not fit (`PanicsAt`).  Each family of instructions has a table of the
operand that is accessed first, and of the bytes of the access; all later accesses of the same lift are the
same again.  `LEA` is the exception: its displacement goes to an `ADD` (`panics_liftLea_iff`).
-/

namespace Quantum.Jit

open A64 (Word Reg)
open EmitM

-- the instances of a lift are as many as its words
set_option synthInstance.maxSize 10000

variable {ε α : Type} {p : Profile}

/-- What a lift may panic at. -/
inductive Hazard where
  /-- A load or store of some bytes through the address of a memory operand. -/
  | access (m : Mem) (bytes : Nat)
  /-- The immediate of an `ADD`. -/
  | addImm (imm : BitVec 32)
  deriving Repr, DecidableEq

/-- An access is checked and does not fit, or an immediate has no encoding. -/
def Hazard.Strikes (p : Profile) : Hazard → Prop
  | .access m n => p.debugAssertions = true ∧ ¬ Fits n m.leftover
  | .addImm imm => imm12Encodable imm = false

@[simp]
theorem Hazard.strikes_access {m : Mem} {n : Nat} :
    (Hazard.access m n).Strikes p ↔ p.debugAssertions = true ∧ ¬ Fits n m.leftover :=
  Iff.rfl

@[simp]
theorem Hazard.strikes_addImm {imm : BitVec 32} :
    (Hazard.addImm imm).Strikes p ↔ imm12Encodable imm = false :=
  Iff.rfl

/-- What a table of the first two operands says. -/
def Inst.pair (inst : Inst) (table : Operand → Operand → Option Hazard) : Option Hazard :=
  inst.operand0.bind fun a => inst.operand1.bind (table a)

/-- The lift panics exactly when the hazard strikes. -/
structure PanicsAt (m : EmitM ε α) (hazard : Option Hazard) : Prop extends Uniform m where
  panics_iff : ∀ p, verdict p m = .error .panic ↔ ∃ h, hazard = some h ∧ h.Strikes p

namespace PanicsAt

theorem never {m : EmitM ε α} [h : Calm m] : PanicsAt m none where
  results := Uniform.results
  panics_iff p := iff_of_false (h.ne_panic p) fun ⟨_, heq, _⟩ => by cases heq

theorem one {m : EmitM ε α} {hazard : Hazard} [Uniform m]
    (h : ∀ p, verdict p m = .error .panic ↔ hazard.Strikes p) : PanicsAt m (some hazard) where
  results := Uniform.results
  panics_iff p := (h p).trans ⟨fun hs => ⟨hazard, rfl, hs⟩, fun ⟨_, heq, hs⟩ => Option.some.inj heq ▸ hs⟩

/-- The access of a memory operand. -/
theorem mem {x : EmitM ε α} {m : Mem} {n : Nat} [h : Tries x n (Operand.mem m).leftover] :
    PanicsAt x (some (.access m n)) :=
  one h.panics_iff

/-- Nothing is left of the displacement of a RIP-relative operand. -/
theorem ripRel {x : EmitM ε α} {n : Nat} [h : Tries x n 0] [h₀ : InReach n 0] :
    PanicsAt x none :=
  have := h.calm h₀.fits
  never

theorem unary {inst : Inst} {f : Operand → LiftM Unit} {table : Operand → Option Hazard}
    (h : ∀ a, PanicsAt (f a) (table a)) :
    PanicsAt (operand inst.operand0 >>= f) (inst.operand0.bind table) := by
  match inst.operand0 with
  | none => exact never (m := EmitM.fail _)
  | some a => exact h a

theorem binary {inst : Inst} {f : Operand → Operand → LiftM Unit}
    {table : Operand → Operand → Option Hazard} (h : ∀ a b, PanicsAt (f a b) (table a b)) :
    PanicsAt (do
      let a ← operand inst.operand0
      let b ← operand inst.operand1
      f a b) (inst.pair table) := by
  unfold Inst.pair
  match inst.operand0, inst.operand1 with
  | none, _ => exact never (m := EmitM.fail _)
  | some a, none => exact never (m := EmitM.fail _)
  | some a, some b => exact h a b

end PanicsAt

/-! ### Words -/

section Words

variable (rd rn : Reg)

instance : Passes (emitClz rd rn) := .push _
instance : Passes (emitRbit rd rn) := .push _
instance : Passes (emitNeg rd) := .push _
instance : Passes (emitNot rd) := .push _
instance (add : Bool) : Passes (emitAddcWord add rd) := .push _

instance (inc : Bool) : Passes (emitIncDec inc rd) := by
  unfold emitIncDec
  infer_instance

instance (kind : ArithKind) (ra rb : Reg) (size : OpSize) :
    Passes (emitArithRr kind rd ra rb size) := by
  cases kind <;> (unfold emitArithRr; infer_instance)

instance (op : BitOp) (ra rb : Reg) (size : OpSize) : Passes (emitBitopRr op rd ra rb size) := by
  cases op <;> (unfold emitBitopRr; infer_instance)

instance (ra rb : Reg) (size : OpSize) : Passes (emitXorRr rd ra rb size) := by
  unfold emitXorRr
  infer_instance

theorem encodable_of_smallImm {imm : BitVec 64} (h : smallImm imm = true) :
    Encodable (imm.setWidth 32) := by
  unfold smallImm at h
  exact ⟨(Bool.and_eq_true_iff.mp h).2⟩

end Words

/-! ### Operands -/

section Operands

instance (o : Option Operand) : Calm (operand o) :=
  inferInstanceAs (Calm (EmitM.okOr o _))

instance {α : Type} (op : Op) : Calm (unsupported op : LiftM α) :=
  inferInstanceAs (Calm (EmitM.fail _))

section Memory

variable (inst : Inst) (m : Operand)

instance (emit : Reg → LiftM Unit) [Passes (emit 17)] [HasAddress m] :
    Accesses (regMemOp inst m emit) m.memSize.bytes m.leftover () := by
  unfold regMemOp
  infer_instance

instance (emit : LiftM Unit) [Passes emit] [HasAddress m] :
    Accesses (memRegOp inst m emit) m.memSize.bytes m.leftover () := by
  unfold memRegOp
  infer_instance

instance (imm : BitVec 64) (emit : LiftM Unit) [Passes emit] [HasAddress m] :
    Accesses (memImmOp inst m imm emit) m.memSize.bytes m.leftover () := by
  unfold memImmOp
  infer_instance

instance [h : HasAddress m] :
    Accesses (operandIntoX17 inst m) m.memSize.bytes m.leftover () := by
  cases m with
  | mem m =>
    change Accesses (loadOperand (.mem m) inst m.size >>= fun _ => pure ()) _ _ _
    infer_instance
  | ripRel d s =>
    change Accesses (loadOperand (.ripRel d s) inst s >>= fun _ => pure ()) _ _ _
    infer_instance
  | reg | xmmReg | imm => cases h.isMem

instance (r : GpReg) (size : OpSize) : Passes (operandIntoX17 inst (.reg r size)) :=
  inferInstanceAs (Passes (mov64 17 (hostReg r)))

instance (v : BitVec 64) (size : OpSize) : Calm (operandIntoX17 inst (.imm v size)) :=
  inferInstanceAs (Calm (unsupported _))

instance (n : BitVec 8) (size : OpSize) : Calm (operandIntoX17 inst (.xmmReg n size)) :=
  inferInstanceAs (Calm (unsupported _))

end Memory

end Operands

/-! ### Tables of accesses -/

/-- `reg, [mem]`. -/
def toRegAccess : Operand → Operand → Option Hazard
  | .reg _ _, .mem m => some (.access m m.size.bytes)
  | _, _ => none

/-- `[mem], reg`. -/
def toMemAccess : Operand → Operand → Option Hazard
  | .mem m, .reg _ _ => some (.access m m.size.bytes)
  | _, _ => none

/-- `reg, [mem]` and `[mem], reg`. -/
def exchangeAccess : Operand → Operand → Option Hazard
  | .reg _ _, .mem m => some (.access m m.size.bytes)
  | .mem m, .reg _ _ => some (.access m m.size.bytes)
  | _, _ => none

/-- `reg, [mem]`, `[mem], reg` and `[mem], imm`. -/
def aluAccess : Operand → Operand → Option Hazard
  | .reg _ _, .mem m => some (.access m m.size.bytes)
  | .mem m, .reg _ _ => some (.access m m.size.bytes)
  | .mem m, .imm _ _ => some (.access m m.size.bytes)
  | _, _ => none

/-- The same, at the size of the register. -/
def moveAccess : Operand → Operand → Option Hazard
  | .reg _ size, .mem m => some (.access m size.bytes)
  | .mem m, .reg _ size => some (.access m size.bytes)
  | .mem m, .imm _ _ => some (.access m m.size.bytes)
  | _, _ => none

/-- `reg, [mem]` with a memory operand of one or two bytes. -/
def extendAccess : Operand → Operand → Option Hazard
  | .reg _ _, .mem m => if m.size = .b1 ∨ m.size = .b2 then some (.access m m.size.bytes) else none
  | _, _ => none

/-- `[mem]`. -/
def unaryAccess : Operand → Option Hazard
  | .mem m => some (.access m m.size.bytes)
  | _ => none

/-- The displacement that `LEA reg, [mem]` adds last. -/
def leaImm : Operand → Operand → Option Hazard
  | .reg _ _, .mem m => some (.addImm m.leftover)
  | _, _ => none

/-- The pointer of an indirect call. -/
def pointerAccess (legacy32 : Bool) : Operand → Option Hazard
  | .mem m => some (.access m (if legacy32 then 4 else 8))
  | _ => none

/-! ### Moves -/

section Integer

variable (inst : Inst)

instance (rd : GpReg) (size : OpSize) (imm : BitVec 64) : Passes (movRegImm rd size imm) := by
  cases size <;> (unfold movRegImm; infer_instance)

instance (rd rs : GpReg) (size : OpSize) : Passes (movRegReg rd size rs) := by
  cases size <;> (unfold movRegReg; infer_instance)

theorem panicsAt_liftMov :
    PanicsAt (liftMov inst) (inst.pair moveAccess) := by
  refine .binary fun a b => ?_
  cases a <;> cases b <;> first | exact .mem | exact .ripRel | exact .never

/-- The load of an extending move. -/
theorem panicsAt_loadExtend (signed : Bool) (hd : Reg) (m : Mem) :
    PanicsAt (loadExtend inst signed hd (.mem m))
      (if m.size = .b1 ∨ m.size = .b2 then some (.access m m.size.bytes) else none) := by
  unfold loadExtend
  dsimp only [Operand.memSize]
  cases m.size <;> cases signed <;> first | exact .mem | exact .never

theorem panicsAt_loadExtend_ripRel (signed : Bool) (hd : Reg) (d : BitVec 32) (s : OpSize) :
    PanicsAt (loadExtend inst signed hd (.ripRel d s)) none := by
  cases s <;> cases signed <;> (unfold loadExtend; dsimp only [Operand.memSize]; first | exact .ripRel | exact .never)

theorem panicsAt_liftMovzxOrMovsx (signed : Bool) : PanicsAt (liftMovzxOrMovsx inst signed)
    (inst.pair extendAccess) := by
  refine .binary fun a b => ?_
  cases a with
  | reg rd size =>
    cases b with
    | reg rs srcSize => cases srcSize <;> cases signed <;> exact .never
    | mem m => exact panicsAt_loadExtend inst signed _ m
    | ripRel d s => exact panicsAt_loadExtend_ripRel inst signed _ d s
    | imm | xmmReg => exact .never
  | mem | ripRel | imm | xmmReg => cases b <;> exact .never

instance : Calm (liftMovsxd inst) := by
  unfold liftMovsxd
  refine .bind _ _ (h := fun a => .bind _ _ (h := fun b => ?_))
  split <;> infer_instance

/-! ### Add, subtract, compare and logic -/

instance (kind : ArithKind) (rd : GpReg) (size : OpSize) (imm : BitVec 64) :
    Calm (arithRegImm inst kind rd size imm) := by
  unfold arithRegImm
  split
  · rename_i h
    have := encodable_of_smallImm (Bool.and_eq_true_iff.mp h).1
    cases kind <;> infer_instance
  · infer_instance

theorem panicsAt_liftArith (kind : ArithKind) : PanicsAt (liftArith inst kind)
    (inst.pair aluAccess) := by
  refine .binary fun a b => ?_
  cases a <;> cases b <;> first | exact .mem | exact .ripRel | exact .never

theorem panicsAt_liftBitop (op : BitOp) : PanicsAt (liftBitop inst op)
    (inst.pair aluAccess) := by
  refine .binary fun a b => ?_
  cases a <;> cases b <;> first | exact .mem | exact .ripRel | exact .never

theorem panicsAt_liftXor : PanicsAt (liftXor inst)
    (inst.pair aluAccess) := by
  refine .binary fun a b => ?_
  cases a with
  | reg rd size => cases size <;> cases b <;> first | exact .mem | exact .ripRel | exact .never
  | mem | ripRel | imm | xmmReg => cases b <;> first | exact .mem | exact .ripRel | exact .never

instance (m : Operand) (rb : GpReg) (memFirst : Bool) [HasAddress m] :
    Accesses (testMemReg inst m rb memFirst) m.memSize.bytes m.leftover () := by
  unfold testMemReg
  infer_instance

instance (m : Operand) (imm : BitVec 64) [HasAddress m] :
    Accesses (testMemImm inst m imm) m.memSize.bytes m.leftover () := by
  unfold testMemImm
  infer_instance

theorem panicsAt_liftTest : PanicsAt (liftTest inst)
    (inst.pair aluAccess) := by
  refine .binary fun a b => ?_
  cases a <;> cases b <;> first | exact .mem | exact .ripRel | exact .never

/-- A comparison with an immediate, in the instruction or in a register. -/
theorem passes_cmpImm (ra rc : Reg) (imm : BitVec 64) :
    Passes (if smallImm imm then cmp64Imm ra (imm.setWidth 32)
      else do
        loadConst64 rc imm
        cmp64 ra rc : LiftM Unit) := by
  split
  · rename_i h
    have := encodable_of_smallImm h
    infer_instance
  · infer_instance

instance (ra : GpReg) (imm : BitVec 64) : Passes (cmpRegImm ra imm) :=
  passes_cmpImm _ 17 imm

instance (m : Operand) (imm : BitVec 64) [HasAddress m] :
    Accesses (cmpMemImm inst m imm) m.memSize.bytes m.leftover () := by
  have := passes_cmpImm 17 16 imm
  unfold cmpMemImm
  infer_instance

instance (m : Operand) (rb : GpReg) (size : OpSize) [HasAddress m] :
    Accesses (cmpMemReg inst m rb size) size.bytes m.leftover () := by
  unfold cmpMemReg
  infer_instance

instance (m : Operand) (ra : GpReg) (size : OpSize) [HasAddress m] :
    Accesses (cmpRegMem inst ra size m) size.bytes m.leftover () := by
  unfold cmpRegMem
  infer_instance

theorem panicsAt_liftCmp : PanicsAt (liftCmp inst)
    (inst.pair moveAccess) := by
  refine .binary fun a b => ?_
  cases a with
  | reg ra size => cases size <;> cases b <;> first | exact .mem | exact .ripRel | exact .never
  | mem | ripRel | imm | xmmReg => cases b <;> first | exact .mem | exact .ripRel | exact .never

theorem panicsAt_liftAddc (add : Bool) : PanicsAt (liftAddc inst add)
    (inst.pair toRegAccess) := by
  refine .binary fun a b => ?_
  cases a <;> cases b <;> first | exact .mem | exact .ripRel | exact .never

/-! ### One operand -/

theorem panicsAt_unaryOp (emit : Reg → LiftM Unit) [∀ r, Passes (emit r)] (op : Op) :
    PanicsAt (unaryOp inst emit op) (inst.operand0.bind unaryAccess) := by
  refine .unary fun a => ?_
  cases a <;> first | exact .mem | exact .ripRel | exact .never

/-! ### Multiply and divide -/

theorem panicsAt_liftImulNOperand : PanicsAt (liftImulNOperand inst)
    (inst.pair toRegAccess) := by
  refine .binary fun a b => ?_
  -- the second factor is a constant, the register itself or refused
  cases inst.operand2 with
  | none => cases a <;> cases b <;> first | exact .mem | exact .ripRel | exact .never
  | some c =>
    cases c <;> cases a <;> cases b <;> first | exact .mem | exact .ripRel | exact .never

section Divide

variable (signed : Bool) (divisor : Reg)

instance : Passes (emitDiv64 signed divisor) := by
  unfold emitDiv64
  infer_instance

instance : Passes (emitDiv32 signed divisor) := by
  unfold emitDiv32
  dsimp only
  infer_instance

instance : Passes (emitMul64 signed divisor) := by
  unfold emitMul64
  infer_instance

instance : Passes (emitMul32 signed divisor) := by
  unfold emitMul32
  dsimp only
  infer_instance

end Divide

instance (m : Operand) [h : HasAddress m] : Tries (divisorOf inst m) m.memSize.bytes m.leftover := by
  cases m with
  | mem m =>
    change Tries (loadOperand (.mem m) inst m.size >>= fun _ => pure (m.size, (17 : Reg))) _ _
    infer_instance
  | ripRel d s =>
    change Tries (loadOperand (.ripRel d s) inst s >>= fun _ => pure (s, (17 : Reg))) _ _
    infer_instance
  | reg | xmmReg | imm => cases h.isMem

instance (r : GpReg) (size : OpSize) : Calm (divisorOf inst (.reg r size)) :=
  inferInstanceAs (Calm (pure (size, hostReg r)))

instance (v : BitVec 64) (size : OpSize) : Calm (divisorOf inst (.imm v size)) :=
  inferInstanceAs (Calm (unsupported _))

instance (n : BitVec 8) (size : OpSize) : Calm (divisorOf inst (.xmmReg n size)) :=
  inferInstanceAs (Calm (unsupported _))

theorem panicsAt_divisorOf (a : Operand) {f : OpSize × Reg → LiftM Unit} (hf : ∀ q, Calm (f q)) :
    PanicsAt (divisorOf inst a >>= f) (unaryAccess a) := by
  cases a <;> first | exact .mem | exact .ripRel | exact .never

theorem panicsAt_liftDivmul (kind : DivMulKind) :
    PanicsAt (liftDivmul inst kind) (inst.operand0.bind unaryAccess) := by
  refine .unary fun a => panicsAt_divisorOf inst a fun q => ?_
  dsimp only
  split <;> infer_instance

instance : Passes liftCdq := by
  unfold liftCdq
  infer_instance

instance : Passes liftCqo := .push _

/-! ### Shifts, rotates and bit scans -/

instance (size : OpSize) (amt : Operand) : Calm (shiftAmount inst size amt) := by
  unfold shiftAmount
  split <;> infer_instance

instance (dir : ShiftDir) : Calm (liftShift inst dir) := by
  refine .bind _ _ (h := fun dst => .bind _ _ (h := fun amt => ?_))
  split
  · refine .bind _ _ (h := fun amtReg => ?_)
    cases dir <;> infer_instance
  · infer_instance

instance (size : OpSize) (rol : Bool) (amt : Operand) : Calm (rotateAmount inst size rol amt) := by
  unfold rotateAmount
  split <;> infer_instance

instance (rol : Bool) : Calm (liftRotate inst rol) := by
  refine .bind _ _ (h := fun dst => .bind _ _ (h := fun amt => ?_))
  split <;> infer_instance

theorem panicsAt_liftBitscan (reverse : Bool) : PanicsAt (liftBitscan inst reverse)
    (inst.pair toRegAccess) := by
  refine .binary fun a b => ?_
  cases a <;> cases b <;> first | exact .mem | exact .ripRel | exact .never

instance : Calm (liftBswap inst) := by
  refine .bind _ _ (h := fun dst => ?_)
  split <;> infer_instance

/-! ### Conditional -/

instance (cond : Cond) : Calm (liftCmov inst cond) := by
  refine .bind _ _ (h := fun dst => .bind _ _ (h := fun src => ?_))
  split <;> infer_instance

instance (cond : Cond) : Calm (liftSet inst cond) := by
  refine .bind _ _ (h := fun dst => ?_)
  split <;> infer_instance

/-! ### Exchanges -/

instance (rr : GpReg) (m : Operand) [HasAddress m] :
    Accesses (xchgMem inst rr m) m.memSize.bytes m.leftover () := by
  unfold xchgMem
  infer_instance

theorem panicsAt_liftXchg : PanicsAt (liftXchg inst)
    (inst.pair exchangeAccess) := by
  refine .binary fun a b => ?_
  cases a <;> cases b <;> first | exact .mem | exact .ripRel | exact .never

instance (m : Operand) (rs : GpReg) (size : OpSize) [HasAddress m] :
    Accesses (xaddMem inst m rs size) m.memSize.bytes m.leftover () := by
  unfold xaddMem
  infer_instance

theorem panicsAt_liftXadd : PanicsAt (liftXadd inst)
    (inst.pair toMemAccess) := by
  refine .binary fun a b => ?_
  cases a <;> cases b <;> first | exact .mem | exact .ripRel | exact .never

/-! ### The guest stack and calls -/

instance : Calm (liftPush inst) := by
  refine .bind _ _ (h := fun src => .bind _ _ (h := fun _ => ?_))
  split <;> infer_instance

instance : Calm (liftPop inst) := by
  refine .bind _ _ (h := fun dst => ?_)
  split <;> infer_instance

instance : Passes liftLeave := by
  unfold liftLeave
  infer_instance

instance : InReach 4 4 := ⟨by decide⟩
instance : InReach 4 8 := ⟨by decide⟩
instance : InReach 4 12 := ⟨by decide⟩
instance : InReach 4 16 := ⟨by decide⟩
instance : InReach 8 0x20 := ⟨by decide⟩
instance : InReach 8 0x28 := ⟨by decide⟩
instance : InReach 8 0x30 := ⟨by decide⟩
instance : InReach 8 0x38 := ⟨by decide⟩

instance : Passes emitCall32 := by
  unfold emitCall32
  infer_instance

instance : Passes emitCall64 := by
  unfold emitCall64
  iterate 8 refine .bind _ _ (h := fun _ => ?_)
  infer_instance

theorem panicsAt_liftCallIndirect (legacy32 : Bool) : PanicsAt (liftCallIndirect legacy32 inst)
    (inst.operand0.bind (pointerAccess legacy32)) := by
  refine .unary fun a => ?_
  cases legacy32 with
  | false =>
    simp only [Bool.false_eq_true, if_false]
    cases a <;> first | exact .mem | exact .ripRel | exact .never
  | true =>
    simp only [if_true]
    cases a <;> first | exact .mem | exact .ripRel | exact .never

/-! ### `LEA` -/

section Lea

variable (rd : GpReg) (size : OpSize)

instance (leftover : BitVec 32) : Uniform (leaFinish rd size leftover) := by
  unfold leaFinish
  infer_instance

theorem verdict_leaFinish (leftover : BitVec 32) :
    verdict p (leaFinish rd size leftover) = if imm12Encodable leftover then .ok () else .error .panic := by
  unfold leaFinish
  by_cases hzero : leftover = 0
  · subst hzero
    rw [if_neg fun h => h rfl, if_pos (by decide)]
    exact Passes.verdict_eq p _
  · rw [if_pos hzero]
    have hadd := verdict_addsub64Imm (ε := LifterError) (p := p) (hostReg rd) (hostReg rd) 0 0 leftover
    split_ifs with h
    · rw [if_pos h] at hadd
      exact (verdict_bind_ok hadd).trans (Passes.verdict_eq p _)
    · rw [if_neg h] at hadd
      exact verdict_bind_error hadd

end Lea

/-- `LEA` panics when what is left of the displacement is no immediate of an `ADD`. -/
theorem panicsAt_liftLea : PanicsAt (liftLea inst) (inst.pair leaImm) := by
  have hcalm : ∀ rd size, Calm (leaFinish rd size 0) := fun rd size =>
    ⟨fun p => by rw [verdict_leaFinish, if_pos (by decide)]; simp⟩
  refine .binary fun a b => ?_
  cases a with
  | reg rd size =>
    cases b with
    | mem m =>
      refine .one fun p => ?_
      have haddr := verdict_memAddressInto (p := p) (hostReg rd) m
      have hv := (verdict_bind_ok (f := leaFinish rd size) haddr).trans (verdict_leaFinish rd size m.leftover)
      refine (Eq.congr_left hv).trans ?_
      simp
    | ripRel disp size' =>
      have hbody : Calm (loadConst64 (hostReg rd) (ripRelTarget inst disp) >>= fun _ => leaFinish rd size 0) :=
        inferInstance
      exact .never (h := hbody)
    | reg | imm | xmmReg => exact .never (h := .fail_bind _ _)
  | mem | ripRel | imm | xmmReg => cases b <;> exact .never

instance : Passes liftRdtsc := by
  unfold liftRdtsc
  infer_instance

end Integer

end Quantum.Jit
