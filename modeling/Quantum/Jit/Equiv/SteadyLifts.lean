import Quantum.Jit.Equiv.Steady
import Quantum.Jit.Lifter

/-!
# The lifts of integer instructions keep the host frame

Every lift of an integer instruction is steady.  Three of them branch inside their own code
(`CMPXCHG`, the string loops and `CPUID`); their labels all stand at the annotation that the code
starts with.  Two push temporaries, `XADD` with memory and the indirect call: they are balanced, that
is, steady where nothing has been pushed before.
-/

namespace Quantum.Jit

open A64
open EmitM

-- the instances of a lift are as many as its words
set_option synthInstance.maxSize 10000

variable {A : Type} {D : Domain A} {lv : Nat → A} [hL : Lenient D lv]

namespace Steady

/-! ### Words -/

section Words

variable {rd rn : Reg}

instance [NotCtx rd] : Steady D lv (emitClz rd rn) :=
  .word (decode_clz ..) rfl rfl (NotCtx.some_ne rd)

instance [NotCtx rd] : Steady D lv (emitRbit rd rn) :=
  .word (decode_rbit ..) rfl rfl (NotCtx.some_ne rd)

instance [NotCtx rd] : Steady D lv (emitNeg rd) :=
  .word (decode_negs64 ..) rfl rfl (NotCtx.some_ne rd)

instance [NotCtx rd] : Steady D lv (emitNot rd) :=
  .word (decode_orn64 ..) rfl rfl (NotCtx.some_ne rd)

instance [NotCtx rd] (add : Bool) : Steady D lv (emitAddcWord add rd) := by
  cases add with
  | true => exact .word (decode_adcs64 ..) rfl rfl (NotCtx.some_ne rd)
  | false => exact .word (decode_sbcs64 ..) rfl rfl (NotCtx.some_ne rd)

instance [General rd] (inc : Bool) : Steady D lv (emitIncDec inc rd) := by
  unfold emitIncDec
  infer_instance

instance [General rd] (kind : ArithKind) (ra rb : Reg) (size : OpSize) :
    Steady D lv (emitArithRr kind rd ra rb size) := by
  cases kind <;> (unfold emitArithRr; infer_instance)

instance [General rd] (op : BitOp) (ra rb : Reg) (size : OpSize) :
    Steady D lv (emitBitopRr op rd ra rb size) := by
  cases op <;> (unfold emitBitopRr; infer_instance)

instance [General rd] (ra rb : Reg) (size : OpSize) : Steady D lv (emitXorRr rd ra rb size) := by
  unfold emitXorRr
  infer_instance

end Words

/-! ### Operands -/

section Operands

variable (inst : Inst)

instance (o : Option Operand) : Steady D lv (operand o) :=
  inferInstanceAs (Steady D lv (EmitM.okOr o _))

instance {α : Type} (op : Op) : Steady D lv (unsupported op : LiftM α) :=
  inferInstanceAs (Steady D lv (EmitM.fail _))

variable {inst}

omit hL in
/-- A lift that starts with its first operand. -/
theorem unary {f : Operand → LiftM Unit}
    (h : ∀ dst, inst.operand0 = some dst → Steady D lv (f dst)) :
    Steady D lv (operand inst.operand0 >>= f) :=
  bind_okOr h

omit hL in
/-- A lift that starts with its two operands. -/
theorem binary {f : Operand → Operand → LiftM Unit}
    (h : ∀ dst src, inst.operand0 = some dst → inst.operand1 = some src →
      Steady D lv (f dst src)) :
    Steady D lv (do
      let dst ← operand inst.operand0
      let src ← operand inst.operand1
      f dst src) :=
  bind_okOr fun dst hdst => bind_okOr fun src hsrc => h dst src hdst hsrc

variable (inst) (m : Operand)

instance (emit : Reg → LiftM Unit) [Steady D lv (emit 17)] : Steady D lv (regMemOp inst m emit) := by
  unfold regMemOp
  infer_instance

instance (emit : LiftM Unit) [Steady D lv emit] : Steady D lv (memRegOp inst m emit) := by
  unfold memRegOp
  infer_instance

instance (imm : BitVec 64) (emit : LiftM Unit) [Steady D lv emit] :
    Steady D lv (memImmOp inst m imm emit) := by
  unfold memImmOp
  infer_instance

instance : Steady D lv (operandIntoX17 inst m) := by
  unfold operandIntoX17
  split <;> infer_instance

end Operands

/-! ### Moves -/

section Integer

variable (inst : Inst)

instance (rd : GpReg) (size : OpSize) (imm : BitVec 64) : Steady D lv (movRegImm rd size imm) := by
  cases size <;> (unfold movRegImm; infer_instance)

instance (rd rs : GpReg) (size : OpSize) : Steady D lv (movRegReg rd size rs) := by
  cases size <;> (unfold movRegReg; infer_instance)

instance : Steady D lv (liftMov inst) := by
  refine binary fun dst src _ _ => ?_
  split <;> infer_instance

instance (signed : Bool) (rd : Reg) [NotCtx rd] (m : Operand) :
    Steady D lv (loadExtend inst signed rd m) := by
  refine .bind _ _ (h := fun leftover => ?_)
  split <;> infer_instance

instance (signed : Bool) : Steady D lv (liftMovzxOrMovsx inst signed) := by
  refine binary fun dst src _ _ => ?_
  split
  · split <;> infer_instance
  · infer_instance
  · infer_instance
  · infer_instance

instance : Steady D lv (liftMovsxd inst) := by
  refine binary fun dst src _ _ => ?_
  split <;> infer_instance

instance : Steady D lv (liftLea inst) := by
  refine binary fun dst src _ _ => ?_
  split
  · dsimp only
    split <;> infer_instance
  · infer_instance

/-! ### Add, subtract, compare and logic -/

instance (kind : ArithKind) (rd : GpReg) (size : OpSize) (imm : BitVec 64) :
    Steady D lv (arithRegImm inst kind rd size imm) := by
  cases kind <;> (unfold arithRegImm; infer_instance)

instance (kind : ArithKind) : Steady D lv (liftArith inst kind) := by
  refine binary fun dst src _ _ => ?_
  split <;> infer_instance

instance (m : Operand) (imm : BitVec 64) : Steady D lv (cmpMemImm inst m imm) := by
  unfold cmpMemImm
  infer_instance

instance (ra : GpReg) (imm : BitVec 64) : Steady D lv (cmpRegImm ra imm) := by
  unfold cmpRegImm
  infer_instance

instance (m : Operand) (rb : GpReg) (size : OpSize) : Steady D lv (cmpMemReg inst m rb size) := by
  unfold cmpMemReg
  infer_instance

instance (ra : GpReg) (size : OpSize) (m : Operand) : Steady D lv (cmpRegMem inst ra size m) := by
  unfold cmpRegMem
  infer_instance

instance : Steady D lv (liftCmp inst) := by
  refine binary fun a b _ _ => ?_
  split <;> infer_instance

instance (add : Bool) : Steady D lv (liftAddc inst add) := by
  refine binary fun dst src _ _ => ?_
  split
  · dsimp only
    split <;> infer_instance
  · infer_instance

instance (op : BitOp) : Steady D lv (liftBitop inst op) := by
  refine binary fun dst src _ _ => ?_
  split <;> infer_instance

instance : Steady D lv (liftXor inst) := by
  refine binary fun dst src _ _ => ?_
  split
  · -- the idiom that clears a register
    split
    · split <;> infer_instance
    · infer_instance
  all_goals infer_instance

instance (m : Operand) (rb : GpReg) (memFirst : Bool) :
    Steady D lv (testMemReg inst m rb memFirst) := by
  unfold testMemReg
  infer_instance

instance (m : Operand) (imm : BitVec 64) : Steady D lv (testMemImm inst m imm) := by
  unfold testMemImm
  infer_instance

instance : Steady D lv (liftTest inst) := by
  refine binary fun a b _ _ => ?_
  split <;> infer_instance

/-! ### One operand -/

theorem unaryOp {emit : Reg → LiftM Unit} (h : ∀ r [General r], Steady D lv (emit r)) (op : Op) :
    Steady D lv (Jit.unaryOp inst emit op) := by
  refine unary fun dst _ => ?_
  split <;> infer_instance

instance : Steady D lv (liftNeg inst) := unaryOp inst (fun _ _ => inferInstance) .neg
instance : Steady D lv (liftNot inst) := unaryOp inst (fun _ _ => inferInstance) .not

instance (inc : Bool) : Steady D lv (liftIncDec inst inc) :=
  unaryOp inst (fun _ _ => inferInstance) inst.op

/-! ### Multiply and divide -/

instance : Steady D lv (liftImulNOperand inst) := by
  refine binary fun dst a _ _ => ?_
  split
  · dsimp only
    split <;> (split <;> infer_instance)
  · infer_instance

section Divide

variable (signed : Bool) (divisor : Reg)

instance : Steady D lv (emitDiv64 signed divisor) := by
  unfold emitDiv64
  infer_instance

instance : Steady D lv (emitDiv32 signed divisor) := by
  unfold emitDiv32
  dsimp only
  infer_instance

instance : Steady D lv (emitMul64 signed divisor) := by
  unfold emitMul64
  infer_instance

instance : Steady D lv (emitMul32 signed divisor) := by
  unfold emitMul32
  dsimp only
  infer_instance

end Divide

instance (rm : Operand) : Steady D lv (divisorOf inst rm) := by
  unfold divisorOf
  split <;> infer_instance

instance (kind : DivMulKind) : Steady D lv (liftDivmul inst kind) := by
  refine unary fun rm _ => .bind _ _ (h := fun q => ?_)
  dsimp only
  split <;> infer_instance

instance (rn rd : Reg) [NotCtx rd] :
    Steady D lv (rawWord (regs2Word 0x9343FC00#32 rn rd) : LiftM Unit) :=
  .word (decode_asr3 ..) rfl rfl (NotCtx.some_ne rd)

instance : Steady D lv liftCdq :=
  inferInstanceAs (Steady D lv do
    emitSxtw (hostReg .rdx) (hostReg .rax)
    rawWord (regs2Word 0x9343FC00#32 (hostReg .rdx) (hostReg .rdx))
    emitAndImmLo32 (hostReg .rdx) (hostReg .rdx))

instance : Steady D lv liftCqo :=
  .word (decode_sbfmWord ..) rfl rfl (NotCtx.some_ne _)

/-! ### Shifts, rotates and bit scans -/

instance (size : OpSize) (amt : Operand) : Steady D lv (shiftAmount inst size amt) := by
  unfold shiftAmount
  split <;> infer_instance

instance (dir : ShiftDir) : Steady D lv (liftShift inst dir) := by
  refine binary fun dst amt _ _ => ?_
  split
  · refine .bind _ _ (h := fun amtReg => ?_)
    cases dir <;> infer_instance
  · infer_instance

instance (size : OpSize) (rol : Bool) (amt : Operand) :
    Steady D lv (rotateAmount inst size rol amt) := by
  unfold rotateAmount
  split <;> infer_instance

instance (rol : Bool) : Steady D lv (liftRotate inst rol) := by
  refine binary fun dst amt _ _ => ?_
  split <;> infer_instance

instance (reverse : Bool) : Steady D lv (liftBitscan inst reverse) := by
  refine binary fun dst src _ _ => ?_
  dsimp only
  split <;> infer_instance

instance : Steady D lv (liftBswap inst) := by
  refine unary fun dst _ => ?_
  split <;> infer_instance

instance (cond : Cond) : Steady D lv (liftCmov inst cond) := by
  refine binary fun dst src _ _ => ?_
  split <;> infer_instance

instance (cond : Cond) : Steady D lv (liftSet inst cond) := by
  refine unary fun dst _ => ?_
  split <;> infer_instance

/-! ### Exchanges -/

instance (rr : GpReg) (m : Operand) : Steady D lv (xchgMem inst rr m) := by
  unfold xchgMem
  infer_instance

instance : Steady D lv (liftXchg inst) := by
  refine binary fun a b _ _ => ?_
  split <;> infer_instance

/-! ### The guest stack -/

instance : Steady D lv (liftPush inst) := by
  refine unary fun src _ => .bind _ _ (h := fun _ => ?_)
  split <;> infer_instance

instance : Steady D lv (liftPop inst) := by
  refine unary fun dst _ => ?_
  split <;> infer_instance

instance : Steady D lv liftLeave := by
  unfold liftLeave
  infer_instance

instance (rd : Reg) [NotCtx rd] :
    Steady D lv (rawWord (0xD53BE040#32 ||| bitField 0 rd) : LiftM Unit) :=
  .word (decode_mrsCntvct ..) rfl rfl (NotCtx.some_ne rd)

instance : Steady D lv liftRdtsc := by
  unfold liftRdtsc
  infer_instance

/-! ### Code with labels of its own -/

section Labels

variable {p : Profile} {Γ : List (Label × A)} {d : Nat} {l : Label} {ε α : Type}

omit hL in
/-- A new label for the annotation of the code. -/
theorem withLabel {f : Label → EmitM ε α} {R : α → List (Label × A) → A → Prop}
    (h : ∀ l, Certifies D p ((l, lv d) :: Γ) (lv d) (f l) R) :
    Certifies D p Γ (lv d) (makeLabel >>= f) R :=
  .bind (.makeLabel (lv d) h)

omit hL in
/-- A conditional branch to such a label. -/
theorem thenBranch {c : A64.Cond} {m : EmitM ε α} {R : α → List (Label × A) → A → Prop}
    (hl : (l, lv d) ∈ Γ) (h : Certifies D p Γ (lv d) m R) :
    Certifies D p Γ (lv d) (bCond c l >>= fun _ => m) R :=
  .bind (.bCond hl (D.le_refl _) h)

omit hL in
/-- An unconditional one; the code behind it starts with the same annotation. -/
theorem thenJump {m : EmitM ε α} {R : α → List (Label × A) → A → Prop}
    (hl : (l, lv d) ∈ Γ) (h : Certifies D p Γ (lv d) m R) :
    Certifies D p Γ (lv d) (b l >>= fun _ => m) R :=
  .bind (.b hl (D.le_refl _) h)

omit hL in
/-- The place of such a label. -/
theorem thenBind {m : EmitM ε α} {R : α → List (Label × A) → A → Prop}
    (hl : (l, lv d) ∈ Γ) (h : Certifies D p Γ (lv d) m R) :
    Certifies D p Γ (lv d) (bindLabel l >>= fun _ => m) R :=
  .bind (.bindLabel hl (D.le_refl _) h)

omit hL in
theorem endLabel (hl : (l, lv d) ∈ Γ) :
    Certifies D p Γ (lv d) (bindLabel l : EmitM ε Unit) fun _ _ b => b = lv d :=
  .bindLabel hl (D.le_refl _) rfl

end Labels

instance (size : OpSize) (store : LiftM Unit) [Steady D lv store] :
    Steady D lv (cmpxchgTail size store) := by
  refine ⟨fun p Γ d => .frame ?_⟩
  refine before fun _ => withLabel fun notEq => thenBranch (by simp) (before fun _ => ?_)
  refine withLabel fun fin => thenJump (by simp) (thenBind (by simp) ?_)
  exact before fun _ => before fun _ => endLabel (by simp)

instance (m : Operand) (rs : GpReg) (size : OpSize) : Steady D lv (cmpxchgMem inst m rs size) := by
  unfold cmpxchgMem
  infer_instance

instance : Steady D lv (liftCmpxchg inst) := by
  refine binary fun dst src _ _ => ?_
  split
  · split <;> infer_instance
  · infer_instance

instance (size : BitVec 32) (isStos : Bool) : Steady D lv (emitRepElement size isStos) := by
  unfold emitRepElement
  split <;> infer_instance

instance (size : BitVec 32) (rep isStos : Bool) : Steady D lv (emitRepLoop size rep isStos) := by
  unfold emitRepLoop
  split
  · infer_instance
  · refine ⟨fun p Γ d => .frame ?_⟩
    refine withLabel fun loopTop => withLabel fun done => thenBind (by simp) ?_
    cases rep with
    | false =>
      simp only [Bool.false_eq_true, if_false]
      exact (certifies p _ d).mono fun _ _ _ h => h.2
    | true =>
      -- from here on the code is `rest`, also behind the step over a source
      have rest : Certifies D p ((done, lv d) :: (loopTop, lv d) :: Γ) (lv d)
          (do add64Imm 7 7 size; sub64Imm 1 1 1; b loopTop; bindLabel done : LiftM Unit)
          fun _ _ b => b = lv d :=
        before fun _ => before fun _ => thenJump (by simp) (endLabel (by simp))
      simp only [if_true]
      refine .bind (.cbz64 (x := lv d) (by simp) (D.le_refl _) (before fun _ => ?_))
      split
      · exact rest
      · exact before fun _ => rest

instance (isStos : Bool) : Steady D lv (liftString inst isStos) := by
  unfold liftString
  split <;> infer_instance

instance : Steady D lv (liftMovs inst) := inferInstanceAs (Steady D lv (liftString inst false))
instance : Steady D lv (liftStos inst) := inferInstanceAs (Steady D lv (liftString inst true))

instance : Steady D lv liftCpuid := by
  refine ⟨fun p Γ d => .frame ?_⟩
  refine withLabel fun leaf1 => withLabel fun zero => withLabel fun fin => ?_
  refine before fun _ => thenBranch (by simp) ?_
  refine before fun _ => before fun _ => before fun _ => before fun _ => ?_
  refine thenJump (by simp) (thenBind (by simp) (before fun _ => thenBranch (by simp) ?_))
  refine before fun _ => before fun _ => before fun _ => before fun _ => ?_
  refine thenJump (by simp) (thenBind (by simp) ?_)
  exact before fun _ => before fun _ => before fun _ => before fun _ => endLabel (by simp)

end Integer

end Steady

/-! ### Code that pushes temporaries -/

variable (D lv) in
/-- Code that keeps an empty host stack empty. -/
structure Balanced {ε α : Type} (m : EmitM ε α) : Prop where
  certifies : ∀ (p : Profile) (Γ : List (Label × A)),
    Certifies D p Γ (lv 0) m fun _ Γ' b => Γ' = Γ ∧ b = lv 0

section Balanced

variable {ε α β : Type} {p : Profile} {Γ : List (Label × A)} {d : Nat} {rt rt2 : Reg}

omit hL in
theorem Steady.balanced {m : EmitM ε α} (h : Steady D lv m) : Balanced D lv m :=
  ⟨fun p Γ => h.certifies p Γ 0⟩

/-- A push. -/
theorem Certifies.pushPair {R : Unit → List (Label × A) → A → Prop} (hd : d < 5)
    (h : R () Γ (lv (d + 1))) :
    Certifies D p Γ (lv d) (stp64Pre rt rt2 31 (-16) : EmitM ε Unit) R := by
  refine .bind (.debugAssert fun _ => .bind (.debugAssert fun _ => .push ?_ ?_ h))
  · rw [decode_stp64Pre]
    intro i hi
    cases hi
    rfl
  · rw [decode_stp64Pre]
    exact hL.push hd

/-- A pop. -/
theorem Certifies.popPair {R : Unit → List (Label × A) → A → Prop} [h₁ : NotCtx rt]
    [h₂ : NotCtx rt2] (h : R () Γ (lv d)) :
    Certifies D p Γ (lv (d + 1)) (ldp64Post rt rt2 31 16 : EmitM ε Unit) R := by
  refine .bind (.debugAssert fun _ => .bind (.debugAssert fun _ => .push ?_ ?_ h))
  · rw [decode_ldp64Post]
    intro i hi
    cases hi
    rfl
  · rw [decode_ldp64Post]
    exact hL.pop h₁.ne h₂.ne

instance : NotCtx 29 := ⟨by decide⟩
instance : NotCtx 30 := ⟨by decide⟩
instance : General 12 := .of_lt (by decide)
instance : General 13 := .of_lt (by decide)
instance : General 14 := .of_lt (by decide)
instance : General 15 := .of_lt (by decide)

theorem balanced_emitCall32 : Balanced D lv emitCall32 := by
  refine ⟨fun p Γ => ?_⟩
  refine Steady.before fun _ => Steady.before fun _ => Steady.before fun _ => Steady.before fun _ => ?_
  exact .bind (.pushPair (by decide) (Steady.before fun _ => .popPair ⟨rfl, rfl⟩))

theorem balanced_emitCall64 : Balanced D lv emitCall64 := by
  refine ⟨fun p Γ => ?_⟩
  refine .bind (.pushPair (by decide) (.bind (.pushPair (by decide) (.bind
    (.pushPair (by decide) (.bind (.pushPair (by decide) ?_)))))))
  refine Steady.before fun _ => Steady.before fun _ => Steady.before fun _ => Steady.before fun _ => ?_
  refine Steady.before fun _ => Steady.before fun _ => Steady.before fun _ => Steady.before fun _ => ?_
  refine .bind (.pushPair (by decide) (Steady.before fun _ => .bind (.popPair ?_)))
  exact .bind (.popPair (.bind (.popPair (.bind (.popPair (.popPair ⟨rfl, rfl⟩))))))

omit hL in
/-- Steady code before balanced code. -/
theorem Balanced.after {m : EmitM ε α} {f : α → EmitM ε β} [Steady D lv m]
    (h : ∀ v, Balanced D lv (f v)) : Balanced D lv (m >>= f) :=
  ⟨fun p Γ => Steady.before fun v => (h v).certifies p Γ⟩

theorem balanced_liftCallIndirect (legacy32 : Bool) (inst : Inst) :
    Balanced D lv (liftCallIndirect legacy32 inst) := by
  refine .after fun target => ?_
  split
  · exact .after fun _ => balanced_emitCall64
  · refine .after fun leftover => ?_
    split
    · exact .after fun _ => balanced_emitCall32
    · exact .after fun _ => balanced_emitCall64

theorem balanced_xaddMem (inst : Inst) (m : Operand) (rs : GpReg) (size : OpSize) :
    Balanced D lv (xaddMem inst m rs size) := by
  refine .after fun leftover => ⟨fun p Γ => .bind (.pushPair (by decide) ?_)⟩
  exact Steady.before fun _ => Steady.before fun _ => .bind (.popPair (Steady.certifies p Γ 0))

theorem balanced_liftXadd (inst : Inst) : Balanced D lv (liftXadd inst) := by
  refine .after fun dst => .after fun src => ?_
  split
  · split
    · exact Steady.balanced inferInstance
    · exact balanced_xaddMem ..
    · exact balanced_xaddMem ..
    · exact Steady.balanced inferInstance
  · exact Steady.balanced inferInstance

end Balanced

end Quantum.Jit
