import Quantum.Jit.Decoder
import Quantum.Jit.Equiv.Alu
import Quantum.Jit.Equiv.SizedOperand
import Quantum.Jit.Equiv.WideArith

/-!
# Wide multiply and divide

One-operand `MUL`, `IMUL`, `DIV` and `IDIV`.  The operand is a host register or `X17`, the results go to
`X0` and `X2`, and `X16` and `X17` are scratch.

`wide_correct_iff`: the lifted code is right, in every state with a covered dividend and no divide error, if
and only if a 64-bit operand is not `RAX`, a signed 32-bit divisor is `EDX`, and a memory operand is not a
32-bit divisor and has an offset that a load can encode (`WideOk`).
-/

namespace Quantum.Jit

open A64
open EmitM

variable {p : Profile}

/-! ### The blocks -/

/-- The code leaves a pair in `X0` and `X2`, as `F` computes it from `X2`, `X0` and `dv`, and changes no
other register but `X16` and `X17`. -/
def PairCode (F : BitVec 64 → BitVec 64 → BitVec 64 → BitVec 64 × BitVec 64) (dv : Reg)
    (is : List (Option Insn)) : Prop :=
  ∀ env pc s, ∃ s', runSeq env pc is s = some s' ∧
    s'.x 0#5 = (F (s.x 2#5) (s.x 0#5) (s.x dv)).1 ∧ s'.x 2#5 = (F (s.x 2#5) (s.x 0#5) (s.x dv)).2 ∧
    (∀ r, r ≠ 0#5 → r ≠ 2#5 → r ≠ 16#5 → r ≠ 17#5 → s'.x r = s.x r) ∧ s'.v = s.v

theorem execDp3_madd (a b c : BitVec 64) : execDp3 .madd a b c = c + a * b := rfl

theorem emits_emitUbfm64 {rd rn : Reg} {immr imms : BitVec 6} {Q : Unit → List (Option Insn) → Prop}
    (h : Q () [some (.ubfm immr imms rn rd)]) : Emits p (emitUbfm64 rd rn immr imms) Q :=
  Emits.push (by rw [decode_ubfmWord]; exact h)

theorem emits_emitSxtw {rd rn : Reg} {Q : Unit → List (Option Insn) → Prop}
    (h : Q () [some (.sbfm 0 31 rn rd)]) : Emits p (emitSxtw rd rn) Q :=
  Emits.push (by rw [decode_sxtw]; exact h)

theorem emits_emitOrrLsl64 {rd rn rm : Reg} {k : BitVec 6} {Q : Unit → List (Option Insn) → Prop}
    (h : Q () [some (.logicShift .orr rm k rn rd)]) : Emits p (emitOrrLsl64 rd rn rm k) Q :=
  Emits.push (by rw [decode_orrLsl64]; exact h)

section Blocks

variable {dv : Reg} (h16 : dv ≠ 16#5) (h31 : dv ≠ 31#5)

include h16 h31

theorem emits_emitMul64 (signed : Bool) :
    Emits p (emitMul64 signed dv) fun _ is => PairCode (fun _ => mul64Pair signed dv) dv is := by
  unfold emitMul64
  refine Emits.bind (emits_mov64 (Emits.bind (emits_mul64 ?_)))
  have hrun : ∀ op : Dp3Op, (∀ a b c, execDp3 op a b c = mulHigh signed a b) →
      PairCode (fun _ => mul64Pair signed dv) dv
        [some (.logicShift .orr 0 0 31 16), some (.dp3 .madd dv 31 16 0), some (.dp3 op dv 31 16 2)] := by
    intro op hop env pc s
    refine ⟨_, rfl, ?_, ?_, ?_, ?_⟩
    · simp [execDp3_madd, execLogic, State.readX, h16, h31, mul64Pair]
    · simp [execDp3_madd, hop, execLogic, State.readX, h16, h31, mul64Pair]
    · intro r h0 h2 h16 h17
      simp [h0, h2, h16]
    · simp
  cases signed with
  | true => exact emits_smulh64 (hrun .smulh fun _ _ _ => rfl)
  | false => exact emits_umulh64 (hrun .umulh fun _ _ _ => rfl)

theorem emits_emitDiv64 (signed : Bool) :
    Emits p (emitDiv64 signed dv) fun _ is => PairCode (fun _ => div64Pair signed dv) dv is := by
  unfold emitDiv64
  refine Emits.bind (emits_mov64 ?_)
  have hrun : ∀ op : Dp2Op, (∀ a b, execDp2 op a b = quotient signed a b) →
      PairCode (fun _ => div64Pair signed dv) dv
        [some (.logicShift .orr 0 0 31 16), some (.dp2 op dv 16 0), some (.dp3 .msub dv 16 0 2)] := by
    intro op hop env pc s
    refine ⟨_, rfl, ?_, ?_, ?_, ?_⟩
    · simp [hop, execLogic, State.readX, h16, h31, div64Pair]
    · simp [execDp3, hop, execLogic, State.readX, h16, h31, div64Pair]
    · intro r h0 h2 h16 h17
      simp [h0, h2, h16]
    · simp
  cases signed with
  | true => exact Emits.bind (emits_sdiv64 (emits_msub64 (hrun .sdiv fun _ _ => rfl)))
  | false => exact Emits.bind (emits_udiv64 (emits_msub64 (hrun .udiv fun _ _ => rfl)))

/-- Extend both factors, multiply, and split the product. -/
theorem emits_emitMul32 (signed : Bool) :
    Emits p (emitMul32 signed dv) fun _ is => PairCode (fun _ => mul32Pair signed) dv is := by
  unfold emitMul32
  cases signed with
  | true =>
    refine Emits.bind (emits_emitSxtw (Emits.bind (emits_emitSxtw (Emits.bind (emits_mul64
      (Emits.bind (emits_emitUbfm64 (emits_emitUbfm64 ?_))))))))
    intro env pc s
    refine ⟨_, rfl, ?_, ?_, ?_, ?_⟩
    · simp [execDp3_madd, State.readX, h16, h31, ubfm_zx32, ubfm_high, sbfm_sx32, mul32Pair]
    · simp [execDp3_madd, State.readX, h16, h31, ubfm_high, sbfm_sx32, mul32Pair]
    · intro r h0 h2 h16 h17
      simp [h0, h2, h16, h17]
    · simp
  | false =>
    refine Emits.bind (emits_emitUbfm64 (Emits.bind (emits_emitUbfm64 (Emits.bind (emits_mul64
      (Emits.bind (emits_emitUbfm64 (emits_emitUbfm64 ?_))))))))
    intro env pc s
    refine ⟨_, rfl, ?_, ?_, ?_, ?_⟩
    · simp [execDp3_madd, State.readX, h16, h31, ubfm_zx32, ubfm_high, mul32Pair]
    · simp [execDp3_madd, State.readX, h16, h31, ubfm_zx32, ubfm_high, mul32Pair]
    · intro r h0 h2 h16 h17
      simp [h0, h2, h16, h17]
    · simp

/-- Join the halves of the dividend, divide, and mask quotient and remainder. -/
theorem emits_emitDiv32 (signed : Bool) :
    Emits p (emitDiv32 signed dv) fun _ is => PairCode (div32Pair signed dv) dv is := by
  unfold emitDiv32
  refine Emits.bind (emits_emitUbfm64 (Emits.bind (emits_emitUbfm64 (Emits.bind (emits_emitOrrLsl64
    (Emits.bind (emits_emitUbfm64 ?_)))))))
  cases signed with
  | true =>
    refine Emits.bind (emits_emitSxtw (Emits.bind (emits_emitOrrLsl64 (Emits.bind (emits_emitSxtw
      (Emits.bind (emits_sdiv64 (Emits.bind (emits_msub64 (Emits.bind (emits_emitUbfm64
        (emits_emitUbfm64 ?_))))))))))))
    intro env pc s
    refine ⟨_, rfl, ?_, ?_, ?_, ?_⟩
    · by_cases h17 : dv = 17#5
      · simp [execDp2, execLogic, State.readX, ubfm_zx32, sbfm_sx32, div32Pair, quotient, divisor32, h17]
      · simp [execDp2, execLogic, State.readX, h16, h31, ubfm_zx32, sbfm_sx32, div32Pair, quotient,
          divisor32, h17]
    · by_cases h17 : dv = 17#5
      · simp [execDp3, execDp2, execLogic, State.readX, ubfm_zx32, sbfm_sx32, div32Pair, quotient,
          divisor32, h17]
      · simp [execDp3, execDp2, execLogic, State.readX, h16, h31, ubfm_zx32, sbfm_sx32, div32Pair,
          quotient, divisor32, h17]
    · intro r h0 h2 h16 h17
      simp [h0, h2, h16, h17]
    · simp
  | false =>
    refine Emits.bind (emits_udiv64 (Emits.bind (emits_msub64 (Emits.bind (emits_emitUbfm64
      (emits_emitUbfm64 ?_))))))
    intro env pc s
    refine ⟨_, rfl, ?_, ?_, ?_, ?_⟩
    · by_cases h17 : dv = 17#5
      · simp [execDp2, execLogic, State.readX, ubfm_zx32, div32Pair, quotient, divisor32, h17]
      · simp [execDp2, execLogic, State.readX, h16, h31, ubfm_zx32, div32Pair, quotient, divisor32, h17]
    · by_cases h17 : dv = 17#5
      · simp [execDp3, execDp2, execLogic, State.readX, ubfm_zx32, div32Pair, quotient, divisor32, h17]
      · simp [execDp3, execDp2, execLogic, State.readX, h16, h31, ubfm_zx32, div32Pair, quotient,
          divisor32, h17]
    · intro r h0 h2 h16 h17
      simp [h0, h2, h16, h17]
    · simp

end Blocks

/-! ### The lift -/

/-- The code after the operand is in `dv`. -/
def wideBlock (inst : Inst) (kind : DivMulKind) (size : OpSize) (dv : Reg) : LiftM Unit :=
  match kind, size with
  | .div, .b8 => emitDiv64 false dv
  | .idiv, .b8 => emitDiv64 true dv
  | .div, .b4 => emitDiv32 false dv
  | .idiv, .b4 => emitDiv32 true dv
  | .mul, .b8 => emitMul64 false dv
  | .imul1, .b8 => emitMul64 true dv
  | .mul, .b4 => emitMul32 false dv
  | .imul1, .b4 => emitMul32 true dv
  | _, _ => unsupported inst.op

theorem liftDivmul_reg {inst : Inst} {r : GpReg} {size : OpSize} (kind : DivMulKind)
    (h0 : inst.operand0 = some (.reg r size)) :
    liftDivmul inst kind = wideBlock inst kind size (hostReg r) := by
  unfold liftDivmul
  rw [h0]
  cases kind <;> cases size <;> rfl

theorem liftDivmul_mem {inst : Inst} {op : Operand} (kind : DivMulKind) (hmem : op.isMem = true)
    (h0 : inst.operand0 = some op) :
    liftDivmul inst kind
      = loadOperand op inst op.memSize >>= fun _ => wideBlock inst kind op.memSize 17 := by
  unfold liftDivmul
  rw [h0]
  cases op with
  | mem m =>
    refine (emit_bind_assoc (loadOperand (.mem m) inst m.size) (fun _ => pure (m.size, 17)) _).trans ?_
    unfold wideBlock
    cases kind <;> rfl
  | ripRel disp size =>
    refine (emit_bind_assoc (loadOperand (.ripRel disp size) inst size) (fun _ => pure (size, 17)) _).trans ?_
    unfold wideBlock
    cases kind <;> rfl
  | reg r size => cases hmem
  | xmmReg n size => cases hmem
  | imm v size => cases hmem

theorem emits_wideBlock (inst : Inst) (kind : DivMulKind) (size : OpSize) {dv : Reg} (h16 : dv ≠ 16#5)
    (h31 : dv ≠ 31#5) :
    Emits p (wideBlock inst kind size dv) fun _ is =>
      (size = .b4 ∨ size = .b8) ∧ PairCode (codePair kind size dv) dv is := by
  cases size with
  | b1 => cases kind <;> exact Emits.fail
  | b2 => cases kind <;> exact Emits.fail
  | b4 =>
    cases kind with
    | mul => exact (emits_emitMul32 h16 h31 false).mono fun _ _ h => ⟨.inl rfl, h⟩
    | imul1 => exact (emits_emitMul32 h16 h31 true).mono fun _ _ h => ⟨.inl rfl, h⟩
    | div => exact (emits_emitDiv32 h16 h31 false).mono fun _ _ h => ⟨.inl rfl, h⟩
    | idiv => exact (emits_emitDiv32 h16 h31 true).mono fun _ _ h => ⟨.inl rfl, h⟩
  | b8 =>
    cases kind with
    | mul => exact (emits_emitMul64 h16 h31 false).mono fun _ _ h => ⟨.inr rfl, h⟩
    | imul1 => exact (emits_emitMul64 h16 h31 true).mono fun _ _ h => ⟨.inr rfl, h⟩
    | div => exact (emits_emitDiv64 h16 h31 false).mono fun _ _ h => ⟨.inr rfl, h⟩
    | idiv => exact (emits_emitDiv64 h16 h31 true).mono fun _ _ h => ⟨.inr rfl, h⟩

/-- The word of the load of a memory operand, also when its offset does not fit. -/
def loadWord (op : Operand) : Word :=
  ldstUoffWord op.memSize.access.size op.memSize.access.v op.memSize.access.opc
    (op.leftover / BitVec.ofNat 32 op.memSize.access.bytes) 16 17

/-- A memory operand: any code for its address, the load, and the block. -/
theorem emits_liftDivmul_mem {inst : Inst} {op : Operand} {kind : DivMulKind} (hmem : op.isMem = true)
    (h0 : inst.operand0 = some op) {A : List (Option Insn) → Prop}
    (hA : Emits p (addrIntoXtmp op inst 16) fun l is => l = op.leftover ∧ A is) :
    Emits p (liftDivmul inst kind) fun _ is => (op.memSize = .b4 ∨ op.memSize = .b8) ∧
      ∃ is₁ is₂, A is₁ ∧ PairCode (codePair kind op.memSize 17#5) 17#5 is₂ ∧
        is = is₁ ++ (decode (loadWord op) :: is₂) := by
  have hload : ∀ l : BitVec 32, loadSized 17 16 l op.memSize = op.memSize.access.emit 17 16 l := by
    intro l
    cases op.memSize <;> rfl
  rw [liftDivmul_mem kind hmem h0]
  unfold loadOperand
  refine Emits.bind (Emits.bind (hA.mono ?_))
  rintro l is₁ ⟨rfl, hA₁⟩
  rw [hload, Access.emit_eq]
  refine Emits.bind (emits_ldstScaled (Access.bytes_lt _) fun _ => Emits.pure ?_)
  refine (emits_wideBlock inst kind op.memSize (by decide) (by decide)).mono ?_
  rintro - is₂ ⟨hsize, hpair⟩
  exact ⟨hsize, is₁, is₂, hA₁, hpair, by simp [loadWord]⟩

/-! ### The right code -/

/-- The one-operand multiplies and divides. -/
def Inst.wideKind (inst : Inst) : Option DivMulKind :=
  match inst.op with
  | .mul => some .mul
  | .imul => if inst.operand1 = none then some .imul1 else none
  | .div => some .div
  | .idiv => some .idiv
  | _ => none

theorem lift_of_wideKind {inst : Inst} {kind : DivMulKind} (h : inst.wideKind = some kind)
    (legacy32 : Bool) : lift legacy32 inst = liftDivmul inst kind := by
  unfold Inst.wideKind at h
  unfold lift
  split at h
  · rename_i hop
    rw [hop, ← Option.some.inj h]
  · rename_i hop
    split_ifs at h with h1
    rw [hop, ← Option.some.inj h]
    exact if_pos h1
  · rename_i hop
    rw [hop, ← Option.some.inj h]
  · rename_i hop
    rw [hop, ← Option.some.inj h]
  · cases h

/-- From every state with a covered dividend and no divide error the code leaves the architecture's results in
RAX and RDX and every other register as it was. -/
def WideCorrect (kind : DivMulKind) (inst : Inst) (op : Operand) (ws : List Word) : Prop :=
  ∀ env s x y, Covered kind op.memSize (guest s .rdx) (guest s .rax) →
    widePair kind op.memSize (guest s .rdx) (guest s .rax) (operandValue inst s op.memSize op)
      = some (x, y) →
    ∃ s', Exec env ws s s' ∧
      guest s' = Function.update (Function.update (guest s) .rax x) .rdx y ∧ s'.v = s.v

/-- A 64-bit operand is not `RAX`; a 32-bit signed divisor is `EDX`; a memory operand is not a 32-bit divisor,
and its offset has an encoding. -/
def WideOk (kind : DivMulKind) : Operand → Prop
  | .reg r .b8 => r ≠ .rax
  | .reg r _ => kind = .idiv → r = .rdx
  | op => ¬ (op.memSize = .b4 ∧ (kind = .div ∨ kind = .idiv)) ∧ Fits op.memSize.bytes op.leftover

/-- The whole code, with the operand in `dv` when the block begins. -/
def WideCode (kind : DivMulKind) (inst : Inst) (op : Operand) (dv : Reg) (is : List (Option Insn)) : Prop :=
  ∀ env s, ∃ s', runSeq env 0 is s = some s' ∧
    guest s' = Function.update (Function.update (guest s) .rax
      (codePair kind op.memSize dv (guest s .rdx) (guest s .rax) (operandValue inst s op.memSize op)).1) .rdx
      (codePair kind op.memSize dv (guest s .rdx) (guest s .rax) (operandValue inst s op.memSize op)).2 ∧
    s'.v = s.v

theorem guest_of_pair {s s' : State} {x y : BitVec 64} (h0 : s'.x 0#5 = x) (h2 : s'.x 2#5 = y)
    (hr : ∀ r, r ≠ 0#5 → r ≠ 2#5 → r ≠ 16#5 → r ≠ 17#5 → s'.x r = s.x r) :
    guest s' = Function.update (Function.update (guest s) .rax x) .rdx y := by
  funext g
  have hother : g ≠ .rax → g ≠ .rdx → s'.x (hostReg g) = s.x (hostReg g) := by
    intro ha hd
    have h0 : hostReg g ≠ hostReg .rax := hostReg_injective.ne ha
    have h2 : hostReg g ≠ hostReg .rdx := hostReg_injective.ne hd
    exact hr _ h0 h2 (hostReg_ne_16 g) (hostReg_ne_17 g)
  by_cases hd : g = .rdx
  · rw [hd, Function.update_self]
    exact h2
  by_cases ha : g = .rax
  · rw [ha, Function.update_of_ne (by decide), Function.update_self]
    exact h0
  · rw [Function.update_of_ne hd, Function.update_of_ne ha]
    exact hother ha hd

theorem wideCode_reg {inst : Inst} {kind : DivMulKind} {r : GpReg} {size : OpSize} {ws : List Word}
    (h0 : inst.operand0 = some (.reg r size)) (hws : compile p (liftDivmul inst kind) = some ws) :
    (size = .b4 ∨ size = .b8) ∧ WideCode kind inst (.reg r size) (hostReg r) (ws.map decode) := by
  rw [liftDivmul_reg kind h0] at hws
  obtain ⟨-, hsize, hpair⟩ :=
    (emits_wideBlock inst kind size (hostReg_ne_16 r) (hostReg_ne_31 r)).of_compile hws
  refine ⟨hsize, fun env s => ?_⟩
  obtain ⟨s', hrun, hx0, hx2, hr, hv⟩ := hpair env 0 s
  exact ⟨s', hrun, guest_of_pair hx0 hx2 hr, hv⟩

theorem decode_loadWord {op : Operand} (hfit : Fits op.memSize.bytes op.leftover) :
    decode (loadWord op) = some (loadInsn op.memSize 17 16 op.leftover) :=
  decode_loadWordInto 17 hfit

theorem wideCode_mem {inst : Inst} {kind : DivMulKind} {op : Operand} {ws : List Word}
    (hmem : op.isMem = true) (h0 : inst.operand0 = some op) (hfit : Fits op.memSize.bytes op.leftover)
    (hws : compile p (liftDivmul inst kind) = some ws) :
    (op.memSize = .b4 ∨ op.memSize = .b8) ∧ WideCode kind inst op 17#5 (ws.map decode) := by
  obtain ⟨-, hsize, is₁, is₂, haddr, hpair, his⟩ :=
    (emits_liftDivmul_mem hmem h0 (emits_addrIntoXtmp fun is ha => ⟨rfl, ha⟩)).of_compile hws
  refine ⟨hsize, fun env s => ?_⟩
  obtain ⟨t, ht⟩ := haddr env 0 s
  have hval : memValue inst s op.memSize op = operandValue inst s op.memSize op := by
    cases op with
    | reg r size => cases hmem
    | imm v size => cases hmem
    | _ => rfl
  -- the block begins with the operand in `X17` and the address in `X16`
  obtain ⟨s', hrun, hx0, hx2, hr, hv⟩ := hpair env (0 + is₁.length + 1) (((s.writeX 17#5 t).writeX 16#5
    (effectiveAddress inst s op - op.leftover.setWidth 64)).writeX 17#5 (memValue inst s op.memSize op))
  refine ⟨s', ?_, guest_of_pair ?_ ?_ ?_, ?_⟩
  · rw [his, runSeq_append, ht, Option.bind_some, decode_loadWord hfit, runSeq_loadInsn hfit, ← hrun]
    simp [memValue]
  · rw [hx0, hval]
    simp [guest, hostReg]
  · rw [hx2, hval]
    simp [guest, hostReg]
  · intro r h0 h2 h16 h17
    rw [hr r h0 h2 h16 h17]
    simp [h16, h17]
  · rw [hv]
    simp

theorem WideCode.correct {kind : DivMulKind} {inst : Inst} {op : Operand} {dv : Reg} {ws : List Word}
    (hcode : WideCode kind inst op dv (ws.map decode)) (h8 : op.memSize = .b8 → dv ≠ 0#5)
    (hdiv : op.memSize = .b4 → kind = .div → dv ≠ 17#5)
    (hidiv : op.memSize = .b4 → kind = .idiv → dv ≠ 17#5 ∧ op = .reg .rdx .b4) :
    WideCorrect kind inst op ws := by
  intro env s x y hcov hxy
  obtain ⟨s', hrun, hguest, hv⟩ := hcode env s
  have hval : op.memSize = .b4 → kind = .idiv →
      dv ≠ 17#5 ∧ operandValue inst s op.memSize op = guest s .rdx := by
    intro h4 hk
    obtain ⟨h17, rfl⟩ := hidiv h4 hk
    exact ⟨h17, rfl⟩
  rw [codePair_eq h8 hdiv hval hcov hxy] at hguest
  exact ⟨s', exec_of_runSeq hrun, hguest, hv⟩

/-- Right code computes the right pair. -/
theorem WideCorrect.codePair_eq {kind : DivMulKind} {inst : Inst} {op : Operand} {dv : Reg} {ws : List Word}
    (h : WideCorrect kind inst op ws) (hcode : WideCode kind inst op dv (ws.map decode)) {s : State}
    {x y : BitVec 64} (hcov : Covered kind op.memSize (guest s .rdx) (guest s .rax))
    (hxy : widePair kind op.memSize (guest s .rdx) (guest s .rax) (operandValue inst s op.memSize op)
      = some (x, y)) :
    codePair kind op.memSize dv (guest s .rdx) (guest s .rax) (operandValue inst s op.memSize op)
      = (x, y) := by
  obtain ⟨s₁, hrun, hguest₁, -⟩ := hcode default s
  obtain ⟨s₂, hexec, hguest₂, -⟩ := h default s x y hcov hxy
  have heq := (exec_of_runSeq hrun).unique hexec
  rw [← heq, hguest₁] at hguest₂
  have ha := congrFun hguest₂ .rax
  have hd := congrFun hguest₂ .rdx
  rw [Function.update_of_ne (by decide), Function.update_self, Function.update_of_ne (by decide),
    Function.update_self] at ha
  rw [Function.update_self, Function.update_self] at hd
  exact Prod.ext ha hd

/-- RAX, RDX and every other register. -/
def pairProbe (a d v : BitVec 64) : State :=
  { (default : State) with x := fun q => if q = 0#5 then a else if q = 2#5 then d else v }

theorem guest_pairProbe (a d v : BitVec 64) (r : GpReg) :
    guest (pairProbe a d v) r = if r = .rax then a else if r = .rdx then d else v := by
  cases r <;> rfl

theorem WideCorrect.codePair_reg {kind : DivMulKind} {inst : Inst} {r : GpReg} {size : OpSize}
    {ws : List Word} (h : WideCorrect kind inst (.reg r size) ws)
    (hcode : WideCode kind inst (.reg r size) (hostReg r) (ws.map decode)) (a d v : BitVec 64)
    {w x y : BitVec 64} (hw : w = if r = .rax then a else if r = .rdx then d else v)
    (hcov : Covered kind size d a) (hxy : widePair kind size d a w = some (x, y)) :
    codePair kind size (hostReg r) d a w = (x, y) := by
  obtain rfl : w = guest (pairProbe a d v) r := hw.trans (guest_pairProbe a d v r).symm
  exact h.codePair_eq hcode (s := pairProbe a d v) hcov hxy

/-- With the operand in `RAX` a 64-bit instruction is wrong. -/
theorem ne_rax_of_correct {kind : DivMulKind} {inst : Inst} {r : GpReg} {ws : List Word}
    (h : WideCorrect kind inst (.reg r .b8) ws)
    (hcode : WideCode kind inst (.reg r .b8) (hostReg r) (ws.map decode)) : r ≠ .rax := by
  rintro rfl
  -- `2 ^ 32 * 2 ^ 32` and `2 / 2`
  have hmul := h.codePair_reg hcode 0x100000000 0 0 (x := 0) (y := 1) rfl
  have hdiv := h.codePair_reg hcode 2 0 0 (x := 1) (y := 0) rfl
  cases kind with
  | mul => exact absurd (hmul trivial (by decide)) (by decide)
  | imul1 => exact absurd (hmul trivial (by decide)) (by decide)
  | div => exact absurd (hdiv rfl (by decide)) (by decide)
  | idiv => exact absurd (hdiv rfl (by decide)) (by decide)

theorem codePair_idiv_reg {dv : Reg} (h : dv ≠ 17#5) (d a v : BitVec 64) :
    codePair .idiv .b4 dv d a v = codePair .idiv .b4 1 d a v := by
  unfold codePair div32Pair divisor32
  rw [if_neg h]
  rfl

/-- With a divisor other than `EDX` a signed 32-bit divide is wrong. -/
theorem eq_rdx_of_correct {inst : Inst} {r : GpReg} {ws : List Word}
    (h : WideCorrect .idiv inst (.reg r .b4) ws)
    (hcode : WideCode .idiv inst (.reg r .b4) (hostReg r) (ws.map decode)) : r = .rdx := by
  by_contra hdx
  by_cases hax : r = .rax
  · -- `2 ^ 31 / -2 ^ 31`
    subst hax
    have hpair := h.codePair_reg hcode 0x80000000 0 0 (x := 0xFFFFFFFF) (y := 0) rfl trivial (by decide)
    exact absurd hpair (by decide)
  · -- `7 / -2`
    have hw : -2 = if r = .rax then 7 else if r = .rdx then 0 else (-2 : BitVec 64) := by
      rw [if_neg hax, if_neg hdx]
    have hpair := h.codePair_reg hcode 7 0 (-2) (x := 0xFFFFFFFD) (y := 1) hw trivial (by decide)
    rw [codePair_idiv_reg (hostReg_ne_17 r)] at hpair
    exact absurd hpair (by decide)

/-! ### Misencoded loads -/

/-- A load whose offset does not fit leaves in `X17` what was there, or a value from outside the
operand. -/
theorem misencoded_x17 {env : Env} {pc : Nat} {op : Operand} {s s' : State}
    (henv : ∀ w v, env.simdScalar w v = none) (hfit : ¬ Fits op.memSize.bytes op.leftover)
    (h : runSeq env pc [decode (loadWord op)] s = some s') :
    (∀ r, r ≠ 17#5 → s'.x r = s.x r) ∧ (s'.x 17#5 = s.x 17#5 ∨
      ∃ b, ¬ InRange (s.x 16#5 + op.leftover.setWidth 64) 16 b ∧ (s'.x 17#5).setWidth 8 = s.mem b) :=
  misencoded_load henv (by decide) hfit h

/-- One over a number whose low byte is zero. -/
theorem one_udiv_eq_zero {v : BitVec 64} (hv : v.setWidth 8 = 0) : 1#64 / v = 0 := by
  have hmod : v.toNat % 256 = 0 := by
    have hnat := congrArg BitVec.toNat hv
    rwa [BitVec.toNat_setWidth] at hnat
  apply BitVec.eq_of_toNat_eq
  rw [BitVec.toNat_udiv]
  change 1 / v.toNat = 0
  obtain h0 | hpos := Nat.eq_zero_or_pos v.toNat
  · rw [h0]
  · exact Nat.div_eq_of_lt (by omega)

theorem one_sdiv_eq_zero {v : BitVec 64} (hv : v.setWidth 8 = 0) : (1#64).sdiv v = 0 := by
  have hneg : (-v).setWidth 8 = 0 := by
    rw [BitVec.setWidth_neg_of_le (by decide), hv]
    rfl
  rw [BitVec.sdiv_eq, show (1#64).msb = false from rfl]
  cases v.msb with
  | false => exact one_udiv_eq_zero hv
  | true =>
    change -(1#64 / -v) = 0
    rw [one_udiv_eq_zero hneg]
    rfl

/-- A 32-bit divisor in memory has become `EDX` when it is used. -/
theorem div32Pair_fst_ne_one (signed : Bool) (v : BitVec 64) : (div32Pair signed 17#5 0 1 v).1 ≠ 1 := by
  have hzero : divisor32 17#5 0 v = 0 := by
    unfold divisor32
    rw [if_pos rfl]
    decide
  have hquot : ∀ n, quotient signed n 0 = 0 := by
    intro n
    cases signed with
    | false => exact BitVec.udiv_zero
    | true => exact BitVec.sdiv_zero
  have hsx : (if signed then sx32 0 else 0) = 0 := by
    cases signed <;> decide
  unfold div32Pair
  dsimp only
  rw [hzero, hsx, hquot]
  decide

/-- Without the operand's low byte the code does not compute `1 * 1` or `1 / 1`. -/
theorem codePair_fst_ne_one (kind : DivMulKind) (size : OpSize) {v : BitVec 64}
    (hv : v.setWidth 8 = 0) : (codePair kind size 17#5 0 1 v).1 ≠ 1 := by
  have hlow : ∀ w : BitVec 64,
      (zx32 w).setWidth 8 = w.setWidth 8 ∧ (sx32 w).setWidth 8 = w.setWidth 8 := by
    intro w
    unfold zx32 sx32 lo32
    constructor
    · rw [BitVec.setWidth_setWidth_of_le _ (by decide), BitVec.setWidth_setWidth_of_le _ (by decide)]
    · refine BitVec.eq_of_getLsbD_eq fun i hi => ?_
      rw [BitVec.getLsbD_setWidth, BitVec.getLsbD_signExtend, if_pos (by omega), BitVec.getLsbD_setWidth,
        BitVec.getLsbD_setWidth]
      simp [show i < 64 by omega, show i < 32 by omega]
  have hone : ∀ w : BitVec 64, w.setWidth 8 = 0 → w ≠ 1 := by
    intro w hw h1
    rw [h1] at hw
    exact absurd hw (by decide)
  have hmul : ∀ signed, (mul32Pair signed 1 v).1 ≠ 1 := by
    intro signed
    apply hone
    unfold mul32Pair
    rw [(hlow _).1]
    cases signed with
    | false => rw [if_neg Bool.false_ne_true, show zx32 1 = 1 by decide, one_mul, (hlow _).1, hv]
    | true => rw [if_pos rfl, show sx32 1 = 1 by decide, one_mul, (hlow _).2, hv]
  cases size with
  | b8 =>
    cases kind with
    | mul => exact hone _ (by rw [codePair, mul64Pair, one_mul, hv])
    | imul1 => exact hone _ (by rw [codePair, mul64Pair, one_mul, hv])
    | div =>
      intro h
      exact absurd ((one_udiv_eq_zero hv).symm.trans h) (by decide)
    | idiv =>
      intro h
      exact absurd ((one_sdiv_eq_zero hv).symm.trans h) (by decide)
  | _ =>
    cases kind with
    | mul => exact hmul false
    | imul1 => exact hmul true
    | div => exact div32Pair_fst_ne_one false v
    | idiv => exact div32Pair_fst_ne_one true v

/-- `1` in memory and in `RAX`, and zero everywhere else. -/
def memProbe (inst : Inst) (op : Operand) : State :=
  { pairProbe 1 0 0 with
    mem := ByteMem.write op.memSize.bytes (fun _ => 0) (effectiveAddress inst (pairProbe 1 0 0) op) 1#64 }

theorem effectiveAddress_memProbe (inst : Inst) (op : Operand) :
    effectiveAddress inst (memProbe inst op) op = effectiveAddress inst (pairProbe 1 0 0) op :=
  effectiveAddress_oneAt inst op (pairProbe 1 0 0)

theorem memValue_memProbe (inst : Inst) (op : Operand) :
    memValue inst (memProbe inst op) op.memSize op = 1 :=
  memValue_oneAt inst op (pairProbe 1 0 0)

theorem mem_memProbe {inst : Inst} {op : Operand} {b : BitVec 64}
    (hb : ¬ InRange (effectiveAddress inst (memProbe inst op) op) 16 b) : (memProbe inst op).mem b = 0 :=
  mem_oneAt (s := pairProbe 1 0 0) (effectiveAddress_memProbe inst op ▸ hb)

theorem widePair_one (kind : DivMulKind) {size : OpSize} (hsize : size = .b4 ∨ size = .b8) :
    widePair kind size 0 1 1 = some (1, 0) ∧ Covered kind size 0 1 := by
  rcases hsize with rfl | rfl
  · cases kind <;> exact ⟨by decide, trivial⟩
  · cases kind with
    | mul => exact ⟨by decide, trivial⟩
    | imul1 => exact ⟨by decide, trivial⟩
    | div => exact ⟨by decide, rfl⟩
    | idiv => exact ⟨by decide, by unfold Covered; decide⟩

theorem WideCorrect.exec_memProbe {kind : DivMulKind} {inst : Inst} {op : Operand} {ws : List Word}
    (h : WideCorrect kind inst op ws) (hmem : op.isMem = true)
    (hsize : op.memSize = .b4 ∨ op.memSize = .b8) :
    ∃ s', Exec default ws (memProbe inst op) s' ∧ s'.x 0#5 = 1 := by
  obtain ⟨hone, hcov⟩ := widePair_one kind hsize
  have hval : operandValue inst (memProbe inst op) op.memSize op = 1 := by
    rw [← memValue_memProbe inst op]
    cases op with
    | reg r size => cases hmem
    | imm v size => cases hmem
    | _ => rfl
  obtain ⟨s', hexec, hguest, -⟩ := h default (memProbe inst op) 1 0 hcov (by rw [hval]; exact hone)
  refine ⟨s', hexec, ?_⟩
  have hrax := congrFun hguest .rax
  rwa [Function.update_of_ne (by decide), Function.update_self] at hrax

/-- An offset without an encoding: the load goes elsewhere, and finds zero there. -/
theorem fits_of_correct {kind : DivMulKind} {inst : Inst} {op : Operand} {ws : List Word}
    (hmem : op.isMem = true) (h0 : inst.operand0 = some op)
    (hws : compile p (liftDivmul inst kind) = some ws) (h : WideCorrect kind inst op ws) :
    Fits op.memSize.bytes op.leftover := by
  by_contra hfit
  have hl : op.leftover ≠ 0 := by
    intro hl
    rw [hl] at hfit
    exact hfit (fits_zero _)
  obtain ⟨-, hsize, is₁, is₂, haddr, hpair, his⟩ :=
    (emits_liftDivmul_mem hmem h0 (emits_addrIntoXtmp_sets hl)).of_compile hws
  obtain ⟨s', hexec, hx0⟩ := h.exec_memProbe hmem hsize
  have hlin : ∀ i, some i ∈ ws.map decode → i.isLinear = true := by
    intro i hi
    rw [his] at hi
    rcases List.mem_append.mp hi with hi | hi
    · exact isLinear_of_runSeq (haddr default 0 default) i hi
    rcases List.mem_cons.mp hi with hi | hi
    · exact isLinear_ldstUoffWord hi
    · obtain ⟨s₂, hrun, -⟩ := hpair default 0 default
      exact isLinear_of_runSeq hrun i hi
  have hrun := runSeq_of_exec hlin hexec
  rw [his, runSeq_append, haddr, Option.bind_some, ← List.singleton_append, runSeq_append,
    Option.bind_eq_some_iff] at hrun
  obtain ⟨s₂, hs₂, hrest⟩ := hrun
  obtain ⟨hregs, hx17⟩ := misencoded_x17 (fun _ _ => rfl) hfit hs₂
  obtain ⟨s₃, hs₃, hx0₃, -⟩ := hpair default _ s₂
  rw [hrest, Option.some.injEq] at hs₃
  subst hs₃
  have hlow : (s₂.x 17#5).setWidth 8 = 0 := by
    rcases hx17 with hx | ⟨b, hb, hx⟩
    · rw [hx, State.x_writeX, if_neg (by decide)]
      rfl
    · rw [hx, State.writeX_mem, mem_memProbe]
      simpa using hb
  rw [hx0, hregs 0#5 (by decide), hregs 2#5 (by decide)] at hx0₃
  apply codePair_fst_ne_one kind op.memSize hlow
  simpa [memProbe, pairProbe] using hx0₃.symm

/-- A 32-bit divisor in memory: it is overwritten with `EDX`. -/
theorem not_divide_of_correct {kind : DivMulKind} {inst : Inst} {op : Operand} {ws : List Word}
    (hmem : op.isMem = true) (hfit : Fits op.memSize.bytes op.leftover) (h0 : inst.operand0 = some op)
    (hws : compile p (liftDivmul inst kind) = some ws) (h : WideCorrect kind inst op ws) :
    ¬ (op.memSize = .b4 ∧ (kind = .div ∨ kind = .idiv)) := by
  rintro ⟨h4, hkind⟩
  obtain ⟨hsize, hcode⟩ := wideCode_mem hmem h0 hfit hws
  obtain ⟨s', hexec, hx0⟩ := h.exec_memProbe hmem hsize
  obtain ⟨s₁, hrun, hguest, -⟩ := hcode default (memProbe inst op)
  obtain rfl := (exec_of_runSeq hrun).unique hexec
  have hrax := congrFun hguest .rax
  rw [Function.update_of_ne (by decide), Function.update_self, h4] at hrax
  have hone : guest s₁ .rax = 1 := hx0
  rw [hone] at hrax
  rcases hkind with rfl | rfl
  · exact div32Pair_fst_ne_one false _ hrax.symm
  · exact div32Pair_fst_ne_one true _ hrax.symm

/-! ### When the code is right -/

/-- The lifter takes a register or a memory operand. -/
theorem operand_of_compile {kind : DivMulKind} {inst : Inst} {op : Operand} {ws : List Word}
    (h0 : inst.operand0 = some op) (hws : compile p (liftDivmul inst kind) = some ws) :
    (∃ r size, op = .reg r size) ∨ op.isMem = true := by
  cases op with
  | reg r size => exact .inl ⟨r, size, rfl⟩
  | mem m => exact .inr rfl
  | ripRel d size => exact .inr rfl
  | _ =>
    have hfail : Emits p (liftDivmul inst kind) fun _ _ => False := by
      unfold liftDivmul
      rw [h0]
      exact Emits.bind (Emits.pure (Emits.bind Emits.fail))
    exact (hfail.of_compile hws).elim fun _ h => h.elim

theorem wideCorrect_of_ok {kind : DivMulKind} {inst : Inst} {op : Operand} {ws : List Word}
    (h0 : inst.operand0 = some op) (hws : compile p (liftDivmul inst kind) = some ws)
    (hok : WideOk kind op) : WideCorrect kind inst op ws := by
  have hmem : op.isMem = true → ¬ (op.memSize = .b4 ∧ (kind = .div ∨ kind = .idiv)) →
      Fits op.memSize.bytes op.leftover → WideCorrect kind inst op ws := by
    intro hmem hdiv hfit
    obtain ⟨-, hcode⟩ := wideCode_mem hmem h0 hfit hws
    refine hcode.correct (fun _ => by decide) ?_ ?_
    · intro h4 hk
      exact absurd ⟨h4, .inl hk⟩ hdiv
    · intro h4 hk
      exact absurd ⟨h4, .inr hk⟩ hdiv
  cases op with
  | reg r size =>
    obtain ⟨hsize, hcode⟩ := wideCode_reg h0 hws
    refine hcode.correct ?_ (fun _ _ => hostReg_ne_17 r) ?_
    · rintro (rfl : size = .b8) hr
      exact hok (hostReg_injective hr)
    · rintro (rfl : size = .b4) hk
      obtain rfl : r = .rdx := hok hk
      exact ⟨hostReg_ne_17 _, rfl⟩
  | mem m => exact hmem rfl hok.1 hok.2
  | ripRel d size => exact hmem rfl hok.1 hok.2
  | _ => rcases operand_of_compile h0 hws with ⟨r, size, hr⟩ | hm <;> contradiction

theorem wideOk_of_correct {kind : DivMulKind} {inst : Inst} {op : Operand} {ws : List Word}
    (h0 : inst.operand0 = some op) (hws : compile p (liftDivmul inst kind) = some ws)
    (h : WideCorrect kind inst op ws) : WideOk kind op := by
  have hmem : op.isMem = true → ¬ (op.memSize = .b4 ∧ (kind = .div ∨ kind = .idiv)) ∧
      Fits op.memSize.bytes op.leftover := by
    intro hmem
    have hfit := fits_of_correct hmem h0 hws h
    exact ⟨not_divide_of_correct hmem hfit h0 hws h, hfit⟩
  cases op with
  | reg r size =>
    obtain ⟨rfl | rfl, hcode⟩ := wideCode_reg h0 hws
    · rintro rfl
      exact eq_rdx_of_correct h hcode
    · exact ne_rax_of_correct h hcode
  | mem m => exact hmem rfl
  | ripRel d size => exact hmem rfl
  | _ => rcases operand_of_compile h0 hws with ⟨r, size, hr⟩ | hm <;> contradiction

/-- **Wide multiply and divide.**  The code that the lifter makes of a one-operand `MUL`, `IMUL`, `DIV` or
`IDIV` is right, in every state with a covered dividend and no divide error, if and only if the operand is
one of `WideOk`. -/
theorem wide_correct_iff (p : Profile) (legacy32 : Bool) (inst : Inst) (kind : DivMulKind) (op : Operand)
    (ws : List Word) (hkind : inst.wideKind = some kind) (h0 : inst.operand0 = some op)
    (hws : compile p (lift legacy32 inst) = some ws) :
    WideCorrect kind inst op ws ↔ WideOk kind op := by
  rw [lift_of_wideKind hkind] at hws
  exact ⟨wideOk_of_correct h0 hws, wideCorrect_of_ok h0 hws⟩

/-- `DIV RCX`. -/
theorem wide_correct_iff_div : ∃ inst ws, decodeNext true 0x1000 [0x48, 0xF7, 0xF1] = .ok (inst, []) ∧
    compile ⟨true⟩ (lift false inst) = some ws ∧ WideCorrect .div inst (.reg .rcx .b8) ws := by
  obtain ⟨inst, hdec, hkind, h0, ws, hws⟩ : ∃ inst,
      decodeNext true 0x1000 [0x48, 0xF7, 0xF1] = .ok (inst, []) ∧ inst.wideKind = some .div ∧
      inst.operand0 = some (.reg .rcx .b8) ∧
      ∃ ws, compile ⟨true⟩ (lift false inst) = some ws := ⟨_, rfl, rfl, rfl, _, rfl⟩
  refine ⟨inst, ws, hdec, hws, ?_⟩
  have hok : WideOk .div (.reg .rcx .b8) := GpReg.noConfusion
  exact (wide_correct_iff ⟨true⟩ false inst .div _ ws hkind h0 hws).mpr hok

/-- The bytes decode to an instruction that every profile translates, and none to right code. -/
def WideWrong (bytes : List Byte) : Prop :=
  ∃ inst kind op, decodeNext true 0x1000 bytes = .ok (inst, []) ∧ inst.wideKind = some kind ∧
    inst.operand0 = some op ∧
    ∀ p, ∃ ws, compile p (lift false inst) = some ws ∧ ¬ WideCorrect kind inst op ws

theorem wideWrong_of_not_ok {bytes : List Byte} {inst : Inst} {kind : DivMulKind} {op : Operand}
    (hdec : decodeNext true 0x1000 bytes = .ok (inst, [])) (hkind : inst.wideKind = some kind)
    (h0 : inst.operand0 = some op) (hws : ∀ p, ∃ ws, compile p (lift false inst) = some ws)
    (hok : ¬ WideOk kind op) : WideWrong bytes := by
  refine ⟨inst, kind, op, hdec, hkind, h0, fun p => ?_⟩
  obtain ⟨ws, hp⟩ := hws p
  refine ⟨ws, hp, fun hc => hok ?_⟩
  rw [lift_of_wideKind hkind] at hp
  exact wideOk_of_correct h0 hp hc

/-- `MUL RAX`, `DIV RAX`, `IDIV ECX` and `DIV dword [RCX]`. -/
theorem wide_wrong :
    WideWrong [0x48, 0xF7, 0xE0] ∧ WideWrong [0x48, 0xF7, 0xF0] ∧ WideWrong [0xF7, 0xF9] ∧
      WideWrong [0xF7, 0x31] := by
  refine ⟨wideWrong_of_not_ok rfl rfl rfl (fun p => ?_) ?_,
    wideWrong_of_not_ok rfl rfl rfl (fun p => ?_) ?_,
    wideWrong_of_not_ok rfl rfl rfl (fun p => ?_) ?_,
    wideWrong_of_not_ok rfl rfl rfl (fun p => ?_) ?_⟩
  · exact ⟨_, rfl⟩
  · exact fun h => h rfl
  · exact ⟨_, rfl⟩
  · exact fun h => h rfl
  · exact ⟨_, rfl⟩
  · exact fun h => GpReg.noConfusion (h rfl)
  · rcases p with ⟨_ | _⟩ <;> exact ⟨_, rfl⟩
  · exact fun h => h.1 ⟨rfl, .inl rfl⟩

end Quantum.Jit
