import Quantum.Jit.Decoder
import Quantum.Jit.Equiv.WideArith
import Quantum.Jit.Equiv.SizedOperand

/-!
# Sign and zero extension

`MOVZX`, `MOVSX` and `MOVSXD` write their 64-bit host result to the whole register, whatever the size of
the destination is.  `CDQ` shifts the sign-extended accumulator by 3 where 31 is meant, and `CQO` is right.
`extend_correct_iff` says when the results are those of the architecture.
-/

namespace Quantum.Jit

open A64

variable {p : Profile}

/-! ### What the instructions do -/

inductive ExtendKind where
  | movzx | movsx | movsxd
  deriving DecidableEq

def Inst.extendKind (inst : Inst) : Option ExtendKind :=
  match inst.op with
  | .movzx => some .movzx
  | .movsx => some .movsx
  | .movsxd => some .movsxd
  | _ => none

/-- The extension of a source of the given size. -/
def ExtendKind.result (kind : ExtendKind) (size : OpSize) (v : BitVec 64) : BitVec 64 :=
  match kind with
  | .movzx => size.zeroExtended v
  | _ => size.signExtended v

/-- From every state the code writes the extension of the source to the destination, and nothing else. -/
def ExtendCorrect (kind : ExtendKind) (inst : Inst) (rd : GpReg) (dsize : OpSize) (src : Operand)
    (ws : List Word) : Prop :=
  ∀ env s, ∃ s', Exec env ws s s' ∧
    guest s' = Function.update (guest s) rd (dsize.into (guest s rd)
      (kind.result src.memSize (operandValue inst s src.memSize src))) ∧
    s'.mem = s.mem ∧ s'.v = s.v ∧ s'.nzcv = s.nzcv

/-- The destinations whose upper bits come out right, and an offset that has an encoding. -/
def ExtendOk (kind : ExtendKind) (dsize : OpSize) (src : Operand) : Prop :=
  (match kind with
    | .movzx => dsize = .b4 ∨ dsize = .b8
    | .movsx => dsize = .b8
    | .movsxd => dsize = .b8 ∧ src.memSize = .b4) ∧
  Fits src.memSize.bytes src.leftover

/-- All copies of the sign bit of a value. -/
def OpSize.signFill (size : OpSize) (v : BitVec 64) : BitVec 64 :=
  if (v.setWidth (8 * size.bytes)).msb then -1 else 0

/-- `CDQ` or `CQO`: the copies of the sign of the accumulator in `EDX` or `RDX`, and nothing else. -/
def SignFills (size : OpSize) (s s' : State) : Prop :=
  guest s' = Function.update (guest s) .rdx
    (size.into (guest s .rdx) (size.signFill (guest s .rax))) ∧
  s'.mem = s.mem ∧ s'.v = s.v ∧ s'.nzcv = s.nzcv

/-! ### What the code does -/

/-- The value that the code computes: `MOVSXD` extends 32 bits, whatever the source is. -/
def ExtendKind.codeResult (kind : ExtendKind) (size : OpSize) (v : BitVec 64) : BitVec 64 :=
  match kind with
  | .movzx => size.zeroExtended v
  | .movsx => size.signExtended v
  | .movsxd => OpSize.b4.signExtended v

theorem low_signExtended (size : OpSize) (v : BitVec 64) :
    (size.signExtended v).setWidth 8 = v.setWidth 8 := by
  apply BitVec.eq_of_getLsbD_eq
  intro i hi
  have h : i < 8 * size.bytes := by
    cases size <;> simp only [OpSize.bytes] <;> omega
  rw [BitVec.getLsbD_setWidth, BitVec.getLsbD_setWidth, OpSize.getLsbD_signExtended_of_lt h]

theorem sbfm_signExtended (size : OpSize) {imms : Nat} (h : imms + 1 = 8 * size.bytes)
    (v : BitVec 64) : A64.sbfm 0 imms v = size.signExtended v := by
  have hle : 8 * size.bytes ≤ 64 := by
    cases size <;> decide
  apply BitVec.eq_of_getLsbD_eq
  intro i hi
  rw [A64.sbfm, if_pos (Nat.zero_le _), OpSize.signExtended, BitVec.getLsbD_sshiftRight,
    BitVec.getLsbD_signExtend, ← h]
  simp only [BitVec.getLsbD_shiftLeft, BitVec.msb_eq_getLsbD_last, BitVec.getLsbD_setWidth,
    Nat.add_zero]
  by_cases hlow : i < imms + 1
  · have h1 : 63 - imms + i < 64 := by omega
    have h2 : 63 - imms + i - (63 - imms) = i := by omega
    simp [hlow, hi, h1, h2, show ¬ 64 ≤ i by omega]
  · have h2 : 63 - (63 - imms) = imms := by omega
    simp [hlow, hi, show ¬ 63 - imms + i < 64 by omega, show ¬ 64 ≤ i by omega, h2]

section Blocks

variable {rd rn : Reg}

theorem emits_emitAndImmByte (hrd : rd ≠ 31#5) (hrn : rn ≠ 31#5) :
    Emits p (emitAndImmByte rd rn) fun _ is => Sets rd (fun s => OpSize.b1.zeroExtended (s.x rn)) is := by
  refine Emits.push ?_
  rw [decode_andImm_uxtb]
  intro env pc s
  dsimp only
  rw [s.writeX_of_ne _ _ hrd, ← s.readX_of_ne _ hrn, ← and_mask_zeroExtended (m := 0xFF#64) (by decide)]
  rfl

theorem emits_emitAndImmWord (hrd : rd ≠ 31#5) (hrn : rn ≠ 31#5) :
    Emits p (emitAndImmWord rd rn) fun _ is => Sets rd (fun s => OpSize.b2.zeroExtended (s.x rn)) is := by
  refine Emits.push ?_
  rw [decode_andImm_uxth]
  intro env pc s
  dsimp only
  rw [s.writeX_of_ne _ _ hrd, ← s.readX_of_ne _ hrn, ← and_mask_zeroExtended (m := 0xFFFF#64) (by decide)]
  rfl

theorem emits_emitSxtByte (hrn : rn ≠ 31#5) :
    Emits p (emitSxtByte rd rn) fun _ is => Sets rd (fun s => OpSize.b1.signExtended (s.x rn)) is := by
  refine Emits.push ?_
  rw [decode_sxtb]
  intro env pc s
  show some (s.writeX rd (A64.sbfm 0 7 (s.readX rn))) = _
  rw [s.readX_of_ne _ hrn, sbfm_signExtended .b1 rfl]

theorem emits_emitSxtWord (hrn : rn ≠ 31#5) :
    Emits p (emitSxtWord rd rn) fun _ is => Sets rd (fun s => OpSize.b2.signExtended (s.x rn)) is := by
  refine Emits.push ?_
  rw [decode_sxth]
  intro env pc s
  show some (s.writeX rd (A64.sbfm 0 15 (s.readX rn))) = _
  rw [s.readX_of_ne _ hrn, sbfm_signExtended .b2 rfl]

theorem emits_emitSxtw_sets (hrn : rn ≠ 31#5) :
    Emits p (emitSxtw rd rn) fun _ is => Sets rd (fun s => OpSize.b4.signExtended (s.x rn)) is := by
  refine Emits.push ?_
  rw [decode_sxtw]
  intro env pc s
  show some (s.writeX rd (A64.sbfm 0 31 (s.readX rn))) = _
  rw [s.readX_of_ne _ hrn, sbfm_signExtended .b4 rfl]

end Blocks

/-! ### The lift -/

/-- The extension after a load, which gives a zero-extended value. -/
def ExtendKind.afterLoad (kind : ExtendKind) (size : OpSize) (v : BitVec 64) : BitVec 64 :=
  match kind with
  | .movzx => v
  | _ => size.signExtended v

theorem emit_bind_pure_unit {ε : Type} (m : EmitM ε Unit) : (m >>= fun _ => pure ()) = m := by
  funext p e
  simp only [bind]
  cases m p e <;> rfl

/-- The extension of a loaded value. -/
def extendLoaded (kind : ExtendKind) (size : OpSize) (rd : Reg) : LiftM Unit :=
  match kind, size with
  | .movsx, .b1 => emitSxtByte rd rd
  | .movsx, .b2 => emitSxtWord rd rd
  | _, _ => pure ()

theorem loadExtend_eq {inst : Inst} {kind : ExtendKind} {rd : Reg} {src : Operand}
    (hkind : kind ≠ .movsxd) (hsize : src.memSize = .b1 ∨ src.memSize = .b2) :
    loadExtend inst (decide (kind = .movsx)) rd src = (do
      let leftover ← addrIntoXtmp src inst 16
      loadSized rd 16 leftover src.memSize
      extendLoaded kind src.memSize rd) := by
  unfold loadExtend
  rcases hsize with h | h <;> rw [h] <;> cases kind with
  | movzx => simp only [extendLoaded, loadSized, emit_bind_pure_unit]; rfl
  | movsx => rfl
  | movsxd => exact absurd rfl hkind

theorem emits_extendLoaded {kind : ExtendKind} {size : OpSize} {rd : Reg} (hrd : rd ≠ 31#5)
    (hkind : kind ≠ .movsxd) (hsize : size = .b1 ∨ size = .b2) :
    Emits p (extendLoaded kind size rd) fun _ is =>
      Sets rd (fun s => kind.afterLoad size (s.x rd)) is := by
  cases kind with
  | movzx =>
    refine Emits.pure ?_
    intro env pc s
    exact congrArg some (State.writeX_x_self s rd).symm
  | movsx =>
    rcases hsize with rfl | rfl
    · exact emits_emitSxtByte hrd
    · exact emits_emitSxtWord hrd
  | movsxd => exact absurd rfl hkind

/-- A memory source: any code for its address, the load to the destination, and the extension there. -/
theorem emits_loadExtend {inst : Inst} {kind : ExtendKind} {rd : Reg} {src : Operand}
    {A : List (Option Insn) → Prop} (hrd : rd ≠ 31#5) (hkind : kind ≠ .movsxd)
    (hA : Emits p (addrIntoXtmp src inst 16) fun l is => l = src.leftover ∧ A is) :
    Emits p (loadExtend inst (decide (kind = .movsx)) rd src) fun _ is =>
      (src.memSize = .b1 ∨ src.memSize = .b2) ∧
      ∃ is₁ is₂, A is₁ ∧ Sets rd (fun s => kind.afterLoad src.memSize (s.x rd)) is₂ ∧
        is = is₁ ++ (decode (loadWordInto src rd) :: is₂) := by
  by_cases hsize : src.memSize = .b1 ∨ src.memSize = .b2
  · rw [loadExtend_eq hkind hsize]
    exact (emits_loadForm hA (emits_extendLoaded hrd hkind hsize)).mono fun _ _ h => ⟨hsize, h⟩
  · unfold loadExtend
    refine Emits.bind (hA.mono fun _ _ _ => ?_)
    cases h : src.memSize with
    | b1 => exact absurd (.inl h) hsize
    | b2 => exact absurd (.inr h) hsize
    | b4 | b8 => exact Emits.fail

/-- The code, whatever the destination size is. -/
def ExtendCode (kind : ExtendKind) (inst : Inst) (rd : GpReg) (src : Operand)
    (is : List (Option Insn)) : Prop :=
  ∀ env s, ∃ s', runSeq env 0 is s = some s' ∧
    guest s' = Function.update (guest s) rd
      (kind.codeResult src.memSize (operandValue inst s src.memSize src)) ∧
    s'.mem = s.mem ∧ s'.v = s.v ∧ s'.nzcv = s.nzcv

theorem extendCode_of_sets {kind : ExtendKind} {inst : Inst} {rd rs : GpReg} {size : OpSize}
    {is : List (Option Insn)}
    (h : Sets (hostReg rd) (fun s => kind.codeResult size (s.x (hostReg rs))) is) :
    ExtendCode kind inst rd (.reg rs size) is := by
  intro env s
  exact ⟨_, h env 0 s, guest_writeX_hostReg s rd _, by simp, by simp, by simp⟩

theorem extendCode_of_load {kind : ExtendKind} {inst : Inst} {rd : GpReg} {src : Operand}
    {is₁ is₂ : List (Option Insn)} (hkind : kind ≠ .movsxd) (hmem : src.isMem = true)
    (hfit : Fits src.memSize.bytes src.leftover) (haddr : AddrCode inst src is₁)
    (hext : Sets (hostReg rd) (fun s => kind.afterLoad src.memSize (s.x (hostReg rd))) is₂) :
    ExtendCode kind inst rd src (is₁ ++ (decode (loadWordInto src (hostReg rd)) :: is₂)) := by
  intro env s
  obtain ⟨t, ht⟩ := haddr env 0 s
  have hval : operandValue inst s src.memSize src = memValue inst s src.memSize src := by
    cases src with
    | reg r size => cases hmem
    | imm v size => cases hmem
    | _ => rfl
  have hafter : kind.afterLoad src.memSize (memValue inst s src.memSize src)
      = kind.codeResult src.memSize (memValue inst s src.memSize src) := by
    cases kind with
    | movzx => exact (OpSize.zeroExtended_read _ _ _).symm
    | movsx => rfl
    | movsxd => exact absurd rfl hkind
  rw [runSeq_append, ht, Option.bind_some, decode_loadWordInto _ hfit, runSeq_loadInsn hfit, hext]
  refine ⟨_, rfl, ?_, by simp, by simp, by simp⟩
  simp only [State.writeX_mem, State.x_writeX, ne_eq, hostReg_ne_31, not_false_eq_true, and_true,
    if_true, BitVec.reduceEq, BitVec.sub_add_cancel]
  rw [hval, ← hafter]
  simp [memValue]

/-- The two forms of the code: between registers, or with a load. -/
def ExtendForm (kind : ExtendKind) (inst : Inst) (rd : GpReg) (src : Operand)
    (is : List (Option Insn)) : Prop :=
  (∃ rs size, src = .reg rs size ∧
    Sets (hostReg rd) (fun s => kind.codeResult size (s.x (hostReg rs))) is) ∨
  (kind ≠ .movsxd ∧ src.isMem = true ∧ ∃ is₁ is₂, MemAddr inst src is₁ ∧
    Sets (hostReg rd) (fun s => kind.afterLoad src.memSize (s.x (hostReg rd))) is₂ ∧
    is = is₁ ++ (decode (loadWordInto src (hostReg rd)) :: is₂))

/-- The operands of an instruction that has code, and its form. -/
def ExtendLifted (kind : ExtendKind) (inst : Inst) (is : List (Option Insn)) : Prop :=
  ∃ rd dsize src, inst.operand0 = some (.reg rd dsize) ∧ inst.operand1 = some src ∧
    (kind ≠ .movsxd → src.memSize = .b1 ∨ src.memSize = .b2) ∧ ExtendForm kind inst rd src is

theorem emits_liftMovzxOrMovsx {inst : Inst} (kind : ExtendKind) (hkind : kind ≠ .movsxd) :
    Emits p (liftMovzxOrMovsx inst (decide (kind = .movsx))) fun _ is =>
      ExtendLifted kind inst is := by
  unfold liftMovzxOrMovsx
  refine Emits.bind (Emits.okOr fun dst h0 => Emits.bind (Emits.okOr fun src h1 => ?_))
  have hload : ∀ rd dsize src, inst.operand0 = some (.reg rd dsize) → inst.operand1 = some src →
      src.isMem = true → Emits p (loadExtend inst (decide (kind = .movsx)) (hostReg rd) src)
        fun _ is => ExtendLifted kind inst is := by
    intro rd dsize src h0 h1 hmem
    refine (emits_loadExtend (hostReg_ne_31 rd) hkind (emits_memAddr src inst)).mono ?_
    rintro - is ⟨hsize, hform⟩
    exact ⟨rd, dsize, src, h0, h1, fun _ => hsize, .inr ⟨hkind, hmem, hform⟩⟩
  cases dst with
  | reg rd dsize =>
    have hd := hostReg_ne_31 rd
    cases src with
    | reg rs size =>
      have hs := hostReg_ne_31 rs
      have hregs : ∀ {m : LiftM Unit}, (size = .b1 ∨ size = .b2) →
          (Emits p m fun _ is =>
            Sets (hostReg rd) (fun s => kind.codeResult size (s.x (hostReg rs))) is) →
          Emits p m fun _ is => ExtendLifted kind inst is := by
        intro m hsize h
        exact h.mono fun _ is hs =>
          ⟨rd, dsize, .reg rs size, h0, h1, fun _ => hsize, .inl ⟨rs, size, rfl, hs⟩⟩
      cases kind with
      | movzx =>
        cases size with
        | b1 => exact hregs (.inl rfl) (emits_emitAndImmByte hd hs)
        | b2 => exact hregs (.inr rfl) (emits_emitAndImmWord hd hs)
        | b4 | b8 => exact Emits.fail
      | movsx =>
        cases size with
        | b1 => exact hregs (.inl rfl) (emits_emitSxtByte hs)
        | b2 => exact hregs (.inr rfl) (emits_emitSxtWord hs)
        | b4 | b8 => exact Emits.fail
      | movsxd => exact absurd rfl hkind
    | mem m => exact hload rd dsize _ h0 h1 rfl
    | ripRel d size => exact hload rd dsize _ h0 h1 rfl
    | _ => exact Emits.fail
  | _ => exact Emits.fail

theorem emits_liftMovsxd {inst : Inst} :
    Emits p (liftMovsxd inst) fun _ is => ExtendLifted .movsxd inst is := by
  unfold liftMovsxd
  refine Emits.bind (Emits.okOr fun dst h0 => Emits.bind (Emits.okOr fun src h1 => ?_))
  cases dst with
  | reg rd dsize =>
    cases src with
    | reg rs size =>
      refine (emits_emitSxtw_sets (hostReg_ne_31 rs)).mono fun _ is hs => ?_
      exact ⟨rd, dsize, .reg rs size, h0, h1, fun h => absurd rfl h, .inl ⟨rs, size, rfl, hs⟩⟩
    | _ => exact Emits.fail
  | _ => exact Emits.fail

theorem emits_lift_extend {legacy32 : Bool} {inst : Inst} {kind : ExtendKind}
    (h : inst.extendKind = some kind) :
    Emits p (lift legacy32 inst) fun _ is => ExtendLifted kind inst is := by
  unfold Inst.extendKind at h
  unfold lift
  split at h <;> cases h
  · rename_i hop
    rw [hop]
    exact emits_liftMovzxOrMovsx .movzx (by decide)
  · rename_i hop
    rw [hop]
    exact emits_liftMovzxOrMovsx .movsx (by decide)
  · rename_i hop
    rw [hop]
    exact emits_liftMovsxd

/-! ### When the code is right -/

theorem ExtendForm.code {kind : ExtendKind} {inst : Inst} {rd : GpReg} {src : Operand}
    {is : List (Option Insn)} (h : ExtendForm kind inst rd src is)
    (hfit : Fits src.memSize.bytes src.leftover) : ExtendCode kind inst rd src is := by
  rcases h with ⟨rs, size, rfl, hs⟩ | ⟨hkind, hmem, is₁, is₂, haddr, hs, rfl⟩
  · exact extendCode_of_sets hs
  · exact extendCode_of_load hkind hmem hfit haddr.1 hs

theorem OpSize.into_eq_self {size : OpSize} {old v : BitVec 64}
    (h : size = .b8 ∨ (size = .b4 ∧ v = OpSize.b4.zeroExtended v)) : size.into old v = v := by
  rcases h with rfl | ⟨rfl, hv⟩
  · rfl
  · exact hv.symm

/-- Fewer than 32 bits, zero-extended, are zero-extended from 32 bits too. -/
theorem zeroExtended_b4_zeroExtended {size : OpSize} (hsize : size = .b1 ∨ size = .b2)
    (v : BitVec 64) : size.zeroExtended v = OpSize.b4.zeroExtended (size.zeroExtended v) := by
  apply BitVec.eq_of_getLsbD_eq
  intro i hi
  have hle : 8 * size.bytes ≤ 8 * OpSize.b4.bytes := by
    rcases hsize with rfl | rfl <;> decide
  rw [OpSize.getLsbD_zeroExtended, OpSize.getLsbD_zeroExtended, OpSize.getLsbD_zeroExtended]
  by_cases h : i < 8 * size.bytes
  · simp [h, show i < 8 * OpSize.b4.bytes by omega]
  · simp [h]

theorem extendCorrect_of_ok {kind : ExtendKind} {inst : Inst} {rd : GpReg} {dsize : OpSize}
    {src : Operand} {ws : List Word} (hsize : kind ≠ .movsxd → src.memSize = .b1 ∨ src.memSize = .b2)
    (hcode : ExtendCode kind inst rd src (ws.map decode)) (hok : ExtendOk kind dsize src) :
    ExtendCorrect kind inst rd dsize src ws := by
  intro env s
  obtain ⟨s', hrun, hguest, hrest⟩ := hcode env s
  refine ⟨s', exec_of_runSeq hrun, ?_, hrest⟩
  rw [hguest]
  congr 1
  obtain ⟨hdst, -⟩ := hok
  cases kind with
  | movzx =>
    have hext := zeroExtended_b4_zeroExtended (hsize (by decide))
      (operandValue inst s src.memSize src)
    exact (OpSize.into_eq_self (hdst.symm.imp id fun h => ⟨h, hext⟩)).symm
  | movsx =>
    obtain rfl : dsize = .b8 := hdst
    rfl
  | movsxd =>
    obtain ⟨rfl, hsrc⟩ := hdst
    rw [hsrc]
    rfl

/-- Right code computes the right value. -/
theorem ExtendCorrect.codeResult_eq {kind : ExtendKind} {inst : Inst} {rd : GpReg} {dsize : OpSize}
    {src : Operand} {ws : List Word} (h : ExtendCorrect kind inst rd dsize src ws)
    (hcode : ExtendCode kind inst rd src (ws.map decode)) (s : State) :
    kind.codeResult src.memSize (operandValue inst s src.memSize src)
      = dsize.into (guest s rd) (kind.result src.memSize (operandValue inst s src.memSize src)) := by
  obtain ⟨s₁, hrun, hguest₁, -⟩ := hcode default s
  obtain ⟨s₂, hexec, hguest₂, -⟩ := h default s
  have heq := (exec_of_runSeq hrun).unique hexec
  rw [← heq, hguest₁] at hguest₂
  have hrd := congrFun hguest₂ rd
  rwa [Function.update_self, Function.update_self] at hrd

theorem operandValue_uniform {kind : ExtendKind} {inst : Inst} {rd : GpReg} {src : Operand}
    {is : List (Option Insn)} (h : ExtendForm kind inst rd src is) (v : BitVec 64) (b : BitVec 8) :
    operandValue inst (uniform v b) src.memSize src = v ∨
      kind ≠ .movsxd ∧ ∃ a, operandValue inst (uniform v b) src.memSize src
        = ByteMem.read 64 src.memSize.bytes (fun _ => b) a := by
  rcases h with ⟨rs, size, rfl, -⟩ | ⟨hkind, hmem, -⟩
  · exact .inl rfl
  · cases src with
    | reg r size => cases hmem
    | imm v size => cases hmem
    | _ => exact .inr ⟨hkind, _, rfl⟩

/-- The values that a load finds in memory of one byte. -/
theorem read_const (b : BitVec 8) (a : BitVec 64) :
    ByteMem.read 64 OpSize.b1.bytes (fun _ => b) a = b.setWidth 64 ∧
    ByteMem.read 64 OpSize.b2.bytes (fun _ => b) a = b.setWidth 64 ||| b.setWidth 64 <<< 8 := by
  constructor <;> simp [ByteMem.read, OpSize.bytes]

/-- Zero low bits under a set top bit: a destination of 8 or 16 bits would keep the top bit. -/
theorem dst_of_correct {kind : ExtendKind} {inst : Inst} {rd : GpReg} {dsize : OpSize}
    {src : Operand} {ws : List Word} (hsize : kind ≠ .movsxd → src.memSize = .b1 ∨ src.memSize = .b2)
    (hform : ExtendForm kind inst rd src (ws.map decode))
    (hfit : Fits src.memSize.bytes src.leftover) (h : ExtendCorrect kind inst rd dsize src ws) :
    dsize = .b4 ∨ dsize = .b8 := by
  have heq := h.codeResult_eq (hform.code hfit) (uniform 0x8000000000000000#64 0#8)
  have hzero : kind.codeResult src.memSize
      (operandValue inst (uniform 0x8000000000000000#64 0#8) src.memSize src) = 0 := by
    rcases operandValue_uniform hform 0x8000000000000000#64 0#8 with hv | ⟨hkind, a, hv⟩
    · rw [hv]
      cases kind with
      | movsxd => show OpSize.b4.signExtended _ = 0; decide
      | movzx => rcases hsize (by decide) with hs | hs <;> rw [hs] <;> decide
      | movsx => rcases hsize (by decide) with hs | hs <;> rw [hs] <;> decide
    · rw [hv]
      rcases hsize hkind with hs | hs
      · rw [hs, (read_const 0#8 a).1]
        cases kind <;> decide
      · rw [hs, (read_const 0#8 a).2]
        cases kind <;> decide
  rw [hzero] at heq
  have htop := congrArg (fun x => x.getLsbD 63) heq
  cases dsize with
  | b4 => exact .inl rfl
  | b8 => exact .inr rfl
  | b1 | b2 =>
    have hold : guest (uniform 0x8000000000000000#64 0#8) rd = 0x8000000000000000#64 := rfl
    simp [OpSize.into, hold] at htop

/-- A negative value: a destination of 32 bits would clear the upper half. -/
theorem ne_b4_of_correct {kind : ExtendKind} {inst : Inst} {rd : GpReg} {dsize : OpSize}
    {src : Operand} {ws : List Word} (hkind : kind ≠ .movzx)
    (hsize : kind ≠ .movsxd → src.memSize = .b1 ∨ src.memSize = .b2)
    (hform : ExtendForm kind inst rd src (ws.map decode))
    (hfit : Fits src.memSize.bytes src.leftover) (h : ExtendCorrect kind inst rd dsize src ws) :
    dsize ≠ .b4 := by
  rintro rfl
  have heq := h.codeResult_eq (hform.code hfit) (uniform 0x80008080#64 0x80#8)
  have hneg : (kind.codeResult src.memSize
      (operandValue inst (uniform 0x80008080#64 0x80#8) src.memSize src)).getLsbD 63 = true := by
    rcases operandValue_uniform hform 0x80008080#64 0x80#8 with hv | ⟨hne, a, hv⟩
    · rw [hv]
      cases kind with
      | movsxd => show (OpSize.b4.signExtended _).getLsbD 63 = true; decide
      | movzx => exact absurd rfl hkind
      | movsx => rcases hsize (by decide) with hs | hs <;> rw [hs] <;> decide
    · rw [hv]
      have hread := read_const 0x80#8 a
      cases kind with
      | movsxd => exact absurd rfl hne
      | movzx => exact absurd rfl hkind
      | movsx =>
        rcases hsize hne with hs | hs
        · rw [hs, hread.1]
          decide
        · rw [hs, hread.2]
          decide
  rw [heq, OpSize.into, OpSize.getLsbD_zeroExtended] at hneg
  simp [OpSize.bytes] at hneg

/-- An offset without an encoding: the load goes elsewhere, and finds zero there. -/
theorem fits_of_extendCorrect {kind : ExtendKind} {inst : Inst} {rd : GpReg} {dsize : OpSize}
    {src : Operand} {ws : List Word} (hsize : kind ≠ .movsxd → src.memSize = .b1 ∨ src.memSize = .b2)
    (hform : ExtendForm kind inst rd src (ws.map decode))
    (h : ExtendCorrect kind inst rd dsize src ws) : Fits src.memSize.bytes src.leftover := by
  rcases hform with ⟨rs, size, rfl, -⟩ | ⟨hkind, hmem, is₁, is₂, haddr, hs, hws⟩
  · exact fits_zero size
  by_contra hfit
  obtain ⟨s', hexec, hguest, -⟩ := h default (oneAt inst src default)
  have hlin : ∀ i, some i ∈ is₂ → i.isLinear = true := isLinear_of_runSeq (hs default 0 default)
  obtain ⟨pc, s₂, hrun, hlow, -⟩ := low_byte_of_unfit (fun _ _ => rfl)
    ⟨hostReg_ne_31 rd, hostReg_ne_16 rd⟩ hfit haddr hlin hws hexec rfl
  rw [hs, Option.some.injEq] at hrun
  have hone : operandValue inst (oneAt inst src default) src.memSize src = 1 := by
    rw [← memValue_oneAt inst src default]
    cases src with
    | reg r size => cases hmem
    | imm v size => cases hmem
    | _ => rfl
  have hrd := congrFun hguest rd
  rw [Function.update_self, hone, ← hrun] at hrd
  have hgot : (guest (s₂.writeX (hostReg rd) (kind.afterLoad src.memSize (s₂.x (hostReg rd)))) rd).setWidth 8
      = 0 := by
    rw [guest_writeX_hostReg, Function.update_self]
    cases kind with
    | movsxd => exact absurd rfl hkind
    | movzx => exact hlow
    | movsx => exact (low_signExtended _ _).trans hlow
  rw [hrd] at hgot
  have hold : guest (oneAt inst src default) rd = 0 := rfl
  rw [hold] at hgot
  revert hgot
  rcases hsize hkind with h8 | h8 <;> rw [h8] <;> cases kind <;> cases dsize <;> decide

/-! ### The sign of the accumulator -/

/-- What `CDQ` leaves in `RDX`: the accumulator is shifted by 3. -/
def cdqValue (a : BitVec 64) : BitVec 64 :=
  OpSize.b4.zeroExtended ((OpSize.b4.signExtended a).sshiftRight 3)

theorem sets_asr3 {r : Reg} (hr : r ≠ 31#5) :
    Sets r (fun s => (s.x r).sshiftRight 3) [some (.sbfm 3 63 r r)] := by
  intro env pc s
  show some (s.writeX r (A64.sbfm 3 63 (s.readX r))) = _
  rw [s.readX_of_ne _ hr]
  simp [A64.sbfm]

theorem sets_andLo32 {r : Reg} (hr : r ≠ 31#5) :
    Sets r (fun s => OpSize.b4.zeroExtended (s.x r)) [some (.andImm 31 r r)] := by
  intro env pc s
  dsimp only
  rw [s.writeX_of_ne _ _ hr, ← s.readX_of_ne _ hr,
    ← and_mask_zeroExtended (m := 0xFFFFFFFF#64) (by decide)]
  rfl

theorem emits_liftCdq :
    Emits p liftCdq fun _ is => Sets 2#5 (fun s => cdqValue (s.x 0#5)) is := by
  unfold liftCdq
  have hsxtw : Emits p (emitSxtw 2#5 0#5) fun _ is =>
      Sets 2#5 (fun s => OpSize.b4.signExtended (s.x 0#5)) is := emits_emitSxtw_sets (by decide)
  refine Emits.bind (hsxtw.mono fun _ is₁ hext => ?_)
  refine Emits.bind (Emits.push (Emits.push ?_))
  have hr : hostReg .rdx = 2#5 := rfl
  rw [hr, decode_asr3, decode_andImm_lo32]
  have h31 : (2#5 : Reg) ≠ 31#5 := by decide
  have hshift := hext.append h31 (g := fun x => x.sshiftRight 3) (sets_asr3 h31)
  have hmask := hshift.append h31 (g := fun x => OpSize.b4.zeroExtended x) (sets_andLo32 h31)
  rwa [List.append_assoc] at hmask

theorem signFill_eq_sshiftRight (v : BitVec 64) : OpSize.b8.signFill v = v.sshiftRight 63 := by
  have hfill : OpSize.b8.signFill v = if v.msb then -1 else 0 :=
    congrArg (fun x : BitVec 64 => if x.msb then (-1 : BitVec 64) else 0) (BitVec.setWidth_eq v)
  have hbit : ∀ i < 64, (v.sshiftRight 63).getLsbD i = v.msb := by
    intro i hi
    rw [BitVec.getLsbD_sshiftRight]
    by_cases hi0 : i = 0
    · subst hi0
      simp [BitVec.msb_eq_getLsbD_last]
    · simp [show ¬ 64 ≤ i by omega, show ¬ 63 + i < 64 by omega]
  rw [hfill]
  apply BitVec.eq_of_getLsbD_eq
  intro i hi
  rw [hbit i hi]
  by_cases h : v.msb = true
  · rw [if_pos h, h]
    show (-1#64).getLsbD i = true
    rw [BitVec.neg_one_eq_allOnes, BitVec.getLsbD_allOnes, decide_eq_true hi]
  · rw [if_neg h, BitVec.ofNat_eq_ofNat, BitVec.getLsbD_zero, Bool.eq_false_of_not_eq_true h]

theorem emits_liftCqo :
    Emits p liftCqo fun _ is => Sets 2#5 (fun s => OpSize.b8.signFill (s.x 0#5)) is := by
  unfold liftCqo
  refine Emits.push ?_
  rw [decode_sbfmWord]
  intro env pc s
  have hfill : A64.sbfm 63 63 (s.x 0#5) = OpSize.b8.signFill (s.x 0#5) := by
    rw [signFill_eq_sshiftRight]
    simp [A64.sbfm]
  dsimp only
  rw [← hfill]
  rfl

/-- The low half of a shifted sign extension is the shifted low half. -/
theorem zeroExtended_sshiftRight (v : BitVec 64) (n : Nat) :
    OpSize.b4.zeroExtended ((OpSize.b4.signExtended v).sshiftRight n)
      = ((v.setWidth 32).sshiftRight n).setWidth 64 := by
  apply BitVec.eq_of_getLsbD_eq
  intro i hi
  rw [OpSize.getLsbD_zeroExtended, BitVec.getLsbD_setWidth, BitVec.getLsbD_sshiftRight,
    BitVec.getLsbD_sshiftRight, OpSize.signExtended, BitVec.getLsbD_signExtend]
  by_cases h32 : i < 32
  · by_cases hlow : n + i < 32
    · simp [OpSize.bytes, h32, hlow, hi, show ¬ 64 ≤ i by omega, show ¬ 32 ≤ i by omega,
        show n + i < 64 by omega]
    · by_cases h64 : n + i < 64
      · simp [OpSize.bytes, h32, hlow, hi, h64, show ¬ 64 ≤ i by omega, show ¬ 32 ≤ i by omega]
      · simp [OpSize.bytes, h32, hlow, hi, h64, show ¬ 64 ≤ i by omega, show ¬ 32 ≤ i by omega,
          BitVec.msb_signExtend]
  · simp [OpSize.bytes, h32, show 32 ≤ i by omega]

theorem cdqValue_eq (a : BitVec 64) :
    cdqValue a = ((a.setWidth 32).sshiftRight 3).setWidth 64 :=
  zeroExtended_sshiftRight a 3

theorem sshiftRight_eq_fill (w : BitVec 32) :
    w.sshiftRight 3 = (if w.msb then -1 else 0) ↔ -8 ≤ w.toInt ∧ w.toInt < 8 := by
  have hshift : (w.sshiftRight 3).toInt = w.toInt / 8 := by
    rw [BitVec.toInt_sshiftRight, Int.shiftRight_eq_div_pow]
    rfl
  rw [← BitVec.toInt_inj, hshift, BitVec.msb_eq_toInt]
  by_cases hneg : w.toInt < 0
  · rw [decide_eq_true hneg, if_pos rfl]
    show w.toInt / 8 = -1 ↔ _
    omega
  · rw [decide_eq_false hneg, if_neg Bool.false_ne_true]
    show w.toInt / 8 = 0 ↔ _
    omega

/-- Code that sets `X2` fills `RDX` with the sign if and only if it sets that value. -/
theorem signFills_iff {size : OpSize} {f : State → BitVec 64} {ws : List Word}
    (h : Sets 2#5 f (ws.map decode)) (env : Env) (s : State) :
    (∃ s', Exec env ws s s' ∧ SignFills size s s') ↔
      f s = size.into (guest s .rdx) (size.signFill (guest s .rax)) := by
  have hexec := exec_of_runSeq (h env 0 s)
  have hguest := guest_writeX_hostReg s .rdx (f s)
  constructor
  · rintro ⟨s', hs', hg, -⟩
    rw [← hexec.unique hs'] at hg
    have hrdx := congrFun (hguest.symm.trans hg) .rdx
    rwa [Function.update_self, Function.update_self] at hrdx
  · intro hf
    refine ⟨_, hexec, ?_, by simp, by simp, by simp⟩
    rw [← hf]
    exact hguest

/-- `CDQ` is right from a state if and only if the accumulator is small there. -/
theorem cdq_signFills_iff {ws : List Word} (h : Sets 2#5 (fun s => cdqValue (s.x 0#5)) (ws.map decode))
    (env : Env) (s : State) :
    (∃ s', Exec env ws s s' ∧ SignFills .b4 s s') ↔
      -8 ≤ ((guest s .rax).setWidth 32).toInt ∧ ((guest s .rax).setWidth 32).toInt < 8 := by
  have hfill : OpSize.b4.into (guest s .rdx) (OpSize.b4.signFill (guest s .rax))
      = (if ((guest s .rax).setWidth 32).msb then (-1 : BitVec 32) else 0).setWidth 64 := by
    show (OpSize.b4.zeroExtended (if ((guest s .rax).setWidth 32).msb then -1 else 0)) = _
    cases ((guest s .rax).setWidth 32).msb <;> decide
  have hvalue : cdqValue (s.x 0#5) = (((guest s .rax).setWidth 32).sshiftRight 3).setWidth 64 :=
    cdqValue_eq _
  rw [signFills_iff h env s, hfill, hvalue, ← sshiftRight_eq_fill]
  constructor
  · intro heq
    have hlow := congrArg (BitVec.setWidth 32) heq
    rwa [BitVec.setWidth_setWidth_of_le _ (by decide), BitVec.setWidth_setWidth_of_le _ (by decide),
      BitVec.setWidth_eq, BitVec.setWidth_eq] at hlow
  · intro heq
    rw [heq]

/-! ### The exact condition -/

/-- A source of another size than 32 bits: `MOVSXD` extends 32 bits of it all the same. -/
theorem memSize_of_movsxdCorrect {inst : Inst} {rd : GpReg} {src : Operand} {ws : List Word}
    (hform : ExtendForm .movsxd inst rd src (ws.map decode))
    (h : ExtendCorrect .movsxd inst rd .b8 src ws) : src.memSize = .b4 := by
  rcases hform with ⟨rs, size, rfl, hs⟩ | ⟨hkind, -⟩
  · have hcode : ExtendCode .movsxd inst rd (.reg rs size) (ws.map decode) := extendCode_of_sets hs
    have heq : ∀ v : BitVec 64, OpSize.b4.signExtended v = size.signExtended v := fun v =>
      h.codeResult_eq hcode (uniform v 0#8)
    cases size with
    | b1 => exact absurd (heq 0x80#64) (by decide)
    | b2 => exact absurd (heq 0x8000#64) (by decide)
    | b4 => rfl
    | b8 => exact absurd (heq 0x100000000#64) (by decide)
  · exact absurd rfl hkind

theorem extendOk_of_correct {kind : ExtendKind} {inst : Inst} {rd : GpReg} {dsize : OpSize}
    {src : Operand} {ws : List Word} (hsize : kind ≠ .movsxd → src.memSize = .b1 ∨ src.memSize = .b2)
    (hform : ExtendForm kind inst rd src (ws.map decode))
    (h : ExtendCorrect kind inst rd dsize src ws) : ExtendOk kind dsize src := by
  have hfit := fits_of_extendCorrect hsize hform h
  have hdst := dst_of_correct hsize hform hfit h
  have hwide : kind ≠ .movzx → dsize = .b8 := fun hkind =>
    hdst.resolve_left (ne_b4_of_correct hkind hsize hform hfit h)
  refine ⟨?_, hfit⟩
  cases kind with
  | movzx => exact hdst
  | movsx => exact hwide (by decide)
  | movsxd =>
    obtain rfl := hwide (by decide)
    exact ⟨rfl, memSize_of_movsxdCorrect hform h⟩

/-- **Sign and zero extension.**  The code of `MOVZX`, `MOVSX` and `MOVSXD` gives the extension of the
source, with the upper bits that the destination size asks for, if and only if the operands are those of
`ExtendOk`.  `CDQ` is right in the states whose accumulator is at least -8 and below 8, and `CQO` in every
state. -/
theorem extend_correct_iff (p : Profile) (legacy32 : Bool) (inst : Inst) (ws : List Word)
    (hws : compile p (lift legacy32 inst) = some ws) :
    (∀ kind, inst.extendKind = some kind → ∃ rd dsize src,
      inst.operand0 = some (.reg rd dsize) ∧ inst.operand1 = some src ∧
      (ExtendCorrect kind inst rd dsize src ws ↔ ExtendOk kind dsize src)) ∧
    (inst.op = .cdq → ∀ env s, (∃ s', Exec env ws s s' ∧ SignFills .b4 s s') ↔
      -8 ≤ ((guest s .rax).setWidth 32).toInt ∧ ((guest s .rax).setWidth 32).toInt < 8) ∧
    (inst.op = .cqo → ∀ env s, ∃ s', Exec env ws s s' ∧ SignFills .b8 s s') := by
  refine ⟨fun kind hkind => ?_, fun hop => ?_, fun hop => ?_⟩
  · obtain ⟨-, rd, dsize, src, h0, h1, hsize, hform⟩ := (emits_lift_extend hkind).of_compile hws
    refine ⟨rd, dsize, src, h0, h1, extendOk_of_correct hsize hform, fun hok => ?_⟩
    exact extendCorrect_of_ok hsize (hform.code hok.2) hok
  · have hcdq : lift legacy32 inst = liftCdq := by
      unfold lift
      rw [hop]
    rw [hcdq] at hws
    obtain ⟨-, hsets⟩ := emits_liftCdq.of_compile hws
    exact cdq_signFills_iff hsets
  · have hcqo : lift legacy32 inst = liftCqo := by
      unfold lift
      rw [hop]
    rw [hcqo] at hws
    obtain ⟨-, hsets⟩ := emits_liftCqo.of_compile hws
    exact fun env s => (signFills_iff hsets env s).mpr rfl

/-- `MOVZX EAX, CL`. -/
theorem extend_correct_iff_movzx : ∃ inst ws,
    decodeNext true 0x1000 [0x0F, 0xB6, 0xC1] = .ok (inst, []) ∧
    compile ⟨true⟩ (lift false inst) = some ws ∧
    ExtendCorrect .movzx inst .rax .b4 (.reg .rcx .b1) ws := by
  obtain ⟨inst, hdec, hkind, h0, h1, ws, hws⟩ : ∃ inst,
      decodeNext true 0x1000 [0x0F, 0xB6, 0xC1] = .ok (inst, []) ∧ inst.extendKind = some .movzx ∧
      inst.operand0 = some (.reg .rax .b4) ∧ inst.operand1 = some (.reg .rcx .b1) ∧
      ∃ ws, compile ⟨true⟩ (lift false inst) = some ws := ⟨_, rfl, rfl, rfl, rfl, _, rfl⟩
  refine ⟨inst, ws, hdec, hws, ?_⟩
  obtain ⟨rd, dsize, src, h0', h1', hiff⟩ :=
    (extend_correct_iff ⟨true⟩ false inst ws hws).1 .movzx hkind
  obtain ⟨rfl, rfl⟩ : rd = .rax ∧ dsize = .b4 := by
    rw [h0] at h0'
    cases h0'
    exact ⟨rfl, rfl⟩
  obtain rfl : src = .reg .rcx .b1 := by
    rw [h1] at h1'
    exact (Option.some.inj h1').symm
  exact hiff.mpr ⟨.inl rfl, fits_zero .b1⟩

/-- The bytes decode to an extension that every profile translates, and none to right code. -/
def ExtendWrong (bytes : List Byte) : Prop :=
  ∃ inst kind rd dsize src, decodeNext true 0x1000 bytes = .ok (inst, []) ∧
    inst.extendKind = some kind ∧ inst.operand0 = some (.reg rd dsize) ∧ inst.operand1 = some src ∧
    ∀ p, ∃ ws, compile p (lift false inst) = some ws ∧ ¬ ExtendCorrect kind inst rd dsize src ws

theorem extendWrong_of_not_ok {bytes : List Byte} {inst : Inst} {kind : ExtendKind} {rd : GpReg}
    {dsize : OpSize} {src : Operand} (hdec : decodeNext true 0x1000 bytes = .ok (inst, []))
    (hkind : inst.extendKind = some kind) (h0 : inst.operand0 = some (.reg rd dsize))
    (h1 : inst.operand1 = some src) (hws : ∀ p, ∃ ws, compile p (lift false inst) = some ws)
    (hok : ¬ ExtendOk kind dsize src) : ExtendWrong bytes := by
  refine ⟨inst, kind, rd, dsize, src, hdec, hkind, h0, h1, fun p => ?_⟩
  obtain ⟨ws, hp⟩ := hws p
  refine ⟨ws, hp, fun hc => hok ?_⟩
  obtain ⟨-, rd', dsize', src', h0', h1', hsize, hform⟩ := (emits_lift_extend hkind).of_compile hp
  rw [h0, Option.some.injEq] at h0'
  rw [h1, Option.some.injEq] at h1'
  cases h0'
  cases h1'
  exact extendOk_of_correct hsize hform hc

/-- `CDQ` with 8 in `EAX`; `MOVSX EAX, CL`, `MOVZX AX, CL` and `MOVSXD EAX, ECX`. -/
theorem extend_wrong :
    (∃ inst, decodeNext true 0x1000 [0x99] = .ok (inst, []) ∧ inst.op = .cdq ∧
      ∀ p, ∃ ws, compile p (lift false inst) = some ws ∧
        ∀ env, ¬ ∃ s', Exec env ws (uniform 8 0) s' ∧ SignFills .b4 (uniform 8 0) s') ∧
    ExtendWrong [0x0F, 0xBE, 0xC1] ∧ ExtendWrong [0x66, 0x0F, 0xB6, 0xC1] ∧ ExtendWrong [0x63, 0xC1] := by
  refine ⟨⟨_, rfl, rfl, fun p => ?_⟩, extendWrong_of_not_ok rfl rfl rfl rfl (fun p => ⟨_, rfl⟩) ?_,
    extendWrong_of_not_ok rfl rfl rfl rfl (fun p => ⟨_, rfl⟩) ?_,
    extendWrong_of_not_ok rfl rfl rfl rfl (fun p => ⟨_, rfl⟩) ?_⟩
  · obtain ⟨ws, hws⟩ : ∃ ws, compile p liftCdq = some ws := ⟨_, rfl⟩
    obtain ⟨-, hsets⟩ := emits_liftCdq.of_compile hws
    refine ⟨ws, hws, fun env h => ?_⟩
    have hsmall := (cdq_signFills_iff hsets env _).mp h
    exact absurd hsmall.2 (by decide)
  · exact fun h => OpSize.noConfusion h.1
  · exact fun h => h.1.elim OpSize.noConfusion OpSize.noConfusion
  · exact fun h => OpSize.noConfusion h.1.1

end Quantum.Jit
