import Quantum.Jit.Decoder
import Quantum.Jit.Equiv.Extend

/-!
# Shifts and rotates

The host shifts the whole register, and takes the count modulo 64.  That is right for 64-bit operands.  For
narrower ones the bits above the operand are shifted in, and a count in `CL` is not reduced modulo 32.
`shift_correct_iff` says when the result is that of the architecture.
-/

namespace Quantum.Jit

open A64

variable {p : Profile}

/-! ### What the instructions do -/

inductive ShiftOp where
  | shl | shr | sar | rol | ror
  deriving DecidableEq

def Inst.shiftOp (inst : Inst) : Option ShiftOp :=
  match inst.op with
  | .shl => some .shl
  | .shr => some .shr
  | .sar => some .sar
  | .rol => some .rol
  | .ror => some .ror
  | _ => none

/-- The shift of a value of any width. -/
def ShiftOp.shift (op : ShiftOp) {w : Nat} (v : BitVec w) (count : Nat) : BitVec w :=
  match op with
  | .shl => v <<< count
  | .shr => v >>> count
  | .sar => v.sshiftRight count
  | .rol => v.rotateLeft count
  | .ror => v.rotateRight count

/-- The bits of the operand size, shifted. -/
def ShiftOp.result (op : ShiftOp) (size : OpSize) (v : BitVec 64) (count : Nat) : BitVec 64 :=
  (op.shift (v.setWidth (8 * size.bytes)) count).setWidth 64

/-- The count: an immediate or `CL`, modulo 32 or, for 64-bit operands, 64. -/
def shiftCount (size : OpSize) (amt : Operand) (s : State) : Nat :=
  (match amt with
    | .imm imm _ => imm.toNat
    | _ => ((guest s .rcx).setWidth 8).toNat) % (if size = .b8 then 64 else 32)

/-- From every state the code shifts the destination, and changes no other register and no memory. -/
def ShiftCorrect (op : ShiftOp) (rd : GpReg) (size : OpSize) (amt : Operand) (ws : List Word) : Prop :=
  ∀ env s, ∃ s', Exec env ws s s' ∧
    guest s' = Function.update (guest s) rd (size.into (guest s rd)
      (op.result size (guest s rd) (shiftCount size amt s))) ∧
    s'.mem = s.mem ∧ s'.v = s.v

/-- The operands for which the result comes out right. -/
def ShiftOk (op : ShiftOp) (size : OpSize) (amt : Operand) : Prop :=
  size = .b8 ∨ ∃ imm n, amt = .imm imm n ∧
    (imm.toNat % 32 = 0 ∨ size = .b4 ∧ (op = .shl ∨ op = .sar))

/-! ### What the code does -/

/-- The count that the host gets, modulo 64. -/
def ShiftOp.hostCount (op : ShiftOp) (size : OpSize) (amt : Operand) (s : State) : Nat :=
  match amt with
  | .imm imm _ => (rotateCount size (op = .rol) imm).toNat
  | _ =>
    if op = .rol then (((rotateWidth size).setWidth 64 - guest s .rcx).toNat) % 64
    else (guest s .rcx).toNat % 64

/-- The host's shift of the 64 bits, before the mask. -/
def ShiftOp.host (op : ShiftOp) (size : OpSize) (v : BitVec 64) (count : Nat) : BitVec 64 :=
  match op with
  | .shl => v <<< count
  | .shr => v >>> count
  | .sar => (if size = .b4 then OpSize.b4.signExtended v else v).sshiftRight count
  | .rol | .ror => v.rotateRight count

def ShiftOp.hostResult (op : ShiftOp) (size : OpSize) (v : BitVec 64) (count : Nat) : BitVec 64 :=
  maskVal size (op.host size v count)

/-- The code leaves the count in `r`, modulo 64, and may clobber `X16` and the flags. -/
def AmountCode (r : Reg) (count : State → Nat) (is : List (Option Insn)) : Prop :=
  ∀ env pc s, ∃ s', runSeq env pc is s = some s' ∧ (s'.x r).toNat % 64 = count s ∧
    guest s' = guest s ∧ s'.mem = s.mem ∧ s'.v = s.v

theorem rotateCount_lt (size : OpSize) (rol : Bool) (imm : BitVec 64) :
    (rotateCount size rol imm).toNat < 64 := by
  have hmask : (countMask size).toNat < 64 := by
    cases size <;> decide
  unfold rotateCount
  dsimp only
  split
  · rw [BitVec.toNat_and, BitVec.toNat_setWidth]
    exact Nat.lt_of_le_of_lt Nat.and_le_right (by omega)
  · rw [BitVec.toNat_setWidth, BitVec.toNat_and]
    exact Nat.lt_of_le_of_lt (Nat.mod_le _ _) (Nat.lt_of_le_of_lt Nat.and_le_right hmask)

theorem toNat_and_countMask (size : OpSize) (imm : BitVec 64) :
    (imm &&& countMask size).toNat = imm.toNat % (if size = .b8 then 64 else 32) := by
  rw [BitVec.toNat_and]
  cases size with
  | b8 => exact Nat.and_two_pow_sub_one_eq_mod imm.toNat 6
  | _ => exact Nat.and_two_pow_sub_one_eq_mod imm.toNat 5

theorem toNat_and_countMask_lt (size : OpSize) (imm : BitVec 64) :
    (imm &&& countMask size).toNat < 64 := by
  rw [toNat_and_countMask]
  split <;> omega

theorem toNat_rotateCount_false (size : OpSize) (imm : BitVec 64) :
    (rotateCount size false imm).toNat = (imm &&& countMask size).toNat := by
  have hlt := toNat_and_countMask_lt size imm
  show ((imm &&& countMask size).setWidth 32).toNat = _
  rw [BitVec.toNat_setWidth]
  omega

theorem toNat_setWidth_countMask (size : OpSize) (imm : BitVec 64) :
    ((imm &&& countMask size).setWidth 16).toNat % 64 = (imm &&& countMask size).toNat := by
  have hlt := toNat_and_countMask_lt size imm
  rw [BitVec.toNat_setWidth]
  omega

/-- A constant count. -/
theorem emits_amount_imm (imm : BitVec 16) :
    Emits p (do movz64 16 imm 0; pure 16 : LiftM Reg) fun r is =>
      r = 16#5 ∧ AmountCode r (fun _ => imm.toNat % 64) is := by
  refine Emits.bind ((emits_movz64_sets imm).mono fun _ is hset => Emits.pure ⟨rfl, ?_⟩)
  rw [List.append_nil]
  intro env pc s
  refine ⟨_, hset env pc s, ?_, by simp, by simp, by simp⟩
  have hval : (s.writeX 16#5 (imm.setWidth 64)).x 16#5 = imm.setWidth 64 := by simp
  show ((s.writeX 16#5 (imm.setWidth 64)).x 16#5).toNat % 64 = imm.toNat % 64
  rw [hval, BitVec.toNat_setWidth_of_le (by decide)]

/-- The count in `CL` itself. -/
theorem amountCode_rcx : AmountCode (hostReg .rcx) (fun s => (guest s .rcx).toNat % 64) [] :=
  fun _ _ s => ⟨s, rfl, rfl, rfl, rfl, rfl⟩

/-- The count to rotate right by, for a rotate left by `CL`. -/
theorem emits_amount_rol (size : OpSize) :
    Emits p (do
      movz64 16 ((rotateWidth size).setWidth 16) 0
      subs64 16 16 (hostReg .rcx)
      pure 16 : LiftM Reg) fun r is => r = 16#5 ∧ AmountCode r
        (fun s => ((rotateWidth size).setWidth 64 - guest s .rcx).toNat % 64) is := by
  refine Emits.bind ((emits_movz64_sets _).mono fun _ is hset => ?_)
  refine Emits.bind (emits_subs64 (Emits.pure ⟨rfl, ?_⟩))
  have hwidth : ((rotateWidth size).setWidth 16).setWidth 64 = (rotateWidth size).setWidth 64 := by
    cases size <;> decide
  intro env pc s
  rw [hwidth] at hset
  -- the state between the two instructions
  obtain ⟨t, ht⟩ : ∃ t, t = s.writeX 16#5 ((rotateWidth size).setWidth 64) := ⟨_, rfl⟩
  have hmov : runSeq env pc is s = some t := (hset env pc s).trans (congrArg some ht.symm)
  have hguest : guest t = guest s := by rw [ht, guest_writeX_16]
  have hrcx : t.readX (hostReg .rcx) = guest s .rcx :=
    (t.readX_of_ne _ (hostReg_ne_31 .rcx)).trans (congrFun hguest .rcx)
  have h16 : t.readX 16#5 = (rotateWidth size).setWidth 64 := by
    rw [t.readX_of_ne _ (by decide), ht]
    simp
  obtain ⟨f, hsub⟩ : ∃ f, execOne env (pc + is.length) (.addSubShift true true (hostReg .rcx) 0 16 16) t
      = some { t.writeX 16#5 (t.readX 16#5 - t.readX (hostReg .rcx)) with nzcv := f } :=
    ⟨_, execOne_subs64 t (hostReg .rcx) 16#5 16#5⟩
  rw [h16, hrcx] at hsub
  rw [List.append_nil, runSeq_append, hmov, Option.bind_some, runSeq_cons, hsub]
  have hguest' := guest_writeX_16 t ((rotateWidth size).setWidth 64 - guest s .rcx)
  refine ⟨_, rfl, ?_, hguest'.trans hguest, ?_, ?_⟩
  · show ((t.writeX 16#5 ((rotateWidth size).setWidth 64 - guest s .rcx)).x 16#5).toNat % 64 = _
    simp
  · show (t.writeX 16#5 ((rotateWidth size).setWidth 64 - guest s .rcx)).mem = _
    rw [State.writeX_mem, ht, State.writeX_mem]
  · show (t.writeX 16#5 ((rotateWidth size).setWidth 64 - guest s .rcx)).v = _
    rw [State.writeX_v, ht, State.writeX_v]

/-! ### The shift -/

/-- Every instruction of the shift, for a count in `r`. -/
def ShiftBlock (op : ShiftOp) (size : OpSize) (hd r : Reg) (is : List (Option Insn)) : Prop :=
  Sets hd (fun s => op.hostResult size (s.x hd) ((s.x r).toNat % 64)) is

theorem sets_dp2 {op : Dp2Op} {rm rd : Reg} (hrm : rm ≠ 31#5) (hrd : rd ≠ 31#5) :
    Sets rd (fun s => execDp2 op (s.x rd) (s.x rm)) [some (.dp2 op rm rd rd)] := by
  intro env pc s
  show some (s.writeX rd (execDp2 op (s.readX rd) (s.readX rm))) = _
  rw [s.readX_of_ne _ hrd, s.readX_of_ne _ hrm]

/-- A host shift and the mask. -/
theorem emits_shift_mask {w : Word} {op : Dp2Op} {size : OpSize} {hd r : Reg} (hr : r ≠ 31#5)
    (hd31 : hd ≠ 31#5) (hw : decode w = some (.dp2 op r hd hd)) :
    Emits p (do EmitM.push w; maskB4 size hd : LiftM Unit) fun _ is =>
      Sets hd (fun s => maskVal size (execDp2 op (s.x hd) (s.x r))) is := by
  refine Emits.bind (Emits.push (emits_maskB4 hd31 fun is hmask => ?_))
  rw [hw]
  exact (sets_dp2 hr hd31).append hd31 hmask

/-- The sign extension does not change the count, when the destination holds it. -/
theorem toNat_signExtended_mod (v : BitVec 64) : (OpSize.b4.signExtended v).toNat % 64 = v.toNat % 64 := by
  have hlow : (OpSize.b4.signExtended v).setWidth 6 = v.setWidth 6 := by
    apply BitVec.eq_of_getLsbD_eq
    intro i hi
    have h32 : i < 8 * OpSize.b4.bytes := by
      simp only [OpSize.bytes]
      omega
    rw [BitVec.getLsbD_setWidth, BitVec.getLsbD_setWidth, OpSize.getLsbD_signExtended_of_lt h32]
  have hnat := congrArg BitVec.toNat hlow
  rwa [BitVec.toNat_setWidth, BitVec.toNat_setWidth] at hnat

theorem shiftBlock_sar_b4 {hd r : Reg} {is js : List (Option Insn)} (hd31 : hd ≠ 31#5)
    (hext : Sets hd (fun s => OpSize.b4.signExtended (s.x hd)) is)
    (hshift : Sets hd (fun s => maskVal .b4 (execDp2 .asrv (s.x hd) (s.x r))) js) :
    ShiftBlock .sar .b4 hd r (is ++ js) := by
  intro env pc s
  have hval : (s.writeX hd (OpSize.b4.signExtended (s.x hd))).x hd = OpSize.b4.signExtended (s.x hd) := by
    rw [State.x_writeX, if_pos ⟨rfl, hd31⟩]
  have hcount : ((s.writeX hd (OpSize.b4.signExtended (s.x hd))).x r).toNat % 64 = (s.x r).toNat % 64 := by
    by_cases hr : r = hd
    · rw [hr, hval, toNat_signExtended_mod]
    · rw [State.x_writeX, if_neg fun h => hr h.1]
  rw [runSeq_append, hext, Option.bind_some, hshift, writeX_writeX_self]
  dsimp only [execDp2]
  rw [hval, hcount]
  rfl

/-- The direction of a shift. -/
def ShiftOp.ofDir : ShiftDir → ShiftOp
  | .left => .shl
  | .right => .shr
  | .arithRight => .sar

theorem shiftBlock_sar {size : OpSize} {hd r : Reg} {is : List (Option Insn)} (hb4 : size ≠ .b4)
    (h : Sets hd (fun s => maskVal size (execDp2 .asrv (s.x hd) (s.x r))) is) :
    ShiftBlock .sar size hd r is := by
  intro env pc s
  rw [h]
  simp only [ShiftOp.hostResult, ShiftOp.host, execDp2, if_neg hb4]

/-! ### The lift -/

/-- The operands of an instruction that has code. -/
def ShiftForm (inst : Inst) (rd : GpReg) (size : OpSize) (amt : Operand) : Prop :=
  inst.operand0 = some (.reg rd size) ∧ inst.operand1 = some amt ∧
    ((∃ imm n, amt = .imm imm n) ∨ ∃ n, amt = .reg .rcx n)

/-- The code shifts the destination by what the host makes of the count. -/
def ShiftCode (op : ShiftOp) (rd : GpReg) (size : OpSize) (amt : Operand)
    (is : List (Option Insn)) : Prop :=
  ∀ env s, ∃ s', runSeq env 0 is s = some s' ∧
    guest s' = Function.update (guest s) rd (op.hostResult size (guest s rd) (op.hostCount size amt s)) ∧
    s'.mem = s.mem ∧ s'.v = s.v

theorem shiftCode_of_blocks {op : ShiftOp} {rd : GpReg} {size : OpSize} {amt : Operand} {r : Reg}
    {is js : List (Option Insn)} (hamt : AmountCode r (op.hostCount size amt) is)
    (hblock : ShiftBlock op size (hostReg rd) r js) : ShiftCode op rd size amt (is ++ js) := by
  intro env s
  obtain ⟨t, hrun, hcount, hguest, hmem, hv⟩ := hamt env 0 s
  refine ⟨_, by rw [runSeq_append, hrun, Option.bind_some, hblock], ?_, ?_, ?_⟩
  · have hold : t.x (hostReg rd) = guest s rd := congrFun hguest rd
    rw [guest_writeX_hostReg, hguest]
    dsimp only
    rw [hcount, hold]
  · rw [State.writeX_mem, hmem]
  · rw [State.writeX_v, hv]

/-- The two kinds of counts of a shift. -/
theorem emits_shiftAmount {inst : Inst} {size : OpSize} {amt : Operand} {op : ShiftOp} (hop : op ≠ .rol) :
    Emits p (shiftAmount inst size amt) fun r is =>
      ((∃ imm n, amt = .imm imm n) ∨ ∃ n, amt = .reg .rcx n) ∧ r ≠ 31#5 ∧
        AmountCode r (op.hostCount size amt) is := by
  unfold shiftAmount
  split
  · rename_i imm n
    refine (emits_amount_imm _).mono ?_
    rintro r is ⟨rfl, hamt⟩
    refine ⟨.inl ⟨imm, n, rfl⟩, by decide, ?_⟩
    have hcount : ShiftOp.hostCount op size (.imm imm n)
        = fun _ => ((imm &&& countMask size).setWidth 16).toNat % 64 := by
      funext s
      show (rotateCount size (decide (op = .rol)) imm).toNat = _
      rw [decide_eq_false hop, toNat_rotateCount_false, toNat_setWidth_countMask]
    rw [hcount]
    exact hamt
  · rename_i n
    refine Emits.pure ⟨.inr ⟨n, rfl⟩, hostReg_ne_31 .rcx, ?_⟩
    have hcount : ShiftOp.hostCount op size (.reg .rcx n) = fun s => (guest s .rcx).toNat % 64 := by
      funext s
      exact if_neg hop
    rw [hcount]
    exact amountCode_rcx
  · exact Emits.fail

/-- The rotate to the left or to the right. -/
def ShiftOp.ofRol (rol : Bool) : ShiftOp := if rol then .rol else .ror

theorem emits_rotateAmount {inst : Inst} {size : OpSize} {amt : Operand} (rol : Bool) :
    Emits p (rotateAmount inst size rol amt) fun r is =>
      ((∃ imm n, amt = .imm imm n) ∨ ∃ n, amt = .reg .rcx n) ∧ r ≠ 31#5 ∧
        AmountCode r ((ShiftOp.ofRol rol).hostCount size amt) is := by
  unfold rotateAmount
  split
  · rename_i imm n
    refine (emits_amount_imm _).mono ?_
    rintro r is ⟨rfl, hamt⟩
    refine ⟨.inl ⟨imm, n, rfl⟩, by decide, ?_⟩
    have hcount : ShiftOp.hostCount (.ofRol rol) size (.imm imm n)
        = fun _ => ((rotateCount size rol imm).setWidth 16).toNat % 64 := by
      funext s
      have hlt := rotateCount_lt size rol imm
      have hrol : decide (ShiftOp.ofRol rol = .rol) = rol := by
        cases rol <;> rfl
      show (rotateCount size (decide (ShiftOp.ofRol rol = .rol)) imm).toNat = _
      rw [hrol, BitVec.toNat_setWidth]
      omega
    rw [hcount]
    exact hamt
  · rename_i n
    cases rol with
    | true =>
      refine (emits_amount_rol size).mono ?_
      rintro r is ⟨rfl, hamt⟩
      exact ⟨.inr ⟨n, rfl⟩, by decide, hamt⟩
    | false => exact Emits.pure ⟨.inr ⟨n, rfl⟩, hostReg_ne_31 .rcx, amountCode_rcx⟩
  · exact Emits.fail

/-- An instruction that has code, its operands, and what the code does. -/
def ShiftLifted (op : ShiftOp) (inst : Inst) (is : List (Option Insn)) : Prop :=
  ∃ rd size amt, ShiftForm inst rd size amt ∧ ShiftCode op rd size amt is

theorem emits_liftShift {inst : Inst} (dir : ShiftDir) :
    Emits p (liftShift inst dir) fun _ is => ShiftLifted (.ofDir dir) inst is := by
  unfold liftShift
  refine Emits.bind (Emits.okOr fun dst h0 => Emits.bind (Emits.okOr fun amt h1 => ?_))
  cases dst with
  | reg rd size =>
    have hop : ShiftOp.ofDir dir ≠ .rol := by
      cases dir <;> decide
    refine Emits.bind ((emits_shiftAmount hop).mono ?_)
    rintro r is ⟨hamt, hr, hcode⟩
    have hd31 := hostReg_ne_31 rd
    have hlifted : ∀ js, ShiftBlock (.ofDir dir) size (hostReg rd) r js →
        ShiftLifted (.ofDir dir) inst (is ++ js) := fun js hblock =>
      ⟨rd, size, amt, ⟨h0, h1, hamt⟩, shiftCode_of_blocks hcode hblock⟩
    dsimp only
    by_cases hsar : dir = .arithRight ∧ size = .b4
    · obtain ⟨rfl, rfl⟩ := hsar
      rw [if_pos ⟨rfl, rfl⟩]
      refine Emits.bind ((emits_emitSxtw_sets hd31).mono fun _ js hext => ?_)
      exact (emits_shift_mask hr hd31 (decode_asrv64 r _ _)).mono fun _ ks hshift =>
        hlifted _ (shiftBlock_sar_b4 hd31 hext hshift)
    · rw [if_neg hsar]
      refine Emits.bind (Emits.pure ?_)
      cases dir with
      | left =>
        exact (emits_shift_mask hr hd31 (decode_lslv64 r _ _)).mono fun _ js h => hlifted js h
      | right =>
        exact (emits_shift_mask hr hd31 (decode_lsrv64 r _ _)).mono fun _ js h => hlifted js h
      | arithRight =>
        have hb4 : size ≠ .b4 := fun h => hsar ⟨rfl, h⟩
        exact (emits_shift_mask hr hd31 (decode_asrv64 r _ _)).mono fun _ js h =>
          hlifted js (shiftBlock_sar hb4 h)
  | _ => exact Emits.fail

theorem emits_liftRotate {inst : Inst} (rol : Bool) :
    Emits p (liftRotate inst rol) fun _ is => ShiftLifted (.ofRol rol) inst is := by
  unfold liftRotate
  refine Emits.bind (Emits.okOr fun dst h0 => Emits.bind (Emits.okOr fun amt h1 => ?_))
  cases dst with
  | reg rd size =>
    refine Emits.bind ((emits_rotateAmount rol).mono ?_)
    rintro r is ⟨hamt, hr, hcode⟩
    have hd31 := hostReg_ne_31 rd
    refine (emits_shift_mask hr hd31 (decode_rorv64 r _ _)).mono fun _ js h => ?_
    have hblock : ShiftBlock (.ofRol rol) size (hostReg rd) r js := by
      cases rol <;> exact h
    have hshift := shiftCode_of_blocks hcode hblock
    exact ⟨rd, size, amt, ⟨h0, h1, hamt⟩, hshift⟩
  | _ => exact Emits.fail

theorem emits_lift_shift {legacy32 : Bool} {inst : Inst} {op : ShiftOp} (h : inst.shiftOp = some op) :
    Emits p (lift legacy32 inst) fun _ is => ShiftLifted op inst is := by
  unfold Inst.shiftOp at h
  unfold lift
  split at h <;> cases h <;> rename_i hop <;> rw [hop]
  · exact emits_liftShift .left
  · exact emits_liftShift .right
  · exact emits_liftShift .arithRight
  · exact emits_liftRotate true
  · exact emits_liftRotate false

/-! ### When the code is right -/

theorem ShiftOp.result_b8 (op : ShiftOp) (v : BitVec 64) (count : Nat) :
    op.result .b8 v count = op.shift v count := by
  have hwidth : op.result .b8 v count = (op.shift (v.setWidth 64) count).setWidth 64 := rfl
  rw [hwidth, BitVec.setWidth_eq, BitVec.setWidth_eq]

/-- A rotate to the left, as one to the right. -/
theorem rotateRight_sub (v : BitVec 64) {n : Nat} (hn : n < 64) :
    v.rotateRight ((64 - n) % 64) = v.rotateLeft n := by
  rw [BitVec.rotateRight_def, BitVec.rotateLeft_def, Nat.mod_mod, Nat.mod_eq_of_lt hn, BitVec.or_comm]
  by_cases h0 : n = 0
  · subst h0
    simp [BitVec.ushiftRight_eq_zero]
  · rw [Nat.mod_eq_of_lt (by omega), Nat.sub_sub_self (Nat.le_of_lt hn)]

/-- The constant count of a rotate to the left. -/
theorem toNat_rotateCount_true (size : OpSize) (imm : BitVec 64) :
    (rotateCount size true imm).toNat
      = ((if size = .b8 then 64 else 32) - imm.toNat % (if size = .b8 then 64 else 32))
        % (if size = .b8 then 64 else 32) := by
  have hn := toNat_and_countMask size imm
  have hlt := toNat_and_countMask_lt size imm
  have hsub : ((rotateWidth size - (imm &&& countMask size).setWidth 32)
      &&& (countMask size).setWidth 32).toNat
      = ((rotateWidth size - (imm &&& countMask size).setWidth 32).toNat)
        % (if size = .b8 then 64 else 32) := by
    rw [BitVec.toNat_and]
    cases size with
    | b8 => exact Nat.and_two_pow_sub_one_eq_mod _ 6
    | _ => exact Nat.and_two_pow_sub_one_eq_mod _ 5
  show ((rotateWidth size - (imm &&& countMask size).setWidth 32)
      &&& (countMask size).setWidth 32).toNat = _
  rw [hsub, BitVec.toNat_sub, BitVec.toNat_setWidth, ← hn]
  cases size with
  | b8 =>
    show (2 ^ 32 - _ + 64) % 2 ^ 32 % 64 = (64 - _) % 64
    omega
  | _ =>
    rw [if_neg (by decide)] at hn
    show (2 ^ 32 - _ + 32) % 2 ^ 32 % 32 = (32 - _) % 32
    omega

/-- The count that the host gets, when the operand is not `CL` or has 64 bits: that of the architecture,
from the other side for a rotate to the left. -/
theorem hostCount_eq {op : ShiftOp} {size : OpSize} {amt : Operand} {s : State}
    (h : size = .b8 ∨ ∃ imm n, amt = .imm imm n) :
    op.hostCount size amt s = if op = .rol
      then ((if size = .b8 then 64 else 32) - shiftCount size amt s) % (if size = .b8 then 64 else 32)
      else shiftCount size amt s := by
  have himm : ∀ imm n, op.hostCount size (.imm imm n) s = if op = .rol
      then ((if size = .b8 then 64 else 32) - shiftCount size (.imm imm n) s)
        % (if size = .b8 then 64 else 32)
      else shiftCount size (.imm imm n) s := by
    intro imm n
    by_cases hop : op = .rol
    · rw [if_pos hop, ShiftOp.hostCount, decide_eq_true hop]
      exact toNat_rotateCount_true size imm
    · rw [if_neg hop, ShiftOp.hostCount, decide_eq_false hop]
      exact (toNat_rotateCount_false size imm).trans (toNat_and_countMask size imm)
  rcases h with rfl | ⟨imm, n, rfl⟩
  · have hcl : (if op = .rol then (64#64 - guest s .rcx).toNat % 64 else (guest s .rcx).toNat % 64)
        = if op = .rol then (64 - ((guest s .rcx).setWidth 8).toNat % 64) % 64
          else ((guest s .rcx).setWidth 8).toNat % 64 := by
      have h64 := (guest s .rcx).isLt
      rw [BitVec.toNat_sub, BitVec.toNat_setWidth]
      show (if op = .rol then (2 ^ 64 - _ + 64) % 2 ^ 64 % 64 else _) = _
      split <;> omega
    cases amt with
    | imm imm n => exact himm imm n
    | _ => exact hcl
  · exact himm imm n

theorem hostResult_b8 (op : ShiftOp) (v : BitVec 64) {n : Nat} (hn : n < 64) :
    op.hostResult .b8 v (if op = .rol then (64 - n) % 64 else n) = op.shift v n := by
  cases op with
  | rol => exact rotateRight_sub v hn
  | _ => rfl

theorem ShiftOp.shift_zero (op : ShiftOp) {w : Nat} (x : BitVec w) : op.shift x 0 = x := by
  cases op <;> simp [ShiftOp.shift, BitVec.rotateLeft_def, BitVec.rotateRight_def,
    BitVec.ushiftRight_eq_zero]

/-- The 32 bits of a sign extension. -/
theorem zeroExtended_signExtended (v : BitVec 64) :
    OpSize.b4.zeroExtended (OpSize.b4.signExtended v) = OpSize.b4.zeroExtended v := by
  apply BitVec.eq_of_getLsbD_eq
  intro i hi
  rw [OpSize.getLsbD_zeroExtended, OpSize.getLsbD_zeroExtended]
  by_cases h : i < 8 * OpSize.b4.bytes
  · rw [OpSize.getLsbD_signExtended_of_lt h]
  · simp [h]

theorem OpSize.zeroExtended_idem (size : OpSize) (v : BitVec 64) :
    size.zeroExtended (size.zeroExtended v) = size.zeroExtended v := by
  apply BitVec.eq_of_getLsbD_eq
  intro i hi
  simp [OpSize.getLsbD_zeroExtended]

/-- Writing the low bits of a register back. -/
theorem OpSize.into_zeroExtended {size : OpSize} (h : size ≠ .b4) (v : BitVec 64) :
    size.into v (size.zeroExtended v) = v := by
  have hmask : ∀ {m : BitVec 64} {size : OpSize},
      (∀ i : Fin 64, m.getLsbD i = decide (i.val < 8 * size.bytes)) →
      (v &&& ~~~m) ||| size.zeroExtended (size.zeroExtended v) = v := by
    intro m size hm
    apply BitVec.eq_of_getLsbD_eq
    intro i hi
    rw [size.zeroExtended_idem, BitVec.getLsbD_or, BitVec.getLsbD_and, BitVec.getLsbD_not, hm ⟨i, hi⟩,
      OpSize.getLsbD_zeroExtended]
    by_cases hlow : i < 8 * size.bytes <;> simp [hlow, hi]
  cases size with
  | b1 => exact hmask (by decide)
  | b2 => exact hmask (by decide)
  | b4 => exact absurd rfl h
  | b8 => exact OpSize.zeroExtended_b8 v

/-- A count of zero leaves the operand. -/
theorem hostResult_zero (op : ShiftOp) (size : OpSize) (v : BitVec 64) :
    op.hostResult size v 0 = size.into v (op.result size v 0) := by
  have hres : op.result size v 0 = size.zeroExtended v := by
    rw [ShiftOp.result, op.shift_zero]
    rfl
  rw [hres]
  by_cases hb4 : size = .b4
  · subst hb4
    have hhost : OpSize.b4.zeroExtended (op.host .b4 v 0) = OpSize.b4.zeroExtended v := by
      cases op with
      | shl => exact congrArg _ (ShiftOp.shift_zero .shl v)
      | shr => exact congrArg _ (ShiftOp.shift_zero .shr v)
      | sar => exact (congrArg _ (ShiftOp.shift_zero .sar _)).trans (zeroExtended_signExtended v)
      | rol | ror => exact congrArg _ (ShiftOp.shift_zero .ror v)
    rw [ShiftOp.hostResult, maskVal_b4, hhost]
    exact (OpSize.b4.zeroExtended_idem v).symm
  · have hhost : op.host size v 0 = v := by
      cases op with
      | shl => exact ShiftOp.shift_zero .shl v
      | shr => exact ShiftOp.shift_zero .shr v
      | sar =>
        show (if size = .b4 then OpSize.b4.signExtended v else v).sshiftRight 0 = v
        rw [if_neg hb4]
        exact ShiftOp.shift_zero .sar v
      | rol | ror => exact ShiftOp.shift_zero .ror v
    rw [OpSize.into_zeroExtended hb4, ShiftOp.hostResult, maskVal, if_neg hb4, hhost]

theorem hostResult_b4 {op : ShiftOp} (hop : op = .shl ∨ op = .sar) (v : BitVec 64) (n : Nat) :
    op.hostResult .b4 v n = OpSize.b4.into v (op.result .b4 v n) := by
  have hlow : ((op.shift (v.setWidth 32) n).setWidth 64).setWidth 32 = op.shift (v.setWidth 32) n := by
    rw [BitVec.setWidth_setWidth_of_le _ (by decide), BitVec.setWidth_eq]
  have hinto : OpSize.b4.into v (op.result .b4 v n) = (op.shift (v.setWidth 32) n).setWidth 64 :=
    congrArg (BitVec.setWidth 64) hlow
  rw [hinto]
  rcases hop with rfl | rfl
  · show maskVal .b4 (v <<< n) = ((v.setWidth 32) <<< n).setWidth 64
    rw [maskVal_b4]
    apply BitVec.eq_of_getLsbD_eq
    intro i hi
    rw [OpSize.getLsbD_zeroExtended, BitVec.getLsbD_setWidth, BitVec.getLsbD_shiftLeft,
      BitVec.getLsbD_shiftLeft, BitVec.getLsbD_setWidth]
    by_cases h32 : i < 32
    · simp [OpSize.bytes, h32, hi, show i - n < 32 by omega]
    · simp [OpSize.bytes, h32]
  · exact (maskVal_b4 _).trans (zeroExtended_sshiftRight v n)

theorem hostResult_eq_of_ok {op : ShiftOp} {size : OpSize} {amt : Operand} (hok : ShiftOk op size amt)
    (s : State) (v : BitVec 64) : op.hostResult size v (op.hostCount size amt s)
      = size.into v (op.result size v (shiftCount size amt s)) := by
  by_cases hb8 : size = .b8
  · subst hb8
    have hlt : shiftCount .b8 amt s < 64 := Nat.mod_lt _ (by decide)
    rw [hostCount_eq (.inl rfl)]
    exact (hostResult_b8 op v hlt).trans (op.result_b8 v _).symm
  obtain ⟨imm, n, rfl, hcases⟩ := hok.resolve_left hb8
  rw [hostCount_eq (.inr ⟨imm, n, rfl⟩), if_neg hb8]
  rcases hcases with hz | ⟨rfl, hop⟩
  · have hcount : shiftCount size (.imm imm n) s = 0 := by
      unfold shiftCount
      rw [if_neg hb8]
      exact hz
    rw [hcount, Nat.sub_zero, Nat.mod_self, ite_self]
    exact hostResult_zero op size v
  · have hrol : op ≠ .rol := by
      rcases hop with rfl | rfl <;> decide
    rw [if_neg hrol]
    exact hostResult_b4 hop v _

theorem shiftCorrect_of_ok {op : ShiftOp} {rd : GpReg} {size : OpSize} {amt : Operand} {ws : List Word}
    (hcode : ShiftCode op rd size amt (ws.map decode)) (hok : ShiftOk op size amt) :
    ShiftCorrect op rd size amt ws := by
  intro env s
  obtain ⟨s', hrun, hguest, hmem, hv⟩ := hcode env s
  refine ⟨s', exec_of_runSeq hrun, ?_, hmem, hv⟩
  rw [hguest, hostResult_eq_of_ok hok]

/-- Right code shifts every value right. -/
theorem ShiftCorrect.hostResult_eq {op : ShiftOp} {rd : GpReg} {size : OpSize} {amt : Operand}
    {ws : List Word} (h : ShiftCorrect op rd size amt ws)
    (hcode : ShiftCode op rd size amt (ws.map decode)) (s : State) :
    op.hostResult size (guest s rd) (op.hostCount size amt s)
      = size.into (guest s rd) (op.result size (guest s rd) (shiftCount size amt s)) := by
  obtain ⟨s₁, hrun, hguest₁, -⟩ := hcode default s
  obtain ⟨s₂, hexec, hguest₂, -⟩ := h default s
  rw [← (exec_of_runSeq hrun).unique hexec, hguest₁] at hguest₂
  have hrd := congrFun hguest₂ rd
  rwa [Function.update_self, Function.update_self] at hrd

/-- The count and the value of each operation that a count in `CL` goes wrong on, at 32 bits. -/
def ShiftOp.badCount (op : ShiftOp) : BitVec 64 :=
  match op with
  | .shl => 33
  | .shr => 0x100000001
  | .sar => 0x80000021
  | .rol => 0x80000001
  | .ror => 1

/-- A count in `CL` is right at 64 bits only. -/
theorem size_of_correct_cl {op : ShiftOp} {rd : GpReg} {size : OpSize} {n : OpSize} {ws : List Word}
    (hcode : ShiftCode op rd size (.reg .rcx n) (ws.map decode))
    (h : ShiftCorrect op rd size (.reg .rcx n) ws) : size = .b8 := by
  have heq : ∀ v : BitVec 64, op.hostResult size v
      (if op = .rol then ((rotateWidth size).setWidth 64 - v).toNat % 64 else v.toNat % 64)
        = size.into v (op.result size v ((v.setWidth 8).toNat % (if size = .b8 then 64 else 32))) :=
    fun v => h.hostResult_eq hcode (uniform v 0#8)
  cases size with
  | b8 => rfl
  | b4 => exact absurd (heq op.badCount) (by cases op <;> decide)
  | b1 => exact absurd (heq 0x4000000000000001#64) (by cases op <;> decide)
  | b2 => exact absurd (heq 0x4000000000000001#64) (by cases op <;> decide)

/-- A value that a shift by a constant goes wrong on, at 32 bits. -/
def ShiftOp.badValue (op : ShiftOp) : BitVec 64 :=
  if op = .shr then 0xFFFFFFFF00000000 else 1

/-- A constant count other than zero is right at 64 bits, and for `SHL` and `SAR` at 32. -/
theorem shiftOk_of_correct_imm {op : ShiftOp} {rd : GpReg} {size : OpSize} {imm : BitVec 64} {n : OpSize}
    {ws : List Word} (hcode : ShiftCode op rd size (.imm imm n) (ws.map decode))
    (h : ShiftCorrect op rd size (.imm imm n) ws) : ShiftOk op size (.imm imm n) := by
  by_cases hb8 : size = .b8
  · exact .inl hb8
  refine .inr ⟨imm, n, rfl, ?_⟩
  by_contra hnot
  obtain ⟨hz, hop⟩ := not_or.mp hnot
  obtain ⟨c, hc⟩ : ∃ c : Fin 32, imm.toNat % 32 = c.val := ⟨⟨_, Nat.mod_lt _ (by decide)⟩, rfl⟩
  have hc0 : c.val ≠ 0 := hc ▸ hz
  have hcount : ∀ s, shiftCount size (.imm imm n) s = c.val := by
    intro s
    rw [← hc]
    show imm.toNat % (if size = .b8 then 64 else 32) = _
    rw [if_neg hb8]
  have heq : ∀ v : BitVec 64, op.hostResult size v (if op = .rol then (32 - c.val) % 32 else c.val)
      = size.into v (op.result size v c.val) := by
    intro v
    have hv := h.hostResult_eq hcode (uniform v 0#8)
    rwa [hostCount_eq (.inr ⟨imm, n, rfl⟩), if_neg hb8, hcount] at hv
  cases size with
  | b8 => exact hb8 rfl
  | b4 =>
    have hwrong : ∀ op : ShiftOp, op ≠ .shl → op ≠ .sar → ∀ c : Fin 32, c.val ≠ 0 →
        op.hostResult .b4 op.badValue (if op = .rol then (32 - c.val) % 32 else c.val)
          ≠ OpSize.b4.into op.badValue (op.result .b4 op.badValue c.val) := by
      intro op hshl hsar
      cases op with
      | shl => exact absurd rfl hshl
      | sar => exact absurd rfl hsar
      | _ => decide +kernel
    exact hwrong op (fun h => hop ⟨rfl, .inl h⟩) (fun h => hop ⟨rfl, .inr h⟩) c hc0 (heq op.badValue)
  | b1 =>
    have hwrong : ∀ c : Fin 32, c.val ≠ 0 → op.hostResult .b1 0x4000000000000000#64
        (if op = .rol then (32 - c.val) % 32 else c.val)
          ≠ OpSize.b1.into 0x4000000000000000#64 (op.result .b1 0x4000000000000000#64 c.val) := by
      cases op <;> decide +kernel
    exact hwrong c hc0 (heq _)
  | b2 =>
    have hwrong : ∀ c : Fin 32, c.val ≠ 0 → op.hostResult .b2 0x4000000000000000#64
        (if op = .rol then (32 - c.val) % 32 else c.val)
          ≠ OpSize.b2.into 0x4000000000000000#64 (op.result .b2 0x4000000000000000#64 c.val) := by
      cases op <;> decide +kernel
    exact hwrong c hc0 (heq _)

theorem shiftOk_of_correct {inst : Inst} {op : ShiftOp} {rd : GpReg} {size : OpSize} {amt : Operand}
    {ws : List Word} (hform : ShiftForm inst rd size amt)
    (hcode : ShiftCode op rd size amt (ws.map decode)) (h : ShiftCorrect op rd size amt ws) :
    ShiftOk op size amt := by
  obtain ⟨-, -, ⟨imm, n, rfl⟩ | ⟨n, rfl⟩⟩ := hform
  · exact shiftOk_of_correct_imm hcode h
  · exact .inl (size_of_correct_cl hcode h)

/-- **Shifts and rotates.**  The code of `SHL`, `SHR`, `SAR`, `ROL` and `ROR` leaves the architecture's
result in the destination, from every state, if and only if the operands are those of `ShiftOk`. -/
theorem shift_correct_iff (p : Profile) (legacy32 : Bool) (inst : Inst) (op : ShiftOp) (ws : List Word)
    (hop : inst.shiftOp = some op) (hws : compile p (lift legacy32 inst) = some ws) :
    ∃ rd size amt, ShiftForm inst rd size amt ∧
      (ShiftCorrect op rd size amt ws ↔ ShiftOk op size amt) := by
  obtain ⟨-, rd, size, amt, hform, hcode⟩ := (emits_lift_shift hop).of_compile hws
  exact ⟨rd, size, amt, hform, shiftOk_of_correct hform hcode, shiftCorrect_of_ok hcode⟩

/-- `ROL RAX, CL`. -/
theorem shift_correct_iff_rol : ∃ inst ws,
    decodeNext true 0x1000 [0x48, 0xD3, 0xC0] = .ok (inst, []) ∧
    compile ⟨true⟩ (lift false inst) = some ws ∧
    ∃ n, inst.operand1 = some (.reg .rcx n) ∧ ShiftCorrect .rol .rax .b8 (.reg .rcx n) ws := by
  obtain ⟨inst, n, hdec, hop, h0, h1, ws, hws⟩ : ∃ inst n,
      decodeNext true 0x1000 [0x48, 0xD3, 0xC0] = .ok (inst, []) ∧ inst.shiftOp = some .rol ∧
      inst.operand0 = some (.reg .rax .b8) ∧ inst.operand1 = some (.reg .rcx n) ∧
      ∃ ws, compile ⟨true⟩ (lift false inst) = some ws := ⟨_, _, rfl, rfl, rfl, rfl, _, rfl⟩
  refine ⟨inst, ws, hdec, hws, n, h1, ?_⟩
  obtain ⟨rd, size, amt, ⟨h0', h1', -⟩, hiff⟩ := shift_correct_iff ⟨true⟩ false inst .rol ws hop hws
  obtain ⟨rfl, rfl⟩ : rd = .rax ∧ size = .b8 := by
    rw [h0] at h0'
    cases h0'
    exact ⟨rfl, rfl⟩
  obtain rfl : amt = .reg .rcx n := by
    rw [h1] at h1'
    exact (Option.some.inj h1').symm
  exact hiff.mpr (.inl rfl)

/-- The bytes decode to a shift that every profile translates, and none to right code. -/
def ShiftWrong (bytes : List Byte) : Prop :=
  ∃ inst op rd size amt, decodeNext true 0x1000 bytes = .ok (inst, []) ∧ inst.shiftOp = some op ∧
    inst.operand0 = some (.reg rd size) ∧ inst.operand1 = some amt ∧
    ∀ p, ∃ ws, compile p (lift false inst) = some ws ∧ ¬ ShiftCorrect op rd size amt ws

theorem shiftWrong_of_not_ok {bytes : List Byte} {inst : Inst} {op : ShiftOp} {rd : GpReg}
    {size : OpSize} {amt : Operand} (hdec : decodeNext true 0x1000 bytes = .ok (inst, []))
    (hop : inst.shiftOp = some op) (h0 : inst.operand0 = some (.reg rd size))
    (h1 : inst.operand1 = some amt) (hws : ∀ p, ∃ ws, compile p (lift false inst) = some ws)
    (hok : ¬ ShiftOk op size amt) : ShiftWrong bytes := by
  refine ⟨inst, op, rd, size, amt, hdec, hop, h0, h1, fun p => ?_⟩
  obtain ⟨ws, hp⟩ := hws p
  refine ⟨ws, hp, fun hc => hok ?_⟩
  obtain ⟨-, rd', size', amt', hform, hcode⟩ := (emits_lift_shift hop).of_compile hp
  have h0' := hform.1
  have h1' := hform.2.1
  rw [h0, Option.some.injEq] at h0'
  rw [h1, Option.some.injEq] at h1'
  cases h0'
  cases h1'
  exact shiftOk_of_correct hform hcode hc

/-- A shift by one, below 64 bits. -/
theorem not_shiftOk_one {op : ShiftOp} {size n : OpSize} (hb8 : size ≠ .b8)
    (hb4 : size = .b4 → op ≠ .shl ∧ op ≠ .sar) : ¬ ShiftOk op size (.imm 1 n) := by
  rintro (h | ⟨imm, k, himm, hz | ⟨h4, hop | hop⟩⟩)
  · exact hb8 h
  · cases himm
    exact absurd hz (by decide)
  · exact (hb4 h4).1 hop
  · exact (hb4 h4).2 hop

/-- `SHR EAX, 1`, `ROL EAX, 1`, `SHL EAX, CL` and `SHL AL, 1`. -/
theorem shift_wrong :
    ShiftWrong [0xD1, 0xE8] ∧ ShiftWrong [0xD1, 0xC0] ∧ ShiftWrong [0xD3, 0xE0] ∧
      ShiftWrong [0xD0, 0xE0] := by
  refine ⟨shiftWrong_of_not_ok rfl rfl rfl rfl (fun p => ?_) ?_,
    shiftWrong_of_not_ok rfl rfl rfl rfl (fun p => ?_) ?_,
    shiftWrong_of_not_ok rfl rfl rfl rfl (fun p => ?_) ?_,
    shiftWrong_of_not_ok rfl rfl rfl rfl (fun p => ?_) ?_⟩
  · rcases p with ⟨_ | _⟩ <;> exact ⟨_, rfl⟩
  · exact not_shiftOk_one (by decide) (by decide)
  · rcases p with ⟨_ | _⟩ <;> exact ⟨_, rfl⟩
  · exact not_shiftOk_one (by decide) (by decide)
  · exact ⟨_, rfl⟩
  · rintro (h | ⟨imm, n, h, -⟩) <;> cases h
  · rcases p with ⟨_ | _⟩ <;> exact ⟨_, rfl⟩
  · exact not_shiftOk_one (by decide) (by decide)

end Quantum.Jit
