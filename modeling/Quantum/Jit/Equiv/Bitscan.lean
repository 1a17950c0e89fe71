import Quantum.Jit.Decoder
import Quantum.Jit.Equiv.SizedOperand

/-!
# Bit scans

`BSF` counts the zeros below the lowest set bit, and is right at 32 and 64 bits.  `BSR` takes the leading
zeros of the 64-bit register from 31 or 63, so only the 64-bit form is right.  `bitscan_correct_iff` says
when the index is that of the architecture.
-/

namespace Quantum.Jit

open A64

variable {p : Profile}

/-! ### What the instructions do -/

/-- `BSR` scans for the highest set bit, and `BSF` for the lowest. -/
def Inst.scansHighest (inst : Inst) : Option Bool :=
  match inst.op with
  | .bsf => some false
  | .bsr => some true
  | _ => none

/-- Bit `i` is the lowest set bit of a value, or the highest. -/
def IsSetBit (highest : Bool) (v : BitVec 64) (i : Nat) : Prop :=
  v.getLsbD i = true ∧ ∀ j, v.getLsbD j = true → if highest then j ≤ i else i ≤ j

/-- The source, truncated to the operand size. -/
def scanned (inst : Inst) (s : State) (size : OpSize) (src : Operand) : BitVec 64 :=
  size.zeroExtended (operandValue inst s src.memSize src)

/-- From every state with a non-zero source the code writes the index of the bit to the destination, and
changes no other register and no memory. -/
def BitscanCorrect (highest : Bool) (inst : Inst) (rd : GpReg) (size : OpSize) (src : Operand)
    (ws : List Word) : Prop :=
  ∀ env s, scanned inst s size src ≠ 0 → ∃ s' i, Exec env ws s s' ∧
    IsSetBit highest (scanned inst s size src) i ∧
    guest s' = Function.update (guest s) rd (size.into (guest s rd) (BitVec.ofNat 64 i)) ∧
    s'.mem = s.mem ∧ s'.v = s.v

/-- The sizes at which the index comes out right, and an offset that has an encoding. -/
def BitscanOk (highest : Bool) (size : OpSize) (src : Operand) : Prop :=
  (size = .b8 ∨ size = .b4 ∧ highest = false) ∧ Fits src.memSize.bytes src.leftover

/-! ### What the code does -/

/-- What the code makes of the value in `X17`. -/
def scanResult (highest : Bool) (size : OpSize) (x : BitVec 64) : BitVec 64 :=
  maskVal size (if highest then (if size = .b8 then 63 else 31) - (maskVal size x).clz
    else (maskVal size x).ctz)

theorem scanResult_of_ne_b4 {size : OpSize} (h : size ≠ .b4) (highest : Bool) (x : BitVec 64) :
    scanResult highest size x
      = if highest then (if size = .b8 then 63 else 31) - x.clz else x.ctz := by
  have hmask : ∀ v, maskVal size v = v := fun v => if_neg h
  rw [scanResult, hmask, hmask]

/-- The instructions after the source is in `X17`. -/
def BitscanBlock (highest : Bool) (rd : GpReg) (size : OpSize) : List (Option Insn) → Prop :=
  Does fun s s' => guest s' = Function.update (guest s) rd (scanResult highest size (s.x 17#5)) ∧
    s'.mem = s.mem ∧ s'.v = s.v

theorem emits_emitClz_sets {rd rn : Reg} (hrn : rn ≠ 31#5) :
    Emits p (emitClz rd rn) fun _ is => Sets rd (fun s => (s.x rn).clz) is := by
  refine Emits.push ?_
  rw [decode_clz]
  intro env pc s
  show some (s.writeX rd (A64.clz (s.readX rn))) = _
  rw [s.readX_of_ne _ hrn]
  rfl

theorem emits_emitRbit_sets {rd rn : Reg} (hrn : rn ≠ 31#5) :
    Emits p (emitRbit rd rn) fun _ is => Sets rd (fun s => (s.x rn).reverse) is := by
  refine Emits.push ?_
  rw [decode_rbit]
  intro env pc s
  show some (s.writeX rd (A64.rbit (s.readX rn))) = _
  rw [s.readX_of_ne _ hrn]
  rfl

/-- A register, from `X16` and itself. -/
theorem does_subs (rd : GpReg) :
    Does (fun s s' => ∃ f, s' = { s.writeX (hostReg rd) (s.x 16#5 - s.x (hostReg rd)) with nzcv := f })
      [some (.addSubShift true true (hostReg rd) 0 16 (hostReg rd))] := by
  intro env pc s
  have h16 : s.readX 16 = s.x 16#5 := s.readX_of_ne _ (by decide)
  refine ⟨_, ?_, A64.addFlags (s.x 16#5) (~~~s.x (hostReg rd)) true, rfl⟩
  rw [runSeq_cons, execOne_subs64, h16, s.readX_of_ne _ (hostReg_ne_31 rd)]
  rfl

theorem emits_bitscan_highest {rd : GpReg} {size : OpSize} :
    Emits p (do
      maskB4 size 17
      emitClz (hostReg rd) 17
      loadConst64 16 (if size = .b8 then 63 else 31)
      subs64 (hostReg rd) 16 (hostReg rd)
      maskB4 size (hostReg rd) : LiftM Unit) fun _ is => BitscanBlock true rd size is := by
  have hd := hostReg_ne_31 rd
  have h16 : (16#5 : Reg) ≠ 31#5 := by decide
  have h17 : (17#5 : Reg) ≠ 31#5 := by decide
  refine Emits.bind (emits_maskB4 h17 fun is₁ hmask₁ => ?_)
  refine Emits.bind ((emits_emitClz_sets h17).mono fun _ is₂ hclz => ?_)
  refine Emits.bind (emits_loadConst64 h16 _ fun is₃ hconst => ?_)
  refine Emits.bind (emits_subs64 (emits_maskB4 hd fun is₄ hmask₂ => ?_))
  have hset : Sets 16#5 (fun _ => if size = .b8 then 63 else 31) is₃ := hconst.run
  refine (hmask₁.does.append (hclz.does.append (hset.does.append
    ((does_subs rd).append hmask₂.does)))).mono ?_
  rintro s s' ⟨s₁, rfl, s₂, rfl, s₃, rfl, s₄, ⟨f, rfl⟩, rfl⟩
  refine ⟨?_, by simp, by simp⟩
  simp only [guest_writeX_hostReg, guest_nzcv, guest_writeX_16, guest_writeX_17, Function.update_idem]
  congr 1
  simp [scanResult]

theorem emits_bitscan_lowest {rd : GpReg} {size : OpSize} :
    Emits p (do
      maskB4 size 17
      emitRbit (hostReg rd) 17
      emitClz (hostReg rd) (hostReg rd)
      maskB4 size (hostReg rd) : LiftM Unit) fun _ is => BitscanBlock false rd size is := by
  have hd := hostReg_ne_31 rd
  have h17 : (17#5 : Reg) ≠ 31#5 := by decide
  refine Emits.bind (emits_maskB4 h17 fun is₁ hmask₁ => ?_)
  refine Emits.bind ((emits_emitRbit_sets h17).mono fun _ is₂ hrbit => ?_)
  refine Emits.bind ((emits_emitClz_sets hd).mono fun _ is₃ hclz => ?_)
  refine emits_maskB4 hd fun is₄ hmask₂ => ?_
  have hscan := (hrbit.append hd (g := fun x => x.clz) hclz).append hd
    (g := fun x => maskVal size x) hmask₂
  have hall := hmask₁.does.append hscan.does
  rw [List.append_assoc] at hall
  refine hall.mono ?_
  rintro s s' ⟨s₁, rfl, rfl⟩
  refine ⟨?_, by simp, by simp⟩
  rw [guest_writeX_hostReg, guest_writeX_17]
  simp [scanResult, BitVec.ctz]

/-! ### The source -/

/-- The two ways the source gets into `X17`. -/
def IntoX17 (inst : Inst) (src : Operand) (is : List (Option Insn)) : Prop :=
  (∃ rs n, src = .reg rs n ∧ Sets 17#5 (fun s => s.x (hostReg rs)) is) ∨
  (src.isMem = true ∧ ∃ is₁, MemAddr inst src is₁ ∧ is = is₁ ++ [decode (loadWordInto src 17)])

theorem emits_operandIntoX17 (inst : Inst) (src : Operand) :
    Emits p (operandIntoX17 inst src) fun _ is => IntoX17 inst src is := by
  have hmem : ∀ src : Operand, src.isMem = true → Emits p (do
      let _ ← loadOperand src inst src.memSize
      pure ()) fun _ is => IntoX17 inst src is := by
    intro src hmem
    unfold loadOperand
    refine Emits.bind (Emits.bind ((emits_memAddr src inst).mono ?_))
    rintro l is₁ ⟨rfl, haddr⟩
    refine Emits.bind ((emits_loadSized_word src 17).mono ?_)
    rintro - is ⟨rfl⟩
    refine Emits.pure (Emits.pure (.inr ⟨hmem, is₁, haddr, ?_⟩))
    simp
  cases src with
  | reg rs n =>
    refine emits_mov64 (.inl ⟨rs, n, rfl, fun env pc s => ?_⟩)
    rw [runSeq_cons, execOne_mov64, readX_hostReg]
    rfl
  | mem m => exact hmem (.mem m) rfl
  | ripRel d n => exact hmem (.ripRel d n) rfl
  | _ => exact Emits.fail

/-- The source is in `X17`, when its offset fits. -/
theorem IntoX17.does {inst : Inst} {src : Operand} {is : List (Option Insn)} (h : IntoX17 inst src is)
    (hfit : Fits src.memSize.bytes src.leftover) :
    Does (fun s s' => s'.x 17#5 = operandValue inst s src.memSize src ∧ guest s' = guest s ∧
      s'.mem = s.mem ∧ s'.v = s.v) is := by
  rcases h with ⟨rs, n, rfl, hset⟩ | ⟨hmem, is₁, haddr, rfl⟩
  · refine hset.does.mono ?_
    rintro s s' rfl
    exact ⟨by simp [operandValue, guest], guest_writeX_17 s _, by simp, by simp⟩
  · intro env pc s
    obtain ⟨t, ht⟩ := haddr.1 env pc s
    have hval : operandValue inst s src.memSize src = memValue inst s src.memSize src := by
      cases src with
      | reg r size => cases hmem
      | imm v size => cases hmem
      | _ => rfl
    rw [runSeq_append, ht, Option.bind_some, decode_loadWordInto _ hfit, runSeq_loadInsn hfit]
    refine ⟨_, rfl, ?_, by simp, by simp, by simp⟩
    rw [hval]
    simp [memValue]

/-! ### The lift -/

/-- The source, and the instructions on it. -/
def BitscanForm (highest : Bool) (inst : Inst) (rd : GpReg) (size : OpSize) (src : Operand)
    (is : List (Option Insn)) : Prop :=
  ∃ is₁ is₂, IntoX17 inst src is₁ ∧ BitscanBlock highest rd size is₂ ∧ is = is₁ ++ is₂

theorem emits_liftBitscan {inst : Inst} (highest : Bool) :
    Emits p (liftBitscan inst highest) fun _ is => ∃ rd size src,
      inst.operand0 = some (.reg rd size) ∧ inst.operand1 = some src ∧
      BitscanForm highest inst rd size src is := by
  unfold liftBitscan
  refine Emits.bind (Emits.okOr fun dst h0 => Emits.bind (Emits.okOr fun src h1 => ?_))
  cases dst with
  | reg rd size =>
    refine Emits.bind ((emits_operandIntoX17 inst src).mono fun _ is₁ hsrc => ?_)
    have hform : ∀ is₂, BitscanBlock highest rd size is₂ → ∃ rd size src,
        inst.operand0 = some (.reg rd size) ∧ inst.operand1 = some src ∧
        BitscanForm highest inst rd size src (is₁ ++ is₂) := fun is₂ hblock =>
      ⟨rd, size, src, h0, h1, is₁, is₂, hsrc, hblock, rfl⟩
    cases highest with
    | true => exact emits_bitscan_highest.mono fun _ is₂ hblock => hform is₂ hblock
    | false => exact emits_bitscan_lowest.mono fun _ is₂ hblock => hform is₂ hblock
  | _ => exact Emits.fail

theorem emits_lift_bitscan {legacy32 : Bool} {inst : Inst} {highest : Bool}
    (h : inst.scansHighest = some highest) :
    Emits p (lift legacy32 inst) fun _ is => ∃ rd size src,
      inst.operand0 = some (.reg rd size) ∧ inst.operand1 = some src ∧
      BitscanForm highest inst rd size src is := by
  unfold Inst.scansHighest at h
  unfold lift
  split at h <;> cases h <;> rename_i hop <;> rw [hop]
  · exact emits_liftBitscan false
  · exact emits_liftBitscan true

/-! ### Indices -/

theorem toNat_clz_le (x : BitVec 64) : x.clz.toNat ≤ 64 :=
  BitVec.le_def.mp BitVec.clz_le

theorem toNat_ctz_le (x : BitVec 64) : x.ctz.toNat ≤ 64 :=
  toNat_clz_le x.reverse

theorem toNat_clz_lt {x : BitVec 64} (h : x ≠ 0) : x.clz.toNat < 64 :=
  BitVec.lt_def.mp (BitVec.clz_lt_iff_ne_zero.mpr h)

theorem ne_zero_of_clz_lt {x : BitVec 64} (h : x.clz.toNat < 64) : x ≠ 0 :=
  BitVec.clz_lt_iff_ne_zero.mp (BitVec.lt_def.mpr h)

theorem isSetBit_ctz {x : BitVec 64} (h : x ≠ 0) : IsSetBit false x x.ctz.toNat := by
  refine ⟨BitVec.getLsbD_true_ctz_of_ne_zero h, fun j hj => ?_⟩
  show x.ctz.toNat ≤ j
  by_contra hlt
  rw [BitVec.getLsbD_false_of_lt_ctz (by omega)] at hj
  cases hj

theorem isSetBit_clz {x : BitVec 64} (h : x ≠ 0) : IsSetBit true x (63 - x.clz.toNat) := by
  refine ⟨BitVec.getLsbD_true_clz_of_ne_zero (by decide) h, fun j hj => ?_⟩
  show j ≤ 63 - x.clz.toNat
  have hlt := BitVec.toNat_lt_two_pow_sub_clz (x := x)
  have hle : 2 ^ j ≤ x.toNat := by
    rw [← BitVec.testBit_toNat] at hj
    exact Nat.ge_two_pow_of_testBit hj
  have hpow : 2 ^ j < 2 ^ (64 - x.clz.toNat) := by omega
  have hj64 := (Nat.pow_lt_pow_iff_right (by decide)).mp hpow
  omega

/-! ### When the code is right -/

theorem BitscanForm.does {highest : Bool} {inst : Inst} {rd : GpReg} {size : OpSize} {src : Operand}
    {is : List (Option Insn)} (h : BitscanForm highest inst rd size src is)
    (hfit : Fits src.memSize.bytes src.leftover) :
    Does (fun s s' => guest s' = Function.update (guest s) rd
        (scanResult highest size (operandValue inst s src.memSize src)) ∧ s'.mem = s.mem ∧ s'.v = s.v)
      is := by
  obtain ⟨is₁, is₂, hsrc, hblock, rfl⟩ := h
  refine ((hsrc.does hfit).append hblock).mono ?_
  rintro s s' ⟨t, ⟨hx, hguest, hmem, hv⟩, hguest', hmem', hv'⟩
  rw [hx, hguest] at hguest'
  exact ⟨hguest', hmem'.trans hmem, hv'.trans hv⟩

theorem scanResult_of_ok {highest : Bool} {size : OpSize} (hok : size = .b8 ∨ size = .b4 ∧ highest = false)
    {x : BitVec 64} (old : BitVec 64) (hx : size.zeroExtended x ≠ 0) :
    ∃ i, IsSetBit highest (size.zeroExtended x) i ∧
      scanResult highest size x = size.into old (BitVec.ofNat 64 i) := by
  rcases hok with rfl | ⟨rfl, rfl⟩
  · rw [OpSize.zeroExtended_b8] at hx ⊢
    cases highest with
    | true =>
      refine ⟨_, isSetBit_clz hx, ?_⟩
      have hle := toNat_clz_le x
      rw [scanResult_of_ne_b4 (by decide), if_pos rfl, if_pos rfl, OpSize.into]
      apply BitVec.eq_of_toNat_eq
      have hlt := toNat_clz_lt hx
      have hmax : (63 : BitVec 64).toNat = 63 := rfl
      rw [BitVec.toNat_sub, BitVec.toNat_ofNat, hmax]
      omega
    | false =>
      refine ⟨_, isSetBit_ctz hx, ?_⟩
      rw [BitVec.ofNat_toNat, BitVec.setWidth_eq, scanResult_of_ne_b4 (by decide), OpSize.into,
        if_neg Bool.false_ne_true]
  · refine ⟨_, isSetBit_ctz hx, ?_⟩
    rw [scanResult, if_neg Bool.false_ne_true, maskVal_b4, maskVal_b4, BitVec.ofNat_toNat,
      BitVec.setWidth_eq, OpSize.into]

theorem bitscanCorrect_of_ok {highest : Bool} {inst : Inst} {rd : GpReg} {size : OpSize} {src : Operand}
    {ws : List Word} (hform : BitscanForm highest inst rd size src (ws.map decode))
    (hok : BitscanOk highest size src) : BitscanCorrect highest inst rd size src ws := by
  intro env s hne
  obtain ⟨s', hrun, hguest, hmem, hv⟩ := hform.does hok.2 env 0 s
  obtain ⟨i, hbit, hres⟩ := scanResult_of_ok hok.1 (guest s rd) hne
  refine ⟨s', i, exec_of_runSeq hrun, hbit, ?_, hmem, hv⟩
  rw [hguest, hres]

/-! ### When it is not -/

/-- Any run, whether the offset of the source fits or not: the index of some value is in the
destination. -/
theorem BitscanForm.scanResult_of_exec {highest : Bool} {inst : Inst} {rd : GpReg} {size : OpSize}
    {src : Operand} {ws : List Word} {s s' : State}
    (hform : BitscanForm highest inst rd size src (ws.map decode)) (h : Exec default ws s s') :
    ∃ x, guest s' rd = scanResult highest size x := by
  obtain ⟨is₁, is₂, hsrc, hblock, hws⟩ := hform
  have hlast : ∃ pc t, runSeq default pc is₂ t = some s' := by
    rcases hsrc with ⟨rs, n, rfl, hset⟩ | ⟨hmem, js, haddr, rfl⟩
    · have hall : ∀ i, some i ∈ is₁ ++ is₂ → i.isLinear = true := by
        intro i hi
        obtain ⟨t, ht, -⟩ := (hset.does.append hblock) default 0 default
        exact isLinear_of_runSeq ht i hi
      obtain ⟨t, -, hrun⟩ := exec_append hws hall h
      exact ⟨_, t, hrun⟩
    · have hlin : ∀ i, some i ∈ is₂ → i.isLinear = true := by
        obtain ⟨t, ht, -⟩ := hblock default 0 default
        exact isLinear_of_runSeq ht
      rw [List.append_assoc] at hws
      obtain ⟨pc, -, t, -, -, hrun⟩ := exec_loadForm haddr hlin hws h
      exact ⟨pc, t, hrun⟩
  obtain ⟨pc, t, hrun⟩ := hlast
  obtain ⟨t', ht', hguest, -⟩ := hblock default pc t
  rw [hrun, Option.some.injEq] at ht'
  refine ⟨t.x 17#5, ?_⟩
  rw [ht', hguest, Function.update_self]

/-- The leading zeros of a 32-bit value in 64 bits. -/
theorem le_clz_zeroExtended (x : BitVec 64) : 32 ≤ (OpSize.b4.zeroExtended x).clz.toNat := by
  by_contra hlt
  have hne : OpSize.b4.zeroExtended x ≠ 0 := ne_zero_of_clz_lt (by omega)
  have hbit := BitVec.getLsbD_true_clz_of_ne_zero (by decide) hne
  rw [OpSize.getLsbD_zeroExtended, Bool.and_eq_true, decide_eq_true_iff] at hbit
  have hlow := hbit.1
  simp only [OpSize.bytes] at hlow
  omega

/-- `BSR` at 32 bits gives a negative number. -/
theorem scanResult_b4_highest (x : BitVec 64) : (scanResult true .b4 x).getLsbD 31 = true := by
  have hge := le_clz_zeroExtended x
  have hle := toNat_clz_le (OpSize.b4.zeroExtended x)
  have htable : ∀ k : Fin 65, 32 ≤ k.val →
      (OpSize.b4.zeroExtended ((31 : BitVec 64) - BitVec.ofNat 64 k.val)).getLsbD 31 = true := by
    decide
  have hk := htable ⟨(OpSize.b4.zeroExtended x).clz.toNat, by omega⟩ hge
  rw [BitVec.ofNat_toNat, BitVec.setWidth_eq] at hk
  rw [scanResult, if_pos rfl, if_neg (by decide), maskVal_b4, maskVal_b4]
  exact hk

/-- Below 32 bits the upper half of the destination is all zeros or all ones. -/
theorem scanResult_upper (highest : Bool) {size : OpSize} (hsize : size = .b1 ∨ size = .b2)
    (x : BitVec 64) :
    (scanResult highest size x).getLsbD 62 = (scanResult highest size x).getLsbD 61 := by
  have hres : scanResult highest size x = if highest then 31 - x.clz else x.ctz := by
    have hsizes : size ≠ .b4 ∧ size ≠ .b8 := by
      rcases hsize with rfl | rfl <;> decide
    rw [scanResult_of_ne_b4 hsizes.1, if_neg hsizes.2]
  have htable : ∀ k : Fin 65, (BitVec.ofNat 64 k.val).getLsbD 62 = (BitVec.ofNat 64 k.val).getLsbD 61 ∧
      ((31 : BitVec 64) - BitVec.ofNat 64 k.val).getLsbD 62
        = ((31 : BitVec 64) - BitVec.ofNat 64 k.val).getLsbD 61 := by
    decide
  have hclz := (htable ⟨x.clz.toNat, Nat.lt_succ_of_le (toNat_clz_le x)⟩).2
  have hctz := (htable ⟨x.ctz.toNat, Nat.lt_succ_of_le (toNat_ctz_le x)⟩).1
  rw [BitVec.ofNat_toNat, BitVec.setWidth_eq] at hclz hctz
  rw [hres]
  cases highest with
  | true => exact hclz
  | false => exact hctz

/-- The source of the probe is odd. -/
theorem scanned_uniform_ne {highest : Bool} {inst : Inst} {rd : GpReg} {size : OpSize} {src : Operand}
    {is : List (Option Insn)} (h : BitscanForm highest inst rd size src is) :
    scanned inst (uniform 0x4000000000000001#64 1#8) size src ≠ 0 := by
  have hpos : ∀ size : OpSize, 0 < 8 * size.bytes := by
    intro size
    cases size <;> decide
  have hbit : (operandValue inst (uniform 0x4000000000000001#64 1#8) src.memSize src).getLsbD 0 = true := by
    have hread : ∀ a, (ByteMem.read 64 src.memSize.bytes (fun _ => 1#8) a).getLsbD 0 = true := by
      intro a
      rw [ByteMem.getLsbD_read, decide_eq_true (hpos _)]
      rfl
    obtain ⟨-, -, ⟨rs, n, rfl, -⟩ | ⟨hmem, -⟩, -⟩ := h
    · show (0x4000000000000001#64).getLsbD 0 = true
      decide
    · cases src with
      | reg r size => cases hmem
      | imm v size => cases hmem
      | _ => exact hread _
  intro h0
  have hzero := congrArg (fun v => v.getLsbD 0) h0
  dsimp only [scanned] at hzero
  rw [OpSize.getLsbD_zeroExtended, hbit, decide_eq_true (hpos size)] at hzero
  cases hzero

/-- Only at 64 bits, and for `BSF` at 32, is the index right. -/
theorem size_of_bitscanCorrect {highest : Bool} {inst : Inst} {rd : GpReg} {size : OpSize} {src : Operand}
    {ws : List Word} (hform : BitscanForm highest inst rd size src (ws.map decode))
    (h : BitscanCorrect highest inst rd size src ws) : size = .b8 ∨ size = .b4 ∧ highest = false := by
  obtain ⟨s', i, hexec, hbit, hguest, -⟩ := h default _ (scanned_uniform_ne hform)
  obtain ⟨x, hx⟩ := hform.scanResult_of_exec hexec
  rw [hguest, Function.update_self] at hx
  have hold : guest (uniform 0x4000000000000001#64 1#8) rd = 0x4000000000000001#64 := rfl
  rw [hold] at hx
  cases size with
  | b8 => exact .inl rfl
  | b4 =>
    refine .inr ⟨rfl, ?_⟩
    cases highest with
    | false => rfl
    | true =>
      exfalso
      have hlow := hbit.1
      rw [scanned, OpSize.getLsbD_zeroExtended, Bool.and_eq_true, decide_eq_true_iff] at hlow
      have hi : ∀ k : Fin 32, (OpSize.b4.zeroExtended (BitVec.ofNat 64 k.val)).getLsbD 31 = false := by
        decide
      have htop := scanResult_b4_highest x
      rw [← hx, OpSize.into, hi ⟨i, hlow.1⟩] at htop
      cases htop
  | b1 =>
    have hupper := scanResult_upper highest (.inl rfl) x
    rw [← hx, OpSize.into, BitVec.getLsbD_or, BitVec.getLsbD_or, OpSize.getLsbD_zeroExtended,
      OpSize.getLsbD_zeroExtended] at hupper
    simp [OpSize.bytes] at hupper
  | b2 =>
    have hupper := scanResult_upper highest (.inr rfl) x
    rw [← hx, OpSize.into, BitVec.getLsbD_or, BitVec.getLsbD_or, OpSize.getLsbD_zeroExtended,
      OpSize.getLsbD_zeroExtended] at hupper
    simp [OpSize.bytes] at hupper

theorem ctz_ne_zero {x : BitVec 64} (hx : x.getLsbD 0 = false) : x.ctz.toNat ≠ 0 := by
  intro h0
  have hne : x ≠ 0 := by
    refine BitVec.ctz_lt_iff_ne_zero.mp (BitVec.lt_def.mpr ?_)
    rw [h0]
    decide
  have hbit := BitVec.getLsbD_true_ctz_of_ne_zero hne
  rw [h0, hx] at hbit
  cases hbit

/-- A value whose low byte is zero does not have index zero. -/
theorem scanResult_ne_zero {highest : Bool} {size : OpSize}
    (hsize : size = .b8 ∨ size = .b4 ∧ highest = false) {x : BitVec 64} (hx : x.setWidth 8 = 0) :
    scanResult highest size x ≠ 0 := by
  have hx0 : x.getLsbD 0 = false := by
    have hbit := congrArg (fun v => v.getLsbD 0) hx
    simpa using hbit
  intro h0
  rcases hsize with rfl | ⟨rfl, rfl⟩
  · cases highest with
    | true =>
      rw [scanResult_of_ne_b4 (by decide), if_pos rfl, if_pos rfl] at h0
      have hclz : x.clz = 63#64 := (sub_eq_zero.mp h0).symm
      have hne : x ≠ 0 := ne_zero_of_clz_lt (by rw [hclz]; decide)
      have hbit := BitVec.getLsbD_true_clz_of_ne_zero (by decide) hne
      rw [hclz] at hbit
      exact Bool.false_ne_true (hx0.symm.trans hbit)
    | false =>
      rw [scanResult_of_ne_b4 (by decide), if_neg Bool.false_ne_true] at h0
      exact ctz_ne_zero hx0 (congrArg BitVec.toNat h0)
  · have hy0 : (OpSize.b4.zeroExtended x).getLsbD 0 = false := by
      rw [OpSize.getLsbD_zeroExtended, hx0, Bool.and_false]
    have hle := toNat_ctz_le (OpSize.b4.zeroExtended x)
    rw [scanResult, if_neg Bool.false_ne_true, maskVal_b4, maskVal_b4] at h0
    have hnat : (OpSize.b4.zeroExtended x).ctz.toNat % 2 ^ 32 % 2 ^ 64 = 0 := by
      rw [← BitVec.toNat_setWidth, ← BitVec.toNat_setWidth]
      exact congrArg BitVec.toNat h0
    exact ctz_ne_zero hy0 (by omega)

/-- An offset without an encoding: the load goes elsewhere, and finds zero there. -/
theorem fits_of_bitscanCorrect {highest : Bool} {inst : Inst} {rd : GpReg} {size : OpSize} {src : Operand}
    {ws : List Word} (hform : BitscanForm highest inst rd size src (ws.map decode))
    (hsize : size = .b8 ∨ size = .b4 ∧ highest = false)
    (h : BitscanCorrect highest inst rd size src ws) : Fits src.memSize.bytes src.leftover := by
  obtain ⟨is₁, is₂, hsrc, hblock, hws⟩ := hform
  rcases hsrc with ⟨rs, n, rfl, -⟩ | ⟨hmem, js, haddr, rfl⟩
  · exact fits_zero n
  by_contra hfit
  have hone : scanned inst (oneAt inst src default) size src = 1#64 := by
    have hval : operandValue inst (oneAt inst src default) src.memSize src = 1 := by
      rw [← memValue_oneAt inst src default]
      cases src with
      | reg r size => cases hmem
      | imm v size => cases hmem
      | _ => rfl
    rw [scanned, hval]
    cases size <;> decide
  obtain ⟨s', i, hexec, hbit, hguest, -⟩ := h default (oneAt inst src default) (by rw [hone]; decide)
  have hlin : ∀ i, some i ∈ is₂ → i.isLinear = true := by
    obtain ⟨t, ht, -⟩ := hblock default 0 default
    exact isLinear_of_runSeq ht
  rw [List.append_assoc] at hws
  obtain ⟨pc, t, hrun, hlow, -⟩ := low_byte_of_unfit (fun _ _ => rfl)
    (by decide : (17#5 : Reg) ≠ 31#5 ∧ (17#5 : Reg) ≠ 16#5) hfit haddr hlin hws hexec rfl
  obtain ⟨t', ht', hguest', -⟩ := hblock default pc t
  rw [hrun, Option.some.injEq] at ht'
  -- the index of the operand is zero
  have hi : i = 0 := by
    have hset : (1#64).getLsbD i = true := by
      rw [← hone]
      exact hbit.1
    by_contra h0
    have hfalse : (1#64).getLsbD i = false := by
      rw [BitVec.getLsbD_one]
      simp [h0]
    rw [hfalse] at hset
    cases hset
  have hrd := congrFun hguest rd
  rw [ht', hguest', Function.update_self, Function.update_self, hi] at hrd
  refine scanResult_ne_zero hsize hlow (hrd.trans ?_)
  rcases hsize with rfl | ⟨rfl, -⟩ <;> rfl

/-- **Bit scans.**  From every state in which the source is not zero, the code of `BSF` and `BSR` writes
the index of the lowest or highest set bit, and changes nothing else, if and only if the operands are those
of `BitscanOk`. -/
theorem bitscan_correct_iff (p : Profile) (legacy32 : Bool) (inst : Inst) (highest : Bool)
    (ws : List Word) (hop : inst.scansHighest = some highest)
    (hws : compile p (lift legacy32 inst) = some ws) :
    ∃ rd size src, inst.operand0 = some (.reg rd size) ∧ inst.operand1 = some src ∧
      (BitscanCorrect highest inst rd size src ws ↔ BitscanOk highest size src) := by
  obtain ⟨-, rd, size, src, h0, h1, hform⟩ := (emits_lift_bitscan hop).of_compile hws
  refine ⟨rd, size, src, h0, h1, fun h => ?_, bitscanCorrect_of_ok hform⟩
  have hsize := size_of_bitscanCorrect hform h
  exact ⟨hsize, fits_of_bitscanCorrect hform hsize h⟩

/-- `BSF EAX, EAX`. -/
theorem bitscan_correct_iff_bsf : ∃ inst ws, decodeNext true 0x1000 [0x0F, 0xBC, 0xC0] = .ok (inst, []) ∧
    compile ⟨true⟩ (lift false inst) = some ws ∧ BitscanCorrect false inst .rax .b4 (.reg .rax .b4) ws := by
  obtain ⟨inst, hdec, hop, h0, h1, ws, hws⟩ : ∃ inst,
      decodeNext true 0x1000 [0x0F, 0xBC, 0xC0] = .ok (inst, []) ∧ inst.scansHighest = some false ∧
      inst.operand0 = some (.reg .rax .b4) ∧ inst.operand1 = some (.reg .rax .b4) ∧
      ∃ ws, compile ⟨true⟩ (lift false inst) = some ws := ⟨_, rfl, rfl, rfl, rfl, _, rfl⟩
  refine ⟨inst, ws, hdec, hws, ?_⟩
  obtain ⟨rd, size, src, h0', h1', hiff⟩ := bitscan_correct_iff ⟨true⟩ false inst false ws hop hws
  rw [h0, Option.some.injEq] at h0'
  rw [h1, Option.some.injEq] at h1'
  cases h0'
  cases h1'
  exact hiff.mpr ⟨.inr ⟨rfl, rfl⟩, fits_zero .b4⟩

/-- The bytes decode to a bit scan that every profile translates, and none to right code. -/
def BitscanWrong (bytes : List Byte) : Prop :=
  ∃ inst highest rd size src, decodeNext true 0x1000 bytes = .ok (inst, []) ∧
    inst.scansHighest = some highest ∧ inst.operand0 = some (.reg rd size) ∧ inst.operand1 = some src ∧
    ∀ p, ∃ ws, compile p (lift false inst) = some ws ∧ ¬ BitscanCorrect highest inst rd size src ws

theorem bitscanWrong_of_size {bytes : List Byte} {inst : Inst} {highest : Bool} {rd : GpReg}
    {size : OpSize} {src : Operand} (hdec : decodeNext true 0x1000 bytes = .ok (inst, []))
    (hop : inst.scansHighest = some highest) (h0 : inst.operand0 = some (.reg rd size))
    (h1 : inst.operand1 = some src) (hws : ∀ p, ∃ ws, compile p (lift false inst) = some ws)
    (hsize : ¬ (size = .b8 ∨ size = .b4 ∧ highest = false)) : BitscanWrong bytes := by
  refine ⟨inst, highest, rd, size, src, hdec, hop, h0, h1, fun p => ?_⟩
  obtain ⟨ws, hp⟩ := hws p
  refine ⟨ws, hp, fun hc => hsize ?_⟩
  obtain ⟨-, rd', size', src', h0', h1', hform⟩ := (emits_lift_bitscan hop).of_compile hp
  rw [h0, Option.some.injEq] at h0'
  rw [h1, Option.some.injEq] at h1'
  cases h0'
  cases h1'
  exact size_of_bitscanCorrect hform hc

/-- `BSR EAX, ECX` and `BSF AX, CX`. -/
theorem bitscan_wrong : BitscanWrong [0x0F, 0xBD, 0xC1] ∧ BitscanWrong [0x66, 0x0F, 0xBC, 0xC1] :=
  ⟨bitscanWrong_of_size rfl rfl rfl rfl (fun p => by rcases p with ⟨_ | _⟩ <;> exact ⟨_, rfl⟩) (by decide),
    bitscanWrong_of_size rfl rfl rfl rfl (fun p => ⟨_, rfl⟩) (by decide)⟩

end Quantum.Jit
