import Quantum.Jit.Equiv.DecodeXmm
import Quantum.Jit.Equiv.SteadyLifts

/-!
# The lifts of SSE instructions keep the host frame

The SSE lifts keep the XMM registers in the guest context, so they are steady when the registers that
their operands name exist (`Inst.XmmOk`): then every access through the context pointer lies in the
part of the context where the XMM registers are.  With the integer lifts this gives one statement
about all of them (`balanced_lift`).
-/

namespace Quantum.Jit

open A64
open EmitM

set_option synthInstance.maxSize 100000

variable {A : Type} {D : Domain A} {lv : Nat → A} [hL : Lenient D lv]

namespace Steady

/-! ### The XMM registers in the context -/

theorem toNat_xmmCtxOffset (d : BitVec 8) : (xmmCtxOffset d).toNat = 160 + 16 * d.toNat := by
  have hd := d.isLt
  rw [xmmCtxOffset, BitVec.toNat_add, BitVec.toNat_mul, BitVec.toNat_setWidth]
  simp only [BitVec.ofNat_eq_ofNat, BitVec.toNat_ofNat]
  omega

/-- An access to bytes `k` and on of an XMM register. -/
theorem xmmAccess (a : Access) {d : BitVec 8} [hd : IsXmm d] {rt : Reg} [ht : NotCtx rt]
    {offset : BitVec 32} (k : Nat) (hoff : offset.toNat = 160 + 16 * d.toNat + k)
    (hk : k % a.bytes = 0 ∧ k + a.bytes ≤ 16) {ε : Type} :
    Steady D lv (a.emit rt 28 offset : EmitM ε Unit) := by
  have hlt := hd.lt
  have hdvd : a.bytes ∣ offset.toNat := by
    rw [hoff, show 160 + 16 * d.toNat + k = 16 * (10 + d.toNat) + k by omega]
    refine Nat.dvd_add (Dvd.dvd.mul_right ?_ _) (Nat.dvd_of_mod_eq_zero hk.1)
    cases a <;> decide
  have hle : offset.toNat / a.bytes ≤ offset.toNat := Nat.div_le_self _ _
  have hfit : Fits a.bytes offset := ⟨Nat.mod_eq_zero_of_dvd hdvd, by omega⟩
  rw [a.emit_eq]
  refine .of_emits_one fun p => emits_ldstScaled_of_fits a.bytes_lt (.inr hfit) fun _ => ?_
  refine ⟨_, rfl, .access (by decide) (fun n hn => .inr ?_) ht.ne⟩
  obtain rfl : a.bytes = n := Option.some.inj (a.ldstBytes_eq.symm.trans hn)
  have hfield : (BitVec.ofNat 12 (offset.toNat / a.bytes)).toNat * a.bytes = offset.toNat := by
    rw [BitVec.toNat_ofNat, Nat.mod_eq_of_lt (by omega), Nat.div_mul_cancel hdvd]
  rw [hfield, Ann.inWindow, Bool.and_eq_true, decide_eq_true_eq, decide_eq_true_eq]
  omega

section Xmm

variable {d : BitVec 8} [IsXmm d] {rt : Reg} [NotCtx rt] {ε : Type}

/-- An access to the low bytes. -/
theorem xmmLow (a : Access) : Steady D lv (a.emit rt 28 (xmmCtxOffset d) : EmitM ε Unit) :=
  xmmAccess a 0 (toNat_xmmCtxOffset d) ⟨Nat.zero_mod _, by cases a <;> decide⟩

instance : Steady D lv (ldrQ rt 28 (xmmCtxOffset d) : EmitM ε Unit) := xmmLow .ldrQ
instance : Steady D lv (strQ rt 28 (xmmCtxOffset d) : EmitM ε Unit) := xmmLow .strQ
instance : Steady D lv (ldrD rt 28 (xmmCtxOffset d) : EmitM ε Unit) := xmmLow .ldrD
instance : Steady D lv (strD rt 28 (xmmCtxOffset d) : EmitM ε Unit) := xmmLow .strD
instance : Steady D lv (ldrS rt 28 (xmmCtxOffset d) : EmitM ε Unit) := xmmLow .ldrS
instance : Steady D lv (strS rt 28 (xmmCtxOffset d) : EmitM ε Unit) := xmmLow .strS
instance : Steady D lv (ldr64 rt 28 (xmmCtxOffset d) : EmitM ε Unit) := xmmLow .ldr64
instance : Steady D lv (str64 rt 28 (xmmCtxOffset d) : EmitM ε Unit) := xmmLow .str64
instance : Steady D lv (ldr32 rt 28 (xmmCtxOffset d) : EmitM ε Unit) := xmmLow .ldr32
instance : Steady D lv (str32 rt 28 (xmmCtxOffset d) : EmitM ε Unit) := xmmLow .str32

omit [IsXmm d] in
theorem toNat_xmmCtxOffset_add (k : BitVec 32) (hk : k.toNat < 16) :
    (xmmCtxOffset d + k).toNat = 160 + 16 * d.toNat + k.toNat := by
  have hd := d.isLt
  rw [BitVec.toNat_add, toNat_xmmCtxOffset]
  omega

instance : Steady D lv (str64 rt 28 (xmmCtxOffset d + 8) : EmitM ε Unit) :=
  xmmAccess .str64 8 (toNat_xmmCtxOffset_add 8 (by decide)) (by decide)

instance : Steady D lv (str32 rt 28 (xmmCtxOffset d + 4) : EmitM ε Unit) :=
  xmmAccess .str32 4 (toNat_xmmCtxOffset_add 4 (by decide)) (by decide)

instance (size : OpSize) : Steady D lv (loadSized rt 28 (xmmCtxOffset d) size) := by
  cases size with
  | b8 => exact xmmLow .ldr64
  | b4 => exact xmmLow .ldr32
  | b2 => exact xmmLow .ldrh
  | b1 => exact xmmLow .ldrb

instance (size : OpSize) : Steady D lv (storeSized rt 28 (xmmCtxOffset d) size) := by
  cases size with
  | b8 => exact xmmLow .str64
  | b4 => exact xmmLow .str32
  | b2 => exact xmmLow .strh
  | b1 => exact xmmLow .strb

instance (op : Op) (size : OpSize) : Steady D lv (loadScalar op rt 28 (xmmCtxOffset d) size) := by
  cases size <;> (unfold loadScalar; infer_instance)

instance (op : Op) (size : OpSize) : Steady D lv (storeScalar op rt d size) := by
  cases size <;> (unfold storeScalar; infer_instance)

instance (op : Op) (size : OpSize) : Steady D lv (storeXmmZeroing op size rt d) := by
  cases size <;> (unfold storeXmmZeroing; infer_instance)

end Xmm

/-! ### SIMD words -/

section Vectors

variable {vm vn vd : Reg} {ε : Type}

/-- An operation on two vectors. -/
theorem vec {b : Word} (h : b ∈ vecTable.map (·.1) ∨ b ∈ fpVecTable) :
    Steady D lv (vec3 b vd vn vm : EmitM ε Unit) := by
  rcases h with h | h
  · obtain ⟨e, he, rfl⟩ := List.mem_map.mp h
    exact .word (decode_regs3Word_vec vm vn vd he) rfl rfl nofun
  · exact .word (decode_regs3Word_fpVec vm vn vd h) rfl rfl nofun

instance : Steady D lv (eorV16b vd vn vm : EmitM ε Unit) := vec (by decide)
instance : Steady D lv (andV16b vd vn vm : EmitM ε Unit) := vec (by decide)
instance : Steady D lv (orrV16b vd vn vm : EmitM ε Unit) := vec (by decide)

/-- An operation on two scalars. -/
theorem fp2 {b : Word} (h : b ∈ fp2Table) : Steady D lv (fp2src b vd vn vm : EmitM ε Unit) :=
  .word (decode_regs3Word_fp2 vm vn vd h) rfl rfl nofun

/-- A conversion of an integer. -/
theorem intToFp {b : Word} {rn : Reg} (h : b ∈ intToFpTable) :
    Steady D lv (fpCvt b vd rn : EmitM ε Unit) :=
  .word (decode_regs2Word_intToFp vd rn h) rfl rfl nofun

/-- A conversion to an integer. -/
theorem fpToInt {b : Word} {rd : Reg} [NotCtx rd] (h : b ∈ fpToIntTable) :
    Steady D lv (fpCvt b rd vn : EmitM ε Unit) :=
  .word (decode_regs2Word_fpToInt vn rd h) rfl rfl (NotCtx.some_ne rd)

/-- An operation on one scalar. -/
theorem fp1 {b : Word} (h : b ∈ fp1Table) : Steady D lv (fpCvt b vd vn : EmitM ε Unit) :=
  .word (decode_regs2Word_fp1 vn vd h) rfl rfl nofun

instance : Steady D lv (fcvtDS vd vn : EmitM ε Unit) := fp1 (by decide)
instance : Steady D lv (fcvtSD vd vn : EmitM ε Unit) := fp1 (by decide)
instance : Steady D lv (fsqrtS vd vn : EmitM ε Unit) := fp1 (by decide)
instance : Steady D lv (fsqrtD vd vn : EmitM ε Unit) := fp1 (by decide)

instance : Steady D lv (fcmpS vn vm : EmitM ε Unit) :=
  .word (decode_regs3Word_fcmp vm vn (by decide)) rfl rfl nofun

instance : Steady D lv (fcmpD vn vm : EmitM ε Unit) :=
  .word (decode_regs3Word_fcmp vm vn (by decide)) rfl rfl nofun

instance (dst src : BitVec 2) : Steady D lv (insVS vd dst vn src : EmitM ε Unit) :=
  .word (decode_insVS ..) rfl rfl nofun

instance (lane : BitVec 1) (rn : Reg) : Steady D lv (insVDGpr vd lane rn : EmitM ε Unit) :=
  .word (decode_insVDGpr ..) rfl rfl nofun

instance : Steady D lv (addvBV8b vd vn : EmitM ε Unit) :=
  .word (decode_addvB ..) rfl rfl nofun

instance (lane : BitVec 4) (rd : Reg) [NotCtx rd] : Steady D lv (umovWB rd vn lane : EmitM ε Unit) :=
  .word (decode_umovWB ..) rfl rfl (NotCtx.some_ne rd)

instance (lsb width : Nat) (rd rn : Reg) [NotCtx rd] :
    Steady D lv (bfiW rd rn lsb width : EmitM ε Unit) :=
  .bind _ _ (h := fun _ => .word (decode_bfiW ..) rfl rfl (NotCtx.some_ne rd))

/-- `EXT` by an amount that fits its field. -/
theorem ext {imm : BitVec 32} (h : imm.toNat < 16) :
    Steady D lv (extV16b vd vn vm imm : EmitM ε Unit) :=
  .bind _ _ (h := fun _ => .word (decode_extV16b _ _ _ _ h) rfl rfl nofun)

/-- A shift by immediate whose field is that of a lane of at least eight bits. -/
theorem vecShift (op : VecShift) {imm : BitVec 32} (h : 8 ≤ imm.toNat ∧ imm.toNat < 128) :
    Steady D lv (EmitM.push (vecShiftWord (vecShiftBase op) imm vn vd) : EmitM ε Unit) :=
  .word (decode_vecShiftWord _ _ op imm h.2 h.1) rfl rfl nofun

/-- A left shift by less than the lane. -/
theorem shlLane {lane : Nat} {shift : BitVec 32} (hl : 8 ≤ lane ∧ lane ≤ 64)
    (hs : shift.toNat < lane) : Steady D lv (Jit.shlLane lane vd vn shift : EmitM ε Unit) := by
  refine .bind _ _ (h := fun _ => vecShift .shl ?_)
  rw [BitVec.toNat_add, BitVec.toNat_ofNat]
  omega

/-- A right shift by at least one and at most the lane. -/
theorem shrLane (op : VecShift) {lane : Nat} {shift : BitVec 32} (hl : 8 ≤ lane ∧ lane ≤ 64)
    (hs : 1 ≤ shift.toNat ∧ shift.toNat ≤ lane) :
    Steady D lv (Jit.shrLane (vecShiftBase op) lane vd vn shift : EmitM ε Unit) := by
  refine .bind _ _ (h := fun _ => vecShift op ?_)
  rw [BitVec.toNat_sub, BitVec.toNat_ofNat]
  omega

end Vectors

/-! ### Moves -/

section Lifts

variable {inst : Inst}

omit hL in
theorem IsXmm.of_operand {d : BitVec 8} {size : OpSize} (h : (Operand.xmmReg d size).XmmOk) :
    IsXmm d :=
  ⟨h⟩

omit hL in
/-- A lift that starts with its two operands. -/
theorem xmmBinary [hx : inst.XmmOk] {f : Operand → Operand → LiftM Unit}
    (h : ∀ dst src, dst.XmmOk → src.XmmOk → Steady D lv (f dst src)) :
    Steady D lv (do
      let dst ← operand inst.operand0
      let src ← operand inst.operand1
      f dst src) :=
  binary fun dst src hdst hsrc => h dst src (hx.operand0 dst hdst) (hx.operand1 src hsrc)

instance (size : OpSize) (d : BitVec 8) [IsXmm d] (m : Operand) :
    Steady D lv (movqFromMem inst size d m) := by
  refine .bind _ _ (h := fun leftover => ?_)
  cases size <;> infer_instance

instance (op : Op) (size : OpSize) (m : Operand) (s : BitVec 8) [IsXmm s] :
    Steady D lv (movqToMem inst op size m s) := by
  refine .bind _ _ (h := fun leftover => ?_)
  cases size <;> infer_instance

instance (dst src : Operand) : Steady D lv (movqSize dst src) := by
  unfold movqSize
  split <;> infer_instance

instance liftMovqXmm [inst.XmmOk] : Steady D lv (Jit.liftMovqXmm inst) := by
  refine xmmBinary fun dst src hd hs => .bind _ _ (h := fun size => ?_)
  split
  · have := IsXmm.of_operand hd
    have := IsXmm.of_operand hs
    infer_instance
  · have := IsXmm.of_operand hd
    infer_instance
  · have := IsXmm.of_operand hd
    infer_instance
  · have := IsXmm.of_operand hd
    infer_instance
  · have := IsXmm.of_operand hs
    cases size <;> infer_instance
  · have := IsXmm.of_operand hs
    infer_instance
  · have := IsXmm.of_operand hs
    infer_instance
  · infer_instance

instance (op : Op) (size : OpSize) (d : BitVec 8) [IsXmm d] (m : Operand) :
    Steady D lv (movScalarFromMem inst op size d m) := by
  unfold movScalarFromMem
  infer_instance

instance liftMovScalar [inst.XmmOk] (op : Op) (size : OpSize) :
    Steady D lv (Jit.liftMovScalar inst op size) := by
  refine xmmBinary fun dst src hd hs => ?_
  split
  · have := IsXmm.of_operand hd
    have := IsXmm.of_operand hs
    infer_instance
  · have := IsXmm.of_operand hd
    infer_instance
  · have := IsXmm.of_operand hd
    infer_instance
  · have := IsXmm.of_operand hs
    infer_instance
  · have := IsXmm.of_operand hs
    infer_instance
  · infer_instance

theorem loadQ (op : Op) (v : Reg) [NotCtx v] {src : Operand} (hs : src.XmmOk) :
    Steady D lv (Jit.loadQ inst op v src) := by
  unfold Jit.loadQ
  split
  · have := IsXmm.of_operand hs
    infer_instance
  · infer_instance
  · infer_instance
  · infer_instance

instance (m : Operand) (s : BitVec 8) [IsXmm s] : Steady D lv (movdqToMem inst m s) := by
  unfold movdqToMem
  infer_instance

instance liftMovdqXmm [inst.XmmOk] : Steady D lv (Jit.liftMovdqXmm inst) := by
  refine xmmBinary fun dst src hd hs => ?_
  split
  · have := IsXmm.of_operand hd
    have : Steady D lv (Jit.loadQ inst .movdqXmm 16 src) := loadQ _ _ hs
    infer_instance
  · have := IsXmm.of_operand hs
    infer_instance
  · have := IsXmm.of_operand hs
    infer_instance
  · infer_instance

/-! ### Packed operations -/

theorem packedOp [inst.XmmOk] (op : Op) {emit : LiftM Unit} (h : Steady D lv emit) :
    Steady D lv (Jit.packedOp inst op emit) := by
  refine xmmBinary fun dst src hd hs => ?_
  split
  · have := IsXmm.of_operand hd
    have : Steady D lv (Jit.loadQ inst op 17 src) := loadQ _ _ hs
    infer_instance
  · infer_instance

instance liftPackedLogical [inst.XmmOk] (op : PackedLogic) :
    Steady D lv (Jit.liftPackedLogical inst op) :=
  packedOp _ (by cases op <;> infer_instance)

instance liftPackedArith [inst.XmmOk] (op : PackedArith) :
    Steady D lv (Jit.liftPackedArith inst op) :=
  packedOp _ (by cases op <;> exact vec (by decide))

instance liftPcmpeq [inst.XmmOk] (lane : OpSize) : Steady D lv (Jit.liftPcmpeq inst lane) :=
  packedOp _ (by cases lane <;> exact vec (by decide))

instance liftPunpck [inst.XmmOk] (lane : OpSize) (high : Bool) :
    Steady D lv (Jit.liftPunpck inst lane high) :=
  packedOp _ (by cases high <;> cases lane <;> exact vec (by decide))

instance liftPmullw [inst.XmmOk] : Steady D lv (Jit.liftPmullw inst) :=
  packedOp _ (vec (by decide))

instance liftPackedFp [inst.XmmOk] (op : FpPackedOp) :
    Steady D lv (Jit.liftPackedFp inst op) := by
  refine packedOp _ ?_
  cases op <;> cases packedFpSize inst <;> first | exact vec (by decide) | infer_instance

/-! ### Scalar floating point -/

instance (op : Op) (v rn : Reg) [NotCtx v] [General rn] (offset : BitVec 32) (size : OpSize) :
    Steady D lv (loadScalar op v rn offset size) := by
  cases size <;> (unfold loadScalar; infer_instance)

theorem loadScalarOperand (op : Op) (v : Reg) [NotCtx v] {src : Operand} (hs : src.XmmOk)
    (size : OpSize) : Steady D lv (Jit.loadScalarOperand inst op v src size) := by
  unfold Jit.loadScalarOperand
  split
  · have := IsXmm.of_operand hs
    infer_instance
  · infer_instance
  · infer_instance
  · infer_instance

instance (op : FpOp) (size : OpSize) : Steady D lv (emitScalarFp inst op size) := by
  cases op <;> cases size <;> first | exact fp2 (by decide) | exact .fail _

instance liftScalarFp [inst.XmmOk] (op : FpOp) : Steady D lv (Jit.liftScalarFp inst op) := by
  refine xmmBinary fun dst src hd hs => ?_
  split
  · rename_i d size
    have := IsXmm.of_operand hd
    have : Steady D lv (Jit.loadScalarOperand inst inst.op 17 src size) :=
      loadScalarOperand _ _ hs _
    infer_instance
  · infer_instance

instance liftSqrtScalar [inst.XmmOk] : Steady D lv (Jit.liftSqrtScalar inst) := by
  refine xmmBinary fun dst src hd hs => ?_
  split
  · rename_i d size
    have := IsXmm.of_operand hd
    have : Steady D lv (Jit.loadScalarOperand inst inst.op 16 src size) :=
      loadScalarOperand _ _ hs _
    cases size <;> infer_instance
  · infer_instance

instance liftUcomis [inst.XmmOk] : Steady D lv (Jit.liftUcomis inst) := by
  refine xmmBinary fun a b ha hb => ?_
  split
  · rename_i d size
    have := IsXmm.of_operand ha
    have : Steady D lv (Jit.loadScalarOperand inst .ucomisScalar 17 b size) :=
      loadScalarOperand _ _ hb _
    cases size <;> infer_instance
  · infer_instance

/-! ### Conversions -/

instance (src : Operand) : Steady D lv (cvtIntSource inst src) := by
  unfold cvtIntSource
  split <;> infer_instance

instance {vd rn : Reg} : Steady D lv (scvtfSW vd rn : LiftM Unit) := intToFp (by decide)
instance {vd rn : Reg} : Steady D lv (scvtfSX vd rn : LiftM Unit) := intToFp (by decide)
instance {vd rn : Reg} : Steady D lv (scvtfDW vd rn : LiftM Unit) := intToFp (by decide)
instance {vd rn : Reg} : Steady D lv (scvtfDX vd rn : LiftM Unit) := intToFp (by decide)

instance liftCvtIntToScalar [inst.XmmOk] : Steady D lv (Jit.liftCvtIntToScalar inst) := by
  refine xmmBinary fun dst src hd hs => ?_
  split
  · rename_i d fpSize
    have := IsXmm.of_operand hd
    refine .bind _ _ (h := fun intSize => ?_)
    cases fpSize <;> cases intSize <;> infer_instance
  · infer_instance

theorem cvtFpSource {src : Operand} (hs : src.XmmOk) : Steady D lv (Jit.cvtFpSource inst src) := by
  unfold Jit.cvtFpSource
  split
  · have := IsXmm.of_operand hs
    infer_instance
  · infer_instance
  · infer_instance
  · infer_instance

instance liftCvtScalarToInt [inst.XmmOk] (truncate : Bool) :
    Steady D lv (Jit.liftCvtScalarToInt inst truncate) := by
  refine xmmBinary fun dst src hd hs => ?_
  split
  · rename_i r intSize
    have : Steady D lv (Jit.cvtFpSource inst src) := cvtFpSource hs
    refine .bind _ _ (h := fun fpSize => ?_)
    cases truncate <;> cases fpSize <;> cases intSize <;>
      first | exact fpToInt (by decide) | exact .fail _
  · infer_instance

instance liftCvtPrecision [inst.XmmOk] (up : Bool) :
    Steady D lv (Jit.liftCvtPrecision inst up) := by
  refine xmmBinary fun dst src hd hs => ?_
  split
  · have := IsXmm.of_operand hd
    have : Steady D lv (Jit.loadScalarOperand inst inst.op 16 src (if up then .b4 else .b8)) :=
      loadScalarOperand _ _ hs _
    infer_instance
  · infer_instance

/-! ### Shifts and shuffles by immediate -/

/-- A shift by less than the lane. -/
theorem emitPshift (op : PShift) (lane : OpSize) {shift : BitVec 32} (h0 : 1 ≤ shift.toNat)
    (hs : shift.toNat < 8 * lane.bytes) : Steady D lv (Jit.emitPshift inst op lane shift) := by
  have hle : 1 ≤ shift.toNat ∧ shift.toNat ≤ 8 * lane.bytes := ⟨h0, hs.le⟩
  unfold Jit.emitPshift
  split
  · exact shlLane (by decide) hs
  · exact shlLane (by decide) hs
  · exact shlLane (by decide) hs
  · exact shrLane .ushr (by decide) hle
  · exact shrLane .ushr (by decide) hle
  · exact shrLane .ushr (by decide) hle
  · exact shrLane .sshr (by decide) hle
  · exact shrLane .sshr (by decide) hle
  · infer_instance

/-- A shift by the whole lane. -/
theorem emitPshiftAll (op : PShift) (lane : OpSize) {bits : BitVec 32}
    (hb : bits.toNat = 8 * lane.bytes) : Steady D lv (Jit.emitPshiftAll inst op lane bits) := by
  unfold Jit.emitPshiftAll
  split
  · refine shrLane .sshr (by decide) ?_
    rw [BitVec.toNat_sub, hb]
    decide
  · refine shrLane .sshr (by decide) ?_
    rw [BitVec.toNat_sub, hb]
    decide
  · infer_instance
  · infer_instance

/-- The shift by an immediate before the code `k`, once the bits of the lane are known. -/
theorem pshiftBy (op : PShift) (lane : OpSize) {bits shift : BitVec 32} (k : LiftM Unit)
    [Steady D lv k] (hb : bits.toNat = 8 * lane.bytes) :
    Steady D lv (if bits ≤ shift then Jit.emitPshiftAll inst op lane bits >>= fun _ => k
      else if shift = 0 then k else Jit.emitPshift inst op lane shift >>= fun _ => k) := by
  split
  · have : Steady D lv (Jit.emitPshiftAll inst op lane bits) := emitPshiftAll op lane hb
    infer_instance
  · rename_i hlt
    split
    · infer_instance
    · rename_i h0
      have hne : shift.toNat ≠ 0 := fun h => h0 (BitVec.eq_of_toNat_eq h)
      have hs : shift.toNat < bits.toNat := BitVec.lt_def.mp (BitVec.not_le.mp hlt)
      have : Steady D lv (Jit.emitPshift inst op lane shift) :=
        emitPshift op lane (by omega) (by omega)
      infer_instance

instance liftPshiftImm [inst.XmmOk] (lane : OpSize) (op : PShift) :
    Steady D lv (Jit.liftPshiftImm inst lane op) := by
  refine xmmBinary fun dst src hd hs => ?_
  split
  · have := IsXmm.of_operand hd
    cases lane with
    | b1 => exact ⟨fun _ _ _ => .bind .fail⟩
    | b2 => exact .bind (ldrQ 16 28 _) _ (h := fun _ => pshiftBy op .b2 (strQ 16 28 _) rfl)
    | b4 => exact .bind (ldrQ 16 28 _) _ (h := fun _ => pshiftBy op .b4 (strQ 16 28 _) rfl)
    | b8 => exact .bind (ldrQ 16 28 _) _ (h := fun _ => pshiftBy op .b8 (strQ 16 28 _) rfl)
  · infer_instance

/-- The shift of the whole register before the code `k`. -/
theorem pshiftDqBy (left : Bool) (imm : BitVec 32) (k : LiftM Unit) [Steady D lv k] :
    Steady D lv (if imm = 0 then k
      else if 16 ≤ imm then eorV16b 16 16 16 >>= fun _ => k
      else if left then extV16b 16 17 16 (16 - imm) >>= fun _ => k
      else extV16b 16 16 17 imm >>= fun _ => k) := by
  split
  · infer_instance
  · rename_i h0
    split
    · infer_instance
    · rename_i hlt
      have h16 : imm.toNat < 16 := BitVec.lt_def.mp (BitVec.not_le.mp hlt)
      have hne : imm.toNat ≠ 0 := fun h => h0 (BitVec.eq_of_toNat_eq h)
      have hsub : (16 - imm).toNat < 16 := by
        rw [BitVec.toNat_sub]
        simp only [BitVec.ofNat_eq_ofNat, BitVec.toNat_ofNat]
        omega
      have : Steady D lv (extV16b 16 16 17 imm : LiftM Unit) := ext h16
      have : Steady D lv (extV16b 16 17 16 (16 - imm) : LiftM Unit) := ext hsub
      infer_instance

instance liftPshiftDq [hx : inst.XmmOk] (left : Bool) :
    Steady D lv (Jit.liftPshiftDq inst left) := by
  refine unary fun dst hdst => ?_
  have hd := hx.operand0 dst hdst
  split
  · have := IsXmm.of_operand hd
    refine .bind _ _ (h := fun _ => .bind _ _ (h := fun _ => ?_))
    exact pshiftDqBy left _ (strQ 16 28 _)
  · infer_instance

instance (imm : BitVec 8) (lanes : List (BitVec 2)) : Steady D lv (emitShuffle imm lanes) := by
  induction lanes with
  | nil => exact .pure ()
  | cons dst lanes ih =>
    unfold emitShuffle
    infer_instance

instance liftPshufd [inst.XmmOk] : Steady D lv (Jit.liftPshufd inst) := by
  refine xmmBinary fun dst src hd hs => ?_
  split
  · have := IsXmm.of_operand hd
    have : Steady D lv (Jit.loadQ inst .pshufD 17 src) := loadQ _ _ hs
    infer_instance
  · infer_instance

instance liftPmovmskb [inst.XmmOk] : Steady D lv (Jit.liftPmovmskb inst) := by
  refine xmmBinary fun dst src hd hs => ?_
  split
  · have := IsXmm.of_operand hs
    have : Steady D lv (sshrV16b 16 16 7 : LiftM Unit) := shrLane .sshr (by decide) (by decide)
    have : Steady D lv (extV16b 18 16 16 8 : LiftM Unit) := ext (by decide)
    infer_instance
  · infer_instance

end Lifts

end Steady

/-! ### All lifts -/

instance (inst : Inst) [inst.XmmOk] : Steady D lv (liftMovsdXmm inst) :=
  inferInstanceAs (Steady D lv (Jit.liftMovScalar inst .movsdXmm .b8))

instance (inst : Inst) [inst.XmmOk] : Steady D lv (liftMovssXmm inst) :=
  inferInstanceAs (Steady D lv (Jit.liftMovScalar inst .movssXmm .b4))

/-- **A lift keeps an empty host stack empty**, whatever the instruction but `RET`, which leaves the
code.  All but the two that push temporaries are steady. -/
theorem balanced_lift (legacy32 : Bool) (inst : Inst) [inst.XmmOk] (hret : inst.op ≠ .ret) :
    Balanced D lv (lift legacy32 inst) := by
  unfold lift
  generalize inst.op = op at hret
  cases op with
  | ret => exact absurd rfl hret
  | xadd => exact balanced_liftXadd inst
  | callIndirect => exact balanced_liftCallIndirect legacy32 inst
  | _ =>
    dsimp only
    exact Steady.balanced inferInstance

end Quantum.Jit
