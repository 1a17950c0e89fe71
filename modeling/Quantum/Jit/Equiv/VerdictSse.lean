import Quantum.Jit.Equiv.VerdictLabels

/-!
# Where the lifts of SSE instructions panic

The accesses of XMM registers in the guest context fit when the registers exist (`Inst.XmmOk`), and the
shifts by immediate check their amounts before they are encoded; so here too only an access through a guest
address panics.  With the integer lifts this is one table of all lifts (`Inst.hazard`, `panicsAt_lift`).
-/

namespace Quantum.Jit

open A64 (Word Reg)
open EmitM

set_option synthInstance.maxSize 10000

variable {p : Profile}

/-! ### The XMM registers in the context -/

section Xmm

variable {d : BitVec 8} [IsXmm d]

/-- Bytes `k` and on of an XMM register are in reach. -/
theorem inReach_xmm {n k : Nat} {offset : BitVec 32} (hoff : offset.toNat = 160 + 16 * d.toNat + k)
    (hn : n ∣ 16) (hk : n ∣ k) (hle : 0 < n ∧ k < 16) : InReach n offset := by
  have hlt := IsXmm.lt (d := d)
  have hdvd : n ∣ offset.toNat := by
    rw [hoff, show 160 + 16 * d.toNat = 16 * (10 + d.toNat) by omega]
    exact Nat.dvd_add (Dvd.dvd.mul_right hn _) hk
  have hdiv : offset.toNat / n ≤ offset.toNat := Nat.div_le_self _ _
  exact ⟨Nat.mod_eq_zero_of_dvd hdvd, by omega⟩

theorem inReach_xmmLow {n : Nat} (hn : n ∣ 16) (hpos : 0 < n) : InReach n (xmmCtxOffset d) :=
  inReach_xmm (Steady.toNat_xmmCtxOffset d) hn (dvd_zero n) ⟨hpos, by decide⟩

instance : InReach 16 (xmmCtxOffset d) := inReach_xmmLow (by decide) (by decide)
instance : InReach 8 (xmmCtxOffset d) := inReach_xmmLow (by decide) (by decide)
instance : InReach 4 (xmmCtxOffset d) := inReach_xmmLow (by decide) (by decide)

instance (size : OpSize) : InReach size.bytes (xmmCtxOffset d) := by
  cases size <;> exact inReach_xmmLow (by decide) (by decide)

instance : InReach 8 (xmmCtxOffset d + 8) :=
  inReach_xmm (Steady.toNat_xmmCtxOffset_add 8 (by decide)) (by decide) (by decide) (by decide)

instance : InReach 4 (xmmCtxOffset d + 4) :=
  inReach_xmm (Steady.toNat_xmmCtxOffset_add 4 (by decide)) (by decide) (by decide) (by decide)

variable (op : Op) (size : OpSize) (r : Reg)

instance : Calm (loadScalar op r 28 (xmmCtxOffset d) size) := by
  cases size <;> (unfold loadScalar; infer_instance)

instance : Calm (storeScalar op r d size) := by
  cases size <;> (unfold storeScalar; infer_instance)

instance : Calm (storeXmmZeroing op size r d) := by
  cases size <;> (unfold storeXmmZeroing; infer_instance)

end Xmm

/-! ### SIMD words -/

section Vectors

variable (vd vn vm : Reg)

instance : Passes (eorV16b vd vn vm : LiftM Unit) := .push _
instance : Passes (andV16b vd vn vm : LiftM Unit) := .push _
instance : Passes (orrV16b vd vn vm : LiftM Unit) := .push _
instance : Passes (fcvtDS vd vn : LiftM Unit) := .push _
instance : Passes (fcvtSD vd vn : LiftM Unit) := .push _
instance : Passes (fsqrtS vd vn : LiftM Unit) := .push _
instance : Passes (fsqrtD vd vn : LiftM Unit) := .push _
instance : Passes (fcmpS vn vm : LiftM Unit) := .push _
instance : Passes (fcmpD vn vm : LiftM Unit) := .push _
instance : Passes (scvtfSW vd vn : LiftM Unit) := .push _
instance : Passes (scvtfSX vd vn : LiftM Unit) := .push _
instance : Passes (scvtfDW vd vn : LiftM Unit) := .push _
instance : Passes (scvtfDX vd vn : LiftM Unit) := .push _
instance (dst src : BitVec 2) : Passes (insVS vd dst vn src : LiftM Unit) := .push _
instance (lane : BitVec 1) : Passes (insVDGpr vd lane vn : LiftM Unit) := .push _
instance : Passes (addvBV8b vd vn : LiftM Unit) := .push _
instance (lane : BitVec 4) : Passes (umovWB vd vn lane : LiftM Unit) := .push _

theorem calm_push (w : Word) : Calm (EmitM.push w : LiftM Unit) :=
  inferInstance

theorem passes_bfiW (lsb width : Nat) (h : 0 < width ∧ lsb + width ≤ 32) :
    Passes (bfiW vd vn lsb width : LiftM Unit) where
  straight _ := ⟨1, .assert (fun _ => h) (.push _)⟩

/-- `EXT` by an amount that fits its field. -/
theorem passes_ext (imm : BitVec 32) (h : imm.toNat < 16) : Passes (extV16b vd vn vm imm : LiftM Unit) where
  straight _ := ⟨1, .assert (fun _ => h) (.push _)⟩

/-- A left shift by less than the lane. -/
theorem passes_shlLane {lane : Nat} {shift : BitVec 32} (h : shift.toNat < lane) :
    Passes (shlLane lane vd vn shift : LiftM Unit) where
  straight _ := ⟨1, .assert (fun _ => h) (.push _)⟩

/-- A right shift by at least one and at most the lane. -/
theorem passes_shrLane (base : Word) {lane : Nat} {shift : BitVec 32}
    (h : 1 ≤ shift.toNat ∧ shift.toNat ≤ lane) : Passes (shrLane base lane vd vn shift : LiftM Unit) where
  straight _ := ⟨1, .assert (fun _ => h) (.push _)⟩

end Vectors

/-! ### Tables of accesses -/

/-- An access of `n` bytes through the address of an operand. -/
def Operand.hazard (n : Nat) : Operand → Option Hazard
  | .mem m => some (.access m n)
  | _ => none

/-- The same for a scalar, which has four or eight bytes. -/
def Operand.scalarHazard (size : OpSize) (o : Operand) : Option Hazard :=
  if size = .b4 ∨ size = .b8 then o.hazard size.bytes else none

/-- `xmm, [mem]` with an access of sixteen bytes. -/
def packedAccess : Operand → Operand → Option Hazard
  | .xmmReg _ _, src => src.hazard 16
  | _, _ => none

/-- `xmm, [mem]` and `[mem], xmm` with an access of sixteen bytes. -/
def movdqAccess : Operand → Operand → Option Hazard
  | .xmmReg _ _, src => src.hazard 16
  | dst, .xmmReg _ _ => dst.hazard 16
  | _, _ => none

/-- `xmm, [mem]` and `[mem], xmm` at the size of the XMM operand. -/
def movqAccess : Operand → Operand → Option Hazard
  | .xmmReg _ size, src => src.scalarHazard size
  | dst, .xmmReg _ size => dst.scalarHazard size
  | _, _ => none

/-- The same at a fixed size. -/
def movScalarAccess (size : OpSize) : Operand → Operand → Option Hazard
  | .xmmReg _ _, src => src.scalarHazard size
  | dst, .xmmReg _ _ => dst.scalarHazard size
  | _, _ => none

/-- `xmm, [mem]` at the size of the XMM operand. -/
def scalarAccess : Operand → Operand → Option Hazard
  | .xmmReg _ size, src => src.scalarHazard size
  | _, _ => none

/-- `xmm, [mem]` with a scalar of a fixed size. -/
def precisionAccess (size : OpSize) : Operand → Operand → Option Hazard
  | .xmmReg _ _, src => src.scalarHazard size
  | _, _ => none

/-- `xmm, [mem]` with an integer of any size. -/
def fromIntAccess : Operand → Operand → Option Hazard
  | .xmmReg _ _, src => src.hazard src.memSize.bytes
  | _, _ => none

/-- `reg, [mem]` with a scalar. -/
def toIntAccess : Operand → Operand → Option Hazard
  | .reg _ _, src => src.scalarHazard src.memSize
  | _, _ => none

theorem scalarHazard_none (size : OpSize) {o : Operand} (h : o.hazard size.bytes = none) :
    o.scalarHazard size = none := by
  unfold Operand.scalarHazard
  split_ifs
  · exact h
  · rfl

/-! ### Moves -/

section Sse

variable (inst : Inst)

/-- A lift that starts with its two operands. -/
theorem PanicsAt.xmmBinary {inst : Inst} [hx : inst.XmmOk] {f : Operand → Operand → LiftM Unit}
    {table : Operand → Operand → Option Hazard}
    (h : ∀ a b, a.XmmOk → b.XmmOk → PanicsAt (f a b) (table a b)) :
    PanicsAt (do
      let a ← operand inst.operand0
      let b ← operand inst.operand1
      f a b) (inst.pair table) := by
  unfold Inst.pair
  match ha : inst.operand0, hb : inst.operand1 with
  | none, _ => exact never (m := EmitM.fail _)
  | some a, none => exact never (m := EmitM.fail _)
  | some a, some b => exact h a b (hx.operand0 a ha) (hx.operand1 b hb)

section Memory

variable (op : Op) (size : OpSize) (d : BitVec 8) [IsXmm d] (m : Operand) [HasAddress m]

theorem panicsAt_movqFromMem (m : Mem) :
    PanicsAt (movqFromMem inst size d (.mem m)) ((Operand.mem m).scalarHazard size) := by
  cases size <;> (unfold movqFromMem; dsimp only; first | exact .mem | exact .never)

theorem panicsAt_movqFromMem_ripRel (o : BitVec 32) (s : OpSize) :
    PanicsAt (movqFromMem inst size d (.ripRel o s)) none := by
  cases size <;> (unfold movqFromMem; dsimp only; first | exact .ripRel | exact .never)

theorem panicsAt_movqToMem (m : Mem) :
    PanicsAt (movqToMem inst op size (.mem m) d) ((Operand.mem m).scalarHazard size) := by
  cases size <;> (unfold movqToMem; dsimp only; first | exact .mem | exact .never)

theorem panicsAt_movqToMem_ripRel (o : BitVec 32) (s : OpSize) :
    PanicsAt (movqToMem inst op size (.ripRel o s) d) none := by
  cases size <;> (unfold movqToMem; dsimp only; first | exact .ripRel | exact .never)

theorem panicsAt_movScalarFromMem (m : Mem) (hsize : size = .b4 ∨ size = .b8) :
    PanicsAt (movScalarFromMem inst op size d (.mem m)) ((Operand.mem m).scalarHazard size) := by
  unfold Operand.scalarHazard
  rw [if_pos hsize]
  unfold movScalarFromMem
  exact .mem

theorem panicsAt_movScalarFromMem_ripRel (o : BitVec 32) (s : OpSize) :
    PanicsAt (movScalarFromMem inst op size d (.ripRel o s)) none := by
  unfold movScalarFromMem
  exact .ripRel

end Memory

theorem panicsAt_liftMovqXmm [inst.XmmOk] : PanicsAt (liftMovqXmm inst) (inst.pair movqAccess) := by
  refine .xmmBinary fun dst src hd hs => ?_
  cases dst with
  | xmmReg d size =>
    have := Steady.IsXmm.of_operand hd
    cases src with
    | xmmReg s _ =>
      have := Steady.IsXmm.of_operand hs
      dsimp only [movqSize, movqAccess]
      rw [scalarHazard_none size rfl]
      exact .never
    | mem m => exact panicsAt_movqFromMem inst size d m
    | ripRel o s =>
      dsimp only [movqAccess]
      rw [scalarHazard_none size rfl]
      exact panicsAt_movqFromMem_ripRel inst size d o s
    | reg | imm =>
      dsimp only [movqSize, movqAccess]
      rw [scalarHazard_none size rfl]
      exact .never
  | mem m =>
    cases src with
    | xmmReg s size =>
      have := Steady.IsXmm.of_operand hs
      exact panicsAt_movqToMem inst _ size s m
    | reg | mem | ripRel | imm => exact .never (h := .fail_bind _ _)
  | ripRel o z =>
    cases src with
    | xmmReg s size =>
      have := Steady.IsXmm.of_operand hs
      dsimp only [movqAccess]
      rw [scalarHazard_none size rfl]
      exact panicsAt_movqToMem_ripRel inst _ size s o z
    | reg | mem | ripRel | imm => exact .never (h := .fail_bind _ _)
  | reg r _ =>
    cases src with
    | xmmReg s size =>
      have := Steady.IsXmm.of_operand hs
      dsimp only [movqSize]
      cases size <;> exact .never
    | reg | mem | ripRel | imm => exact .never (h := .fail_bind _ _)
  | imm =>
    cases src with
    | xmmReg s size =>
      dsimp only [movqSize, movqAccess]
      rw [scalarHazard_none size rfl]
      exact .never
    | reg | mem | ripRel | imm => exact .never (h := .fail_bind _ _)

theorem panicsAt_liftMovScalar [inst.XmmOk] (op : Op) {size : OpSize} (hsize : size = .b4 ∨ size = .b8) :
    PanicsAt (liftMovScalar inst op size) (inst.pair (movScalarAccess size)) := by
  have htable : ∀ o : Operand, o.scalarHazard size = o.hazard size.bytes := fun o => if_pos hsize
  refine .xmmBinary fun dst src hd hs => ?_
  cases dst with
  | xmmReg d _ =>
    have := Steady.IsXmm.of_operand hd
    cases src with
    | xmmReg s _ =>
      have := Steady.IsXmm.of_operand hs
      dsimp only [movScalarAccess]
      rw [htable]
      exact .never
    | mem m => exact panicsAt_movScalarFromMem inst op size d m hsize
    | ripRel o z =>
      dsimp only [movScalarAccess]
      rw [htable]
      exact panicsAt_movScalarFromMem_ripRel inst op size d o z
    | reg | imm =>
      dsimp only [movScalarAccess]
      rw [htable]
      exact .never
  | mem m =>
    cases src with
    | xmmReg s _ =>
      have := Steady.IsXmm.of_operand hs
      exact panicsAt_movqToMem inst op size s m
    | reg | mem | ripRel | imm => exact .never
  | ripRel o z =>
    cases src with
    | xmmReg s _ =>
      have := Steady.IsXmm.of_operand hs
      dsimp only [movScalarAccess]
      rw [htable]
      exact panicsAt_movqToMem_ripRel inst op size s o z
    | reg | mem | ripRel | imm => exact .never
  | reg | imm =>
    cases src with
    | xmmReg s _ =>
      dsimp only [movScalarAccess]
      rw [htable]
      exact .never
    | reg | mem | ripRel | imm => exact .never

section LoadQ

variable (op : Op) (v : Reg)

instance (s : BitVec 8) (size : OpSize) [IsXmm s] : Calm (loadQ inst op v (.xmmReg s size)) := by
  unfold loadQ
  infer_instance

instance (m : Operand) [h : HasAddress m] : Tries (loadQ inst op v m) 16 m.leftover := by
  cases m with
  | mem m =>
    unfold loadQ
    infer_instance
  | ripRel o z =>
    unfold loadQ
    infer_instance
  | reg | xmmReg | imm => cases h.isMem

instance (r : GpReg) (size : OpSize) : Calm (loadQ inst op v (.reg r size)) :=
  inferInstanceAs (Calm (unsupported op))

instance (imm : BitVec 64) (size : OpSize) : Calm (loadQ inst op v (.imm imm size)) :=
  inferInstanceAs (Calm (unsupported op))

instance (src : Operand) : Uniform (loadQ inst op v src) := by
  unfold loadQ
  cases src <;> infer_instance

end LoadQ

/-- A vector operand before more code. -/
theorem panicsAt_loadQ (op : Op) (v : Reg) {src : Operand} (hs : src.XmmOk) {f : Unit → LiftM Unit}
    [∀ u, Calm (f u)] : PanicsAt (loadQ inst op v src >>= f) (src.hazard 16) := by
  cases src with
  | xmmReg s _ =>
    have := Steady.IsXmm.of_operand hs
    exact .never
  | mem m => exact .mem
  | ripRel o z => exact .ripRel
  | reg | imm => exact .never

theorem panicsAt_liftMovdqXmm [inst.XmmOk] : PanicsAt (liftMovdqXmm inst) (inst.pair movdqAccess) := by
  refine .xmmBinary fun dst src hd hs => ?_
  cases dst with
  | xmmReg d size =>
    have := Steady.IsXmm.of_operand hd
    exact panicsAt_loadQ inst .movdqXmm 16 hs
  | mem m =>
    cases src with
    | xmmReg s _ =>
      have := Steady.IsXmm.of_operand hs
      unfold movdqToMem
      exact .mem
    | reg | mem | ripRel | imm => exact .never
  | ripRel o z =>
    cases src with
    | xmmReg s _ =>
      have := Steady.IsXmm.of_operand hs
      unfold movdqToMem
      exact .ripRel
    | reg | mem | ripRel | imm => exact .never
  | reg | imm => cases src <;> exact .never

/-! ### Packed operations -/

/-- Code before that always ends in a value. -/
theorem PanicsAt.after {m : LiftM Unit} {f : Unit → LiftM Unit} {hazard : Option Hazard} [Passes m]
    [∀ u, Uniform (f u)] (h : PanicsAt (f ()) hazard) : PanicsAt (m >>= f) hazard where
  results := Uniform.results
  panics_iff p := by
    rw [Passes.verdict_bind]
    exact h.panics_iff p

theorem panicsAt_packedOp [inst.XmmOk] (op : Op) (emit : LiftM Unit) [Calm emit] :
    PanicsAt (packedOp inst op emit) (inst.pair packedAccess) := by
  refine .xmmBinary fun dst src hd hs => ?_
  cases dst with
  | xmmReg d size =>
    have := Steady.IsXmm.of_operand hd
    exact .after (panicsAt_loadQ inst op 17 hs)
  | reg | mem | ripRel | imm => exact .never

/-- One word between the loads and the store. -/
theorem panicsAt_packedWord [inst.XmmOk] (op : Op) {emit : LiftM Unit} (h : Passes emit) :
    PanicsAt (packedOp inst op emit) (inst.pair packedAccess) :=
  panicsAt_packedOp inst op emit

theorem panicsAt_liftPackedLogical [inst.XmmOk] (op : PackedLogic) :
    PanicsAt (liftPackedLogical inst op) (inst.pair packedAccess) := by
  cases op <;> exact panicsAt_packedWord inst _ (.push _)

theorem panicsAt_liftPackedArith [inst.XmmOk] (op : PackedArith) :
    PanicsAt (liftPackedArith inst op) (inst.pair packedAccess) := by
  cases op <;> exact panicsAt_packedWord inst _ (.push _)

theorem panicsAt_liftPcmpeq [inst.XmmOk] (lane : OpSize) :
    PanicsAt (liftPcmpeq inst lane) (inst.pair packedAccess) := by
  cases lane <;> exact panicsAt_packedWord inst _ (.push _)

theorem panicsAt_liftPunpck [inst.XmmOk] (lane : OpSize) (high : Bool) :
    PanicsAt (liftPunpck inst lane high) (inst.pair packedAccess) := by
  cases high <;> cases lane <;> exact panicsAt_packedWord inst _ (.push _)

theorem panicsAt_liftPmullw [inst.XmmOk] : PanicsAt (liftPmullw inst) (inst.pair packedAccess) :=
  panicsAt_packedWord inst _ (.push _)

theorem panicsAt_liftPackedFp [inst.XmmOk] (op : FpPackedOp) :
    PanicsAt (liftPackedFp inst op) (inst.pair packedAccess) := by
  unfold liftPackedFp
  cases op <;> cases packedFpSize inst <;>
    first | exact panicsAt_packedWord inst _ (.push _) | exact panicsAt_packedOp inst _ _

/-! ### Scalar floating point -/

section Scalar

variable {inst} {d : BitVec 8} {size : OpSize} {src : Operand} {op : Op} {v : Reg} {f : Unit → LiftM Unit}

instance (offset : BitVec 32) (rn : Reg) : Uniform (loadScalar op v rn offset size) := by
  cases size <;> (unfold loadScalar; infer_instance)

instance : Uniform (loadScalarOperand inst op v src size) := by
  unfold loadScalarOperand
  cases src <;> infer_instance

/-- A scalar operand before more code. -/
theorem panicsAt_loadScalarOperand (hs : src.XmmOk) [∀ u, Calm (f u)] :
    PanicsAt (loadScalarOperand inst op v src size >>= f) (src.scalarHazard size) := by
  cases src with
  | xmmReg s _ =>
    have := Steady.IsXmm.of_operand hs
    rw [scalarHazard_none size rfl]
    unfold loadScalarOperand
    exact .never
  | mem m => cases size <;> (unfold loadScalarOperand loadScalar; dsimp only; first | exact .mem | exact .never)
  | ripRel o z =>
    rw [scalarHazard_none size rfl]
    cases size <;> (unfold loadScalarOperand loadScalar; dsimp only; first | exact .ripRel | exact .never)
  | reg | imm =>
    rw [scalarHazard_none size rfl]
    unfold loadScalarOperand
    exact .never

/-- The destination is loaded first. -/
theorem PanicsAt.afterScalar [IsXmm d] [∀ u, Uniform (f u)] (h : PanicsAt (f ()) (src.scalarHazard size)) :
    PanicsAt (loadScalar op v 28 (xmmCtxOffset d) size >>= f) (src.scalarHazard size) := by
  cases size with
  | b8 => exact .after (m := ldrD v 28 (xmmCtxOffset d)) h
  | b4 => exact .after (m := ldrS v 28 (xmmCtxOffset d)) h
  | b2 | b1 => exact .never (h := .fail_bind _ _)

instance (op : FpOp) : Calm (emitScalarFp inst op size) := by
  cases op <;> cases size <;> first | exact calm_push _ | exact Calm.fail _

end Scalar

theorem panicsAt_liftScalarFp [inst.XmmOk] (op : FpOp) :
    PanicsAt (liftScalarFp inst op) (inst.pair scalarAccess) := by
  refine .xmmBinary fun dst src hd hs => ?_
  cases dst with
  | xmmReg d size =>
    have := Steady.IsXmm.of_operand hd
    exact .afterScalar (panicsAt_loadScalarOperand hs)
  | reg | mem | ripRel | imm => exact .never

theorem panicsAt_liftSqrtScalar [inst.XmmOk] :
    PanicsAt (liftSqrtScalar inst) (inst.pair scalarAccess) := by
  refine .xmmBinary fun dst src hd hs => ?_
  cases dst with
  | xmmReg d size =>
    have := Steady.IsXmm.of_operand hd
    cases size <;> exact panicsAt_loadScalarOperand hs
  | reg | mem | ripRel | imm => exact .never

theorem panicsAt_liftUcomis [inst.XmmOk] : PanicsAt (liftUcomis inst) (inst.pair scalarAccess) := by
  refine .xmmBinary fun a b ha hb => ?_
  cases a with
  | xmmReg d size =>
    have := Steady.IsXmm.of_operand ha
    cases size <;> exact .afterScalar (panicsAt_loadScalarOperand hb)
  | reg | mem | ripRel | imm => exact .never

/-! ### Conversions -/

theorem panicsAt_cvtIntSource (src : Operand) {f : OpSize → LiftM Unit} (h : ∀ s, Calm (f s)) :
    PanicsAt (cvtIntSource inst src >>= f) (src.hazard src.memSize.bytes) := by
  cases src with
  | mem m =>
    dsimp only [cvtIntSource]
    exact .mem
  | ripRel o s =>
    dsimp only [cvtIntSource]
    exact .ripRel
  | reg | xmmReg | imm =>
    dsimp only [cvtIntSource]
    exact .never

theorem panicsAt_liftCvtIntToScalar [inst.XmmOk] :
    PanicsAt (liftCvtIntToScalar inst) (inst.pair fromIntAccess) := by
  refine .xmmBinary fun dst src hd hs => ?_
  cases dst with
  | xmmReg d size =>
    have := Steady.IsXmm.of_operand hd
    refine panicsAt_cvtIntSource inst src fun intSize => ?_
    cases size <;> cases intSize <;> infer_instance
  | reg | mem | ripRel | imm => exact .never

/-- A scalar in memory before more code that depends on its size only. -/
theorem panicsAt_loadScalarMem (op : Op) (m : Mem) (size : OpSize) {f : OpSize → LiftM Unit}
    (h : ∀ s, Calm (f s)) : PanicsAt ((do
      let leftover ← addrIntoXtmp (.mem m) inst 17
      loadScalar op 16 17 leftover size
      pure size : LiftM OpSize) >>= f) ((Operand.mem m).scalarHazard size) := by
  cases size <;> (unfold loadScalar; first | exact .mem | exact .never)

theorem panicsAt_cvtFpSource {src : Operand} (hs : src.XmmOk) {f : OpSize → LiftM Unit}
    (h : ∀ s, Calm (f s)) : PanicsAt (cvtFpSource inst src >>= f) (src.scalarHazard src.memSize) := by
  cases src with
  | mem m =>
    unfold cvtFpSource
    exact panicsAt_loadScalarMem inst _ m m.size h
  | ripRel o s =>
    rw [scalarHazard_none _ rfl]
    unfold cvtFpSource
    cases s <;> (unfold loadScalar; first | exact .ripRel | exact .never)
  | xmmReg s _ =>
    have := Steady.IsXmm.of_operand hs
    rw [scalarHazard_none _ rfl]
    unfold cvtFpSource
    exact .never
  | reg | imm =>
    rw [scalarHazard_none _ rfl]
    unfold cvtFpSource
    exact .never

theorem panicsAt_liftCvtScalarToInt [inst.XmmOk] (truncate : Bool) :
    PanicsAt (liftCvtScalarToInt inst truncate) (inst.pair toIntAccess) := by
  refine .xmmBinary fun dst src hd hs => ?_
  cases dst with
  | reg r size =>
    refine panicsAt_cvtFpSource inst hs fun fpSize => ?_
    cases truncate <;> cases fpSize <;> cases size <;> first | exact calm_push _ | exact Calm.fail _
  | xmmReg | mem | ripRel | imm => exact .never

theorem panicsAt_liftCvtPrecision [inst.XmmOk] (up : Bool) : PanicsAt (liftCvtPrecision inst up)
    (inst.pair (precisionAccess (if up then .b4 else .b8))) := by
  refine .xmmBinary fun dst src hd hs => ?_
  cases dst with
  | xmmReg d size =>
    have := Steady.IsXmm.of_operand hd
    cases up <;> exact panicsAt_loadScalarOperand hs
  | reg | mem | ripRel | imm => exact .never

/-! ### Shifts and shuffles by immediate -/

/-- A shift by less than the lane. -/
theorem calm_emitPshift (op : PShift) (lane : OpSize) (shift : BitVec 32) (h0 : 1 ≤ shift.toNat)
    (hs : shift.toNat < 8 * lane.bytes) : Calm (emitPshift inst op lane shift) := by
  have left : ∀ {n : Nat}, shift.toNat < n → Calm (shlLane n 16 16 shift : LiftM Unit) := fun h =>
    have := passes_shlLane 16 16 h
    inferInstance
  have right : ∀ (base : Word) {n : Nat}, shift.toNat < n → Calm (shrLane base n 16 16 shift : LiftM Unit) :=
    fun base _ h =>
      have := passes_shrLane 16 16 base ⟨h0, h.le⟩
      inferInstance
  cases op <;> cases lane <;> first | exact left hs | exact right _ hs | exact Calm.fail _

/-- A shift by the whole lane. -/
theorem calm_emitPshiftAll (op : PShift) (lane : OpSize) {bits : BitVec 32}
    (hb : bits.toNat = 8 * lane.bytes) : Calm (emitPshiftAll inst op lane bits) := by
  have right : ∀ (base : Word), lane ≠ .b1 →
      Calm (shrLane base (8 * lane.bytes) 16 16 (bits - 1) : LiftM Unit) := fun base _ => by
    have hsub : 1 ≤ (bits - 1).toNat ∧ (bits - 1).toNat ≤ 8 * lane.bytes := by
      rw [BitVec.toNat_sub, hb]
      cases lane <;> decide
    have := passes_shrLane 16 16 base hsub
    infer_instance
  have clear : Calm (eorV16b 16 16 16 : LiftM Unit) := inferInstance
  cases op <;> cases lane <;> first | exact clear | exact right _ nofun | exact Calm.fail _

/-- The shift by an immediate before the code `k`, once the bits of the lane are known. -/
theorem calm_pshiftBy (op : PShift) (lane : OpSize) {bits shift : BitVec 32} (k : LiftM Unit) [Calm k]
    (hb : bits.toNat = 8 * lane.bytes) :
    Calm (if bits ≤ shift then emitPshiftAll inst op lane bits >>= fun _ => k
      else if shift = 0 then k else emitPshift inst op lane shift >>= fun _ => k) := by
  split
  · have := calm_emitPshiftAll inst op lane hb
    infer_instance
  · rename_i hlt
    split
    · infer_instance
    · rename_i h0
      have hne : shift.toNat ≠ 0 := fun h => h0 (BitVec.eq_of_toNat_eq h)
      have hs : shift.toNat < bits.toNat := BitVec.lt_def.mp (BitVec.not_le.mp hlt)
      have := calm_emitPshift inst op lane shift (by omega) (by omega)
      infer_instance

theorem Inst.pair_none : (inst.pair fun _ _ => none) = none := by
  unfold Inst.pair
  cases inst.operand0 with
  | none => rfl
  | some a => cases inst.operand1 <;> rfl

theorem panicsAt_liftPshiftImm [inst.XmmOk] (lane : OpSize) (op : PShift) :
    PanicsAt (liftPshiftImm inst lane op) none := by
  rw [← inst.pair_none]
  refine .xmmBinary fun dst src hd hs => ?_
  cases dst with
  | xmmReg d _ =>
    have := Steady.IsXmm.of_operand hd
    cases src with
    | imm v _ =>
      cases lane with
      | b1 => exact .never (h := .fail_bind _ _)
      | b2 => exact .never (h := .bind (ldrQ 16 28 _) _ (h := fun _ => calm_pshiftBy inst op .b2 (strQ 16 28 _) rfl))
      | b4 => exact .never (h := .bind (ldrQ 16 28 _) _ (h := fun _ => calm_pshiftBy inst op .b4 (strQ 16 28 _) rfl))
      | b8 => exact .never (h := .bind (ldrQ 16 28 _) _ (h := fun _ => calm_pshiftBy inst op .b8 (strQ 16 28 _) rfl))
    | reg | xmmReg | mem | ripRel => exact .never
  | reg | mem | ripRel | imm => cases src <;> exact .never

/-- The shift of the whole register before the code `k`. -/
theorem calm_pshiftDqBy (left : Bool) (imm : BitVec 32) (k : LiftM Unit) [Calm k] :
    Calm (if imm = 0 then k
      else if 16 ≤ imm then eorV16b 16 16 16 >>= fun _ => k
      else if left then extV16b 16 17 16 (16 - imm) >>= fun _ => k
      else extV16b 16 16 17 imm >>= fun _ => k) := by
  split
  · infer_instance
  · rename_i h0
    split
    · infer_instance
    · rename_i hlt
      have h16 : imm.toNat < 16 := BitVec.lt_def.mp (BitVec.not_le.mp hlt)
      have hne : imm.toNat ≠ 0 := fun h => h0 (BitVec.eq_of_toNat_eq h)
      have hsub : (16 - imm).toNat < 16 := by
        rw [BitVec.toNat_sub]
        simp only [BitVec.ofNat_eq_ofNat, BitVec.toNat_ofNat]
        omega
      have := passes_ext 16 16 17 _ h16
      have := passes_ext 16 17 16 _ hsub
      infer_instance

/-- Code that starts with an operand. -/
theorem calm_operand {o : Option Operand} {f : Operand → LiftM Unit} (h : ∀ a, o = some a → Calm (f a)) :
    Calm (operand o >>= f) := by
  cases o with
  | none => exact .fail_bind _ _
  | some a => exact h a rfl

instance [hx : inst.XmmOk] (left : Bool) : Calm (liftPshiftDq inst left) := by
  refine calm_operand fun dst hdst => ?_
  have hd := hx.operand0 dst hdst
  split
  · have := Steady.IsXmm.of_operand hd
    refine .bind (ldrQ 16 28 _) _ (h := fun _ => .bind (eorV16b 17 17 17) _ (h := fun _ => ?_))
    exact calm_pshiftDqBy left _ (strQ 16 28 _)
  · infer_instance

instance (imm : BitVec 8) (lanes : List (BitVec 2)) : Passes (emitShuffle imm lanes) := by
  induction lanes with
  | nil => exact .pure ()
  | cons dst lanes ih =>
    unfold emitShuffle
    infer_instance

/-- The third operand of a shuffle is an immediate. -/
def shuffleHazard (inst : Inst) : Option Hazard :=
  match inst.operand2 with
  | some (.imm _ _) => inst.pair packedAccess
  | _ => none

theorem panicsAt_liftPshufd [inst.XmmOk] : PanicsAt (liftPshufd inst) (shuffleHazard inst) := by
  unfold shuffleHazard
  split
  · rename_i v size h2
    refine .xmmBinary fun dst src hd hs => ?_
    rw [h2]
    cases dst with
    | xmmReg d _ =>
      have := Steady.IsXmm.of_operand hd
      exact panicsAt_loadQ inst .pshufD 17 hs
    | reg | mem | ripRel | imm => exact .never
  · rename_i h2
    rw [← inst.pair_none]
    refine .xmmBinary fun dst src hd hs => ?_
    split
    · rename_i h2'
      exact absurd h2' (h2 _ _)
    · exact .never

theorem panicsAt_liftPmovmskb [inst.XmmOk] : PanicsAt (liftPmovmskb inst) none := by
  rw [← inst.pair_none]
  refine .xmmBinary fun dst src hd hs => ?_
  cases dst with
  | reg r _ =>
    cases src with
    | xmmReg s _ =>
      have := Steady.IsXmm.of_operand hs
      have : Passes (sshrV16b 16 16 7 : LiftM Unit) := passes_shrLane 16 16 _ (by decide)
      have := passes_ext 18 16 16 8 (by decide)
      have := passes_bfiW (hostReg r) 17 8 8 (by decide)
      exact .never
    | reg | mem | ripRel | imm => exact .never
  | xmmReg | mem | ripRel | imm => cases src <;> exact .never

/-! ### All lifts -/

/-- What the lift of an instruction may panic at. -/
def Inst.hazard (legacy32 : Bool) : Option Hazard :=
  match inst.op with
  | .mov | .cmp => inst.pair moveAccess
  | .movzx | .movsx => inst.pair extendAccess
  | .add | .sub | .and | .or | .xor | .test => inst.pair aluAccess
  | .lea => inst.pair leaImm
  | .adc | .sbb | .bsr | .bsf => inst.pair toRegAccess
  | .inc | .dec | .neg | .not | .mul | .div | .idiv => inst.operand0.bind unaryAccess
  | .imul => if inst.operand1 = none then inst.operand0.bind unaryAccess else inst.pair toRegAccess
  | .xchg => inst.pair exchangeAccess
  | .cmpxchg | .xadd => inst.pair toMemAccess
  | .movqXmm => inst.pair movqAccess
  | .movsdXmm => inst.pair (movScalarAccess .b8)
  | .movssXmm => inst.pair (movScalarAccess .b4)
  | .movdqXmm => inst.pair movdqAccess
  | .pxorXmm | .pandXmm | .porXmm | .paddQ | .psubQ | .paddD | .psubD | .paddW | .psubW | .paddB | .psubB
  | .addPacked | .subPacked | .mulPacked | .divPacked | .pcmpeqLane _ | .pmullW | .punpckLow _
  | .punpckHigh _ => inst.pair packedAccess
  | .addScalar | .subScalar | .mulScalar | .divScalar | .minScalar | .maxScalar | .sqrtScalar
  | .ucomisScalar => inst.pair scalarAccess
  | .cvtIntToScalar => inst.pair fromIntAccess
  | .cvtScalarToInt | .cvtScalarToIntTrunc => inst.pair toIntAccess
  | .cvtSsToSd => inst.pair (precisionAccess .b4)
  | .cvtSdToSs => inst.pair (precisionAccess .b8)
  | .pshufD => shuffleHazard inst
  | .callIndirect => inst.operand0.bind (pointerAccess legacy32)
  | _ => none

/-- **A lift panics exactly when its hazard strikes.** -/
theorem panicsAt_lift (legacy32 : Bool) [inst.XmmOk] :
    PanicsAt (lift legacy32 inst) (inst.hazard legacy32) := by
  unfold lift Inst.hazard
  generalize inst.op = op
  cases op with
  | mov => exact panicsAt_liftMov inst
  | cmp => exact panicsAt_liftCmp inst
  | movzx | movsx => exact panicsAt_liftMovzxOrMovsx inst _
  | add | sub => exact panicsAt_liftArith inst _
  | and | or => exact panicsAt_liftBitop inst _
  | xor => exact panicsAt_liftXor inst
  | test => exact panicsAt_liftTest inst
  | lea => exact panicsAt_liftLea inst
  | adc | sbb => exact panicsAt_liftAddc inst _
  | bsr | bsf => exact panicsAt_liftBitscan inst _
  | inc | dec | neg | not => exact panicsAt_unaryOp inst _ _
  | mul | div | idiv => exact panicsAt_liftDivmul inst _
  | imul =>
    dsimp only
    split_ifs
    · exact panicsAt_liftDivmul inst _
    · exact panicsAt_liftImulNOperand inst
  | xchg => exact panicsAt_liftXchg inst
  | cmpxchg => exact panicsAt_liftCmpxchg inst
  | xadd => exact panicsAt_liftXadd inst
  | movqXmm => exact panicsAt_liftMovqXmm inst
  | movsdXmm => exact panicsAt_liftMovScalar inst _ (.inr rfl)
  | movssXmm => exact panicsAt_liftMovScalar inst _ (.inl rfl)
  | movdqXmm => exact panicsAt_liftMovdqXmm inst
  | pxorXmm | pandXmm | porXmm => exact panicsAt_liftPackedLogical inst _
  | paddQ | psubQ | paddD | psubD | paddW | psubW | paddB | psubB => exact panicsAt_liftPackedArith inst _
  | addPacked | subPacked | mulPacked | divPacked => exact panicsAt_liftPackedFp inst _
  | pcmpeqLane lane => exact panicsAt_liftPcmpeq inst lane
  | pmullW => exact panicsAt_liftPmullw inst
  | punpckLow lane | punpckHigh lane => exact panicsAt_liftPunpck inst lane _
  | addScalar | subScalar | mulScalar | divScalar | minScalar | maxScalar => exact panicsAt_liftScalarFp inst _
  | sqrtScalar => exact panicsAt_liftSqrtScalar inst
  | ucomisScalar => exact panicsAt_liftUcomis inst
  | cvtIntToScalar => exact panicsAt_liftCvtIntToScalar inst
  | cvtScalarToInt | cvtScalarToIntTrunc => exact panicsAt_liftCvtScalarToInt inst _
  | cvtSsToSd => exact panicsAt_liftCvtPrecision inst true
  | cvtSdToSs => exact panicsAt_liftCvtPrecision inst false
  | pshufD => exact panicsAt_liftPshufd inst
  | callIndirect => exact panicsAt_liftCallIndirect inst legacy32
  | psllImm lane | psrlImm lane | psraImm lane => exact panicsAt_liftPshiftImm inst lane _
  | pmovmskB => exact panicsAt_liftPmovmskb inst
  | unhandled => exact .never (h := .fail _)
  | movs | stos => exact .never (h := inferInstanceAs (Calm (liftString inst _)))
  | _ => exact .never

end Sse

end Quantum.Jit
