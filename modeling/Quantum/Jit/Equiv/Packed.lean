import Quantum.A64.Equiv.Lanes
import Quantum.Jit.Equiv.Address
import Quantum.Jit.Equiv.SteadySse
import Quantum.X86.Packed

/-!
# Packed integer instructions

The lifts of the SSE2 packed-integer instructions load their operands from the XMM slots of the context to
`V16` and `V17`, compute in `V16` (`VecCode`) and store the slot of the destination (`StoresXmm`).  What they
compute is what the instruction does lane by lane.
-/

namespace Quantum.Jit

open A64
open EmitM

variable {p : Profile} {env : Env}

/-! ### XMM registers -/

/-- The address of an XMM register in the context at `ctx`. -/
def xmmSlot (ctx : BitVec 64) (d : BitVec 8) : BitVec 64 :=
  ctx + (xmmCtxOffset d).setWidth 64

/-- The value of an XMM register. -/
def xmm (s : State) (d : BitVec 8) : BitVec 128 :=
  s.mem.read 128 16 (xmmSlot (s.x 28#5) d)

theorem fits_xmmCtxOffset {d : BitVec 8} (hd : d.toNat < 16) : Fits 16 (xmmCtxOffset d) := by
  have hoff := Steady.toNat_xmmCtxOffset d
  refine ⟨?_, ?_⟩
  · omega
  · omega

/-- The slots of different registers do not overlap. -/
theorem xmmSlot_disjoint (ctx : BitVec 64) {d q : BitVec 8} (h : q ≠ d) :
    Disjoint64 (xmmSlot ctx q) 16 (xmmSlot ctx d) 16 := by
  intro c hq hd
  have hne : q.toNat ≠ d.toNat := fun heq => h (BitVec.eq_of_toNat_eq heq)
  have hoff : ∀ r : BitVec 8, ((xmmCtxOffset r).setWidth 64).toNat = 160 + 16 * r.toNat := by
    intro r
    have hr := r.isLt
    rw [BitVec.toNat_setWidth, Steady.toNat_xmmCtxOffset]
    omega
  have h₁ := ByteMem.toNat_sub_add c ctx ((xmmCtxOffset q).setWidth 64)
  have h₂ := ByteMem.toNat_sub_add c ctx ((xmmCtxOffset d).setWidth 64)
  rw [hoff] at h₁ h₂
  rw [InRange, xmmSlot] at hq hd
  have hq8 := q.isLt
  have hd8 := d.isLt
  omega

/-- XMM register `d` becomes `v`, and nothing else of the guest changes. -/
structure WritesXmm (d : BitVec 8) (v : BitVec 128) (s s' : State) : Prop where
  slot : xmm s' d = v
  others : ∀ q, q ≠ d → xmm s' q = xmm s q
  regs : guest s' = guest s
  mem : ∀ b, ¬ InRange (xmmSlot (s.x 28#5) d) 16 b → s'.mem b = s.mem b

/-- The code stores `f s` to the slot of XMM register `d`. -/
def StoresXmm (d : BitVec 8) (f : State → BitVec 128) (s s' : State) : Prop :=
  s'.x = s.x ∧ s'.mem = s.mem.write 16 (xmmSlot (s.x 28#5) d) (f s)

theorem StoresXmm.writes {d : BitVec 8} {f : State → BitVec 128} {s s' : State} (h : StoresXmm d f s s') :
    WritesXmm d (f s) s s' := by
  obtain ⟨hx, hmem⟩ := h
  refine ⟨?_, fun q hq => ?_, ?_, fun b hb => ?_⟩
  · rw [xmm, hx, hmem, ByteMem.read_write_self 128 _ _ _ (by decide)]
    simp
  · rw [xmm, hx, hmem, ByteMem.read_write_of_disjoint 128 (xmmSlot_disjoint _ hq)]
    rfl
  · funext g
    rw [guest, hx]
    rfl
  · rw [hmem, ByteMem.write_of_not_inRange hb]

/-! ### Loads and stores of whole registers -/

/-- The load or store of an XMM register. -/
def xmmInsn (opc : BitVec 2) (v : Reg) (d : BitVec 8) : Insn :=
  .ldst 0 true opc (BitVec.ofNat 12 ((xmmCtxOffset d).toNat / 16)) 28 v

section Access

variable {v : Reg} {d : BitVec 8} {ε : Type} {Q : Unit → List (Option Insn) → Prop}

theorem emits_loadXmm (hd : d.toNat < 16) (h : Q () [some (xmmInsn 3 v d)]) :
    Emits p (ldrQ v 28 (xmmCtxOffset d) : EmitM ε Unit) Q :=
  emits_ldstScaled_of_fits (by decide) (.inr (fits_xmmCtxOffset hd)) fun _ => h

theorem emits_storeXmm (hd : d.toNat < 16) (h : Q () [some (xmmInsn 2 v d)]) :
    Emits p (strQ v 28 (xmmCtxOffset d) : EmitM ε Unit) Q :=
  emits_ldstScaled_of_fits (by decide) (.inr (fits_xmmCtxOffset hd)) fun _ => h

theorem does_loadXmm (v : Reg) (hd : d.toNat < 16) :
    Does (fun s s' => s' = s.writeV v (xmm s d)) [some (xmmInsn 3 v d)] := by
  intro env pc s
  have haddr := @ldstAddr_ofNat 28 16 _ (fits_xmmCtxOffset hd) s
  refine ⟨_, rfl, ?_⟩
  exact congrArg (fun a => s.writeV v (s.mem.read 128 16 a)) haddr

theorem does_storeXmm (v : Reg) (hd : d.toNat < 16) :
    Does (fun s s' => s' = { s with mem := s.mem.write 16 (xmmSlot (s.x 28#5) d) (s.v v) })
      [some (xmmInsn 2 v d)] := by
  intro env pc s
  have haddr := @ldstAddr_ofNat 28 16 _ (fits_xmmCtxOffset hd) s
  refine ⟨_, rfl, ?_⟩
  exact congrArg (fun a => ({ s with mem := s.mem.write 16 a (s.v v) } : State)) haddr

end Access

/-! ### Vector code -/

/-- The code computes `f` of `V16` and `V17` in `V16`, and changes vectors only. -/
def VecCode (f : BitVec 128 → BitVec 128 → BitVec 128) : List (Option Insn) → Prop :=
  Does fun s s' => s'.v 16#5 = f (s.v 16#5) (s.v 17#5) ∧ s'.x = s.x ∧ s'.mem = s.mem

theorem VecCode.congr {f g : BitVec 128 → BitVec 128 → BitVec 128} {is : List (Option Insn)}
    (h : VecCode f is) (hfg : ∀ a b, f a b = g a b) : VecCode g is := by
  refine h.mono fun s s' hs => ?_
  rw [← hfg]
  exact hs

/-- The code before the store of `V16` to the slot of `d`. -/
theorem VecCode.stores {f : BitVec 128 → BitVec 128 → BitVec 128} {is : List (Option Insn)} (h : VecCode f is)
    {d : BitVec 8} (hd : d.toNat < 16) :
    Does (StoresXmm d fun s => f (s.v 16#5) (s.v 17#5)) (is ++ [some (xmmInsn 2 16 d)]) := by
  refine (h.append (does_storeXmm 16 hd)).mono ?_
  rintro s s' ⟨t, ⟨hv, hx, hmem⟩, rfl⟩
  refine ⟨hx, ?_⟩
  show t.mem.write 16 (xmmSlot (t.x 28#5) d) (t.v 16#5) = _
  rw [hmem, hx, hv]

theorem vecCode_nil : VecCode (fun a _ => a) [] :=
  fun _ _ s => ⟨s, rfl, rfl, rfl, rfl⟩

/-- An operation on two vectors, in the table of the decoder. -/
theorem emits_vec3 {ε : Type} {base : Word} {op : VecOp} {vd vn vm : Reg}
    {Q : Unit → List (Option Insn) → Prop} (he : (base, op) ∈ vecTable) (h : Q () [some (.vec op vm vn vd)]) :
    Emits p (vec3 base vd vn vm : EmitM ε Unit) Q :=
  Emits.push (by rw [decode_regs3Word_vec _ _ _ he]; exact h)

theorem vecCode_vec (op : VecOp) : VecCode (execVec op) [some (.vec op 17 16 16)] := by
  intro env pc s
  refine ⟨_, rfl, ?_, rfl, rfl⟩
  rw [State.v_writeV, if_pos (show (16#5 : Reg) = 16 from rfl)]
  rfl

/-- An operation on `V16` and itself. -/
theorem vecCode_self (op : VecOp) : VecCode (fun a _ => execVec op a a) [some (.vec op 16 16 16)] := by
  intro env pc s
  refine ⟨_, rfl, ?_, rfl, rfl⟩
  rw [State.v_writeV, if_pos (show (16#5 : Reg) = 16 from rfl)]
  rfl

theorem emits_zeroV16 {ε : Type} :
    Emits p (eorV16b 16 16 16 : EmitM ε Unit) fun _ is => VecCode (fun _ _ => 0) is :=
  emits_vec3 (by decide) ((vecCode_self .eor).congr fun a _ => BitVec.xor_self)

/-! ### Two vectors -/

/-- The two-operand instructions. -/
def packedOf : Op → Option X86.PackedOp
  | .pxorXmm => some .xor
  | .pandXmm => some .and
  | .porXmm => some .or
  | .paddQ => some (.add 64)
  | .paddD => some (.add 32)
  | .paddW => some (.add 16)
  | .paddB => some (.add 8)
  | .psubQ => some (.sub 64)
  | .psubD => some (.sub 32)
  | .psubW => some (.sub 16)
  | .psubB => some (.sub 8)
  | .pcmpeqLane lane => some (.cmpeq (8 * lane.bytes))
  | .pmullW => some (.mull 16)
  | .punpckLow lane => some (.unpackLow (8 * lane.bytes))
  | .punpckHigh lane => some (.unpackHigh (8 * lane.bytes))
  | _ => none

theorem emits_packedOp {inst : Inst} {op : Op} {emit : LiftM Unit} {f : BitVec 128 → BitVec 128 → BitVec 128}
    {d q : BitVec 8} {m₀ m₁ : OpSize} (h0 : inst.operand0 = some (.xmmReg d m₀))
    (h1 : inst.operand1 = some (.xmmReg q m₁)) (hd : d.toNat < 16) (hq : q.toNat < 16)
    (hemit : Emits p emit fun _ is => VecCode f is) :
    Emits p (packedOp inst op emit) fun _ is => Does (StoresXmm d fun s => f (xmm s d) (xmm s q)) is := by
  unfold packedOp
  refine Emits.bind (Emits.okOr fun dst hdst => Emits.bind (Emits.okOr fun src hsrc => ?_))
  cases h0.symm.trans hdst
  cases h1.symm.trans hsrc
  refine Emits.bind (emits_loadXmm hd (Emits.bind (emits_loadXmm hq (Emits.bind
    (hemit.mono fun _ is hcode => emits_storeXmm hd ?_)))))
  refine ((does_loadXmm 16 hd).append ((does_loadXmm 17 hq).append (hcode.stores hd))).mono ?_
  rintro s s' ⟨t, rfl, u, rfl, hstores⟩
  exact hstores

/-- The vector operation of the host that the lifter takes. -/
def neonOf : X86.PackedOp → VecOp
  | .xor => .eor
  | .and => .and
  | .or => .orr
  | .add k => .add k
  | .sub k => .sub k
  | .cmpeq k => .cmeq k
  | .mull k => .mul k
  | .unpackLow k => .zip1 k
  | .unpackHigh k => .zip2 k

theorem execVec_neonOf {op : Op} {x : X86.PackedOp} (hx : packedOf op = some x) (a b : BitVec 128) :
    execVec (neonOf x) a b = x.eval a b := by
  cases op with
  | pxorXmm | pandXmm | porXmm =>
    cases hx
    rfl
  | paddQ | paddD | paddW | paddB | psubQ | psubD | psubW | psubB | pmullW =>
    cases hx
    exact mapLanes_eq (by decide) _ a b
  | pcmpeqLane lane =>
    cases hx
    exact mapLanes_eq (by cases lane <;> decide) _ a b
  | punpckLow lane =>
    cases hx
    have hzip := zipLanes_eq (k := 8 * lane.bytes) (by cases lane <;> decide) 0 a b
    simp only [Nat.zero_add] at hzip
    exact hzip
  | punpckHigh lane =>
    cases hx
    exact zipLanes_eq (by cases lane <;> decide) _ a b
  | _ => cases hx

theorem emits_packed {legacy32 : Bool} {inst : Inst} {x : X86.PackedOp} (hx : packedOf inst.op = some x)
    {d q : BitVec 8} {m₀ m₁ : OpSize} (h0 : inst.operand0 = some (.xmmReg d m₀))
    (h1 : inst.operand1 = some (.xmmReg q m₁)) (hd : d.toNat < 16) (hq : q.toNat < 16) :
    Emits p (lift legacy32 inst) fun _ is => Does (StoresXmm d fun s => x.eval (xmm s d) (xmm s q)) is := by
  have hvec : ∀ {base : Word} {o : Op}, (base, neonOf x) ∈ vecTable →
      Emits p (packedOp inst o (vec3 base 16 16 17)) fun _ is =>
        Does (StoresXmm d fun s => x.eval (xmm s d) (xmm s q)) is := by
    intro base o he
    exact emits_packedOp h0 h1 hd hq (emits_vec3 he ((vecCode_vec _).congr (execVec_neonOf hx)))
  unfold lift
  cases hop : inst.op with
  | pxorXmm | pandXmm | porXmm | paddQ | paddD | paddW | paddB | psubQ | psubD | psubW | psubB | pmullW =>
    rw [hop] at hx
    cases hx
    exact hvec (by decide)
  | pcmpeqLane lane | punpckLow lane | punpckHigh lane =>
    rw [hop] at hx
    cases hx
    cases lane <;> exact hvec (by decide)
  | _ =>
    rw [hop] at hx
    cases hx

/-! ### Shifts by an immediate -/

theorem vecShiftLane_eq : ∀ b : BitVec 7, ∀ k ∈ [8, 16, 32, 64], k ≤ b.toNat → b.toNat < 2 * k →
    vecShiftLane b = k := by
  decide

/-- A shift by immediate, by the lane and the field. -/
theorem execVecShift_eq {k : Nat} (hk : k ∈ [8, 16, 32, 64]) {immhb : BitVec 7} (h₁ : k ≤ immhb.toNat)
    (h₂ : immhb.toNat < 2 * k) (a : BitVec 128) :
    execVecShift .shl immhb a = (ofLanes 128 fun i => lane k a i <<< (immhb.toNat - k)) ∧
    execVecShift .ushr immhb a = (ofLanes 128 fun i => lane k a i >>> (2 * k - immhb.toNat)) ∧
    execVecShift .sshr immhb a = ofLanes 128 fun i => (lane k a i).sshiftRight (2 * k - immhb.toNat) := by
  have hdvd : ∀ k ∈ [8, 16, 32, 64], k ∣ 128 := by
    decide
  have hlane := vecShiftLane_eq immhb k hk h₁ h₂
  subst hlane
  have hd := hdvd _ hk
  exact ⟨mapLanes_eq hd _ a a, mapLanes_eq hd _ a a, mapLanes_eq hd _ a a⟩

/-- The vector shift of the host that the lifter takes. -/
def neonShift : X86.PackedShift → VecShift
  | .sll => .shl
  | .srl => .ushr
  | .sra => .sshr

theorem vecCode_shift (op : VecShift) (immhb : BitVec 7) :
    VecCode (fun a _ => execVecShift op immhb a) [some (.vecShift op immhb 16 16)] := by
  intro env pc s
  refine ⟨_, rfl, ?_, rfl, rfl⟩
  rw [State.v_writeV, if_pos (show (16#5 : Reg) = 16 from rfl)]
  rfl

theorem emits_shlLane {ε : Type} {k : Nat} (hk : k ∈ [8, 16, 32, 64]) {shift : BitVec 32}
    (hs : shift.toNat < k) : Emits p (shlLane k 16 16 shift : EmitM ε Unit) fun _ is =>
      VecCode (fun a _ => X86.PackedShift.sll.eval k shift.toNat a) is := by
  have hle : ∀ k ∈ [8, 16, 32, 64], 8 ≤ k ∧ k ≤ 64 := by
    decide
  obtain ⟨h8, h64⟩ := hle k hk
  have hfield : (BitVec.ofNat 32 k + shift).toNat = k + shift.toNat := by
    rw [BitVec.toNat_add, BitVec.toNat_ofNat]
    omega
  have himm : ((BitVec.ofNat 32 k + shift).setWidth 7).toNat = k + shift.toNat := by
    rw [BitVec.toNat_setWidth, hfield]
    omega
  refine Emits.bind (Emits.debugAssert fun _ => Emits.push ?_)
  have hdec := decode_vecShiftWord 16 16 .shl (BitVec.ofNat 32 k + shift) (by omega) (by omega)
  rw [show vecShiftWord (vecShiftBase .shl) (BitVec.ofNat 32 k + shift) 16 16
    = vecShiftWord 0x4F005400#32 (BitVec.ofNat 32 k + shift) 16 16 from rfl] at hdec
  rw [hdec]
  refine (vecCode_shift _ _).congr fun a _ => ?_
  rw [(execVecShift_eq hk (by omega) (by omega) a).1, himm, Nat.add_sub_cancel_left]
  simp [X86.PackedShift.eval, hs]

/-- A right shift of at least one bit. -/
theorem emits_shrLane {ε : Type} {sh : X86.PackedShift} (hsh : sh ≠ .sll) {k : Nat} (hk : k ∈ [8, 16, 32, 64])
    {shift : BitVec 32} (hpos : 0 < shift.toNat) (hs : shift.toNat < k) :
    Emits p (shrLane (vecShiftBase (neonShift sh)) k 16 16 shift : EmitM ε Unit) fun _ is =>
      VecCode (fun a _ => sh.eval k shift.toNat a) is := by
  have hle : ∀ k ∈ [8, 16, 32, 64], 8 ≤ k ∧ k ≤ 64 := by
    decide
  obtain ⟨h8, h64⟩ := hle k hk
  have hfield : (BitVec.ofNat 32 (2 * k) - shift).toNat = 2 * k - shift.toNat := by
    rw [BitVec.toNat_sub, BitVec.toNat_ofNat]
    omega
  have himm : ((BitVec.ofNat 32 (2 * k) - shift).setWidth 7).toNat = 2 * k - shift.toNat := by
    rw [BitVec.toNat_setWidth, hfield]
    omega
  have hback : 2 * k - (2 * k - shift.toNat) = shift.toNat := by
    omega
  refine Emits.bind (Emits.debugAssert fun _ => Emits.push ?_)
  rw [decode_vecShiftWord 16 16 (neonShift sh) (BitVec.ofNat 32 (2 * k) - shift) (by omega) (by omega)]
  refine (vecCode_shift _ _).congr fun a _ => ?_
  have hlo : k ≤ ((BitVec.ofNat 32 (2 * k) - shift).setWidth 7).toNat := by
    omega
  have hhi : ((BitVec.ofNat 32 (2 * k) - shift).setWidth 7).toNat < 2 * k := by
    omega
  obtain ⟨-, hushr, hsshr⟩ := execVecShift_eq hk hlo hhi a
  rw [himm, hback] at hushr hsshr
  cases sh with
  | sll => exact absurd rfl hsh
  | srl =>
    refine hushr.trans ?_
    simp [X86.PackedShift.eval, hs]
  | sra =>
    refine hsshr.trans ?_
    simp [X86.PackedShift.eval, hs]

/-- The kind of shift in the lifter's words. -/
def jitShift : X86.PackedShift → PShift
  | .sll => .sll
  | .srl => .srl
  | .sra => .sra

/-- The shifts by immediate, with the lane width. -/
def shiftOf : Op → Option (X86.PackedShift × Nat)
  | .psllImm lane => some (.sll, 8 * lane.bytes)
  | .psrlImm lane => some (.srl, 8 * lane.bytes)
  | .psraImm lane => some (.sra, 8 * lane.bytes)
  | _ => none

theorem eval_of_zero {k : Nat} (hk : 0 < k) (hd : k ∣ 128) (sh : X86.PackedShift) (a : BitVec 128) :
    sh.eval k 0 a = a := by
  have ha : (ofLanes 128 fun i => lane k a i) = a := (eq_ofLanes hk hd fun _ _ => rfl).symm
  cases sh <;> simpa [X86.PackedShift.eval, hk] using ha

theorem eval_of_ge {k count : Nat} (hc : k ≤ count) {sh : X86.PackedShift} (hsh : sh ≠ .sra)
    (a : BitVec 128) : sh.eval k count a = 0 := by
  have hzero : (ofLanes 128 fun _ => 0#k) = 0#128 := by
    refine BitVec.eq_of_getLsbD_eq fun j _ => ?_
    simp
  cases sh with
  | sra => exact absurd rfl hsh
  | sll | srl => simpa [X86.PackedShift.eval, Nat.not_lt.mpr hc] using hzero

theorem sra_of_ge {k count : Nat} (hk : 0 < k) (hc : k ≤ count) (a : BitVec 128) :
    X86.PackedShift.sra.eval k count a = X86.PackedShift.sra.eval k (k - 1) a := by
  have hlt : k - 1 < k := by
    omega
  simp [X86.PackedShift.eval, Nat.not_lt.mpr hc, hlt]

/-- What the lifter puts between the load and the store of a shift. -/
theorem emits_shiftCode {inst : Inst} {sh : X86.PackedShift} {lane : OpSize} {bits : BitVec 32}
    {imm : BitVec 8} (hbits : bits = BitVec.ofNat 32 (8 * lane.bytes)) (hlane : lane ≠ .b1) :
    Emits p (if bits ≤ (imm.setWidth 64).setWidth 32 then emitPshiftAll inst (jitShift sh) lane bits
      else if (imm.setWidth 64).setWidth 32 = 0#32 then pure ()
      else emitPshift inst (jitShift sh) lane ((imm.setWidth 64).setWidth 32)) fun _ is =>
      VecCode (fun a _ => sh.eval (8 * lane.bytes) imm.toNat a) is := by
  have himm := imm.isLt
  have hshift : ((imm.setWidth 64).setWidth 32).toNat = imm.toNat := by
    rw [BitVec.toNat_setWidth, BitVec.toNat_setWidth]
    omega
  have hk : 8 * lane.bytes ∈ [8, 16, 32, 64] := by
    cases lane <;> decide
  have hnat : bits.toNat = 8 * lane.bytes := by
    rw [hbits]
    cases lane <;> rfl
  have hpos : 0 < 8 * lane.bytes := by
    cases lane <;> decide
  have hdvd : 8 * lane.bytes ∣ 128 := by
    cases lane <;> decide
  have hiff : bits ≤ (imm.setWidth 64).setWidth 32 ↔ 8 * lane.bytes ≤ imm.toNat := by
    rw [BitVec.le_def, hnat, hshift]
  by_cases hge : 8 * lane.bytes ≤ imm.toNat
  · -- a count of the lane width or more
    rw [if_pos (hiff.mpr hge)]
    have hzero : sh ≠ .sra → Emits p (eorV16b 16 16 16 : LiftM Unit) fun _ is =>
        VecCode (fun a _ => sh.eval (8 * lane.bytes) imm.toNat a) is := by
      intro hsh
      exact emits_zeroV16.mono fun _ is h => h.congr fun a _ => (eval_of_ge hge hsh a).symm
    have hlast : (bits - 1).toNat = 8 * lane.bytes - 1 := by
      rw [BitVec.toNat_sub, hnat]
      cases lane <;> rfl
    have hsign : Emits p (shrLane (vecShiftBase .sshr) (8 * lane.bytes) 16 16 (bits - 1) : LiftM Unit)
        fun _ is => VecCode (fun a _ => X86.PackedShift.sra.eval (8 * lane.bytes) imm.toNat a) is := by
      have hshr := @emits_shrLane p LifterError .sra nofun _ hk (bits - 1)
        (by rw [hlast]; cases lane <;> decide) (by omega)
      rw [hlast] at hshr
      exact hshr.mono fun _ is h => h.congr fun a _ => (sra_of_ge hpos hge a).symm
    cases sh with
    | sll => exact hzero nofun
    | srl => exact hzero nofun
    | sra =>
      cases lane with
      | b1 => exact absurd rfl hlane
      | b2 | b4 => exact hsign
      | b8 => exact Emits.fail
  · rw [if_neg fun h => hge (hiff.mp h)]
    by_cases hz : (imm.setWidth 64).setWidth 32 = 0#32
    · rw [if_pos hz]
      rw [hz] at hshift
      refine Emits.pure (vecCode_nil.congr fun a _ => ?_)
      rw [← hshift]
      exact (eval_of_zero hpos hdvd sh a).symm
    · rw [if_neg hz]
      have hlt : ((imm.setWidth 64).setWidth 32).toNat < 8 * lane.bytes := by
        omega
      have hne : 0 < ((imm.setWidth 64).setWidth 32).toNat := by
        refine Nat.pos_of_ne_zero fun h0 => hz (BitVec.eq_of_toNat_eq ?_)
        rw [h0]
        rfl
      have hleft := @emits_shlLane p LifterError _ hk _ hlt
      have hright := fun hsh => @emits_shrLane p LifterError sh hsh _ hk _ hne hlt
      rw [hshift] at hleft hright
      cases sh with
      | sll => cases lane <;> first | exact absurd rfl hlane | exact hleft
      | srl => cases lane <;> first | exact absurd rfl hlane | exact hright nofun
      | sra => cases lane <;> first | exact absurd rfl hlane | exact hright nofun | exact Emits.fail

/-- Code that goes on in the same way from three arms. -/
theorem bind_arms {c c' : Prop} [Decidable c] [Decidable c'] (m₁ m₂ : LiftM Unit) (f : Unit → LiftM Unit) :
    (if c then m₁ >>= f else if c' then f () else m₂ >>= f)
      = (if c then m₁ else if c' then pure () else m₂) >>= f := by
  split_ifs <;> rfl

theorem emits_shiftImm {legacy32 : Bool} {inst : Inst} {sh : X86.PackedShift} {k : Nat}
    (hx : shiftOf inst.op = some (sh, k)) {d imm : BitVec 8} {m₀ m₁ : OpSize}
    (h0 : inst.operand0 = some (.xmmReg d m₀)) (h1 : inst.operand1 = some (.imm (imm.setWidth 64) m₁))
    (hd : d.toNat < 16) :
    Emits p (lift legacy32 inst) fun _ is =>
      Does (StoresXmm d fun s => sh.eval k imm.toNat (xmm s d)) is := by
  have hlift : ∀ lane, k = 8 * lane.bytes → Emits p (liftPshiftImm inst lane (jitShift sh)) fun _ is =>
      Does (StoresXmm d fun s => sh.eval k imm.toNat (xmm s d)) is := by
    rintro lane rfl
    unfold liftPshiftImm
    refine Emits.bind (Emits.okOr fun dst hdst => Emits.bind (Emits.okOr fun src hsrc => ?_))
    cases h0.symm.trans hdst
    cases h1.symm.trans hsrc
    have hbits : Emits p (laneBits inst.op lane) fun bits is =>
        is = [] ∧ bits = BitVec.ofNat 32 (8 * lane.bytes) ∧ lane ≠ .b1 := by
      cases lane with
      | b1 => exact Emits.fail
      | b2 | b4 | b8 => exact Emits.pure ⟨rfl, rfl, nofun⟩
    refine Emits.bind (hbits.mono ?_)
    rintro bits _ ⟨rfl, hbits, hlane⟩
    refine Emits.bind (emits_loadXmm hd ?_)
    dsimp only
    rw [bind_arms]
    refine Emits.bind ((emits_shiftCode hbits hlane).mono fun _ is hcode => emits_storeXmm hd ?_)
    refine ((does_loadXmm 16 hd).append (hcode.stores hd)).mono ?_
    rintro s s' ⟨t, rfl, hstores⟩
    exact hstores
  unfold lift
  cases hop : inst.op with
  | psllImm lane | psrlImm lane | psraImm lane =>
    rw [hop] at hx
    cases hx
    exact hlift lane rfl
  | _ =>
    rw [hop] at hx
    cases hx

/-! ### Byte shifts -/

theorem shiftLeft_eq_bytes (n : Nat) (a : BitVec 128) :
    a <<< (8 * n) = X86.shiftBytesLeft n a := by
  refine BitVec.eq_of_getLsbD_eq fun j hj => ?_
  rw [BitVec.getLsbD_shiftLeft, X86.shiftBytesLeft, getLsbD_ofLanes]
  by_cases hlt : j < 8 * n
  · have hlane : j / 8 < n := by
      omega
    simp [hlt, hlane]
  · have hlane : ¬ j / 8 < n := by
      omega
    have hbit : 8 * (j / 8 - n) + j % 8 = j - 8 * n := by
      omega
    have hmod : j % 8 < 8 := Nat.mod_lt _ (by decide)
    rw [if_neg hlane, Quantum.getLsbD_lane, hbit]
    simp [hlt, hj, hmod]

theorem shiftRight_eq_bytes (n : Nat) (a : BitVec 128) : a >>> (8 * n) = X86.shiftBytesRight n a := by
  refine BitVec.eq_of_getLsbD_eq fun j hj => ?_
  rw [BitVec.getLsbD_ushiftRight, X86.shiftBytesRight, getLsbD_ofLanes]
  have hbit : 8 * (j / 8 + n) + j % 8 = 8 * n + j := by
    omega
  have hmod : j % 8 < 8 := Nat.mod_lt _ (by decide)
  by_cases hlt : j / 8 + n < 16
  · rw [if_pos hlt, Quantum.getLsbD_lane, hbit]
    simp [hj, hmod]
  · have hout : 128 ≤ 8 * n + j := by
      omega
    simp [hlt, hj, BitVec.getLsbD_of_ge a _ hout]

/-- `EXT` with a zero vector below. -/
theorem ext_left {n : Nat} (h₀ : 0 < n) (hn : n < 16) (a : BitVec 128) :
    execVec (.ext (16 - n)) 0 a = X86.shiftBytesLeft n a := by
  have hsub : 128 - 8 * (16 - n) = 8 * n := by
    omega
  show (0#128 >>> (8 * (16 - n)) ||| a <<< (128 - 8 * (16 - n))) = _
  rw [BitVec.zero_ushiftRight, BitVec.zero_or, hsub, shiftLeft_eq_bytes]

/-- `EXT` with a zero vector above. -/
theorem ext_right (n : Nat) (a : BitVec 128) : execVec (.ext n) a 0 = X86.shiftBytesRight n a := by
  show (a >>> (8 * n) ||| 0#128 <<< (128 - 8 * n)) = _
  rw [BitVec.zero_shiftLeft, BitVec.or_zero, shiftRight_eq_bytes]

/-- The byte shift by an immediate in one of the two directions. -/
def shiftBytes (left : Bool) (count : Nat) (a : BitVec 128) : BitVec 128 :=
  if left then X86.shiftBytesLeft count a else X86.shiftBytesRight count a

theorem shiftBytes_zero (left : Bool) (a : BitVec 128) : shiftBytes left 0 a = a := by
  cases left with
  | true => exact (shiftLeft_eq_bytes 0 a).symm.trans (BitVec.shiftLeft_zero a)
  | false => exact (shiftRight_eq_bytes 0 a).symm.trans (BitVec.ushiftRight_zero a)

theorem shiftBytes_of_ge (left : Bool) {count : Nat} (hc : 16 ≤ count) (a : BitVec 128) :
    shiftBytes left count a = 0 := by
  refine BitVec.eq_of_getLsbD_eq fun j hj => ?_
  have h₁ : j / 8 < count := by
    omega
  have h₂ : ¬ j / 8 + count < 16 := by
    omega
  cases left with
  | true => simp [shiftBytes, X86.shiftBytesLeft, h₁]
  | false => simp [shiftBytes, X86.shiftBytesRight, h₂]

theorem emits_ext {ε : Type} {vd vn vm : Reg} {imm : BitVec 32} (h : imm.toNat < 16)
    {Q : Unit → List (Option Insn) → Prop} (hQ : Q () [some (.vec (.ext imm.toNat) vm vn vd)]) :
    Emits p (extV16b vd vn vm imm : EmitM ε Unit) Q :=
  Emits.bind (Emits.debugAssert fun _ => Emits.push (by rw [decode_extV16b _ _ _ _ h]; exact hQ))

/-- An operation on `V17` and `V16`. -/
theorem vecCode_swapped (op : VecOp) : VecCode (fun a b => execVec op b a) [some (.vec op 16 17 16)] := by
  intro env pc s
  refine ⟨_, rfl, ?_, rfl, rfl⟩
  rw [State.v_writeV, if_pos (show (16#5 : Reg) = 16 from rfl)]
  rfl

theorem emits_shiftDq {inst : Inst} {left : Bool} {d imm : BitVec 8} {m₀ m₁ : OpSize}
    (h0 : inst.operand0 = some (.xmmReg d m₀)) (h1 : inst.operand1 = some (.imm (imm.setWidth 64) m₁))
    (hd : d.toNat < 16) :
    Emits p (liftPshiftDq inst left) fun _ is =>
      Does (StoresXmm d fun s => shiftBytes left imm.toNat (xmm s d)) is := by
  have himm := imm.isLt
  have hshift : ((imm.setWidth 64).setWidth 32).toNat = imm.toNat := by
    rw [BitVec.toNat_setWidth, BitVec.toNat_setWidth]
    omega
  -- the zero vector is in `V17` where the code of an arm begins
  have harm : ∀ {m : LiftM Unit} {f : BitVec 128 → BitVec 128 → BitVec 128},
      (∀ a, f a 0 = shiftBytes left imm.toNat a) → Emits p m (fun _ is => VecCode f is) →
      Emits p (ldrQ 16 28 (xmmCtxOffset d) >>= fun _ => eorV16b 17 17 17 >>= fun _ => m >>= fun _ =>
        strQ 16 28 (xmmCtxOffset d)) fun _ is =>
        Does (StoresXmm d fun s => shiftBytes left imm.toNat (xmm s d)) is := by
    intro m f hf hm
    have heor : ((0x6E201C00#32 : Word), VecOp.eor) ∈ vecTable := by
      decide
    refine Emits.bind (emits_loadXmm hd (Emits.bind (emits_vec3 heor (Emits.bind
      (hm.mono fun _ is hcode => emits_storeXmm hd ?_)))))
    have hzero : Does (fun s s' => s' = s.writeV 17 0) [some (.vec .eor 17 17 17)] := by
      intro env pc s
      refine ⟨_, rfl, ?_⟩
      show s.writeV 17 (s.v 17 ^^^ s.v 17) = _
      rw [BitVec.xor_self]
      rfl
    refine ((does_loadXmm 16 hd).append (hzero.append (hcode.stores hd))).mono ?_
    rintro s s' ⟨t, rfl, u, rfl, hx, hmem⟩
    refine ⟨hx, hmem.trans ?_⟩
    dsimp only
    rw [← hf]
    rfl
  unfold liftPshiftDq
  refine Emits.bind (Emits.okOr fun dst hdst => ?_)
  cases h0.symm.trans hdst
  rw [h1]
  dsimp only
  by_cases hz : (imm.setWidth 64).setWidth 32 = (0 : BitVec 32)
  · rw [hz] at hshift
    have hcount : imm.toNat = 0 := hshift.symm
    simp only [hz, if_true]
    refine harm (m := pure ()) (f := fun a _ => a) (fun a => ?_) (Emits.pure vecCode_nil)
    rw [hcount, shiftBytes_zero]
  · simp only [if_neg hz]
    have hne : 0 < imm.toNat := by
      refine Nat.pos_of_ne_zero fun h => hz (BitVec.eq_of_toNat_eq ?_)
      rw [hshift, h]
      rfl
    have hiff : (16 : BitVec 32) ≤ (imm.setWidth 64).setWidth 32 ↔ 16 ≤ imm.toNat := by
      rw [BitVec.le_def, hshift]
      rfl
    by_cases hge : 16 ≤ imm.toNat
    · simp only [if_pos (hiff.mpr hge)]
      exact harm (fun a => (shiftBytes_of_ge left hge a).symm) emits_zeroV16
    · simp only [if_neg fun h => hge (hiff.mp h)]
      cases left with
      | true =>
        have hsub : (16 - (imm.setWidth 64).setWidth 32 : BitVec 32).toNat = 16 - imm.toNat := by
          rw [BitVec.toNat_sub, hshift]
          simp only [BitVec.ofNat_eq_ofNat, BitVec.toNat_ofNat]
          omega
        have hext : ∀ a, execVec (.ext (16 - (imm.setWidth 64).setWidth 32 : BitVec 32).toNat) 0 a
            = shiftBytes true imm.toNat a := by
          intro a
          rw [hsub]
          exact ext_left hne (by omega) a
        exact harm (f := fun a b => execVec _ b a) hext (emits_ext (by omega) (vecCode_swapped _))
      | false =>
        have hext : ∀ a, execVec (.ext ((imm.setWidth 64).setWidth 32).toNat) a 0
            = shiftBytes false imm.toNat a := by
          intro a
          rw [hshift]
          exact ext_right _ a
        exact harm hext (emits_ext (by omega) (vecCode_vec _))

/-! ### Shuffles -/

/-- The lanes of `V16` that `lanes` names come from `V17`, as the immediate says. -/
def Shuffles (imm : BitVec 8) (lanes : List (BitVec 2)) (s s' : State) : Prop :=
  s'.v 17#5 = s.v 17#5 ∧ s'.x = s.x ∧ s'.mem = s.mem ∧ ∀ i : BitVec 2,
    lane 32 (s'.v 16#5) i.toNat = if i ∈ lanes ∧ lane 2 imm i.toNat ≠ i then
      lane 32 (s.v 17#5) (lane 2 imm i.toNat).toNat else lane 32 (s.v 16#5) i.toNat

theorem does_insVS (dst src : BitVec 2) :
    Does (fun s s' => s' = s.writeV 16#5 (setLane 32 dst.toNat (s.v 16#5) (lane 32 (s.v 17#5) src.toNat)))
      [some (.insS dst src 17 16)] :=
  fun _ _ _ => ⟨_, rfl, rfl⟩

theorem emits_emitShuffle (imm : BitVec 8) (lanes : List (BitVec 2)) :
    Emits p (emitShuffle imm lanes) fun _ is => Does (Shuffles imm lanes) is := by
  induction lanes with
  | nil =>
    refine Emits.pure fun env pc s => ⟨s, rfl, rfl, rfl, rfl, fun i => ?_⟩
    simp
  | cons dst lanes ih =>
    have hsrc : imm.extractLsb' (2 * dst.toNat) 2 = lane 2 imm dst.toNat := rfl
    unfold emitShuffle
    simp only [hsrc]
    by_cases hmove : lane 2 imm dst.toNat ≠ dst
    · rw [if_pos hmove]
      refine Emits.bind (Emits.push ?_)
      rw [decode_insVS]
      refine ih.mono fun _ is hrest => ((does_insVS dst _).append hrest).mono ?_
      rintro s s' ⟨t, rfl, hv, hx, hmem, hlanes⟩
      have h17 : ∀ a, (s.writeV 16#5 a).v 17#5 = s.v 17#5 := by
        intro a
        rw [State.v_writeV, if_neg (by decide)]
      have h16 : ∀ a, (s.writeV 16#5 a).v 16#5 = a := by
        intro a
        rw [State.v_writeV, if_pos rfl]
      rw [h17] at hv
      refine ⟨hv, hx, hmem, fun i => ?_⟩
      have hi := i.isLt
      have hdst := dst.isLt
      rw [hlanes i, h17, h16, lane_setLane (by omega)]
      by_cases hid : i = dst
      · subst hid
        simp [hmove]
      · have hne : i.toNat ≠ dst.toNat := fun h => hid (BitVec.eq_of_toNat_eq h)
        simp [hid, hne]
    · rw [if_neg hmove]
      refine ih.mono fun _ is hrest => hrest.mono ?_
      rintro s s' ⟨hv, hx, hmem, hlanes⟩
      refine ⟨hv, hx, hmem, fun i => ?_⟩
      rw [hlanes i]
      by_cases hid : i = dst
      · subst hid
        simp [hmove]
      · simp [hid]

theorem emits_pshufd {inst : Inst} {d q imm : BitVec 8} {m₀ m₁ m₂ : OpSize}
    (h0 : inst.operand0 = some (.xmmReg d m₀)) (h1 : inst.operand1 = some (.xmmReg q m₁))
    (h2 : inst.operand2 = some (.imm (imm.setWidth 64) m₂)) (hd : d.toNat < 16) (hq : q.toNat < 16) :
    Emits p (liftPshufd inst) fun _ is => Does (StoresXmm d fun s => X86.shuffleD imm (xmm s q)) is := by
  have himm : (imm.setWidth 64).setWidth 8 = imm := by
    simp
  have horr : ((0x4EA01C00#32 : Word), VecOp.orr) ∈ vecTable := by
    decide
  unfold liftPshufd
  refine Emits.bind (Emits.okOr fun dst hdst => Emits.bind (Emits.okOr fun src hsrc => ?_))
  cases h0.symm.trans hdst
  cases h1.symm.trans hsrc
  rw [h2]
  dsimp only
  rw [himm]
  refine Emits.bind (emits_loadXmm hq (Emits.bind (emits_vec3 horr (Emits.bind
    ((emits_emitShuffle imm _).mono fun _ is hshuffle => emits_storeXmm hd ?_)))))
  have hcopy : Does (fun s s' => s' = s.writeV 16#5 (s.v 17#5)) [some (.vec .orr 17 17 16)] := by
    intro env pc s
    refine ⟨_, rfl, ?_⟩
    show s.writeV 16 (s.v 17 ||| s.v 17) = _
    rw [BitVec.or_self]
    rfl
  refine ((does_loadXmm 17 hq).append (hcopy.append (hshuffle.append (does_storeXmm 16 hd)))).mono ?_
  rintro s s' ⟨t, rfl, u, rfl, w, ⟨-, hx, hmem, hlanes⟩, rfl⟩
  have h17 : (s.writeV 17 (xmm s q)).v 17#5 = xmm s q := by
    rw [State.v_writeV, if_pos (show (17#5 : Reg) = 17 from rfl)]
  have hu17 : ((s.writeV 17 (xmm s q)).writeV 16#5 ((s.writeV 17 (xmm s q)).v 17#5)).v 17#5 = xmm s q := by
    rw [State.v_writeV, if_neg (by decide), h17]
  have hu16 : ((s.writeV 17 (xmm s q)).writeV 16#5 ((s.writeV 17 (xmm s q)).v 17#5)).v 16#5 = xmm s q := by
    rw [State.v_writeV, if_pos rfl, h17]
  have hv : w.v 16#5 = X86.shuffleD imm (xmm s q) := by
    refine eq_ofLanes (by decide) (by decide) fun i hi => ?_
    obtain ⟨j, rfl⟩ : ∃ j : BitVec 2, j.toNat = i := ⟨BitVec.ofNat 2 i, by
      rw [BitVec.toNat_ofNat]
      omega⟩
    have hmem4 : j ∈ ([0, 1, 2, 3] : List (BitVec 2)) := by
      revert j
      decide
    rw [hlanes j, hu17, hu16]
    by_cases hj : lane 2 imm j.toNat = j
    · rw [if_neg fun h => h.2 hj, hj]
    · rw [if_pos ⟨hmem4, hj⟩]
  refine ⟨hx, ?_⟩
  show w.mem.write 16 (xmmSlot (w.x 28#5) d) (w.v 16#5) = _
  rw [hmem, hx, hv]
  rfl

end Quantum.Jit
