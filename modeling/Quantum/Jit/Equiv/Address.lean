import Quantum.Jit.Equiv.Emit

/-!
# Effective addresses

The address of a memory operand by the guest architecture (`effectiveAddress`) and the code that
computes it.  With `X16` as the scratch register (`emits_addrIntoXtmp`), that code leaves the
effective address minus the leftover displacement in `X16` and may clobber `X17`; nothing else
changes.
-/

namespace Quantum.Jit

open A64
open EmitM

variable {ε : Type} {p : Profile}

/-! ### Guest registers in the host -/

theorem hostReg_injective : Function.Injective hostReg := by
  intro a b h
  cases a <;> cases b <;> first | rfl | cases h

@[simp]
theorem hostReg_inj {a b : GpReg} : hostReg a = hostReg b ↔ a = b :=
  hostReg_injective.eq_iff

/-- The host registers that never hold a guest register. -/
theorem hostReg_ne {r : Reg} (hr : r = 4 ∨ 16 ≤ r ∧ r ≠ 19) (g : GpReg) : hostReg g ≠ r := by
  revert r
  cases g <;> decide

@[simp] theorem hostReg_ne_16 (g : GpReg) : hostReg g ≠ 16#5 := hostReg_ne (by decide) g
@[simp] theorem hostReg_ne_17 (g : GpReg) : hostReg g ≠ 17#5 := hostReg_ne (by decide) g
@[simp] theorem hostReg_ne_24 (g : GpReg) : hostReg g ≠ 24#5 := hostReg_ne (by decide) g
@[simp] theorem hostReg_ne_25 (g : GpReg) : hostReg g ≠ 25#5 := hostReg_ne (by decide) g
@[simp] theorem hostReg_ne_28 (g : GpReg) : hostReg g ≠ 28#5 := hostReg_ne (by decide) g
@[simp] theorem hostReg_ne_30 (g : GpReg) : hostReg g ≠ 30#5 := hostReg_ne (by decide) g
@[simp] theorem hostReg_ne_31 (g : GpReg) : hostReg g ≠ 31#5 := hostReg_ne (by decide) g

@[simp]
theorem readX_hostReg (s : State) (g : GpReg) : s.readX (hostReg g) = s.x (hostReg g) :=
  s.readX_of_ne _ (hostReg_ne_31 g)

@[simp] theorem segReg_ne_31 (sg : Seg) : segReg sg ≠ 31#5 := by cases sg <;> decide
@[simp] theorem segReg_ne_16 (sg : Seg) : segReg sg ≠ 16#5 := by cases sg <;> decide
@[simp] theorem segReg_ne_17 (sg : Seg) : segReg sg ≠ 17#5 := by cases sg <;> decide

@[simp]
theorem readX_segReg (s : State) (sg : Seg) : s.readX (segReg sg) = s.x (segReg sg) :=
  s.readX_of_ne _ (segReg_ne_31 sg)

/-- A guest register in a host state. -/
def guest (s : State) (g : GpReg) : BitVec 64 :=
  s.x (hostReg g)

/-- A segment base in a host state. -/
def segBase (s : State) (sg : Seg) : BitVec 64 :=
  s.x (segReg sg)

/-! ### The effective address -/

/-- `base + index * scale + disp`, plus the segment base, modulo `2 ^ 64`. -/
def Mem.address (m : Mem) (g : GpReg → BitVec 64) (seg : Seg → BitVec 64) : BitVec 64 :=
  m.base.elim 0 g + m.index.elim 0 (fun i => g i * BitVec.ofNat 64 m.scale)
    + m.disp.signExtend 64 + m.seg.elim 0 seg

/-- The address a memory operand of `inst` denotes in a host state. -/
def effectiveAddress (inst : Inst) (s : State) : Operand → BitVec 64
  | .mem m => m.address (guest s) (segBase s)
  | .ripRel disp _ => inst.nextRip + disp.signExtend 64
  | _ => 0

/-- The displacement that is left to the load or store. -/
def Mem.leftover (m : Mem) : BitVec 32 :=
  if 0 < m.disp.toInt ∧ m.disp.toNat < 2 ^ 24 then m.disp else 0

def Operand.leftover : Operand → BitVec 32
  | .mem m => m.leftover
  | _ => 0

/-- The part of the address that does not depend on the displacement. -/
def Mem.parts (m : Mem) (s : State) : BitVec 64 :=
  m.base.elim 0 (guest s) + m.seg.elim 0 (segBase s)
    + m.index.elim 0 (fun i => guest s i * BitVec.ofNat 64 m.scale)

theorem Mem.address_eq (m : Mem) (s : State) :
    m.address (guest s) (segBase s) = m.parts s + m.disp.signExtend 64 := by
  rw [Mem.address, Mem.parts]
  ac_rfl

/-! ### Code for the address -/

/-- The code `is` sets register `r` to `f s` and changes nothing else. -/
def Sets (r : Reg) (f : State → BitVec 64) (is : List (Option Insn)) : Prop :=
  ∀ env pc s, runSeq env pc is s = some (s.writeX r (f s))

/-- A scratch register for addresses. -/
def IsScratch (r : Reg) : Prop := r = 16#5 ∨ r = 17#5

theorem IsScratch.ne_31 {r : Reg} (h : IsScratch r) : r ≠ 31#5 := by
  rcases h with rfl | rfl <;> decide

theorem IsScratch.hostReg_ne {r : Reg} (h : IsScratch r) (g : GpReg) : hostReg g ≠ r := by
  rcases h with rfl | rfl <;> simp

theorem IsScratch.segReg_ne {r : Reg} (h : IsScratch r) (sg : Seg) : segReg sg ≠ r := by
  rcases h with rfl | rfl <;> simp

@[simp]
theorem writeX_writeX_self (s : State) (r : Reg) (a b : BitVec 64) :
    (s.writeX r a).writeX r b = s.writeX r b := by
  by_cases h : r = 31#5
  · simp [State.writeX, h]
  · rw [State.writeX_of_ne _ _ _ h, State.writeX_of_ne _ _ _ h, State.writeX_of_ne _ _ _ h,
      Function.update_idem]

theorem writeX_comm (s : State) {r q : Reg} (a b : BitVec 64) (h : r ≠ q) :
    (s.writeX r a).writeX q b = (s.writeX q b).writeX r a := by
  unfold State.writeX
  split <;> split <;> first | rfl | rw [Function.update_comm h.symm]

theorem execOne_add64 {env : Env} {pc : Nat} (s : State) (rm rn rd : Reg) (lsl : BitVec 6) :
    execOne env pc (.addSubShift false false rm lsl rn rd) s
      = some (s.writeX rd (s.readX rn + s.readX rm <<< lsl.toNat)) := by
  show some (s.writeX rd (addc _ _ _)) = _
  rw [adderOperand, if_neg (by decide), addc_false]

theorem execOne_sub64 {env : Env} {pc : Nat} (s : State) (rm rn rd : Reg) (lsl : BitVec 6) :
    execOne env pc (.addSubShift true false rm lsl rn rd) s
      = some (s.writeX rd (s.readX rn - s.readX rm <<< lsl.toNat)) := by
  show some (s.writeX rd (addc _ _ _)) = _
  rw [adderOperand, if_pos rfl, addc_not_true]

theorem execOne_mov64 {env : Env} {pc : Nat} (s : State) (rm rd : Reg) :
    execOne env pc (.logicShift .orr rm 0 31 rd) s = some (s.writeX rd (s.readX rm)) := by
  show some (s.writeX rd (0#64 ||| s.readX rm <<< 0)) = _
  rw [BitVec.shiftLeft_zero, BitVec.zero_or]

/-- The base of the address. -/
theorem emits_memBaseInto {xtmp : Reg} (hx : xtmp ≠ 31#5) (base : Option GpReg)
    {Q : Unit → List (Option Insn) → Prop}
    (h : ∀ is, Sets xtmp (fun s => base.elim 0 (guest s)) is → Q () is) :
    Emits p (memBaseInto base xtmp) Q := by
  cases base with
  | none => exact emits_loadConst64 hx 0 fun is hl => h is fun env pc s => hl.run env pc s
  | some b =>
    refine emits_mov64 (h _ fun env pc s => ?_)
    rw [runSeq_cons, execOne_mov64, readX_hostReg]
    rfl

/-- Adding a value to the address so far. -/
def Adds (r : Reg) (f : State → BitVec 64) (is : List (Option Insn)) : Prop :=
  ∀ env pc s, runSeq env pc is s = some (s.writeX r (s.x r + f s))

theorem Adds.nil (r : Reg) : Adds r (fun _ => 0) [] := by
  intro env pc s
  rw [show s.x r + 0 = s.x r from BitVec.add_zero _, State.writeX_x_self]
  rfl

theorem emits_memSegInto {xtmp : Reg} (hx : xtmp ≠ 31#5) (seg : Option Seg)
    {Q : Unit → List (Option Insn) → Prop}
    (h : ∀ is, Adds xtmp (fun s => seg.elim 0 (segBase s)) is → Q () is) :
    Emits p (memSegInto seg xtmp) Q := by
  cases seg with
  | none => exact Emits.pure (h _ (Adds.nil xtmp))
  | some sg =>
    refine emits_add64 (h _ fun env pc s => ?_)
    rw [runSeq_cons, execOne_add64, readX_segReg, s.readX_of_ne _ hx]
    simp [segBase]

/-- A shift by the logarithm of the scale. -/
theorem shiftLeft_eq_mul_scale (a : BitVec 64) (k : Nat) :
    a <<< k = a * BitVec.ofNat 64 (2 ^ k) := by
  rw [BitVec.shiftLeft_eq_mul_twoPow]
  congr 1
  refine BitVec.eq_of_toNat_eq ?_
  rw [BitVec.toNat_twoPow, BitVec.toNat_ofNat]

theorem emits_memIndexInto {xtmp : Reg} (hx : xtmp ≠ 31#5) (m : Mem)
    {Q : Unit → List (Option Insn) → Prop}
    (h : ∀ is, Adds xtmp
      (fun s => m.index.elim 0 fun i => guest s i * BitVec.ofNat 64 m.scale) is → Q () is) :
    Emits p (memIndexInto m.index m.scale xtmp) Q := by
  have hadd : ∀ (i : GpReg) (k : BitVec 6) (n : Nat), n = 2 ^ k.toNat →
      Adds xtmp (fun s => guest s i * BitVec.ofNat 64 n)
        [some (.addSubShift false false (hostReg i) k xtmp xtmp)] := by
    intro i k n hn env pc s
    rw [runSeq_cons, execOne_add64, readX_hostReg, s.readX_of_ne _ hx,
      shiftLeft_eq_mul_scale, hn]
    rfl
  cases hi : m.index with
  | none =>
    rw [hi] at h
    exact Emits.pure (h _ (Adds.nil xtmp))
  | some i =>
    rw [hi] at h
    have hlsl : ∀ k : BitVec 6, m.scale = 2 ^ k.toNat →
        Emits p (emitAddLsl64 xtmp xtmp (hostReg i) k) Q := by
      intro k hk
      refine Emits.push ?_
      rw [decode_addLsl64]
      exact h _ (hadd i k _ hk)
    rcases m.scale_valid with hs | hs | hs | hs
    · rw [hs] at h ⊢
      exact emits_add64 (h _ (hadd i 0 1 rfl))
    · have := hlsl 1 hs
      rw [hs]
      exact this
    · have := hlsl 2 hs
      rw [hs]
      exact this
    · have := hlsl 3 hs
      rw [hs]
      exact this

/-- Base, segment and index together. -/
theorem emits_memAddressInto {xtmp : Reg} (hx : IsScratch xtmp) (m : Mem)
    {Q : BitVec 32 → List (Option Insn) → Prop}
    (h : ∀ is, Sets xtmp m.parts is →
      Emits p (memDispInto m.disp xtmp) fun l js => Q l (is ++ js)) :
    Emits p (memAddressInto m xtmp) Q := by
  refine Emits.bind (emits_memBaseInto hx.ne_31 _ fun is₁ h₁ => Emits.bind
    (emits_memSegInto hx.ne_31 _ fun is₂ h₂ => Emits.bind
      (emits_memIndexInto hx.ne_31 m fun is₃ h₃ => ?_)))
  have hsets : Sets xtmp m.parts (is₁ ++ (is₂ ++ is₃)) := by
    intro env pc s
    have hg : ∀ v, guest (s.writeX xtmp v) = guest s := by
      intro v
      funext g
      rw [guest, State.x_writeX, if_neg fun hc => hx.hostReg_ne g hc.1, guest]
    have hsb : ∀ v, segBase (s.writeX xtmp v) = segBase s := by
      intro v
      funext sg
      rw [segBase, State.x_writeX, if_neg fun hc => hx.segReg_ne sg hc.1, segBase]
    rw [runSeq_append, h₁, Option.bind_some, runSeq_append, h₂, Option.bind_some, h₃]
    simp only [writeX_writeX_self, State.x_writeX, hg, hsb, hx.ne_31, ne_eq, not_false_eq_true,
      and_self, if_true]
    rfl
  refine (h _ hsets).mono fun l js hq => ?_
  rwa [List.append_assoc, List.append_assoc] at hq

/-! ### The displacement -/

/-- A positive displacement has the same zero and sign extension. -/
theorem signExtend_of_pos {d : BitVec 32} (h : 0 < d.toInt) :
    d.signExtend 64 = d.setWidth 64 := by
  have hmsb : d.msb = false := by
    rw [BitVec.msb_eq_toInt]
    simp [h.le]
  rw [BitVec.signExtend_eq_setWidth_of_msb_false hmsb]

/-- A displacement that is not positive is minus its absolute value. -/
theorem signExtend_of_nonpos {d : BitVec 32} (h : ¬ 0 < d.toInt) :
    d.signExtend 64 = -(unsignedAbs d).setWidth 64 := by
  have hd := d.isLt
  rcases hm : d.msb with _ | _
  · have hz : d = 0 := by
      have hnn : d.toInt = d.toNat := BitVec.toInt_eq_toNat_of_msb hm
      refine BitVec.eq_of_toNat_eq ?_
      rw [hnn] at h
      show d.toNat = 0
      omega
    rw [hz]
    decide
  · have hmsb := BitVec.msb_eq_decide d
    rw [hm] at hmsb
    have hbig : 2 ^ 31 ≤ d.toNat := by simpa using hmsb.symm
    refine BitVec.eq_of_toNat_eq ?_
    rw [BitVec.toNat_signExtend, hm, unsignedAbs, hm, if_pos rfl, if_pos rfl, BitVec.toNat_neg,
      BitVec.toNat_setWidth, BitVec.toNat_setWidth, BitVec.toNat_neg]
    omega

/-- The code sets `rd` to `f s`, possibly through `X17`. -/
def SetsVia17 (rd : Reg) (f : State → BitVec 64) (is : List (Option Insn)) : Prop :=
  ∀ env pc s, ∃ t, runSeq env pc is s = some ((s.writeX 17#5 t).writeX rd (f s))

section Displacement

variable {rd : Reg} (h31 : rd ≠ 31#5) (h17 : rd ≠ 17#5)

include h31 h17

theorem emits_add64ImmSafe {imm : BitVec 32} {Q : Unit → List (Option Insn) → Prop}
    (h : ∀ is, SetsVia17 rd (fun s => s.x rd + imm.setWidth 64) is → Q () is) :
    Emits p (add64ImmSafe rd rd imm) Q := by
  unfold add64ImmSafe
  split
  · refine emits_add64Imm fun sh i hv => h _ fun env pc s => ⟨s.x 17#5, ?_⟩
    rw [State.writeX_x_self, runSeq_cons, State.writeX_of_ne _ _ _ h31]
    show some (s.writeXsp rd (addc (s.x rd) (immValue sh i) false)) = _
    rw [hv, addc_false]
    rfl
  · refine Emits.bind (emits_loadConst64 (by decide) _ fun is hl => emits_add64 (h _ ?_))
    refine fun env pc s => ⟨imm.setWidth 64, ?_⟩
    rw [runSeq_append, hl.run, Option.bind_some, runSeq_cons, execOne_add64]
    simp [State.readX, h31, h17]

theorem emits_sub64ImmSafe {imm : BitVec 32} {Q : Unit → List (Option Insn) → Prop}
    (h : ∀ is, SetsVia17 rd (fun s => s.x rd - imm.setWidth 64) is → Q () is) :
    Emits p (sub64ImmSafe rd rd imm) Q := by
  unfold sub64ImmSafe
  split
  · refine emits_sub64Imm fun sh i hv => h _ fun env pc s => ⟨s.x 17#5, ?_⟩
    rw [State.writeX_x_self, runSeq_cons, State.writeX_of_ne _ _ _ h31]
    show some (s.writeXsp rd (addc (s.x rd) (~~~immValue sh i) true)) = _
    rw [hv, addc_not_true]
    rfl
  · refine Emits.bind (emits_loadConst64 (by decide) _ fun is hl => emits_sub64 (h _ ?_))
    refine fun env pc s => ⟨imm.setWidth 64, ?_⟩
    rw [runSeq_append, hl.run, Option.bind_some, runSeq_cons, execOne_sub64]
    simp [State.readX, h31, h17]

/-- The displacement: what is added and what is left give the whole. -/
theorem emits_memDispInto (m : Mem) {Q : BitVec 32 → List (Option Insn) → Prop}
    (h : ∀ is, SetsVia17 rd
      (fun s => s.x rd + m.disp.signExtend 64 - m.leftover.setWidth 64) is → Q m.leftover is) :
    Emits p (memDispInto m.disp rd) Q := by
  have hkeep : ∀ f : State → BitVec 64, (∀ s, f s = s.x rd) → SetsVia17 rd f [] := by
    intro f hf env pc s
    refine ⟨s.x 17#5, ?_⟩
    rw [hf, State.writeX_x_self, State.writeX_x_self]
    rfl
  unfold memDispInto
  rw [Mem.leftover] at h
  by_cases h0 : m.disp = 0
  · rw [if_pos h0]
    rw [h0] at h
    exact Emits.pure (h [] (hkeep _ fun s => by simp))
  rw [if_neg h0]
  by_cases hs : 0 < m.disp.toInt ∧ m.disp.toNat < 2 ^ 24
  · rw [if_pos hs]
    rw [if_pos hs, signExtend_of_pos hs.1] at h
    exact Emits.pure (h [] (hkeep _ fun s => BitVec.add_sub_cancel _ _))
  rw [if_neg hs]
  rw [if_neg hs] at h
  by_cases hp : 0 < m.disp.toInt
  · rw [if_pos hp]
    rw [signExtend_of_pos hp] at h
    refine Emits.bind (emits_add64ImmSafe h31 h17 fun is hr => Emits.pure ?_)
    rw [List.append_nil]
    refine h is fun env pc s => ?_
    obtain ⟨t, ht⟩ := hr env pc s
    exact ⟨t, by rw [ht]; simp⟩
  · rw [if_neg hp]
    rw [signExtend_of_nonpos hp] at h
    refine Emits.bind (emits_sub64ImmSafe h31 h17 fun is hr => Emits.pure ?_)
    rw [List.append_nil]
    refine h is fun env pc s => ?_
    obtain ⟨t, ht⟩ := hr env pc s
    exact ⟨t, by rw [ht]; simp [BitVec.sub_eq_add_neg]⟩

end Displacement

/-! ### Memory operands -/

/-- The code leaves the address of `op`, less the leftover displacement, in `X16`. -/
def AddrCode (inst : Inst) (op : Operand) (is : List (Option Insn)) : Prop :=
  SetsVia17 16#5 (fun s => effectiveAddress inst s op - op.leftover.setWidth 64) is

theorem emits_addrIntoXtmp {op : Operand} {inst : Inst}
    {Q : BitVec 32 → List (Option Insn) → Prop}
    (h : ∀ is, AddrCode inst op is → Q op.leftover is) :
    Emits p (addrIntoXtmp op inst 16) Q := by
  cases op with
  | mem m =>
    refine emits_memAddressInto (.inl rfl) m fun is hs =>
      emits_memDispInto (by decide) (by decide) m fun js hd => ?_
    refine h _ fun env pc s => ?_
    obtain ⟨t, ht⟩ := hd env (pc + is.length) (s.writeX 16#5 (m.parts s))
    refine ⟨t, ?_⟩
    rw [runSeq_append, hs, Option.bind_some, ht,
      writeX_comm _ _ _ (show (16#5 : Reg) ≠ 17#5 by decide), writeX_writeX_self]
    simp [effectiveAddress, Operand.leftover, Mem.address_eq]
  | ripRel d sz =>
    refine Emits.bind (emits_loadConst64 (by decide) _ fun is hl => Emits.pure ?_)
    rw [List.append_nil]
    refine h is fun env pc s => ⟨s.x 17#5, ?_⟩
    rw [State.writeX_x_self, hl.run]
    simp [effectiveAddress, Operand.leftover, ripRelTarget]
  | _ => exact Emits.fail

/-! ### Loads and stores of an operand size -/

/-- The size field of a load or store of an operand size. -/
def sizeCode : OpSize → BitVec 2
  | .b1 => 0 | .b2 => 1 | .b4 => 2 | .b8 => 3

/-- The load of an operand at a byte offset. -/
def loadInsn (size : OpSize) (rt rn : Reg) (offset : BitVec 32) : Insn :=
  .ldst (sizeCode size) false 1 (BitVec.ofNat 12 (offset.toNat / size.bytes)) rn rt

/-- The store of an operand at a byte offset. -/
def storeInsn (size : OpSize) (rt rn : Reg) (offset : BitVec 32) : Insn :=
  .ldst (sizeCode size) false 0 (BitVec.ofNat 12 (offset.toNat / size.bytes)) rn rt

theorem OpSize.bytes_lt (size : OpSize) : size.bytes < 2 ^ 32 := by
  cases size <;> decide

theorem fits_zero (size : OpSize) : Fits size.bytes 0 := by
  cases size <;> decide

theorem emits_loadSized {size : OpSize} {rt rn : Reg} {offset : BitVec 32}
    {Q : Unit → List (Option Insn) → Prop} (hok : p.debugAssertions = true ∨ Fits size.bytes offset)
    (h : Fits size.bytes offset → Q () [some (loadInsn size rt rn offset)]) :
    Emits p (loadSized rt rn offset size) Q := by
  cases size <;> exact emits_ldstScaled_of_fits (by decide) hok h

theorem emits_storeSized {size : OpSize} {rt rn : Reg} {offset : BitVec 32}
    {Q : Unit → List (Option Insn) → Prop} (hok : p.debugAssertions = true ∨ Fits size.bytes offset)
    (h : Fits size.bytes offset → Q () [some (storeInsn size rt rn offset)]) :
    Emits p (storeSized rt rn offset size) Q := by
  cases size <;> exact emits_ldstScaled_of_fits (by decide) hok h

theorem execOne_loadInsn {env : Env} {pc : Nat} {size : OpSize} {rt rn : Reg} {offset : BitVec 32}
    (hfit : Fits size.bytes offset) (s : State) :
    execOne env pc (loadInsn size rt rn offset) s
      = some (s.writeX rt (s.mem.read 64 size.bytes (s.x rn + offset.setWidth 64))) := by
  rw [← ldstAddr_ofNat hfit s]
  cases size <;> rfl

theorem execOne_storeInsn {env : Env} {pc : Nat} {size : OpSize} {rt rn : Reg}
    {offset : BitVec 32} (hfit : Fits size.bytes offset) (s : State) :
    execOne env pc (storeInsn size rt rn offset) s
      = some { s with
        mem := s.mem.write size.bytes (s.x rn + offset.setWidth 64) (s.readX rt) } := by
  rw [← ldstAddr_ofNat hfit s]
  cases size <;> rfl

theorem emits_ldr64 {rt rn : Reg} {offset : BitVec 32} {Q : Unit → List (Option Insn) → Prop}
    (hfit : Fits 8 offset) (h : Q () [some (loadInsn .b8 rt rn offset)]) :
    Emits p (ldr64 rt rn offset : EmitM ε Unit) Q :=
  emits_ldstScaled_of_fits (by decide) (.inr hfit) fun _ => h

theorem emits_str64 {rt rn : Reg} {offset : BitVec 32} {Q : Unit → List (Option Insn) → Prop}
    (hfit : Fits 8 offset) (h : Q () [some (storeInsn .b8 rt rn offset)]) :
    Emits p (str64 rt rn offset : EmitM ε Unit) Q :=
  emits_ldstScaled_of_fits (by decide) (.inr hfit) fun _ => h

/-! ### Straight code, instruction by instruction -/

section Steps

variable {env : Env} {pc : Nat} {s : State} {is : List (Option Insn)}

theorem runSeq_loadInsn {size : OpSize} {rt rn : Reg} {offset : BitVec 32}
    (hfit : Fits size.bytes offset) : runSeq env pc (some (loadInsn size rt rn offset) :: is) s
      = runSeq env (pc + 1) is
        (s.writeX rt (s.mem.read 64 size.bytes (s.x rn + offset.setWidth 64))) := by
  rw [runSeq_cons, execOne_loadInsn hfit, Option.bind_some]

theorem runSeq_storeInsn {size : OpSize} {rt rn : Reg} {offset : BitVec 32}
    (hfit : Fits size.bytes offset) : runSeq env pc (some (storeInsn size rt rn offset) :: is) s
      = runSeq env (pc + 1) is
        { s with mem := s.mem.write size.bytes (s.x rn + offset.setWidth 64) (s.readX rt) } := by
  rw [runSeq_cons, execOne_storeInsn hfit, Option.bind_some]

theorem runSeq_mov64 {rm rd : Reg} : runSeq env pc (some (.logicShift .orr rm 0 31 rd) :: is) s
    = runSeq env (pc + 1) is (s.writeX rd (s.readX rm)) := by
  rw [runSeq_cons, execOne_mov64, Option.bind_some]

theorem runSeq_add64Imm {sh : Bool} {i : BitVec 12} {imm : BitVec 32} {rn rd : Reg}
    (hv : immValue sh i = imm.setWidth 64) :
    runSeq env pc (some (.addSubImm false false sh i rn rd) :: is) s
      = runSeq env (pc + 1) is (s.writeXsp rd (s.x rn + imm.setWidth 64)) := by
  rw [runSeq_cons]
  show runSeq env (pc + 1) is (s.writeXsp rd (addc (s.x rn) (immValue sh i) false)) = _
  rw [hv, addc_false]

theorem runSeq_sub64Imm {sh : Bool} {i : BitVec 12} {imm : BitVec 32} {rn rd : Reg}
    (hv : immValue sh i = imm.setWidth 64) :
    runSeq env pc (some (.addSubImm true false sh i rn rd) :: is) s
      = runSeq env (pc + 1) is (s.writeXsp rd (s.x rn - imm.setWidth 64)) := by
  rw [runSeq_cons]
  show runSeq env (pc + 1) is (s.writeXsp rd (addc (s.x rn) (~~~immValue sh i) true)) = _
  rw [hv, addc_not_true]

end Steps

/-- The leftover displacement of the operand is one that a load or store of this size can have, or
the profile checks that it is. -/
def AccessOk (p : Profile) (op : Operand) (size : OpSize) : Prop :=
  p.debugAssertions = true ∨ Fits size.bytes op.leftover

/-- The value of a memory operand, as a load of the given size reads it. -/
def memValue (inst : Inst) (s : State) (size : OpSize) (op : Operand) : BitVec 64 :=
  s.mem.read 64 size.bytes (effectiveAddress inst s op)

theorem emits_loadOperand {op : Operand} {inst : Inst} {size : OpSize}
    {Q : BitVec 32 → List (Option Insn) → Prop} (hok : AccessOk p op size)
    (h : ∀ is, Fits size.bytes op.leftover → (∀ env pc s, runSeq env pc is s
      = some ((s.writeX 16#5 (effectiveAddress inst s op - op.leftover.setWidth 64)).writeX 17#5
        (memValue inst s size op))) → Q op.leftover is) :
    Emits p (loadOperand op inst size) Q := by
  refine Emits.bind (emits_addrIntoXtmp fun is ha =>
    Emits.bind (emits_loadSized hok fun hfit => Emits.pure (h _ hfit fun env pc s => ?_)))
  obtain ⟨t, ht⟩ := ha env pc s
  rw [List.append_nil, runSeq_append, ht, Option.bind_some, runSeq_cons, execOne_loadInsn hfit]
  simp only [Option.bind_some, runSeq_nil, State.writeX_mem, State.x_writeX, ne_eq, and_true,
    BitVec.reduceEq, not_false_eq_true, if_true, BitVec.sub_add_cancel, memValue,
    BitVec.ofNat_eq_ofNat]
  rw [writeX_comm _ _ _ (show (17#5 : Reg) ≠ 16#5 by decide), writeX_writeX_self]

end Quantum.Jit
