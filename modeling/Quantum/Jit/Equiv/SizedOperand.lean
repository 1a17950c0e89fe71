import Quantum.Jit.Equiv.Alu
import Quantum.Jit.Equiv.MemoryAccess

/-!
# Operands of a size

What an instruction makes of a value of 8, 16, 32 or 64 bits: its extensions, and the register that it is
written to (`OpSize.into`).  The second part is about instructions with a memory operand: their code is an
address, a load and a block (`emits_loadForm`).  When the offset of the load does not fit, the value does
not come from the operand (`low_byte_of_unfit`).
-/

namespace Quantum.Jit

open A64

variable {p : Profile}

/-! ### Values of a size -/

namespace OpSize

/-- A value truncated to the size and zero-extended. -/
def zeroExtended (size : OpSize) (v : BitVec 64) : BitVec 64 :=
  (v.setWidth (8 * size.bytes)).setWidth 64

/-- A value truncated to the size and sign-extended. -/
def signExtended (size : OpSize) (v : BitVec 64) : BitVec 64 :=
  (v.setWidth (8 * size.bytes)).signExtend 64

/-- A register after a value of a size is written to it: 32 bits clear the upper half, and fewer leave the
upper bits as they were. -/
def into (size : OpSize) (old v : BitVec 64) : BitVec 64 :=
  match size with
  | .b1 => (old &&& ~~~0xFF#64) ||| zeroExtended .b1 v
  | .b2 => (old &&& ~~~0xFFFF#64) ||| zeroExtended .b2 v
  | .b4 => zeroExtended .b4 v
  | .b8 => v

theorem getLsbD_zeroExtended (size : OpSize) (v : BitVec 64) (i : Nat) :
    (size.zeroExtended v).getLsbD i = (decide (i < 8 * size.bytes) && v.getLsbD i) := by
  rw [zeroExtended, BitVec.getLsbD_setWidth, BitVec.getLsbD_setWidth]
  by_cases hi : i < 64
  · simp [hi]
  · simp [hi, BitVec.getLsbD_of_ge v i (Nat.le_of_not_lt hi)]

theorem zeroExtended_b8 (v : BitVec 64) : zeroExtended .b8 v = v := by
  apply BitVec.eq_of_getLsbD_eq
  intro i hi
  rw [getLsbD_zeroExtended]
  simp [bytes, hi]

/-- The sign extension leaves the bits of the size. -/
theorem getLsbD_signExtended_of_lt {size : OpSize} {i : Nat} (h : i < 8 * size.bytes) (v : BitVec 64) :
    (size.signExtended v).getLsbD i = v.getLsbD i := by
  have h64 : i < 64 := by
    have hle : 8 * size.bytes ≤ 64 := by
      cases size <;> decide
    omega
  rw [signExtended, BitVec.getLsbD_signExtend, if_pos h, BitVec.getLsbD_setWidth]
  simp [h, h64]

/-- What a load of the size gives is extended already. -/
theorem zeroExtended_read (size : OpSize) (m : ByteMem) (a : BitVec 64) :
    size.zeroExtended (m.read 64 size.bytes a) = m.read 64 size.bytes a := by
  apply BitVec.eq_of_getLsbD_eq
  intro i hi
  rw [getLsbD_zeroExtended, ByteMem.getLsbD_read]
  by_cases h : i < 8 * size.bytes <;> simp [h]

end OpSize

theorem and_mask_zeroExtended {size : OpSize} {m : BitVec 64}
    (h : ∀ i : Fin 64, m.getLsbD i = decide (i.val < 8 * size.bytes)) (v : BitVec 64) :
    v &&& m = size.zeroExtended v := by
  apply BitVec.eq_of_getLsbD_eq
  intro i hi
  rw [OpSize.getLsbD_zeroExtended, BitVec.getLsbD_and, h ⟨i, hi⟩, Bool.and_comm]

theorem maskVal_b4 (v : BitVec 64) : maskVal .b4 v = OpSize.b4.zeroExtended v :=
  and_mask_zeroExtended (by decide) v

/-! ### Blocks that set one register -/

theorem Sets.does {r : Reg} {f : State → BitVec 64} {is : List (Option Insn)} (h : Sets r f is) :
    Does (fun s s' => s' = s.writeX r (f s)) is :=
  fun env pc s => ⟨_, h env pc s, rfl⟩

/-- A block that works on a register after a block that sets it. -/
theorem Sets.append {r : Reg} {f : State → BitVec 64} {g : BitVec 64 → BitVec 64}
    {is js : List (Option Insn)} (hr : r ≠ 31#5) (hf : Sets r f is)
    (hg : Sets r (fun s => g (s.x r)) js) : Sets r (fun s => g (f s)) (is ++ js) := by
  intro env pc s
  have hval : (s.writeX r (f s)).x r = f s := by
    rw [State.x_writeX, if_pos ⟨rfl, hr⟩]
  rw [runSeq_append, hf, Option.bind_some, hg]
  dsimp only
  rw [hval, writeX_writeX_self]

theorem emits_movz64_sets {rd : Reg} (imm : BitVec 16) :
    Emits p (movz64 rd imm 0 : LiftM Unit) fun _ is => Sets rd (fun _ => imm.setWidth 64) is := by
  refine emits_movz64 ?_
  intro env pc s
  show some (s.writeX rd (imm.setWidth 64 <<< 0)) = _
  rw [BitVec.shiftLeft_zero]

/-- The difference, with the flags of the subtraction. -/
theorem execOne_subs64 {env : Env} {pc : Nat} (s : State) (rm rn rd : Reg) :
    execOne env pc (.addSubShift true true rm 0 rn rd) s
      = some { s.writeX rd (s.readX rn - s.readX rm) with
          nzcv := A64.addFlags (s.readX rn) (~~~s.readX rm) true } := by
  show some { s.writeX rd (addc (s.readX rn) (~~~(s.readX rm <<< 0)) true) with
    nzcv := A64.addFlags (s.readX rn) (~~~(s.readX rm <<< 0)) true } = _
  rw [BitVec.shiftLeft_zero, addc_not_true]

/-! ### The load of a memory operand -/

/-- The load of a size. -/
def OpSize.access : OpSize → Access
  | .b8 => .ldr64
  | .b4 => .ldr32
  | .b2 => .ldrh
  | .b1 => .ldrb

theorem OpSize.access_bytes (size : OpSize) : size.access.bytes = size.bytes := by
  cases size <;> rfl

/-- The word of the load of a memory operand to `rt`, also when its offset does not fit. -/
def loadWordInto (op : Operand) (rt : Reg) : Word :=
  ldstUoffWord op.memSize.access.size op.memSize.access.v op.memSize.access.opc
    (op.leftover / BitVec.ofNat 32 op.memSize.access.bytes) 16 rt

theorem emits_loadSized_word (op : Operand) (rt : Reg) :
    Emits p (loadSized rt 16 op.leftover op.memSize) fun _ is => is = [decode (loadWordInto op rt)] := by
  have hload : loadSized rt 16 op.leftover op.memSize = op.memSize.access.emit rt 16 op.leftover := by
    cases op.memSize <;> rfl
  rw [hload, Access.emit_eq]
  exact emits_ldstScaled (Access.bytes_lt _) fun _ => rfl

/-- A memory operand: any code for its address, the load, and what comes after it. -/
theorem emits_loadForm {inst : Inst} {op : Operand} {rt : Reg} {rest : BitVec 32 → LiftM Unit}
    {A B : List (Option Insn) → Prop}
    (hA : Emits p (addrIntoXtmp op inst 16) fun l is => l = op.leftover ∧ A is)
    (hB : Emits p (rest op.leftover) fun _ is => B is) :
    Emits p (do
      let leftover ← addrIntoXtmp op inst 16
      loadSized rt 16 leftover op.memSize
      rest leftover) fun _ is =>
        ∃ is₁ is₂, A is₁ ∧ B is₂ ∧ is = is₁ ++ (decode (loadWordInto op rt) :: is₂) := by
  refine Emits.bind (hA.mono ?_)
  rintro l is₁ ⟨rfl, hA₁⟩
  refine Emits.bind ((emits_loadSized_word op rt).mono ?_)
  rintro - is ⟨rfl⟩
  exact hB.mono fun _ is₂ hB₂ => ⟨is₁, is₂, hA₁, hB₂, rfl⟩

theorem decode_loadWordInto {op : Operand} (rt : Reg) (hfit : Fits op.memSize.bytes op.leftover) :
    decode (loadWordInto op rt) = some (loadInsn op.memSize rt 16 op.leftover) := by
  unfold loadWordInto
  rw [decode_ldstScaled (Access.bytes_lt _) (by rw [OpSize.access_bytes]; exact hfit), OpSize.access_bytes]
  unfold loadInsn
  cases op.memSize <;> rfl

/-- A displacement that is left to the load: the address code writes nothing but `X16`. -/
theorem emits_addrIntoXtmp_sets {op : Operand} {inst : Inst} (hl : op.leftover ≠ 0) :
    Emits p (addrIntoXtmp op inst 16) fun l is => l = op.leftover ∧
      Sets 16#5 (fun s => effectiveAddress inst s op - op.leftover.setWidth 64) is := by
  cases op with
  | mem m =>
    refine emits_memAddressInto (.inl rfl) m fun is hs => ?_
    have hsmall : 0 < m.disp.toInt ∧ m.disp.toNat < 2 ^ 24 := by
      by_contra hc
      exact hl (if_neg hc)
    have hleft : m.leftover = m.disp := if_pos hsmall
    have hne : m.disp ≠ 0 := by
      intro h0
      exact hl (hleft.trans h0)
    unfold memDispInto
    rw [if_neg hne, if_pos hsmall]
    refine Emits.pure ⟨hleft.symm, ?_⟩
    intro env pc s
    rw [List.append_nil, hs]
    simp [effectiveAddress, Operand.leftover, Mem.address_eq, hleft, signExtend_of_pos hsmall.1]
  | _ => exact absurd rfl hl

/-- The code of an address: it may use `X17`, but not when a displacement is left to the load. -/
def MemAddr (inst : Inst) (op : Operand) (is : List (Option Insn)) : Prop :=
  AddrCode inst op is ∧
    (op.leftover ≠ 0 → Sets 16#5 (fun s => effectiveAddress inst s op - op.leftover.setWidth 64) is)

theorem emits_memAddr (op : Operand) (inst : Inst) :
    Emits p (addrIntoXtmp op inst 16) fun l is => l = op.leftover ∧ MemAddr inst op is := by
  by_cases hl : op.leftover = 0
  · exact emits_addrIntoXtmp fun is ha => ⟨rfl, ha, fun h => absurd hl h⟩
  · refine (emits_addrIntoXtmp_sets hl).mono ?_
    rintro l is ⟨rfl, hs⟩
    refine ⟨rfl, fun env pc s => ⟨s.x 17#5, ?_⟩, fun _ => hs⟩
    rw [State.writeX_x_self]
    exact hs env pc s

/-- An access whose offset does not fit, at a base in `X16`: its register holds what was there, or a value
from outside the operand, and the bytes below the base are as they were. -/
theorem misencoded_access {env : Env} {pc : Nat} {a : Access} {offset : BitVec 32} {rt : Reg} {s s' : State}
    (henv : ∀ w v, env.simdScalar w v = none) (h31 : rt ≠ 31#5) (hfit : ¬ Fits a.bytes offset)
    (h : runSeq env pc [decode (ldstUoffWord a.size a.v a.opc (offset / BitVec.ofNat 32 a.bytes) 16 rt)] s
      = some s') :
    (∀ r, r ≠ rt → s'.x r = s.x r) ∧
    (s'.x rt = s.x rt ∨
      ∃ b, ¬ InRange (s.x 16#5 + offset.setWidth 64) 16 b ∧ (s'.x rt).setWidth 8 = s.mem b) ∧
    ∀ b, InRange (s.x 16#5 - 16) 16 b → s'.mem b = s.mem b := by
  have hother := @insnAddr_misencoded a offset hfit 16#5 rt s
  change runSeq env pc [decode (ldstUoffWord _ _ _ _ 16#5 rt)] s = some s' at h
  generalize a.size = size, a.v = v, a.opc = opc, offset / BitVec.ofNat 32 a.bytes = q at h hother
  rcases decode_ldstUoffWord_cases size opc v q 16#5 rt with hd | hd | hd
  · rw [hd] at hother
    rw [hd, runSeq_cons, Option.bind_eq_some_iff] at h
    obtain ⟨s₁, hs₁, h⟩ := h
    obtain rfl := Option.some.inj h
    obtain ⟨hregs, hx, hmem⟩ := execLdst_effect h31 hs₁
    refine ⟨hregs, ?_, fun b hb => ?_⟩
    · rcases hx with hx | ⟨n, hn, hx⟩
      · exact .inl hx
      · refine .inr ⟨_, hother ?_, hx⟩
        rw [insnAddr, hn, Option.map_some]
    · -- the offset of the word is not negative, and small
      apply hmem b
      intro n hn hin
      have h16 := ldstBytes_le_16 hn
      have himm := (q.extractLsb' 0 12).isLt
      have hmul := Nat.mul_le_mul (Nat.le_of_lt himm) h16
      have hoff : (BitVec.ofNat 64 ((q.extractLsb' 0 12).toNat * n)).toNat = (q.extractLsb' 0 12).toNat * n := by
        rw [BitVec.toNat_ofNat, Nat.mod_eq_of_lt (by omega)]
      unfold InRange ldstAddr at *
      bv_omega
  · rw [hd] at h
    cases h
  · rw [hd, runSeq_cons, Option.bind_eq_some_iff] at h
    obtain ⟨s₁, hs₁, -⟩ := h
    change (env.simdScalar _ _).map _ = _ at hs₁
    rw [henv] at hs₁
    cases hs₁

/-- A load whose offset does not fit leaves in its register what was there, or a value from outside the
operand. -/
theorem misencoded_load {env : Env} {pc : Nat} {op : Operand} {rt : Reg} {s s' : State}
    (henv : ∀ w v, env.simdScalar w v = none) (h31 : rt ≠ 31#5)
    (hfit : ¬ Fits op.memSize.bytes op.leftover)
    (h : runSeq env pc [decode (loadWordInto op rt)] s = some s') :
    (∀ r, r ≠ rt → s'.x r = s.x r) ∧ (s'.x rt = s.x rt ∨
      ∃ b, ¬ InRange (s.x 16#5 + op.leftover.setWidth 64) 16 b ∧ (s'.x rt).setWidth 8 = s.mem b) := by
  rw [← OpSize.access_bytes] at hfit
  obtain ⟨hregs, hx, -⟩ := misencoded_access henv h31 hfit h
  exact ⟨hregs, hx⟩

/-! ### Probes -/

/-- A state that tells values apart: one value in every register, and one byte everywhere in memory. -/
def uniform (v : BitVec 64) (b : BitVec 8) : State :=
  { (default : State) with x := fun _ => v, mem := fun _ => b }

/-- The state with `v` in the memory operand, and `w` in every other byte of memory. -/
def valueAt (inst : Inst) (op : Operand) (v : BitVec 64) (w : BitVec 8) (s : State) : State :=
  { s with mem := ByteMem.write op.memSize.bytes (fun _ => w) (effectiveAddress inst s op) v }

theorem effectiveAddress_valueAt (inst : Inst) (op : Operand) (v : BitVec 64) (w : BitVec 8) (s : State) :
    effectiveAddress inst (valueAt inst op v w s) op = effectiveAddress inst s op := by
  cases op <;> rfl

theorem memValue_valueAt (inst : Inst) (op : Operand) (v : BitVec 64) (w : BitVec 8) (s : State) :
    memValue inst (valueAt inst op v w s) op.memSize op = op.memSize.zeroExtended v := by
  unfold memValue
  rw [effectiveAddress_valueAt]
  unfold valueAt
  rw [ByteMem.read_write_self _ _ _ _ (Nat.lt_trans (OpSize.bytes_lt _) (by decide))]
  rfl

theorem mem_valueAt {inst : Inst} {op : Operand} {v : BitVec 64} {w : BitVec 8} {s : State} {b : BitVec 64}
    (hb : ¬ InRange (effectiveAddress inst s op) 16 b) : (valueAt inst op v w s).mem b = w := by
  have hbytes : op.memSize.bytes ≤ 16 := by
    cases op.memSize <;> decide
  have hout : ¬ InRange (effectiveAddress inst s op) op.memSize.bytes b := fun hin =>
    hb (Nat.lt_of_lt_of_le hin hbytes)
  exact ByteMem.write_of_not_inRange (m := fun _ => w) hout

/-- The state with `1` in the memory operand, and zero in all other memory. -/
def oneAt (inst : Inst) (op : Operand) (s : State) : State :=
  { s with mem := ByteMem.write op.memSize.bytes (fun _ => 0) (effectiveAddress inst s op) 1#64 }

theorem effectiveAddress_oneAt (inst : Inst) (op : Operand) (s : State) :
    effectiveAddress inst (oneAt inst op s) op = effectiveAddress inst s op :=
  effectiveAddress_valueAt inst op 1 0 s

theorem memValue_oneAt (inst : Inst) (op : Operand) (s : State) :
    memValue inst (oneAt inst op s) op.memSize op = 1 := by
  have hone : op.memSize.zeroExtended 1 = 1 := by
    cases op.memSize <;> decide
  exact (memValue_valueAt inst op 1 0 s).trans hone

theorem mem_oneAt {inst : Inst} {op : Operand} {s : State} {b : BitVec 64}
    (hb : ¬ InRange (effectiveAddress inst s op) 16 b) : (oneAt inst op s).mem b = 0 :=
  @mem_valueAt inst op 1 0 s b hb

/-- A run of a whole instruction passes the end of a stretch at its beginning. -/
theorem exec_append {env : Env} {ws : List Word} {is js : List (Option Insn)} {s s' : State}
    (hws : ws.map decode = is ++ js) (hlin : ∀ i, some i ∈ is ++ js → i.isLinear = true)
    (h : Exec env ws s s') :
    ∃ s₁, runSeq env 0 is s = some s₁ ∧ runSeq env is.length js s₁ = some s' := by
  have hrun := runSeq_of_exec (by rw [hws]; exact hlin) h
  rw [hws, runSeq_append, Nat.zero_add] at hrun
  exact Option.bind_eq_some_iff.mp hrun

/-- A run of an instruction with a memory operand, whether its offset fits or not. -/
theorem exec_loadForm {env : Env} {ws : List Word} {inst : Inst} {op : Operand} {rt : Reg}
    {is₁ is₂ : List (Option Insn)} {s s' : State} (hmem : MemAddr inst op is₁)
    (hlin : ∀ i, some i ∈ is₂ → i.isLinear = true)
    (hws : ws.map decode = is₁ ++ (decode (loadWordInto op rt) :: is₂)) (h : Exec env ws s s') :
    ∃ pc t s₂, runSeq env 0 is₁ s = some t ∧ runSeq env is₁.length [decode (loadWordInto op rt)] t = some s₂ ∧
      runSeq env pc is₂ s₂ = some s' := by
  have hall : ∀ i, some i ∈ is₁ ++ (decode (loadWordInto op rt) :: is₂) → i.isLinear = true := by
    intro i hi
    rcases List.mem_append.mp hi with hi | hi
    · obtain ⟨t, ht⟩ := hmem.1 default 0 default
      exact isLinear_of_runSeq ht i hi
    rcases List.mem_cons.mp hi with hi | hi
    · exact isLinear_ldstUoffWord hi
    · exact hlin i hi
  obtain ⟨t, ht, hrest⟩ := exec_append hws hall h
  rw [← List.singleton_append, runSeq_append, Option.bind_eq_some_iff] at hrest
  obtain ⟨s₂, hs₂, hlast⟩ := hrest
  exact ⟨_, t, s₂, ht, hs₂, hlast⟩

/-- With an offset that does not fit, the loaded register does not have the low bit of the operand. -/
theorem low_byte_of_unfit {env : Env} {ws : List Word} {inst : Inst} {op : Operand} {rt : Reg}
    {is₁ is₂ : List (Option Insn)} {s s' : State} (henv : ∀ w v, env.simdScalar w v = none)
    (hrt : rt ≠ 31#5 ∧ rt ≠ 16#5) (hfit : ¬ Fits op.memSize.bytes op.leftover)
    (hmem : MemAddr inst op is₁) (hlin : ∀ i, some i ∈ is₂ → i.isLinear = true)
    (hws : ws.map decode = is₁ ++ (decode (loadWordInto op rt) :: is₂))
    (h : Exec env ws (oneAt inst op s) s') (h0 : (s.x rt).setWidth 8 = 0) :
    ∃ pc s₂, runSeq env pc is₂ s₂ = some s' ∧ (s₂.x rt).setWidth 8 = 0 ∧
      ∀ r, r ≠ rt → r ≠ 16#5 → s₂.x r = s.x r := by
  have haddr := hmem.2 fun hl => hfit (hl ▸ fits_zero _)
  obtain ⟨pc, s₁, s₂, hs₁, hs₂, hlast⟩ := exec_loadForm hmem hlin hws h
  rw [haddr, Option.some.injEq] at hs₁
  subst hs₁
  obtain ⟨hregs, hx⟩ := misencoded_load henv hrt.1 hfit hs₂
  refine ⟨pc, s₂, hlast, ?_, fun r hr h16 => ?_⟩
  · rcases hx with hx | ⟨b, hb, hx⟩
    · rw [hx, State.x_writeX, if_neg fun hc => hrt.2 hc.1]
      exact h0
    · rw [hx, State.writeX_mem, mem_oneAt]
      simpa [effectiveAddress_oneAt] using hb
  · rw [hregs r hr, State.x_writeX, if_neg fun hc => h16 hc.1]
    rfl

/-! ### The load to `X17` -/

/-- Any code for the address, and the load to `X17`. -/
def LoadCode (inst : Inst) (op : Operand) (is : List (Option Insn)) : Prop :=
  ∃ is₁, MemAddr inst op is₁ ∧ is = is₁ ++ [decode (loadWordInto op 17)]

theorem emits_loadOperand_code (op : Operand) (inst : Inst) :
    Emits p (loadOperand op inst op.memSize) fun l is => l = op.leftover ∧ LoadCode inst op is := by
  unfold loadOperand
  refine Emits.bind ((emits_memAddr op inst).mono ?_)
  rintro l is₁ ⟨rfl, haddr⟩
  refine Emits.bind ((emits_loadSized_word op 17).mono ?_)
  rintro - is ⟨rfl⟩
  refine Emits.pure ⟨rfl, is₁, haddr, ?_⟩
  rw [List.append_nil]

theorem LoadCode.isLinear {inst : Inst} {op : Operand} {is : List (Option Insn)} (h : LoadCode inst op is) :
    ∀ i, some i ∈ is → i.isLinear = true := by
  obtain ⟨is₁, haddr, rfl⟩ := h
  intro i hi
  rcases List.mem_append.mp hi with hi | hi
  · obtain ⟨t, ht⟩ := haddr.1 default 0 default
    exact isLinear_of_runSeq ht i hi
  · exact isLinear_ldstUoffWord (List.mem_singleton.mp hi)

/-- The load, when its offset fits. -/
theorem LoadCode.loads {inst : Inst} {op : Operand} {is : List (Option Insn)} (h : LoadCode inst op is)
    (hfit : Fits op.memSize.bytes op.leftover) : Loads inst op is := by
  obtain ⟨is₁, haddr, rfl⟩ := h
  intro env pc s
  obtain ⟨t, ht⟩ := haddr.1 env pc s
  rw [runSeq_append, ht, Option.bind_some, decode_loadWordInto _ hfit, runSeq_loadInsn hfit, runSeq_nil]
  simp only [State.writeX_mem, State.x_writeX, ne_eq, and_true, BitVec.reduceEq, not_false_eq_true, if_true,
    BitVec.sub_add_cancel, memValue, BitVec.ofNat_eq_ofNat]
  rw [writeX_comm _ _ _ (show (17#5 : Reg) ≠ 16#5 by decide), writeX_writeX_self]

/-- The load, when its offset does not fit: the low byte of `X17` is the byte `w` that stands in the register
and everywhere outside the operand. -/
theorem LoadCode.misloads_byte {env : Env} {pc : Nat} {inst : Inst} {op : Operand} {is : List (Option Insn)}
    {w : BitVec 8} {s t : State} (h : LoadCode inst op is) (henv : ∀ w v, env.simdScalar w v = none)
    (hfit : ¬ Fits op.memSize.bytes op.leftover) (hw : (s.x 17#5).setWidth 8 = w)
    (hmem : ∀ b, ¬ InRange (effectiveAddress inst s op) 16 b → s.mem b = w) (hrun : runSeq env pc is s = some t) :
    (t.x 17#5).setWidth 8 = w ∧ t.x 16#5 = effectiveAddress inst s op - op.leftover.setWidth 64 ∧
      ∀ r, r ≠ 17#5 → r ≠ 16#5 → t.x r = s.x r := by
  obtain ⟨is₁, haddr, rfl⟩ := h
  -- an offset that does not fit is not zero, so the address was put in `X16` alone
  have hset := haddr.2 fun hl => hfit (hl ▸ fits_zero _)
  rw [runSeq_append, hset, Option.bind_some] at hrun
  obtain ⟨hregs, hx⟩ := @misencoded_load _ _ _ 17#5 _ _ henv (by decide) hfit hrun
  refine ⟨?_, ?_, fun r h17 h16 => ?_⟩
  · rcases hx with hx | ⟨b, hb, hx⟩
    · rw [hx, State.x_writeX, if_neg (by decide)]
      exact hw
    · rw [hx, State.writeX_mem]
      exact hmem b (by simpa using hb)
  · rw [hregs _ (by decide), State.x_writeX, if_pos (by decide)]
  · rw [hregs r h17, State.x_writeX, if_neg fun hc => h16 hc.1]

/-- The load, when its offset does not fit: `X17` does not have the low byte of the operand. -/
theorem LoadCode.misloads {env : Env} {pc : Nat} {inst : Inst} {op : Operand} {is : List (Option Insn)}
    {s t : State} (h : LoadCode inst op is) (henv : ∀ w v, env.simdScalar w v = none)
    (hfit : ¬ Fits op.memSize.bytes op.leftover)
    (h0 : (s.x 17#5).setWidth 8 = 0) (hrun : runSeq env pc is (oneAt inst op s) = some t) :
    (t.x 17#5).setWidth 8 = 0 ∧ t.x 16#5 = effectiveAddress inst s op - op.leftover.setWidth 64 ∧
      ∀ r, r ≠ 17#5 → r ≠ 16#5 → t.x r = s.x r := by
  rw [← effectiveAddress_oneAt]
  exact h.misloads_byte henv hfit h0 (fun b hb => mem_oneAt (by rwa [effectiveAddress_oneAt] at hb)) hrun

end Quantum.Jit
