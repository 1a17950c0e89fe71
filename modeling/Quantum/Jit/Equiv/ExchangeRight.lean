import Quantum.Jit.Equiv.DecodeExchange
import Quantum.Jit.Equiv.ExchangeMemory

/-!
# Which exchanges are right

The exact condition for the code of `XCHG`, `XADD` and `CMPXCHG`, in every operand form and size
(`exchange_correct_iff`).  The code moves whole registers, and compares them whole.
-/

namespace Quantum.Jit

open A64
open EmitM

section Exact

variable {p : Profile} {op : ExchangeOp} {inst : Inst} {ws : List Word}

theorem exchange_reg_iff {rd src : GpReg} {n size : OpSize} (h0 : inst.operand0 = some (.reg rd n))
    (h1 : inst.operand1 = some (.reg src size)) (hws : compile p (op.lift inst) = some ws) :
    ExchangeCorrect op inst size (.reg rd n) src ws ↔ ExchangeOk op size (.reg rd n) src := by
  cases op with
  | xchg => exact xchg_reg_iff h0 h1 hws
  | xadd => exact xadd_reg_iff h0 h1 hws
  | cmpxchg => exact cmpxchg_reg_iff h0 h1 hws

theorem exchange_mem_iff {dst : Operand} {src : GpReg} (hm : dst.isMem = true)
    (h0 : inst.operand0 = some dst) (h1 : inst.operand1 = some (.reg src dst.memSize))
    (hws : compile p (op.lift inst) = some ws) :
    ExchangeCorrect op inst dst.memSize dst src ws ↔ ExchangeOk op dst.memSize dst src := by
  have hok : ExchangeOk op dst.memSize dst src ↔ Fits dst.memSize.bytes dst.leftover ∧
      (dst.memSize = .b8 ∨ dst.memSize = .b4 ∧ op ≠ .cmpxchg) := by
    cases dst <;> first | exact Iff.rfl | cases hm
  rw [hok]
  cases op with
  | xchg =>
    rw [xchg_mem_iff hm h0 h1 hws]
    simp
  | xadd =>
    rw [xadd_mem_iff hm h0 h1 hws]
    simp
  | cmpxchg =>
    rw [cmpxchg_mem_iff hm h0 h1 hws]
    simp

end Exact

/-- **Exchanges.**  From every state the code of a decoded `XCHG`, `XADD` or `CMPXCHG` leaves in registers
and memory what the architecture does, and for `CMPXCHG` the flags on which `JZ` and `JNZ` depend, if and
only if the operands are those of `ExchangeOk`. -/
theorem exchange_correct_iff (p : Profile) (longMode legacy32 : Bool) (rip : BitVec 64) (bs rest : List Byte)
    (inst : Inst) (op : ExchangeOp) (ws : List Word) (hdec : decodeNext longMode rip bs = .ok (inst, rest))
    (hop : inst.op.exchange = some op) (hws : compile p (lift legacy32 inst) = some ws) :
    ∃ dst src, inst.operand0 = some dst ∧ inst.operand1 = some (.reg src dst.memSize) ∧
      (ExchangeCorrect op inst dst.memSize dst src ws ↔ ExchangeOk op dst.memSize dst src) := by
  obtain ⟨dst, src, h0, h1, hform⟩ := decodeNext_exchange hdec hop
  rw [lift_of_exchange hop] at hws
  refine ⟨dst, src, h0, h1, ?_⟩
  rcases hform with ⟨rd, n, rfl⟩ | hm
  · exact exchange_reg_iff h0 h1 hws
  · exact exchange_mem_iff hm h0 h1 hws

/-- `XCHG RCX, RDX`. -/
theorem exchange_correct_iff_xchg : ∃ inst ws, decodeNext true 0x1000 [0x48, 0x87, 0xD1] = .ok (inst, []) ∧
    compile ⟨true⟩ (lift false inst) = some ws ∧ ExchangeCorrect .xchg inst .b8 (.reg .rcx .b8) .rdx ws := by
  obtain ⟨inst, hdec, hop, h0, h1, ws, hws⟩ : ∃ inst,
      decodeNext true 0x1000 [0x48, 0x87, 0xD1] = .ok (inst, []) ∧ inst.op.exchange = some .xchg ∧
      inst.operand0 = some (.reg .rcx .b8) ∧ inst.operand1 = some (.reg .rdx .b8) ∧
      ∃ ws, compile ⟨true⟩ (lift false inst) = some ws := ⟨_, rfl, rfl, rfl, rfl, _, rfl⟩
  refine ⟨inst, ws, hdec, hws, ?_⟩
  obtain ⟨dst, src, h0', h1', hiff⟩ :=
    exchange_correct_iff ⟨true⟩ true false 0x1000 _ _ inst .xchg ws hdec hop hws
  rw [h0, Option.some.injEq] at h0'
  subst h0'
  rw [h1, Option.some.injEq] at h1'
  cases h1'
  exact hiff.mpr rfl

/-- The bytes decode to an exchange that every profile translates, and none to right code. -/
def ExchangeWrong (bytes : List Byte) : Prop :=
  ∃ inst op dst src, decodeNext true 0x1000 bytes = .ok (inst, []) ∧ inst.op.exchange = some op ∧
    inst.operand0 = some dst ∧ inst.operand1 = some (.reg src dst.memSize) ∧
    ∀ p, ∃ ws, compile p (lift false inst) = some ws ∧ ¬ ExchangeCorrect op inst dst.memSize dst src ws

theorem exchangeWrong_of_not_ok {bytes : List Byte} {inst : Inst} {op : ExchangeOp} {rd src : GpReg}
    {size : OpSize} (hdec : decodeNext true 0x1000 bytes = .ok (inst, []))
    (hop : inst.op.exchange = some op) (h0 : inst.operand0 = some (.reg rd size))
    (h1 : inst.operand1 = some (.reg src size)) (hws : ∀ p, ∃ ws, compile p (lift false inst) = some ws)
    (hok : ¬ ExchangeOk op size (.reg rd size) src) : ExchangeWrong bytes := by
  refine ⟨inst, op, _, src, hdec, hop, h0, h1, fun p => ?_⟩
  obtain ⟨ws, hp⟩ := hws p
  refine ⟨ws, hp, fun hc => hok ?_⟩
  rw [lift_of_exchange hop] at hp
  exact (exchange_reg_iff h0 h1 hp).mp hc

/-- `XCHG CL, DL`, `XADD ECX, ECX` and `CMPXCHG ECX, EDX`. -/
theorem exchange_wrong :
    ExchangeWrong [0x86, 0xD1] ∧ ExchangeWrong [0x0F, 0xC1, 0xC9] ∧ ExchangeWrong [0x0F, 0xB1, 0xD1] := by
  refine ⟨exchangeWrong_of_not_ok rfl rfl rfl rfl (fun p => ?_) ?_,
    exchangeWrong_of_not_ok rfl rfl rfl rfl (fun p => ?_) ?_,
    exchangeWrong_of_not_ok rfl rfl rfl rfl (fun p => ?_) ?_⟩
  · exact ⟨_, rfl⟩
  · exact OpSize.noConfusion
  · exact ⟨_, rfl⟩
  · rintro ⟨hne, -⟩
    exact hne rfl
  · rcases p with ⟨_ | _⟩ <;> exact ⟨_, rfl⟩
  · rintro (h | ⟨h, -⟩)
    · cases h
    · cases h

end Quantum.Jit
