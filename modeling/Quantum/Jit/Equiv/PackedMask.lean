import Quantum.Jit.Equiv.Alu
import Quantum.Jit.Equiv.DecodeXmm
import Quantum.Jit.Equiv.Packed

/-!
# The packed-integer instructions as a whole

`PMOVMSKB` gathers the signs of sixteen bytes with a mask of one bit a byte and two sums of eight bytes.  With
it, every packed-integer instruction on registers does what it should and changes nothing else
(`packed_right`).
-/

namespace Quantum.Jit

open A64
open EmitM

variable {p : Profile}

/-! ### Signs and masks -/

/-- The masks of the lifter: bit `i % 8` in byte `i`. -/
def maskBits : BitVec 128 :=
  0x80402010080402018040201008040201#128

theorem setLanes_maskBits (a : BitVec 128) :
    setLane 64 1 (setLane 64 0 a 0x8040201008040201#64) 0x8040201008040201#64 = maskBits := by
  have hmask : maskBits = ofLanes 128 fun _ => 0x8040201008040201#64 :=
    eq_ofLanes (by decide) (by decide) (by decide)
  rw [hmask]
  refine eq_ofLanes (by decide) (by decide) fun i hi => ?_
  rw [lane_setLane (by decide), lane_setLane (by decide)]
  have hcases : i = 1 ∨ i = 0 := by omega
  rcases hcases with rfl | rfl
  · simp
  · simp

/-- The sign of every byte at the bit of its mask. -/
theorem lane_signs (a : BitVec 128) {i : Nat} (hi : i < 16) :
    lane 8 (execVec .and (execVecShift .sshr 9#7 a) maskBits) i
      = if (lane 8 a i).msb then 1#8 <<< (i % 8) else 0 := by
  have hshr : ∀ b : BitVec 8, b.sshiftRight 7 = if b.msb then 255#8 else 0#8 := by
    decide
  have hmask : ∀ i, i < 16 → lane 8 maskBits i = 1#8 <<< (i % 8) := by
    decide
  obtain ⟨-, -, hsshr⟩ := @execVecShift_eq 8 (by decide) 9#7 (by decide) (by decide) a
  show lane 8 (execVecShift .sshr 9#7 a &&& maskBits) i = _
  rw [lane_and, hmask i hi, hsshr, lane_ofLanes _ (by omega)]
  show (lane 8 a i).sshiftRight 7 &&& _ = _
  rw [hshr]
  split_ifs
  · exact BitVec.allOnes_and
  · exact BitVec.zero_and

/-- The two halves of the signs. -/
theorem moveMask_eq (a : BitVec 128) :
    ((ofLanes 8 fun i => BitVec.ofBool (lane 8 a (i + 8)).msb) ++
      (ofLanes 8 fun i => BitVec.ofBool (lane 8 a i).msb)).setWidth 64 = X86.moveMask a := by
  refine BitVec.eq_of_getLsbD_eq fun j hj => ?_
  rw [X86.moveMask, BitVec.getLsbD_setWidth, BitVec.getLsbD_setWidth, BitVec.getLsbD_append,
    getLsbD_ofLanes_ofBool, getLsbD_ofLanes_ofBool, getLsbD_ofLanes_ofBool]
  by_cases h8 : j < 8
  · have h16 : j < 16 := by omega
    simp [h8, h16]
  · by_cases h16 : j < 16
    · have hlt : j - 8 < 8 := by omega
      have hback : j - 8 + 8 = j := by omega
      simp [h8, h16, hlt, hback]
    · have hlt : ¬ j - 8 < 8 := by omega
      simp [h8, h16, hlt]

/-! ### The code of `PMOVMSKB` -/

theorem emits_sshrV16b {ε : Type} : Emits p (sshrV16b 16 16 7 : EmitM ε Unit) fun _ is =>
    is = [some (.vecShift .sshr 9#7 16 16)] := by
  refine Emits.bind (Emits.debugAssert fun _ => Emits.push ?_)
  exact congrArg (fun o => [o]) (decode_vecShiftWord 16 16 .sshr 9#32 (by decide) (by decide))

/-- The sums of the two halves of `V16`, in `V16` and `V18`. -/
theorem does_sums :
    Does (fun s s' => s'.x = s.x ∧ s'.mem = s.mem ∧ s'.v 16#5 = (sumBytes 8 (s.v 16#5)).setWidth 128 ∧
        s'.v 18#5 = (sumBytes 8 (execVec (.ext 8) (s.v 16#5) (s.v 16#5))).setWidth 128)
      [some (.vec (.ext 8) 16 16 18), some (.addvB 16 16), some (.addvB 18 18)] := by
  intro env pc s
  refine ⟨_, rfl, rfl, rfl, ?_, ?_⟩
  · rw [State.v_writeV, if_neg (show (16#5 : Reg) ≠ 18 by decide), State.v_writeV,
      if_pos (show (16#5 : Reg) = 16 from rfl), State.v_writeV, if_neg (show (16 : Reg) ≠ 18 by decide)]
    rfl
  · rw [State.v_writeV, if_pos (show (18#5 : Reg) = 18 from rfl), State.v_writeV,
      if_neg (show (18 : Reg) ≠ 16 by decide), State.v_writeV, if_pos rfl]
    rfl

theorem does_umovB (v rd : Reg) :
    Does (fun s s' => s' = s.writeX rd ((lane 8 (s.v v) 0).setWidth 64)) [some (.umovB 0 v rd)] :=
  fun _ _ _ => ⟨_, rfl, rfl⟩

/-- The low bytes of `V16` and `V18` to a guest register. -/
theorem does_bytes (r : GpReg) :
    Does (fun s s' => s'.mem = s.mem ∧ s'.x 28#5 = s.x 28#5 ∧ guest s' = Function.update (guest s) r
        ((lane 8 (s.v 18#5) 0 ++ lane 8 (s.v 16#5) 0).setWidth 64))
      [some (.umovB 0 16 (hostReg r)), some (.umovB 0 18 17), some (.bfm32 24 7 17 (hostReg r))] := by
  have hne : hostReg r ≠ 17#5 := hostReg_ne_17 r
  have hbfm : Does (fun s s' => s' = s.writeX (hostReg r)
      ((bfm32 24 7 ((s.readX (hostReg r)).setWidth 32) ((s.readX 17#5).setWidth 32)).setWidth 64))
      [some (.bfm32 24 7 17 (hostReg r))] := fun _ _ _ => ⟨_, rfl, rfl⟩
  refine ((does_umovB 16#5 (hostReg r)).append ((does_umovB 18#5 17#5).append hbfm)).mono ?_
  rintro s s' ⟨t, rfl, u, rfl, rfl⟩
  refine ⟨?_, ?_, ?_⟩
  · simp only [State.writeX_mem]
  · have h28 : ∀ (t : State) (a : BitVec 64), (t.writeX (hostReg r) a).x 28#5 = t.x 28#5 := by
      intro t a
      rw [State.x_writeX, if_neg fun h => hostReg_ne_28 r h.1.symm]
    rw [h28, State.x_writeX, if_neg (by decide), h28]
  · rw [State.readX_writeX, if_neg fun h => hne h.1, State.readX_writeX, if_pos ⟨rfl, hostReg_ne_31 r⟩,
      State.readX_writeX, if_pos ⟨rfl, by decide⟩, State.writeX_v, bfm32_bytes, guest_writeX_hostReg,
      guest_writeX_17, guest_writeX_hostReg, Function.update_idem]

theorem lane_setWidth (b : BitVec 8) : lane 8 (b.setWidth 128) 0 = b := by
  refine BitVec.eq_of_getLsbD_eq fun j hj => ?_
  rw [Quantum.getLsbD_lane, BitVec.getLsbD_setWidth]
  have hlt : j < 128 := by omega
  simp [hj, hlt]

/-- The sums of the masked signs. -/
theorem sums_signs (a : BitVec 128) :
    let b := execVec .and (execVecShift .sshr 9#7 a) maskBits
    (sumBytes 8 (execVec (.ext 8) b b) ++ sumBytes 8 b).setWidth 64 = X86.moveMask a := by
  intro b
  have hlow : sumBytes 8 b = ofLanes 8 fun i => BitVec.ofBool (lane 8 a i).msb := by
    refine sumBytes_bits fun i hi => ?_
    rw [lane_signs a (by omega), Nat.mod_eq_of_lt hi]
  have hext : ∀ i, i < 8 → lane 8 (execVec (.ext 8) b b) i = lane 8 b (i + 8) := by
    intro i hi
    refine BitVec.eq_of_getLsbD_eq fun j hj => ?_
    show (lane 8 (b >>> 64 ||| b <<< 64) i).getLsbD j = _
    have hbit : 64 + (8 * i + j) = 8 * (i + 8) + j := by omega
    have hlt : 8 * i + j < 64 := by omega
    rw [Quantum.getLsbD_lane, Quantum.getLsbD_lane, BitVec.getLsbD_or, BitVec.getLsbD_ushiftRight,
      BitVec.getLsbD_shiftLeft, hbit]
    simp [hlt]
  have hhigh : sumBytes 8 (execVec (.ext 8) b b)
      = ofLanes 8 fun i => BitVec.ofBool (lane 8 a (i + 8)).msb := by
    refine sumBytes_bits fun i hi => ?_
    have hmod : (i + 8) % 8 = i := by omega
    rw [hext i hi, lane_signs a (by omega), hmod]
  rw [hlow, hhigh, moveMask_eq]

/-- Only guest register `r` changes. -/
structure WritesGpr (r : GpReg) (v : BitVec 64) (s s' : State) : Prop where
  regs : guest s' = Function.update (guest s) r v
  xmms : ∀ q, xmm s' q = xmm s q
  mem : s'.mem = s.mem

theorem xmm_congr {s s' : State} (hmem : s'.mem = s.mem) (hx : s'.x 28#5 = s.x 28#5) (q : BitVec 8) :
    xmm s' q = xmm s q := by
  rw [xmm, xmm, hmem, hx]

theorem emits_pmovmskb {inst : Inst} {r : GpReg} {q : BitVec 8} {m₀ m₁ : OpSize}
    (h0 : inst.operand0 = some (.reg r m₀)) (h1 : inst.operand1 = some (.xmmReg q m₁)) (hq : q.toNat < 16) :
    Emits p (liftPmovmskb inst) fun _ is =>
      Does (fun s s' => WritesGpr r (X86.moveMask (xmm s q)) s s') is := by
  unfold liftPmovmskb
  refine Emits.bind (Emits.okOr fun dst hdst => Emits.bind (Emits.okOr fun src hsrc => ?_))
  cases h0.symm.trans hdst
  cases h1.symm.trans hsrc
  have hand : ((0x4E201C00#32 : Word), VecOp.and) ∈ vecTable := by
    decide
  refine Emits.bind (emits_loadConst64 (by decide) _ fun is hl => Emits.bind (Emits.push ?_))
  rw [decode_insVDGpr]
  refine Emits.bind (Emits.push ?_)
  rw [decode_insVDGpr]
  refine Emits.bind (emits_loadXmm hq (Emits.bind (emits_sshrV16b.mono ?_)))
  rintro _ _ rfl
  refine Emits.bind (emits_vec3 hand (Emits.bind (emits_ext (by decide) ?_)))
  refine Emits.bind (Emits.push ?_)
  rw [decode_addvB]
  refine Emits.bind (Emits.push ?_)
  rw [decode_addvB]
  refine Emits.bind (Emits.push ?_)
  rw [decode_umovWB]
  refine Emits.bind (Emits.push ?_)
  rw [decode_umovWB]
  refine Emits.bind (Emits.debugAssert fun _ => Emits.push ?_)
  rw [decode_bfiW]
  have hins : ∀ i : Bool, Does (fun s s' => s' = s.writeV 17#5 (setLane 64 i.toNat (s.v 17#5) (s.readX 16#5)))
      [some (.insD i 16 17)] := fun _ _ _ _ => ⟨_, rfl, rfl⟩
  have hmask : Does (fun s s' => s' = (s.writeX 16 0x8040201008040201#64).writeV 17#5 maskBits)
      (is ++ ([some (.insD false 16 17)] ++ [some (.insD true 16 17)])) := by
    have hload : Does (fun s s' => s' = s.writeX 16 0x8040201008040201#64) is :=
      fun env pc s => ⟨_, hl.run env pc s, rfl⟩
    refine (hload.append ((hins false).append (hins true))).mono ?_
    rintro s s' ⟨t, rfl, u, rfl, rfl⟩
    have hx : (s.writeX 16 0x8040201008040201#64).readX 16#5 = 0x8040201008040201#64 := by
      rw [State.readX_writeX, if_pos ⟨rfl, by decide⟩]
    have hww : ∀ (t : State) (a b : BitVec 128), (t.writeV 17#5 a).writeV 17#5 b = t.writeV 17#5 b := by
      intro t a b
      simp only [State.writeV, Function.update_idem]
    rw [State.writeV_readX, hx, State.v_writeV, if_pos rfl, hww]
    exact congrArg _ (setLanes_maskBits _)
  have hsigns : VecCode (fun a b => execVec .and (execVecShift .sshr 9#7 a) b)
      ([some (.vecShift .sshr 9#7 16 16)] ++ [some (.vec .and 17 16 16)]) := by
    have hshr : Does (fun s s' => s' = s.writeV 16#5 (execVecShift .sshr 9#7 (s.v 16#5)))
        [some (.vecShift .sshr 9#7 16 16)] := fun _ _ _ => ⟨_, rfl, rfl⟩
    refine (hshr.append (vecCode_vec .and)).mono ?_
    rintro s s' ⟨t, rfl, hv, hx, hm⟩
    exact ⟨hv, hx, hm⟩
  have hall := hmask.append ((does_loadXmm 16 hq).append (hsigns.append (does_sums.append (does_bytes r))))
  rw [List.append_assoc] at hall
  refine Does.mono hall ?_
  rintro s s' ⟨t, rfl, u, rfl, w, ⟨hw, hwx, hwm⟩, y, ⟨hyx, hym, hy16, hy18⟩, hm, hx, hg⟩
  -- the mask is set up without a change of the guest's registers
  have hx28 : ((s.writeX 16 0x8040201008040201#64).writeV 17#5 maskBits).x 28#5 = s.x 28#5 := by
    rw [State.writeV_x, State.x_writeX, if_neg (by decide)]
  have hmem : ((s.writeX 16 0x8040201008040201#64).writeV 17#5 maskBits).mem = s.mem := by
    rw [State.writeV_mem, State.writeX_mem]
  have hguest : guest ((s.writeX 16 0x8040201008040201#64).writeV 17#5 maskBits) = guest s :=
    guest_writeX_16 s _
  have hq' := xmm_congr hmem hx28 q
  generalize hs₁ : (s.writeX 16 0x8040201008040201#64).writeV 17#5 maskBits = s₁ at *
  have h17 : s₁.v 17#5 = maskBits := by
    rw [← hs₁, State.v_writeV, if_pos rfl]
  have hv : w.v 16#5 = execVec .and (execVecShift .sshr 9#7 (xmm s q)) maskBits := by
    rw [hw, State.v_writeV, if_pos (show (16#5 : Reg) = 16 from rfl), State.v_writeV,
      if_neg (show (17#5 : Reg) ≠ 16 by decide), h17, hq']
  have hregs : guest y = guest s := by
    rw [← hguest]
    exact funext fun g => congrFun (hyx.trans hwx) _
  have hmem' : s'.mem = s.mem := hm.trans (hym.trans (hwm.trans hmem))
  refine ⟨?_, fun q' => xmm_congr hmem' ?_ q', hmem'⟩
  · rw [hg, hregs, hy16, hy18, lane_setWidth, lane_setWidth, hv, sums_signs]
  · exact hx.trans ((congrFun (hyx.trans hwx) _).trans hx28)

/-! ### All of them -/

/-- The packed-integer instructions that write an XMM register: `d` becomes `f` of the registers before. -/
inductive PackedInt : Inst → BitVec 8 → ((BitVec 8 → BitVec 128) → BitVec 128) → Prop where
  | binary {inst : Inst} {o : X86.PackedOp} {d q : BitVec 8} {m₀ m₁ : OpSize}
      (hop : packedOf inst.op = some o) (h0 : inst.operand0 = some (.xmmReg d m₀))
      (h1 : inst.operand1 = some (.xmmReg q m₁)) :
      PackedInt inst d fun x => o.eval (x d) (x q)
  | shift {inst : Inst} {sh : X86.PackedShift} {k : Nat} {d imm : BitVec 8} {m₀ m₁ : OpSize}
      (hop : shiftOf inst.op = some (sh, k)) (h0 : inst.operand0 = some (.xmmReg d m₀))
      (h1 : inst.operand1 = some (.imm (imm.setWidth 64) m₁)) :
      PackedInt inst d fun x => sh.eval k imm.toNat (x d)
  | pslldq {inst : Inst} {d imm : BitVec 8} {m₀ m₁ : OpSize} (hop : inst.op = .pslldqImm)
      (h0 : inst.operand0 = some (.xmmReg d m₀)) (h1 : inst.operand1 = some (.imm (imm.setWidth 64) m₁)) :
      PackedInt inst d fun x => X86.shiftBytesLeft imm.toNat (x d)
  | psrldq {inst : Inst} {d imm : BitVec 8} {m₀ m₁ : OpSize} (hop : inst.op = .psrldqImm)
      (h0 : inst.operand0 = some (.xmmReg d m₀)) (h1 : inst.operand1 = some (.imm (imm.setWidth 64) m₁)) :
      PackedInt inst d fun x => X86.shiftBytesRight imm.toNat (x d)
  | pshufd {inst : Inst} {d q imm : BitVec 8} {m₀ m₁ m₂ : OpSize} (hop : inst.op = .pshufD)
      (h0 : inst.operand0 = some (.xmmReg d m₀)) (h1 : inst.operand1 = some (.xmmReg q m₁))
      (h2 : inst.operand2 = some (.imm (imm.setWidth 64) m₂)) :
      PackedInt inst d fun x => X86.shuffleD imm (x q)

theorem PackedInt.emits {legacy32 : Bool} {inst : Inst} (hxmm : inst.XmmOk) {d : BitVec 8}
    {f : (BitVec 8 → BitVec 128) → BitVec 128} (h : PackedInt inst d f) :
    Emits p (lift legacy32 inst) fun _ is => Does (StoresXmm d fun s => f (xmm s)) is := by
  cases h with
  | binary hop h0 h1 => exact emits_packed hop h0 h1 (hxmm.operand0 _ h0) (hxmm.operand1 _ h1)
  | shift hop h0 h1 => exact emits_shiftImm hop h0 h1 (hxmm.operand0 _ h0)
  | pslldq hop h0 h1 =>
    unfold lift
    rw [hop]
    exact emits_shiftDq h0 h1 (hxmm.operand0 _ h0)
  | psrldq hop h0 h1 =>
    unfold lift
    rw [hop]
    exact emits_shiftDq h0 h1 (hxmm.operand0 _ h0)
  | pshufd hop h0 h1 h2 =>
    unfold lift
    rw [hop]
    exact emits_pshufd h0 h1 h2 (hxmm.operand0 _ h0) (hxmm.operand1 _ h1)

/-- From every state, the code of a decoded packed-integer instruction on registers leaves the destination as
the instruction does lane by lane, and every other guest register, XMM register and byte of memory as it was. -/
theorem packed_right {longMode legacy32 : Bool} {rip : BitVec 64} {bs rest : List Byte} {inst : Inst}
    {ws : List Word} (hdec : decodeNext longMode rip bs = .ok (inst, rest))
    (hc : compile p (lift legacy32 inst) = some ws) (env : Env) (s : State) :
    (∀ d f, PackedInt inst d f → ∃ s', Exec env ws s s' ∧ WritesXmm d (f (xmm s)) s s') ∧
    ∀ r q m₀ m₁, inst.op = .pmovmskB → inst.operand0 = some (.reg r m₀) →
      inst.operand1 = some (.xmmReg q m₁) → ∃ s', Exec env ws s s' ∧ WritesGpr r (X86.moveMask (xmm s q)) s s' := by
  have hxmm := decodeNext_xmmOk hdec
  constructor
  · intro d f hf
    obtain ⟨_, hdoes⟩ := (hf.emits hxmm).of_compile hc
    obtain ⟨s', hrun, hstores⟩ := hdoes env 0 s
    exact ⟨s', exec_of_runSeq hrun, hstores.writes⟩
  · intro r q m₀ m₁ hop h0 h1
    have hemits : Emits p (lift legacy32 inst) fun _ is =>
        Does (fun s s' => WritesGpr r (X86.moveMask (xmm s q)) s s') is := by
      unfold lift
      rw [hop]
      exact emits_pmovmskb h0 h1 (hxmm.operand1 _ h1)
    obtain ⟨_, hdoes⟩ := hemits.of_compile hc
    obtain ⟨s', hrun, hwrites⟩ := hdoes env 0 s
    exact ⟨s', exec_of_runSeq hrun, hwrites⟩

/-- `paddd xmm1, xmm2` and `pmovmskb eax, xmm3`. -/
theorem packed_right_paddd_pmovmskb :
    (∃ inst ws s', decodeNext true 0 [0x66, 0x0F, 0xFE, 0xCA] = .ok (inst, []) ∧
      compile ⟨true⟩ (lift false inst) = some ws ∧ Exec default ws default s' ∧
      WritesXmm 1 ((X86.PackedOp.add 32).eval (xmm default 1) (xmm default 2)) default s') ∧
    ∃ inst ws s', decodeNext true 0 [0x66, 0x0F, 0xD7, 0xC3] = .ok (inst, []) ∧
      compile ⟨true⟩ (lift false inst) = some ws ∧ Exec default ws default s' ∧
      WritesGpr .rax (X86.moveMask (xmm default 3)) default s' := by
  constructor
  · obtain ⟨s', hexec, hwrites⟩ := (@packed_right ⟨true⟩ true false 0 [0x66, 0x0F, 0xFE, 0xCA] [] _ _ rfl rfl
      default default).1 1 _ (.binary rfl rfl rfl)
    exact ⟨_, _, s', rfl, rfl, hexec, hwrites⟩
  · obtain ⟨s', hexec, hwrites⟩ := (@packed_right ⟨true⟩ true false 0 [0x66, 0x0F, 0xD7, 0xC3] [] _ _ rfl rfl
      default default).2 .rax 3 _ _ rfl rfl rfl
    exact ⟨_, _, s', rfl, rfl, hexec, hwrites⟩

end Quantum.Jit
