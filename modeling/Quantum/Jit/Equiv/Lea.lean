import Quantum.Jit.Decoder
import Quantum.Jit.Equiv.SizedOperand

/-!
# Load effective address

`LEA` computes the address of its memory operand in the destination register itself, with the code that
serves loads and stores: base, segment base, index and displacement in this order.  So the destination
is overwritten before the index is read, a segment override adds its base, and a small positive
displacement is left to an `ADD` whose immediate may have no encoding.

`lea_correct_iff`: the lifted code has the architecture's effect, in every state, if and only if none of
the three happens (`LeaOk`).
-/

namespace Quantum.Jit

open A64
open EmitM

variable {p : Profile}

/-! ### What the instruction does -/

/-- `base + index * scale + disp` modulo `2 ^ 64`, without a segment base. -/
def leaAddress (inst : Inst) (g : GpReg → BitVec 64) : Operand → BitVec 64
  | .mem m => m.base.elim 0 g + m.index.elim 0 (fun i => g i * BitVec.ofNat 64 m.scale)
      + m.disp.signExtend 64
  | .ripRel disp _ => inst.nextRip + disp.signExtend 64
  | _ => 0

/-- The lifted code of `LEA rd, src` exists, and it sets `rd` and leaves everything else of the guest as it
was. -/
def LeaCorrect (p : Profile) (legacy32 : Bool) (inst : Inst) (rd : GpReg) (size : OpSize)
    (src : Operand) : Prop :=
  ∃ ws, compile p (lift legacy32 inst) = some ws ∧ ∀ env s, ∃ s', Exec env ws s s' ∧
    guest s' = Function.update (guest s) rd (size.zeroExtended (leaAddress inst (guest s) src)) ∧
    segBase s' = segBase s ∧ s'.v = s.v ∧ s'.mem = s.mem ∧ s'.nzcv = s.nzcv

/-- No segment override, no index in the destination unless the base is there too, and no displacement
that is positive, below `2 ^ 24` and without an encoding. -/
def LeaOk (rd : GpReg) : Operand → Prop
  | .mem m => m.seg = none ∧ (m.index = some rd → m.base = some rd) ∧
      (0 < m.disp.toInt ∧ m.disp.toNat < 2 ^ 24 → imm12Encodable m.disp = true)
  | _ => True

/-! ### What the code does -/

/-- Base, segment base and index, when the sum is built up in `rd`. -/
def Mem.partsInto (m : Mem) (rd : GpReg) (s : State) : BitVec 64 :=
  let a := m.base.elim 0 (guest s) + m.seg.elim 0 (segBase s)
  a + m.index.elim 0 (fun i => Function.update (guest s) rd a i * BitVec.ofNat 64 m.scale)

/-- The value that the code leaves in `rd`, before it is masked. -/
def leaValue (inst : Inst) (rd : GpReg) (s : State) : Operand → BitVec 64
  | .mem m => m.partsInto rd s + m.disp.signExtend 64
  | .ripRel disp _ => inst.nextRip + disp.signExtend 64
  | _ => 0

theorem segBase_writeX_hostReg (s : State) (r : GpReg) (v : BitVec 64) :
    segBase (s.writeX (hostReg r) v) = segBase s := by
  funext sg
  have hne : segReg sg ≠ hostReg r := by
    cases sg with
    | fs => exact (hostReg_ne_25 r).symm
    | gs => exact (hostReg_ne_24 r).symm
  rw [segBase, State.x_writeX, if_neg fun hc => hne hc.1, segBase]

theorem segBase_writeX_17 (s : State) (v : BitVec 64) : segBase (s.writeX 17#5 v) = segBase s := by
  funext sg
  simp [segBase]

theorem emits_memAddressInto_guest (rd : GpReg) (m : Mem) {Q : BitVec 32 → List (Option Insn) → Prop}
    (h : ∀ is, Sets (hostReg rd) (m.partsInto rd) is →
      Emits p (memDispInto m.disp (hostReg rd)) fun l js => Q l (is ++ js)) :
    Emits p (memAddressInto m (hostReg rd)) Q := by
  have h31 := hostReg_ne_31 rd
  refine Emits.bind (emits_memBaseInto h31 _ fun is₁ h₁ => Emits.bind
    (emits_memSegInto h31 _ fun is₂ h₂ => Emits.bind (emits_memIndexInto h31 m fun is₃ h₃ => ?_)))
  have hsets : Sets (hostReg rd) (m.partsInto rd) (is₁ ++ (is₂ ++ is₃)) := by
    intro env pc s
    rw [runSeq_append, h₁, Option.bind_some, runSeq_append, h₂, Option.bind_some, h₃]
    simp only [writeX_writeX_self, State.x_writeX, guest_writeX_hostReg, segBase_writeX_hostReg, h31,
      ne_eq, not_false_eq_true, and_self, if_true]
    rfl
  refine (h _ hsets).mono fun l js hq => ?_
  rwa [List.append_assoc, List.append_assoc] at hq

/-- The part of the lift after the address: the displacement that is left, and the mask. -/
def leaFinish (rd : GpReg) (size : OpSize) (leftover : BitVec 32) : LiftM Unit := do
  if leftover ≠ 0 then add64Imm (hostReg rd) (hostReg rd) leftover else pure ()
  maskB4 size (hostReg rd)

theorem liftLea_mem {inst : Inst} {rd : GpReg} {size : OpSize} {m : Mem}
    (h0 : inst.operand0 = some (.reg rd size)) (h1 : inst.operand1 = some (.mem m)) :
    liftLea inst = memAddressInto m (hostReg rd) >>= leaFinish rd size := by
  unfold liftLea
  rw [h0, h1]
  rfl

theorem liftLea_ripRel {inst : Inst} {rd : GpReg} {size size' : OpSize} {disp : BitVec 32}
    (h0 : inst.operand0 = some (.reg rd size)) (h1 : inst.operand1 = some (.ripRel disp size')) :
    liftLea inst = loadConst64 (hostReg rd) (ripRelTarget inst disp) >>= fun _ => leaFinish rd size 0 := by
  unfold liftLea
  rw [h0, h1]
  rfl

theorem emits_leaFinish {rd : GpReg} {size : OpSize} {leftover : BitVec 32}
    {Q : Unit → List (Option Insn) → Prop}
    (h : ∀ is, Sets (hostReg rd) (fun s => maskVal size (guest s rd + leftover.setWidth 64)) is → Q () is) :
    Emits p (leaFinish rd size leftover) Q := by
  have h31 := hostReg_ne_31 rd
  unfold leaFinish
  split
  · refine Emits.bind (emits_add64Imm fun sh i hv => emits_maskB4 h31 fun js hjs => h _ ?_)
    intro env pc s
    have hadd : execOne env pc (.addSubImm false false sh i (hostReg rd) (hostReg rd)) s
        = some (s.writeX (hostReg rd) (guest s rd + leftover.setWidth 64)) := by
      rw [State.writeX_of_ne _ _ _ h31]
      show some (s.writeXsp (hostReg rd) (addc (s.x (hostReg rd)) (immValue sh i) false)) = _
      rw [hv, addc_false]
      rfl
    rw [List.singleton_append, runSeq_cons, hadd, Option.bind_some, hjs]
    simp [h31]
  · rename_i hl
    rw [ne_eq, not_not] at hl
    refine Emits.bind (Emits.pure (emits_maskB4 h31 fun js hjs => h _ ?_))
    intro env pc s
    rw [List.nil_append, hjs, hl]
    simp [guest]

/-- The code of `LEA`: its value in `rd`, and `X17` clobbered. -/
theorem emits_liftLea {inst : Inst} {rd : GpReg} {size : OpSize} {src : Operand}
    (h0 : inst.operand0 = some (.reg rd size)) (h1 : inst.operand1 = some src)
    (hmem : src.isMem = true) :
    Emits p (liftLea inst) fun _ is =>
      SetsVia17 (hostReg rd) (fun s => maskVal size (leaValue inst rd s src)) is := by
  have h31 := hostReg_ne_31 rd
  have h17 := hostReg_ne_17 rd
  cases src with
  | mem m =>
    rw [liftLea_mem h0 h1]
    refine Emits.bind (emits_memAddressInto_guest rd m fun is hs =>
      emits_memDispInto h31 h17 m fun js hd => emits_leaFinish fun ks hk => ?_)
    intro env pc s
    obtain ⟨t, ht⟩ := hd env (pc + is.length) (s.writeX (hostReg rd) (m.partsInto rd s))
    refine ⟨t, ?_⟩
    rw [List.append_assoc, runSeq_append, hs, Option.bind_some, runSeq_append, ht, Option.bind_some, hk]
    simp only [guest, State.x_writeX, writeX_writeX_self, h31, ne_eq, not_false_eq_true, and_self, if_true,
      leaValue, BitVec.sub_add_cancel]
    rw [writeX_comm s _ _ h17, writeX_writeX_self]
  | ripRel disp size' =>
    rw [liftLea_ripRel h0 h1]
    refine Emits.bind (emits_loadConst64 h31 _ fun is hl => emits_leaFinish fun js hj => ?_)
    intro env pc s
    refine ⟨s.x 17#5, ?_⟩
    rw [runSeq_append, hl.run, Option.bind_some, hj, State.writeX_x_self]
    simp [guest, leaValue, ripRelTarget]
  | reg r size' => cases hmem
  | xmmReg n size' => cases hmem
  | imm v size' => cases hmem

/-! ### When there is code -/

theorem imm12Encodable_eq (v : BitVec 32) : imm12Encodable v = (encodeAddsubImm v).isSome := by
  unfold imm12Encodable encodeAddsubImm
  split_ifs with h₁ h₂
  · rw [decide_eq_true h₁]
    rfl
  · rw [decide_eq_false h₁, decide_eq_true h₂.1, decide_eq_true h₂.2]
    rfl
  · simp only [Option.isSome_none, Bool.or_eq_false_iff, Bool.and_eq_false_iff, decide_eq_false_iff_not]
    exact ⟨h₁, Classical.not_and_iff_not_or_not.mp h₂⟩

theorem Mem.leftover_ne_zero {m : Mem} : m.leftover ≠ 0 ↔ 0 < m.disp.toInt ∧ m.disp.toNat < 2 ^ 24 := by
  unfold Mem.leftover
  split_ifs with h
  · refine iff_of_true (fun hzero => ?_) h
    rw [hzero] at h
    exact absurd h.1 (by decide)
  · exact iff_of_false (fun hne => hne rfl) h

/-- Code is emitted exactly when the displacement that is left has an encoding. -/
theorem emits_leaFinish_encodable (rd : GpReg) (size : OpSize) {leftover : BitVec 32} (h : leftover ≠ 0) :
    Emits p (leaFinish rd size leftover) fun _ _ => imm12Encodable leftover = true := by
  unfold leaFinish
  rw [if_pos h, imm12Encodable_eq]
  refine Emits.bind ((emits_addsub64Imm_encodable 0 0 _ _ leftover).mono fun _ _ henc => ?_)
  exact emits_maskB4 (hostReg_ne_31 rd) fun _ _ => henc

theorem yields_maskB4 (size : OpSize) (rd : Reg) : Yields p (maskB4 size rd) fun _ => True := by
  unfold maskB4
  split
  · exact .push _
  · exact .pure trivial

theorem yields_leaFinish (rd : GpReg) (size : OpSize) {leftover : BitVec 32}
    (h : leftover ≠ 0 → imm12Encodable leftover = true) :
    Yields p (leaFinish rd size leftover) fun _ => True := by
  unfold leaFinish
  split
  · rename_i hl
    have henc := h hl
    rw [imm12Encodable_eq] at henc
    exact (yields_addsub64Imm 0 0 _ _ henc).seq fun _ => yields_maskB4 size _
  · exact yields_maskB4 size _

theorem yields_add64ImmSafe (rd rn : Reg) (imm : BitVec 32) :
    Yields p (add64ImmSafe rd rn imm) fun _ => True := by
  unfold add64ImmSafe
  split
  · rename_i henc
    rw [imm12Encodable_eq] at henc
    exact yields_addsub64Imm 0 0 _ _ henc
  · exact (yields_loadConst64 17 _).seq fun _ => .push _

theorem yields_sub64ImmSafe (rd rn : Reg) (imm : BitVec 32) :
    Yields p (sub64ImmSafe rd rn imm) fun _ => True := by
  unfold sub64ImmSafe
  split
  · rename_i henc
    rw [imm12Encodable_eq] at henc
    exact yields_addsub64Imm 1 0 _ _ henc
  · exact (yields_loadConst64 17 _).seq fun _ => .push _

theorem yields_memDispInto (m : Mem) (rd : Reg) :
    Yields p (memDispInto m.disp rd) fun l => l = m.leftover := by
  unfold memDispInto Mem.leftover
  by_cases h0 : m.disp = 0
  · rw [if_pos h0, h0]
    exact .pure rfl
  · rw [if_neg h0]
    split_ifs
    · exact .pure rfl
    · exact (yields_add64ImmSafe rd rd _).seq fun _ => .pure rfl
    · exact (yields_sub64ImmSafe rd rd _).seq fun _ => .pure rfl

theorem yields_memAddressInto (m : Mem) (rd : Reg) :
    Yields p (memAddressInto m rd) fun l => l = m.leftover := by
  have hbase : Yields p (memBaseInto m.base rd) fun _ => True := by
    unfold memBaseInto
    split
    · exact .push _
    · exact yields_loadConst64 rd 0
  have hseg : Yields p (memSegInto m.seg rd) fun _ => True := by
    unfold memSegInto
    split
    · exact .push _
    · exact .pure trivial
  have hindex : Yields p (memIndexInto m.index m.scale rd) fun _ => True := by
    unfold memIndexInto
    split
    · split <;> exact .push _
    · exact .pure trivial
  exact hbase.seq fun _ => hseg.seq fun _ => hindex.seq fun _ => yields_memDispInto m rd

theorem yields_liftLea {inst : Inst} {rd : GpReg} {size : OpSize} {src : Operand}
    (h0 : inst.operand0 = some (.reg rd size)) (h1 : inst.operand1 = some src)
    (hmem : src.isMem = true) (hok : LeaOk rd src) : Yields p (liftLea inst) fun _ => True := by
  cases src with
  | mem m =>
    rw [liftLea_mem h0 h1]
    refine (yields_memAddressInto m _).bind fun l hl => ?_
    subst hl
    refine yields_leaFinish rd size fun hne => ?_
    have hsmall := Mem.leftover_ne_zero.mp hne
    rw [Mem.leftover, if_pos hsmall]
    exact hok.2.2 hsmall
  | ripRel disp size' =>
    rw [liftLea_ripRel h0 h1]
    exact (yields_loadConst64 _ _).seq fun _ => yields_leaFinish rd size fun hne => absurd rfl hne
  | reg r size' => cases hmem
  | xmmReg n size' => cases hmem
  | imm v size' => cases hmem

/-- A displacement that is left and has no encoding stops the translation. -/
theorem emits_liftLea_encodable {inst : Inst} {rd : GpReg} {size : OpSize} {m : Mem}
    (h0 : inst.operand0 = some (.reg rd size)) (h1 : inst.operand1 = some (.mem m))
    (hsmall : 0 < m.disp.toInt ∧ m.disp.toNat < 2 ^ 24) :
    Emits p (liftLea inst) fun _ _ => imm12Encodable m.disp = true := by
  have hne := Mem.leftover_ne_zero.mpr hsmall
  have hl : m.leftover = m.disp := if_pos hsmall
  rw [liftLea_mem h0 h1]
  refine Emits.bind (emits_memAddressInto_guest rd m fun is _ =>
    emits_memDispInto (hostReg_ne_31 rd) (hostReg_ne_17 rd) m fun js _ => ?_)
  rw [hl] at hne ⊢
  exact emits_leaFinish_encodable rd size hne

/-! ### The value -/

theorem maskVal_eq_zeroExtended {size : OpSize} (hsize : size = .b4 ∨ size = .b8) (v : BitVec 64) :
    maskVal size v = size.zeroExtended v := by
  unfold maskVal OpSize.zeroExtended
  rcases hsize with rfl | rfl
  · rw [if_pos rfl]
    apply BitVec.eq_of_toNat_eq
    rw [BitVec.toNat_and, show (0xFFFFFFFF#64).toNat = 2 ^ 32 - 1 from rfl,
      Nat.and_two_pow_sub_one_eq_mod, BitVec.toNat_setWidth, BitVec.toNat_setWidth]
    change v.toNat % 2 ^ 32 = v.toNat % 2 ^ 32 % 2 ^ 64
    omega
  · rw [if_neg (by decide)]
    apply BitVec.eq_of_toNat_eq
    rw [BitVec.toNat_setWidth, BitVec.toNat_setWidth]
    change v.toNat = v.toNat % 2 ^ 64 % 2 ^ 64
    omega

/-- The low 32 bits, whatever the size. -/
theorem setWidth_zeroExtended {size : OpSize} (hsize : size = .b4 ∨ size = .b8) (v : BitVec 64) :
    (size.zeroExtended v).setWidth 32 = v.setWidth 32 := by
  unfold OpSize.zeroExtended
  apply BitVec.eq_of_toNat_eq
  simp only [BitVec.toNat_setWidth]
  rcases hsize with rfl | rfl
  · change v.toNat % 2 ^ 32 % 2 ^ 64 % 2 ^ 32 = v.toNat % 2 ^ 32
    omega
  · change v.toNat % 2 ^ 64 % 2 ^ 64 % 2 ^ 32 = v.toNat % 2 ^ 32
    omega

/-- Without an override and without a clobbered index, the code's value is the address. -/
theorem leaValue_eq {inst : Inst} {rd : GpReg} {src : Operand} (hok : LeaOk rd src) (s : State) :
    leaValue inst rd s src = leaAddress inst (guest s) src := by
  cases src with
  | mem m =>
    obtain ⟨hseg, hindex, -⟩ := hok
    simp only [leaValue, leaAddress, Mem.partsInto, hseg]
    cases hi : m.index with
    | none => simp
    | some i =>
      by_cases hird : i = rd
      · subst hird
        rw [hindex hi]
        simp
      · simp [hird]
  | ripRel disp size' => rfl
  | reg r size' => rfl
  | xmmReg n size' => rfl
  | imm v size' => rfl

/-- A state with 1 in one register and 0 in the others. -/
def probe (r : Reg) : State :=
  ⟨fun q => if q = r then 1 else 0, fun _ => 0, ⟨false, false, false, false⟩, fun _ => 0, 0⟩

theorem guest_probe_segReg (sg : Seg) : guest (probe (segReg sg)) = fun _ => 0 := by
  funext g
  have hne : hostReg g ≠ segReg sg := by
    cases sg with
    | fs => exact hostReg_ne_25 g
    | gs => exact hostReg_ne_24 g
  exact if_neg hne

theorem guest_probe_hostReg (r g : GpReg) : guest (probe (hostReg r)) g = if g = r then 1 else 0 := by
  unfold guest probe
  simp only [hostReg_inj]

/-- When the low 32 bits of the code's value are right in every state, there is no override and the index is
not clobbered. -/
theorem leaOk_of_value {inst : Inst} {rd : GpReg} {m : Mem}
    (h : ∀ s, (leaValue inst rd s (.mem m)).setWidth 32
      = (leaAddress inst (guest s) (.mem m)).setWidth 32) :
    m.seg = none ∧ (m.index = some rd → m.base = some rd) := by
  have hparts : ∀ s, (m.partsInto rd s).setWidth 32 = (m.base.elim 0 (guest s)
      + m.index.elim 0 (fun i => guest s i * BitVec.ofNat 64 m.scale)).setWidth 32 := by
    intro s
    have hs := h s
    unfold leaValue leaAddress at hs
    rw [BitVec.setWidth_add _ _ (by decide), BitVec.setWidth_add _ _ (by decide)] at hs
    exact (BitVec.add_left_inj _).mp hs
  have hseg : m.seg = none := by
    cases hsg : m.seg with
    | none => rfl
    | some sg =>
      have hone : segBase (probe (segReg sg)) sg = 1 := if_pos rfl
      have hs := hparts (probe (segReg sg))
      have hbase : m.base.elim 0 (fun _ => (0 : BitVec 64)) = 0 := by
        cases m.base <;> rfl
      simp only [Mem.partsInto, hsg, guest_probe_segReg, Option.elim_some, hone, hbase] at hs
      cases hi : m.index with
      | none =>
        rw [hi, Option.elim_none, Option.elim_none] at hs
        exact absurd hs (by decide)
      | some i =>
        rw [hi, Option.elim_some, Option.elim_some] at hs
        by_cases hird : i = rd
        · subst hird
          rw [Function.update_self] at hs
          rcases m.scale_valid with hscale | hscale | hscale | hscale
          all_goals
            rw [hscale] at hs
            exact absurd hs (by decide)
        · have hmul : (0 : BitVec 64) * BitVec.ofNat 64 m.scale = 0 := BitVec.zero_mul
          rw [Function.update_of_ne hird, hmul] at hs
          exact absurd hs (by decide)
  refine ⟨hseg, fun hindex => ?_⟩
  by_contra hbase
  have hs := hparts (probe (hostReg rd))
  have hzero : m.base.elim 0 (guest (probe (hostReg rd))) = 0 := by
    cases hb : m.base with
    | none => rfl
    | some b =>
      refine (guest_probe_hostReg rd b).trans (if_neg ?_)
      rintro rfl
      exact hbase hb
  simp only [Mem.partsInto, hseg, hindex, hzero, Option.elim_some, Option.elim_none,
    Function.update_self, guest_probe_hostReg, if_true] at hs
  rcases m.scale_valid with hscale | hscale | hscale | hscale
  all_goals
    rw [hscale] at hs
    exact absurd hs (by decide)

/-! ### Correctness -/

section Correct

variable {legacy32 : Bool} {inst : Inst} {rd : GpReg} {size : OpSize} {src : Operand}
  (hop : inst.op = .lea) (h0 : inst.operand0 = some (.reg rd size)) (h1 : inst.operand1 = some src)
  (hsize : size = .b4 ∨ size = .b8) (hmem : src.isMem = true)

theorem lift_lea (hop : inst.op = .lea) : lift legacy32 inst = liftLea inst := by
  unfold lift
  rw [hop]

include hop h0 h1 hsize hmem

theorem leaOk_of_correct (h : LeaCorrect p legacy32 inst rd size src) : LeaOk rd src := by
  obtain ⟨ws, hws, hrun⟩ := h
  rw [lift_lea hop] at hws
  obtain ⟨-, hsets⟩ := (emits_liftLea h0 h1 hmem).of_compile hws
  -- the code's value is what the run leaves in the destination
  have hvalue : ∀ s, (leaValue inst rd s src).setWidth 32
      = (leaAddress inst (guest s) src).setWidth 32 := by
    intro s
    obtain ⟨t, ht⟩ := hsets default 0 s
    obtain ⟨s', hs', hguest, -⟩ := hrun default s
    rw [hs'.unique (exec_of_runSeq ht), guest_writeX_hostReg, guest_writeX_17] at hguest
    have hrd := congrFun hguest rd
    rw [Function.update_self, Function.update_self] at hrd
    dsimp only at hrd
    rw [maskVal_eq_zeroExtended hsize] at hrd
    rw [← setWidth_zeroExtended hsize, hrd, setWidth_zeroExtended hsize]
  cases src with
  | mem m =>
    obtain ⟨hseg, hindex⟩ := leaOk_of_value hvalue
    refine ⟨hseg, hindex, fun hsmall => ?_⟩
    obtain ⟨-, henc⟩ := (emits_liftLea_encodable h0 h1 hsmall).of_compile hws
    exact henc
  | ripRel disp size' => trivial
  | reg r size' => trivial
  | xmmReg n size' => trivial
  | imm v size' => trivial

theorem leaCorrect_of_ok (hok : LeaOk rd src) : LeaCorrect p legacy32 inst rd size src := by
  obtain ⟨ws, hws⟩ := (yields_liftLea h0 h1 hmem hok).exists_compile (emits_liftLea h0 h1 hmem)
  obtain ⟨-, hsets⟩ := (emits_liftLea h0 h1 hmem).of_compile hws
  refine ⟨ws, (lift_lea hop).symm ▸ hws, fun env s => ?_⟩
  obtain ⟨t, ht⟩ := hsets env 0 s
  dsimp only at ht
  rw [maskVal_eq_zeroExtended hsize, leaValue_eq hok] at ht
  refine ⟨_, exec_of_runSeq ht, ?_, ?_, ?_, ?_, ?_⟩
  · rw [guest_writeX_hostReg, guest_writeX_17]
  · rw [segBase_writeX_hostReg, segBase_writeX_17]
  · rw [State.writeX_v, State.writeX_v]
  · rw [State.writeX_mem, State.writeX_mem]
  · rw [State.writeX_nzcv, State.writeX_nzcv]

end Correct

/-- **LEA**: the lifted code sets the destination to the address, truncated and zero-extended, and leaves the
rest of the guest's state, in every state, if and only if there is no segment override, the destination
holds the index only if it holds the base too, and a positive displacement below `2 ^ 24` is below `2 ^ 12`
or a multiple of it. -/
theorem lea_correct_iff (p : Profile) (legacy32 : Bool) (inst : Inst) (rd : GpReg) (size : OpSize)
    (src : Operand) (hop : inst.op = .lea) (h0 : inst.operand0 = some (.reg rd size))
    (h1 : inst.operand1 = some src) (hsize : size = .b4 ∨ size = .b8) (hmem : src.isMem = true) :
    LeaCorrect p legacy32 inst rd size src ↔ LeaOk rd src :=
  ⟨leaOk_of_correct hop h0 h1 hsize hmem, leaCorrect_of_ok hop h0 h1 hsize hmem⟩

/-- `LEA EAX, [RCX + RDX * 4 - 1]`. -/
theorem lea_correct_iff_scaled :
    ∃ inst src, decodeNext true 0x1000 [0x8D, 0x44, 0x91, 0xFF] = .ok (inst, []) ∧
      inst.operand1 = some src ∧ LeaCorrect ⟨true⟩ false inst .rax .b4 src := by
  refine ⟨_, _, rfl, rfl, ?_⟩
  refine (lea_correct_iff _ _ _ _ _ _ rfl rfl rfl (.inl rfl) rfl).mpr ⟨rfl, ?_, ?_⟩
  · exact fun h => absurd h (by decide)
  · exact fun h => absurd h.1 (by decide)

/-- The bytes decode to a `LEA RAX` that no profile translates to right code. -/
def LeaWrong (bytes : List Byte) : Prop :=
  ∃ inst src, decodeNext true 0x1000 bytes = .ok (inst, []) ∧ inst.op = .lea ∧
    inst.operand1 = some src ∧ ∀ p, ¬ LeaCorrect p false inst .rax .b8 src

/-- `LEA RAX, [RCX + RAX]`, `LEA RAX, GS:[RCX]` and `LEA RAX, [RCX + 0x1234]`. -/
theorem lea_wrong :
    LeaWrong [0x48, 0x8D, 0x04, 0x01] ∧ LeaWrong [0x65, 0x48, 0x8D, 0x01] ∧
      LeaWrong [0x48, 0x8D, 0x81, 0x34, 0x12, 0, 0] := by
  refine ⟨⟨_, _, rfl, rfl, rfl, fun p h => ?_⟩, ⟨_, _, rfl, rfl, rfl, fun p h => ?_⟩,
    ⟨_, _, rfl, rfl, rfl, fun p h => ?_⟩⟩
  · have hok := leaOk_of_correct rfl rfl rfl (.inr rfl) rfl h
    exact absurd (hok.2.1 rfl) (by decide)
  · have hok := leaOk_of_correct rfl rfl rfl (.inr rfl) rfl h
    exact absurd hok.1 (by decide)
  · have hok := leaOk_of_correct rfl rfl rfl (.inr rfl) rfl h
    exact absurd (hok.2.2 ⟨by decide, by decide⟩) (by decide)

end Quantum.Jit
