import Quantum.Jit.Equiv.RetExit

/-!
# The context pointer

A block takes the context pointer out of `X0` in its fourth word and keeps it in `X28`, up to the pops of an
exit (`CtxPoint`).  The annotation of a word is determined by the one before it, so the certificate of a block
also tells what holds at the hot entry and at the placeholders.

* `exists_ctxCode`: where the context pointer is in a translated block;
* `CtxCode.reaches`: the same of the states of its runs.
-/

namespace Quantum.Jit

open A64 StateTransition
open EmitM

variable {p : Profile} {env : Env}

/-! ### Instructions that leave a register alone -/

/-- The instruction leaves register `r` alone; a call leaves the callee-saved ones. -/
def keepsX (r : Reg) : Insn → Bool
  | .ldst size v opc _ _ rt => (ldstBytes size v opc).isNone || ldstIsStore v opc || v || rt != r
  | .ldstPair load mode imm7 rt2 rn rt =>
    decide (Insn.ldstPair load mode imm7 rt2 rn rt = pushInsn rt rt2) ||
      (decide (Insn.ldstPair load mode imm7 rt2 rn rt = popInsn rt rt2) && rt != r && rt2 != r)
  | .blr _ => decide (19#5 ≤ r) && decide (r ≤ 29#5)
  | .simdScalar _ | .brk _ => true
  | i => i.isLinear && !i.usesSp && i.writesX != some r

theorem execLdst_keepsX {r : Reg} {size opc : BitVec 2} {v : Bool} {imm12 : BitVec 12} {rn rt : Reg}
    {s s' : State} (hk : keepsX r (.ldst size v opc imm12 rn rt) = true)
    (hex : execLdst size v opc imm12 rn rt s = some s') : s'.x r = s.x r := by
  simp only [keepsX, Bool.or_eq_true, bne_iff_ne, ne_eq] at hk
  unfold execLdst at hex
  cases hn : ldstBytes size v opc with
  | none =>
    rw [hn] at hex
    dsimp only at hex
    split at hex
    · cases hex
      rfl
    · cases hex
  | some n =>
    rw [hn] at hk hex
    dsimp only at hex
    split at hex
    · split at hex <;> cases hex <;> rfl
    · rename_i hload
      split at hex
      · cases hex
        rfl
      · rename_i hv
        cases hex
        have hne : rt ≠ r := by
          rcases hk with ((hnone | hstore) | hv') | hne
          · cases hnone
          · exact absurd hstore hload
          · exact absurd hv' hv
          · exact hne
        rw [State.x_writeX, if_neg fun hc => hne hc.1.symm]

theorem execOne_keepsX {r : Reg} (hr : r ≠ 31#5) (h30 : r ≠ 30#5) (henv : Aapcs64 env 0) {i : Insn} {pc : Nat}
    {s s' : State} (hk : keepsX r i = true) (hex : execOne env pc i s = some s') : s'.x r = s.x r := by
  have hplain : i.isPlain = true → execOne env pc i s = execData env i s →
      keepsX r i = (i.isLinear && !i.usesSp && i.writesX != some r) → s'.x r = s.x r := by
    intro hi hdata hrule
    rw [hdata] at hex
    rw [hrule] at hk
    simp only [Bool.and_eq_true, Bool.not_eq_true', bne_iff_ne, ne_eq] at hk
    exact (execData_frame hi hk.1.2 hex).2 r (.inl hk.2)
  cases i with
  | ldst size v opc imm12 rn rt => exact execLdst_keepsX hk hex
  | ldstPair load mode imm7 rt2 rn rt =>
    simp only [keepsX, Bool.or_eq_true, Bool.and_eq_true, decide_eq_true_eq, bne_iff_ne, ne_eq] at hk
    rcases hk with hpush | ⟨⟨hpop, hrt⟩, hrt2⟩
    · rw [hpush, execOne_pushInsn] at hex
      cases hex
      rw [State.pushPair_x, if_neg hr]
    · rw [hpop, execOne_popInsn] at hex
      cases hex
      rw [State.popPair_x, if_neg hr, if_neg fun hc => hrt2 hc.symm, if_neg fun hc => hrt hc.symm]
  | blr rn =>
    simp only [keepsX, Bool.and_eq_true, decide_eq_true_eq] at hk
    obtain ⟨sr, hsr, rfl⟩ := Option.map_eq_some_iff.mp hex
    obtain ⟨hx, -, -⟩ := henv _ _ _ _ hsr
    rw [show (_ : State).x r = sr.x r from rfl, hx r hk.1 hk.2, State.x_writeX, if_neg fun hc => h30 hc.1]
  | simdScalar w =>
    obtain ⟨v, -, rfl⟩ := Option.map_eq_some_iff.mp hex
    rfl
  | brk | b | bCond | cbz | tbz | br | ret => cases hex
  | _ => exact hplain rfl rfl rfl

/-- A word that keeps the host frame keeps the context pointer. -/
theorem Harmless.keepsX {i : Insn} (h : Harmless (some i)) : Jit.keepsX 28#5 i = true := by
  have hsafe := h.safe (Ann.start false) rfl
  have hlin := h.isLinear i rfl
  cases i with
  | ldst size v opc imm12 rn rt =>
    change ((Ann.start false).access size v opc imm12 rn rt).safe = true at hsafe
    unfold Ann.access at hsafe
    cases hn : ldstBytes size v opc with
    | none => simp [Jit.keepsX, hn]
    | some n =>
      rw [hn] at hsafe
      simp only [Ann.accessBytes, Bool.and_eq_true] at hsafe
      simpa [Jit.keepsX, hn] using hsafe.2
  | ldstPair load mode imm7 rt2 rn rt =>
    rw [transfer_ldstPair] at hsafe
    unfold Jit.keepsX
    split at hsafe
    · rename_i hpush
      simp [hpush]
    · split at hsafe
      · rename_i hpop
        have hstack : ((Ann.start false).pop rt rt2).safe = false := rfl
        rw [hstack] at hsafe
        cases hsafe
      · cases hsafe
  | blr | simdScalar | brk => rfl
  | b | bCond | cbz | tbz | br | ret => cases hlin
  | _ =>
    simp only [transfer, Insn.isLinear, Ann.plain, if_true, Bool.and_eq_true] at hsafe
    simp only [Jit.keepsX, Insn.isLinear, Bool.true_and, Bool.and_eq_true]
    exact ⟨hsafe.1.2, hsafe.2⟩

/-! ### The domain -/

/-- Where the context pointer is. -/
inductive CtxPoint where
  | inX0 | inX28 | gone
  deriving DecidableEq

namespace CtxPoint

/-- Behind an instruction. -/
def after : CtxPoint → Option Insn → CtxPoint
  | a, none => a
  | .inX0, some i =>
    if i = .logicShift .orr 0 0 31 28 then .inX28 else if keepsX 0#5 i then .inX0 else .gone
  | .inX28, some i => if keepsX 28#5 i then .inX28 else .gone
  | .gone, some _ => .gone

theorem after_inX0 (i : Insn) : after .inX0 (some i)
    = if i = .logicShift .orr 0 0 31 28 then .inX28 else if keepsX 0#5 i then .inX0 else .gone := rfl

theorem after_inX28 (i : Insn) : after .inX28 (some i) = if keepsX 28#5 i then .inX28 else .gone := rfl

theorem after_inX28_of_keeps {i : Insn} (h : keepsX 28#5 i = true) : after .inX28 (some i) = .inX28 := by
  rw [after_inX28, if_pos h]

def Holds (ctx : BitVec 64) : CtxPoint → State → Prop
  | .inX0, s => s.x 0#5 = ctx
  | .inX28, s => s.x 28#5 = ctx
  | .gone, _ => True

theorem Holds.after {ctx : BitVec 64} (henv : Aapcs64 env 0) {a : CtxPoint} {i : Insn} {pc : Nat} {s s' : State}
    (h : a.Holds ctx s) (hex : execOne env pc i s = some s') : (a.after (some i)).Holds ctx s' := by
  cases a with
  | inX0 =>
    rw [after_inX0]
    split_ifs with hmov hkeep
    · rw [hmov, execOne_mov64] at hex
      cases hex
      show (State.writeX s 28#5 (s.readX 0#5)).x 28#5 = ctx
      rw [State.x_writeX, if_pos ⟨rfl, by decide⟩, s.readX_of_ne _ (by decide)]
      exact h
    · exact (execOne_keepsX (by decide) (by decide) henv hkeep hex).trans h
    · trivial
  | inX28 =>
    rw [after_inX28]
    split_ifs with hkeep
    · exact (execOne_keepsX (by decide) (by decide) henv hkeep hex).trans h
    · trivial
  | gone => trivial

end CtxPoint

/-- Every annotation determines the next one. -/
def ctxDomain : Domain CtxPoint where
  le a b := a = b
  next a o b := a.after o = b
  ret _ := True
  le_refl _ := rfl
  le_trans := Eq.trans
  next_le := Eq.trans

theorem ctxDomain_sound (henv : Aapcs64 env 0) (ctx : BitVec 64) :
    ctxDomain.Sound env (fun _ _ => True) (CtxPoint.Holds ctx) where
  le h hs := h ▸ hs
  next hnext hs _ hex := hnext ▸ hs.after henv hex

theorem keepsX_pushInsn (r rt rt2 : Reg) : keepsX r (pushInsn rt rt2) = true := by
  unfold pushInsn keepsX
  simp [pushInsn]

theorem keepsX_popInsn {r rt rt2 : Reg} (hrt : rt ≠ r) (hrt2 : rt2 ≠ r) :
    keepsX r (popInsn rt rt2) = true := by
  unfold popInsn keepsX
  simp [popInsn, hrt, hrt2]

instance lenient_ctx : Lenient ctxDomain fun _ => CtxPoint.inX28 where
  harmless := by
    intro d o ho
    cases o with
    | none => rfl
    | some i => exact CtxPoint.after_inX28_of_keeps ho.keepsX
  push := by
    intro d rt rt2 _
    exact CtxPoint.after_inX28_of_keeps (keepsX_pushInsn _ _ _)
  pop := by
    intro d rt rt2 hrt hrt2
    exact CtxPoint.after_inX28_of_keeps (keepsX_popInsn hrt hrt2)

/-! ### Certificates -/

/-- Straight code behind certified code; the annotations before it stay. -/
theorem Cert.appendRun {e : Emitter} {lab pts : List CtxPoint} {a : CtxPoint} (ws : List Word)
    (h : Cert ctxDomain e lab pts a) (hlin : ∀ o ∈ ws.map decode, ∀ i, o = some i → i.isLinear = true) :
    ∃ pts', Cert ctxDomain (e.append ws) lab pts' ((ws.map decode).foldl CtxPoint.after a) ∧
      ∀ i ≤ e.code.length, ptAt pts' ((ws.map decode).foldl CtxPoint.after a) i = ptAt pts a i := by
  induction ws generalizing e pts a with
  | nil => exact ⟨pts, by simpa using h, fun _ _ => rfl⟩
  | cons w ws ih =>
    rw [List.map_cons, List.forall_mem_cons] at hlin
    have hnext : Cert ctxDomain (e.append [w]) lab (pts ++ [a]) (a.after (decode w)) :=
      h.appendNext hlin.1 rfl
    obtain ⟨pts', h', hold⟩ := ih hnext hlin.2
    rw [Emitter.append_append, List.singleton_append] at h'
    refine ⟨pts', h', fun i hi => ?_⟩
    have hle : i ≤ (e.append [w]).code.length := Nat.le_trans hi (Emitter.Grows.append e [w]).code.length_le
    rw [List.map_cons, List.foldl_cons, hold i hle, ptAt_concat_of_le (by rw [h.points]; exact hi)]

/-- Straight code that returns; nothing follows it, so any annotation may stand behind it. -/
theorem Cert.appendReturn {e : Emitter} {lab pts : List CtxPoint} {a : CtxPoint} {ws : List Word}
    {js : List (Option Insn)} (h : Cert ctxDomain e lab pts a) (hws : ws.map decode = js ++ [some (.ret 30)])
    (hlin : ∀ o ∈ js, ∀ i, o = some i → i.isLinear = true) (b : CtxPoint) :
    ∃ pts', Cert ctxDomain (e.append ws) lab pts' b ∧
      ∀ i ≤ e.code.length, ptAt pts' b i = ptAt pts a i := by
  obtain ⟨us, vs, rfl, hus, hvs⟩ := List.map_eq_append_iff.mp hws
  obtain ⟨last, rfl, hlast⟩ := List.map_eq_singleton_iff.mp hvs
  obtain ⟨pts', h', hold⟩ := h.appendRun us (by rw [hus]; exact hlin)
  rw [hus] at h' hold
  have hret : Cert ctxDomain ((e.append us).append [last]) lab (pts' ++ [js.foldl CtxPoint.after a]) b := by
    refine h'.append ?_
    rw [hlast]
    exact ⟨rfl, trivial⟩
  rw [Emitter.append_append] at hret
  refine ⟨_, hret, fun i hi => ?_⟩
  have hle : i ≤ pts'.length := by
    rw [h'.points]
    exact Nat.le_trans hi (Emitter.Grows.append e us).code.length_le
  rw [ptAt_concat_of_le hle, hold i hi]

theorem ExitWords.isLinear_back {target : BitVec 64} {spill back : List Word} {last : Word}
    (h : ExitWords target spill back last) : ∀ o ∈ back.map decode, ∀ i, o = some i → i.isLinear = true := by
  rintro o ho i rfl
  exact (h.isStraight i ho).1

/-- The spill keeps the context pointer. -/
theorem foldl_spillInsns : (spillInsns GpReg.all).foldl CtxPoint.after .inX28 = .inX28 := by
  decide

/-- An exit with a placeholder: the context pointer is still there at the placeholder. -/
theorem Cert.appendExit {e : Emitter} {lab pts : List CtxPoint} {target : BitVec 64} {spill back : List Word}
    {last : Word} (h : Cert ctxDomain e lab pts .inX28) (hw : ExitWords target spill back last) (b : CtxPoint) :
    ∃ pts', Cert ctxDomain (e.append (Jit.exitCode spill back last)) lab pts' b ∧
      (∀ i ≤ e.code.length, ptAt pts' b i = ptAt pts .inX28 i) ∧
      ptAt pts' b (e.code.length + 16) = .inX28 := by
  have hlin : ∀ o ∈ spill.map decode, ∀ i, o = some i → i.isLinear = true := by
    rintro o ho i rfl
    rw [hw.spills] at ho
    exact (isStraight_spill i ho).1
  obtain ⟨pts₁, h₁, hold₁⟩ := h.appendRun spill hlin
  rw [hw.spills, foldl_spillInsns] at h₁ hold₁
  have hlen : (e.append spill).code.length = e.code.length + 16 := by
    rw [Emitter.append, List.length_append, hw.spill_length]
  -- the placeholder is a branch to the next word
  have hplace : decode 0x14000001#32 = some (.b false 1) := by
    decide
  have h₂ : Cert ctxDomain ((e.append spill).append [0x14000001#32]) lab (pts₁ ++ [.inX28]) .inX28 := by
    refine h₁.append ?_
    rw [hplace]
    obtain ⟨hself, hbehind⟩ := h₁.ptAt_next .inX28
    exact ⟨(e.append spill).code.length + 1, rfl, le_rfl, by rw [hself, hbehind]; rfl⟩
  have hback : (back ++ [last]).map decode = back.map decode ++ [some (.ret 30)] := by
    rw [List.map_append, List.map_singleton, hw.returns]
  obtain ⟨pts₃, h₃, hold₃⟩ := h₂.appendReturn hback hw.isLinear_back b
  have hsite : ∀ i ≤ (e.append spill).code.length, ptAt pts₃ b i = ptAt pts₁ .inX28 i := by
    intro i hi
    have hle := Nat.le_trans hi (Emitter.Grows.append (e.append spill) [0x14000001#32]).code.length_le
    rw [hold₃ i hle, ptAt_concat_of_le (by rw [h₁.points]; exact hi)]
  refine ⟨pts₃, ?_, fun i hi => ?_, ?_⟩
  · simpa only [Emitter.append_append, Jit.exitCode, List.append_assoc, List.singleton_append] using h₃
  · rw [hsite i (by omega), hold₁ i hi]
  · rw [hsite _ (by omega), ← hlen, ← h₁.points, ptAt_length]

/-- What the terminator leaves of the annotations, and the annotation at its placeholders. -/
def KeepsPoints (e e' : Emitter) (pts : List CtxPoint) (patches : List (BitVec 32 × BitVec 64)) : Prop :=
  ∃ lab' pts' b, Cert ctxDomain e' lab' pts' b ∧
    (∀ i ≤ e.code.length, ptAt pts' b i = ptAt pts .inX28 i) ∧
    ∀ q ∈ patches, ∃ k, q.1 = BitVec.ofNat 32 (4 * k) ∧ k ≤ e.code.length + 100 ∧ ptAt pts' b k = .inX28

theorem Cert.keepsPoints_jcc {e : Emitter} {lab pts : List CtxPoint} (h : Cert ctxDomain e lab pts .inX28)
    (c : A64.Cond) {next target : BitVec 64} {spill back spill' back' : List Word} {last last' : Word}
    (hw : ExitWords next spill back last) (hw' : ExitWords target spill' back' last') :
    KeepsPoints e (jccCode e c (Jit.exitCode spill back last) (Jit.exitCode spill' back' last')) pts
      [(BitVec.ofNat 32 (4 * (e.code.length + 1 + 16)), next),
        (BitVec.ofNat 32 (4 * (e.code.length + 1 + (Jit.exitCode spill back last).length + 16)), target)] := by
  have hlab : (lab ++ [CtxPoint.inX28])[e.labels.length]? = some .inX28 := by
    rw [← h.labels, List.getElem?_concat_length]
  have hbranch : Cert ctxDomain (jccBranch e c) (lab ++ [.inX28]) (pts ++ [.inX28]) .inX28 := by
    have hfix : FixOk ctxDomain (ptAt (pts ++ [.inX28]) .inX28) e.code.length
        (0x54000000#32 ||| bitField 0 c.code) .branch19 := by
      obtain ⟨hself, hbehind⟩ := h.ptAt_next .inX28
      exact .inr ⟨.inl ⟨c, rfl⟩, rfl, by rw [hself, hbehind]; rfl⟩
    have hlabel := h.addLabel .inX28
    exact @Cert.appendFixup _ _ _ _ _ _ hlabel _ _ ⟨e.labels.length⟩ _ _ hlab rfl hfix
  obtain ⟨pts₁, h₁, hold₁, hsite₁⟩ := hbranch.appendExit hw .inX28
  have hbind : Cert ctxDomain (bindHere ((jccBranch e c).append (Jit.exitCode spill back last)) e.labels.length)
      (lab ++ [.inX28]) pts₁ .inX28 := h₁.bindLabel hlab rfl
  obtain ⟨pts₂, h₂, hold₂, hsite₂⟩ := hbind.appendExit hw' .inX28
  have hlen : (bindHere ((jccBranch e c).append (Jit.exitCode spill back last)) e.labels.length).code.length
      = e.code.length + 1 + (Jit.exitCode spill back last).length := by
    rw [bindHere, Emitter.append, List.length_append, length_jccBranch]
  have hexit : 17 ≤ (Jit.exitCode spill back last).length := by
    rw [Jit.exitCode, List.length_append, hw.spill_length, List.length_cons]
    omega
  have hshort := hw.length_exitCode
  rw [hlen] at hold₂ hsite₂
  rw [length_jccBranch] at hold₁ hsite₁
  refine ⟨_, pts₂, .inX28, h₂, fun i hi => ?_, ?_⟩
  · rw [hold₂ i (by omega), hold₁ i (by omega), ptAt_concat_of_le (by rw [h.points]; exact hi)]
  · rw [List.forall_mem_cons, List.forall_mem_singleton]
    refine ⟨⟨_, rfl, by omega, ?_⟩, _, rfl, by omega, hsite₂⟩
    rw [hold₂ _ (by omega), hsite₁]

/-- Does the terminator leave through placeholders, or by a RET? -/
def Op.chainsOrReturns : Op → Bool
  | .jmp | .jcc _ | .ret | .retImm => true
  | _ => false

theorem chainsOrReturns_of_isRet {term : Inst} (h : term.IsRet) : term.op.chainsOrReturns = true := by
  rcases h with h | h <;> rw [h] <;> rfl

theorem Cert.keepsPoints {term : Inst} (hop : term.op.chainsOrReturns = true) {e e' : Emitter}
    {lab pts : List CtxPoint} (h : Cert ctxDomain e lab pts .inX28) {patches : List (BitVec 32 × BitVec 64)}
    (hemit : emitTerminator term p e = .ok (patches, e')) : KeepsPoints e e' pts patches := by
  have hret : term.IsRet → KeepsPoints e e' pts patches := by
    intro hret
    obtain ⟨rfl, ws, rfl, hpops⟩ := emitTerminator_ret hret hemit
    obtain ⟨js, hws, hlin⟩ := hpops.isLinear
    obtain ⟨pts', h', hold⟩ := h.appendReturn hws hlin .gone
    exact ⟨lab, pts', .gone, h', hold, by simp⟩
  cases hterm : term.op with
  | ret => exact hret (.inl hterm)
  | retImm => exact hret (.inr hterm)
  | jmp =>
    obtain ⟨rel, size, spill, back, last, -, hw, rfl, rfl⟩ := emitTerminator_jmp hterm hemit
    obtain ⟨pts', h', hold, hsite⟩ := h.appendExit hw .gone
    refine ⟨lab, pts', .gone, h', hold, ?_⟩
    rw [List.forall_mem_singleton]
    exact ⟨_, rfl, by omega, hsite⟩
  | jcc cond =>
    obtain ⟨rel, size, c, spill, back, last, spill', back', last', -, -, hw, hw', rfl, rfl, -⟩ :=
      emitTerminator_jcc hterm hemit
    exact h.keepsPoints_jcc c hw hw'
  | _ =>
    rw [hterm] at hop
    cases hop

/-! ### Blocks -/

theorem next_of_isLinear {pt : Nat → CtxPoint} {n k : Nat} {o : Option Insn}
    (h : ctxDomain.PointOk pt n k o) (hlin : ∀ i, o = some i → i.isLinear = true) :
    pt (k + 1) = (pt k).after o := by
  cases o with
  | none => exact h.symm
  | some i =>
    have hi := hlin i rfl
    cases i <;> first | exact h.symm | cases hi

/-- Straight code determines the annotation behind it. -/
theorem foldl_of_codeAt {code : List Word} {pt : Nat → CtxPoint} (h : ctxDomain.Certified code pt)
    {is : List (Option Insn)} {k : Nat} (hc : CodeAt code k is)
    (hlin : ∀ o ∈ is, ∀ i, o = some i → i.isLinear = true) :
    pt (k + is.length) = is.foldl CtxPoint.after (pt k) := by
  induction is generalizing k with
  | nil => rfl
  | cons o is ih =>
    rw [List.forall_mem_cons] at hlin
    obtain ⟨hword, hrest⟩ := hc.cons
    obtain ⟨w, hw, rfl⟩ := Option.map_eq_some_iff.mp hword
    have hnext := next_of_isLinear (h k w hw) hlin.1
    rw [List.foldl_cons, ← hnext, ← ih hrest hlin.2, List.length_cons]
    congr 1
    omega

/-- Where the context pointer is in a block that is left through a placeholder or by a RET. -/
structure CtxCode (blk : Block) (pt : Nat → CtxPoint) : Prop where
  certified : ctxDomain.Certified blk.code pt
  start : pt 0 = .inX0
  hot : pt (DISPATCHER_HOT_ENTRY_OFFSET / 4) = .inX28
  sites : ∀ q ∈ blk.chainPatches, ChainSite blk.code q → pt (q.1.toNat / 4) = .inX28

theorem exists_ctxCode {bytes : List Byte} {rip : BitVec 64} {mode : IsaMode} {blk : Block}
    (h : translateForDispatcher p bytes rip mode = .ok blk) {body : List Inst} {term : Inst} {rest : List Byte}
    (hdec : decodeLoop (mode = .long) (bytes.length + 1) rip bytes = .ok (body, term, rest))
    (hop : term.op.chainsOrReturns = true) :
    ∃ pt, CtxCode blk pt ∧ pt (startWords p bytes rip (mode = .legacy32) body) = .inX28 := by
  obtain ⟨body', term', rest', e₀, e₁, e₂, e₃, patches, hdec', h₀, h₁, h₂, hfin, hcode, hpatches⟩ :=
    block_parts h
  cases hdec.symm.trans hdec'
  have hx := decodeLoop_xmmOk hdec
  have hnt := decodeLoop_body hdec
  obtain ⟨ws, sites, rfl, hws, hsites, hprologue, hns⟩ := start_of_finish hdec h₀ h₁ h₂ hfin
  -- the certificates of the prologue, the body and the terminator
  obtain ⟨pts₀, hc₀, hold₀⟩ := (Cert.new CtxPoint.inX0).appendRun ws (by rw [hws]; exact isLinear_prologueInsns)
  have hend : prologueInsns.foldl CtxPoint.after .inX0 = .inX28 := by
    decide
  rw [hws, hend] at hc₀ hold₀
  have hknown : Known ([] : List CtxPoint) [] := by
    simp [Known]
  obtain ⟨lab₁, pts₁, b₁, -, hc₁, -, -, hent₁, -, -, rfl⟩ :=
    @certifies_emitBody p _ ctxDomain (fun _ => .inX28) _ _ _ _ _ _ hx hnt _ _ _ _ _ hc₀ hknown h₁
  obtain ⟨lab₂, pts₂, b₂, hc₂, hold₂, hsites₂⟩ := hc₁.keepsPoints hop h₂
  obtain ⟨-, hcert⟩ := hc₂.finish hfin
  have hstart : ptAt pts₂ b₂ 0 = .inX0 := by
    rw [hold₂ 0 (Nat.zero_le _), ← hent₁, hold₀ 0 (Nat.zero_le _)]
    rfl
  refine ⟨ptAt pts₂ b₂, ⟨?_, hstart, ?_, fun q hq hsite => ?_⟩, ?_⟩
  · rw [hcode]
    exact hcert
  · rw [prologueInsns] at hprologue
    have hlin : ∀ o ∈ frameInsns, ∀ i, o = some i → i.isLinear = true :=
      fun o ho => isLinear_prologueInsns o (List.mem_append_left _ ho)
    have hhot := foldl_of_codeAt hcert hprologue.append.1 hlin
    rw [hstart] at hhot
    exact hhot
  · rw [hpatches] at hq
    rw [hcode] at hsite
    obtain ⟨k, hoff, hk, hpt⟩ := hsites₂ q hq
    have hlt : 4 * k < 2 ^ 32 := by
      by_contra hge
      obtain ⟨off, target⟩ := q
      obtain rfl : off = BitVec.ofNat 32 (4 * k) := hoff
      exact not_chainSite_of_wrapped hns hk (Nat.not_lt.mp hge) hsite
    have hdiv : q.1.toNat / 4 = k := by
      rw [hoff, BitVec.toNat_ofNat, Nat.mod_eq_of_lt hlt]
      omega
    rw [hdiv, hpt]
  · rw [startWords_eq h₀ h₁, hold₂ _ le_rfl, ← hc₁.points, ptAt_length]

/-- A run inside the block, from any of its words. -/
theorem CtxCode.reaches {blk : Block} {pt : Nat → CtxPoint} (h : CtxCode blk pt) (henv : Aapcs64 env 0)
    {ctx : BitVec 64} {k k' : Nat} {s s' : State} (hs : (pt k).Holds ctx s)
    (hrun : Reaches (step env blk.code) (.at k s) (.at k' s')) : (pt k').Holds ctx s' :=
  h.certified.reaches_at (ctxDomain_sound henv ctx) (fun _ _ => trivial) hs hrun

end Quantum.Jit
