import Quantum.Jit.Equiv.Alu
import Quantum.Jit.Equiv.ChainSite

/-!
# Blocks that end in a RET

The code of a `RET` loads the return address from `[RSP]`, moves RSP up and leaves the block with the return
address as the next one (`PopsReturn`).  `codeAt_ret` finds it in a translated block, behind the prologue
(`codeAt_prologue`), which loads the guest registers from the context (`exists_prologue_run`).
-/

namespace Quantum.Jit

open A64 StateTransition
open EmitM

variable {p : Profile} {env : Env}

/-! ### The code of a RET -/

/-- The code leaves to the address at `[RSP]`, with `f s` as the guest's stack pointer. -/
def PopsReturn (f : State → BitVec 64) (is : List (Option Insn)) : Prop :=
  ∃ js, is = js ++ [some (.ret 30)] ∧ ∀ env pc s, ∃ s₁,
    runSeq env pc js s = some (exited s₁ (s.mem.read 64 8 (guest s .rsp))) ∧
      guest s₁ .rsp = f s ∧ s₁.x 28#5 = s.x 28#5

theorem emits_emitRet_pops (extra : BitVec 32) :
    Emits p (emitRet extra) fun _ is =>
      PopsReturn (fun s => guest s .rsp + (8 + extra).setWidth 64) is := by
  unfold emitRet
  refine Emits.bind (emits_ldr64 (fits_zero .b8) (Emits.bind (emits_add64Imm fun sh i hv =>
    emits_emitEpilogueX16 ⟨_, by rw [← List.append_assoc, ← List.append_assoc], ?_⟩)))
  intro env pc s
  rw [List.append_assoc, List.singleton_append, runSeq_loadInsn (fits_zero .b8),
    List.singleton_append, runSeq_add64Imm hv, runSeq_exit_x16]
  refine ⟨_, congrArg some (congrArg (exited _) ?_), by simp [guest, hostReg], by simp⟩
  simp [guest, hostReg, OpSize.bytes]

/-- What a RET adds to RSP: the return address, and the bytes that `RET imm16` releases. -/
def popped (term : Inst) : BitVec 64 :=
  if term.op = .ret then 8 else (8 + released32 term.operand0).setWidth 64

theorem popped_of_ret {term : Inst} (h : term.op = .ret) : popped term = 8#64 :=
  if_pos h

def Inst.IsRet (term : Inst) : Prop :=
  term.op = .ret ∨ term.op = .retImm

/-- The words of a RET, which records no placeholders. -/
theorem emitTerminator_ret {term : Inst} (hop : term.IsRet) {e e' : Emitter}
    {patches : List (BitVec 32 × BitVec 64)} (h : emitTerminator term p e = .ok (patches, e')) :
    patches = [] ∧ ∃ ws, e' = e.append ws ∧
      PopsReturn (fun s => guest s .rsp + popped term) (ws.map decode) := by
  rcases hop with hop | hop
  · rw [emitTerminator, hop] at h
    obtain ⟨_, _, hret, h⟩ := bind_eq_ok h
    cases h
    obtain ⟨ws, rfl, hpops⟩ := emits_emitRet_pops 0 _ _ _ hret
    rw [popped, if_pos hop]
    exact ⟨rfl, ws, rfl, hpops⟩
  · rw [emitTerminator, hop] at h
    obtain ⟨extra, e₁, hrel, h⟩ := bind_eq_ok h
    obtain ⟨_, _, hret, h⟩ := bind_eq_ok h
    cases h
    obtain ⟨rfl, size, h0⟩ := branchRel_ok hrel
    obtain ⟨ws, rfl, hpops⟩ := emits_emitRet_pops _ _ _ _ hret
    have hne : term.op ≠ .ret := by
      rw [hop]
      intro h
      cases h
    rw [popped, if_neg hne, h0]
    exact ⟨rfl, ws, rfl, hpops⟩

theorem PopsReturn.isLinear {f : State → BitVec 64} {is : List (Option Insn)} (h : PopsReturn f is) :
    ∃ js, is = js ++ [some (.ret 30)] ∧ ∀ o ∈ js, ∀ i, o = some i → i.isLinear = true := by
  obtain ⟨js, rfl, hrun⟩ := h
  obtain ⟨s₁, hrun, -, -⟩ := hrun default 0 default
  refine ⟨js, rfl, ?_⟩
  rintro o ho i rfl
  exact (isStraight_of_runSeq hrun i ho).1

/-- The code of a RET in the code of a block. -/
theorem PopsReturn.returns {f : State → BitVec 64} {is : List (Option Insn)} (h : PopsReturn f is)
    {code : List Word} {k : Nat} (hc : CodeAt code k is) (s : State) :
    ∃ r, Reaches (step env code) (.at k s) (.returned r) ∧ r.x 0#5 = s.mem.read 64 8 (guest s .rsp) ∧
      r.mem.read 64 8 (ctxSlot (s.x 28#5) .rsp) = f s := by
  obtain ⟨js, rfl, hrun⟩ := h
  obtain ⟨s₁, hrun, hrsp, h28⟩ := hrun env k s
  obtain ⟨hjs, hlast⟩ := hc.append
  refine ⟨exited s₁ (s.mem.read 64 8 (guest s .rsp)), (reaches_of_runSeq hjs hrun).tail ?_, exited_x0 _ _, ?_⟩
  · rw [Option.mem_def, step_of_some hlast.cons.1]
    rfl
  · rw [← h28, exited_slot, hrsp]

/-! ### In a block -/

theorem codeAt_prologue {bytes : List Byte} {rip : BitVec 64} {mode : IsaMode} {blk : Block}
    (h : translateForDispatcher p bytes rip mode = .ok blk) : CodeAt blk.code 0 prologueInsns := by
  obtain ⟨body, term, rest, e₀, e₁, e₂, e₃, patches, hdec, h₀, h₁, h₂, hfin, hcode, -⟩ := block_parts h
  obtain ⟨ws, sites, -, -, -, hprologue, -⟩ := start_of_finish hdec h₀ h₁ h₂ hfin
  rw [hcode]
  exact hprologue

theorem codeAt_ret {bytes : List Byte} {rip : BitVec 64} {mode : IsaMode} {blk : Block}
    (h : translateForDispatcher p bytes rip mode = .ok blk) {body : List Inst} {term : Inst} {rest : List Byte}
    (hdec : decodeLoop (mode = .long) (bytes.length + 1) rip bytes = .ok (body, term, rest))
    (hret : term.IsRet) :
    ∃ is, PopsReturn (fun s => guest s .rsp + popped term) is ∧
      CodeAt blk.code (startWords p bytes rip (mode = .legacy32) body) is := by
  obtain ⟨body', term', rest', e₀, e₁, e₂, e₃, patches, hdec', h₀, h₁, h₂, hfin, hcode, -⟩ := block_parts h
  cases hdec.symm.trans hdec'
  have htidy := (started_of_runs (decodeLoop_xmmOk hdec) (decodeLoop_body hdec) h₀ h₁).tidy
  obtain ⟨-, ws, rfl, hpops⟩ := emitTerminator_ret hret h₂
  -- the pending branches are in the body
  have htidy₂ : (e₁.append ws).Tidy := by
    refine ⟨fun i hi => ?_, htidy.distinct⟩
    exact Nat.lt_of_lt_of_le (htidy.inCode i hi) (Emitter.Grows.append e₁ ws).code.length_le
  obtain ⟨hlen, hstay, -⟩ := htidy₂.finish hfin
  have hcode₂ : (e₁.append ws).code = e₁.code ++ ws := rfl
  refine ⟨_, hpops, ?_⟩
  rw [hcode, startWords_eq h₀ h₁]
  refine codeAt_of_getElem? ?_ fun i hi => ?_
  · rw [hlen, hcode₂, List.length_append]
  · have hnot : e₁.code.length + i ∉ (e₁.append ws).pending := by
      intro hmem
      have hlt := htidy.inCode _ hmem
      omega
    rw [hstay _ hnot, hcode₂, List.getElem?_append_right (Nat.le_add_right _ _), Nat.add_sub_cancel_left]

/-! ### The prologue -/

/-- The reload of the guest registers. -/
theorem exists_reload_run (rs : List GpReg) (pc : Nat) (s : State) :
    ∃ s', runSeq env pc (reloadInsns rs) s = some s' ∧ s'.mem = s.mem ∧ s'.x 28#5 = s.x 28#5 ∧
      s'.x 31#5 = s.x 31#5 ∧
      ∀ r, guest s' r = if r ∈ rs then s.mem.read 64 8 (ctxSlot (s.x 28#5) r) else guest s r := by
  induction rs generalizing pc s with
  | nil => exact ⟨s, rfl, rfl, rfl, rfl, fun _ => rfl⟩
  | cons q rs ih =>
    have hfit : Fits OpSize.b8.bytes (ctxOffset q) := fits_ctxOffset q
    have h28 : ∀ v, (s.writeX (hostReg q) v).x 28#5 = s.x 28#5 := by
      intro v
      rw [State.x_writeX, if_neg fun hc => hostReg_ne_28 q hc.1.symm]
    obtain ⟨s', hrun, hmem, hctx, hsp, hguest⟩ := ih (pc + 1)
      (s.writeX (hostReg q) (s.mem.read 64 8 (ctxSlot (s.x 28#5) q)))
    rw [State.writeX_mem] at hmem
    rw [h28] at hctx
    rw [State.x_writeX, if_neg fun hc => hc.2 hc.1.symm] at hsp
    refine ⟨s', ?_, hmem, hctx, hsp, fun r => ?_⟩
    · rw [reloadInsns, List.map_cons, runSeq_loadInsn hfit]
      exact hrun
    · rw [hguest, h28, State.writeX_mem, guest_writeX_hostReg]
      by_cases hrq : r = q
      · simp [hrq]
      · simp [hrq]

/-- The state with the host frame pushed. -/
def framed (s : State) : State :=
  ((s.pushPair 29#5 30#5).pushPair 19#5 28#5).pushPair 24#5 25#5

theorem framed_x0 (s : State) : (framed s).x 0#5 = s.x 0#5 := by
  simp [framed, State.pushPair_x]

theorem framed_x31 (s : State) : (framed s).x 31#5 = s.x 31#5 - 48#64 := by
  have hsub : s.x 31#5 - 16#64 - 16#64 - 16#64 = s.x 31#5 - 48#64 := by
    rw [BitVec.sub_sub, BitVec.sub_sub, show 16#64 + (16#64 + 16#64) = 48#64 by decide]
  simp [framed, State.pushPair_x, hsub]

theorem runSeq_frameInsns (pc : Nat) (s : State) :
    runSeq env pc frameInsns s = some ((framed s).writeX 28#5 (s.x 0#5)) := by
  have hmov : runSeq env pc frameInsns s = some ((framed s).writeX 28#5 ((framed s).readX 0#5)) := by
    rw [frameInsns, runSeq_cons, execOne_pushInsn, Option.bind_some, runSeq_cons, execOne_pushInsn,
      Option.bind_some, runSeq_cons, execOne_pushInsn, Option.bind_some, runSeq_mov64, runSeq_nil]
    rfl
  rw [hmov, (framed s).readX_of_ne _ (by decide), framed_x0]

/-- After the prologue the guest registers have the values that the context gives them. -/
theorem exists_prologue_run (pc : Nat) (s : State) :
    ∃ s', runSeq env pc prologueInsns s = some s' ∧ s'.mem = (framed s).mem ∧ s'.x 28#5 = s.x 0#5 ∧
      s'.x 31#5 = s.x 31#5 - 48#64 ∧ ∀ r, guest s' r = (framed s).mem.read 64 8 (ctxSlot (s.x 0#5) r) := by
  obtain ⟨s₂, hrun, hmem, hctx, hsp, hguest⟩ :=
    @exists_reload_run env GpReg.all (pc + 4) ((framed s).writeX 28#5 (s.x 0#5))
  rw [State.writeX_mem] at hmem
  rw [State.x_writeX, if_pos ⟨rfl, by decide⟩] at hctx
  rw [State.x_writeX, if_neg (by decide), framed_x31] at hsp
  rw [State.x_writeX, if_pos ⟨rfl, by decide⟩] at hguest
  -- the segment bases
  have hseg : ∃ v w, runSeq env (pc + 4 + 16) [some (loadInsn .b8 24 28 144), some (loadInsn .b8 25 28 152)] s₂
      = some ((s₂.writeX 24#5 v).writeX 25#5 w) := ⟨_, _, rfl⟩
  obtain ⟨v, w, hseg⟩ := hseg
  refine ⟨(s₂.writeX 24#5 v).writeX 25#5 w, ?_, ?_, ?_, ?_, fun r => ?_⟩
  · rw [prologueInsns, runSeq_append, runSeq_frameInsns, Option.bind_some, runSeq_append]
    rw [show pc + frameInsns.length = pc + 4 from rfl, hrun, Option.bind_some]
    exact hseg
  · rw [State.writeX_mem, State.writeX_mem, hmem]
  · rw [State.x_writeX, if_neg (by decide), State.x_writeX, if_neg (by decide), hctx]
  · rw [State.x_writeX, if_neg (by decide), State.x_writeX, if_neg (by decide), hsp]
  · have hall : r ∈ GpReg.all := by
      cases r <;> decide
    have hr := hguest r
    rw [if_pos hall, State.writeX_mem] at hr
    rw [← hr]
    cases r <;> rfl

end Quantum.Jit
