import Quantum.Jit.Equiv.DecodeTotal
import Quantum.Jit.Equiv.VerdictSse
import Quantum.Jit.Equiv.ChainExit

/-!
# When a translation panics

The dispatcher's translation of a block panics exactly when an instruction of the body, all before it being
lifted, or the exit, the whole body being lifted, comes to a hazard that strikes
(`endsInPanic_translateForDispatcher`).
-/

namespace Quantum.Jit

open A64 (Word Reg)
open EmitM

variable {ε α β : Type} {p : Profile}

/-! ### Runs that panic -/

/-- The run ends in a panic. -/
def EndsInPanic (r : Except (Fault ε) α) : Prop :=
  ∃ msg, r = .error (.panic msg)

theorem not_endsInPanic_ok (a : α) : ¬ EndsInPanic (.ok a : Except (Fault ε) α) := by
  rintro ⟨msg, h⟩
  cases h

theorem not_endsInPanic_err (x : ε) : ¬ EndsInPanic (.error (.err x) : Except (Fault ε) α) := by
  rintro ⟨msg, h⟩
  cases h

/-- A run of a uniform computation panics when its verdict is a panic. -/
theorem endsInPanic_iff_verdict {m : EmitM ε α} [Uniform m] (e : Emitter) :
    EndsInPanic (m p e) ↔ verdict p m = .error .panic := by
  cases hv : verdict p m with
  | ok a =>
    obtain ⟨e', -, hm, -⟩ := ok_of_verdict hv e
    rw [hm]
    exact iff_of_false (not_endsInPanic_ok _) (by simp)
  | error stop =>
    obtain ⟨x, hm, rfl⟩ := error_of_verdict hv e
    rw [hm]
    cases x with
    | err x => exact iff_of_false (not_endsInPanic_err x) (by simp [Fault.stop])
    | panic msg => exact iff_of_true ⟨msg, rfl⟩ rfl

theorem endsInPanic_bind_ok {m : EmitM ε α} {f : α → EmitM ε β} {e e' : Emitter} {a : α}
    (h : m p e = .ok (a, e')) : EndsInPanic ((m >>= f) p e) ↔ EndsInPanic (f a p e') := by
  rw [bind_of_ok h]

/-- Code whose first part does not end in a value. -/
theorem endsInPanic_bind_error {m : EmitM ε α} {f : α → EmitM ε β} {e : Emitter} {x : Fault ε}
    (h : m p e = .error x) : EndsInPanic ((m >>= f) p e) ↔ EndsInPanic (m p e) := by
  rw [bind_of_error h, h]
  exact ⟨fun ⟨msg, hx⟩ => ⟨msg, congrArg _ (Except.error.inj hx)⟩,
    fun ⟨msg, hx⟩ => ⟨msg, congrArg _ (Except.error.inj hx)⟩⟩

/-! ### Instructions -/

/-- The bytes that `RET imm16` pops are the immediate of an `ADD`. -/
def popHazard : Operand → Option Hazard
  | .imm extra _ => some (.addImm (8 + extra.setWidth 32))
  | _ => none

namespace Inst

/-- The lift of the instruction ends in code. -/
def Lifts (p : Profile) (legacy32 : Bool) (inst : Inst) : Prop :=
  verdict p (lift legacy32 inst) = .ok ()

/-- The hazard of the instruction strikes. -/
def Struck (p : Profile) (legacy32 : Bool) (inst : Inst) : Prop :=
  ∃ h, inst.hazard legacy32 = some h ∧ h.Strikes p

/-- What the exit of a block may panic at. -/
def exitHazard (term : Inst) : Option Hazard :=
  match term.op with
  | .retImm => term.operand0.bind popHazard
  | .jmpIndirect => term.operand0.bind (Operand.hazard 8)
  | _ => none

end Inst

/-! ### The body of a block -/

section Body

variable (bytes : List Byte) (rip : BitVec 64) {legacy32 : Bool}

theorem run_emitBodyInst {inst : Inst} [hx : inst.XmmOk] (h : inst.Lifts p legacy32) (e : Emitter) :
    ∃ e', emitBodyInst bytes rip legacy32 inst p e = .ok ((), e') := by
  have := (panicsAt_lift inst legacy32).toUniform
  have hv : verdict p (emitBodyInst bytes rip legacy32 inst) = .ok () := (verdict_mapErr _ _).trans h
  have hu : Uniform (emitBodyInst bytes rip legacy32 inst) := .mapErr _ _
  obtain ⟨e', -, hrun, -⟩ := ok_of_verdict hv e
  exact ⟨e', hrun⟩

theorem endsInPanic_emitBodyInst {inst : Inst} [hx : inst.XmmOk] (e : Emitter) :
    EndsInPanic (emitBodyInst bytes rip legacy32 inst p e) ↔ inst.Struck p legacy32 := by
  have hpanics := panicsAt_lift inst legacy32
  have := hpanics.toUniform
  have hu : Uniform (emitBodyInst bytes rip legacy32 inst) := .mapErr _ _
  rw [endsInPanic_iff_verdict]
  exact (Eq.congr_left (verdict_mapErr _ _)).trans (hpanics.panics_iff p)

/-- An instruction that is not lifted ends the run. -/
theorem run_emitBodyInst_error {inst : Inst} [hx : inst.XmmOk] (h : ¬ inst.Lifts p legacy32) (e : Emitter) :
    ∃ x, emitBodyInst bytes rip legacy32 inst p e = .error x := by
  have := (panicsAt_lift inst legacy32).toUniform
  have hu : Uniform (emitBodyInst bytes rip legacy32 inst) := .mapErr _ _
  match hv : verdict p (emitBodyInst bytes rip legacy32 inst) with
  | .ok () => exact absurd ((verdict_mapErr _ _).symm.trans hv) h
  | .error s =>
    obtain ⟨x, hrun, -⟩ := error_of_verdict hv e
    exact ⟨x, hrun⟩

/-- The first instruction that is not lifted is struck. -/
def StruckIn (p : Profile) (legacy32 : Bool) : List Inst → Prop
  | [] => False
  | inst :: insts => inst.Struck p legacy32 ∨ inst.Lifts p legacy32 ∧ StruckIn p legacy32 insts

/-- A struck instruction is not lifted. -/
theorem Inst.Struck.not_lifts {inst : Inst} [hx : inst.XmmOk] (h : inst.Struck p legacy32) :
    ¬ inst.Lifts p legacy32 := by
  intro hl
  have hv := ((panicsAt_lift inst legacy32).panics_iff p).mpr h
  rw [show verdict p (lift legacy32 inst) = .ok () from hl] at hv
  cases hv

theorem run_emitBody {body : List Inst} (hx : ∀ inst ∈ body, inst.XmmOk)
    (h : ∀ inst ∈ body, inst.Lifts p legacy32) (e : Emitter) :
    ∃ e', emitBody bytes rip legacy32 body p e = .ok ((), e') := by
  induction body generalizing e with
  | nil => exact ⟨e, rfl⟩
  | cons inst body ih =>
    have := hx inst List.mem_cons_self
    obtain ⟨e₁, h₁⟩ := run_emitBodyInst bytes rip (h inst List.mem_cons_self) e
    obtain ⟨e₂, h₂⟩ := ih (fun i hi => hx i (List.mem_cons_of_mem _ hi))
      (fun i hi => h i (List.mem_cons_of_mem _ hi)) e₁
    exact ⟨e₂, (bind_of_ok h₁).trans h₂⟩

theorem endsInPanic_emitBody {body : List Inst} (hx : ∀ inst ∈ body, inst.XmmOk) (e : Emitter) :
    EndsInPanic (emitBody bytes rip legacy32 body p e) ↔ StruckIn p legacy32 body := by
  induction body generalizing e with
  | nil => exact iff_of_false (not_endsInPanic_ok _) id
  | cons inst body ih =>
    have := hx inst List.mem_cons_self
    unfold emitBody StruckIn
    by_cases hl : inst.Lifts p legacy32
    · have hstruck : ¬ inst.Struck p legacy32 := fun hs => hs.not_lifts hl
      obtain ⟨e₁, h₁⟩ := run_emitBodyInst bytes rip hl e
      rw [endsInPanic_bind_ok h₁, ih (fun i hi => hx i (List.mem_cons_of_mem _ hi)) e₁]
      exact ⟨fun h => .inr ⟨hl, h⟩, fun h => (h.resolve_left hstruck).2⟩
    · obtain ⟨x, hrun⟩ := run_emitBodyInst_error bytes rip hl e
      rw [endsInPanic_bind_error hrun, endsInPanic_emitBodyInst]
      exact ⟨.inl, fun h => h.resolve_right fun hr => hl hr.1⟩

/-- A body that is not all lifted ends in an error or in a panic. -/
theorem run_emitBody_error {body : List Inst} (hx : ∀ inst ∈ body, inst.XmmOk)
    (h : ¬ ∀ inst ∈ body, inst.Lifts p legacy32) (e : Emitter) :
    ∃ x, emitBody bytes rip legacy32 body p e = .error x := by
  induction body generalizing e with
  | nil => exact absurd (by simp) h
  | cons inst body ih =>
    have := hx inst List.mem_cons_self
    by_cases hl : inst.Lifts p legacy32
    · obtain ⟨e₁, h₁⟩ := run_emitBodyInst bytes rip hl e
      have hrest : ¬ ∀ i ∈ body, i.Lifts p legacy32 := fun hr =>
        h fun i hi => (List.mem_cons.mp hi).elim (fun heq => heq ▸ hl) (hr i)
      obtain ⟨x, hx'⟩ := ih (fun i hi => hx i (List.mem_cons_of_mem _ hi)) hrest e₁
      exact ⟨x, (bind_of_ok h₁).trans hx'⟩
    · obtain ⟨x, hrun⟩ := run_emitBodyInst_error bytes rip hl e
      exact ⟨x, bind_of_error hrun⟩

end Body

/-! ### The exit of a block -/

section Exit

instance : Passes (emitRegsToCtx GpReg.all : EmitM ε Unit) :=
  .of_writes fun _ => (writes_emitRegsToCtx GpReg.all).imp fun _ h => h.2

instance : Passes (emitHostEpilogue : EmitM ε Unit) :=
  .of_writes fun p => by
    obtain ⟨ws, last, -, -, hw⟩ := @writes_emitHostEpilogue ε p
    exact ⟨_, hw⟩

instance (next : BitVec 64) : Passes (emitEpilogueConstRip next : EmitM ε Unit) := by
  unfold emitEpilogueConstRip
  infer_instance

instance : Passes (emitEpilogueX16 : EmitM ε Unit) := by
  unfold emitEpilogueX16
  infer_instance

variable (term : Inst)

instance : Calm (branchRel term) := by
  unfold branchRel
  split <;> infer_instance

/-- The address of the pointer of an indirect jump. -/
instance Tries.addressErr {f : BitVec 32 → EmitM BlockError β} {n : Nat} (op : Operand) [HasAddress op]
    (g : LifterError → BlockError) (xtmp : Reg) [hf : ∀ l, Tries (f l) n l] :
    Tries (mapErr g (addrIntoXtmp op term xtmp) >>= f) n op.leftover where
  panics_iff p := by
    have haddr : verdict p (mapErr g (addrIntoXtmp op term xtmp)) = .ok op.leftover :=
      (verdict_mapErr _ _).trans (verdict_addrIntoXtmp xtmp op term)
    rw [verdict_bind_ok haddr]
    exact (hf op.leftover).panics_iff p

/-- The patches of an exit that has none. -/
abbrev noPatches : List (BitVec 32 × BitVec 64) := []

/-- The load of the target of an indirect jump. -/
def loadTarget (op : Operand) : EmitM BlockError Unit := do
  let leftover ← mapErr .lift (addrIntoXtmp op term 16)
  ldr64 16 16 leftover

theorem tries_loadTarget (op : Operand) [HasAddress op] : Tries (do
    loadTarget term op
    emitEpilogueX16
    pure noPatches) 8 op.leftover := by
  unfold loadTarget
  infer_instance

theorem panicsAt_indirectExit : PanicsAt (do
    emitIndirectTarget term
    emitEpilogueX16
    pure noPatches) (term.operand0.bind (Operand.hazard 8)) := by
  unfold emitIndirectTarget
  match term.operand0 with
  | none => exact .never (h := .fail_bind _ _)
  | some (.reg r _) =>
    exact .never (m := do
      mov64 16 (hostReg r)
      emitEpilogueX16
      pure noPatches)
  | some (.mem m) => exact .mem (h := tries_loadTarget term (.mem m))
  | some (.ripRel d s) => exact .ripRel (h := tries_loadTarget term (.ripRel d s))
  | some (.xmmReg _ _) => exact .never (h := .fail_bind _ _)
  | some (.imm _ _) => exact .never (h := .fail_bind _ _)

instance : Encodable (8 + 0) := ⟨by decide⟩

instance : Passes (emitRet 0) := by
  unfold emitRet
  infer_instance

/-- The exit of `RET imm16`. -/
theorem panicsAt_retExit (extra : BitVec 32) : PanicsAt (do
    emitRet extra
    pure noPatches) (some (.addImm (8 + extra))) := by
  have hu : Uniform (emitRet extra) := by
    unfold emitRet
    infer_instance
  have hv : ∀ p, verdict p (emitRet extra) = if imm12Encodable (8 + extra) then .ok () else .error .panic :=
    fun p => by
      have hadd := verdict_addsub64Imm (ε := BlockError) (p := p) 19 19 0 0 (8 + extra)
      unfold emitRet
      rw [Passes.verdict_bind]
      split_ifs with h
      · rw [if_pos h] at hadd
        exact (verdict_bind_ok hadd).trans (Passes.verdict_eq p _)
      · rw [if_neg h] at hadd
        exact verdict_bind_error hadd
  refine .one fun p => ?_
  rw [Hazard.strikes_addImm]
  by_cases h : imm12Encodable (8 + extra) = true
  · rw [verdict_bind_ok ((hv p).trans (if_pos h)), verdict_pure, h]
    exact iff_of_false nofun nofun
  · rw [verdict_bind_error ((hv p).trans (if_neg h))]
    exact iff_of_true rfl (eq_false_of_ne_true h)

/-- The exit of a jump is always emitted. -/
theorem run_emitChainExit (target : BitVec 64) (e : Emitter) :
    ∃ q e', (emitChainExit target : EmitM ε _) p e = .ok (q, e') ∧ e'.labels = e.labels := by
  obtain ⟨spill, back, last, -, hrun⟩ := @exists_exitWords ε p target
  exact ⟨_, _, hrun e, rfl⟩

/-- The two exits of a conditional jump, too. -/
theorem run_jccExit (c : A64.Cond) (next target : BitVec 64) (e : Emitter) : ∃ q e', (do
    let takenLabel ← makeLabel
    bCond c takenLabel
    let fallthrough ← emitChainExit next
    bindLabel takenLabel
    let taken ← emitChainExit target
    pure [fallthrough, taken] : EmitM ε _) p e = .ok (q, e') := by
  have hlabel : (e.labels ++ [none])[e.labels.length]? = some none := by simp
  have hbranch : ∃ e₁, (bCond c ⟨e.labels.length⟩ : EmitM ε Unit) p { e with labels := e.labels ++ [none] }
      = .ok ((), e₁) ∧ e₁.labels = e.labels ++ [none] :=
    ⟨_, emitBranch_of_unbound hlabel, rfl⟩
  obtain ⟨e₁, h₁, hl₁⟩ := hbranch
  obtain ⟨q₁, e₂, h₂, hl₂⟩ := run_emitChainExit (ε := ε) (p := p) next e₁
  have hunbound : e₂.labels[e.labels.length]? = some none := by rw [hl₂, hl₁, hlabel]
  obtain ⟨e₃, h₃⟩ : ∃ e₃, (bindLabel ⟨e.labels.length⟩ : EmitM ε Unit) p e₂ = .ok ((), e₃) :=
    ⟨_, bindLabel_of_unbound hunbound⟩
  obtain ⟨q₂, e₄, h₄, -⟩ := run_emitChainExit (ε := ε) (p := p) target e₃
  refine ⟨[q₁, q₂], e₄, ?_⟩
  exact (bind_of_ok rfl).trans ((bind_of_ok h₁).trans ((bind_of_ok h₂).trans ((bind_of_ok h₃).trans
    (bind_of_ok h₄))))

/-- **The exit of a block panics exactly when its hazard strikes.** -/
theorem endsInPanic_emitTerminator (e : Emitter) :
    EndsInPanic (emitTerminator term p e) ↔ ∃ h, term.exitHazard = some h ∧ h.Strikes p := by
  have huniform : ∀ {m : EmitM BlockError (List (BitVec 32 × BitVec 64))} {hazard : Option Hazard},
      PanicsAt m hazard → (EndsInPanic (m p e) ↔ ∃ h, hazard = some h ∧ h.Strikes p) := fun h =>
    have := h.toUniform
    (endsInPanic_iff_verdict e).trans (h.panics_iff p)
  have hnone : ∀ {r : Except (Fault BlockError) (List (BitVec 32 × BitVec 64) × Emitter)}, ¬ EndsInPanic r →
      (EndsInPanic r ↔ ∃ h, (none : Option Hazard) = some h ∧ h.Strikes p) := fun h =>
    iff_of_false h fun ⟨_, heq, _⟩ => by cases heq
  unfold emitTerminator Inst.exitHazard
  generalize term.op = op
  cases op with
  | ret => exact huniform .never
  | retImm =>
    unfold branchRel
    match term.operand0 with
    | some (.imm extra _) => exact huniform (panicsAt_retExit (extra.setWidth 32))
    | some (.reg _ _) | some (.mem _) | some (.ripRel _ _) | some (.xmmReg _ _) | none =>
      exact huniform (.never (h := .fail_bind _ _))
  | jmp =>
    unfold branchRel
    match term.operand0 with
    | some (.imm rel _) =>
      obtain ⟨q, e', hrun, -⟩ := run_emitChainExit (ε := BlockError) (p := p) (term.nextRip + rel) e
      exact hnone fun hp => not_endsInPanic_ok _ ((endsInPanic_bind_ok hrun).mp hp)
    | some (.reg _ _) | some (.mem _) | some (.ripRel _ _) | some (.xmmReg _ _) | none =>
      exact huniform (.never (h := .fail_bind _ _))
  | jcc cond =>
    dsimp only
    unfold branchRel
    match term.operand0, condX86ToA64 cond with
    | some (.imm rel _), some c =>
      obtain ⟨q, e', hrun⟩ := run_jccExit (ε := BlockError) (p := p) c term.nextRip (term.nextRip + rel) e
      have h := hnone (not_endsInPanic_ok (q, e'))
      rw [← hrun] at h
      exact h
    | some (.imm rel _), none => exact huniform (.never (m := EmitM.fail BlockError.unsupportedCondition))
    | some (.reg _ _), _ | some (.mem _), _ | some (.ripRel _ _), _ | some (.xmmReg _ _), _ | none, _ =>
      exact huniform (.never (h := .fail_bind _ _))
  | jmpIndirect => exact huniform (panicsAt_indirectExit term)
  | _ => exact huniform .never

end Exit

/-! ### Blocks -/

/-- A struck instruction, or a struck exit after a body that is lifted. -/
def BlockStruck (p : Profile) (legacy32 : Bool) (body : List Inst) (term : Inst) : Prop :=
  StruckIn p legacy32 body ∨
    (∀ inst ∈ body, inst.Lifts p legacy32) ∧ ∃ h, term.exitHazard = some h ∧ h.Strikes p

theorem endsInPanic_emitBlock {bytes : List Byte} {rip : BitVec 64} {legacy32 : Bool} {body : List Inst}
    {term : Inst} (hx : ∀ inst ∈ body, inst.XmmOk) (e : Emitter) :
    EndsInPanic (emitBlock bytes rip legacy32 body term p e) ↔ BlockStruck p legacy32 body term := by
  obtain ⟨ws, -, hprologue⟩ := @writes_emitPrologue BlockError p
  unfold emitBlock BlockStruck
  rw [endsInPanic_bind_ok (hprologue e)]
  by_cases hl : ∀ inst ∈ body, inst.Lifts p legacy32
  · obtain ⟨e₁, hbody⟩ := run_emitBody bytes rip hx hl (e.append ws)
    have hbodyPanic : ¬ StruckIn p legacy32 body := by
      rw [← endsInPanic_emitBody bytes rip hx (e.append ws), hbody]
      exact not_endsInPanic_ok _
    rw [endsInPanic_bind_ok hbody, endsInPanic_emitTerminator]
    exact ⟨fun h => .inr ⟨hl, h⟩, fun h => (h.resolve_left hbodyPanic).2⟩
  · obtain ⟨x, hbody⟩ := run_emitBody_error bytes rip hx hl (e.append ws)
    rw [endsInPanic_bind_error hbody, endsInPanic_emitBody bytes rip hx]
    exact ⟨.inl, fun h => h.resolve_right fun hr => hl hr.1⟩

/-- Resolving the labels does not panic. -/
theorem endsInPanic_finishBlock {guestLen : Nat}
    {r : Except (Fault BlockError) (List (BitVec 32 × BitVec 64) × Emitter)} :
    EndsInPanic (finishBlock guestLen r) ↔ EndsInPanic r := by
  match r with
  | .error (.err x) => exact iff_of_false (not_endsInPanic_err _) (not_endsInPanic_err _)
  | .error (.panic msg) => exact iff_of_true ⟨msg, rfl⟩ ⟨msg, rfl⟩
  | .ok (patches, e) =>
    refine iff_of_false ?_ (not_endsInPanic_ok _)
    unfold finishBlock
    dsimp only
    split
    · exact not_endsInPanic_ok _
    · exact not_endsInPanic_err _

/-- The dispatcher's translation panics exactly when the block is struck. -/
theorem endsInPanic_translateForDispatcher (p : Profile) (bytes : List Byte) (rip : BitVec 64)
    (mode : IsaMode) : EndsInPanic (translateForDispatcher p bytes rip mode) ↔
      ∃ body term rest, decodeLoop (mode = .long) (bytes.length + 1) rip bytes = .ok (body, term, rest) ∧
        BlockStruck p (mode = .legacy32) body term := by
  unfold translateForDispatcher
  match hdec : decodeLoop (mode = .long) (bytes.length + 1) rip bytes with
  | .error (.err x) => exact iff_of_false (not_endsInPanic_err _) fun ⟨_, _, _, heq, _⟩ => by cases heq
  | .error (.panic msg) =>
    exact absurd hdec (decodeLoop_ne_panic _ _ rip bytes (Nat.lt_succ_self _) msg)
  | .ok (body, term, rest) =>
    dsimp only
    rw [endsInPanic_finishBlock, endsInPanic_emitBlock (decodeLoop_xmmOk hdec)]
    constructor
    · exact fun h => ⟨body, term, rest, rfl, h⟩
    · rintro ⟨body', term', rest', heq, h⟩
      cases heq
      exact h

end Quantum.Jit
