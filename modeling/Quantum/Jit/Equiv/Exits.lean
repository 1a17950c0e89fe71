import Quantum.A64.Equiv.Stack
import Quantum.Jit.Block
import Quantum.Jit.Equiv.Address

/-!
# The exits of a block

A block ends by spilling the guest registers to the context (`spillInsns`), putting the next guest
address in `X0`, popping the host frame (`epilogueInsns`) and returning.

* `read_spilled`: after the spill every guest register is in its slot of the context;
* `returns_exit`: from the first word of an exit the code returns, with the next address in `X0`
  and the spilled registers in the context.
-/

namespace Quantum.Jit

open A64 StateTransition
open EmitM

variable {ε : Type} {p : Profile} {env : Env}

/-! ### Returning -/

/-- Code returns in one state only. -/
theorem returned_unique {code : List Word} {c : Config} {r₁ r₂ : State}
    (h₁ : Reaches (step env code) c (.returned r₁)) (h₂ : Reaches (step env code) c (.returned r₂)) :
    r₁ = r₂ := by
  have hm₁ := mem_eval.mpr ⟨h₁, rfl⟩
  have hm₂ := mem_eval.mpr ⟨h₂, rfl⟩
  injection Part.mem_unique hm₁ hm₂

/-- The code `ws`, entered at its first word in state `s`, returns to its caller in state `r`. -/
def Returns (env : Env) (ws : List Word) (s r : State) : Prop :=
  Reaches (step env ws) (.at 0 s) (.returned r)

theorem Returns.unique {ws : List Word} {s r₁ r₂ : State} (h₁ : Returns env ws s r₁)
    (h₂ : Returns env ws s r₂) : r₁ = r₂ :=
  returned_unique h₁ h₂

/-- Straight code that ends in `RET` returns. -/
theorem returns_of_runSeq {ws : List Word} {is : List (Option Insn)} {s r : State}
    (hws : ws.map decode = is ++ [some (.ret 30)]) (h : runSeq env 0 is s = some r) :
    Returns env ws s r := by
  have hc : CodeAt ws 0 (is ++ [some (.ret 30)]) := ⟨[], ws, [], by simp, rfl, hws⟩
  obtain ⟨hc₁, hc₂⟩ := hc.append
  refine (reaches_of_runSeq hc₁ h).tail (Option.mem_def.mpr ?_)
  rw [step_of_some hc₂.cons.1]
  rfl

/-- And straight code that returns has run to its end. -/
theorem runSeq_of_returns {ws : List Word} {is : List (Option Insn)} {s r : State}
    (hws : ws.map decode = is ++ [some (.ret 30)]) (hlin : ∀ i, some i ∈ is → i.isLinear = true)
    (h : Returns env ws s r) : runSeq env 0 is s = some r := by
  have hc : CodeAt ws 0 (is ++ [some (.ret 30)]) := ⟨[], ws, [], by simp, rfl, hws⟩
  obtain ⟨hc₁, hc₂⟩ := hc.append
  obtain ⟨s', hs', hrest⟩ := runSeq_of_returned hc₁ hlin h
  have hstep : step env ws (.at (0 + is.length) s') = some (.returned s') := by
    rw [step_of_some hc₂.cons.1]
    rfl
  rcases Relation.ReflTransGen.cases_head hrest with heq | ⟨c, hc', hlast⟩
  · cases heq
  · rw [hstep] at hc'
    obtain rfl := Option.some.inj hc'
    rcases Relation.ReflTransGen.cases_head hlast with heq | ⟨c, hc'', -⟩
    · injection heq with heq
      rw [← heq, hs']
    · cases hc''

theorem emits_ret {Q : Unit → List (Option Insn) → Prop} (h : Q () [some (.ret 30)]) :
    Emits p (ret : EmitM ε Unit) Q :=
  Emits.push (by rw [decode_ret]; exact h)

/-! ### The spill -/

/-- The offset of a guest register in the context. -/
def ctxOffset (r : GpReg) : BitVec 32 :=
  BitVec.ofNat 32 (8 * r.index)

theorem fits_ctxOffset (r : GpReg) : Fits 8 (ctxOffset r) := by
  cases r <;> decide

/-- The stores of a spill. -/
def spillInsns (rs : List GpReg) : List (Option Insn) :=
  rs.map fun r => some (storeInsn .b8 (hostReg r) 28 (ctxOffset r))

theorem emits_emitRegsToCtx (rs : List GpReg) {Q : Unit → List (Option Insn) → Prop}
    (h : Q () (spillInsns rs)) : Emits p (emitRegsToCtx rs : EmitM ε Unit) Q := by
  induction rs generalizing Q with
  | nil => exact Emits.pure h
  | cons r rs ih =>
    exact Emits.bind (emits_ldstScaled_of_fits (by decide) (.inr (fits_ctxOffset r)) fun _ => ih h)

/-- The address of a guest register in the context at `ctx`. -/
def ctxSlot (ctx : BitVec 64) (r : GpReg) : BitVec 64 :=
  ctx + (ctxOffset r).setWidth 64

/-- Memory after a spill of the registers of `s`. -/
def spill (s : State) : List GpReg → ByteMem → ByteMem
  | [], m => m
  | r :: rs, m => spill s rs (m.write 8 (ctxSlot (s.x 28#5) r) (guest s r))

theorem runSeq_spillInsns (rs : List GpReg) (pc : Nat) (s : State) (m : ByteMem) :
    runSeq env pc (spillInsns rs) { s with mem := m } = some { s with mem := spill s rs m } := by
  induction rs generalizing pc m with
  | nil => rfl
  | cons r rs ih =>
    have hfit : Fits OpSize.b8.bytes (ctxOffset r) := fits_ctxOffset r
    rw [spillInsns, List.map_cons, runSeq_cons, execOne_storeInsn hfit, Option.bind_some, spill,
      State.readX_mem, readX_hostReg]
    exact ih _ _

/-- Slots of different registers do not overlap. -/
theorem ctxSlot_disjoint (ctx : BitVec 64) {r q : GpReg} (h : r ≠ q) :
    Disjoint64 (ctxSlot ctx r) 8 (ctxSlot ctx q) 8 := by
  intro c hr hq
  have hidx : r.index ≠ q.index := by
    intro heq
    have := GpReg.fromIndex_index r
    rw [heq, GpReg.fromIndex_index] at this
    exact h (Option.some.inj this).symm
  have hlt : ∀ g : GpReg, g.index < 16 := by
    intro g
    cases g <;> decide
  have hoff : ∀ g : GpReg, ((ctxOffset g).setWidth 64).toNat = 8 * g.index := by
    intro g
    have := hlt g
    rw [ctxOffset, BitVec.toNat_setWidth, BitVec.toNat_ofNat]
    omega
  have h₁ := ByteMem.toNat_sub_add c ctx ((ctxOffset r).setWidth 64)
  have h₂ := ByteMem.toNat_sub_add c ctx ((ctxOffset q).setWidth 64)
  rw [hoff] at h₁ h₂
  rw [InRange, ctxSlot] at hr hq
  have hr16 := hlt r
  have hq16 := hlt q
  omega

/-- The slot of a register that is not spilled any more. -/
theorem read_spill_of_not_mem (w : Nat) (s : State) {rs : List GpReg} {r : GpReg} (h : r ∉ rs)
    (m : ByteMem) : (spill s rs m).read w 8 (ctxSlot (s.x 28#5) r)
      = m.read w 8 (ctxSlot (s.x 28#5) r) := by
  induction rs generalizing m with
  | nil => rfl
  | cons q rs ih =>
    rw [List.mem_cons, not_or] at h
    rw [spill, ih h.2, ByteMem.read_write_of_disjoint w (ctxSlot_disjoint _ h.1)]

/-- After a spill the slot of a register holds its value. -/
theorem read_spill (s : State) {rs : List GpReg} {r : GpReg} (h : r ∈ rs) (m : ByteMem) :
    (spill s rs m).read 64 8 (ctxSlot (s.x 28#5) r) = guest s r := by
  induction rs generalizing m with
  | nil => cases h
  | cons q rs ih =>
    rw [spill]
    by_cases hmem : r ∈ rs
    · exact ih hmem _
    · obtain rfl : r = q := (List.mem_cons.mp h).resolve_right hmem
      rw [read_spill_of_not_mem 64 s hmem, ByteMem.read_write_self 64 _ _ _ (by decide)]
      simp

/-! ### The host epilogue -/

/-- Pop the host frame. -/
def epilogueInsns : List (Option Insn) :=
  [some (popInsn 24 25), some (popInsn 19 28), some (popInsn 29 30)]

theorem emits_emitHostEpilogue {Q : Unit → List (Option Insn) → Prop}
    (h : Q () (epilogueInsns ++ [some (.ret 30)])) :
    Emits p (emitHostEpilogue : EmitM ε Unit) Q :=
  Emits.bind (emits_ldp64Post (Emits.bind (emits_ldp64Post (Emits.bind (emits_ldp64Post
    (emits_ret h))))))

/-- The state after the pops. -/
def unframed (s : State) : State :=
  ((s.popPair 24#5 25#5).popPair 19#5 28#5).popPair 29#5 30#5

theorem runSeq_epilogueInsns (pc : Nat) (s : State) :
    runSeq env pc epilogueInsns s = some (unframed s) := by
  simp only [epilogueInsns, runSeq_cons, execOne_popInsn, Option.bind_some, runSeq_nil, unframed,
    BitVec.ofNat_eq_ofNat]

theorem unframed_x (s : State) {r : Reg} (h : r < 19#5) : (unframed s).x r = s.x r := by
  have hne : ∀ k : Reg, 19#5 ≤ k → r ≠ k := fun k hk hr => absurd (hr ▸ h) (BitVec.not_lt.mpr hk)
  simp only [unframed, State.popPair_x, hne 31#5 (by decide), hne 30#5 (by decide),
    hne 29#5 (by decide), hne 28#5 (by decide), hne 25#5 (by decide), hne 24#5 (by decide),
    hne 19#5 (by decide), if_false]

@[simp]
theorem unframed_mem (s : State) : (unframed s).mem = s.mem := by
  simp [unframed]

/-! ### A whole exit -/

/-- An exit: spill, set the next address by the instructions `set`, pop the frame. -/
def exitInsns (set : List (Option Insn)) : List (Option Insn) :=
  spillInsns GpReg.all ++ set ++ epilogueInsns

/-- The state in which an exit with the next address `next` returns. -/
def exited (s : State) (next : BitVec 64) : State :=
  unframed (State.writeX { s with mem := spill s GpReg.all s.mem } 0#5 next)

@[simp]
theorem exited_x0 (s : State) (next : BitVec 64) : (exited s next).x 0#5 = next := by
  rw [exited, unframed_x _ (by decide)]
  simp

@[simp]
theorem exited_mem (s : State) (next : BitVec 64) :
    (exited s next).mem = spill s GpReg.all s.mem := by
  simp [exited]

/-- The context after an exit holds the guest registers. -/
theorem exited_slot (s : State) (next : BitVec 64) (r : GpReg) :
    (exited s next).mem.read 64 8 (ctxSlot (s.x 28#5) r) = guest s r := by
  have hmem : r ∈ GpReg.all := by cases r <;> decide
  rw [exited_mem, read_spill s hmem]

theorem runSeq_exitInsns {set : List (Option Insn)} {s : State} {next : BitVec 64} (pc : Nat)
    (hset : ∀ pc m, runSeq env pc set { s with mem := m }
      = some (State.writeX { s with mem := m } 0#5 next)) :
    runSeq env pc (exitInsns set) s = some (exited s next) := by
  rw [exitInsns, runSeq_append, runSeq_append]
  have hspill : runSeq env pc (spillInsns GpReg.all) s
      = some { s with mem := spill s GpReg.all s.mem } := runSeq_spillInsns _ _ s s.mem
  rw [hspill, Option.bind_some, hset, Option.bind_some, runSeq_epilogueInsns]
  rfl

/-- The move of `X16` to `X0`. -/
def moveX16 : List (Option Insn) :=
  [some (.logicShift .orr 16 0 31 0)]

theorem emits_emitEpilogueX16 {Q : Unit → List (Option Insn) → Prop}
    (h : Q () (exitInsns moveX16 ++ [some (.ret 30)])) :
    Emits p (emitEpilogueX16 : EmitM ε Unit) Q :=
  Emits.bind (emits_emitRegsToCtx _ (Emits.bind (emits_mov64 (emits_emitHostEpilogue
    (by simpa [exitInsns, moveX16] using h)))))

theorem runSeq_moveX16 (pc : Nat) (s : State) :
    runSeq env pc moveX16 s = some (s.writeX 0#5 (s.x 16#5)) := by
  rw [moveX16, runSeq_cons, execOne_mov64, s.readX_of_ne _ (by decide)]
  rfl

theorem runSeq_exit_x16 (pc : Nat) (s : State) :
    runSeq env pc (exitInsns moveX16) s = some (exited s (s.x 16#5)) :=
  runSeq_exitInsns pc fun _ _ => runSeq_moveX16 _ _

theorem emits_emitEpilogueConstRip {next : BitVec 64} {Q : Unit → List (Option Insn) → Prop}
    (h : ∀ set, LoadsConst 0#5 next set → Q () (exitInsns set ++ [some (.ret 30)])) :
    Emits p (emitEpilogueConstRip next : EmitM ε Unit) Q := by
  refine Emits.bind (emits_emitRegsToCtx _ (Emits.bind (emits_loadConst64 (by decide) _
    fun set hset => emits_emitHostEpilogue ?_)))
  simpa [exitInsns] using h set hset

theorem runSeq_exit_const {next : BitVec 64} {set : List (Option Insn)}
    (h : LoadsConst 0#5 next set) (pc : Nat) (s : State) :
    runSeq env pc (exitInsns set) s = some (exited s next) :=
  runSeq_exitInsns pc fun _ _ => h.run _ _ _

end Quantum.Jit
