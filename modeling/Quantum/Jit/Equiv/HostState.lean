import Quantum.Jit.Equiv.RetExit
import Quantum.Jit.Equiv.Straight

/-!
# What a block keeps of its caller

The prologue of a block pushes `X19`, `X24`, `X25` and `X28` to `X30` and every exit pops them.  In between the
stack pointer comes back to the saved words (`Inv`), and nothing stores to them.  So a block returns with the
caller's registers, and with the guest registers in the context (`host_state_preserved`), whichever terminator
it has.
-/

namespace Quantum.Jit

open A64 StateTransition
open EmitM

variable {env : Env} {L : Layout} {AtSpill : State → Prop} {ε : Type} {p : Profile}

/-! ### Code of guest instructions -/

/-- The annotation of a point with `d` pairs on the host stack. -/
def depthAnn (d : Nat) : Ann :=
  { Ann.start false with stack := List.replicate d (false, false) }

theorem Inv.of_length {k k' : Ann} {s : State} (h : Inv L k s)
    (hlen : k'.stack.length = k.stack.length) : Inv L k' s := by
  refine ⟨h.ctx, ?_, ?_, h.frame⟩
  · rw [hlen]
    exact h.sp
  · rw [hlen]
    exact h.depth

/-- What holds with `d` pairs on the host stack. -/
def hostLevel (L : Layout) (d : Nat) : State → Prop :=
  Inv L (depthAnn d)

/-- The first instruction of a spill: the store of `RAX` to the context. -/
def spillHead : Insn :=
  storeInsn .b8 (hostReg .rax) 28 (ctxOffset .rax)

/-- Does the guest not store to the frame, and does `AtSpill` hold where a spill begins? -/
def HostOk (L : Layout) (AtSpill : State → Prop) (i : Insn) (s : State) : Prop :=
  (∀ b, guestStores i s b → ¬ InRange L.sp 48 b) ∧ (i = spillHead → AtSpill s)

/-- The state in which a block returns: that of an exit which began at a spill. -/
def Exited (L : Layout) (AtSpill : State → Prop) (r : State) : Prop :=
  ∃ s, (hostLevel L 0 s ∧ AtSpill s) ∧ r = exited s (r.x 0#5)

/-- The domain in which blocks are certified. -/
abbrev hostDomain (env : Env) (L : Layout) (AtSpill : State → Prop) : Domain (State → Prop) :=
  straightDomain env (HostOk L AtSpill) (fun _ => True) (Exited L AtSpill)

theorem lenient_host (hL : L.Apart) (henv : Aapcs64 env 128) :
    Lenient (hostDomain env L AtSpill) (hostLevel L) where
  harmless := by
    intro d o ho i pc s s' hi hinv hok hex
    rw [hi] at ho
    have hstep := hinv.step hL henv (ho.safe _ rfl) hok.1.1 hex
    exact hstep.of_length (by rw [ho.stack])
  push := by
    intro d rt rt2 hd i pc s s' hi hinv hok hex
    obtain rfl := Option.some.inj hi
    have hsafe : (transfer (depthAnn d) (some (pushInsn rt rt2))).safe = true := by
      rw [transfer_pushInsn]
      simpa [Ann.push, depthAnn, Ann.start] using hd
    have hstep := hinv.step hL henv hsafe hok.1.1 hex
    refine hstep.of_length ?_
    rw [transfer_pushInsn]
    simp [Ann.push, depthAnn]
  pop := by
    intro d rt rt2 hrt hrt2 i pc s s' hi hinv hok hex
    obtain rfl := Option.some.inj hi
    have hsafe : (transfer (depthAnn (d + 1)) (some (popInsn rt rt2))).safe = true := by
      rw [transfer_popInsn]
      simp [Ann.pop, depthAnn, Ann.start, List.replicate_succ, hrt, hrt2]
    have hstep := hinv.step hL henv hsafe hok.1.1 hex
    refine hstep.of_length ?_
    rw [transfer_popInsn]
    simp [Ann.pop, depthAnn, List.replicate_succ]

/-! ### Exits -/

section Exit

variable {Γ : List (Label × (State → Prop))} {R : Unit → List (Label × (State → Prop)) → (State → Prop) → Prop}

/-- In the middle of an exit, behind `is`. -/
abbrev Exiting (env : Env) (L : Layout) (AtSpill : State → Prop) (is : List (Option Insn)) : State → Prop :=
  After env (fun _ => True) (fun s => hostLevel L 0 s ∧ AtSpill s) is

/-- The instructions that set the next address. -/
def SetsNext (set : List (Option Insn)) : Prop :=
  ∀ s : State, ∃ next, ∀ env pc m, runSeq env pc set { s with mem := m }
    = some (State.writeX { s with mem := m } 0#5 next)

theorem setsNext_moveX16 : SetsNext moveX16 :=
  fun s => ⟨s.x 16#5, fun _ _ _ => runSeq_moveX16 _ _⟩

theorem LoadsConst.setsNext {next : BitVec 64} {set : List (Option Insn)} (h : LoadsConst 0#5 next set) :
    SetsNext set :=
  fun _ => ⟨next, fun _ _ _ => h.run _ _ _⟩

namespace SetsNext

variable {set : List (Option Insn)}

theorem isStraight (h : SetsNext set) : IsStraight set := by
  obtain ⟨next, hset⟩ := h default
  exact isStraight_of_runSeq (hset default 0 (default : State).mem)

theorem exited (h : SetsNext set) {r : State} (hr : Exiting env L AtSpill (exitInsns set) r) :
    Exited L AtSpill r := by
  obtain ⟨s, hs, -, pc, hrun⟩ := hr
  obtain ⟨next, hset⟩ := h s
  rw [runSeq_exitInsns pc (hset env), Option.some.injEq] at hrun
  refine ⟨s, hs, ?_⟩
  rw [← hrun, exited_x0]

end SetsNext

theorem certifies_emitRegsToCtx (hR : R () Γ (Exiting env L AtSpill (spillInsns GpReg.all))) :
    Certifies (hostDomain env L AtSpill) p Γ (hostLevel L 0)
      (emitRegsToCtx GpReg.all : EmitM ε Unit) R := by
  have hhead : (hostDomain env L AtSpill).next (hostLevel L 0) (some spillHead)
      (Exiting env L AtSpill [some spillHead]) := by
    rintro i pc s s' hi hinv ⟨⟨-, hat⟩, -⟩ hex
    obtain rfl := Option.some.inj hi
    exact ⟨s, ⟨hinv, hat rfl⟩, fun _ => trivial, pc, by rw [runSeq_cons, hex]; rfl⟩
  refine .bind (.one (emits_str64 (fits_ctxOffset .rax) rfl) rfl hhead ?_)
  refine .straight (emits_emitRegsToCtx (Q := fun _ is => is = spillInsns GpReg.all.tail) _ rfl) ?_
  rintro _ _ rfl
  exact ⟨fun i hi => isStraight_spill i (List.mem_cons_of_mem _ hi), hR⟩

theorem certifies_emitHostEpilogue {set : List (Option Insn)} (h : SetsNext set) (hR : R () Γ fun _ => False) :
    Certifies (hostDomain env L AtSpill) p Γ (Exiting env L AtSpill (spillInsns GpReg.all ++ set))
      (emitHostEpilogue : EmitM ε Unit) R := by
  have hpop : ∀ {rt rt2 : Reg} {is : List (Option Insn)}
      {Q : Unit → List (Label × (State → Prop)) → (State → Prop) → Prop},
      Q () Γ (Exiting env L AtSpill (is ++ [some (popInsn rt rt2)])) →
      Certifies (hostDomain env L AtSpill) p Γ (Exiting env L AtSpill is)
        (ldp64Post rt rt2 31 16 : EmitM ε Unit) Q := by
    intro rt rt2 is Q hQ
    refine .straight (emits_ldp64Post (Q := fun _ is => is = [some (popInsn rt rt2)]) rfl) ?_
    rintro _ _ rfl
    refine ⟨fun i hi => ?_, hQ⟩
    obtain rfl := Option.some.inj (List.mem_singleton.mp hi)
    exact ⟨rfl, nofun⟩
  refine .bind (hpop (.bind (hpop (.bind (hpop (.ret ?_ hR))))))
  intro r hr
  have hexit : Exiting env L AtSpill (exitInsns set) r := by
    simpa [exitInsns, epilogueInsns] using hr
  exact h.exited hexit

/-- The next address is a constant. -/
theorem certifies_loadNext {next : BitVec 64}
    (hR : ∀ set, SetsNext set → R () Γ (Exiting env L AtSpill (spillInsns GpReg.all ++ set))) :
    Certifies (hostDomain env L AtSpill) p Γ (Exiting env L AtSpill (spillInsns GpReg.all))
      (loadConst64 0 next : EmitM ε Unit) R := by
  refine .straight (emits_loadConst64 (Q := fun _ is => LoadsConst 0#5 next is) (by decide) _
    fun _ h => h) ?_
  rintro _ set hset
  exact ⟨hset.setsNext.isStraight, hR set hset.setsNext⟩

theorem certifies_emitEpilogueX16 (hR : R () Γ fun _ => False) :
    Certifies (hostDomain env L AtSpill) p Γ (hostLevel L 0) (emitEpilogueX16 : EmitM ε Unit) R := by
  refine .bind (certifies_emitRegsToCtx (.bind (.straight
    (emits_mov64 (Q := fun _ is => is = moveX16) rfl) ?_)))
  rintro _ _ rfl
  exact ⟨setsNext_moveX16.isStraight, certifies_emitHostEpilogue setsNext_moveX16 hR⟩

theorem certifies_emitEpilogueConstRip (next : BitVec 64) (hR : R () Γ fun _ => False) :
    Certifies (hostDomain env L AtSpill) p Γ (hostLevel L 0)
      (emitEpilogueConstRip next : EmitM ε Unit) R := by
  refine .bind (certifies_emitRegsToCtx (.bind (certifies_loadNext fun set hset => ?_)))
  exact certifies_emitHostEpilogue hset hR

theorem certifies_emitChainExit (target : BitVec 64)
    {R : BitVec 32 × BitVec 64 → List (Label × (State → Prop)) → (State → Prop) → Prop}
    (hR : ∀ patch, R patch Γ fun _ => False) :
    Certifies (hostDomain env L AtSpill) p Γ (hostLevel L 0)
      (emitChainExit target : EmitM ε (BitVec 32 × BitVec 64)) R := by
  refine .bind (certifies_emitRegsToCtx (.bind (.byteLen fun n => .bind (.skip (.bind
    (certifies_loadNext fun set hset => .bind (certifies_emitHostEpilogue hset ?_)))))))
  exact .pure (hR _)

end Exit

/-! ### Terminators -/

section Terminator

variable {A : Type} {D : Domain A} {lv : Nat → A} [Lenient D lv]

instance (term : Inst) : Steady D lv (branchRel term) := by
  unfold branchRel
  split <;> infer_instance

instance (term : Inst) : Steady D lv (emitIndirectTarget term) := by
  unfold emitIndirectTarget
  refine .bind_okOr fun target _ => ?_
  split <;> infer_instance

end Terminator

theorem certifies_emitTerminator (hL : L.Apart) (henv : Aapcs64 env 128) (term : Inst)
    {Γ : List (Label × (State → Prop))} :
    Certifies (hostDomain env L AtSpill) p Γ (hostLevel L 0) (emitTerminator term) fun _ _ _ => True := by
  have := @lenient_host env L AtSpill hL henv
  have hconst : ∀ next, Certifies (hostDomain env L AtSpill) p Γ (hostLevel L 0)
      (emitEpilogueConstRip next >>= fun _ => pure [] : EmitM BlockError (List (BitVec 32 × BitVec 64)))
      fun _ _ _ => True :=
    fun next => .bind (certifies_emitEpilogueConstRip next (.pure trivial))
  have hx16 : Certifies (hostDomain env L AtSpill) p Γ (hostLevel L 0)
      (emitEpilogueX16 >>= fun _ => pure [] : EmitM BlockError (List (BitVec 32 × BitVec 64)))
      fun _ _ _ => True :=
    .bind (certifies_emitEpilogueX16 (.pure trivial))
  have hret : ∀ extra, Certifies (hostDomain env L AtSpill) p Γ (hostLevel L 0)
      (emitRet extra >>= fun _ => pure [] : EmitM BlockError (List (BitVec 32 × BitVec 64)))
      fun _ _ _ => True := by
    intro extra
    refine .bind (Steady.before fun _ => Steady.before fun _ => ?_)
    exact certifies_emitEpilogueX16 (.pure trivial)
  unfold emitTerminator
  split
  case h_1 => exact hconst _
  case h_2 => exact Steady.before fun extra => hret _
  case h_3 => exact hret 0
  case h_4 => exact Steady.before fun rel => .bind (certifies_emitChainExit _ fun _ => .pure trivial)
  case h_5 =>
    exact Steady.before fun rel => Steady.before fun _ => Steady.before fun _ => Steady.before fun _ => hconst _
  case h_6 =>
    refine Steady.before fun rel => Steady.before fun c => ?_
    -- the taken branch starts where the Jcc does
    refine .bind (.makeLabel (hostLevel L 0) fun taken => .bind (.bCond (List.mem_cons_self ..) (Domain.le_refl _ _)
      (.bind (certifies_emitChainExit _ fun _ => .bind (.bindLabel (List.mem_cons_self ..) (fun _ h => h.elim)
        (.bind (certifies_emitChainExit _ fun _ => .pure trivial)))))))
  case h_7 => exact Steady.before fun _ => hx16
  case h_8 => exact hconst _

/-! ### The frame -/

/-- Context and frame of a block that is entered in state `s`. -/
def entryLayout (s : State) : Layout where
  ctx := s.x 0#5
  sp := s.x 31#5 - 48#64
  frame := (framed s).mem

theorem inv_prologue {pc : Nat} {s s' : State} (h : runSeq env pc prologueInsns s = some s') :
    hostLevel (entryLayout s) 0 s' := by
  obtain ⟨s₁, hrun, hmem, h28, h31, -⟩ := @exists_prologue_run env pc s
  rw [hrun, Option.some.injEq] at h
  subst h
  refine ⟨h28, ?_, Nat.zero_le _, fun b _ => ?_⟩
  · rw [h31]
    exact (BitVec.sub_zero _).symm
  · rw [hmem]
    rfl

/-- The saved registers, from the stack pointer up. -/
theorem wordsAt_framed (s : State) : (framed s).mem.WordsAt (s.x 31#5 - 48#64)
    [s.x 24#5, s.x 25#5, s.x 19#5, s.x 28#5, s.x 29#5, s.x 30#5] := by
  have h0 : s.mem.WordsAt (s.x 31#5) [] := trivial
  have h1 := h0.push2 (u := s.x 29#5) (v := s.x 30#5) (by decide)
  have h2 := h1.push2 (u := s.x 19#5) (v := s.x 28#5) (by simp)
  have h3 := h2.push2 (u := s.x 24#5) (v := s.x 25#5) (by simp)
  have hsub : s.x 31#5 - 16#64 - 16#64 - 16#64 = s.x 31#5 - 48#64 := by
    rw [BitVec.sub_sub, BitVec.sub_sub, show 16#64 + (16#64 + 16#64) = 48#64 by decide]
  rw [hsub] at h3
  have hmem : (framed s).mem = ((s.mem.push2 (s.x 31#5) (s.x 29#5) (s.x 30#5)).push2 (s.x 31#5 - 16#64)
      (s.x 19#5) (s.x 28#5)).push2 (s.x 31#5 - 16#64 - 16#64) (s.x 24#5) (s.x 25#5) := by
    simp [framed, State.readX]
  rw [hmem]
  exact h3

/-- A spill stays in the context. -/
theorem spill_of_not_inRange {s : State} {b : BitVec 64} (hb : ¬ InRange (s.x 28#5) 416 b) (rs : List GpReg)
    (m : ByteMem) : spill s rs m b = m b := by
  induction rs generalizing m with
  | nil => rfl
  | cons r rs ih =>
    rw [spill, ih]
    refine ByteMem.write_of_not_inRange fun hin => hb ?_
    have hoff : ((ctxOffset r).setWidth 64).toNat ≤ 120 := by
      cases r <;> decide
    have hsub := ByteMem.toNat_sub_add b (s.x 28#5) ((ctxOffset r).setWidth 64)
    rw [InRange, ctxSlot] at hin
    rw [InRange]
    omega

/-- The pops of the frame. -/
theorem unframed_saved {s : State} {v24 v25 v19 v28 v29 v30 : BitVec 64}
    (h : s.mem.WordsAt (s.x 31#5) [v24, v25, v19, v28, v29, v30]) :
    (unframed s).x 24#5 = v24 ∧ (unframed s).x 25#5 = v25 ∧ (unframed s).x 19#5 = v19 ∧
      (unframed s).x 28#5 = v28 ∧ (unframed s).x 29#5 = v29 ∧ (unframed s).x 30#5 = v30 ∧
      (unframed s).x 31#5 = s.x 31#5 + 48#64 := by
  obtain ⟨h24, h25, h⟩ := h.pop2
  obtain ⟨h19, h28, h⟩ := h.pop2
  obtain ⟨h29, h30, -⟩ := h.pop2
  have hadd : s.x 31#5 + 16#64 + 16#64 + 16#64 = s.x 31#5 + 48#64 := by
    rw [BitVec.add_assoc, BitVec.add_assoc, show 16#64 + (16#64 + 16#64) = 48#64 by decide]
  simp [unframed, h24, h25, h19, h28, h29, h30, hadd]

/-- The registers that the caller of a block relies on: SP and those that a block saves. -/
def callerRegs : List Reg :=
  [31, 19, 24, 25, 28, 29, 30]

/-- An exit gives the caller its registers back. -/
theorem exited_callerRegs {s s₁ : State} (hL : (entryLayout s).Apart) (h : hostLevel (entryLayout s) 0 s₁)
    (next : BitVec 64) : ∀ q ∈ callerRegs, (exited s₁ next).x q = s.x q := by
  have hsp : s₁.x 31#5 = s.x 31#5 - 48#64 := h.sp.trans (BitVec.sub_zero _)
  have hframe : ∀ b, InRange (s.x 31#5 - 48#64) 48 b → spill s₁ GpReg.all s₁.mem b = (framed s).mem b := by
    intro b hb
    have hout : ¬ InRange (s₁.x 28#5) 416 b := by
      rw [h.ctx]
      intro hctx
      refine hL b hctx ?_
      have hsub := ByteMem.toNat_sub_sub b (s.x 31#5 - 48#64) (k := 80) (by decide)
      rw [InRange] at hb
      show (b - (s.x 31#5 - 48#64 - 80#64)).toNat < 128
      omega
    rw [spill_of_not_inRange hout]
    exact h.frame b hb
  have hwords := (wordsAt_framed s).congr (by simp) hframe
  rw [← hsp] at hwords
  have hsaved := @unframed_saved (State.writeX { s₁ with mem := spill s₁ GpReg.all s₁.mem } 0#5 next)
    _ _ _ _ _ _ (by simpa using hwords)
  obtain ⟨h24, h25, h19, h28, h29, h30, h31⟩ := hsaved
  have hback : (exited s₁ next).x 31#5 = s.x 31#5 := by
    rw [exited, h31, State.x_writeX, if_neg (by decide)]
    show s₁.x 31#5 + 48#64 = s.x 31#5
    rw [hsp, BitVec.sub_add_cancel]
  intro q hq
  simp only [callerRegs, List.mem_cons, List.not_mem_nil, or_false] at hq
  rcases hq with rfl | rfl | rfl | rfl | rfl | rfl | rfl
  · exact hback
  · exact h19
  · exact h24
  · exact h25
  · exact h28
  · exact h29
  · exact h30

/-! ### Blocks -/

theorem isStraight_prologueInsns : IsStraight prologueInsns := by
  obtain ⟨s, hrun, -⟩ := @exists_prologue_run default 0 default
  exact isStraight_of_runSeq hrun

theorem certifies_emitBlock {s : State} (hL : (entryLayout s).Apart) (henv : Aapcs64 env 128)
    {bytes : List Byte} {rip : BitVec 64} {legacy32 : Bool} {body : List Inst} (term : Inst)
    (hx : ∀ inst ∈ body, inst.XmmOk) (hnt : ∀ inst ∈ body, inst.op.isTerminator = false) :
    Certifies (hostDomain env (entryLayout s) AtSpill) p [] (· = s)
      (emitBlock bytes rip legacy32 body term) fun _ _ _ => True := by
  have := @lenient_host env (entryLayout s) AtSpill hL henv
  have hstraight : Certifies (hostDomain env (entryLayout s) AtSpill) p [] (· = s)
      (emitPrologue : EmitM BlockError Unit)
      fun _ Γ b => Γ = [] ∧ b = After env (fun _ => True) (· = s) prologueInsns := by
    refine .enter (.straight (emits_emitPrologue (Q := fun _ is => is = prologueInsns) rfl) ?_)
    rintro _ _ rfl
    exact ⟨isStraight_prologueInsns, rfl, rfl⟩
  have hprologue : Certifies (hostDomain env (entryLayout s) AtSpill) p [] (· = s)
      (emitPrologue : EmitM BlockError Unit) fun _ Γ b => Γ = [] ∧ b = hostLevel (entryLayout s) 0 := by
    refine hstraight.weaken ?_
    rintro _ _ _ ⟨rfl, rfl⟩
    refine ⟨_, ?_, rfl, rfl⟩
    rintro s' ⟨_, rfl, -, pc, hrun⟩
    exact inv_prologue hrun
  refine .bind (hprologue.mono ?_)
  rintro _ _ _ ⟨rfl, rfl⟩
  refine .bind ((certifies_emitBody hx hnt).mono ?_)
  rintro _ _ _ ⟨rfl, rfl⟩
  exact certifies_emitTerminator hL henv term

/-- A run that began in state `s` is about to leave the block in state `s₁`: the next instruction begins the
spill. -/
def Leaving (env : Env) (code : List Word) (s s₁ : State) : Prop :=
  ∃ pc, Reaches (step env code) (.at 0 s) (.at pc s₁) ∧ (code[pc]?).bind decode = some spillHead

/-- The guest does not store to the host registers that a block entered in `s` has saved. -/
def SparesFrame (s : State) (i : Insn) (s' : State) : Prop :=
  ∀ b, guestStores i s' b → ¬ InRange (s.x 31#5 - 48#64) 48 b

theorem exited_of_block {bytes : List Byte} {rip : BitVec 64} {mode : IsaMode} {blk : Block}
    (h : translateForDispatcher p bytes rip mode = .ok blk) (henv : Aapcs64 env 128) {s r : State}
    (hL : (entryLayout s).Apart) (hspare : Domain.RunOk env blk.code (SparesFrame s) s)
    (hret : Reaches (step env blk.code) (.at 0 s) (.returned r)) :
    Exited (entryLayout s) (Leaving env blk.code s) r := by
  obtain ⟨body, term, rest, e₀, e₁, e₂, e₃, patches, hdec, h₀, h₁, h₂, hfin, hcode, -⟩ := block_parts h
  have hblock : emitBlock bytes rip (mode = .legacy32) body term p Emitter.new = .ok (patches, e₂) := by
    rw [emitBlock, bind_of_ok h₀, bind_of_ok h₁, h₂]
  have hknown : Known ([] : List (State → Prop)) [] := by
    simp [Known]
  have hcertifies : Certifies (hostDomain env (entryLayout s) (Leaving env blk.code s)) p [] (· = s)
      (emitBlock bytes rip (mode = .legacy32) body term) fun _ _ _ => True :=
    certifies_emitBlock hL henv term (decodeLoop_xmmOk hdec) (decodeLoop_body hdec)
  obtain ⟨lab, pts, b, -, hc, -, -, hent, -⟩ := hcertifies _ _ _ _ _ (Cert.new (· = s)) hknown hblock
  obtain ⟨-, hcert⟩ := hc.finish hfin
  rw [← hcode] at hcert
  have hok : Domain.RunOk env blk.code
      (fun i s' => HostOk (entryLayout s) (Leaving env blk.code s) i s' ∧ True) s := by
    intro pc s' i hreach hi
    refine ⟨⟨hspare pc s' i hreach hi, ?_⟩, trivial⟩
    rintro rfl
    exact ⟨pc, hreach, hi⟩
  obtain ⟨a, hpost, ha⟩ := hcert.reaches Domain.ofPred_sound (hent s rfl) hok hret
  exact hpost r ha

/-- **A block keeps the state of the host.** -/
theorem host_state_preserved {bytes : List Byte} {rip : BitVec 64} {mode : IsaMode} {blk : Block}
    (h : translateForDispatcher p bytes rip mode = .ok blk) (henv : Aapcs64 env 128) {s r : State}
    (hL : (entryLayout s).Apart) (hspare : Domain.RunOk env blk.code (SparesFrame s) s)
    (hret : Reaches (step env blk.code) (.at 0 s) (.returned r)) :
    (∀ q ∈ callerRegs, r.x q = s.x q) ∧
      ∃ s₁, Leaving env blk.code s s₁ ∧ ∀ g, r.mem.read 64 8 (ctxSlot (s.x 0#5) g) = guest s₁ g := by
  obtain ⟨s₁, ⟨hinv, hleave⟩, hr⟩ := exited_of_block h henv hL hspare hret
  rw [hr]
  refine ⟨exited_callerRegs hL hinv _, s₁, hleave, fun g => ?_⟩
  have hctx : s₁.x 28#5 = s.x 0#5 := hinv.ctx
  rw [← hctx]
  exact exited_slot s₁ _ g

/-- Is the instruction no store through an address of the guest? -/
def spares : Insn → Bool
  | .ldst _ v opc _ rn _ => rn == 28#5 || rn == 31#5 || !ldstIsStore v opc
  | _ => true

theorem not_guestStores_of_spares {i : Insn} (h : spares i = true) (s : State) (b : BitVec 64) :
    ¬ guestStores i s b := by
  cases i with
  | ldst size v opc imm12 rn rt =>
    rintro ⟨h28, h31, hstore, -⟩
    simp [spares, h28, h31, hstore] at h
  | _ => exact id

/-- The context at 0x1000 and the stack pointer at 0x10000. -/
def callOfRet : State :=
  { (default : State) with x := fun r => if r = 0#5 then 0x1000#64 else if r = 31#5 then 0x10000#64 else 0#64 }

theorem apart_callOfRet : (entryLayout callOfRet).Apart := by
  intro c hctx hstack
  have h1 : (c - 0x1000#64).toNat < 416 := hctx
  have h2 : (c - (0x10000#64 - 48#64 - 80#64)).toNat < 128 := hstack
  bv_omega

theorem host_state_preserved_ret : ∃ blk r,
    translateForDispatcher ⟨true⟩ [0xC3] 0x401000 .long = .ok blk ∧
    Reaches (step default blk.code) (.at 0 callOfRet) (.returned r) ∧
    (∀ q ∈ callerRegs, r.x q = callOfRet.x q) ∧
      ∃ s₁, Leaving default blk.code callOfRet s₁ ∧
        ∀ g, r.mem.read 64 8 (ctxSlot (callOfRet.x 0#5) g) = guest s₁ g := by
  have hdec : ∃ term, decodeLoop (IsaMode.long = .long) 2 0x401000 [0xC3] = .ok ([], term, []) ∧
      term.op = .ret := ⟨_, rfl, rfl⟩
  obtain ⟨term, hdec, hop⟩ := hdec
  have hok : (translateForDispatcher ⟨true⟩ [0xC3] 0x401000 .long).isOk = true := by
    decide +kernel
  obtain ⟨blk, hblk⟩ := exists_of_isOk hok
  have hwords : (translateForDispatcher ⟨true⟩ [0xC3] 0x401000 .long).toOption.all
      (fun blk => blk.code.all fun w => (decode w).all spares) = true := by
    decide +kernel
  rw [hblk] at hwords
  have hspare : Domain.RunOk default blk.code (SparesFrame callOfRet) callOfRet := by
    intro pc s' i _ hi b hb
    obtain ⟨w, hw, hdecode⟩ := Option.bind_eq_some_iff.mp hi
    have hword := List.all_eq_true.mp hwords w (List.mem_of_getElem? hw)
    rw [hdecode] at hword
    exact absurd hb (not_guestStores_of_spares hword s' b)
  -- the block runs through its prologue to the RET
  have hstart : 22 = startWords ⟨true⟩ [0xC3] 0x401000 (IsaMode.long = .legacy32) [] := by
    decide +kernel
  obtain ⟨s, hrun, -⟩ := @exists_prologue_run default 0 callOfRet
  have hreach : Reaches (step default blk.code) (.at 0 callOfRet) (.at 22 s) :=
    reaches_of_runSeq (codeAt_prologue hblk) hrun
  obtain ⟨is, hpops, hcode⟩ := codeAt_ret hblk hdec (.inl hop)
  rw [← hstart] at hcode
  obtain ⟨r, hreturn, -⟩ := @PopsReturn.returns default _ _ hpops _ _ hcode s
  have hall := hreach.trans hreturn
  exact ⟨blk, r, hblk, hall, host_state_preserved hblk (aapcs64_default 128) apart_callOfRet hspare hall⟩

end Quantum.Jit
