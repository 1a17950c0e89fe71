import Quantum.Jit.Equiv.ExitMeaning

/-!
# A block does what its instructions mean

A block loads the guest from the context (`loadedGuest`), runs the code of its body, which does what the body
means, and goes on where the guest does behind the terminator.
-/

namespace Quantum.Jit

open A64 StateTransition
open EmitM

variable {p : Profile} {env : Env} {code : List Word}

/-! ### The code of a block -/

/-- The code of a plain block: the prologue, code that does what the body means, and code that goes on behind it. -/
structure PlainCode (body : List Inst) (term : Inst) (blk : Block) where
  bodyCode : List (Option Insn)
  exitCode : List (Option Insn)
  sites : List (Nat × BitVec 64)
  code : blk.code.map decode = prologueInsns ++ (bodyCode ++ exitCode)
  simulates : SimulatesAll body bodyCode
  goesOn : GoesOn term sites exitCode
  cut : term.op.isTerminator = false → sites = []
  patches : blk.chainPatches = sites.map fun q =>
    (BitVec.ofNat 32 (4 * (prologueInsns.length + bodyCode.length + q.1)), q.2)

theorem exists_plainCode {bytes : List Byte} {rip : BitVec 64} {blk : Block}
    (h : translateForDispatcher p bytes rip .long = .ok blk) {body : List Inst} {term : Inst} {rest : List Byte}
    (hdec : decodeLoop true (bytes.length + 1) rip bytes = .ok (body, term, rest))
    (hbody : ∀ inst ∈ body, inst.Plain) (hterm : term.PlainExit ∨ term.op.isTerminator = false) :
    Nonempty (PlainCode body term blk) := by
  obtain ⟨body', term', rest', e₀, e₁, e₂, e₃, patches, hdec', h₀, h₁, h₂, hfin, hcode, hpatches⟩ := block_parts h
  cases hdec.symm.trans hdec'
  obtain ⟨ws₀, rfl, hws₀⟩ := emits_emitPrologue (Q := fun _ is => is = prologueInsns) rfl _ _ _ h₀
  obtain ⟨ws₁, rfl, hsim⟩ := simulates_body hbody _ _ _ h₁
  obtain ⟨ws₂, sites, hfinished, hgo, hcut, rfl⟩ := goesOn_emitTerminator hterm rfl rfl h₂ hfin
  have hlen : ws₀.length = prologueInsns.length := by
    rw [← hws₀, List.length_map]
  refine ⟨⟨ws₁.map decode, ws₂.map decode, sites, ?_, hsim, hgo, hcut, ?_⟩⟩
  · rw [hcode, hfinished]
    simp [Emitter.append, Emitter.new, hws₀]
  · rw [hpatches]
    simp [Emitter.append, Emitter.new, hlen]

/-! ### The guest in the context -/

/-- The slot of a segment base in the context at `ctx`. -/
def segSlot (ctx : BitVec 64) : Seg → BitVec 64
  | .gs => ctx + 144#64
  | .fs => ctx + 152#64

/-- The guest that the context at `ctx` holds. -/
def guestIn (ctx : BitVec 64) (m : ByteMem) : GuestMachine where
  regs r := m.read 64 8 (ctxSlot ctx r)
  mem := m
  seg sg := m.read 64 8 (segSlot ctx sg)

/-- The loads of the guest registers and the segment bases. -/
def loadInsns : List (Option Insn) :=
  reloadInsns GpReg.all ++ [some (loadInsn .b8 24 28 144), some (loadInsn .b8 25 28 152)]

theorem does_loadInsns :
    Does (fun s s' => guestOf s' = guestIn (s.x 28#5) s.mem ∧ hostPointers s' = hostPointers s) loadInsns := by
  intro env pc s
  obtain ⟨s₁, hrun, hmem, hctx, hsp, hguest⟩ := @exists_reload_run env GpReg.all pc s
  refine ⟨(s₁.writeX 24#5 (s.mem.read 64 8 (segSlot (s.x 28#5) .gs))).writeX 25#5
    (s.mem.read 64 8 (segSlot (s.x 28#5) .fs)), ?_, ?_, ?_⟩
  · have h144 : Fits OpSize.b8.bytes 144 := by decide
    have h152 : Fits OpSize.b8.bytes 152 := by decide
    rw [loadInsns, runSeq_append, hrun, Option.bind_some, runSeq_loadInsn h144, runSeq_loadInsn h152, runSeq_nil]
    rw [State.writeX_mem, State.x_writeX, if_neg (by decide), hmem, show s₁.x 28 = s.x 28#5 from hctx]
    rfl
  · have hregs : ∀ r, guest ((s₁.writeX 24#5 (s.mem.read 64 8 (segSlot (s.x 28#5) .gs))).writeX 25#5
        (s.mem.read 64 8 (segSlot (s.x 28#5) .fs))) r = s.mem.read 64 8 (ctxSlot (s.x 28#5) r) := by
      intro r
      have hall : r ∈ GpReg.all := by
        cases r <;> decide
      have hr := hguest r
      rw [if_pos hall] at hr
      rw [← hr]
      cases r <;> rfl
    have hseg : ∀ sg, segBase ((s₁.writeX 24#5 (s.mem.read 64 8 (segSlot (s.x 28#5) .gs))).writeX 25#5
        (s.mem.read 64 8 (segSlot (s.x 28#5) .fs))) sg = s.mem.read 64 8 (segSlot (s.x 28#5) sg) := by
      intro sg
      cases sg <;> simp [segBase, segReg]
    rw [guestOf, guestIn, funext hregs, funext hseg, State.writeX_mem, State.writeX_mem, hmem]
  · rw [hostPointers_writeX _ (by decide), hostPointers_writeX _ (by decide), hostPointers, hctx, hsp]
    rfl

/-! ### Runs of a block -/

/-- A run from `start` with the guest `g` leaves to `next`, with the guest that `s₁` holds. -/
structure PlainCode.RunsOn {body : List Inst} {term : Inst} {blk : Block} (c : PlainCode body term blk) (env : Env)
    (start : Config) (g : GuestMachine) (ptrs : BitVec 64 × BitVec 64) (next : BitVec 64) (s₁ : State) : Prop where
  means : blockMeaning body term g none = some (next, guestOf s₁)
  pointers : hostPointers s₁ = ptrs
  leaves : LeavesTo env blk.code start (prologueInsns.length + c.bodyCode.length) c.sites next s₁

namespace PlainCode

variable {body : List Inst} {term : Inst} {blk : Block} (c : PlainCode body term blk)

theorem codeAt : CodeAt blk.code 0 (prologueInsns ++ (c.bodyCode ++ c.exitCode)) :=
  ⟨[], blk.code, [], (List.append_nil _).symm, rfl, c.code⟩

theorem runsForward (c : PlainCode body term blk) : RunsForward blk.code := by
  rw [RunsForward, c.code]
  intro o ho
  rcases List.mem_append.mp ho with ho | ho
  · obtain ⟨s', hrun, -⟩ := @exists_prologue_run default 0 default
    exact isForward_of_run hrun o ho
  · rcases List.mem_append.mp ho with ho | ho
    · obtain ⟨s', hrun, -⟩ := c.simulates default 0 default
      exact isForward_of_run hrun o ho
    · exact c.goesOn.forward o ho

/-- A placeholder is behind the body. -/
theorem lt_site {q : Nat × BitVec 64} (hq : q ∈ c.sites) :
    prologueInsns.length + c.bodyCode.length < prologueInsns.length + c.bodyCode.length + q.1 :=
  Nat.lt_add_of_pos_right (c.goesOn.within q hq).1

/-- From behind the prologue. -/
theorem runsOn_body (env : Env) (s : State) (hasks : BlockAsksRight body term (guestOf s) none) :
    ∃ next s₁, c.RunsOn env (.at prologueInsns.length s) (guestOf s) (hostPointers s) next s₁ := by
  obtain ⟨hbody, hexit⟩ := c.codeAt.append.2.append
  rw [Nat.zero_add] at hbody hexit
  obtain ⟨t, hrun, hptr, hall⟩ := c.simulates env prologueInsns.length s
  obtain ⟨fl, hexec, hshows⟩ := hall none nofun
  obtain ⟨next, s₁, hgo, hptr₁, hleaves⟩ :=
    c.goesOn.leaves env blk.code _ t fl c.runsForward hexit hshows (hasks _ hexec)
  refine ⟨next, s₁, ?_, hptr₁.trans hptr, ?_⟩
  · rw [blockMeaning, hexec, Option.bind_some, hgo]
  · exact hleaves.after c.runsForward (reaches_of_runSeq hbody hrun) fun q hq => c.lt_site hq

variable {c} in
theorem RunsOn.after {start : Config} {pc : Nat} {s : State} {g : GuestMachine} {ptrs : BitVec 64 × BitVec 64}
    {next : BitVec 64} {s₁ : State} (h : c.RunsOn env (.at pc s) g ptrs next s₁)
    (hpre : Reaches (step env blk.code) start (.at pc s)) (hpc : pc ≤ prologueInsns.length) :
    c.RunsOn env start g ptrs next s₁ := by
  refine ⟨h.means, h.pointers, h.leaves.after c.runsForward hpre fun q hq => ?_⟩
  have hlt := c.lt_site hq
  omega

/-- From the hot entry, behind the frame. -/
theorem runsOn_hot (env : Env) (s : State) (hasks : BlockAsksRight body term (guestIn (s.x 28#5) s.mem) none) :
    ∃ next s₁, c.RunsOn env (.at frameInsns.length s) (guestIn (s.x 28#5) s.mem) (hostPointers s) next s₁ := by
  have hload := c.codeAt.append.1
  rw [prologueInsns] at hload
  have hload := hload.append.2
  rw [Nat.zero_add] at hload
  obtain ⟨t, hrun, hguest, hptr⟩ := does_loadInsns env frameInsns.length s
  rw [← hguest] at hasks
  obtain ⟨next, s₁, h⟩ := c.runsOn_body env t hasks
  rw [hguest, hptr] at h
  exact ⟨next, s₁, h.after (reaches_of_runSeq hload hrun) le_rfl⟩

/-- From the first word. -/
theorem runsOn_cold (env : Env) (s : State)
    (hasks : BlockAsksRight body term (guestIn (s.x 0#5) (framed s).mem) none) :
    ∃ next s₁, c.RunsOn env (.at 0 s) (guestIn (s.x 0#5) (framed s).mem) (s.x 0#5, s.x 31#5 - 48#64) next s₁ := by
  have hframe := c.codeAt.append.1
  rw [prologueInsns] at hframe
  have hrun := @runSeq_frameInsns env 0 s
  have hctx : ((framed s).writeX 28#5 (s.x 0#5)).x 28#5 = s.x 0#5 := by
    rw [State.x_writeX, if_pos ⟨rfl, by decide⟩]
  have hptr : hostPointers ((framed s).writeX 28#5 (s.x 0#5)) = (s.x 0#5, s.x 31#5 - 48#64) := by
    rw [hostPointers, hctx, State.x_writeX, if_neg (by decide), framed_x31]
  have hhot := c.runsOn_hot env ((framed s).writeX 28#5 (s.x 0#5))
  rw [hptr, State.writeX_mem, hctx] at hhot
  obtain ⟨next, s₁, h⟩ := hhot hasks
  have hreach := reaches_of_runSeq hframe.append.1 hrun
  rw [Nat.zero_add] at hreach
  exact ⟨next, s₁, h.after hreach (by decide)⟩

end PlainCode

/-! ### The guest behind an exit -/

/-- A spill writes the slots of the registers only. -/
theorem spill_of_not_slot {s : State} {b : BitVec 64} (hb : ∀ r, ¬ InRange (ctxSlot (s.x 28#5) r) 8 b)
    (rs : List GpReg) (m : ByteMem) : spill s rs m b = m b := by
  induction rs generalizing m with
  | nil => rfl
  | cons r rs ih => rw [spill, ih, ByteMem.write_of_not_inRange (hb r)]

/-- **A block does what its instructions mean.**  Entered with the context in `X0`, it returns with the guest's
next address; the context then holds the registers that the guest has behind the block, and the rest of memory
is the guest's. -/
theorem block_refines {bytes : List Byte} {rip : BitVec 64} {blk : Block}
    (h : translateForDispatcher p bytes rip .long = .ok blk) {body : List Inst} {term : Inst} {rest : List Byte}
    (hdec : decodeLoop true (bytes.length + 1) rip bytes = .ok (body, term, rest))
    (hbody : ∀ inst ∈ body, inst.Plain) (hterm : term.PlainExit ∨ term.op.isTerminator = false) (env : Env) (s : State)
    (hasks : BlockAsksRight body term (guestIn (s.x 0#5) (framed s).mem) none) :
    ∃ next g' r, blockMeaning body term (guestIn (s.x 0#5) (framed s).mem) none = some (next, g') ∧
      Returns env blk.code s r ∧ r.x 0#5 = next ∧
      (∀ q, r.mem.read 64 8 (ctxSlot (s.x 0#5) q) = g'.regs q) ∧
      ∀ b, (∀ q, ¬ InRange (ctxSlot (s.x 0#5) q) 8 b) → r.mem b = g'.mem b := by
  obtain ⟨c⟩ := exists_plainCode h hdec hbody hterm
  obtain ⟨next, s₁, hmeans, hptr, hleaves⟩ := c.runsOn_cold env s hasks
  have hctx : s₁.x 28#5 = s.x 0#5 := congrArg Prod.fst hptr
  refine ⟨next, guestOf s₁, exited s₁ next, hmeans, hleaves.returns, exited_x0 _ _, fun q => ?_, fun b hb => ?_⟩
  · rw [← hctx, exited_slot]
    rfl
  · rw [exited_mem]
    rw [← hctx] at hb
    exact spill_of_not_slot hb _ _

/-- `PUSH RBP; MOV RBP, RSP; ADD RAX, 8; POP RBP; CMP RAX, RCX; JNE -14`. -/
def framedAdd : List Byte :=
  [0x55, 0x48, 0x89, 0xE5, 0x48, 0x83, 0xC0, 0x08, 0x5D, 0x48, 0x39, 0xC8, 0x75, 0xF2]

def framedAddBody : List Inst :=
  [⟨.push, some (.reg .rbp .b8), none, none, 1, 0x1000⟩,
   ⟨.mov, some (.reg .rbp .b8), some (.reg .rsp .b8), none, 3, 0x1001⟩,
   ⟨.add, some (.reg .rax .b8), some (.imm 8 .b1), none, 4, 0x1004⟩,
   ⟨.pop, some (.reg .rbp .b8), none, none, 1, 0x1008⟩,
   ⟨.cmp, some (.reg .rax .b8), some (.reg .rcx .b8), none, 3, 0x1009⟩]

def framedAddTerm : Inst :=
  ⟨.jcc .ne, some (.imm (-14) .b1), none, none, 2, 0x100C⟩

theorem plain_framedAddBody : ∀ inst ∈ framedAddBody, inst.Plain := by
  have himm : (Operand.imm 8 .b1).ImmOk := by
    decide
  refine List.forall_mem_cons.mpr ⟨.push rfl rfl (.inl ⟨_, rfl, by decide⟩), List.forall_mem_cons.mpr
    ⟨.mov rfl rfl rfl ⟨.inr rfl, trivial, rfl⟩, List.forall_mem_cons.mpr ⟨?_, List.forall_mem_cons.mpr
      ⟨.pop rfl rfl (by decide), List.forall_mem_cons.mpr ⟨?_, by simp⟩⟩⟩⟩⟩
  · exact .binary (.inl rfl) rfl rfl ⟨⟨.inr rfl, trivial, trivial⟩, fun _ _ _ => trivial⟩ fun _ => himm
  · exact .compare (.inl rfl) rfl rfl ⟨trivial, trivial, rfl, trivial⟩

/-- The flags of the `CMP`. -/
theorem asksRight_framedAdd (g : GuestMachine) : BlockAsksRight framedAddBody framedAddTerm g none := by
  intro r hr cc hcc
  cases hcc
  cases hr
  exact ⟨_, rfl, FlagSource.answersRight_sub_b8 _ _ ⟨by decide, by decide⟩⟩

theorem block_refines_framedAdd :
    ∃ blk next g' r, translateForDispatcher ⟨true⟩ framedAdd 0x1000 .long = .ok blk ∧
      blockMeaning framedAddBody framedAddTerm (guestIn ((default : State).x 0#5) (framed default).mem) none
        = some (next, g') ∧ Returns default blk.code default r ∧ r.x 0#5 = next := by
  have hok : (translateForDispatcher ⟨true⟩ framedAdd 0x1000 .long).isOk = true := by
    decide +kernel
  obtain ⟨blk, hblk⟩ := exists_of_isOk hok
  have hdec : decodeLoop true (framedAdd.length + 1) 0x1000 framedAdd = .ok (framedAddBody, framedAddTerm, []) := by
    decide +kernel
  obtain ⟨next, g', r, hmeans, hret, hnext, -⟩ := block_refines hblk hdec plain_framedAddBody (.inl (.jcc rfl rfl))
    default default (asksRight_framedAdd _)
  exact ⟨blk, next, g', r, hblk, hmeans, hret, hnext⟩

end Quantum.Jit
