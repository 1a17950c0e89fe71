import Quantum.Jit.Equiv.BodyMeaning
import Quantum.Jit.Equiv.HostState
import Quantum.Jit.Equiv.TwoArms

/-!
# The code behind the body of a block goes on where the guest does

The code of a block runs forward only (`IsForward`), so a run gets to a word in one state (`state_unique`).  The code
of the last instruction leaves the block to where the guest goes on, in that state, and a placeholder is passed on
the way to its own target only (`GoesOn`).
-/

namespace Quantum.Jit

open A64 StateTransition
open EmitM

variable {p : Profile} {env : Env} {code : List Word}

/-! ### Code that runs forward -/

/-- What a plain block is made of: its branches are those at its placeholders, which go on to the next word, and the
one of a `Jcc` to the second exit. -/
def IsForward (o : Option Insn) : Prop :=
  ∀ i, o = some i → i.isLinear = true ∨ i = .b false 1 ∨ i = .ret 30 ∨ ∃ c imm, i = .bCond c imm ∧ 0 < imm.toInt

/-- All words of the code run forward. -/
def RunsForward (code : List Word) : Prop :=
  ∀ o ∈ code.map decode, IsForward o

theorem pc_lt_of_step (hcode : RunsForward code) {pc pc' : Nat} {s s' : State}
    (h : step env code (.at pc s) = some (.at pc' s')) : pc < pc' := by
  simp only [step] at h
  obtain ⟨w, hw, h⟩ := Option.bind_eq_some_iff.mp h
  obtain ⟨i, hi, h⟩ := Option.bind_eq_some_iff.mp h
  rcases hcode _ (List.mem_map_of_mem (List.mem_of_getElem? hw)) i hi with hlin | rfl | rfl | ⟨c, imm, rfl, himm⟩
  · rw [execAt_of_isLinear hlin] at h
    obtain ⟨_, -, heq⟩ := Option.map_eq_some_iff.mp h
    cases heq
    exact Nat.lt_succ_self pc
  · cases h
    exact Nat.lt_succ_self pc
  · cases h
  · obtain ⟨n, hn⟩ : ∃ n : Nat, imm.toInt = n := ⟨imm.toInt.toNat, by omega⟩
    simp only [execAt] at h
    split at h
    · rw [hn, branchTo_natCast] at h
      cases h
      omega
    · cases (branchTo_natCast pc 1).symm.trans h
      exact Nat.lt_succ_self pc

theorem pc_le_of_reaches (hcode : RunsForward code) {pc pc' : Nat} {s s' : State}
    (h : Reaches (step env code) (.at pc s) (.at pc' s')) : pc ≤ pc' ∧ (pc = pc' → s = s') := by
  generalize hc : (Config.at pc s : Config) = c at h
  induction h using Relation.ReflTransGen.head_induction_on generalizing pc s with
  | refl =>
    cases hc
    exact ⟨le_rfl, fun _ => rfl⟩
  | head hstep hrest ih =>
    subst hc
    rename_i c
    cases c with
    | «at» q t =>
      have hlt := pc_lt_of_step hcode hstep
      have hle := (ih rfl).1
      exact ⟨by omega, by omega⟩
    | returned t =>
      rcases Relation.ReflTransGen.cases_head hrest with heq | ⟨d, hd, -⟩
      · cases heq
      · cases hd

/-- A run gets to a word in one state only. -/
theorem state_unique (hcode : RunsForward code) {c : Config} {k : Nat} {s s' : State}
    (h : Reaches (step env code) c (.at k s)) (h' : Reaches (step env code) c (.at k s')) : s = s' := by
  rcases reaches_total h h' with hc | hc
  · exact (pc_le_of_reaches hcode hc).2 rfl
  · exact ((pc_le_of_reaches hcode hc).2 rfl).symm

/-- Nothing comes behind a word that returns. -/
theorem pc_le_of_returned (hcode : RunsForward code) {c : Config} {j k : Nat} {s t r : State}
    (h : Reaches (step env code) c (.at j s)) (hret : step env code (.at j s) = some (.returned r))
    (h' : Reaches (step env code) c (.at k t)) : k ≤ j := by
  rcases reaches_total h h' with hc | hc
  · rcases Relation.ReflTransGen.cases_head hc with heq | ⟨d, hd, hrest⟩
    · cases heq
      exact le_rfl
    · rw [Option.mem_def, hret, Option.some.injEq] at hd
      subst hd
      rcases Relation.ReflTransGen.cases_head hrest with heq | ⟨d, hd, -⟩
      · cases heq
      · cases hd
  · exact (pc_le_of_reaches hcode hc).1

/-- A run that gets behind a word takes the step at the word. -/
theorem reaches_behind {c : Config} {k n : Nat} {s t : State} (hstep : step env code (.at k s) = some c) (hn : 0 < n)
    (h : Reaches (step env code) (.at k s) (.at (k + n) t)) : Reaches (step env code) c (.at (k + n) t) := by
  refine reaches_of_step hstep (fun heq => ?_) h
  injection heq
  omega

theorem isForward_of_run {is : List (Option Insn)} {pc : Nat} {s s' : State} (h : runSeq env pc is s = some s') :
    ∀ o ∈ is, IsForward o := by
  rintro o ho i rfl
  exact .inl (isLinear_of_runSeq h i ho)

/-! ### Exits -/

/-- The state at the placeholder of an exit. -/
def atSite (s : State) : State :=
  { s with mem := spill s GpReg.all s.mem }

/-- A run returns with the target `next`, and with the guest of `s₁`.  It passes the placeholders of `sites`, which
count from the word `k`, only on the way to their targets. -/
structure LeavesTo (env : Env) (code : List Word) (start : Config) (k : Nat) (sites : List (Nat × BitVec 64))
    (next : BitVec 64) (s₁ : State) : Prop where
  returns : Reaches (step env code) start (.returned (exited s₁ next))
  sites : ∀ q ∈ sites, ∀ t, Reaches (step env code) start (.at (k + q.1) t) → q.2 = next ∧ t = atSite s₁

/-- The same run, from before. -/
theorem LeavesTo.after {k pc : Nat} {s : State} {sites : List (Nat × BitVec 64)} {next : BitVec 64} {s₁ : State}
    (hcode : RunsForward code) (h : LeavesTo env code (.at pc s) k sites next s₁) {start : Config}
    (hpre : Reaches (step env code) start (.at pc s)) (hpc : ∀ q ∈ sites, pc < k + q.1) :
    LeavesTo env code start k sites next s₁ where
  returns := hpre.trans h.returns
  sites q hq t ht := by
    rcases reaches_total hpre ht with hc | hc
    · exact h.sites q hq t hc
    · have hle := (pc_le_of_reaches hcode hc).1
      have hlt := hpc q hq
      omega

/-- The code leaves the block to where the guest goes on behind `term`, and in that state.  The placeholders of
`sites` count from its first word. -/
structure GoesOn (term : Inst) (sites : List (Nat × BitVec 64)) (is : List (Option Insn)) : Prop where
  forward : ∀ o ∈ is, IsForward o
  within : ∀ q ∈ sites, 0 < q.1 ∧ q.1 < is.length
  leaves : ∀ env code k s fl, RunsForward code → CodeAt code k is → Shows fl s.nzcv → term.AsksRight fl →
    ∃ next s₁, exitMeaning term fl (guestOf s) = some (next, guestOf s₁) ∧ hostPointers s₁ = hostPointers s ∧
      LeavesTo env code (.at k s) k sites next s₁

/-- The last instruction of an exit. -/
theorem returned_of_ret {k : Nat} {s : State} (h : (code[k]?).map decode = some (some (.ret 30))) :
    step env code (.at k s) = some (.returned s) := by
  rw [step_of_some h]
  rfl

theorem isForward_ret : IsForward (some (.ret 30)) :=
  fun _ hi => .inr (.inr (.inl (Option.some.inj hi).symm))

/-- An exit without a placeholder, behind code that leaves the guest as it goes on. -/
theorem goesOn_exit {term : Inst} {js set : List (Option Insn)} (next : State → BitVec 64)
    (hjs : Does (fun s s' => (∀ fl, exitMeaning term fl (guestOf s) = some (next s', guestOf s')) ∧
      hostPointers s' = hostPointers s) js)
    (hset : ∀ env pc s, runSeq env pc (exitInsns set) s = some (exited s (next s))) :
    GoesOn term [] (js ++ exitInsns set ++ [some (.ret 30)]) where
  forward o ho := by
    obtain ⟨s₁, hrun, -⟩ := hjs default 0 default
    have hall : runSeq default 0 (js ++ exitInsns set) default = some (exited s₁ (next s₁)) := by
      rw [runSeq_append, hrun, Option.bind_some, hset]
    rcases List.mem_append.mp ho with ho | ho
    · exact isForward_of_run hall o ho
    · rw [List.mem_singleton.mp ho]
      exact isForward_ret
  within := by simp
  leaves env code k s fl _ hc _ _ := by
    obtain ⟨s₁, hrun, hgo, hptr⟩ := hjs env k s
    obtain ⟨hbody, hlast⟩ := hc.append
    have hall : runSeq env k (js ++ exitInsns set) s = some (exited s₁ (next s₁)) := by
      rw [runSeq_append, hrun, Option.bind_some, hset]
    refine ⟨next s₁, s₁, hgo fl, hptr, (reaches_of_runSeq hbody hall).tail ?_, by simp⟩
    exact returned_of_ret hlast.cons.1

/-! ### Exits with a placeholder -/

section Chain

variable {target : BitVec 64} {spill back : List Word} {last : Word}

theorem ExitWords.decoded (hw : ExitWords target spill back last) : ∃ set, LoadsConst 0#5 target set ∧
    (exitCode spill back last).map decode
      = spillInsns GpReg.all ++ some (.b false 1) :: ((set ++ epilogueInsns) ++ [some (.ret 30)]) := by
  obtain ⟨set, hset, hback⟩ := hw.leaves
  have hplaceholder : decode 0x14000001#32 = some (.b false 1) := by
    decide
  refine ⟨set, hset, ?_⟩
  rw [exitCode, List.map_append, List.map_cons, List.map_append, List.map_singleton, hw.spills, hback, hw.returns,
    hplaceholder]

theorem runSeq_leave {set : List (Option Insn)} (hset : LoadsConst 0#5 target set) (env : Env) (pc : Nat) (s : State) :
    runSeq env pc (set ++ epilogueInsns) (atSite s) = some (exited s target) := by
  rw [runSeq_append, hset.run, Option.bind_some, runSeq_epilogueInsns]
  rfl

theorem ExitWords.isForward (hw : ExitWords target spill back last) :
    ∀ o ∈ (exitCode spill back last).map decode, IsForward o := by
  obtain ⟨set, hset, hcode⟩ := hw.decoded
  rw [hcode]
  intro o ho
  rcases List.mem_append.mp ho with ho | ho
  · have hspill : runSeq default 0 (spillInsns GpReg.all) default = some (atSite default) :=
      runSeq_spillInsns _ 0 default _
    exact isForward_of_run hspill o ho
  · rcases List.mem_cons.mp ho with rfl | ho
    · exact fun i hi => .inr (.inl (Option.some.inj hi).symm)
    · rcases List.mem_append.mp ho with ho | ho
      · exact isForward_of_run (runSeq_leave hset default 0 default) o ho
      · rw [List.mem_singleton.mp ho]
        exact isForward_ret

theorem ExitWords.long (hw : ExitWords target spill back last) : 17 < (exitCode spill back last).length := by
  rw [exitCode, List.length_append, hw.spill_length, List.length_cons, List.length_append, List.length_singleton]
  omega

/-- A run of an exit: through the placeholder, and to the `RET` that is its last word. -/
theorem ExitWords.run (hw : ExitWords target spill back last) {k : Nat}
    (hc : CodeAt code k ((exitCode spill back last).map decode)) (env : Env) (s : State) :
    Reaches (step env code) (.at k s) (.at (k + 16) (atSite s)) ∧
      ∃ j, j + 1 = k + (exitCode spill back last).length ∧ k + 16 < j ∧
        Reaches (step env code) (.at k s) (.at j (exited s target)) ∧
        step env code (.at j (exited s target)) = some (.returned (exited s target)) := by
  obtain ⟨set, hset, hcode⟩ := hw.decoded
  have hlen := congrArg List.length hcode
  have h16 : (spillInsns GpReg.all).length = 16 := rfl
  rw [hcode] at hc
  obtain ⟨hstores, hrest⟩ := hc.append
  obtain ⟨hb, hrest⟩ := hrest.cons
  obtain ⟨hpops, hlast⟩ := hrest.append
  rw [h16] at hb hpops hlast
  have hspill : runSeq env k (spillInsns GpReg.all) s = some (atSite s) := runSeq_spillInsns _ k s s.mem
  have hsite := reaches_of_runSeq hstores hspill
  rw [h16] at hsite
  have hstep : step env code (.at (k + 16) (atSite s)) = some (.at (k + 16 + 1) (atSite s)) := by
    rw [step_of_some hb]
    rfl
  refine ⟨hsite, k + 16 + 1 + (set ++ epilogueInsns).length, ?_, by omega, ?_, returned_of_ret hlast.cons.1⟩
  · simp only [List.length_map, List.length_append, List.length_cons, List.length_nil] at hlen h16 ⊢
    omega
  · exact (hsite.tail hstep).trans (reaches_of_runSeq hpops (runSeq_leave hset env _ s))

/-- The exit alone. -/
theorem ExitWords.leavesTo (hw : ExitWords target spill back last) {k : Nat} (hcode : RunsForward code)
    (hc : CodeAt code k ((exitCode spill back last).map decode)) (env : Env) (s : State) :
    LeavesTo env code (.at k s) k [(16, target)] target s := by
  obtain ⟨hsite, j, -, -, hreach, hret⟩ := hw.run hc env s
  refine ⟨hreach.tail hret, ?_⟩
  rw [List.forall_mem_singleton]
  exact fun t ht => ⟨rfl, state_unique hcode ht hsite⟩

/-- An exit with a placeholder, from which the guest goes on as it is. -/
theorem goesOn_chain {term : Inst} (hw : ExitWords target spill back last)
    (hgo : ∀ fl g, exitMeaning term fl g = some (target, g)) :
    GoesOn term [(16, target)] ((exitCode spill back last).map decode) where
  forward := hw.isForward
  within := by
    have hlong := hw.long
    rw [List.forall_mem_singleton, List.length_map]
    omega
  leaves env code k s fl hcode hc _ _ := ⟨target, s, hgo _ _, rfl, hw.leavesTo hcode hc env s⟩

end Chain

/-! ### Terminators -/

theorem exitMeaning_of_terminator {term : Inst} (h : term.op.isTerminator = true) (fl : Option FlagSource)
    (g : GuestMachine) : exitMeaning term fl g = term.goOn fl g :=
  if_pos h

/-- The word on top of the stack, in `X16`, and the stack pointer moved past it. -/
theorem goesOn_emitRet {term : Inst} {extra : BitVec 32}
    (hgo : ∀ fl g, exitMeaning term fl g = some (g.pop.1, g.setReg .rsp (g.regs .rsp + (8 + extra).setWidth 64))) :
    Emits p (emitRet extra) fun _ is => GoesOn term [] is := by
  refine Emits.bind (emits_ldr64 (fits_zero .b8) (Emits.bind (emits_add64Imm fun sh i hv =>
    emits_emitEpilogueX16 ?_)))
  rw [← List.append_assoc, ← List.append_assoc]
  refine goesOn_exit (fun s => s.x 16#5) ?_ fun env pc s => runSeq_exit_x16 pc s
  intro env pc s
  refine ⟨(s.writeX 16#5 (s.mem.read 64 8 (guest s .rsp))).writeX (hostReg .rsp)
    (guest s .rsp + (8 + extra).setWidth 64), ?_, fun fl => ?_, ?_⟩
  · rw [List.singleton_append, runSeq_loadInsn (fits_zero .b8), runSeq_add64Imm hv, runSeq_nil]
    refine congrArg some ((writeXsp_19 _ _).trans ?_)
    simp [guest, hostReg, OpSize.bytes]
  · rw [hgo, guestOf_writeX_hostReg, guestOf_writeX_16, State.x_writeX, if_neg (by decide)]
    simp [GuestMachine.pop, guestOf]
  · rw [hostPointers_writeX_hostReg, hostPointers_writeX_16]

theorem goesOn_call {term : Inst} {rel : BitVec 64} {size : OpSize} (hop : term.op = .call)
    (h0 : term.operand0 = some (.imm rel size)) :
    Emits p (emitTerminator term) fun patches is => patches = [] ∧ GoesOn term [] is := by
  rw [emitTerminator, hop]
  unfold branchRel
  rw [h0]
  refine Emits.bind (Emits.pure (Emits.bind (emits_sub64Imm fun sh i hv => Emits.bind (emits_loadConst64
    (by decide) _ fun is hl => Emits.bind (emits_str64 (fits_zero .b8)
      (Emits.bind (emits_emitEpilogueConstRip fun set hset => Emits.pure ⟨rfl, ?_⟩)))))))
  rw [List.append_nil, List.nil_append, ← List.append_assoc, ← List.append_assoc, ← List.append_assoc]
  refine goesOn_exit (fun _ => term.nextRip + rel) ?_ fun env pc s => runSeq_exit_const hset pc s
  have hset : Sets 16#5 (fun _ => term.nextRip) is := hl.run
  rw [List.append_assoc]
  refine ((does_sub64Imm hv).append (hset.does.append (does_str64 16))).mono ?_
  rintro s s' ⟨t, rfl, t', rfl, rfl⟩
  rw [writeXsp_19]
  have hctx := (hostPointers_writeX_16 _ term.nextRip).trans
    (hostPointers_writeX_hostReg s .rsp (guest s .rsp - 8#64))
  refine ⟨fun fl => ?_, hctx⟩
  have hterm : term.op.isTerminator = true := by
    rw [hop]
    rfl
  have hpushed : ∀ t : State, guestOf t = (guestOf s).setReg .rsp (guest s .rsp - 8#64) → t.readX 16 = term.nextRip →
      exitMeaning term fl (guestOf s) = some (term.nextRip + rel,
        guestOf { t with mem := t.mem.write 8 (guest t .rsp) (t.readX 16) }) := by
    intro t hguest hval
    rw [guestOf_pushed hguest hval, exitMeaning_of_terminator hterm, goOn_call _ _ hop h0]
  refine hpushed _ ?_ ?_
  · rw [guestOf_writeX_16, guestOf_writeX_hostReg]
  · rw [State.readX_of_ne _ _ (by decide)]
    simp

theorem goesOn_jmpReg {term : Inst} {r : GpReg} (hop : term.op = .jmpIndirect)
    (h0 : term.operand0 = some (.reg r .b8)) :
    Emits p (emitTerminator term) fun patches is => patches = [] ∧ GoesOn term [] is := by
  rw [emitTerminator, hop]
  unfold emitIndirectTarget
  rw [h0]
  refine Emits.bind (Emits.bind (Emits.pure (emits_mov64 (Emits.bind (emits_emitEpilogueX16
    (Emits.pure ⟨rfl, ?_⟩))))))
  rw [List.append_nil, List.nil_append, ← List.append_assoc]
  refine goesOn_exit (fun s => s.x 16#5) ?_ fun env pc s => runSeq_exit_x16 pc s
  intro env pc s
  refine ⟨s.writeX 16#5 (guest s r), ?_, fun fl => ?_, hostPointers_writeX_16 _ _⟩
  · rw [runSeq_mov64, runSeq_nil, readX_hostReg]
    rfl
  · rw [exitMeaning_of_terminator (by rw [hop]; rfl), goOn_jmpIndirect _ _ hop h0, guestOf_writeX_16]
    simp [GuestMachine.value, guestOf, OpSize.zeroExtended_b8]

theorem goesOn_jmpMem {term : Inst} {m : Operand} (hop : term.op = .jmpIndirect) (h0 : term.operand0 = some m)
    (hmem : m.isMem = true) (hsize : m.memSize = .b8) (hfit : Fits 8 m.leftover) :
    Emits p (emitTerminator term) fun patches is => patches = [] ∧ GoesOn term [] is := by
  have hload : Emits p (emitIndirectTarget term) fun _ is =>
      Does (fun s s' => (∀ fl, exitMeaning term fl (guestOf s) = some (s'.x 16#5, guestOf s')) ∧
        hostPointers s' = hostPointers s) is := by
    have hreg : ∀ r size, m ≠ .reg r size := by
      rintro r size rfl
      cases hmem
    refine (emits_emitIndirectTarget_mem h0 hreg).mono fun _ is hcode => ?_
    obtain ⟨is₀, ha, rfl⟩ := hcode
    have hfit' : Fits OpSize.b8.bytes m.leftover := hfit
    have hdec : decode (pointerLoad 3 8 m) = some (loadInsn .b8 16 16 m.leftover) :=
      decode_ldstScaled (by decide) hfit
    rw [hdec]
    intro env pc s
    obtain ⟨t, hrun, haddr, hguest, hptr⟩ := ha.does env pc s
    have hmemory : t.mem = s.mem := congrArg GuestMachine.mem hguest
    refine ⟨t.writeX 16#5 (memValue term s .b8 m), ?_, fun fl => ?_, (hostPointers_writeX_16 _ _).trans hptr⟩
    · rw [runSeq_append, hrun, Option.bind_some, runSeq_loadInsn hfit', runSeq_nil]
      have haddr' : t.x 16 + m.leftover.setWidth 64 = effectiveAddress term s m := by
        rw [show t.x 16 = t.x 16#5 from rfl, haddr, BitVec.sub_add_cancel]
      rw [haddr', hmemory]
      rfl
    · have hvalue : (guestOf s).value term m = memValue term s .b8 m := by
        rw [value_of_isMem hmem, hsize]
      rw [exitMeaning_of_terminator (by rw [hop]; rfl), goOn_jmpIndirect _ _ hop h0, guestOf_writeX_16, hguest,
        hvalue]
      simp
  rw [emitTerminator, hop]
  refine Emits.bind (hload.mono fun _ is hdo => Emits.bind (emits_emitEpilogueX16 (Emits.pure ⟨rfl, ?_⟩)))
  rw [List.append_nil, ← List.append_assoc]
  exact goesOn_exit (fun s => s.x 16#5) hdo fun env pc s => runSeq_exit_x16 pc s

theorem goesOn_ret {term : Inst} (hop : term.op = .ret) :
    Emits p (emitTerminator term) fun patches is => patches = [] ∧ GoesOn term [] is := by
  rw [emitTerminator, hop]
  have hterm : term.op.isTerminator = true := by
    rw [hop]
    rfl
  have hgo : ∀ fl g, exitMeaning term fl g = some (g.pop.1, g.setReg .rsp (g.regs .rsp + (8 + 0#32).setWidth 64)) :=
    fun fl g => (exitMeaning_of_terminator hterm fl g).trans (goOn_ret fl g hop)
  refine Emits.bind ((goesOn_emitRet hgo).mono fun _ is h => Emits.pure ⟨rfl, ?_⟩)
  rwa [List.append_nil]

theorem goesOn_retImm {term : Inst} {n : BitVec 64} {size : OpSize} (hop : term.op = .retImm)
    (h0 : term.operand0 = some (.imm n size)) (hn : n.toNat < 65536) :
    Emits p (emitTerminator term) fun patches is => patches = [] ∧ GoesOn term [] is := by
  -- the sum is formed in 32 bits
  have hsum : (8#32 + n.setWidth 32).setWidth 64 = 8#64 + n := by
    apply BitVec.eq_of_toNat_eq
    simp only [BitVec.toNat_setWidth, BitVec.toNat_add, BitVec.toNat_ofNat]
    omega
  rw [emitTerminator, hop]
  unfold branchRel
  rw [h0]
  have hgo : ∀ fl g, exitMeaning term fl g = some (g.pop.1,
      g.setReg .rsp (g.regs .rsp + (8#32 + n.setWidth 32).setWidth 64)) := by
    intro fl g
    rw [exitMeaning_of_terminator (by rw [hop]; rfl), goOn_retImm _ _ hop h0, hsum]
    simp [GuestMachine.pop, GuestMachine.setReg, BitVec.add_assoc]
  refine Emits.bind (Emits.pure (Emits.bind ((goesOn_emitRet hgo).mono fun _ is h => Emits.pure ⟨rfl, ?_⟩)))
  rwa [List.append_nil]

theorem goesOn_stop {term : Inst} (h : term.op.isTerminator = false) :
    Emits p (emitTerminator term) fun patches is => patches = [] ∧ GoesOn term [] is := by
  have hstop : emitTerminator term = (do emitEpilogueConstRip STOP_SENTINEL; pure []) := by
    unfold emitTerminator
    split
    case h_1 | h_8 => rfl
    all_goals
      rename_i hop
      rw [hop] at h
      cases h
  rw [hstop]
  refine Emits.bind (emits_emitEpilogueConstRip fun set hset => Emits.pure ⟨rfl, ?_⟩)
  rw [List.append_nil]
  have hgo : Does (fun s s' => (∀ fl, exitMeaning term fl (guestOf s) = some (STOP_SENTINEL, guestOf s')) ∧
      hostPointers s' = hostPointers s) [] := by
    intro env pc s
    refine ⟨s, rfl, fun fl => ?_, rfl⟩
    rw [exitMeaning, h]
    rfl
  exact goesOn_exit (fun _ => STOP_SENTINEL) hgo fun env pc s => runSeq_exit_const hset pc s

/-! ### Conditional jumps -/

/-- The code of a `Jcc` and its placeholders: a branch over the exit to the next instruction, and the exit to the
target. -/
inductive JccCode (term : Inst) (cc : Cond) : List Word → List (Nat × BitVec 64) → Prop where
  | intro {rel : BitVec 64} {size : OpSize} {c : A64.Cond} {imm : BitVec 19} {w last last' : Word}
    {spill back spill' back' : List Word} (h0 : term.operand0 = some (.imm rel size))
    (hc : condX86ToA64 cc = some c) (hw : ExitWords term.nextRip spill back last)
    (hw' : ExitWords (term.nextRip + rel) spill' back' last') (hdecode : decode w = some (.bCond c imm))
    (himm : imm.toInt = (1 + (exitCode spill back last).length : Nat)) :
    JccCode term cc (w :: (exitCode spill back last ++ exitCode spill' back' last'))
      [(1 + 16, term.nextRip), (1 + (exitCode spill back last).length + 16, term.nextRip + rel)]

section Jcc

variable {spill back spill' back' : List Word} {last last' : Word} {c : A64.Cond} {imm : BitVec 19}

/-- A branch over an exit to another. -/
theorem goesOn_jcc {term : Inst} {cc : Cond} {rel : BitVec 64} {size : OpSize} (hop : term.op = .jcc cc)
    (h0 : term.operand0 = some (.imm rel size)) (hc : condX86ToA64 cc = some c)
    (hw : ExitWords term.nextRip spill back last) (hw' : ExitWords (term.nextRip + rel) spill' back' last')
    (himm : imm.toInt = (1 + (exitCode spill back last).length : Nat)) :
    GoesOn term [(1 + 16, term.nextRip), (1 + (exitCode spill back last).length + 16, term.nextRip + rel)]
      (some (.bCond c imm) ::
        ((exitCode spill back last).map decode ++ (exitCode spill' back' last').map decode)) where
  forward := by
    refine List.forall_mem_cons.mpr ⟨fun i hi => ?_, fun o ho => ?_⟩
    · exact .inr (.inr (.inr ⟨c, imm, (Option.some.inj hi).symm, by omega⟩))
    · exact (List.mem_append.mp ho).elim (hw.isForward o) (hw'.isForward o)
  within := by
    have hlong := hw.long
    have hlong' := hw'.long
    rw [List.forall_mem_cons, List.forall_mem_singleton]
    simp only [List.length_cons, List.length_append, List.length_map]
    omega
  leaves env code k s fl hcode hat hfl hasks := by
    obtain ⟨hb, hrest⟩ := hat.cons
    obtain ⟨hnext, htaken⟩ := hrest.append
    rw [List.length_map] at htaken
    obtain ⟨f, hf, hright⟩ := hasks cc hop
    have hanswer := hright.answer_eq
    rw [hc, Option.any_some, ← hfl f hf] at hanswer
    have hgo : exitMeaning term fl (guestOf s)
        = some (if c.holds s.nzcv then term.nextRip + rel else term.nextRip, guestOf s) := by
      rw [exitMeaning_of_terminator (by rw [hop]; rfl), hf, goOn_jcc _ hop h0 hanswer]
    have hstep : step env code (.at k s) = some (.at (if c.holds s.nzcv then
        k + (1 + (exitCode spill back last).length) else k + 1) s) := step_choose hb himm
    have hlong := hw.long
    by_cases hholds : c.holds s.nzcv = true
    · rw [if_pos hholds] at hgo hstep
      rw [Nat.add_assoc] at htaken
      have hleaves := hw'.leavesTo hcode htaken env s
      refine ⟨_, s, hgo, rfl, .head hstep hleaves.returns, ?_⟩
      rw [List.forall_mem_cons, List.forall_mem_singleton]
      refine ⟨fun t ht => ?_, fun t ht => ?_⟩
      · have hle := (pc_le_of_reaches hcode (reaches_behind hstep (by omega) ht)).1
        omega
      · refine hleaves.sites _ (List.mem_singleton_self _) t ?_
        rw [Nat.add_assoc]
        exact reaches_behind hstep (by omega) ht
    · rw [if_neg hholds] at hgo hstep
      have hleaves := hw.leavesTo hcode hnext env s
      obtain ⟨-, j, hj, -, hreach, hret⟩ := hw.run hnext env s
      refine ⟨_, s, hgo, rfl, .head hstep hleaves.returns, ?_⟩
      rw [List.forall_mem_cons, List.forall_mem_singleton]
      refine ⟨fun t ht => ?_, fun t ht => ?_⟩
      · refine hleaves.sites _ (List.mem_singleton_self _) t ?_
        rw [Nat.add_assoc]
        exact reaches_behind hstep (by omega) ht
      · -- the first exit returns before it
        have hle := pc_le_of_returned hcode hreach hret (reaches_behind hstep (by omega) ht)
        omega

/-- The emitted code of a `Jcc`, with its branch patched. -/
theorem exists_jccCode {term : Inst} {cc : Cond} (hop : term.op = .jcc cc) {e e' e₃ : Emitter} {u : Unit}
    {patches : List (BitVec 32 × BitVec 64)} (hlabels : e.labels = []) (hfixups : e.fixups = [])
    (hrun : emitTerminator term p e = .ok (patches, e')) (hfin : e'.finish = (.ok u, e₃)) :
    ∃ ws sites, e₃.code = e.code ++ ws ∧ JccCode term cc ws sites ∧
      patches = sites.map fun q => (BitVec.ofNat 32 (4 * (e.code.length + q.1)), q.2) := by
  obtain ⟨rel, size, c, spill, back, last, spill', back', last', h0, hc, hw, hw', rfl, rfl, -⟩ :=
    emitTerminator_jcc hop hrun
  obtain ⟨code, labels, fixups⟩ := e
  obtain rfl : labels = [] := hlabels
  obtain rfl : fixups = [] := hfixups
  have hshape : (bindHere ((jccBranch ⟨code, [], []⟩ c).append (exitCode spill back last)) 0).append
      (exitCode spill' back' last') =
      ⟨code ++ (Branch.bCond c).base :: (exitCode spill back last ++ exitCode spill' back' last'),
        [some (code.length + (1 + (exitCode spill back last).length))], [⟨code.length, .branch19, 0⟩]⟩ := by
    simp [bindHere, jccBranch, Emitter.append, Branch.base, Nat.add_comm 1]
  rw [show ([] : List (Option Nat)).length = 0 from rfl, hshape] at hfin
  have hbase : (code ++ (Branch.bCond c).base :: (exitCode spill back last ++ exitCode spill' back' last')).getD
      code.length 0 = (Branch.bCond c).base := by
    simp
  have hloop := congrArg Prod.fst hfin
  have hcode := congrArg (fun q => q.2.code) hfin
  dsimp only [Emitter.finish] at hloop hcode
  simp only [Emitter.finishLoop, List.getElem?_cons_zero, Option.join_some, hbase] at hloop hcode
  split at hloop
  · cases hloop
  · rename_i w hw₁
    rw [hw₁] at hcode
    dsimp only at hcode
    obtain ⟨imm, hdecode, himm⟩ : ∃ imm : BitVec 19, decode w = some (.bCond c imm) ∧
        (code.length : Int) + imm.toInt = (code.length + (1 + (exitCode spill back last).length) : Nat) :=
      Branch.leadsTo_of_patched hw₁
    refine ⟨_, _, ?_, .intro h0 hc hw hw' hdecode (by omega), ?_⟩
    · rw [← hcode]
      simp
    · simp [Nat.add_assoc]

theorem JccCode.goesOn {term : Inst} {cc : Cond} {ws : List Word} {sites : List (Nat × BitVec 64)}
    (hop : term.op = .jcc cc) (h : JccCode term cc ws sites) : GoesOn term sites (ws.map decode) := by
  obtain ⟨h0, hc, hw, hw', hdecode, himm⟩ := h
  rw [List.map_cons, hdecode, List.map_append]
  exact goesOn_jcc hop h0 hc hw hw' himm

/-- The code returns the address of the exit that the branch chooses. -/
theorem JccCode.returns {term : Inst} {cc : Cond} {ws : List Word} {sites : List (Nat × BitVec 64)}
    (h : JccCode term cc ws sites) : ∃ rel size c, term.operand0 = some (.imm rel size) ∧
      condX86ToA64 cc = some c ∧ ∀ env s,
        Returns env ws s (exited s (if c.holds s.nzcv then term.nextRip + rel else term.nextRip)) := by
  have hcode : CodeAt ws 0 (ws.map decode) := ⟨[], ws, [], by simp, rfl, rfl⟩
  obtain ⟨h0, hc, hw, hw', hdecode, himm⟩ := h
  refine ⟨_, _, _, h0, hc, fun env s => ?_⟩
  rw [List.map_cons, hdecode, List.map_append] at hcode
  obtain ⟨hb, hrest⟩ := hcode.cons
  obtain ⟨hnext, htaken⟩ := hrest.append
  rw [List.length_map] at htaken
  have hstep : step env _ (.at 0 s) = some _ := step_choose hb himm
  split_ifs at hstep ⊢ with hholds
  · obtain ⟨-, j, -, -, hreach, hret⟩ := hw'.run htaken env s
    rw [Nat.add_assoc] at hreach
    exact .head hstep (hreach.tail hret)
  · obtain ⟨-, j, -, -, hreach, hret⟩ := hw.run hnext env s
    exact .head hstep (hreach.tail hret)

end Jcc

/-- The code of the last instruction, behind the words of `e`. -/
theorem goesOn_emitTerminator {term : Inst} (h : term.PlainExit ∨ term.op.isTerminator = false) {e e' e₃ : Emitter}
    {u : Unit} {patches : List (BitVec 32 × BitVec 64)} (hlabels : e.labels = []) (hfixups : e.fixups = [])
    (hrun : emitTerminator term p e = .ok (patches, e')) (hfin : e'.finish = (.ok u, e₃)) :
    ∃ ws sites, e₃.code = e.code ++ ws ∧ GoesOn term sites (ws.map decode) ∧
      (term.op.isTerminator = false → sites = []) ∧
      patches = sites.map fun q => (BitVec.ofNat 32 (4 * (e.code.length + q.1)), q.2) := by
  have hfinish : ∀ ws, e' = e.append ws → e₃.code = e.code ++ ws := by
    rintro ws rfl
    have hcode := congrArg (fun q => q.2.code) hfin
    dsimp only [Emitter.finish, Emitter.append] at hcode
    rw [hfixups] at hcode
    exact hcode.symm
  have hother : (Emits p (emitTerminator term) fun patches is => patches = [] ∧ GoesOn term [] is) →
      ∃ ws sites, e₃.code = e.code ++ ws ∧ GoesOn term sites (ws.map decode) ∧
        (term.op.isTerminator = false → sites = []) ∧
        patches = sites.map fun q => (BitVec.ofNat 32 (4 * (e.code.length + q.1)), q.2) := by
    intro hemits
    obtain ⟨ws, happ, rfl, hgo⟩ := hemits _ _ _ hrun
    exact ⟨ws, [], hfinish ws happ, hgo, fun _ => rfl, rfl⟩
  rcases h with hexit | hstop
  · have hterm := hexit.terminator
    have hnever : ∀ sites : List (Nat × BitVec 64), term.op.isTerminator = false → sites = [] :=
      fun _ h => absurd (hterm.symm.trans h) (by decide)
    cases hexit with
    | jmp hop h0 =>
      obtain ⟨rel, size, spill, back, last, h0, hw, happ, rfl⟩ := emitTerminator_jmp hop hrun
      have hgo : ∀ fl g, exitMeaning term fl g = some (term.nextRip + rel, g) :=
        fun fl g => (exitMeaning_of_terminator hterm fl g).trans (goOn_jmp fl g hop h0)
      exact ⟨_, _, hfinish _ happ, goesOn_chain hw hgo, hnever _, rfl⟩
    | jcc hop =>
      obtain ⟨ws, sites, hcode, hjcc, rfl⟩ := exists_jccCode hop hlabels hfixups hrun hfin
      exact ⟨ws, sites, hcode, hjcc.goesOn hop, hnever _, rfl⟩
    | call hop h0 => exact hother (goesOn_call hop h0)
    | jmpReg hop h0 => exact hother (goesOn_jmpReg hop h0)
    | jmpMem hop h0 hmem hsize hfit => exact hother (goesOn_jmpMem hop h0 hmem hsize hfit)
    | ret hop => exact hother (goesOn_ret hop)
    | retImm hop h0 hn => exact hother (goesOn_retImm hop h0 hn)
  · exact hother (goesOn_stop hstop)

end Quantum.Jit
