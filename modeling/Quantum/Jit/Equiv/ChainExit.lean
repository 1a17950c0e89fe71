import Quantum.Jit.Equiv.BlockParts
import Quantum.Jit.Equiv.Labels
import Quantum.Jit.Equiv.Straight

/-!
# Exits with a placeholder

The code of a `JMP` and of a `Jcc`, word by word.  An exit has a placeholder behind the spill of the guest
registers; in the finished code every run that gets to the placeholder has gone through the spill, and what
is behind it returns the target (`SiteAt`).  `exists_termSites` finds the placeholders of a terminator.
-/

namespace Quantum.Jit

open A64 StateTransition
open EmitM

variable {ε : Type} {p : Profile}

/-! ### Placeholders -/

/-- Every guest register is in its slot of the context. -/
def Spilled (s : State) : Prop :=
  ∀ r, s.mem.read 64 8 (ctxSlot (s.x 28#5) r) = guest s r

/-- Word `k` of the code is a placeholder with the spill before it, which every run that gets there has
gone through, and after it an exit to the target that leaves memory alone. -/
structure SiteAt (code : List Word) (k : Nat) (target : BitVec 64) : Prop where
  word : code[k]? = some 0x14000001#32
  spill : ∃ j, j + 16 = k ∧ CodeAt code j (spillInsns GpReg.all)
  spilled : ∀ env s s', Reaches (step env code) (.at 0 s) (.at k s') → Spilled s'
  exits : ∀ env s, ∃ r, Reaches (step env code) (.at k s) (.returned r) ∧ r.x 0#5 = target ∧
    r.mem = s.mem

/-- The targets that a terminator knows. -/
def Inst.chainTargets (term : Inst) : List (BitVec 64) :=
  match term.op, term.operand0 with
  | .jmp, some (.imm rel _) => [term.nextRip + rel]
  | .jcc _, some (.imm rel _) => [term.nextRip, term.nextRip + rel]
  | _, _ => []

/-- The number of words that `m` writes on its own. -/
def emittedWords {α : Type} (p : Profile) (m : EmitM ε α) : Nat :=
  match m p Emitter.new with
  | .ok (_, e) => e.code.length
  | .error _ => 0

/-- The word at which the last placeholder of a block stands whose terminator is behind `n` words. -/
def lastSite (p : Profile) (term : Inst) (n : Nat) : Nat :=
  match term.op with
  | .jmp => n + 16
  | .jcc _ => n + 1 + emittedWords p (emitChainExit term.nextRip : EmitM BlockError _) + 16
  | _ => 0

/-! ### The words of an exit -/

theorem Emitter.length_bytes (e : Emitter) : e.bytes.length = 4 * e.code.length := by
  unfold Emitter.bytes
  induction e.code with
  | nil => rfl
  | cons w ws ih =>
    rw [List.flatMap_cons, List.length_append, ih, List.length_cons, Emitter.leBytes]
    simp only [List.length_cons, List.length_nil]
    omega

/-- The words of an exit to `target`: the spill, what is behind the placeholder, and the return. -/
structure ExitWords (target : BitVec 64) (spill back : List Word) (last : Word) : Prop where
  spills : spill.map decode = spillInsns GpReg.all
  leaves : ∃ set, LoadsConst 0#5 target set ∧ back.map decode = set ++ epilogueInsns
  short : back.length ≤ 8
  returns : decode last = some (.ret 30)

/-- All of them. -/
def exitCode (spill back : List Word) (last : Word) : List Word :=
  spill ++ 0x14000001#32 :: (back ++ [last])

theorem length_of_decode {ws : List Word} {is : List (Option Insn)} {n : Nat} (h : ws.map decode = is)
    (hn : is.length = n) : ws.length = n := by
  rw [← hn, ← h, List.length_map]

theorem ExitWords.spill_length {target : BitVec 64} {spill back : List Word} {last : Word}
    (h : ExitWords target spill back last) : spill.length = 16 :=
  length_of_decode h.spills rfl

theorem exists_exitWords (p : Profile) (target : BitVec 64) :
    ∃ spill back last, ExitWords target spill back last ∧ ∀ e : Emitter,
      (emitChainExit target : EmitM ε _) p e
        = .ok ((BitVec.ofNat 32 (4 * (e.code.length + 16)), target), e.append (exitCode spill back last)) := by
  obtain ⟨spill, hspill, hwspill⟩ := @writes_emitRegsToCtx ε p GpReg.all
  obtain ⟨set, hsetlen, hset⟩ := @writes_loadConst64 ε p 0 target
  obtain ⟨epi, last, hepi, hlast, hwepi⟩ := @writes_emitHostEpilogue ε p
  have hloads : LoadsConst 0#5 target (set.map decode) :=
    hset.emits (emits_loadConst64 (Q := fun _ is => LoadsConst 0#5 target is) (by decide) _ fun _ h => h)
  have hspill16 : spill.length = 16 := length_of_decode hspill rfl
  have hepi3 : epi.length = 3 := length_of_decode hepi rfl
  refine ⟨spill, set ++ epi, last, ⟨hspill, ⟨_, hloads, ?_⟩, ?_, hlast⟩, fun e => ?_⟩
  · rw [List.map_append, hepi]
  · rw [List.length_append]
    omega
  · have hlenrun : (byteLen : EmitM ε Nat) p (e.append spill)
        = .ok (4 * (e.code.length + 16), e.append spill) := by
      rw [← hspill16, ← List.length_append]
      exact congrArg (fun n => Except.ok (n, e.append spill)) (e.append spill).length_bytes
    have hraw : Writes p (rawWord 0x14000001#32 : EmitM ε Unit) [0x14000001#32] := .push _
    unfold emitChainExit
    rw [bind_of_ok (hwspill e), bind_of_ok hlenrun, bind_of_ok (hraw _), bind_of_ok (hset _),
      bind_of_ok (hwepi _)]
    simp only [Emitter.append_append, exitCode, List.append_assoc, List.singleton_append]
    rfl

/-! ### The spill is on every way to the placeholder -/

theorem getElem?_mono {α : Type} {l₁ l₂ : List α} (h : l₁ <+: l₂) {i : Nat} {a : α}
    (hi : l₁[i]? = some a) : l₂[i]? = some a := by
  obtain ⟨more, rfl⟩ := h
  rw [List.getElem?_append_left (List.getElem?_eq_some_iff.mp hi).1]
  exact hi

section Marks

variable {env : Env}

/-- No claim. -/
def anywhere : State → Prop :=
  fun _ => True

/-- The domain in which a block is certified: nothing is assumed of a run. -/
abbrev anyDomain (env : Env) : Domain (State → Prop) :=
  straightDomain env (fun _ _ => True) anywhere anywhere

theorem lenient_any (env : Env) : Lenient (anyDomain env) fun _ => anywhere where
  harmless _ := fun _ _ _ _ _ _ _ _ => trivial
  push _ := fun _ _ _ _ _ _ _ _ => trivial
  pop _ _ := fun _ _ _ _ _ _ _ _ => trivial

/-- The claim at a placeholder. -/
def behindSpill (env : Env) : State → Prop :=
  After env anywhere anywhere (spillInsns GpReg.all)

theorem spilled_of_behindSpill {s : State} (h : behindSpill env s) : Spilled s := by
  obtain ⟨s₁, -, -, pc, hrun⟩ := h
  have hspill : runSeq env pc (spillInsns GpReg.all) s₁
      = some { s₁ with mem := spill s₁ GpReg.all s₁.mem } := runSeq_spillInsns _ _ s₁ s₁.mem
  rw [hspill, Option.some.injEq] at hrun
  subst hrun
  intro r
  have hmem : r ∈ GpReg.all := by
    cases r <;> decide
  exact read_spill s₁ hmem s₁.mem

theorem isStraight_spill : IsStraight (spillInsns GpReg.all) :=
  isStraight_of_runSeq (@runSeq_spillInsns default GpReg.all 0 default (default : State).mem)

theorem ExitWords.isStraight {target : BitVec 64} {spill back : List Word} {last : Word}
    (h : ExitWords target spill back last) : IsStraight (back.map decode) := by
  obtain ⟨set, hset, hback⟩ := h.leaves
  rw [hback]
  exact (isStraight_of_runSeq (hset.run default 0 default)).append
    (isStraight_of_runSeq (@runSeq_epilogueInsns default 0 default))

/-- An exit behind certified code, with the claim at its placeholder. -/
theorem Cert.exitCode {e : Emitter} {lab pts : List (State → Prop)} {target : BitVec 64}
    {spill back : List Word} {last : Word} (h : Cert (anyDomain env) e lab pts anywhere)
    (hw : ExitWords target spill back last) :
    ∃ pts', Cert (anyDomain env) (e.append (exitCode spill back last)) lab pts' anywhere ∧
      pts <+: pts' ∧ pts'[e.code.length + 16]? = some (behindSpill env) := by
  have hany : ∀ s : State, anywhere s → After env anywhere anywhere [] s := fun _ hs => .start hs
  have hspill : IsStraight (spill.map decode) := by
    rw [hw.spills]
    exact isStraight_spill
  obtain ⟨pts₁, h₁, hpre₁, -⟩ := (h.weaken hany).appendStraight spill hspill
  rw [List.nil_append, hw.spills] at h₁
  have hlen₁ : pts₁.length = e.code.length + 16 := by
    rw [h₁.points, Emitter.append, List.length_append, hw.spill_length]
  -- the placeholder is a branch to the next word
  have hplace : decode 0x14000001#32 = some (.b false 1) := by
    decide
  have h₂ : Cert (anyDomain env) ((e.append spill).append [0x14000001#32]) lab
      (pts₁ ++ [behindSpill env]) anywhere := by
    refine h₁.append ?_
    rw [hplace]
    obtain ⟨-, hbehind⟩ := h₁.ptAt_next anywhere
    refine ⟨(e.append spill).code.length + 1, rfl, le_rfl, fun _ _ => ?_⟩
    rw [hbehind]
    trivial
  obtain ⟨pts₂, h₃, hpre₂, -⟩ := (h₂.weaken hany).appendStraight back hw.isStraight
  have h₄ : Cert (anyDomain env) ((((e.append spill).append [0x14000001#32]).append back).append [last]) lab
      (pts₂ ++ [anywhere]) anywhere := by
    refine (h₃.weaken fun _ _ => trivial).append ?_
    rw [hw.returns]
    exact ⟨rfl, fun _ _ => trivial⟩
  refine ⟨pts₂ ++ [anywhere], ?_, ?_, ?_⟩
  · simpa only [Emitter.append_append, Jit.exitCode, List.append_assoc, List.singleton_append,
      List.cons_append, List.nil_append] using h₄
  · exact (hpre₁.trans (List.prefix_append _ _)).trans (hpre₂.trans (List.prefix_append _ _))
  · have hmark : (pts₁ ++ [behindSpill env])[e.code.length + 16]? = some (behindSpill env) := by
      rw [← hlen₁, List.getElem?_concat_length]
    exact getElem?_mono (hpre₂.trans (List.prefix_append _ _)) hmark

/-- The code of an emitter has certificates that claim nothing of the entry, and at the placeholder `k` that
the spill has been gone through. -/
def Marked (e : Emitter) (k : Nat) : Prop :=
  ∀ env, ∃ lab pts, Cert (anyDomain env) e lab pts anywhere ∧ (∀ s, ptAt pts anywhere 0 s) ∧
    pts[k]? = some (behindSpill env)

/-- What a marked placeholder claims of finished code. -/
theorem Marked.spilled {e e' : Emitter} {k : Nat} (h : Marked e k) {u : Unit}
    (hfin : e.finish = (.ok u, e')) (env : Env) {s s' : State}
    (hrun : Reaches (step env e'.code) (.at 0 s) (.at k s')) : Spilled s' := by
  obtain ⟨lab, pts, hcert, hentry, hmark⟩ := h env
  obtain ⟨-, hcode⟩ := hcert.finish hfin
  obtain ⟨-, hholds⟩ := hcode.reaches Domain.ofPred_sound (hentry s)
    (fun _ _ _ _ _ => ⟨trivial, trivial⟩) hrun
  rw [ptAt, hmark] at hholds
  exact spilled_of_behindSpill hholds

end Marks

/-! ### Finished code -/

/-- Pending branches are words of the code, each at a place of its own. -/
structure Emitter.Tidy (e : Emitter) : Prop where
  inCode : ∀ i ∈ e.pending, i < e.code.length
  distinct : e.pending.Nodup

theorem Cert.tidy {A : Type} {D : Domain A} {e : Emitter} {lab pts : List A} {cur : A}
    (h : Cert D e lab pts cur) : e.Tidy := by
  refine ⟨fun i hi => ?_, h.distinct⟩
  obtain ⟨f, hf, rfl⟩ := List.mem_map.mp hi
  obtain ⟨w, x, hw, -⟩ := h.fixup f hf
  exact (List.getElem?_eq_some_iff.mp hw).1

/-- Finishing leaves the words that are not pending branches, and patches the others. -/
theorem Emitter.Tidy.finish {e e' : Emitter} (h : e.Tidy) (hfin : e.finish = (.ok (), e')) :
    e'.code.length = e.code.length ∧ (∀ i, i ∉ e.pending → e'.code[i]? = e.code[i]?) ∧
      ∀ f ∈ e.fixups, ∃ (n : Nat) (w : Word),
        Emitter.patchBranch (e.code.getD f.wordIndex 0) f.kind ((n : Int) - f.wordIndex) = .ok w ∧
        e'.code[f.wordIndex]? = some w := by
  have hlt : ∀ f ∈ e.fixups, f.wordIndex < e.code.length :=
    fun f hf => h.inCode _ (List.mem_map_of_mem hf)
  obtain ⟨hok, rfl⟩ := Prod.mk.inj hfin
  obtain ⟨hlen, hstay⟩ := finishLoop_stay e.labels e.fixups e.code
  have hpatch := finishLoop_patches hlt h.distinct hok
  refine ⟨hlen, hstay, fun f hf => ?_⟩
  obtain ⟨n, w, -, hw, hget⟩ := hpatch f hf
  exact ⟨n, w, hw, hget⟩

theorem codeAt_of_getElem? {code ws : List Word} {k : Nat} (hk : k + ws.length ≤ code.length)
    (h : ∀ i, i < ws.length → code[k + i]? = ws[i]?) : CodeAt code k (ws.map decode) := by
  have hws : (code.drop k).take ws.length = ws := by
    apply List.ext_getElem?
    intro i
    by_cases hi : i < ws.length
    · rw [List.getElem?_take_of_lt hi, List.getElem?_drop, h i hi]
    · rw [List.getElem?_eq_none (by simp; omega), List.getElem?_eq_none (Nat.le_of_not_lt hi)]
  refine ⟨code.take k, ws, (code.drop k).drop ws.length, ?_, ?_, rfl⟩
  · calc code = code.take k ++ code.drop k := (List.take_append_drop k code).symm
      _ = code.take k ++ ((code.drop k).take ws.length ++ (code.drop k).drop ws.length) := by
        rw [List.take_append_drop ws.length]
      _ = code.take k ++ ws ++ (code.drop k).drop ws.length := by
        rw [hws, List.append_assoc]
  · rw [List.length_take]
    omega

/-- An exit in finished code. -/
theorem siteAt_of_exitCode {e e' : Emitter} {k : Nat} {target : BitVec 64} {spill back : List Word}
    {last : Word} (hw : ExitWords target spill back last) (hmark : Marked e (k + 16))
    (hfin : e.finish = (.ok (), e')) (hk : k + (exitCode spill back last).length ≤ e'.code.length)
    (hcode : ∀ i, i < (exitCode spill back last).length →
      e'.code[k + i]? = (exitCode spill back last)[i]?) : SiteAt e'.code (k + 16) target := by
  have hall := codeAt_of_getElem? hk hcode
  rw [exitCode, List.map_append, List.map_cons, hw.spills, List.map_append] at hall
  obtain ⟨hspill, hplace⟩ := hall.append
  obtain ⟨hb, hback⟩ := hplace.cons
  obtain ⟨hback, hlast⟩ := hback.append
  obtain ⟨set, hset, hdec⟩ := hw.leaves
  have h16 : (spillInsns GpReg.all).length = 16 := rfl
  rw [h16] at hb hback hlast
  refine ⟨?_, ⟨k, rfl, hspill⟩, fun env s s' => hmark.spilled hfin env, fun env s => ?_⟩
  · have hidx := hcode 16 (by rw [exitCode, List.length_append, hw.spill_length, List.length_cons]; omega)
    rw [hidx, exitCode, ← hw.spill_length, List.getElem?_append_right le_rfl, Nat.sub_self]
    rfl
  · refine ⟨unframed (s.writeX 0#5 target), ?_, ?_, by simp⟩
    · have hplaceholder : decode 0x14000001#32 = some (.b false 1) := by
        decide
      have hstep : step env e'.code (.at (k + 16) s) = some (.at (k + 16 + 1) s) := by
        rw [hplaceholder] at hb
        rw [step_of_some hb]
        rfl
      have hrun : runSeq env (k + 16 + 1) (back.map decode) s = some (unframed (s.writeX 0#5 target)) := by
        rw [hdec, runSeq_append, hset.run, Option.bind_some, runSeq_epilogueInsns]
      have hret : step env e'.code (.at (k + 16 + 1 + (back.map decode).length)
          (unframed (s.writeX 0#5 target))) = some (.returned (unframed (s.writeX 0#5 target))) := by
        have hdecode := hlast.cons.1
        rw [hw.returns] at hdecode
        rw [step_of_some hdecode]
        rfl
      exact Relation.ReflTransGen.head hstep ((reaches_of_runSeq hback hrun).tail hret)
    · rw [unframed_x _ (by decide)]
      simp

/-! ### The terminator -/

theorem branchRel_ok {term : Inst} {e e' : Emitter} {rel : BitVec 64}
    (h : branchRel term p e = .ok (rel, e')) :
    e' = e ∧ ∃ size, term.operand0 = some (.imm rel size) := by
  cases h0 : term.operand0 with
  | none =>
    rw [branchRel, h0] at h
    cases h
  | some op =>
    rw [branchRel, h0] at h
    cases op with
    | imm rel size =>
      cases h
      exact ⟨rfl, size, rfl⟩
    | _ => cases h

/-- All terminators but `JMP` and `Jcc` leave by an exit that is not recorded. -/
theorem emitTerminator_other {term : Inst} (hjmp : term.op ≠ .jmp) (hjcc : ∀ c, term.op ≠ .jcc c)
    {e e' : Emitter} {patches : List (BitVec 32 × BitVec 64)}
    (h : emitTerminator term p e = .ok (patches, e')) : patches = [] ∧ ∃ ws, e' = e.append ws := by
  have hconst : ∀ (next : BitVec 64), (do emitEpilogueConstRip next; Pure.pure [] : EmitM BlockError _) p e
      = .ok (patches, e') → patches = [] ∧ ∃ ws, e' = e.append ws := by
    intro next hrun
    obtain ⟨_, e₁, h₁, h₂⟩ := bind_eq_ok hrun
    cases h₂
    obtain ⟨ws, rfl, -⟩ := emits_emitEpilogueConstRip (Q := fun _ _ => True) (fun _ _ => trivial) _ _ _ h₁
    exact ⟨rfl, ws, rfl⟩
  have happ : ∀ {op : Op}, term.op = op → op.usesStack = true → op.isTerminator = true →
      ∃ ws, e' = e.append ws := by
    rintro _ rfl huse hterm
    obtain ⟨ws, rfl, -⟩ := appends_terminator huse hterm _ _ _ h
    exact ⟨ws, rfl⟩
  cases hop : term.op with
  | jmp => exact absurd hop hjmp
  | jcc cond => exact absurd hop (hjcc cond)
  | retImm =>
    refine ⟨?_, happ hop rfl rfl⟩
    rw [emitTerminator, hop] at h
    obtain ⟨_, _, -, h⟩ := bind_eq_ok h
    obtain ⟨_, _, -, h⟩ := bind_eq_ok h
    cases h
    rfl
  | ret =>
    refine ⟨?_, happ hop rfl rfl⟩
    rw [emitTerminator, hop] at h
    obtain ⟨_, _, -, h⟩ := bind_eq_ok h
    cases h
    rfl
  | call =>
    refine ⟨?_, happ hop rfl rfl⟩
    rw [emitTerminator, hop] at h
    obtain ⟨_, _, -, h⟩ := bind_eq_ok h
    obtain ⟨_, _, -, h⟩ := bind_eq_ok h
    obtain ⟨_, _, -, h⟩ := bind_eq_ok h
    obtain ⟨_, _, -, h⟩ := bind_eq_ok h
    obtain ⟨_, _, -, h⟩ := bind_eq_ok h
    cases h
    rfl
  | jmpIndirect =>
    refine ⟨?_, happ hop rfl rfl⟩
    rw [emitTerminator, hop] at h
    obtain ⟨_, _, -, h⟩ := bind_eq_ok h
    obtain ⟨_, _, -, h⟩ := bind_eq_ok h
    cases h
    rfl
  | _ =>
    rw [emitTerminator, hop] at h
    exact hconst _ h

theorem emitTerminator_jmp {term : Inst} (hop : term.op = .jmp) {e e' : Emitter}
    {patches : List (BitVec 32 × BitVec 64)} (h : emitTerminator term p e = .ok (patches, e')) :
    ∃ rel size spill back last, term.operand0 = some (.imm rel size) ∧
      ExitWords (term.nextRip + rel) spill back last ∧ e' = e.append (exitCode spill back last) ∧
      patches = [(BitVec.ofNat 32 (4 * (e.code.length + 16)), term.nextRip + rel)] := by
  rw [emitTerminator, hop] at h
  obtain ⟨rel, e₁, h₁, h₂⟩ := bind_eq_ok h
  obtain ⟨rfl, size, h0⟩ := branchRel_ok h₁
  obtain ⟨spill, back, last, hw, hrun⟩ := @exists_exitWords BlockError p (term.nextRip + rel)
  rw [bind_of_ok (hrun e₁)] at h₂
  cases h₂
  exact ⟨rel, size, spill, back, last, h0, hw, rfl, rfl⟩

/-- The branch to the taken exit, to a new label. -/
def jccBranch (e : Emitter) (c : A64.Cond) : Emitter :=
  { e with
    code := e.code ++ [0x54000000#32 ||| bitField 0 c.code]
    labels := e.labels ++ [none]
    fixups := e.fixups ++ [⟨e.code.length, .branch19, e.labels.length⟩] }

/-- Label `l` is bound behind the code. -/
def bindHere (e : Emitter) (l : Nat) : Emitter :=
  { e with labels := e.labels.set l (some e.code.length) }

theorem emitTerminator_jcc {term : Inst} {cond : Cond} (hop : term.op = .jcc cond) {e e' : Emitter}
    {patches : List (BitVec 32 × BitVec 64)} (h : emitTerminator term p e = .ok (patches, e')) :
    ∃ rel size c spill back last spill' back' last', term.operand0 = some (.imm rel size) ∧
      condX86ToA64 cond = some c ∧
      ExitWords term.nextRip spill back last ∧ ExitWords (term.nextRip + rel) spill' back' last' ∧
      e' = (bindHere ((jccBranch e c).append (exitCode spill back last)) e.labels.length).append
        (exitCode spill' back' last') ∧
      patches = [(BitVec.ofNat 32 (4 * (e.code.length + 1 + 16)), term.nextRip),
        (BitVec.ofNat 32 (4 * (e.code.length + 1 + (exitCode spill back last).length + 16)),
          term.nextRip + rel)] ∧
      emittedWords p (emitChainExit term.nextRip : EmitM BlockError _)
        = (exitCode spill back last).length := by
  rw [emitTerminator, hop] at h
  obtain ⟨rel, e₁, h₁, h₂⟩ := bind_eq_ok h
  obtain ⟨rfl, size, h0⟩ := branchRel_ok h₁
  obtain ⟨c, e₂, h₃, h₄⟩ := bind_eq_ok h₂
  obtain ⟨spill, back, last, hw, hrun⟩ := @exists_exitWords BlockError p term.nextRip
  obtain ⟨spill', back', last', hw', hrun'⟩ := @exists_exitWords BlockError p (term.nextRip + rel)
  obtain ⟨hcond, rfl⟩ : condX86ToA64 cond = some c ∧ e₂ = e₁ := by
    cases hc : condX86ToA64 cond with
    | none =>
      rw [hc] at h₃
      cases h₃
    | some c' =>
      rw [hc] at h₃
      cases h₃
      exact ⟨rfl, rfl⟩
  have hlabel : (makeLabel : EmitM BlockError Label) p e₂
      = .ok (⟨e₂.labels.length⟩, { e₂ with labels := e₂.labels ++ [none] }) := rfl
  have hbranch : (bCond c ⟨e₂.labels.length⟩ : EmitM BlockError Unit) p { e₂ with labels := e₂.labels ++ [none] }
      = .ok ((), jccBranch e₂ c) := by
    unfold bCond emitBranch
    rw [List.getElem?_concat_length]
    rfl
  have hbind : (bindLabel ⟨e₂.labels.length⟩ : EmitM BlockError Unit) p
      ((jccBranch e₂ c).append (exitCode spill back last))
      = .ok ((), bindHere ((jccBranch e₂ c).append (exitCode spill back last)) e₂.labels.length) := by
    unfold bindLabel
    have hget : ((jccBranch e₂ c).append (exitCode spill back last)).labels[e₂.labels.length]? = some none :=
      List.getElem?_concat_length
    rw [hget]
    rfl
  rw [bind_of_ok hlabel, bind_of_ok hbranch, bind_of_ok (hrun _), bind_of_ok hbind, bind_of_ok (hrun' _)] at h₄
  cases h₄
  have hlen : (jccBranch e₂ c).code.length = e₂.code.length + 1 := by
    rw [jccBranch, List.length_append]
    rfl
  have hlen' : (bindHere ((jccBranch e₂ c).append (exitCode spill back last)) e₂.labels.length).code.length
      = e₂.code.length + 1 + (exitCode spill back last).length := by
    rw [bindHere, Emitter.append, List.length_append, hlen]
  refine ⟨rel, size, c, spill, back, last, spill', back', last', h0, hcond, hw, hw', rfl, ?_, ?_⟩
  · rw [hlen, hlen']
  · rw [emittedWords, hrun]
    simp [Emitter.append, Emitter.new]

/-! ### The sites of a terminator -/

/-- What the terminator is put behind. -/
structure Started (e : Emitter) : Prop where
  certified : ∀ env, ∃ lab pts, Cert (anyDomain env) e lab pts anywhere ∧ ∀ s, ptAt pts anywhere 0 s
  pos : 0 < e.code.length

theorem ptAt_mono {A : Type} {pts pts' : List A} {a b : A} (h : pts <+: pts') {i : Nat}
    (hi : i < pts.length) : ptAt pts' b i = ptAt pts a i := by
  unfold ptAt
  rw [getElem?_mono h (List.getElem?_eq_getElem hi), List.getElem?_eq_getElem hi]
  rfl

theorem Started.tidy {e : Emitter} (h : Started e) : e.Tidy := by
  obtain ⟨lab, pts, hc, -⟩ := h.certified default
  exact hc.tidy

/-- More code leaves the entry as it is. -/
theorem Started.entry {e : Emitter} (h : Started e) {env : Env} {lab pts pts' : List (State → Prop)}
    (hc : Cert (anyDomain env) e lab pts anywhere) (hent : ∀ s, ptAt pts anywhere 0 s) (hpre : pts <+: pts')
    (s : State) : ptAt pts' anywhere 0 s := by
  have hpos : 0 < pts.length := by
    rw [hc.points]
    exact h.pos
  rw [ptAt_mono hpre hpos]
  exact hent s

theorem Started.marked_jmp {e : Emitter} (h : Started e) {target : BitVec 64} {spill back : List Word}
    {last : Word} (hw : ExitWords target spill back last) :
    Marked (e.append (exitCode spill back last)) (e.code.length + 16) := by
  intro env
  obtain ⟨lab, pts, hc, hent⟩ := h.certified env
  obtain ⟨pts', hc', hpre, hmark⟩ := hc.exitCode hw
  exact ⟨lab, pts', hc', h.entry hc hent hpre, hmark⟩

/-- The two exits of a `Jcc`. -/
def jccCode (e : Emitter) (c : A64.Cond) (exit₁ exit₂ : List Word) : Emitter :=
  (bindHere ((jccBranch e c).append exit₁) e.labels.length).append exit₂

theorem length_jccBranch (e : Emitter) (c : A64.Cond) :
    (jccBranch e c).code.length = e.code.length + 1 := by
  rw [jccBranch, List.length_append]
  rfl

theorem Started.marked_jcc {e : Emitter} (h : Started e) (c : A64.Cond) {next target : BitVec 64}
    {spill back spill' back' : List Word} {last last' : Word} (hw : ExitWords next spill back last)
    (hw' : ExitWords target spill' back' last') :
    Marked (jccCode e c (exitCode spill back last) (exitCode spill' back' last')) (e.code.length + 1 + 16) ∧
      Marked (jccCode e c (exitCode spill back last) (exitCode spill' back' last'))
        (e.code.length + 1 + (exitCode spill back last).length + 16) := by
  have hall : ∀ env, ∃ lab pts,
      Cert (anyDomain env) (jccCode e c (exitCode spill back last) (exitCode spill' back' last')) lab pts
        anywhere ∧ (∀ s, ptAt pts anywhere 0 s) ∧
      pts[e.code.length + 1 + 16]? = some (behindSpill env) ∧
      pts[e.code.length + 1 + (exitCode spill back last).length + 16]? = some (behindSpill env) := by
    intro env
    obtain ⟨lab, pts, hc, hent⟩ := h.certified env
    have hlab : (lab ++ [anywhere])[e.labels.length]? = some anywhere := by
      rw [← hc.labels, List.getElem?_concat_length]
    have hbranch : Cert (anyDomain env) (jccBranch e c) (lab ++ [anywhere]) (pts ++ [anywhere]) anywhere := by
      have hfix : FixOk (anyDomain env) (ptAt (pts ++ [anywhere]) anywhere) e.code.length
          (0x54000000#32 ||| bitField 0 c.code) .branch19 := by
        refine .inr ⟨.inl ⟨c, rfl⟩, rfl, fun s _ => ?_⟩
        rw [(hc.ptAt_next anywhere).2]
        trivial
      have hlabel := hc.addLabel anywhere
      exact @Cert.appendFixup _ _ _ _ _ _ hlabel _ _ ⟨e.labels.length⟩ _ _ hlab (fun _ hs => hs) hfix
    obtain ⟨pts₁, hc₁, hpre₁, hmark₁⟩ := hbranch.exitCode hw
    have hbind : Cert (anyDomain env) (bindHere ((jccBranch e c).append (exitCode spill back last))
        e.labels.length) (lab ++ [anywhere]) pts₁ anywhere := hc₁.bindLabel hlab fun _ hs => hs
    obtain ⟨pts₂, hc₂, hpre₂, hmark₂⟩ := hbind.exitCode hw'
    rw [length_jccBranch] at hmark₁
    have hlen : (bindHere ((jccBranch e c).append (exitCode spill back last)) e.labels.length).code.length
        = e.code.length + 1 + (exitCode spill back last).length := by
      rw [bindHere, Emitter.append, List.length_append, length_jccBranch]
    rw [hlen] at hmark₂
    exact ⟨_, pts₂, hc₂, h.entry hc hent ((List.prefix_append _ _).trans (hpre₁.trans hpre₂)),
      getElem?_mono hpre₂ hmark₁, hmark₂⟩
  refine ⟨fun env => ?_, fun env => ?_⟩
  · obtain ⟨lab, pts, hc, hent, hmark, -⟩ := hall env
    exact ⟨lab, pts, hc, hent, hmark⟩
  · obtain ⟨lab, pts, hc, hent, -, hmark⟩ := hall env
    exact ⟨lab, pts, hc, hent, hmark⟩

/-- An exit among the words of an emitter, behind all pending branches. -/
theorem siteAt_of_append {e e' : Emitter} {target : BitVec 64} {spill back pre suf : List Word} {last : Word}
    {k : Nat} (hw : ExitWords target spill back last) (hmark : Marked e (k + 16)) (hfin : e.finish = (.ok (), e'))
    (hcode : e.code = pre ++ exitCode spill back last ++ suf) (hk : pre.length = k)
    (hpend : ∀ i ∈ e.pending, i < k) : SiteAt e'.code (k + 16) target := by
  obtain ⟨lab, pts, hc, -⟩ := hmark default
  obtain ⟨hlen, hstay, -⟩ := hc.tidy.finish hfin
  refine siteAt_of_exitCode hw hmark hfin ?_ fun i hi => ?_
  · rw [hlen, hcode, List.length_append, List.length_append]
    omega
  · have hnot : k + i ∉ e.pending := fun hmem => absurd (hpend _ hmem) (by omega)
    rw [hstay _ hnot, hcode, List.append_assoc, List.getElem?_append_right (by omega), hk,
      Nat.add_sub_cancel_left, List.getElem?_append_left hi]

/-- What the code of a terminator is, behind the words of `e`. -/
structure TermSites (p : Profile) (term : Inst) (e e' : Emitter) (patches : List (BitVec 32 × BitVec 64))
    (sites : List (Nat × BitVec 64)) : Prop where
  patches : patches = sites.map fun q => (BitVec.ofNat 32 (4 * q.1), q.2)
  targets : sites.map (·.2) = term.chainTargets
  below : ∀ q ∈ sites, q.1 ≤ lastSite p term e.code.length
  last : (sites = [] ∧ lastSite p term e.code.length = 0) ∨
    ∃ t, (lastSite p term e.code.length, t) ∈ sites ∧ lastSite p term e.code.length ≤ e.code.length + 100
  grows : e.Grows e'
  fixups : e.fixups <+: e'.fixups
  tidy : e'.Tidy
  site : ∀ e₃, e'.finish = (.ok (), e₃) → ∀ q ∈ sites, SiteAt e₃.code q.1 q.2

theorem lastSite_other {term : Inst} (hjmp : term.op ≠ .jmp) (hjcc : ∀ c, term.op ≠ .jcc c) (n : Nat) :
    lastSite p term n = 0 := by
  unfold lastSite
  split
  · exact absurd ‹_› hjmp
  · exact absurd ‹_› (hjcc _)
  · rfl

theorem chainTargets_other {term : Inst} (hjmp : term.op ≠ .jmp) (hjcc : ∀ c, term.op ≠ .jcc c) :
    term.chainTargets = [] := by
  unfold Inst.chainTargets
  split
  · exact absurd ‹_› hjmp
  · exact absurd ‹_› (hjcc _)
  · rfl

theorem ExitWords.length_exitCode {target : BitVec 64} {spill back : List Word} {last : Word}
    (h : ExitWords target spill back last) : (exitCode spill back last).length ≤ 26 := by
  rw [exitCode, List.length_append, h.spill_length, List.length_cons, List.length_append]
  have hshort := h.short
  simp only [List.length_singleton]
  omega

theorem termSites_other {term : Inst} (hjmp : term.op ≠ .jmp) (hjcc : ∀ c, term.op ≠ .jcc c)
    {e e' : Emitter} (hstart : Started e) {patches : List (BitVec 32 × BitVec 64)}
    (h : emitTerminator term p e = .ok (patches, e')) : TermSites p term e e' patches [] := by
  obtain ⟨rfl, ws, rfl⟩ := emitTerminator_other hjmp hjcc h
  have htidy := hstart.tidy
  refine ⟨rfl, ?_, by simp, .inl ⟨rfl, lastSite_other hjmp hjcc _⟩, .append e ws, List.prefix_rfl, ?_, by simp⟩
  · rw [chainTargets_other hjmp hjcc, List.map_nil]
  · refine ⟨fun i hi => ?_, htidy.distinct⟩
    exact Nat.lt_of_lt_of_le (htidy.inCode i hi) (Emitter.Grows.append e ws).code.length_le

theorem termSites_jmp {term : Inst} (hop : term.op = .jmp) {e e' : Emitter} (hstart : Started e)
    {patches : List (BitVec 32 × BitVec 64)} (h : emitTerminator term p e = .ok (patches, e')) :
    ∃ sites, TermSites p term e e' patches sites := by
  obtain ⟨rel, size, spill, back, last, h0, hw, rfl, rfl⟩ := emitTerminator_jmp hop h
  have htidy := hstart.tidy
  have hlast : lastSite p term e.code.length = e.code.length + 16 := by
    rw [lastSite, hop]
  have hmark := hstart.marked_jmp hw
  refine ⟨[(e.code.length + 16, term.nextRip + rel)], rfl, ?_, ?_, .inr ⟨term.nextRip + rel, ?_, ?_⟩,
    .append e _, List.prefix_rfl, ?_, fun e₃ hfin => ?_⟩
  · rw [Inst.chainTargets, hop, h0]
    rfl
  · simp [hlast]
  · simp [hlast]
  · omega
  · obtain ⟨lab, pts, hc, -⟩ := hmark default
    exact hc.tidy
  · rw [List.forall_mem_singleton]
    exact siteAt_of_append hw hmark hfin (List.append_nil _).symm rfl htidy.inCode

theorem termSites_jcc {term : Inst} {cond : Cond} (hop : term.op = .jcc cond) {e e' : Emitter}
    (hstart : Started e) {patches : List (BitVec 32 × BitVec 64)}
    (h : emitTerminator term p e = .ok (patches, e')) : ∃ sites, TermSites p term e e' patches sites := by
  obtain ⟨rel, size, c, spill, back, last, spill', back', last', h0, -, hw, hw', rfl, rfl, hwords⟩ :=
    emitTerminator_jcc hop h
  have htidy := hstart.tidy
  have hlast : lastSite p term e.code.length
      = e.code.length + 1 + (exitCode spill back last).length + 16 := by
    rw [lastSite, hop]
    dsimp only
    rw [hwords]
  have hshort := hw.length_exitCode
  obtain ⟨hmark, hmark'⟩ := hstart.marked_jcc c hw hw'
  have hpend : ∀ i ∈ (jccCode e c (exitCode spill back last) (exitCode spill' back' last')).pending,
      i < e.code.length + 1 := by
    intro i hi
    have hi' : i ∈ (e.fixups ++ [(⟨e.code.length, .branch19, e.labels.length⟩ : Fixup)]).map
          Fixup.wordIndex := hi
    rw [List.map_append, List.mem_append] at hi'
    rcases hi' with hold | hnew
    · exact Nat.lt_succ_of_lt (htidy.inCode i hold)
    · rw [List.mem_singleton.mp hnew]
      exact Nat.lt_succ_self _
  refine ⟨[(e.code.length + 1 + 16, term.nextRip),
      (e.code.length + 1 + (exitCode spill back last).length + 16, term.nextRip + rel)],
    rfl, ?_, ?_, .inr ⟨term.nextRip + rel, ?_, ?_⟩, ?_, ?_, ?_, fun e₃ hfin => ?_⟩
  · rw [Inst.chainTargets, hop, h0]
    rfl
  · simp only [List.forall_mem_cons, hlast]
    refine ⟨by omega, le_rfl, by simp⟩
  · simp [hlast]
  · omega
  · refine ⟨?_, fun i hi => ?_⟩
    · exact (List.prefix_append _ _).trans ((List.prefix_append _ _).trans (List.prefix_append _ _))
    · have hi' : i ∈ (e.fixups ++ [(⟨e.code.length, .branch19, e.labels.length⟩ : Fixup)]).map
          Fixup.wordIndex := hi
      rw [List.map_append, List.mem_append] at hi'
      rcases hi' with hold | hnew
      · exact .inl hold
      · rw [List.mem_singleton.mp hnew]
        exact .inr le_rfl
  · exact List.prefix_append _ _
  · obtain ⟨lab, pts, hc, -⟩ := hmark default
    exact hc.tidy
  · have hlen : (e.code ++ [0x54000000#32 ||| bitField 0 c.code]).length = e.code.length + 1 := by
      rw [List.length_append]
      rfl
    rw [List.forall_mem_cons, List.forall_mem_singleton]
    refine ⟨siteAt_of_append hw hmark hfin rfl hlen hpend,
      siteAt_of_append hw' hmark' hfin (List.append_nil _).symm ?_ fun i hi => ?_⟩
    · rw [← hlen, ← List.length_append]
      rfl
    · exact Nat.lt_of_lt_of_le (hpend i hi) (Nat.le_add_right _ _)

theorem exists_termSites {term : Inst} {e e' : Emitter} (hstart : Started e)
    {patches : List (BitVec 32 × BitVec 64)} (h : emitTerminator term p e = .ok (patches, e')) :
    ∃ sites, TermSites p term e e' patches sites := by
  by_cases hjmp : term.op = .jmp
  · exact termSites_jmp hjmp hstart h
  · by_cases hjcc : ∃ c, term.op = .jcc c
    · obtain ⟨c, hc⟩ := hjcc
      exact termSites_jcc hc hstart h
    · exact ⟨[], termSites_other hjmp (fun c hc => hjcc ⟨c, hc⟩) hstart h⟩

end Quantum.Jit
