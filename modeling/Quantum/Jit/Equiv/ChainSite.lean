import Quantum.Jit.Equiv.ChainExit
import Quantum.Runtime.Equiv.ChainPatch

/-!
# Chain sites

A `JMP` and a `Jcc` leave the block through placeholders that the dispatcher may turn into branches to other
blocks.  The block records the byte offset of a placeholder in 32 bits, so what it records is the place of
the placeholder when the code before it is shorter than 4 GiB, and only then (`wellChained_iff`): a wrapped
offset lies before the terminator, where no register is spilled.
-/

namespace Quantum.Jit

open A64
open EmitM

variable {p : Profile}

/-! ### What a block promises -/

/-- A recorded pair is the aligned offset, in the code, of a placeholder and its target. -/
structure ChainSite (code : List Word) (q : BitVec 32 × BitVec 64) : Prop where
  aligned : q.1.toNat % 4 = 0
  inBounds : q.1.toNat + 4 ≤ 4 * code.length
  site : SiteAt code (q.1.toNat / 4) q.2

/-- The words of the prologue and the lifts of a body. -/
def startWords (p : Profile) (bytes : List Byte) (rip : BitVec 64) (legacy32 : Bool) (body : List Inst) : Nat :=
  emittedWords p (do emitPrologue; emitBody bytes rip legacy32 body)

/-- A block with terminator `term` has one good pair for each target that the terminator knows, and its
hot entry is the reload of the guest registers, behind the four words that make the frame. -/
structure WellChained (term : Inst) (blk : Block) : Prop where
  targets : blk.chainPatches.map (·.2) = term.chainTargets
  sites : ∀ q ∈ blk.chainPatches, ChainSite blk.code q
  frame : CodeAt blk.code 0 frameInsns
  hotEntry : CodeAt blk.code (DISPATCHER_HOT_ENTRY_OFFSET / 4) (reloadInsns GpReg.all)

/-! ### Before the terminator -/

/-- Words that may stand at an annotation and keep it. -/
theorem Cert.appendAll {A : Type} {D : Domain A} {a : A} {e : Emitter} {lab pts : List A} (ws : List Word)
    (h : Cert D e lab pts a)
    (hws : ∀ o ∈ ws.map decode, (∀ i, o = some i → i.isLinear = true) ∧ D.next a o a) :
    ∃ pts', Cert D (e.append ws) lab pts' a ∧ D.le (ptAt pts a 0) (ptAt pts' a 0) := by
  induction ws generalizing e pts with
  | nil => exact ⟨pts, by simpa using h, D.le_refl _⟩
  | cons w ws ih =>
    rw [List.map_cons, List.forall_mem_cons] at hws
    obtain ⟨pts', h', hent⟩ := ih (h.appendNext hws.1.1 hws.1.2) hws.2
    rw [Emitter.append_append, List.singleton_append] at h'
    exact ⟨pts', h', D.le_trans Certifies.entry_concat hent⟩

theorem isLinear_prologueInsns : ∀ o ∈ prologueInsns, ∀ i, o = some i → i.isLinear = true := by
  have hall : ∀ o ∈ prologueInsns, o.all Insn.isLinear = true := by
    decide
  rintro o ho i rfl
  exact hall _ ho

/-- The prologue and the body are certified in every lenient domain that takes the prologue. -/
theorem certified_start {A : Type} (D : Domain A) (lv : Nat → A) [Lenient D lv]
    (hprologue : ∀ o ∈ prologueInsns, D.next (lv 0) o (lv 0)) {bytes : List Byte} {rip : BitVec 64}
    {legacy32 : Bool} {body : List Inst} {e₀ e₁ : Emitter} (hx : ∀ inst ∈ body, inst.XmmOk)
    (hnt : ∀ inst ∈ body, inst.op.isTerminator = false)
    (h₀ : (emitPrologue : EmitM BlockError Unit) p Emitter.new = .ok ((), e₀))
    (h₁ : emitBody bytes rip legacy32 body p e₀ = .ok ((), e₁)) :
    (∃ ws, e₀ = Emitter.new.append ws ∧ ws.map decode = prologueInsns) ∧ e₀.Grows e₁ ∧
      ∃ lab pts, Cert D e₁ lab pts (lv 0) ∧ D.le (lv 0) (ptAt pts (lv 0) 0) := by
  obtain ⟨ws, rfl, hws⟩ := emits_emitPrologue (Q := fun _ is => is = prologueInsns) rfl _ _ _ h₀
  have hall : ∀ o ∈ ws.map decode, (∀ i, o = some i → i.isLinear = true) ∧ D.next (lv 0) o (lv 0) := by
    intro o ho
    rw [hws] at ho
    exact ⟨isLinear_prologueInsns o ho, hprologue o ho⟩
  obtain ⟨pts₀, hc₀, hent₀⟩ := (Cert.new (lv 0)).appendAll ws hall
  have hknown : Known ([] : List A) [] := by
    simp [Known]
  obtain ⟨lab, pts, b, -, hc₁, -, -, hent, hgrows, -, rfl⟩ :=
    certifies_emitBody hx hnt _ _ _ _ _ hc₀ hknown h₁
  exact ⟨⟨ws, rfl, hws⟩, hgrows, lab, pts, hc₁, D.le_trans hent₀ hent⟩

/-- The domain that lets no word of a spill stand. -/
def noSpill : Domain Unit where
  le _ _ := True
  next _ o _ := o ∉ spillInsns GpReg.all
  ret _ := True
  le_refl _ := trivial
  le_trans _ _ := trivial
  next_le h _ := h

theorem lenient_noSpill : Lenient noSpill fun _ => () where
  harmless := by
    intro d o ho hmem
    obtain ⟨r, -, rfl⟩ := List.mem_map.mp hmem
    have hunsafe : (transfer (Ann.start false)
        (some (storeInsn .b8 (hostReg r) 28 (ctxOffset r)))).safe = false := by
      cases r <;> rfl
    rw [ho.safe _ rfl] at hunsafe
    cases hunsafe
  push := by
    intro d rt rt2 _ hmem
    obtain ⟨r, -, hr⟩ := List.mem_map.mp hmem
    cases hr
  pop := by
    intro d rt rt2 _ _ hmem
    obtain ⟨r, -, hr⟩ := List.mem_map.mp hmem
    cases hr

theorem prologueInsns_noSpill : ∀ o ∈ prologueInsns, o ∉ spillInsns GpReg.all := by
  decide +kernel

/-- A word before the terminator, in the finished code. -/
theorem not_spill_of_start {e₁ e₂ e₃ : Emitter} {lab pts : List Unit} (h : Cert noSpill e₁ lab pts ())
    (hgrows : e₁.Grows e₂) (hfix : e₁.fixups <+: e₂.fixups) (htidy : e₂.Tidy)
    (hfin : e₂.finish = (.ok (), e₃)) {i : Nat} (hi : i < e₁.code.length) {w : Word}
    (hw : e₃.code[i]? = some w) : decode w ∉ spillInsns GpReg.all := by
  obtain ⟨-, hstay, hpatch⟩ := htidy.finish hfin
  have hnot : ∀ {n o}, noSpill.PointOk (ptAt pts ()) n i o → o ∉ spillInsns GpReg.all := by
    intro n o hpoint hmem
    obtain ⟨r, -, rfl⟩ := List.mem_map.mp hmem
    exact hpoint hmem
  have hold : e₂.code[i]? = e₁.code[i]? := by
    obtain ⟨more, hmore⟩ := hgrows.code
    rw [← hmore, List.getElem?_append_left hi]
  by_cases hpend : i ∈ e₂.pending
  · -- a branch of the body, patched
    have hpend₁ : i ∈ e₁.pending := (hgrows.fixups i hpend).resolve_right (Nat.not_le.mpr hi)
    obtain ⟨f, hf, rfl⟩ := List.mem_map.mp hpend₁
    obtain ⟨v, x, hv, -, -, hok⟩ := h.fixup f hf
    obtain ⟨n, w', hpatched, hw'⟩ := hpatch f (hfix.subset hf)
    rw [hw, Option.some.injEq] at hw'
    rw [← hw', List.getD_eq_getElem?_getD, hold, hv, Option.getD_some] at hpatched
    exact hnot (hok.patched hpatched ⟨n, by omega, le_rfl, trivial⟩)
  · rw [hstay i hpend, hold] at hw
    refine hnot (h.word i w hw fun hmem => hpend ?_)
    obtain ⟨f, hf, rfl⟩ := List.mem_map.mp hmem
    exact List.mem_map_of_mem (hfix.subset hf)

/-! ### The recorded offsets -/

/-- A recorded offset below 4 GiB is the place of its placeholder. -/
theorem SiteAt.chainSite {code : List Word} {k : Nat} {target : BitVec 64} (h : SiteAt code k target)
    (hk : 4 * k < 2 ^ 32) : ChainSite code (BitVec.ofNat 32 (4 * k), target) := by
  have hoff : (BitVec.ofNat 32 (4 * k)).toNat = 4 * k := by
    rw [BitVec.toNat_ofNat, Nat.mod_eq_of_lt hk]
  have hdiv : (BitVec.ofNat 32 (4 * k)).toNat / 4 = k := by
    omega
  have hlt : k < code.length := (List.getElem?_eq_some_iff.mp h.word).1
  refine ⟨?_, ?_, ?_⟩
  · rw [hoff]
    omega
  · rw [hoff]
    omega
  · rw [hdiv]
    exact h

/-- An offset that has wrapped lies before the terminator, where nothing is spilled. -/
theorem not_chainSite_of_wrapped {code : List Word} {n k : Nat} {target : BitVec 64}
    (hns : ∀ i w, i < n → code[i]? = some w → decode w ∉ spillInsns GpReg.all) (hk : k ≤ n + 100)
    (hwrap : 2 ^ 32 ≤ 4 * k) : ¬ ChainSite code (BitVec.ofNat 32 (4 * k), target) := by
  intro h
  have hoff : (BitVec.ofNat 32 (4 * k)).toNat = 4 * k % 2 ^ 32 := BitVec.toNat_ofNat _ _
  obtain ⟨j, hj, hcode⟩ := h.site.spill
  have hall : spillInsns GpReg.all
      = spillInsns (GpReg.all.take 15) ++ spillInsns (GpReg.all.drop 15) := rfl
  rw [hall] at hcode
  have hlast := hcode.append.2.cons.1
  obtain ⟨w, hw, hdec⟩ := Option.map_eq_some_iff.mp hlast
  have h15 : (spillInsns (GpReg.all.take 15)).length = 15 := rfl
  rw [h15] at hw
  dsimp only at hj
  rw [hoff] at hj
  have hlt : j + 15 < n := by
    omega
  apply hns _ w hlt hw
  rw [hdec]
  decide

/-- What stands before the terminator. -/
theorem started_of_runs {bytes : List Byte} {rip : BitVec 64} {legacy32 : Bool} {body : List Inst}
    {e₀ e₁ : Emitter} (hx : ∀ inst ∈ body, inst.XmmOk) (hnt : ∀ inst ∈ body, inst.op.isTerminator = false)
    (h₀ : (emitPrologue : EmitM BlockError Unit) p Emitter.new = .ok ((), e₀))
    (h₁ : emitBody bytes rip legacy32 body p e₀ = .ok ((), e₁)) : Started e₁ := by
  have hcert : ∀ env, ∃ lab pts, Cert (anyDomain env) e₁ lab pts anywhere ∧
      (anyDomain env).le anywhere (ptAt pts anywhere 0) := by
    intro env
    have := lenient_any env
    exact (certified_start (anyDomain env) (fun _ => anywhere) (fun _ _ _ _ _ _ _ _ _ _ => trivial) hx hnt h₀ h₁).2.2
  refine ⟨fun env => ?_, ?_⟩
  · obtain ⟨lab, pts, hc, hent⟩ := hcert env
    exact ⟨lab, pts, hc, fun s => hent s trivial⟩
  · have := lenient_noSpill
    obtain ⟨⟨ws, rfl, hws⟩, hgrows, -⟩ :=
      certified_start noSpill (fun _ => ()) prologueInsns_noSpill hx hnt h₀ h₁
    have hlen : ws.length = 22 := length_of_decode hws rfl
    have hle := hgrows.code.length_le
    rw [Emitter.append, List.length_append, hlen] at hle
    omega

/-- The first words of finished code. -/
theorem prologue_of_finish {ws : List Word} {e₁ e₂ e₃ : Emitter}
    (h₁ : (Emitter.new.append ws).Grows e₁) (h₂ : e₁.Grows e₂) (htidy : e₂.Tidy)
    (hfin : e₂.finish = (.ok (), e₃)) : CodeAt e₃.code 0 (ws.map decode) := by
  have hgrows := h₁.trans h₂
  obtain ⟨hlen, hstay, -⟩ := htidy.finish hfin
  have hcode : (Emitter.new.append ws).code = ws := List.nil_append ws
  refine codeAt_of_getElem? ?_ fun i hi => ?_
  · rw [hlen, Nat.zero_add, ← hcode]
    exact hgrows.code.length_le
  · have hnot : i ∉ e₂.pending := by
      intro hmem
      rcases hgrows.fixups i hmem with hold | hge
      · cases hold
      · rw [hcode] at hge
        omega
    have hw := List.getElem?_eq_getElem hi
    rw [Nat.zero_add, hstay i hnot, hw]
    exact getElem?_mono hgrows.code (by rw [hcode]; exact hw)

/-- The start of a block ends where its terminator begins. -/
theorem startWords_eq {bytes : List Byte} {rip : BitVec 64} {legacy32 : Bool} {body : List Inst}
    {e₀ e₁ : Emitter} (h₀ : (emitPrologue : EmitM BlockError Unit) p Emitter.new = .ok ((), e₀))
    (h₁ : emitBody bytes rip legacy32 body p e₀ = .ok ((), e₁)) :
    startWords p bytes rip legacy32 body = e₁.code.length := by
  rw [startWords, emittedWords, bind_of_ok h₀, h₁]

/-- The start of a finished block: its prologue, no spill, and behind it the sites of the terminator. -/
theorem start_of_finish {bytes : List Byte} {rip : BitVec 64} {mode : IsaMode} {body : List Inst} {term : Inst}
    {rest : List Byte} {e₀ e₁ e₂ e₃ : Emitter} {patches : List (BitVec 32 × BitVec 64)}
    (hdec : decodeLoop (mode = .long) (bytes.length + 1) rip bytes = .ok (body, term, rest))
    (h₀ : (emitPrologue : EmitM BlockError Unit) p Emitter.new = .ok ((), e₀))
    (h₁ : emitBody bytes rip (mode = .legacy32) body p e₀ = .ok ((), e₁))
    (h₂ : emitTerminator term p e₁ = .ok (patches, e₂)) (hfin : e₂.finish = (.ok (), e₃)) :
    ∃ ws sites, e₀ = Emitter.new.append ws ∧ ws.map decode = prologueInsns ∧
      TermSites p term e₁ e₂ patches sites ∧ CodeAt e₃.code 0 prologueInsns ∧
      ∀ i w, i < e₁.code.length → e₃.code[i]? = some w → decode w ∉ spillInsns GpReg.all := by
  have hx := decodeLoop_xmmOk hdec
  have hnt := decodeLoop_body hdec
  obtain ⟨sites, hsites⟩ := exists_termSites (started_of_runs hx hnt h₀ h₁) h₂
  have := lenient_noSpill
  obtain ⟨⟨ws, rfl, hws⟩, hgrows, lab, pts, hnospill, -⟩ :=
    certified_start noSpill (fun _ => ()) prologueInsns_noSpill hx hnt h₀ h₁
  have hprologue := prologue_of_finish hgrows hsites.grows hsites.tidy hfin
  rw [hws] at hprologue
  exact ⟨ws, sites, rfl, hws, hsites, hprologue,
    fun i w hi hw => not_spill_of_start hnospill hsites.grows hsites.fixups hsites.tidy hfin hi hw⟩

/-- **The pairs of a block are right exactly when its last placeholder is below 4 GiB.** -/
theorem wellChained_iff {bytes : List Byte} {rip : BitVec 64} {mode : IsaMode} {blk : Block}
    (h : translateForDispatcher p bytes rip mode = .ok blk) :
    ∃ body term rest, decodeLoop (mode = .long) (bytes.length + 1) rip bytes = .ok (body, term, rest) ∧
      (WellChained term blk ↔
        4 * lastSite p term (startWords p bytes rip (mode = .legacy32) body) < 2 ^ 32) := by
  obtain ⟨body, term, rest, e₀, e₁, e₂, e₃, patches, hdec, h₀, h₁, h₂, hfin, hcode, hpatches⟩ :=
    block_parts h
  refine ⟨body, term, rest, hdec, ?_⟩
  obtain ⟨ws, sites, rfl, hws, hsites, hprologue, hns⟩ := start_of_finish hdec h₀ h₁ h₂ hfin
  rw [startWords_eq h₀ h₁]
  constructor
  · intro hwell
    rcases hsites.last with ⟨-, hzero⟩ | ⟨t, hmem, hnear⟩
    · rw [hzero]
      decide
    · by_contra hge
      have hq : (BitVec.ofNat 32 (4 * lastSite p term e₁.code.length), t) ∈ blk.chainPatches := by
        rw [hpatches, hsites.patches]
        exact List.mem_map.mpr ⟨_, hmem, rfl⟩
      have hsite := hwell.sites _ hq
      rw [hcode] at hsite
      exact not_chainSite_of_wrapped hns hnear (Nat.not_lt.mp hge) hsite
  · intro hlt
    rw [prologueInsns] at hprologue
    obtain ⟨hframe, hreload⟩ := hprologue.append
    refine ⟨?_, fun q hq => ?_, ?_, ?_⟩
    · rw [hpatches, hsites.patches, List.map_map, ← hsites.targets]
      rfl
    · rw [hpatches, hsites.patches] at hq
      obtain ⟨⟨k, t⟩, hmem, rfl⟩ := List.mem_map.mp hq
      have hle := hsites.below _ hmem
      rw [hcode]
      exact (hsites.site e₃ hfin _ hmem).chainSite (by dsimp only at hle ⊢; omega)
    · rw [hcode]
      exact hframe
    · rw [hcode]
      exact hreload.append.1

/-! ### A block of more than 4 GiB -/

/-- Decoding a `PUSH RAX`, whatever follows it. -/
theorem decodeNext_push (rip : BitVec 64) (rest : List Byte) :
    ∃ inst, decodeNext true rip (0x50#8 :: rest) = .ok (inst, rest) ∧ inst.op = .push ∧
      inst.operand0 = some (.reg .rax .b8) := by
  refine ⟨_, rfl, rfl, rfl⟩

theorem writes_push {inst : Inst} (hop : inst.op = .push) (h0 : inst.operand0 = some (.reg .rax .b8)) :
    ∃ w₁ w₂, Writes p (lift false inst) [w₁, w₂] := by
  have hlift : lift false inst = (do sub64Imm 19 19 8; str64 (hostReg .rax) 19 0) := by
    unfold lift
    rw [hop]
    dsimp only
    unfold liftPush
    rw [h0]
    rfl
  rw [hlift]
  obtain ⟨w₂, h₂⟩ : ∃ w, Writes p (str64 (hostReg .rax) 19 0 : LiftM Unit) [w] := writes_str64 (by decide)
  have h₁ : ∃ w, Writes p (sub64Imm 19 19 8 : LiftM Unit) [w] := ⟨_, .assert (by decide) (.push _)⟩
  obtain ⟨w₁, h₁⟩ := h₁
  exact ⟨w₁, w₂, h₁.seq h₂⟩

/-- `n` times `PUSH RAX`, then a `JMP` to the next instruction. -/
def pushesJmp (n : Nat) : List Byte :=
  List.replicate n 0x50#8 ++ [0xEB#8, 0x00#8]

theorem decodeLoop_pushesJmp (n fuel : Nat) (rip : BitVec 64) (hfuel : n < fuel) :
    ∃ body term, decodeLoop true fuel rip (pushesJmp n) = .ok (body, term, []) ∧ body.length = n ∧
      (∀ inst ∈ body, inst.op = .push ∧ inst.operand0 = some (.reg .rax .b8)) ∧ term.op = .jmp ∧
      ∃ rel size, term.operand0 = some (.imm rel size) := by
  induction n generalizing fuel rip with
  | zero =>
    cases fuel with
    | zero => cases hfuel
    | succ fuel => exact ⟨[], _, rfl, rfl, by simp, rfl, _, _, rfl⟩
  | succ n ih =>
    cases fuel with
    | zero => cases hfuel
    | succ fuel =>
      have hsplit : pushesJmp (n + 1) = 0x50#8 :: pushesJmp n := by
        rw [pushesJmp, List.replicate_succ, List.cons_append]
        rfl
      obtain ⟨inst, hdec, hop, h0⟩ := decodeNext_push rip (pushesJmp n)
      obtain ⟨body, term, hloop, hlen, hbody, hterm, hrel⟩ := ih fuel
        (rip + BitVec.ofNat 64 ((0x50#8 :: pushesJmp n).length - (pushesJmp n).length)) (by omega)
      have hne : (pushesJmp n).isEmpty = false := by
        rw [pushesJmp]
        cases n <;> rfl
      refine ⟨inst :: body, term, ?_, by rw [List.length_cons, hlen], ?_, hterm, hrel⟩
      · rw [hsplit, decodeLoop, hdec]
        dsimp only
        rw [hop, hne, hloop]
        rfl
      · exact List.forall_mem_cons.mpr ⟨⟨hop, h0⟩, hbody⟩

theorem writes_pushes {bytes : List Byte} {rip : BitVec 64} {body : List Inst}
    (h : ∀ inst ∈ body, inst.op = .push ∧ inst.operand0 = some (.reg .rax .b8)) :
    ∃ ws, ws.length = 2 * body.length ∧ ∀ e, emitBody bytes rip false body p e = .ok ((), e.append ws) := by
  induction body with
  | nil => exact ⟨[], rfl, fun e => by rw [Emitter.append_nil]; rfl⟩
  | cons inst body ih =>
    rw [List.forall_mem_cons] at h
    obtain ⟨w₁, w₂, hinst⟩ := writes_push (p := p) h.1.1 h.1.2
    obtain ⟨ws, hlen, hws⟩ := ih h.2
    refine ⟨w₁ :: w₂ :: ws, ?_, fun e => ?_⟩
    · rw [List.length_cons, List.length_cons, List.length_cons, hlen]
      omega
    · have hfirst : emitBodyInst bytes rip false inst p e = .ok ((), e.append [w₁, w₂]) := by
        unfold emitBodyInst mapErr
        rw [hinst e]
      rw [emitBody, bind_of_ok hfirst, hws, Emitter.append_append]
      rfl

/-- The block of the pushes, and the word of its placeholder. -/
theorem translate_pushesJmp (p : Profile) (n : Nat) (rip : BitVec 64) :
    ∃ blk body term, translateForDispatcher p (pushesJmp n) rip .long = .ok blk ∧
      decodeLoop true ((pushesJmp n).length + 1) rip (pushesJmp n) = .ok (body, term, []) ∧
      lastSite p term (startWords p (pushesJmp n) rip false body) = 22 + 2 * n + 16 := by
  obtain ⟨body, term, hdec, hlen, hbody, hop, rel, size, h0⟩ :=
    decodeLoop_pushesJmp n ((pushesJmp n).length + 1) rip <| by
      rw [pushesJmp, List.length_append, List.length_replicate]
      omega
  obtain ⟨wp, hwp', hprologue⟩ := @writes_emitPrologue BlockError p
  have hwp : wp.length = 22 := length_of_decode hwp' rfl
  obtain ⟨wb, hwb, hrun⟩ := @writes_pushes p (pushesJmp n) rip body hbody
  obtain ⟨spill, back, last, hw, hexit⟩ := @exists_exitWords BlockError p (term.nextRip + rel)
  have hstart : (do emitPrologue; emitBody (pushesJmp n) rip false body : EmitM BlockError Unit) p Emitter.new
      = .ok ((), (Emitter.new.append wp).append wb) := by
    rw [bind_of_ok (hprologue _), hrun]
  have hterm : emitTerminator term p ((Emitter.new.append wp).append wb) = .ok (
      [(BitVec.ofNat 32 (4 * (((Emitter.new.append wp).append wb).code.length + 16)), term.nextRip + rel)],
      ((Emitter.new.append wp).append wb).append (exitCode spill back last)) := by
    have hrel : branchRel term p ((Emitter.new.append wp).append wb)
        = .ok (rel, (Emitter.new.append wp).append wb) := by
      rw [branchRel, h0]
      rfl
    rw [emitTerminator, hop]
    dsimp only
    rw [bind_of_ok hrel, bind_of_ok (hexit _)]
    rfl
  obtain ⟨blk, hblk⟩ : ∃ blk, translateForDispatcher p (pushesJmp n) rip .long = .ok blk := by
    have hlong : decide (IsaMode.long = IsaMode.long) = true := rfl
    have hlegacy : decide (IsaMode.long = IsaMode.legacy32) = false := rfl
    unfold translateForDispatcher
    rw [hlong, hlegacy, hdec]
    dsimp only
    unfold emitBlock
    rw [bind_of_ok (hprologue _), bind_of_ok (hrun _), hterm]
    exact ⟨_, rfl⟩
  refine ⟨blk, body, term, hblk, hdec, ?_⟩
  have hwords : startWords p (pushesJmp n) rip false body = 22 + 2 * n := by
    rw [startWords, emittedWords, hstart]
    simp [Emitter.append, Emitter.new, hwp, hwb, hlen]
  rw [lastSite, hop, hwords]

/-- **Chain sites.**  The pairs that a translated block records are right, with one for each target that its
terminator knows, if and only if its last placeholder is below 4 GiB.  The dispatcher rewrites a placeholder
by a branch to the target, or leaves it, unless a build that checks for overflow panics. -/
theorem chain_sites_iff (p : Profile) :
    (∀ bytes rip mode blk, translateForDispatcher p bytes rip mode = .ok blk →
      ∃ body term rest, decodeLoop (mode = .long) (bytes.length + 1) rip bytes = .ok (body, term, rest) ∧
        (WellChained term blk ↔
          4 * lastSite p term (startWords p bytes rip (mode = .legacy32) body) < 2 ^ 32)) ∧
    ∀ overflowChecks d site target, site.toNat % 4 = 0 → target.toNat % 4 = 0 →
      (Runtime.Rewrites d site target (Runtime.Dispatcher.patchChain overflowChecks d site target) ↔
        (overflowChecks = true → target.ssubOverflow site = false)) :=
  ⟨fun _ _ _ _ h => wellChained_iff h, fun _ _ _ _ hsite htarget => Runtime.rewrites_iff hsite htarget⟩

/-- A `PUSH RAX` before a `JMP`, and a placeholder and a target in one cache. -/
theorem chain_sites_iff_jmp :
    (∃ blk body term, translateForDispatcher ⟨true⟩ (pushesJmp 1) 0x1000 .long = .ok blk ∧
      decodeLoop true 4 0x1000 (pushesJmp 1) = .ok (body, term, []) ∧ WellChained term blk) ∧
    ∀ d, Runtime.Rewrites d 0x10000#64 0x20010#64 (Runtime.Dispatcher.patchChain true d 0x10000#64 0x20010#64) := by
  obtain ⟨hblock, hpatch⟩ := chain_sites_iff ⟨true⟩
  constructor
  · obtain ⟨blk, body, term, hblk, hdec, hlast⟩ := translate_pushesJmp ⟨true⟩ 1 0x1000
    obtain ⟨body', term', rest', hdec', hiff⟩ := hblock _ _ _ blk hblk
    cases hdec.symm.trans hdec'
    exact ⟨blk, body, term, hblk, hdec, hiff.mpr (hlast ▸ by decide)⟩
  · have hsite : (0x10000#64).toNat % 4 = 0 := by
      decide
    have htarget : (0x20010#64).toNat % 4 = 0 := by
      decide
    have hov : (0x20010#64).ssubOverflow 0x10000#64 = false := by
      decide
    exact fun d => (hpatch true d _ _ hsite htarget).mpr fun _ => hov

/-- 2^29 times `PUSH RAX`, then a `JMP`: the offset of the placeholder wraps around to 152. -/
theorem chain_sites_wrong : ∃ blk body term,
    translateForDispatcher ⟨true⟩ (pushesJmp (2 ^ 29)) 0x1000 .long = .ok blk ∧
    decodeLoop true ((pushesJmp (2 ^ 29)).length + 1) 0x1000 (pushesJmp (2 ^ 29)) = .ok (body, term, []) ∧
    ¬ WellChained term blk := by
  obtain ⟨blk, body, term, hblk, hdec, hlast⟩ := translate_pushesJmp ⟨true⟩ (2 ^ 29) 0x1000
  obtain ⟨body', term', rest', hdec', hiff⟩ := wellChained_iff hblk
  have heq : (body, term, []) = (body', term', rest') := by
    have hok := hdec.symm.trans hdec'
    injection hok
  cases heq
  refine ⟨blk, body, term, hblk, hdec, fun hwell => ?_⟩
  have hlt := hiff.mp hwell
  have hlegacy : decide (IsaMode.long = IsaMode.legacy32) = false := rfl
  rw [hlegacy, hlast] at hlt
  omega

end Quantum.Jit
