import Quantum.Jit.Equiv.Exits
import Quantum.Jit.Equiv.LegacyStack
import Quantum.Jit.Equiv.SteadySse

/-!
# The parts of a block

The code of a block is the prologue (`prologueInsns`), the lifts of its body, which keep the host stack
(`certifies_emitBody`), and the code of its terminator.  `block_parts` takes a translation apart into the
runs of the three.
-/

namespace Quantum.Jit

open A64
open EmitM

variable {ε : Type} {p : Profile}

/-! ### Code that is always the same -/

/-- The first part of a sequence, run. -/
theorem bind_of_ok {α β : Type} {m : EmitM ε α} {f : α → EmitM ε β} {e e₁ : Emitter} {a : α}
    (h : m p e = .ok (a, e₁)) : (m >>= f) p e = f a p e₁ := by
  simp only [bind, h]

/-- `m` always writes the words `ws`. -/
def Writes (p : Profile) (m : EmitM ε Unit) (ws : List Word) : Prop :=
  ∀ e, m p e = .ok ((), e.append ws)

namespace Writes

theorem push (w : Word) : Writes p (EmitM.push w : EmitM ε Unit) [w] :=
  fun _ => rfl

theorem seq {m : EmitM ε Unit} {f : Unit → EmitM ε Unit} {ws vs : List Word} (hm : Writes p m ws)
    (hf : Writes p (f ()) vs) : Writes p (m >>= f) (ws ++ vs) := by
  intro e
  rw [bind_of_ok (hm e), ← Emitter.append_append]
  exact hf _

/-- An assertion that holds. -/
theorem assert {c : Prop} [Decidable c] (hc : c) {msg : String} {f : Unit → EmitM ε Unit} {ws : List Word}
    (hf : Writes p (f ()) ws) : Writes p (EmitM.debugAssert c msg >>= f) ws := by
  intro e
  have hassert : (EmitM.debugAssert c msg : EmitM ε Unit) p e = .ok ((), e) := by
    rw [EmitM.debugAssert, if_neg fun h => h.2 hc]
  rw [bind_of_ok hassert]
  exact hf e

/-- What is known of the code of `m` is known of these words. -/
theorem emits {m : EmitM ε Unit} {ws : List Word} {Q : Unit → List (Option Insn) → Prop}
    (h : Writes p m ws) (hm : Emits p m Q) : Q () (ws.map decode) := by
  obtain ⟨vs, heq, hQ⟩ := hm Emitter.new () _ (h Emitter.new)
  have hcode := congrArg Emitter.code heq
  obtain rfl : ws = vs := by simpa [Emitter.append, Emitter.new] using hcode
  exact hQ

end Writes

theorem writes_movz64 (rd : Reg) (imm : BitVec 16) {lsl : Nat} (h : lsl / 16 < 4) :
    ∃ w, Writes p (movz64 rd imm lsl : EmitM ε Unit) [w] :=
  ⟨_, .assert h (.push _)⟩

theorem writes_movk64 (rd : Reg) (imm : BitVec 16) {lsl : Nat} (h : lsl / 16 < 4) :
    ∃ w, Writes p (movk64 rd imm lsl : EmitM ε Unit) [w] :=
  ⟨_, .assert h (.push _)⟩

/-- At most one word for each lane, and one if there is no lane. -/
theorem writes_loadConst64Lanes (rd : Reg) (value : BitVec 64) {lanes : List Nat}
    (hlanes : ∀ lane ∈ lanes, lane < 4) (emitted : Bool) :
    ∃ ws, ws.length ≤ lanes.length + 1 ∧
      Writes p (loadConst64Lanes rd value lanes emitted : EmitM ε Unit) ws := by
  induction lanes generalizing emitted with
  | nil =>
    unfold loadConst64Lanes
    split
    · exact ⟨[], by simp, fun e => by rw [Emitter.append_nil]; rfl⟩
    · obtain ⟨w, hw⟩ : ∃ w, Writes p (movz64 rd 0 0 : EmitM ε Unit) [w] := writes_movz64 rd 0 (by decide)
      exact ⟨[w], le_rfl, hw⟩
  | cons lane lanes ih =>
    have hlane : lane * 16 / 16 < 4 := by
      rw [Nat.mul_div_cancel _ (by decide)]
      exact hlanes lane List.mem_cons_self
    have hrest := ih fun l hl => hlanes l (List.mem_cons_of_mem _ hl)
    have hskip : ∀ b, ∃ ws : List Word, ws.length ≤ (lane :: lanes).length + 1 ∧
        Writes p (loadConst64Lanes rd value lanes b : EmitM ε Unit) ws := by
      intro b
      obtain ⟨ws, hlen, hws⟩ := hrest b
      exact ⟨ws, Nat.le_succ_of_le hlen, hws⟩
    unfold loadConst64Lanes
    dsimp only
    split_ifs
    · exact hskip emitted
    · exact hskip emitted
    · obtain ⟨w, hw⟩ : ∃ w, Writes p (movz64 rd _ (lane * 16) : EmitM ε Unit) [w] :=
        writes_movz64 rd (value.extractLsb' (16 * lane) 16) hlane
      obtain ⟨ws, hlen, hws⟩ := hrest true
      exact ⟨w :: ws, Nat.succ_le_succ hlen, hw.seq hws⟩
    · obtain ⟨w, hw⟩ : ∃ w, Writes p (movk64 rd _ (lane * 16) : EmitM ε Unit) [w] :=
        writes_movk64 rd (value.extractLsb' (16 * lane) 16) hlane
      obtain ⟨ws, hlen, hws⟩ := hrest emitted
      exact ⟨w :: ws, Nat.succ_le_succ hlen, hw.seq hws⟩

theorem writes_loadConst64 (rd : Reg) (value : BitVec 64) :
    ∃ ws, ws.length ≤ 5 ∧ Writes p (loadConst64 rd value : EmitM ε Unit) ws := by
  unfold loadConst64
  split
  · obtain ⟨w, hw⟩ : ∃ w, Writes p (movz64 rd (value.setWidth 16) 0 : EmitM ε Unit) [w] :=
      writes_movz64 rd _ (by decide)
    exact ⟨[w], by simp, hw⟩
  · have hlanes : ∀ lane ∈ [0, 1, 2, 3], lane < 4 := by
      decide
    exact writes_loadConst64Lanes rd value hlanes false

theorem writes_ldr64 {rt rn : Reg} {offset : BitVec 32} (h : Fits 8 offset) :
    ∃ w, Writes p (ldr64 rt rn offset : EmitM ε Unit) [w] := by
  have hdiv : (offset / BitVec.ofNat 32 8).toNat < 2 ^ 12 := by
    rw [BitVec.toNat_udiv, BitVec.toNat_ofNat, Nat.mod_eq_of_lt (by decide)]
    exact h.2
  exact ⟨_, .assert h.1 (.assert hdiv (.push _))⟩

theorem writes_str64 {rt rn : Reg} {offset : BitVec 32} (h : Fits 8 offset) :
    ∃ w, Writes p (str64 rt rn offset : EmitM ε Unit) [w] := by
  have hdiv : (offset / BitVec.ofNat 32 8).toNat < 2 ^ 12 := by
    rw [BitVec.toNat_udiv, BitVec.toNat_ofNat, Nat.mod_eq_of_lt (by decide)]
    exact h.2
  exact ⟨_, .assert h.1 (.assert hdiv (.push _))⟩

theorem writes_emitRegsToCtx (rs : List GpReg) :
    ∃ ws, ws.map decode = spillInsns rs ∧ Writes p (emitRegsToCtx rs : EmitM ε Unit) ws := by
  have hws : ∃ ws, Writes p (emitRegsToCtx rs : EmitM ε Unit) ws := by
    induction rs with
    | nil => exact ⟨[], fun e => by rw [Emitter.append_nil]; rfl⟩
    | cons r rs ih =>
      obtain ⟨w, hw⟩ : ∃ w, Writes p (str64 (hostReg r) 28 (ctxOffset r) : EmitM ε Unit) [w] :=
        writes_str64 (fits_ctxOffset r)
      obtain ⟨ws, hws⟩ := ih
      exact ⟨_, hw.seq hws⟩
  obtain ⟨ws, hws⟩ := hws
  exact ⟨ws, hws.emits (emits_emitRegsToCtx (Q := fun _ is => is = spillInsns rs) rs rfl), hws⟩

theorem writes_ldp64Post (rt rt2 : Reg) : ∃ w, Writes p (ldp64Post rt rt2 31 16 : EmitM ε Unit) [w] :=
  ⟨_, .assert (by decide) (.assert (by decide) (.push _))⟩

theorem writes_emitHostEpilogue : ∃ ws last, ws.map decode = epilogueInsns ∧
    decode last = some (.ret 30) ∧ Writes p (emitHostEpilogue : EmitM ε Unit) (ws ++ [last]) := by
  obtain ⟨w₁, h₁⟩ := @writes_ldp64Post ε p 24 25
  obtain ⟨w₂, h₂⟩ := @writes_ldp64Post ε p 19 28
  obtain ⟨w₃, h₃⟩ := @writes_ldp64Post ε p 29 30
  obtain ⟨last, h₄⟩ : ∃ w, Writes p (ret : EmitM ε Unit) [w] := ⟨_, .push _⟩
  have hall : Writes p (emitHostEpilogue : EmitM ε Unit) ([w₁, w₂, w₃] ++ [last]) :=
    h₁.seq (h₂.seq (h₃.seq h₄))
  have hdec : ([w₁, w₂, w₃] ++ [last]).map decode = epilogueInsns ++ [some (.ret 30)] :=
    hall.emits (emits_emitHostEpilogue (Q := fun _ is => is = epilogueInsns ++ [some (.ret 30)]) rfl)
  rw [List.map_append] at hdec
  obtain ⟨hws, hlast⟩ := List.append_inj hdec rfl
  exact ⟨[w₁, w₂, w₃], last, hws, List.singleton_inj.mp hlast, hall⟩

/-! ### The prologue -/

/-- The loads of the guest registers. -/
def reloadInsns (rs : List GpReg) : List (Option Insn) :=
  rs.map fun r => some (loadInsn .b8 (hostReg r) 28 (ctxOffset r))

/-- The host frame is pushed and the context taken. -/
def frameInsns : List (Option Insn) :=
  [some (pushInsn 29 30), some (pushInsn 19 28), some (pushInsn 24 25), some (.logicShift .orr 0 0 31 28)]

/-- Everything that a block does before its first guest instruction. -/
def prologueInsns : List (Option Insn) :=
  frameInsns ++ (reloadInsns GpReg.all ++
    [some (loadInsn .b8 24 28 144), some (loadInsn .b8 25 28 152)])

theorem emits_emitCtxToRegs (rs : List GpReg) {Q : Unit → List (Option Insn) → Prop}
    (h : Q () (reloadInsns rs)) : Emits p (emitCtxToRegs rs : EmitM ε Unit) Q := by
  induction rs generalizing Q with
  | nil => exact Emits.pure h
  | cons r rs ih => exact Emits.bind (emits_ldr64 (fits_ctxOffset r) (ih h))

theorem emits_emitPrologue {Q : Unit → List (Option Insn) → Prop} (h : Q () prologueInsns) :
    Emits p (emitPrologue : EmitM ε Unit) Q := by
  have h144 : Fits 8 144#32 := by
    decide
  have h152 : Fits 8 152#32 := by
    decide
  refine Emits.bind (emits_stp64Pre (Emits.bind (emits_stp64Pre (Emits.bind (emits_stp64Pre
    (Emits.bind (emits_mov64 (Emits.bind (emits_emitCtxToRegs _ (Emits.bind (emits_ldr64 h144
      (emits_ldr64 h152 ?_))))))))))))
  exact h

theorem writes_emitPrologue :
    ∃ ws, ws.map decode = prologueInsns ∧ Writes p (emitPrologue : EmitM ε Unit) ws := by
  have hpush : ∀ rt rt2 : Reg, ∃ w, Writes p (stp64Pre rt rt2 31 (-16) : EmitM ε Unit) [w] :=
    fun rt rt2 => ⟨_, .assert (by decide) (.assert (by decide) (.push _))⟩
  have hload : ∀ rs, ∃ ws, Writes p (emitCtxToRegs rs : EmitM ε Unit) ws := by
    intro rs
    induction rs with
    | nil => exact ⟨[], fun e => by rw [Emitter.append_nil]; rfl⟩
    | cons r rs ih =>
      obtain ⟨w, hw⟩ : ∃ w, Writes p (ldr64 (hostReg r) 28 (ctxOffset r) : EmitM ε Unit) [w] :=
        writes_ldr64 (fits_ctxOffset r)
      obtain ⟨ws, hws⟩ := ih
      exact ⟨_, hw.seq hws⟩
  obtain ⟨w₁, h₁⟩ := hpush 29 30
  obtain ⟨w₂, h₂⟩ := hpush 19 28
  obtain ⟨w₃, h₃⟩ := hpush 24 25
  obtain ⟨w₄, h₄⟩ : ∃ w, Writes p (mov64 28 0 : EmitM ε Unit) [w] := ⟨_, .push _⟩
  obtain ⟨ws, hws⟩ := hload GpReg.all
  obtain ⟨w₅, h₅⟩ : ∃ w, Writes p (ldr64 24 28 144 : EmitM ε Unit) [w] := writes_ldr64 (by decide)
  obtain ⟨w₆, h₆⟩ : ∃ w, Writes p (ldr64 25 28 152 : EmitM ε Unit) [w] := writes_ldr64 (by decide)
  have hall : Writes p (emitPrologue : EmitM ε Unit) _ :=
    h₁.seq (h₂.seq (h₃.seq (h₄.seq (hws.seq (h₅.seq h₆)))))
  exact ⟨_, hall.emits (emits_emitPrologue (Q := fun _ is => is = prologueInsns) rfl), hall⟩

/-! ### The body -/

theorem decodeLoop_xmmOk {longMode : Bool} {fuel : Nat} {rip : BitVec 64} {bs : List Byte}
    {body : List Inst} {term : Inst} {rest : List Byte}
    (h : decodeLoop longMode fuel rip bs = .ok (body, term, rest)) : ∀ inst ∈ body, inst.XmmOk := by
  induction fuel generalizing rip bs body with
  | zero => cases h
  | succ fuel ih =>
    unfold decodeLoop at h
    split at h
    · cases h
    · rename_i inst rest' hnext
      split at h
      · cases h
        simp
      · split at h
        · cases h
        · rename_i body' last rest'' hloop
          cases h
          intro i hi
          rcases List.mem_cons.mp hi with rfl | hi
          · exact decodeNext_xmmOk hnext
          · exact ih hloop i hi

/-- The lifts of a body keep an empty host stack empty. -/
theorem certifies_emitBody {A : Type} {D : Domain A} {lv : Nat → A} [Lenient D lv]
    {Γ : List (Label × A)} {bytes : List Byte} {rip : BitVec 64} {legacy32 : Bool} {body : List Inst}
    (hx : ∀ inst ∈ body, inst.XmmOk) (hret : ∀ inst ∈ body, inst.op.isTerminator = false) :
    Certifies D p Γ (lv 0) (emitBody bytes rip legacy32 body) fun _ Γ' b => Γ' = Γ ∧ b = lv 0 := by
  induction body with
  | nil => exact .pure ⟨rfl, rfl⟩
  | cons inst body ih =>
    have hop : inst.op ≠ .ret := by
      intro hret'
      have hterm := hret inst List.mem_cons_self
      rw [hret'] at hterm
      cases hterm
    have := hx inst List.mem_cons_self
    have hlift : Balanced D lv (lift legacy32 inst) := balanced_lift legacy32 inst hop
    refine .bind ((Certifies.mapErr (hlift.certifies p Γ)).mono ?_)
    rintro _ _ _ ⟨rfl, rfl⟩
    exact ih (fun i hi => hx i (List.mem_cons_of_mem _ hi)) fun i hi => hret i (List.mem_cons_of_mem _ hi)

/-! ### The three runs -/

/-- A translation, taken apart. -/
theorem block_parts {bytes : List Byte} {rip : BitVec 64} {mode : IsaMode} {blk : Block}
    (h : translateForDispatcher p bytes rip mode = .ok blk) :
    ∃ body term rest e₀ e₁ e₂ e₃ patches,
      decodeLoop (mode = .long) (bytes.length + 1) rip bytes = .ok (body, term, rest) ∧
      (emitPrologue : EmitM BlockError Unit) p Emitter.new = .ok ((), e₀) ∧
      emitBody bytes rip (mode = .legacy32) body p e₀ = .ok ((), e₁) ∧
      emitTerminator term p e₁ = .ok (patches, e₂) ∧ e₂.finish = (.ok (), e₃) ∧
      blk.code = e₃.code ∧ blk.chainPatches = patches := by
  unfold translateForDispatcher at h
  split at h
  · cases h
  · cases h
  · rename_i body term rest hdec
    unfold finishBlock at h
    split at h
    · cases h
    · rename_i patches e₂ hemit
      split at h
      · rename_i e₃ hfin
        cases h
        obtain ⟨_, e₀, h₀, hrest⟩ := bind_eq_ok hemit
        obtain ⟨_, e₁, h₁, h₂⟩ := bind_eq_ok hrest
        exact ⟨body, term, rest, e₀, e₁, e₂, e₃, patches, hdec, h₀, h₁, h₂, hfin, rfl, rfl⟩
      · cases h

end Quantum.Jit
