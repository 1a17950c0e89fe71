import Quantum.Jit.Equiv.Certify
import Quantum.Jit.Equiv.Flow
import Quantum.Jit.Equiv.Misencode

/-!
# Code that keeps the host frame

Most of the words that the lifter emits are harmless: they keep the context pointer, the stack
pointer and the saved host registers (`Harmless`).  A domain is lenient when it lets harmless words
stand anywhere, and counts the pairs on the host stack (`Lenient`).  A computation is steady when in
every such domain the annotation behind its code is the one before it (`Steady`); the encoders are
steady, and so is what is composed of steady parts, which instances find.
-/

namespace Quantum.Jit

open A64
open EmitM

/-! ### Harmless words -/

/-- The word goes on to the next one, and keeps the context pointer, the host stack and the frame. -/
structure Harmless (o : Option Insn) : Prop where
  isLinear : ∀ i, o = some i → i.isLinear = true
  safe : ∀ k : Ann, k.safe = true → (transfer k o).safe = true
  stack : ∀ k : Ann, (transfer k o).stack = k.stack

namespace Harmless

theorem none : Harmless none :=
  ⟨nofun, fun _ h => h, fun _ => rfl⟩

/-- Data processing that writes neither the context pointer nor the stack pointer. -/
theorem plain {i : Insn} (hi : i.isPlain = true) (hsp : i.usesSp = false)
    (hx : i.writesX ≠ some 28#5) : Harmless (some i) := by
  have htransfer : ∀ k, transfer k (some i) = k.plain i := by
    intro k
    cases i <;> first | rfl | cases hi
  refine ⟨fun j hj => ?_, fun k hk => ?_, fun k => ?_⟩
  · cases hj
    cases i <;> first | rfl | cases hi
  · rw [htransfer]
    simp [Ann.plain, hk, hsp, hx]
  · rw [htransfer]
    rfl

theorem call (rn : Reg) : Harmless (some (.blr rn)) :=
  ⟨fun _ h => by cases h; rfl, fun _ h => h, fun _ => rfl⟩

theorem brk (imm : BitVec 16) : Harmless (some (.brk imm)) :=
  ⟨fun _ h => by cases h; rfl, fun _ h => h, fun _ => rfl⟩

theorem simdScalar (w : Word) : Harmless (some (.simdScalar w)) :=
  ⟨fun _ h => by cases h; rfl, fun _ h => h, fun _ => rfl⟩

/-- A load or store, in the window of the context if it is relative to the context pointer. -/
theorem access {size opc : BitVec 2} {v : Bool} {imm12 : BitVec 12} {rn rt : Reg} (hrn : rn ≠ 31#5)
    (hwin : ∀ n, ldstBytes size v opc = some n →
      rn ≠ 28#5 ∨ Ann.inWindow (imm12.toNat * n) n = true)
    (hrt : rt ≠ 28#5) : Harmless (some (.ldst size v opc imm12 rn rt)) := by
  have htransfer : ∀ k, transfer k (some (.ldst size v opc imm12 rn rt))
      = k.access size v opc imm12 rn rt := fun _ => rfl
  refine ⟨fun j hj => by cases hj; rfl, fun k hk => ?_, fun k => ?_⟩
  · rw [htransfer, Ann.access]
    split
    · exact hk
    · rename_i n hn
      simp only [Ann.accessBytes, Bool.and_eq_true, bne_iff_ne, ne_eq, Bool.or_eq_true]
      exact ⟨⟨⟨hk, hrn⟩, hwin n hn⟩, .inr hrt⟩
  · rw [htransfer, Ann.access]
    split <;> rfl

end Harmless

/-! ### Registers -/

/-- Any register but the context pointer. -/
class NotCtx (r : Reg) : Prop where
  ne : r ≠ 28#5

/-- Any register but the context pointer and the stack pointer. -/
class General (r : Reg) : Prop extends NotCtx r where
  ne_sp : r ≠ 31#5

theorem General.of_lt {r : Reg} (h : r < 28#5) : General r where
  ne := by rintro rfl; exact absurd h (by decide)
  ne_sp := by rintro rfl; exact absurd h (by decide)

instance : NotCtx 31 := ⟨by decide⟩
instance (g : GpReg) : General (hostReg g) := .of_lt (by cases g <;> decide)
instance : General 0 := .of_lt (by decide)
instance : General 1 := .of_lt (by decide)
instance : General 2 := .of_lt (by decide)
instance : General 3 := .of_lt (by decide)
instance : General 4 := .of_lt (by decide)
instance : General 5 := .of_lt (by decide)
instance : General 6 := .of_lt (by decide)
instance : General 7 := .of_lt (by decide)
instance : General 16 := .of_lt (by decide)
instance : General 17 := .of_lt (by decide)
instance : General 19 := .of_lt (by decide)

/-- An XMM register number. -/
class IsXmm (d : BitVec 8) : Prop where
  lt : d.toNat < 16

/-! ### Lenient domains and steady code -/

/-- `lv d` is the annotation with `d` pairs on the host stack. -/
class Lenient {A : Type} (D : Domain A) (lv : Nat → A) : Prop where
  harmless : ∀ {d : Nat} {o : Option Insn}, Harmless o → D.next (lv d) o (lv d)
  push : ∀ {d : Nat} {rt rt2 : Reg}, d < 5 → D.next (lv d) (some (pushInsn rt rt2)) (lv (d + 1))
  pop : ∀ {d : Nat} {rt rt2 : Reg}, rt ≠ 28#5 → rt2 ≠ 28#5 →
    D.next (lv (d + 1)) (some (popInsn rt rt2)) (lv d)

section Steady

variable {A : Type} (D : Domain A) (lv : Nat → A) {ε α β : Type}

/-- The code keeps the number of pairs on the host stack. -/
class Steady (m : EmitM ε α) : Prop where
  certifies : ∀ (p : Profile) (Γ : List (Label × A)) (d : Nat),
    Certifies D p Γ (lv d) m fun _ Γ' b => Γ' = Γ ∧ b = lv d

variable {D lv}

namespace Steady

instance pure (a : α) : Steady D lv (Pure.pure a : EmitM ε α) :=
  ⟨fun _ _ _ => .pure ⟨rfl, rfl⟩⟩

/-- Steady code before code that ends in any way. -/
theorem before {m : EmitM ε α} {f : α → EmitM ε β} [hm : Steady D lv m] {p : Profile}
    {Γ : List (Label × A)} {d : Nat} {R : β → List (Label × A) → A → Prop}
    (h : ∀ v, Certifies D p Γ (lv d) (f v) R) : Certifies D p Γ (lv d) (m >>= f) R :=
  .bind ((hm.certifies p Γ d).mono fun v _ _ hq => by
    obtain ⟨rfl, rfl⟩ := hq
    exact h v)

instance bind (m : EmitM ε α) (f : α → EmitM ε β) [Steady D lv m] [h : ∀ v, Steady D lv (f v)] :
    Steady D lv (m >>= f) :=
  ⟨fun p Γ d => before fun v => (h v).certifies p Γ d⟩

instance fail (x : ε) : Steady D lv (EmitM.fail x : EmitM ε α) :=
  ⟨fun _ _ _ => .fail⟩

instance panic (msg : String) : Steady D lv (EmitM.panic msg : EmitM ε α) :=
  ⟨fun _ _ _ => .panic⟩

instance okOr (o : Option α) (x : ε) : Steady D lv (EmitM.okOr o x) :=
  ⟨fun _ _ _ => .okOr fun _ _ => ⟨rfl, rfl⟩⟩

instance debugAssert (c : Prop) [Decidable c] (msg : String) :
    Steady D lv (EmitM.debugAssert c msg : EmitM ε Unit) :=
  ⟨fun _ _ _ => .debugAssert fun _ => ⟨rfl, rfl⟩⟩

instance mapErr {ε' : Type} (g : ε → ε') (m : EmitM ε α) [h : Steady D lv m] :
    Steady D lv (EmitM.mapErr g m) :=
  ⟨fun p Γ d => .mapErr (h.certifies p Γ d)⟩

instance ite (c : Prop) [Decidable c] (m₁ m₂ : EmitM ε α) [h₁ : Steady D lv m₁]
    [h₂ : Steady D lv m₂] : Steady D lv (if c then m₁ else m₂) := by
  split
  · exact h₁
  · exact h₂

/-- A value that must be there, with the equation. -/
theorem bind_okOr {o : Option α} {x : ε} {f : α → EmitM ε β}
    (h : ∀ v, o = some v → Steady D lv (f v)) : Steady D lv (EmitM.okOr o x >>= f) := by
  refine ⟨fun p Γ d => .bind (.okOr fun v hv => ?_)⟩
  exact (h v hv).certifies p Γ d

variable [hL : Lenient D lv]

theorem push {w : Word} (h : Harmless (decode w)) : Steady D lv (EmitM.push w : EmitM ε Unit) :=
  ⟨fun _ _ _ => .push h.isLinear (hL.harmless h) ⟨rfl, rfl⟩⟩

/-- Words that are appended to certified code. -/
theorem append_harmless {e : Emitter} {lab pts : List A} {d : Nat} (ws : List Word)
    (h : Cert D e lab pts (lv d)) (hws : ∀ w ∈ ws, Harmless (decode w)) :
    ∃ pts', Cert D (e.append ws) lab pts' (lv d) ∧
      D.le (ptAt pts (lv d) 0) (ptAt pts' (lv d) 0) := by
  induction ws generalizing e pts with
  | nil => exact ⟨pts, by simpa using h, D.le_refl _⟩
  | cons w ws ih =>
    have hw := hws w (by simp)
    have hc : Cert D (e.append [w]) lab (pts ++ [lv d]) (lv d) :=
      h.appendNext hw.isLinear (hL.harmless hw)
    obtain ⟨pts', h', hent⟩ := ih hc fun v hv => hws v (by simp [hv])
    rw [Emitter.append_append, List.singleton_append] at h'
    exact ⟨pts', h', D.le_trans Certifies.entry_concat hent⟩

/-- Straight code of harmless words. -/
theorem of_emits {m : EmitM ε α} (h : ∀ p, Emits p m fun _ is => ∀ o ∈ is, Harmless o) :
    Steady D lv m := by
  refine ⟨fun p Γ d e lab pts v e' hc hk hm => ?_⟩
  obtain ⟨ws, rfl, hq⟩ := h p e v e' hm
  obtain ⟨pts', hc', hent⟩ := append_harmless ws hc fun w hw =>
    hq _ (List.mem_map.mpr ⟨w, hw, rfl⟩)
  exact ⟨lab, pts', lv d, Γ, hc', List.prefix_rfl, hk, hent, .append e ws, rfl, rfl⟩

/-- One harmless instruction. -/
theorem of_emits_one {m : EmitM ε α}
    (h : ∀ p, Emits p m fun _ is => ∃ o, is = [o] ∧ Harmless o) : Steady D lv m :=
  of_emits fun p => (h p).mono fun _ is hq => by
    obtain ⟨o, rfl, ho⟩ := hq
    simpa using ho

end Steady

/-! ### Encoders of the integer instructions -/

section Encoders

variable [hL : Lenient D lv] {rd rn rm ra rt : Reg}

/-- Data processing without the stack pointer. -/
theorem Steady.plain {m : EmitM ε Unit} {i : Insn} (h : ∀ p, Emits p m fun _ is => is = [some i])
    (hi : i.isPlain = true) (hsp : i.usesSp = false) (hx : i.writesX ≠ some 28#5) :
    Steady D lv m :=
  .of_emits_one fun p => (h p).mono fun _ _ hq => ⟨_, hq, .plain hi hsp hx⟩

/-- One word of data processing. -/
theorem Steady.word {w : Word} {i : Insn} (h : decode w = some i) (hi : i.isPlain = true)
    (hsp : i.usesSp = false) (hx : i.writesX ≠ some 28#5) :
    Steady D lv (EmitM.push w : EmitM ε Unit) :=
  .push (by rw [h]; exact .plain hi hsp hx)

theorem NotCtx.some_ne (r : Reg) [h : NotCtx r] : some r ≠ some 28#5 :=
  fun hc => h.ne (Option.some.inj hc)

instance [NotCtx rd] (imm : BitVec 16) (lsl : Nat) :
    Steady D lv (movz64 rd imm lsl : EmitM ε Unit) :=
  .plain (fun _ => emits_movz64 rfl) rfl rfl (NotCtx.some_ne rd)

instance [NotCtx rd] (imm : BitVec 16) (lsl : Nat) :
    Steady D lv (movk64 rd imm lsl : EmitM ε Unit) :=
  .plain (fun _ => emits_movk64 rfl) rfl rfl (NotCtx.some_ne rd)

instance [NotCtx rd] (imm : BitVec 16) : Steady D lv (movz32 rd imm 0 : EmitM ε Unit) :=
  .plain (fun _ => emits_movz32 rfl) rfl rfl (NotCtx.some_ne rd)

instance [NotCtx rd] (imm : BitVec 16) : Steady D lv (movk32 rd imm 16 : EmitM ε Unit) :=
  .plain (fun _ => emits_movk32 rfl) rfl rfl (NotCtx.some_ne rd)

instance [h : General rd] (value : BitVec 64) : Steady D lv (loadConst64 rd value : EmitM ε Unit) :=
  .of_emits fun _ => emits_loadConst64 h.ne_sp value fun _ hs o ho => by
    obtain ⟨op, hw, imm, rfl⟩ := hs.moves o ho
    exact .plain rfl rfl (NotCtx.some_ne rd)

/-- The four add/subtract immediates. -/
theorem Steady.addsub64Imm (op s : BitVec 1) (imm : BitVec 32) (hrn : rn ≠ 31#5)
    (hrd : s = 0#1 → rd ≠ 31#5) [NotCtx rd] :
    Steady D lv (Jit.addsub64Imm op s rd rn imm : EmitM ε Unit) := by
  refine .of_emits_one fun _ => emits_addsub64Imm fun sh i _ => ⟨_, rfl, .plain rfl ?_ ?_⟩
  · rcases bv1_cases s with rfl | rfl
    · simp [Insn.usesSp, hrn, hrd rfl]
    · simp [Insn.usesSp, hrn]
  · exact NotCtx.some_ne rd

instance [h : General rd] [hn : General rn] (imm : BitVec 32) :
    Steady D lv (add64Imm rd rn imm : EmitM ε Unit) :=
  .addsub64Imm 0 0 imm hn.ne_sp fun _ => h.ne_sp

instance [h : General rd] [hn : General rn] (imm : BitVec 32) :
    Steady D lv (sub64Imm rd rn imm : EmitM ε Unit) :=
  .addsub64Imm 1 0 imm hn.ne_sp fun _ => h.ne_sp

instance [NotCtx rd] [hn : General rn] (imm : BitVec 32) :
    Steady D lv (adds64Imm rd rn imm : EmitM ε Unit) :=
  .addsub64Imm 0 1 imm hn.ne_sp nofun

instance [NotCtx rd] [hn : General rn] (imm : BitVec 32) :
    Steady D lv (subs64Imm rd rn imm : EmitM ε Unit) :=
  .addsub64Imm 1 1 imm hn.ne_sp nofun

instance [General rn] (imm : BitVec 32) : Steady D lv (cmp64Imm rn imm : EmitM ε Unit) :=
  inferInstanceAs (Steady D lv (subs64Imm 31 rn imm))

instance [NotCtx rd] : Steady D lv (add64 rd rn rm : EmitM ε Unit) :=
  .plain (fun _ => emits_add64 rfl) rfl rfl (NotCtx.some_ne rd)

instance [NotCtx rd] : Steady D lv (adds64 rd rn rm : EmitM ε Unit) :=
  .plain (fun _ => emits_adds64 rfl) rfl rfl (NotCtx.some_ne rd)

instance [NotCtx rd] : Steady D lv (sub64 rd rn rm : EmitM ε Unit) :=
  .plain (fun _ => emits_sub64 rfl) rfl rfl (NotCtx.some_ne rd)

instance [NotCtx rd] : Steady D lv (subs64 rd rn rm : EmitM ε Unit) :=
  .plain (fun _ => emits_subs64 rfl) rfl rfl (NotCtx.some_ne rd)

instance : Steady D lv (cmp64 rn rm : EmitM ε Unit) :=
  inferInstanceAs (Steady D lv (subs64 31 rn rm))

instance [NotCtx rd] : Steady D lv (and64 rd rn rm : EmitM ε Unit) :=
  .plain (fun _ => emits_and64 rfl) rfl rfl (NotCtx.some_ne rd)

instance [NotCtx rd] : Steady D lv (orr64 rd rn rm : EmitM ε Unit) :=
  .plain (fun _ => emits_orr64 rfl) rfl rfl (NotCtx.some_ne rd)

instance [NotCtx rd] : Steady D lv (eor64 rd rn rm : EmitM ε Unit) :=
  .plain (fun _ => emits_eor64 rfl) rfl rfl (NotCtx.some_ne rd)

instance [NotCtx rd] : Steady D lv (ands64 rd rn rm : EmitM ε Unit) :=
  .plain (fun _ => emits_ands64 rfl) rfl rfl (NotCtx.some_ne rd)

instance [NotCtx rd] : Steady D lv (mov64 rd rm : EmitM ε Unit) :=
  inferInstanceAs (Steady D lv (orr64 rd 31 rm))

instance [NotCtx rd] : Steady D lv (udiv64 rd rn rm : EmitM ε Unit) :=
  .word (decode_udiv64 ..) rfl rfl (NotCtx.some_ne rd)

instance [NotCtx rd] : Steady D lv (sdiv64 rd rn rm : EmitM ε Unit) :=
  .word (decode_sdiv64 ..) rfl rfl (NotCtx.some_ne rd)

instance [NotCtx rd] : Steady D lv (lslv64 rd rn rm : EmitM ε Unit) :=
  .word (decode_lslv64 ..) rfl rfl (NotCtx.some_ne rd)

instance [NotCtx rd] : Steady D lv (lsrv64 rd rn rm : EmitM ε Unit) :=
  .word (decode_lsrv64 ..) rfl rfl (NotCtx.some_ne rd)

instance [NotCtx rd] : Steady D lv (asrv64 rd rn rm : EmitM ε Unit) :=
  .word (decode_asrv64 ..) rfl rfl (NotCtx.some_ne rd)

instance [NotCtx rd] : Steady D lv (rorv64 rd rn rm : EmitM ε Unit) :=
  .word (decode_rorv64 ..) rfl rfl (NotCtx.some_ne rd)

instance [NotCtx rd] : Steady D lv (mul64 rd rn rm : EmitM ε Unit) :=
  .plain (fun _ => emits_mul64 rfl) rfl rfl (NotCtx.some_ne rd)

instance [NotCtx rd] : Steady D lv (msub64 rd rn rm ra : EmitM ε Unit) :=
  .plain (fun _ => emits_msub64 rfl) rfl rfl (NotCtx.some_ne rd)

instance [NotCtx rd] : Steady D lv (umulh64 rd rn rm : EmitM ε Unit) :=
  .plain (fun _ => emits_umulh64 rfl) rfl rfl (NotCtx.some_ne rd)

instance [NotCtx rd] : Steady D lv (smulh64 rd rn rm : EmitM ε Unit) :=
  .plain (fun _ => emits_smulh64 rfl) rfl rfl (NotCtx.some_ne rd)

instance [NotCtx rd] (c : A64.Cond) : Steady D lv (csel64 rd rn rm c : EmitM ε Unit) :=
  .plain (fun _ => emits_csel64 rfl) rfl rfl (NotCtx.some_ne rd)

instance [NotCtx rd] (c : A64.Cond) : Steady D lv (cset64 rd c : EmitM ε Unit) :=
  .plain (fun _ => emits_cset64 rfl) rfl rfl (NotCtx.some_ne rd)

instance : Steady D lv (blr rn : EmitM ε Unit) :=
  .of_emits_one fun _ => emits_blr ⟨_, rfl, .call rn⟩

instance : Steady D lv (nop : EmitM ε Unit) :=
  .word decode_nop rfl rfl nofun

instance (imm : BitVec 16) : Steady D lv (brk imm : EmitM ε Unit) :=
  .push (by rw [decode_brk]; exact .brk imm)

/-! ### Masks, extensions and shifted operands -/

/-- `AND` with a mask of low bits. -/
theorem Steady.andImm [h : General rd] {w : Word} {imms : BitVec 6}
    (hw : decode w = some (.andImm imms rn rd)) : Steady D lv (EmitM.push w : EmitM ε Unit) :=
  .word hw rfl (decide_eq_false h.ne_sp) (NotCtx.some_ne rd)

instance [General rd] : Steady D lv (emitAndImmByte rd rn) := .andImm (decode_andImm_uxtb ..)
instance [General rd] : Steady D lv (emitAndImmWord rd rn) := .andImm (decode_andImm_uxth ..)
instance [General rd] : Steady D lv (emitAndImmLo32 rd rn) := .andImm (decode_andImm_lo32 ..)

instance [General rd] (size : OpSize) : Steady D lv (maskB4 size rd) := by
  unfold maskB4
  infer_instance

instance [NotCtx rd] : Steady D lv (emitSxtByte rd rn) :=
  .word (decode_sxtb ..) rfl rfl (NotCtx.some_ne rd)

instance [NotCtx rd] : Steady D lv (emitSxtWord rd rn) :=
  .word (decode_sxth ..) rfl rfl (NotCtx.some_ne rd)

instance [NotCtx rd] : Steady D lv (emitSxtw rd rn) :=
  .word (decode_sxtw ..) rfl rfl (NotCtx.some_ne rd)

instance [NotCtx rd] (shift : BitVec 6) : Steady D lv (emitAddLsl64 rd rn rm shift) :=
  .word (decode_addLsl64 ..) rfl rfl (NotCtx.some_ne rd)

instance [NotCtx rd] (shift : BitVec 6) : Steady D lv (emitOrrLsl64 rd rn rm shift) :=
  .word (decode_orrLsl64 ..) rfl rfl (NotCtx.some_ne rd)

instance [NotCtx rd] (immr imms : BitVec 6) : Steady D lv (emitUbfm64 rd rn immr imms) :=
  .word (decode_ubfmWord ..) rfl rfl (NotCtx.some_ne rd)

instance [NotCtx rd] : Steady D lv (emitUxtw rd rn) :=
  inferInstanceAs (Steady D lv (emitUbfm64 rd rn 0 31))

instance [NotCtx rd] : Steady D lv (revX rd rn : EmitM ε Unit) :=
  .word (decode_revX ..) rfl rfl (NotCtx.some_ne rd)

instance [NotCtx rd] : Steady D lv (revW rd rn : EmitM ε Unit) :=
  .word (decode_revW ..) rfl rfl (NotCtx.some_ne rd)

/-! ### Loads and stores -/

/-- Whatever a load or store through a guest address encodes to. -/
theorem Steady.ldstScaled {n : Nat} {size opc : BitVec 2} {v : BitVec 1} {offset : BitVec 32}
    [hn : General rn] [ht : NotCtx rt] :
    Steady D lv (Jit.ldstScaled n size v opc offset rn rt : EmitM ε Unit) := by
  refine .bind _ _ (h := fun _ => .bind _ _ (h := fun _ => .push ?_))
  rcases decode_ldstUoffWord_cases size opc v (offset / BitVec.ofNat 32 n) rn rt with hw | hw | hw
  · rw [hw]
    exact .access hn.ne_sp (fun _ _ => .inl hn.ne) ht.ne
  · rw [hw]
    exact .none
  · rw [hw]
    exact .simdScalar _

section Access

variable [General rn] [NotCtx rt] (offset : BitVec 32)

instance : Steady D lv (ldr64 rt rn offset : EmitM ε Unit) := .ldstScaled
instance : Steady D lv (ldr32 rt rn offset : EmitM ε Unit) := .ldstScaled
instance : Steady D lv (ldrh rt rn offset : EmitM ε Unit) := .ldstScaled
instance : Steady D lv (ldrb rt rn offset : EmitM ε Unit) := .ldstScaled
instance : Steady D lv (str64 rt rn offset : EmitM ε Unit) := .ldstScaled
instance : Steady D lv (str32 rt rn offset : EmitM ε Unit) := .ldstScaled
instance : Steady D lv (strh rt rn offset : EmitM ε Unit) := .ldstScaled
instance : Steady D lv (strb rt rn offset : EmitM ε Unit) := .ldstScaled
instance : Steady D lv (ldrQ rt rn offset : EmitM ε Unit) := .ldstScaled
instance : Steady D lv (strQ rt rn offset : EmitM ε Unit) := .ldstScaled
instance : Steady D lv (ldrD rt rn offset : EmitM ε Unit) := .ldstScaled
instance : Steady D lv (ldrS rt rn offset : EmitM ε Unit) := .ldstScaled

instance (size : OpSize) : Steady D lv (loadSized rt rn offset size) := by
  cases size <;> exact .ldstScaled

instance (size : OpSize) : Steady D lv (storeSized rt rn offset size) := by
  cases size <;> exact .ldstScaled

end Access

/-! ### Effective addresses -/

section Address

variable {xtmp : Reg} [General xtmp]

instance (imm : BitVec 32) : Steady D lv (add64ImmSafe xtmp xtmp imm) := by
  unfold add64ImmSafe
  infer_instance

instance (imm : BitVec 32) : Steady D lv (sub64ImmSafe xtmp xtmp imm) := by
  unfold sub64ImmSafe
  infer_instance

instance (base : Option GpReg) : Steady D lv (memBaseInto base xtmp) := by
  cases base <;> (unfold memBaseInto; infer_instance)

instance (seg : Option Seg) : Steady D lv (memSegInto seg xtmp) := by
  cases seg <;> (unfold memSegInto; infer_instance)

instance (index : Option GpReg) (scale : Nat) : Steady D lv (memIndexInto index scale xtmp) := by
  unfold memIndexInto
  split
  · split <;> infer_instance
  · infer_instance

instance (disp : BitVec 32) : Steady D lv (memDispInto disp xtmp) := by
  unfold memDispInto
  infer_instance

instance (m : Mem) : Steady D lv (memAddressInto m xtmp) := by
  unfold memAddressInto
  infer_instance

instance (op : Operand) (inst : Inst) : Steady D lv (addrIntoXtmp op inst xtmp) := by
  unfold addrIntoXtmp
  split <;> infer_instance

instance (op : Operand) (inst : Inst) (size : OpSize) : Steady D lv (loadOperand op inst size) := by
  unfold loadOperand
  infer_instance

end Address

end Encoders

end Steady

end Quantum.Jit
