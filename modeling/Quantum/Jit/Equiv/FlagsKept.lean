import Quantum.Jit.Equiv.Simulation
import Quantum.Jit.Equiv.Steady

/-!
# What the code shows of the flags

The host's flags show what is known of the guest's (`Shows`).  Moves and the like keep both: no word of their code
writes the host's flags (`KeepsFlags`), which instances find.  An instruction whose flags are followed sets them from
the values of its operands (`shows_flagOp`).
-/

namespace Quantum.Jit

open A64
open EmitM

variable {p : Profile} {ε α β : Type}

/-! ### Words that keep the flags -/

/-- The word is no call, and does not write the flags. -/
def SparesFlags (o : Option Insn) : Prop :=
  ∀ i, o = some i → i.writesNzcv = false ∧ ∀ r, i ≠ .blr r

theorem nzcv_execData {env : Env} {i : Insn} {s s' : State} (hi : i.writesNzcv = false)
    (h : execData env i s = some s') : s'.nzcv = s.nzcv := by
  cases i with
  | addSubImm sub setFlags sh imm rn rd =>
    obtain rfl : setFlags = false := hi
    cases h
    rfl
  | addSubShift sub setFlags rm lsl rn rd =>
    obtain rfl : setFlags = false := hi
    cases h
    exact State.writeX_nzcv ..
  | logicShift op rm lsl rn rd =>
    have hop : op ≠ .ands := of_decide_eq_false hi
    simp only [execData, if_neg hop, Option.some.injEq] at h
    rw [← h, State.writeX_nzcv]
  | ldst size v opc imm rn rt =>
    simp only [execData, execLdst] at h
    split at h
    · split at h <;> cases h
      rfl
    · split at h <;> split at h <;> cases h <;> first | rfl | exact State.writeX_nzcv ..
  | ldstPair load mode imm rt2 rn rt =>
    cases h
    cases load <;> cases mode <;> simp [execPair, State.writeXsp]
  | simdScalar w =>
    obtain ⟨r, -, rfl⟩ := Option.map_eq_some_iff.mp h
    rfl
  | addSubCarry | msrNzcv | fcmp => cases hi
  | _ => first | (cases h; done) | (cases h; first | rfl | exact State.writeX_nzcv ..)

/-- A run of such words. -/
theorem nzcv_runSeq {env : Env} {is : List (Option Insn)} {pc : Nat} {s s' : State} (his : ∀ o ∈ is, SparesFlags o)
    (h : runSeq env pc is s = some s') : s'.nzcv = s.nzcv := by
  induction is generalizing pc s with
  | nil =>
    cases h
    rfl
  | cons o is ih =>
    obtain ⟨hfirst, hrest⟩ := List.forall_mem_cons.mp his
    cases o with
    | none => cases h
    | some i =>
      obtain ⟨t, hi, ht⟩ := Option.bind_eq_some_iff.mp h
      obtain ⟨hspare, hcall⟩ := hfirst i rfl
      have hdata : execData env i s = some t := by
        rw [← hi]
        unfold execOne
        split
        · exact absurd rfl (hcall _)
        · rfl
      rw [ih hrest ht, nzcv_execData hspare hdata]

/-- The code keeps the host's flags. -/
class KeepsFlags (m : EmitM ε α) : Prop where
  emits : ∀ p, Emits p m fun _ is => ∀ o ∈ is, SparesFlags o

namespace KeepsFlags

instance pure (a : α) : KeepsFlags (Pure.pure a : EmitM ε α) :=
  ⟨fun _ => Emits.pure (by simp)⟩

instance fail (x : ε) : KeepsFlags (EmitM.fail x : EmitM ε α) :=
  ⟨fun _ => Emits.fail⟩

instance okOr (o : Option α) (x : ε) : KeepsFlags (EmitM.okOr o x) :=
  ⟨fun _ => Emits.okOr fun _ _ => by simp⟩

instance debugAssert (c : Prop) [Decidable c] (msg : String) : KeepsFlags (EmitM.debugAssert c msg : EmitM ε Unit) :=
  ⟨fun _ => Emits.debugAssert fun _ => by simp⟩

instance bind (m : EmitM ε α) (f : α → EmitM ε β) [hm : KeepsFlags m] [hf : ∀ a, KeepsFlags (f a)] :
    KeepsFlags (m >>= f) :=
  ⟨fun p => Emits.bind ((hm.emits p).mono fun a _ his => ((hf a).emits p).mono fun _ _ hjs o ho =>
    (List.mem_append.mp ho).elim (his o) (hjs o))⟩

/-- A bind whose second part needs a case split. -/
theorem seq {m : EmitM ε α} {f : α → EmitM ε β} [KeepsFlags m] (h : ∀ a, KeepsFlags (f a)) : KeepsFlags (m >>= f) :=
  bind m f

instance ite (c : Prop) [Decidable c] (m₁ m₂ : EmitM ε α) [h₁ : KeepsFlags m₁] [h₂ : KeepsFlags m₂] :
    KeepsFlags (if c then m₁ else m₂) := by
  split
  · exact h₁
  · exact h₂

/-- One instruction. -/
theorem one {m : EmitM ε α} {i : Insn} (h : ∀ p, Emits p m fun _ is => is = [some i]) (hi : i.writesNzcv = false)
    (hcall : ∀ r, i ≠ .blr r) : KeepsFlags m := by
  refine ⟨fun p => (h p).mono ?_⟩
  rintro _ _ rfl o ho j rfl
  obtain rfl := Option.some.inj (List.mem_singleton.mp ho)
  exact ⟨hi, hcall⟩

theorem word {w : Word} {i : Insn} (h : decode w = some i) (hi : i.writesNzcv = false) (hcall : ∀ r, i ≠ .blr r) :
    KeepsFlags (EmitM.push w : EmitM ε Unit) :=
  one (fun _ => Emits.push (by rw [h])) hi hcall

section Words

variable {rd rn rm rt : Reg}

instance (imm : BitVec 16) (lsl : Nat) : KeepsFlags (movz64 rd imm lsl : EmitM ε Unit) :=
  one (fun _ => emits_movz64 rfl) rfl nofun

instance (imm : BitVec 16) (lsl : Nat) : KeepsFlags (movk64 rd imm lsl : EmitM ε Unit) :=
  one (fun _ => emits_movk64 rfl) rfl nofun

instance (imm : BitVec 16) : KeepsFlags (movz32 rd imm 0 : EmitM ε Unit) :=
  one (fun _ => emits_movz32 rfl) rfl nofun

instance (imm : BitVec 16) : KeepsFlags (movk32 rd imm 16 : EmitM ε Unit) :=
  one (fun _ => emits_movk32 rfl) rfl nofun

instance [h : General rd] (v : BitVec 64) : KeepsFlags (loadConst64 rd v : EmitM ε Unit) := by
  refine ⟨fun _ => emits_loadConst64 h.ne_sp v fun is hl o ho i hi => ?_⟩
  obtain ⟨op, hw, imm, rfl⟩ := hl.moves o ho
  obtain rfl := Option.some.inj hi
  exact ⟨rfl, nofun⟩

theorem addsub64Imm (op : BitVec 1) (imm : BitVec 32) :
    KeepsFlags (Jit.addsub64Imm op 0 rd rn imm : EmitM ε Unit) := by
  refine ⟨fun _ => emits_addsub64Imm fun sh i _ o ho j hj => ?_⟩
  rw [List.mem_singleton.mp ho, Option.some.injEq] at hj
  subst hj
  exact ⟨rfl, nofun⟩

instance (imm : BitVec 32) : KeepsFlags (add64Imm rd rn imm : EmitM ε Unit) :=
  addsub64Imm 0 imm

instance (imm : BitVec 32) : KeepsFlags (sub64Imm rd rn imm : EmitM ε Unit) :=
  addsub64Imm 1 imm

instance : KeepsFlags (add64 rd rn rm : EmitM ε Unit) :=
  one (fun _ => emits_add64 rfl) rfl nofun

instance : KeepsFlags (sub64 rd rn rm : EmitM ε Unit) :=
  one (fun _ => emits_sub64 rfl) rfl nofun

instance : KeepsFlags (mov64 rd rm : EmitM ε Unit) :=
  one (fun _ => emits_mov64 rfl) rfl nofun

instance : KeepsFlags (emitAndImmByte rd rn) := word (decode_andImm_uxtb ..) rfl nofun
instance : KeepsFlags (emitAndImmWord rd rn) := word (decode_andImm_uxth ..) rfl nofun
instance : KeepsFlags (emitAndImmLo32 rd rn) := word (decode_andImm_lo32 ..) rfl nofun
instance : KeepsFlags (emitSxtByte rd rn) := word (decode_sxtb ..) rfl nofun
instance : KeepsFlags (emitSxtWord rd rn) := word (decode_sxth ..) rfl nofun
instance : KeepsFlags (emitSxtw rd rn) := word (decode_sxtw ..) rfl nofun
instance : KeepsFlags (emitNot rd) := word (decode_orn64 ..) rfl nofun

instance : KeepsFlags (nop : EmitM ε Unit) := word decode_nop rfl nofun

instance (shift : BitVec 6) : KeepsFlags (emitAddLsl64 rd rn rm shift) :=
  word (decode_addLsl64 ..) rfl nofun

instance (size : OpSize) : KeepsFlags (maskB4 size rd) := by
  unfold maskB4
  infer_instance

theorem ldstScaled {n : Nat} {size opc : BitVec 2} {v : BitVec 1} {offset : BitVec 32} :
    KeepsFlags (Jit.ldstScaled n size v opc offset rn rt : EmitM ε Unit) := by
  refine seq fun _ => seq fun _ => ⟨fun _ => Emits.push fun o ho i hi => ?_⟩
  rw [List.mem_singleton.mp ho] at hi
  rcases decode_ldstUoffWord_cases size opc v (offset / BitVec.ofNat 32 n) rn rt with hw | hw | hw <;>
    rw [hw] at hi <;> cases hi <;> exact ⟨rfl, nofun⟩

instance (offset : BitVec 32) : KeepsFlags (ldr64 rt rn offset : EmitM ε Unit) := ldstScaled
instance (offset : BitVec 32) : KeepsFlags (ldrh rt rn offset : EmitM ε Unit) := ldstScaled
instance (offset : BitVec 32) : KeepsFlags (ldrb rt rn offset : EmitM ε Unit) := ldstScaled
instance (offset : BitVec 32) : KeepsFlags (str64 rt rn offset : EmitM ε Unit) := ldstScaled

instance (offset : BitVec 32) (size : OpSize) : KeepsFlags (loadSized rt rn offset size) := by
  cases size <;> exact ldstScaled

instance (offset : BitVec 32) (size : OpSize) : KeepsFlags (storeSized rt rn offset size) := by
  cases size <;> exact ldstScaled

end Words

/-! ### Addresses -/

section Address

variable {xtmp : Reg} [General xtmp] (inst : Inst) (op : Operand)

instance (imm : BitVec 32) : KeepsFlags (add64ImmSafe xtmp xtmp imm) := by
  unfold add64ImmSafe
  infer_instance

instance (imm : BitVec 32) : KeepsFlags (sub64ImmSafe xtmp xtmp imm) := by
  unfold sub64ImmSafe
  infer_instance

instance (base : Option GpReg) : KeepsFlags (memBaseInto base xtmp) := by
  cases base <;> (unfold memBaseInto; infer_instance)

instance (seg : Option Seg) : KeepsFlags (memSegInto seg xtmp) := by
  cases seg <;> (unfold memSegInto; infer_instance)

instance (index : Option GpReg) (scale : Nat) : KeepsFlags (memIndexInto index scale xtmp) := by
  unfold memIndexInto
  split
  · split <;> infer_instance
  · infer_instance

instance (disp : BitVec 32) : KeepsFlags (memDispInto disp xtmp) := by
  unfold memDispInto
  infer_instance

instance (m : Mem) : KeepsFlags (memAddressInto m xtmp) := by
  unfold memAddressInto
  infer_instance

instance : KeepsFlags (addrIntoXtmp op inst xtmp) := by
  unfold addrIntoXtmp
  split <;> infer_instance

instance (size : OpSize) : KeepsFlags (loadOperand op inst size) := by
  unfold loadOperand
  infer_instance

end Address

/-! ### Lifts -/

section Lifts

variable (inst : Inst)

instance (o : Option Operand) : KeepsFlags (operand o) :=
  inferInstanceAs (KeepsFlags (EmitM.okOr o _))

instance (op : Op) : KeepsFlags (unsupported op : LiftM α) :=
  inferInstanceAs (KeepsFlags (EmitM.fail _))

instance (rd : GpReg) (size : OpSize) (v : BitVec 64) : KeepsFlags (movRegImm rd size v) := by
  cases size <;> (unfold movRegImm; infer_instance)

instance (rd rs : GpReg) (size : OpSize) : KeepsFlags (movRegReg rd size rs) := by
  cases size <;> (unfold movRegReg; infer_instance)

instance : KeepsFlags (liftMov inst) := by
  refine seq fun dst => seq fun src => ?_
  split <;> infer_instance

instance (signed : Bool) (rd : Reg) (m : Operand) : KeepsFlags (loadExtend inst signed rd m) := by
  refine seq fun leftover => ?_
  split <;> infer_instance

instance (signed : Bool) : KeepsFlags (liftMovzxOrMovsx inst signed) := by
  refine seq fun dst => seq fun src => ?_
  split
  · split <;> infer_instance
  · infer_instance
  · infer_instance
  · infer_instance

instance : KeepsFlags (liftMovsxd inst) := by
  refine seq fun dst => seq fun src => ?_
  split <;> infer_instance

instance : KeepsFlags (liftLea inst) := by
  refine seq fun dst => seq fun src => ?_
  split
  · dsimp only
    split <;> infer_instance
  · infer_instance

instance : KeepsFlags liftCqo :=
  word (decode_sbfmWord ..) rfl nofun

instance (rr : GpReg) (m : Operand) : KeepsFlags (xchgMem inst rr m) := by
  unfold xchgMem
  infer_instance

instance : KeepsFlags (liftXchg inst) := by
  refine seq fun a => seq fun b => ?_
  split <;> infer_instance

instance : KeepsFlags (liftPush inst) := by
  refine seq fun src => seq fun _ => ?_
  split <;> infer_instance

instance : KeepsFlags (liftPop inst) := by
  refine seq fun dst => ?_
  split <;> infer_instance

instance : KeepsFlags liftLeave := by
  unfold liftLeave
  infer_instance

instance : KeepsFlags (liftNot inst) := by
  refine seq fun dst => ?_
  split
  · infer_instance
  · unfold memRegOp
    infer_instance
  · unfold memRegOp
    infer_instance
  · infer_instance

/-- The lifts of the instructions that leave the flags. -/
theorem lift (h : inst.op.keepsFlags = true) : KeepsFlags (Jit.lift false inst) := by
  unfold Op.keepsFlags at h
  unfold Jit.lift
  split at h
  case h_13 => cases h
  all_goals
    rename_i hop
    rw [hop]
    infer_instance

end Lifts

end KeepsFlags

/-! ### What is known of the guest's flags -/

/-- Two facts about the same words. -/
theorem Emits.and {m : EmitM ε α} {Q R : α → List (Option Insn) → Prop} (hq : Emits p m Q) (hr : Emits p m R) :
    Emits p m fun a is => Q a is ∧ R a is := by
  intro e a e' hrun
  obtain ⟨ws, rfl, h⟩ := hq e a e' hrun
  obtain ⟨ws', heq, h'⟩ := hr e a _ hrun
  obtain rfl : ws = ws' := List.append_cancel_left (congrArg Emitter.code heq)
  exact ⟨ws, rfl, h, h'⟩

/-- The host's flags are those of the instruction that set the guest's, if that is known. -/
def Shows (fl : Option FlagSource) (f : A64.Flags) : Prop :=
  ∀ src ∈ fl, f = src.host

section Shows

variable {inst : Inst} {g : GuestMachine} {fl : Option FlagSource} {k : FlagOp} {oa ob : Operand}

theorem flagsAfter_keeps (h : inst.op.keepsFlags = true) : inst.flagsAfter g fl = fl := by
  have hnone : inst.op.flagOp = none := by
    revert h
    cases inst.op <;> first | exact fun _ => rfl | exact nofun
  unfold Inst.flagsAfter
  rw [hnone]
  exact if_pos h

theorem flagsAfter_forgets (hk : inst.op.flagOp = none) (h : inst.op.keepsFlags = false) :
    inst.flagsAfter g fl = none := by
  unfold Inst.flagsAfter
  rw [hk]
  exact if_neg (by rw [h]; exact Bool.false_ne_true)

theorem flagsAfter_follows (hk : inst.op.flagOp = some k) (h0 : inst.operand0 = some oa)
    (h1 : k.second inst = some ob) :
    inst.flagsAfter g fl = some ⟨k, oa.memSize, g.wide inst oa, g.wide inst ob⟩ := by
  unfold Inst.flagsAfter
  rw [hk, h0]
  dsimp only
  rw [h1]
  rfl

theorem wide_guestOf (hne : ∀ n size, oa ≠ .xmmReg n size) (s : State) :
    (guestOf s).wide inst oa = hostValue inst s oa := by
  cases oa with
  | xmmReg n size => exact absurd rfl (hne n size)
  | _ => rfl

/-- The code of an instruction shows what is known behind it. -/
def FollowsFlags (inst : Inst) (is : List (Option Insn)) : Prop :=
  ∀ env pc s s', runSeq env pc is s = some s' → ∀ fl, Shows fl s.nzcv →
    Shows (inst.flagsAfter (guestOf s) fl) s'.nzcv

theorem followsFlags_keeps (h : inst.op.keepsFlags = true) :
    Emits p (lift false inst) fun _ is => FollowsFlags inst is := by
  refine ((KeepsFlags.lift inst h).emits p).mono fun _ is his env pc s s' hrun fl hfl => ?_
  rw [flagsAfter_keeps h, nzcv_runSeq his hrun]
  exact hfl

/-- Nothing is known behind the code. -/
theorem followsFlags_forgets (hk : inst.op.flagOp = none) (h : inst.op.keepsFlags = false)
    (is : List (Option Insn)) : FollowsFlags inst is := by
  intro env pc s s' hrun fl hfl src hsrc
  rw [flagsAfter_forgets hk h] at hsrc
  cases hsrc

/-- The flags of `k` are followed: the host's do not depend on those before. -/
theorem hostFlags_default (hk : inst.op.flagOp = some k) (f : A64.Flags) (a b : BitVec 64) :
    k.hostFlags f a b = k.hostFlags default a b := by
  revert hk
  cases k with
  | and | or | xor | adc | sbb => cases inst.op <;> exact nofun
  | _ => exact fun _ => rfl

theorem followsFlags_of_runs (hk : inst.op.flagOp = some k) (h0 : inst.operand0 = some oa)
    (h1 : k.second inst = some ob) (ha : oa.IsSource) (hb : ob.IsSource) {is : List (Option Insn)}
    (h : ∀ env pc s, ∃ s', runSeq env pc is s = some s' ∧
      s'.nzcv = k.hostFlags s.nzcv (hostValue inst s oa) (hostValue inst s ob)) : FollowsFlags inst is := by
  intro env pc s s' hrun fl hfl src hsrc
  rw [flagsAfter_follows hk h0 h1, wide_guestOf ha.ne_xmm, wide_guestOf hb.ne_xmm] at hsrc
  obtain rfl := Option.some.inj hsrc
  obtain ⟨t, ht, hflags⟩ := h env pc s
  rw [hrun, Option.some.injEq] at ht
  rw [ht, hflags, hostFlags_default hk]
  rfl

theorem fits_leftover (h : oa.IsSource) : Fits oa.memSize.bytes oa.leftover := by
  cases oa with
  | mem m => exact h
  | xmmReg n size => cases h
  | _ => exact fits_zero _

/-- Instructions other than `CMP` whose flags are followed. -/
theorem followsFlags_flagOp (hop : inst.op = k.op) (hk : inst.op.flagOp = some k) (h0 : inst.operand0 = some oa)
    (h1 : k.second inst = some ob) (ha : oa.IsSource) (hb : ob.IsSource) (himm : ob.ImmOk) :
    Emits p (lift false inst) fun _ is => FollowsFlags inst is :=
  (effect_flagOp hop h0 h1 himm (.inr (fits_leftover ha)) (.inr (fits_leftover hb))).mono fun _ _ h =>
    followsFlags_of_runs hk h0 h1 ha hb h

/-- The size of the compare is that of both operands, as far as the size of an operand counts. -/
theorem operandValue_cmpSize (inst : Inst) (h : SameSize oa ob) (s : State) :
    operandValue inst s (cmpSize oa ob) oa = hostValue inst s oa ∧
      operandValue inst s (cmpSize oa ob) ob = hostValue inst s ob := by
  cases oa with
  | reg r size =>
    cases ob with
    | reg | imm => exact ⟨rfl, rfl⟩
    | _ => exact ⟨rfl, congrArg (operandValue inst s · _) h.symm⟩
  | _ =>
    cases ob with
    | reg r size => exact ⟨congrArg (operandValue inst s · _) h, rfl⟩
    | imm => exact ⟨rfl, rfl⟩
    | _ => exact ⟨rfl, congrArg (operandValue inst s · _) h.symm⟩

theorem fits_cmpSize (hpair : PlainCompare oa ob) :
    Fits (cmpSize oa ob).bytes oa.leftover ∧ Fits (cmpSize oa ob).bytes ob.leftover := by
  have ha := fits_leftover hpair.first
  have hb := fits_leftover hpair.second
  have hsame := hpair.same
  cases oa with
  | reg r size =>
    cases ob with
    | reg | imm => exact ⟨fits_zero _, fits_zero _⟩
    | _ =>
      obtain rfl := hsame
      exact ⟨fits_zero _, hb⟩
  | _ =>
    cases ob with
    | reg r size =>
      obtain rfl := hsame
      exact ⟨ha, fits_zero _⟩
    | imm => exact ⟨ha, fits_zero _⟩
    | _ =>
      rw [show Operand.memSize _ = Operand.memSize _ from hsame] at hb
      exact ⟨ha, hb⟩

theorem followsFlags_cmp (hop : inst.op = .cmp) (h0 : inst.operand0 = some oa) (h1 : inst.operand1 = some ob)
    (hpair : PlainCompare oa ob) : Emits p (lift false inst) fun _ is => FollowsFlags inst is := by
  have hk : inst.op.flagOp = some .sub := by
    rw [hop]
    rfl
  obtain ⟨ha, hb⟩ := fits_cmpSize hpair
  have hlift : lift false inst = liftCmp inst := by
    rw [lift, hop]
  rw [hlift]
  refine (emits_liftCmp h0 h1 hpair.imm (.inr ha) (.inr hb)).mono fun _ is hcmp =>
    followsFlags_of_runs hk h0 h1 hpair.first hpair.second fun env pc s => ?_
  obtain ⟨t, ht⟩ := hcmp env pc s
  obtain ⟨hva, hvb⟩ := operandValue_cmpSize inst hpair.same s
  refine ⟨_, ht, ?_⟩
  dsimp only
  rw [hva, hvb]
  rfl

theorem Operand.IsDest.isSource (h : oa.IsDest) : oa.IsSource := by
  cases oa with
  | mem m => exact h
  | xmmReg n size => cases h
  | _ => trivial

theorem Operand.IsDest.immOk (h : oa.IsDest) : oa.ImmOk := by
  cases oa with
  | imm v size => cases h
  | _ => trivial

/-- The operands whose values a plain instruction sets the flags from. -/
theorem Inst.Plain.followed (h : inst.Plain) (hk : inst.op.flagOp = some k) :
    ∃ oa ob, inst.operand0 = some oa ∧ k.second inst = some ob ∧ oa.IsSource ∧ ob.IsSource ∧
      (inst.op = .cmp ∧ inst.operand1 = some ob ∧ PlainCompare oa ob ∨ inst.op = k.op ∧ ob.ImmOk) := by
  cases h with
  | compare hop h0 h1 hpair =>
    refine ⟨_, _, h0, ?_, hpair.first, hpair.second, ?_⟩
    · rcases hop with hop | hop <;> rw [hop] at hk <;> cases hk <;> exact h1
    · rcases hop with hop | hop
      · exact .inl ⟨hop, h1, hpair⟩
      · rw [hop] at hk ⊢
        cases hk
        exact .inr ⟨rfl, hpair.imm⟩
  | binary hop h0 h1 hpair himm =>
    refine ⟨_, _, h0, ?_, hpair.dest.isSource, hpair.source, .inr ?_⟩
    · rcases hop with hop | hop | hop | hop | hop <;> rw [hop] at hk <;> cases hk <;> exact h1
    · rcases hop with hop | hop | hop | hop | hop <;> rw [hop] at hk ⊢ <;> cases hk
      · exact ⟨rfl, himm (.inl hop)⟩
      · exact ⟨rfl, himm (.inr hop)⟩
  | unary hop h0 h1 hdst =>
    refine ⟨_, _, h0, ?_, hdst.isSource, hdst.isSource, .inr ⟨?_, hdst.immOk⟩⟩
    · rcases hop with hop | hop | hop | hop <;> rw [hop] at hk <;> cases hk <;> exact h0
    · rcases hop with hop | hop | hop | hop <;> rw [hop] at hk ⊢ <;> cases hk <;> rfl
  | extend hop h0 h1 hok hsrc =>
    unfold Inst.extendKind at hop
    split at hop <;> cases hop <;> rename_i hinst <;> rw [hinst] at hk <;> cases hk
  | shift hop h0 h1 hok =>
    unfold Inst.shiftOp at hop
    split at hop <;> cases hop <;> rename_i hinst <;> rw [hinst] at hk <;> cases hk
  | nop hop | cqo hop | leave hop | push hop | pop hop | mov hop | lea hop | xchg hop | xchgMem hop | imul hop =>
    rw [hop] at hk
    cases hk

end Shows

end Quantum.Jit
