import Quantum.Jit.Equiv.Address
import Quantum.Jit.Equiv.Misencode
import Quantum.Jit.Lifter

/-!
# Where loads and stores go

Every instruction with a memory operand puts the operand's address in a scratch register and then
loads from or stores to that register, with the leftover displacement as the offset (`memAccess`).
The scratch register is `X16` in the integer lifts and `X17` in the SSE lifts.  The access is at the
effective address exactly when the leftover displacement fits the offset field of the access and the
scratch register is not the one through which a large displacement is added (`DispOk`,
`memAccess_address_iff`).
-/

namespace Quantum.Jit

open A64
open EmitM

variable {p : Profile}

/-- Compute the address of a memory operand in `xtmp`, then load or store there. -/
def memAccess (a : Access) (op : Operand) (inst : Inst) (xtmp rt : Reg) : LiftM Unit := do
  let leftover ← addrIntoXtmp op inst xtmp
  a.emit rt xtmp leftover

/-- The address that a decoded word accesses in state `s`. -/
def insnAddr (s : State) : Option Insn → Option (BitVec 64)
  | some (.ldst size v opc imm rn _) => (ldstBytes size v opc).map fun n => ldstAddr s n imm rn
  | _ => none

/-- The address that the last word of the code accesses, when the code is run from state `s`. -/
def accessAddr (env : Env) (ws : List Word) (s : State) : Option (BitVec 64) := do
  let w ← ws.getLast?
  let s₁ ← runSeq env 0 (ws.dropLast.map decode) s
  insnAddr s₁ (decode w)

/-- Is the displacement added through `X17`? -/
def Mem.addsVia17 (m : Mem) : Bool :=
  m.leftover = 0 && !imm12Encodable (unsignedAbs m.disp)

/-- The memory operands whose address and offset come out right, for an access of `n` bytes through
the scratch register `xtmp`. -/
def DispOk (n : Nat) (xtmp : Reg) : Operand → Prop
  | .mem m => Fits n m.leftover ∧ ¬ (xtmp = 17#5 ∧ m.addsVia17 = true)
  | _ => True

instance (n : Nat) (xtmp : Reg) (op : Operand) : Decidable (DispOk n xtmp op) := by
  cases op <;> unfold DispOk <;> infer_instance

/-! ### The address register -/

/-- A large displacement added to `X17` through `X17` itself. -/
def Mem.clobbered (m : Mem) : BitVec 64 :=
  if 0 < m.disp.toInt then m.disp.setWidth 64 + m.disp.setWidth 64 else 0

/-- What the address code leaves in the scratch register. -/
def addrValue (xtmp : Reg) (inst : Inst) (s : State) : Operand → BitVec 64
  | .mem m =>
    if xtmp = 17#5 ∧ m.addsVia17 = true then m.clobbered
    else m.address (guest s) (segBase s) - m.leftover.setWidth 64
  | op => effectiveAddress inst s op

/-- The code leaves `f s` in `r`. -/
def Leaves (r : Reg) (f : State → BitVec 64) (is : List (Option Insn)) : Prop :=
  ∀ env pc s, ∃ s₁, runSeq env pc is s = some s₁ ∧ s₁.x r = f s

theorem SetsVia17.leaves {f : State → BitVec 64} {is : List (Option Insn)}
    (h : SetsVia17 16#5 f is) : Leaves 16#5 f is := by
  intro env pc s
  obtain ⟨t, ht⟩ := h env pc s
  exact ⟨_, ht, by simp⟩

theorem unsignedAbs_of_pos {d : BitVec 32} (h : 0 < d.toInt) : unsignedAbs d = d := by
  have hmsb : d.msb = false := by
    rw [BitVec.msb_eq_toInt]
    simp [h.le]
  simp [unsignedAbs, hmsb]

/-- The displacement with `X17` as scratch, from a state in which `X17` holds `a`. -/
theorem emits_memDispInto_17 (m : Mem) {Q : BitVec 32 → List (Option Insn) → Prop}
    (h : ∀ is, Leaves 17#5 (fun s => if m.addsVia17 = true then m.clobbered
      else s.x 17#5 + m.disp.signExtend 64 - m.leftover.setWidth 64) is → Q m.leftover is) :
    Emits p (memDispInto m.disp 17) Q := by
  have hkeep : ∀ f : State → BitVec 64, (∀ s, f s = s.x 17#5) → Leaves 17#5 f [] :=
    fun f hf env pc s => ⟨s, rfl, (hf s).symm⟩
  unfold memDispInto
  by_cases h0 : m.disp = 0
  · have hl : m.leftover = 0 := by simp [Mem.leftover, h0]
    have hv : m.addsVia17 = false := by simp [Mem.addsVia17, hl, h0, unsignedAbs, imm12Encodable]
    rw [if_pos h0]
    rw [hl, hv] at h
    exact Emits.pure (h [] (hkeep _ fun s => by simp [h0]))
  rw [if_neg h0]
  by_cases hs : 0 < m.disp.toInt ∧ m.disp.toNat < 2 ^ 24
  · have hl : m.leftover = m.disp := by simp only [Mem.leftover, if_pos hs]
    have hv : m.addsVia17 = false := by
      rw [Mem.addsVia17, hl, decide_eq_false h0, Bool.false_and]
    rw [if_pos hs]
    rw [hl, hv, signExtend_of_pos hs.1] at h
    exact Emits.pure (h [] (hkeep _ fun s => by simp))
  have hl : m.leftover = 0 := by simp only [Mem.leftover, if_neg hs]
  have hv : m.addsVia17 = !imm12Encodable (unsignedAbs m.disp) := by simp [Mem.addsVia17, hl]
  rw [if_neg hs]
  rw [hl, hv, Mem.clobbered] at h
  by_cases hp : 0 < m.disp.toInt
  · rw [if_pos hp]
    rw [unsignedAbs_of_pos hp, signExtend_of_pos hp] at h
    unfold add64ImmSafe
    split
    · rename_i henc
      refine Emits.bind (emits_add64Imm fun sh i hi => Emits.pure (h _ fun env pc s =>
        ⟨s.writeXsp 17 (addc (s.x 17) (immValue sh i) false), rfl, ?_⟩))
      simp [henc, hi, addc_false]
    · rename_i henc
      refine Emits.bind (Emits.bind (emits_loadConst64 (by decide) _ fun is hc =>
        emits_add64 (Emits.pure (h _ fun env pc s => ?_))))
      refine ⟨_, by rw [List.append_nil, runSeq_append, hc.run, Option.bind_some, runSeq_cons,
        execOne_add64]; rfl, ?_⟩
      simp [henc, hp]
  · rw [if_neg hp]
    rw [signExtend_of_nonpos hp] at h
    unfold sub64ImmSafe
    split
    · rename_i henc
      refine Emits.bind (emits_sub64Imm fun sh i hi => Emits.pure (h _ fun env pc s =>
        ⟨s.writeXsp 17 (addc (s.x 17) (~~~immValue sh i) true), rfl, ?_⟩))
      simp [henc, hi, addc_not_true, BitVec.sub_eq_add_neg]
    · rename_i henc
      refine Emits.bind (Emits.bind (emits_loadConst64 (by decide) _ fun is hc =>
        emits_sub64 (Emits.pure (h _ fun env pc s => ?_))))
      refine ⟨_, by rw [List.append_nil, runSeq_append, hc.run, Option.bind_some, runSeq_cons,
        execOne_sub64]; rfl, ?_⟩
      simp [henc, hp]

/-- What the address code leaves in the scratch register, for both scratch registers. -/
theorem emits_addrIntoXtmp_leaves {xtmp : Reg} (hx : IsScratch xtmp) {op : Operand} {inst : Inst}
    {Q : BitVec 32 → List (Option Insn) → Prop}
    (h : ∀ is, Leaves xtmp (fun s => addrValue xtmp inst s op) is → Q op.leftover is) :
    Emits p (addrIntoXtmp op inst xtmp) Q := by
  rcases hx with rfl | rfl
  · refine emits_addrIntoXtmp fun is ha => h is ?_
    have hval : ∀ s, effectiveAddress inst s op - op.leftover.setWidth 64
        = addrValue 16#5 inst s op := by
      intro s
      cases op <;> simp [effectiveAddress, addrValue, Operand.leftover]
    simpa only [hval] using SetsVia17.leaves ha
  · cases op with
    | mem m =>
      refine emits_memAddressInto (.inr rfl) m fun is hs => emits_memDispInto_17 m fun js hd =>
        h _ fun env pc s => ?_
      obtain ⟨s₁, hs₁, hv⟩ := hd env (pc + is.length) (s.writeX 17#5 (m.parts s))
      refine ⟨s₁, by rw [runSeq_append, hs, Option.bind_some, hs₁], ?_⟩
      simp only [hv, addrValue, Mem.address_eq, true_and]
      simp
    | ripRel d sz =>
      refine Emits.bind (emits_loadConst64 (by decide) _ fun is hl => Emits.pure (h _ ?_))
      rw [List.append_nil]
      exact fun env pc s => ⟨_, hl.run env pc s, by simp [addrValue, effectiveAddress, ripRelTarget]⟩
    | _ => exact Emits.fail

/-! ### The access -/

theorem accessAddr_append {env : Env} {ws : List Word} {is : List (Option Insn)} {o : Option Insn}
    {s s₁ : State} (hws : ws.map decode = is ++ [o]) (hrun : runSeq env 0 is s = some s₁) :
    accessAddr env ws s = insnAddr s₁ o := by
  obtain ⟨ws₁, ws₂, rfl, h₁, h₂⟩ := List.map_eq_append_iff.mp hws
  obtain ⟨w, ws₃, rfl, hw, h₃⟩ := List.map_eq_cons_iff.mp h₂
  obtain rfl := List.map_eq_nil_iff.mp h₃
  subst hw
  rw [accessAddr, List.getLast?_concat, List.dropLast_concat, h₁]
  simp only [Option.bind_eq_bind, Option.bind_some, hrun]

/-- The instructions of an access: the address code and one load or store word. -/
theorem emits_memAccess {a : Access} {op : Operand} {inst : Inst} {xtmp rt : Reg}
    (hx : IsScratch xtmp) :
    Emits p (memAccess a op inst xtmp rt) fun _ is => ∃ is₁,
      Leaves xtmp (fun s => addrValue xtmp inst s op) is₁ ∧
      is = is₁ ++ [decode (ldstUoffWord a.size a.v a.opc
        (op.leftover / BitVec.ofNat 32 a.bytes) xtmp rt)] := by
  refine Emits.bind (emits_addrIntoXtmp_leaves hx fun is hl => ?_)
  rw [Access.emit_eq]
  exact emits_ldstScaled a.bytes_lt fun _ => ⟨is, hl, rfl⟩

/-- In the state with all registers zero the clobbered address is wrong. -/
theorem clobbered_ne_address {m : Mem} (h : m.addsVia17 = true) :
    m.clobbered ≠ m.address (guest default) (segBase default) := by
  have hzero : m.parts default = 0 := by
    have hg : ∀ g, guest default g = 0#64 := fun _ => rfl
    have hs : ∀ sg, segBase default sg = 0#64 := fun _ => rfl
    rw [Mem.parts]
    rcases m.base with _ | b <;> rcases m.seg with _ | sg <;> rcases m.index with _ | i <;>
      simp [hg, hs]
  have hd : m.disp ≠ 0#32 := by
    intro h0
    simp [Mem.addsVia17, h0, unsignedAbs, imm12Encodable] at h
  rw [Mem.address_eq, hzero, Mem.clobbered]
  have hlt := m.disp.isLt
  have hpos : m.disp.toNat ≠ 0 := fun h0 => hd (BitVec.eq_of_toNat_eq h0)
  split
  · rename_i hp
    rw [signExtend_of_pos hp]
    intro heq
    have := congrArg BitVec.toNat heq
    simp only [BitVec.toNat_add, BitVec.toNat_setWidth, BitVec.ofNat_eq_ofNat,
      BitVec.toNat_ofNat] at this
    omega
  · intro heq
    have hint := congrArg BitVec.toInt heq
    simp only [BitVec.ofNat_eq_ofNat, BitVec.zero_add] at hint
    rw [BitVec.toInt_signExtend_of_le (by decide)] at hint
    exact hd (BitVec.eq_of_toInt_eq (by simpa using hint.symm))

/-- A word whose offset does not fit accesses an address shortly below `b + offset`. -/
theorem insnAddr_misencoded (a : Access) {offset : BitVec 32} (hfit : ¬ Fits a.bytes offset)
    {xtmp rt : Reg} {s : State} {addr : BitVec 64}
    (h : insnAddr s (decode (ldstUoffWord a.size a.v a.opc (offset / BitVec.ofNat 32 a.bytes) xtmp rt))
      = some addr) : ¬ InRange (s.x xtmp + offset.setWidth 64) 16 addr := by
  have hq : (offset / BitVec.ofNat 32 a.bytes).toNat = offset.toNat / a.bytes := by
    rw [BitVec.toNat_udiv, BitVec.toNat_ofNat, Nat.mod_eq_of_lt a.bytes_lt]
  generalize offset / BitVec.ofNat 32 a.bytes = q at *
  rcases decode_ldstUoffWord_cases a.size a.opc a.v q xtmp rt with hd | hd | hd
  · rw [hd, insnAddr, Option.map_eq_some_iff] at h
    obtain ⟨n, hn, rfl⟩ := h
    have hlt := misencoded_offset_lt a hfit hq hn
    have hoff := offset.isLt
    unfold ldstAddr InRange
    rw [show s.x xtmp + BitVec.ofNat 64 ((q.extractLsb' 0 12).toNat * n) - (s.x xtmp + offset.setWidth 64)
        = BitVec.ofNat 64 ((q.extractLsb' 0 12).toNat * n) - offset.setWidth 64 by ring]
    generalize (q.extractLsb' 0 12).toNat * n = k at hlt ⊢
    rw [BitVec.toNat_sub, BitVec.toNat_ofNat, BitVec.toNat_setWidth]
    omega
  · rw [hd] at h
    cases h
  · rw [hd] at h
    cases h

/-- A word whose offset does not fit accesses another address than `b + offset`. -/
theorem insnAddr_misencoded_ne (a : Access) {offset : BitVec 32} (hfit : ¬ Fits a.bytes offset)
    {xtmp rt : Reg} {s : State} :
    insnAddr s (decode (ldstUoffWord a.size a.v a.opc (offset / BitVec.ofNat 32 a.bytes) xtmp rt))
      ≠ some (s.x xtmp + offset.setWidth 64) := by
  intro hall
  have hself : InRange (s.x xtmp + offset.setWidth 64) 16 (s.x xtmp + offset.setWidth 64) := by
    simp [InRange]
  exact insnAddr_misencoded a hfit hall hself

/-- **Effective addresses.**  The code of an access is right in every state exactly for the memory
operands of `DispOk`. -/
theorem memAccess_address_iff {a : Access} {op : Operand} (hmem : op.isMem = true) {inst : Inst}
    {xtmp rt : Reg} (hx : IsScratch xtmp) {ws : List Word}
    (hws : compile p (memAccess a op inst xtmp rt) = some ws) :
    (∀ env s, accessAddr env ws s = some (effectiveAddress inst s op))
      ↔ DispOk a.bytes xtmp op := by
  obtain ⟨-, is₁, hl, his⟩ := (emits_memAccess hx).of_compile hws
  have haccess : ∀ env s, ∃ s₁, s₁.x xtmp = addrValue xtmp inst s op ∧ accessAddr env ws s
      = insnAddr s₁ (decode (ldstUoffWord a.size a.v a.opc
        (op.leftover / BitVec.ofNat 32 a.bytes) xtmp rt)) := by
    intro env s
    obtain ⟨s₁, hs₁, hv⟩ := hl env 0 s
    exact ⟨s₁, hv, accessAddr_append his hs₁⟩
  have hright : Fits a.bytes op.leftover → ∀ env s, accessAddr env ws s
      = some (addrValue xtmp inst s op + op.leftover.setWidth 64) := by
    intro hfit env s
    obtain ⟨s₁, hv, haddr⟩ := haccess env s
    rw [haddr, decode_ldstScaled a.bytes_lt hfit]
    rw [insnAddr, a.ldstBytes_eq, Option.map_some, ldstAddr_ofNat hfit, hv]
  cases op with
  | ripRel d sz =>
    refine iff_of_true (fun env s => ?_) trivial
    rw [hright ⟨Nat.zero_mod _, by simp [Operand.leftover]⟩]
    simp [addrValue, effectiveAddress, Operand.leftover]
  | mem m =>
    have hsum : ¬ (xtmp = 17#5 ∧ m.addsVia17 = true) → ∀ s,
        addrValue xtmp inst s (.mem m) + m.leftover.setWidth 64
          = effectiveAddress inst s (.mem m) := by
      intro hvia s
      rw [addrValue, if_neg hvia, BitVec.sub_add_cancel]
      rfl
    constructor
    · intro hall
      by_cases hvia : xtmp = 17#5 ∧ m.addsVia17 = true
      · -- a large displacement: nothing is left over, and the address is the clobbered one
        have hl0 : m.leftover = 0 := by
          have := hvia.2
          simp only [Mem.addsVia17, Bool.and_eq_true, decide_eq_true_eq] at this
          exact this.1
        have h0 := hall default default
        rw [hright ⟨by simp [Operand.leftover, hl0], by simp [Operand.leftover, hl0]⟩, addrValue,
          if_pos hvia, Option.some.injEq] at h0
        refine absurd ?_ (clobbered_ne_address hvia.2)
        simpa [Operand.leftover, hl0, effectiveAddress] using h0
      · refine ⟨?_, hvia⟩
        by_contra hfit
        obtain ⟨s₁, hv, haddr⟩ := haccess default default
        rw [hall, ← hsum hvia, ← hv] at haddr
        exact insnAddr_misencoded_ne a hfit haddr.symm
    · rintro ⟨hfit, hvia⟩ env s
      rw [hright hfit]
      exact congrArg some (hsum hvia s)
  | _ => cases hmem

theorem scale_one : 1 = 1 ∨ 1 = 2 ∨ 1 = 4 ∨ 1 = 8 := by
  decide

/-- `[rax + 8]`. -/
def nearOperand : Operand :=
  .mem { base := some .rax, index := none, scale := 1, disp := 8, size := .b4, seg := none,
         scale_valid := scale_one }

theorem memAccess_address_iff_near :
    compile ⟨true⟩ (memAccess .ldr32 nearOperand (.empty .mov 0x1000 3) 16 0)
      = some [0xAA0003F0#32, 0xB9400A00#32] ∧
    DispOk 4 16 nearOperand ∧
    ((∀ env s, accessAddr env [0xAA0003F0#32, 0xB9400A00#32] s
        = some (effectiveAddress (.empty .mov 0x1000 3) s nearOperand)) ↔ DispOk 4 16 nearOperand) := by
  have hws : compile ⟨true⟩ (memAccess .ldr32 nearOperand (.empty .mov 0x1000 3) 16 0)
      = some [0xAA0003F0#32, 0xB9400A00#32] := by decide
  exact ⟨hws, by decide, memAccess_address_iff rfl (.inl rfl) hws⟩

/-- `[rax + 0x1000001]`. -/
def farOperand : Operand :=
  .mem { base := some .rax, index := none, scale := 1, disp := 0x1000001, size := .b8, seg := none,
         scale_valid := scale_one }

/-- `movdqu xmm0, [rax + 0x1000001]`. -/
def loadFar : Inst :=
  { Inst.empty .movdqXmm 0x1000 8 with
    operand0 := some (.xmmReg 0 .b8), operand1 := some farOperand }

/-- The code of the load: the displacement is put in `X17` over the base, and added to itself. -/
def loadFarCode : List Word :=
  [0xAA0003F1#32, 0xD2800031#32, 0xF2A02011#32, 0x8B110231#32, 0x3DC00230#32]

/-- The lifter takes `movdqu xmm0, [rax + 0x1000001]` in either profile, and with `RAX = 0` the load
is at `0x2000002`. -/
theorem load_far_wrong_address :
    compile ⟨true⟩ (lift false loadFar) = some (loadFarCode ++ [0x3D802B90#32]) ∧
    compile ⟨false⟩ (lift false loadFar) = some (loadFarCode ++ [0x3D802B90#32]) ∧
    compile ⟨true⟩ (memAccess .ldrQ farOperand loadFar 17 16) = some loadFarCode ∧
    effectiveAddress loadFar default farOperand = 0x1000001#64 ∧
    accessAddr default loadFarCode default = some 0x2000002#64 := by
  refine ⟨by decide, by decide, by decide, by decide, by rfl⟩

end Quantum.Jit
