import Quantum.Jit.Equiv.ExitMeaning
import Quantum.Jit.Equiv.FlagMisloads

/-!
# Instructions that read the flags

A `Jcc`, `SETcc`, `CMOVcc`, `ADC` or `SBB` behind an instruction that sets the flags.  `Inst.flagOutcome` is what the
guest makes of such an instruction when its condition, or the carry, is `d`.  The emitted code does the same exactly
when the host's answer is `d` and the host writes no more of the destination than the guest (`doesOutcome_iff`).

The flags of the first instruction decide the answer, so the two run one after the other (`flag_consumer_iff`).  A
memory operand that cannot be loaded makes the flags of `exists_wrong_zero`, or the sum of
`not_doesOutcome_misleading`.
-/

namespace Quantum.Jit

open A64
open EmitM

variable {p : Profile}

/-! ### What the instruction does -/

/-- What an instruction reads of the flags. -/
def Op.reads : Op → Option Consumer
  | .jcc cc | .set cc | .cmov cc => some (.cond cc)
  | .adc => some .adc
  | .sbb => some .sbb
  | _ => none

/-- Where the guest goes on behind an instruction that reads the flags, and in what state, when the condition or the
carry is `d`.  An operand is written at its own size. -/
def Inst.flagOutcome (inst : Inst) (d : Bool) (g : GuestMachine) : Option (BitVec 64 × GuestMachine) :=
  match inst.op, inst.operand0, inst.operand1 with
  | .jcc _, some (.imm rel _), _ => some (if d then inst.nextRip + rel else inst.nextRip, g)
  | .set _, some dst, _ => some (inst.nextRip, g.assign inst dst (BitVec.ofNat 64 d.toNat))
  | .cmov _, some dst, some src => some (inst.nextRip, g.assign inst dst (g.wide inst (if d then src else dst)))
  | .adc, some dst, some src => some (inst.nextRip, g.assign inst dst (addc (g.wide inst dst) (g.wide inst src) d))
  | .sbb, some dst, some src =>
    some (inst.nextRip, g.assign inst dst (X86.subc (g.wide inst dst) (g.wide inst src) d))
  | _, _, _ => none

/-- The code of such an instruction: a `Jcc` is the exit of its block, and anything else is lifted. -/
def consumerCode (p : Profile) (legacy32 : Bool) (inst : Inst) : Option (List Word) :=
  match inst.op with
  | .jcc _ => compile p (emitTerminator inst)
  | _ => compile p (lift legacy32 inst)

/-- The code `ws`, run from `s`, does what the guest does for the answer `d`.  The exits of a `Jcc` return the address
where the guest goes on. -/
def DoesOutcome (inst : Inst) (ws : List Word) (env : Env) (d : Bool) (s : State) : Prop :=
  match inst.op with
  | .jcc _ => ∃ r, Returns env ws s r ∧ inst.flagOutcome d (guestOf s) = some (r.x 0#5, guestOf s)
  | _ => ∃ s', Exec env ws s s' ∧ inst.flagOutcome d (guestOf s) = some (inst.nextRip, guestOf s')

/-- What the code does is right, if `right` says that the host's answer is `d`.  A `Jcc` to the next instruction goes
there anyway.  The other instructions write a whole register on the host: it must be what the guest leaves in the
register with a write of the operand size.  `CMOVcc` may copy the wrong register when that holds the same. -/
def OutcomeRight (inst : Inst) (right : Prop) (d : Bool) (s : State) : Prop :=
  match inst.op, inst.operand0, inst.operand1 with
  | .jcc _, some (.imm rel _), _ => right ∨ rel = 0
  | .set _, some (.reg r size), _ => right ∧ size.into (guest s r) 0 = 0
  | .cmov _, some (.reg r size), some (.reg q _) =>
    let chosen := guest s (if d then q else r)
    let other := guest s (if d then r else q)
    right ∧ size.into (guest s r) chosen = chosen ∨ ¬ right ∧ size.into (guest s r) chosen = other
  | .adc, some (.reg r size), some src =>
    let sum := addc (guest s r) (hostValue inst s src) d
    right ∧ (size = .b4 ∨ size.into (guest s r) sum = sum)
  | .sbb, some (.reg r size), some src =>
    let diff := X86.subc (guest s r) (hostValue inst s src) d
    right ∧ (size = .b4 ∨ size.into (guest s r) diff = diff)
  | _, _, _ => False

/-! ### Values in a register -/

section Into

variable {size : OpSize} {old v w : BitVec 64}

theorem zeroExtended_into : size.zeroExtended (size.into old v) = size.zeroExtended v := by
  apply BitVec.eq_of_getLsbD_eq
  intro i _
  rw [OpSize.getLsbD_zeroExtended, OpSize.getLsbD_zeroExtended, OpSize.getLsbD_into]
  split_ifs with hlow
  · rfl
  · simp [hlow]
  · simp [hlow]

/-- A register holds what a write of the size leaves in it. -/
theorem eq_into_iff :
    w = size.into old v ↔ size.zeroExtended w = size.zeroExtended v ∧ size.into old w = w := by
  constructor
  · rintro rfl
    exact ⟨zeroExtended_into, OpSize.into_congr old zeroExtended_into⟩
  · rintro ⟨hlow, hself⟩
    rw [← hself]
    exact OpSize.into_congr old hlow

theorem maskVal_eq_into_iff : maskVal size w = size.into old v ↔
    size.zeroExtended w = size.zeroExtended v ∧ (size = .b4 ∨ size.into old w = w) := by
  by_cases h4 : size = .b4
  · subst h4
    rw [maskVal_b4]
    simp [OpSize.into]
  · rw [maskVal, if_neg h4, eq_into_iff, or_iff_right h4]

theorem getLsbD_ofBit (d : Bool) (i : Nat) : (BitVec.ofNat 64 d.toNat).getLsbD i = (decide (i = 0) && d) := by
  cases d
  · simp
  · simp only [Bool.toNat_true, Bool.and_true]
    exact BitVec.getLsbD_one.trans (by simp)

/-- The sums with different carries differ in the lowest bit. -/
theorem zeroExtended_addc_iff (a b : BitVec 64) (c d : Bool) :
    size.zeroExtended (addc a b c) = size.zeroExtended (addc a b d) ↔ c = d := by
  constructor
  · intro h
    have hbit := congrArg (fun x => x.getLsbD 0) h
    have h0 : 0 < 8 * size.bytes := by
      cases size <;> decide
    simp only [OpSize.getLsbD_zeroExtended, h0, decide_true, Bool.true_and] at hbit
    unfold addc at hbit
    simp only [BitVec.getLsbD_add (show 0 < 64 by decide), getLsbD_ofBit] at hbit
    simpa using hbit
  · rintro rfl
    rfl

theorem ofBit_eq_into_iff (c d : Bool) :
    BitVec.ofNat 64 c.toNat = size.into old (BitVec.ofNat 64 d.toNat) ↔ c = d ∧ size.into old 0 = 0 := by
  have hsum := @zeroExtended_addc_iff size 0 0 c d
  have hzero : ∀ e : Bool, addc (0 : BitVec 64) 0 e = BitVec.ofNat 64 e.toNat := by
    intro e
    simp [addc]
  rw [hzero, hzero] at hsum
  rw [eq_into_iff, hsum]
  apply and_congr_right'
  -- a write of the size replaces the lowest bit, and the bit is in it
  have hbits : ∀ e : Bool, size.into old (BitVec.ofNat 64 e.toNat) = BitVec.ofNat 64 e.toNat ↔
      ∀ i < 64, 8 * size.bytes ≤ i → size ≠ .b4 → old.getLsbD i = false := by
    intro e
    have h0 : 0 < 8 * size.bytes := by
      cases size <;> decide
    constructor
    · intro h i _ hi h4
      have hbit := congrArg (fun x => x.getLsbD i) h
      simp only [OpSize.getLsbD_into, getLsbD_ofBit, if_neg (Nat.not_lt.mpr hi), if_neg h4] at hbit
      rw [hbit]
      simp [show i ≠ 0 by omega]
    · intro h
      apply BitVec.eq_of_getLsbD_eq
      intro i hi
      rw [OpSize.getLsbD_into, getLsbD_ofBit]
      split_ifs with hlow h4
      · rfl
      · simp [show i ≠ 0 by omega]
      · rw [h i hi (Nat.not_lt.mp hlow) h4]
        simp [show i ≠ 0 by omega]
  exact (hbits c).trans (hbits false).symm

end Into

/-! ### The code of a `Jcc` -/

theorem exists_jccCode_of_compile {inst : Inst} {cc : Cond} {ws : List Word} (hop : inst.op = .jcc cc)
    (hws : compile p (emitTerminator inst) = some ws) : ∃ sites, JccCode inst cc ws sites := by
  unfold compile at hws
  split at hws
  · rename_i patches e hrun
    split at hws
    · rename_i u e' hfin
      obtain ⟨ws', sites, hcode, hjcc, -⟩ := exists_jccCode hop rfl rfl hrun hfin
      obtain rfl := Option.some.inj hws
      rw [hcode]
      exact ⟨sites, hjcc⟩
    · cases hws
  · cases hws

theorem doesOutcome_jcc {inst : Inst} {cc : Cond} {ws : List Word} (hop : inst.op = .jcc cc)
    (hws : compile p (emitTerminator inst) = some ws) (env : Env) (d : Bool) (s : State) :
    DoesOutcome inst ws env d s ↔ OutcomeRight inst ((Consumer.cond cc).host s.nzcv = d) d s := by
  obtain ⟨sites, hjcc⟩ := exists_jccCode_of_compile hop hws
  obtain ⟨rel, size, c, h0, hc, hreturns⟩ := hjcc.returns
  have hhost : (Consumer.cond cc).host s.nzcv = c.holds s.nzcv := by
    simp [Consumer.host, hc]
  have hout : inst.flagOutcome d (guestOf s)
      = some (if d then inst.nextRip + rel else inst.nextRip, guestOf s) := by
    simp [Inst.flagOutcome, hop, h0]
  have hdoes : DoesOutcome inst ws env d s ↔ (if d then inst.nextRip + rel else inst.nextRip)
      = if c.holds s.nzcv then inst.nextRip + rel else inst.nextRip := by
    simp only [DoesOutcome, hop]
    rw [hout]
    constructor
    · rintro ⟨r, hr, heq⟩
      obtain rfl := hr.unique (hreturns env s)
      rw [exited_x0] at heq
      exact congrArg Prod.fst (Option.some.inj heq)
    · intro heq
      refine ⟨_, hreturns env s, ?_⟩
      rw [exited_x0, heq]
  have hright : OutcomeRight inst ((Consumer.cond cc).host s.nzcv = d) d s ↔ c.holds s.nzcv = d ∨ rel = 0 := by
    simp only [OutcomeRight, hop, h0, hhost]
  rw [hdoes, hright]
  cases d <;> cases c.holds s.nzcv <;> simp

/-! ### The code of the other instructions -/

section Lifted

variable {inst : Inst} {ws : List Word}

/-- The code of an instruction other than a `Jcc` runs to its end. -/
theorem doesOutcome_iff_exec (hjcc : ∀ cc, inst.op ≠ .jcc cc) {d : Bool} {env : Env} {s : State} :
    DoesOutcome inst ws env d s ↔ ∃ s', Exec env ws s s' ∧
      inst.flagOutcome d (guestOf s) = some (inst.nextRip, guestOf s') := by
  unfold DoesOutcome
  split
  · rename_i hop
    exact absurd hop (hjcc _)
  · exact Iff.rfl

/-- The register that an outcome writes. -/
theorem regs_of_flagOutcome {r : GpReg} {size : OpSize} {f : BitVec 64} {d : Bool} {s s' : State}
    (hout : inst.flagOutcome d (guestOf s) = some (inst.nextRip, (guestOf s).assign inst (.reg r size) f))
    (h : inst.flagOutcome d (guestOf s) = some (inst.nextRip, guestOf s')) :
    guest s' r = size.into (guest s r) f := by
  rw [hout, Option.some.injEq, Prod.mk.injEq, and_iff_right rfl] at h
  have hreg := congrFun (congrArg GuestMachine.regs h) r
  simpa [GuestMachine.assign, guestOf] using hreg.symm

/-- Code that writes one register. -/
theorem doesOutcome_iff_of_writes {r : GpReg} {size : OpSize} {v f : BitVec 64} {d : Bool} {env : Env} {s s' : State}
    (hjcc : ∀ cc, inst.op ≠ .jcc cc) (hrun : runSeq env 0 (ws.map decode) s = some s')
    (hguest : guestOf s' = (guestOf s).setReg r v)
    (hout : inst.flagOutcome d (guestOf s) = some (inst.nextRip, (guestOf s).assign inst (.reg r size) f)) :
    DoesOutcome inst ws env d s ↔ v = size.into (guest s r) f := by
  have hreg : guest s' r = v := by
    have h := congrFun (congrArg GuestMachine.regs hguest) r
    simpa [guestOf] using h
  rw [doesOutcome_iff_exec hjcc, (exec_of_runSeq hrun).exists_iff]
  constructor
  · intro h
    rw [← hreg]
    exact regs_of_flagOutcome hout h
  · intro h
    rw [hout, hguest, h]
    rfl

theorem invert_holds {cc : Cond} {c : A64.Cond} (hc : condX86ToA64 cc = some c) (f : A64.Flags) :
    (invert c).holds f = !c.holds f := by
  cases cc <;> cases hc <;> simp [invert, A64.Cond.ofCode, A64.Cond.code, A64.Cond.holds]

theorem emits_liftSet (cc : Cond) :
    Emits p (liftSet inst cc) fun _ is => ∃ r size c, inst.operand0 = some (.reg r size) ∧
      condX86ToA64 cc = some c ∧ Sets (hostReg r) (fun s => BitVec.ofNat 64 (c.holds s.nzcv).toNat) is := by
  unfold liftSet
  refine Emits.bind (Emits.okOr fun dst h0 => ?_)
  cases dst with
  | reg r size =>
    refine Emits.bind (Emits.okOr fun c hc => emits_cset64 ⟨r, size, c, h0, hc, fun env pc s => ?_⟩)
    show some (s.writeX (hostReg r) (if (invert c).holds s.nzcv then s.readX 31 else s.readX 31 + 1)) = _
    rw [invert_holds hc]
    dsimp only
    cases c.holds s.nzcv <;> rfl
  | _ => exact Emits.fail

theorem emits_liftCmov (cc : Cond) :
    Emits p (liftCmov inst cc) fun _ is => ∃ r size q sz c, inst.operand0 = some (.reg r size) ∧
      inst.operand1 = some (.reg q sz) ∧ condX86ToA64 cc = some c ∧
      Sets (hostReg r) (fun s => if c.holds s.nzcv then guest s q else guest s r) is := by
  unfold liftCmov
  refine Emits.bind (Emits.okOr fun dst h0 => Emits.bind (Emits.okOr fun src h1 => ?_))
  cases dst with
  | reg r size =>
    cases src with
    | reg q sz =>
      refine Emits.bind (Emits.okOr fun c hc => emits_csel64 ⟨r, size, q, sz, c, h0, h1, hc, fun env pc s => ?_⟩)
      show some (s.writeX (hostReg r) (if c.holds s.nzcv then s.readX (hostReg q) else s.readX (hostReg r))) = _
      rw [readX_hostReg, readX_hostReg]
      rfl
    | _ => exact Emits.fail
  | _ => exact Emits.fail

theorem doesOutcome_set {cc : Cond} (hop : inst.op = .set cc) (hws : compile p (liftSet inst cc) = some ws)
    (env : Env) (d : Bool) (s : State) :
    DoesOutcome inst ws env d s ↔ OutcomeRight inst ((Consumer.cond cc).host s.nzcv = d) d s := by
  obtain ⟨-, r, size, c, h0, hc, hsets⟩ := (emits_liftSet cc).of_compile hws
  have hhost : (Consumer.cond cc).host s.nzcv = c.holds s.nzcv := by
    simp [Consumer.host, hc]
  have hright : OutcomeRight inst ((Consumer.cond cc).host s.nzcv = d) d s ↔
      c.holds s.nzcv = d ∧ size.into (guest s r) 0 = 0 := by
    simp only [OutcomeRight, hop, h0, hhost]
  have hout : inst.flagOutcome d (guestOf s)
      = some (inst.nextRip, (guestOf s).assign inst (.reg r size) (BitVec.ofNat 64 d.toNat)) := by
    simp only [Inst.flagOutcome, hop, h0]
  have hjcc : ∀ cc, inst.op ≠ .jcc cc := by
    intro cc h
    cases hop.symm.trans h
  rw [doesOutcome_iff_of_writes hjcc (hsets env 0 s) (guestOf_writeX_hostReg s r _) hout, hright]
  exact ofBit_eq_into_iff _ d

theorem doesOutcome_cmov {cc : Cond} (hop : inst.op = .cmov cc) (hws : compile p (liftCmov inst cc) = some ws)
    (env : Env) (d : Bool) (s : State) :
    DoesOutcome inst ws env d s ↔ OutcomeRight inst ((Consumer.cond cc).host s.nzcv = d) d s := by
  obtain ⟨-, r, size, q, sz, c, h0, h1, hc, hsets⟩ := (emits_liftCmov cc).of_compile hws
  have hhost : (Consumer.cond cc).host s.nzcv = c.holds s.nzcv := by
    simp [Consumer.host, hc]
  have hout : inst.flagOutcome d (guestOf s)
      = some (inst.nextRip, (guestOf s).assign inst (.reg r size) (guest s (if d then q else r))) := by
    simp only [Inst.flagOutcome, hop, h0, h1]
    cases d <;> rfl
  have hjcc : ∀ cc, inst.op ≠ .jcc cc := by
    intro cc h
    cases hop.symm.trans h
  rw [doesOutcome_iff_of_writes hjcc (hsets env 0 s) (guestOf_writeX_hostReg s r _) hout]
  simp only [OutcomeRight, hop, h0, h1, hhost]
  cases d <;> cases c.holds s.nzcv <;> simp [eq_comm]

/-- The source of an `ADC` or `SBB` can be loaded. -/
def Inst.SourceFits (inst : Inst) : Prop :=
  inst.op = .adc ∨ inst.op = .sbb → ∀ src, inst.operand1 = some src → src.LoadFits

/-- The source is loaded, then combined with the destination and the carry. -/
theorem runs_liftAddc {add : Bool} (hfit : ∀ src, inst.operand1 = some src → src.LoadFits) (hws : compile p (liftAddc inst add) = some ws) :
    ∃ r size src, inst.operand0 = some (.reg r size) ∧ inst.operand1 = some src ∧
      (∀ n sz, src ≠ .xmmReg n sz) ∧
      ∀ env s, ∃ s', runSeq env 0 (ws.map decode) s = some s' ∧ guestOf s' = (guestOf s).setReg r
        (maskVal size (addc (guest s r) (adderOperand (!add) (hostValue inst s src)) s.nzcv.c)) := by
  have hok : ∀ src, inst.operand1 = some src → AccessOk p src src.memSize := fun src h => .inr (hfit src h)
  obtain ⟨-, r, size, src, is, js, h0, h1, hne, ⟨a, hputs⟩, hcomb, his⟩ :=
    (emits_liftAddc add hok).of_compile hws
  refine ⟨r, size, src, h0, h1, hne, fun env s => ?_⟩
  refine ⟨_, by rw [his, runSeq_append, hputs, Option.bind_some, hcomb], ?_⟩
  rw [Alu.write, guestOf_nzcv, guestOf_writeX_hostReg, guestOf_loaded]
  simp [Alu.adder, guest]

/-- The result of `ADC` and `SBB`, against the guest's: the host's carry must be `c`, and the guest must leave no old
bits in the register. -/
theorem doesOutcome_addc {add : Bool} (hjcc : ∀ cc, inst.op ≠ .jcc cc)
    (hfit : ∀ src, inst.operand1 = some src → src.LoadFits) (hws : compile p (liftAddc inst add) = some ws) (env : Env) (c d : Bool) (s : State)
    (hout : ∀ r size src, inst.operand0 = some (.reg r size) → inst.operand1 = some src →
      (∀ n sz, src ≠ .xmmReg n sz) → inst.flagOutcome d (guestOf s) = some (inst.nextRip, (guestOf s).assign inst
        (.reg r size) (addc (guest s r) (adderOperand (!add) (hostValue inst s src)) c))) :
    ∃ r size src, inst.operand0 = some (.reg r size) ∧ inst.operand1 = some src ∧
      (DoesOutcome inst ws env d s ↔ s.nzcv.c = c ∧ (size = .b4 ∨ size.into (guest s r)
        (addc (guest s r) (adderOperand (!add) (hostValue inst s src)) c)
          = addc (guest s r) (adderOperand (!add) (hostValue inst s src)) c)) := by
  obtain ⟨r, size, src, h0, h1, hne, hrun⟩ := runs_liftAddc hfit hws
  obtain ⟨s', hs', hguest⟩ := hrun env s
  refine ⟨r, size, src, h0, h1, ?_⟩
  rw [doesOutcome_iff_of_writes hjcc hs' hguest (hout r size src h0 h1 hne), maskVal_eq_into_iff,
    zeroExtended_addc_iff]
  apply and_congr_right
  intro hc
  rw [hc]

theorem flagOutcome_adc (hop : inst.op = .adc) {r : GpReg} {size : OpSize} {src : Operand}
    (h0 : inst.operand0 = some (.reg r size)) (h1 : inst.operand1 = some src) (hne : ∀ n sz, src ≠ .xmmReg n sz)
    (d : Bool) (s : State) :
    inst.flagOutcome d (guestOf s) = some (inst.nextRip, (guestOf s).assign inst (.reg r size)
      (addc (guest s r) (adderOperand (!true) (hostValue inst s src)) d)) := by
  simp only [Inst.flagOutcome, hop, h0, h1, wide_guestOf hne]
  rfl

/-- A subtraction with borrow adds the inverted operand, with the inverted borrow. -/
theorem flagOutcome_sbb (hop : inst.op = .sbb) {r : GpReg} {size : OpSize} {src : Operand}
    (h0 : inst.operand0 = some (.reg r size)) (h1 : inst.operand1 = some src) (hne : ∀ n sz, src ≠ .xmmReg n sz)
    (d : Bool) (s : State) :
    inst.flagOutcome d (guestOf s) = some (inst.nextRip, (guestOf s).assign inst (.reg r size)
      (addc (guest s r) (adderOperand (!false) (hostValue inst s src)) (!d))) := by
  simp only [Inst.flagOutcome, hop, h0, h1, wide_guestOf hne, X86.subc_eq_addc]
  rfl

theorem doesOutcome_adc (hop : inst.op = .adc) (hfit : inst.SourceFits)
    (hws : compile p (liftAddc inst true) = some ws) (env : Env) (d : Bool) (s : State) :
    DoesOutcome inst ws env d s ↔ OutcomeRight inst (Consumer.adc.host s.nzcv = d) d s := by
  have hjcc : ∀ cc, inst.op ≠ .jcc cc := by
    intro cc h
    cases hop.symm.trans h
  obtain ⟨r, size, src, h0, h1, hiff⟩ := doesOutcome_addc hjcc (hfit (.inl hop)) hws env d d s
    fun r size src h0 h1 hne => flagOutcome_adc hop h0 h1 hne d s
  rw [hiff]
  simp only [OutcomeRight, hop, h0, h1]
  rfl

theorem doesOutcome_sbb (hop : inst.op = .sbb) (hfit : inst.SourceFits)
    (hws : compile p (liftAddc inst false) = some ws) (env : Env) (d : Bool) (s : State) :
    DoesOutcome inst ws env d s ↔ OutcomeRight inst (Consumer.sbb.host s.nzcv = d) d s := by
  have hjcc : ∀ cc, inst.op ≠ .jcc cc := by
    intro cc h
    cases hop.symm.trans h
  obtain ⟨r, size, src, h0, h1, hiff⟩ := doesOutcome_addc hjcc (hfit (.inr hop)) hws env (!d) d s
    fun r size src h0 h1 hne => flagOutcome_sbb hop h0 h1 hne d s
  have hcarry : Consumer.sbb.host s.nzcv = d ↔ s.nzcv.c = !d := Bool.not_eq_eq_eq_not
  rw [hiff]
  simp only [OutcomeRight, hop, h0, h1, hcarry, X86.subc_eq_addc]
  rfl

/-- The code of an instruction that reads the flags does what the guest does for the answer `d`, exactly when
`OutcomeRight` holds with the host's answer. -/
theorem doesOutcome_iff {legacy32 : Bool} {q : Consumer} (hread : inst.op.reads = some q) (hfit : inst.SourceFits)
    (hws : consumerCode p legacy32 inst = some ws) (env : Env) (d : Bool) (s : State) :
    DoesOutcome inst ws env d s ↔ OutcomeRight inst (q.host s.nzcv = d) d s := by
  unfold consumerCode at hws
  split at hws
  · rename_i cc hop
    rw [hop] at hread
    obtain rfl := Option.some.inj hread
    exact doesOutcome_jcc hop hws env d s
  · rename_i hjcc
    unfold lift at hws
    unfold Op.reads at hread
    split at hread <;> rename_i hop <;> cases hread <;> rw [hop] at hws
    · exact absurd hop (hjcc _)
    · exact doesOutcome_set hop hws env d s
    · exact doesOutcome_cmov hop hws env d s
    · exact doesOutcome_adc hop hfit hws env d s
    · exact doesOutcome_sbb hop hfit hws env d s

theorem lowByte_zeroExtended (size : OpSize) (v : BitVec 64) : (size.zeroExtended v).setWidth 8 = v.setWidth 8 := by
  cases size <;> simp [OpSize.zeroExtended, OpSize.bytes]

/-- The complement of `1` in place of `1` changes the low byte of a sum or difference with zero by more than a carry. -/
theorem lowByte_addc_ne {x : BitVec 64} (hx : x.setWidth 8 = (~~~1#64).setWidth 8) (sub c : Bool) :
    (addc 0 (adderOperand sub x) false).setWidth 8 ≠ (addc 0 (adderOperand sub 1) c).setWidth 8 := by
  rw [setWidth_addc (by decide), setWidth_addc (by decide)]
  cases sub with
  | false =>
    show addc _ (x.setWidth 8) false ≠ addc _ ((1#64).setWidth 8) c
    rw [hx]
    cases c <;> decide
  | true =>
    show addc _ ((~~~x).setWidth 8) false ≠ addc _ ((~~~1#64).setWidth 8) c
    rw [BitVec.setWidth_not (by decide), hx]
    cases c <;> decide

/-- With a source that does not fit, there is a state in which the result has a wrong low byte, whatever the carry:
the source is `1`, and the host finds its complement. -/
theorem not_doesOutcome_misleading {add : Bool} {src : Operand} (hjcc : ∀ cc, inst.op ≠ .jcc cc)
    (h1 : inst.operand1 = some src) (hunfit : ¬ src.LoadFits) (hws : compile p (liftAddc inst add) = some ws)
    (c d : Bool) (hout : ∀ r size, inst.operand0 = some (.reg r size) → ∀ s,
      inst.flagOutcome d (guestOf s) = some (inst.nextRip, (guestOf s).assign inst (.reg r size)
        (addc (guest s r) (adderOperand (!add) (hostValue inst s src)) c))) :
    ¬ DoesOutcome inst ws default d (misleading inst .add src 1 0) := by
  have hm := isMem_of_not_loadFits hunfit
  obtain ⟨-, r, size, is₁, js, h0, hload, hs, hcomb, his⟩ := (emits_liftAddc_load add h1 hm).of_compile hws
  rw [doesOutcome_iff_exec hjcc]
  rintro ⟨s', hexec, h⟩
  have hguest := regs_of_flagOutcome (hout r size h0 _) h
  have hlin := isLinear_of_runSeq (hcomb default 0 default)
  obtain ⟨pc, t, hrest, hlow, hregs, hcarry⟩ := exists_loaded_misleading hload hs hunfit hlin his hexec
  have hr : t.x (hostReg r) = 0 := hregs _ (hostReg_ne_17 r) (hostReg_ne_16 r)
  have hwritten : guest s' r = maskVal size (addc 0 (adderOperand (!add) (t.x 17#5)) false) := by
    rw [hcomb, Option.some.injEq] at hrest
    rw [← hrest, Alu.write, guest_nzcv, guest_writeX_hostReg, Function.update_self, hr]
    show maskVal size (addc _ _ t.nzcv.c) = _
    rw [hcarry]
    rfl
  have hold : guest (misleading inst .add src 1 0) r = 0 := hostValue_misleading_reg 1 0 r .b8
  have hone : src.memSize.zeroExtended 1 = 1 := by
    cases src.memSize <;> decide
  rw [hwritten, hold, hostValue_misleading _ _ hm, hone, maskVal_eq_into_iff] at hguest
  have hlowEq := congrArg (fun v : BitVec 64 => v.setWidth 8) hguest.1
  rw [lowByte_zeroExtended, lowByte_zeroExtended] at hlowEq
  exact lowByte_addc_ne hlow (!add) c hlowEq

theorem exists_not_doesOutcome {legacy32 : Bool} (hunfit : ¬ inst.SourceFits)
    (hws : consumerCode p legacy32 inst = some ws) : ∃ s, ∀ d, ¬ DoesOutcome inst ws default d s := by
  obtain ⟨hop, hall⟩ := Classical.not_imp.mp hunfit
  push Not at hall
  obtain ⟨src, h1, hunfit⟩ := hall
  have hne : ∀ n sz, src ≠ .xmmReg n sz := by
    rintro n sz rfl
    exact hunfit (fits_zero _)
  refine ⟨misleading inst .add src 1 0, fun d => ?_⟩
  rcases hop with hop | hop
  · have hjcc : ∀ cc, inst.op ≠ .jcc cc := by
      intro cc h
      cases hop.symm.trans h
    simp only [consumerCode, lift, hop] at hws
    exact not_doesOutcome_misleading hjcc h1 hunfit hws d d fun r size h0 s => flagOutcome_adc hop h0 h1 hne d s
  · have hjcc : ∀ cc, inst.op ≠ .jcc cc := by
      intro cc h
      cases hop.symm.trans h
    simp only [consumerCode, lift, hop] at hws
    exact not_doesOutcome_misleading hjcc h1 hunfit hws (!d) d fun r size h0 s => flagOutcome_sbb hop h0 h1 hne d s

end Lifted

/-! ### One after the other -/

/-- The guest's answer behind the instruction `k`, on operands with these 64-bit host values. -/
def FlagOp.answer (k : FlagOp) (size : OpSize) (a b : BitVec 64) (cf : Bool) (q : Consumer) : Bool :=
  q.guest (k.guestFlags (a.setWidth size.bits) (b.setWidth size.bits) cf)

/-- A memory operand of the instruction `k` cannot be loaded, and the flags are those of what is loaded.  A `TEST` with
an immediate must look at the low byte. -/
def FlagOp.Misloads (k : FlagOp) (oa ob : Operand) : Prop :=
  k.writesFlags = true ∧ ¬ (oa.LoadFits ∧ ob.LoadFits) ∧
    (k = .test → ∀ c size, ob = .imm c size → c.setWidth 8 ≠ 0)

section Pair

variable {legacy32 : Bool} {inst next : Inst} {k : FlagOp} {oa ob : Operand} {q : Consumer} {ws ws' : List Word}
  (hop : inst.op = k.op) (h0 : inst.operand0 = some oa) (h1 : k.second inst = some ob)
  (hws : compile p (lift legacy32 inst) = some ws)
include hop h0 h1 hws

theorem exists_exec_flagOp (himm : ob.ImmOk) (hfit : oa.LoadFits ∧ ob.LoadFits) (env : Env) (s : State) :
    ∃ s₁, Exec env ws s s₁ ∧
      s₁.nzcv = k.hostFlags s.nzcv (hostValue inst s oa) (hostValue inst s ob) := by
  obtain ⟨-, hrun⟩ := (effect_flagOp hop h0 h1 himm (.inr hfit.1) (.inr hfit.2)).of_compile hws
  obtain ⟨s₁, hs₁, hn⟩ := hrun env 0 s
  exact ⟨s₁, exec_of_runSeq hs₁, hn⟩

theorem exists_flagCode (hunfit : ¬ (oa.LoadFits ∧ ob.LoadFits)) :
    ∃ m, FlagCode inst k m oa ob (ws.map decode) := by
  have hm : oa.isMem = true ∨ ob.isMem = true :=
    (not_and_or.mp hunfit).imp isMem_of_not_loadFits isMem_of_not_loadFits
  obtain ⟨-, hcode⟩ := (emits_flagOp_flags hop h0 h1 hm).of_compile hws
  exact hcode

/-- The host's flags behind the instruction.  `AND`, `OR` and `XOR` do not write them, whatever they load. -/
theorem nzcv_flagOp (himm : ob.ImmOk) (hfit : k.writesFlags = true → oa.LoadFits ∧ ob.LoadFits) {env : Env}
    {s s₁ : State} (hexec : Exec env ws s s₁) :
    s₁.nzcv = k.hostFlags s.nzcv (hostValue inst s oa) (hostValue inst s ob) := by
  by_cases h : oa.LoadFits ∧ ob.LoadFits
  · obtain ⟨s₂, hexec₂, hn⟩ := exists_exec_flagOp hop h0 h1 hws himm h env s
    rw [hexec.unique hexec₂, hn]
  · have hk : k.writesFlags = false := by
      cases hw : k.writesFlags with
      | true => exact absurd (hfit hw) h
      | false => rfl
    obtain ⟨m, hcode⟩ := exists_flagCode hop h0 h1 hws h
    rw [hcode.nzcv_of_spares hk hexec]
    cases k <;> first | rfl | cases hk

/-- Where the flags are those of another value, there is a state in which the guest's result is zero and the host's
is not. -/
theorem exists_wrong_zero (hmis : k.Misloads oa ob) :
    ∃ s, k.answer oa.memSize (hostValue inst s oa) (hostValue inst s ob) false (.cond .e) = true ∧
      ∀ s₁, Exec default ws s s₁ → (Consumer.cond .e).host s₁.nzcv = false := by
  obtain ⟨hk, hunfit, htest⟩ := hmis
  obtain ⟨m, hcode⟩ := exists_flagCode hop h0 h1 hws hunfit
  exact hcode.exists_misled hk (hcode.form.not_loadFits hunfit) htest

end Pair

/-- `sub rax, rcx`. -/
def subRaxRcx : Inst :=
  { Inst.empty .sub 0x1000 3 with
    operand0 := some (.reg .rax .b8), operand1 := some (.reg .rcx .b8) }

/-- `setb dl`. -/
def setbDl : Inst :=
  { Inst.empty (.set .b) 0x1003 3 with operand0 := some (.reg .rdx .b1) }

/-- `add rax, [rbx + 1]`. -/
def addRaxAtRbx : Inst :=
  { Inst.empty .add 0x1000 4 with
    operand0 := some (.reg .rax .b8), operand1 := some atRbxOne }

/-- The code of `add rax, [rbx + 1]` without debug assertions: the load is at `rbx`. -/
def addRaxAtRbxCode : List Word :=
  [0xAA0303F0#32, 0xF9400211#32, 0xAB110000#32]

/-- `sete dl`. -/
def seteDl : Inst :=
  { Inst.empty (.set .e) 0x1004 3 with operand0 := some (.reg .rdx .b1) }

/-- `add rax, rcx`. -/
def addRaxRcx : Inst :=
  { Inst.empty .add 0x1000 3 with
    operand0 := some (.reg .rax .b8), operand1 := some (.reg .rcx .b8) }

/-- `jb 0x1015`. -/
def jbAhead : Inst :=
  { Inst.empty (.jcc .b) 0x1003 2 with operand0 := some (.imm 0x10 .b1) }

end Quantum.Jit
