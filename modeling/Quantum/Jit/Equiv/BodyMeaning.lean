import Quantum.Jit.Equiv.AssignMoves
import Quantum.Jit.Equiv.FlagsKept
import Quantum.Jit.Equiv.LegacyStack

/-!
# Straight-line code does what it means

One instruction, and then the body of a block.
-/

namespace Quantum.Jit

open A64
open EmitM

variable {p : Profile} {inst : Inst}

/-! ### Moves -/

section Moves

variable {dst src : Operand} {r : GpReg} {size : OpSize}

theorem assign_hostValue (h : SameSize dst src) (s : State) :
    (guestOf s).assign inst dst (hostValue inst s src) = (guestOf s).assign inst dst ((guestOf s).value inst src) :=
  (guestOf s).assign_congr (zeroExtended_hostValue h s)

theorem simulates_lift_mov (hop : inst.op = .mov) (h0 : inst.operand0 = some dst)
    (h1 : inst.operand1 = some src) (hpair : PlainPair dst src) :
    Emits p (lift false inst) fun _ is => Simulates inst is := by
  unfold lift
  rw [hop]
  refine (assigns_liftMov h0 h1 hpair.dest hpair.source hpair.same).mono fun _ is h => h.simulates fun s => ?_
  rw [assign_hostValue hpair.same, exec_mov _ hop h0 h1]

/-- Both extensions depend on the bits of the source's size. -/
theorem result_hostValue (kind : ExtendKind) (s : State) :
    kind.result src.memSize (hostValue inst s src) = kind.result src.memSize ((guestOf s).value inst src) := by
  have hvalue : src.memSize.zeroExtended (hostValue inst s src)
      = src.memSize.zeroExtended ((guestOf s).value inst src) :=
    zeroExtended_hostValue (sameSize_self src) s
  have hlow := zeroExtended_eq_iff.mp hvalue
  cases kind with
  | movzx => exact congrArg (BitVec.setWidth 64) hlow
  | _ => exact congrArg (BitVec.signExtend 64) hlow

theorem simulates_lift_extend {kind : ExtendKind} (hop : inst.extendKind = some kind)
    (h0 : inst.operand0 = some (.reg r size)) (h1 : inst.operand1 = some src) (hok : ExtendOk kind size src) :
    Emits p (lift false inst) fun _ is => Simulates inst is := by
  refine (assigns_lift_extend hop h0 h1 hok).mono fun _ is h => h.simulates fun s => ?_
  rw [result_hostValue, exec_extend _ hop h0 h1]

theorem simulates_lift_lea (hop : inst.op = .lea) (h0 : inst.operand0 = some (.reg r size))
    (h1 : inst.operand1 = some src) (hsize : size.IsWide) (hmem : src.isMem = true) (hok : LeaOk r src) :
    Emits p (lift false inst) fun _ is => Simulates inst is := by
  unfold lift
  rw [hop]
  exact (assigns_liftLea h0 h1 hsize hmem hok).mono fun _ is h => h.simulates fun s => exec_lea _ hop h0 h1

theorem simulates_lift_cqo (hop : inst.op = .cqo) : Emits p (lift false inst) fun _ is => Simulates inst is := by
  unfold lift
  rw [hop]
  exact assigns_liftCqo.mono fun _ is h => h.simulates fun s => exec_cqo _ hop

theorem Exchanges.simulates {op : Operand} {is : List (Option Insn)} (h : Exchanges inst r size op is)
    (hexec : ∀ g, inst.exec g = some (g.exchange inst r size op)) : Simulates inst is :=
  h.mono fun _ _ hs => ⟨(hexec _).trans (congrArg some hs.1.symm), hs.2⟩

theorem simulates_lift_xchg {a b : GpReg} (hop : inst.op = .xchg) (h0 : inst.operand0 = some (.reg a .b8))
    (h1 : inst.operand1 = some (.reg b .b8)) : Emits p (lift false inst) fun _ is => Simulates inst is := by
  unfold lift
  rw [hop]
  exact (exchanges_liftXchg_regs h0 h1 rfl rfl).mono fun _ is h => h.simulates fun g =>
    exec_xchg g hop h0 h1 (.inl ⟨rfl, rfl⟩)

theorem simulates_lift_xchgMem {a b m : Operand} (hop : inst.op = .xchg) (h0 : inst.operand0 = some a)
    (h1 : inst.operand1 = some b) (hops : a = .reg r m.memSize ∧ b = m ∨ a = m ∧ b = .reg r m.memSize)
    (hmem : m.isMem = true) (hsize : m.memSize.IsWide) (hfit : Fits m.memSize.bytes m.leftover) :
    Emits p (lift false inst) fun _ is => Simulates inst is := by
  unfold lift
  rw [hop]
  exact (exchanges_liftXchg_mem h0 h1 hops hmem hsize hfit).mono fun _ is h => h.simulates fun g =>
    exec_xchg g hop h0 h1 (hops.imp_right fun h => ⟨h.1, h.2, hmem⟩)

end Moves

/-! ### Arithmetic and logic -/

section Alu

variable {dst src : Operand} {r : GpReg} {size : OpSize}

theorem simulates_lift_binary (hop : inst.op.IsBinary) (h0 : inst.operand0 = some dst)
    (h1 : inst.operand1 = some src) (hpair : PlainAlu dst src) (himm : inst.op = .add ∨ inst.op = .sub → src.ImmOk) :
    Emits p (lift false inst) fun _ is => Simulates inst is := by
  have hdone : ∀ {alu f is}, Computes inst alu dst src is → LowBits f → (∀ fl a b, alu.result fl a b = f a b) →
      (∀ a b, inst.op.combine a b = some (f a b)) → Simulates inst is := fun h hlow hres hf =>
    (h.assigns hlow hres hpair.same).simulates fun s => exec_binary (guestOf s) hop h0 h1 hf
  unfold lift
  rcases id hop with h | h | h | h | h
  · rw [h]
    refine (computes_liftArith h0 h1 hpair.dest hpair.source hpair.spares .add (himm (.inl h))).mono fun _ is hc =>
      hdone hc lowBits_add (fun _ a b => addc_false a b) fun a b => ?_
    rw [h]
    rfl
  · rw [h]
    refine (computes_liftArith h0 h1 hpair.dest hpair.source hpair.spares .sub (himm (.inr h))).mono fun _ is hc =>
      hdone hc lowBits_sub (fun _ a b => addc_not_true a b) fun a b => ?_
    rw [h]
    rfl
  · rw [h]
    refine (computes_liftBitop h0 h1 hpair.dest hpair.source hpair.spares .and).mono fun _ is hc =>
      hdone hc lowBits_and (fun _ a b => rfl) fun a b => ?_
    rw [h]
    rfl
  · rw [h]
    refine (computes_liftBitop h0 h1 hpair.dest hpair.source hpair.spares .or).mono fun _ is hc =>
      hdone hc lowBits_or (fun _ a b => rfl) fun a b => ?_
    rw [h]
    rfl
  · rw [h]
    refine (computes_liftXor h0 h1 hpair.dest hpair.source hpair.spares).mono fun _ is hc =>
      hdone hc lowBits_xor (fun _ a b => rfl) fun a b => ?_
    rw [h]
    rfl

/-- The low bits of a function of one operand. -/
theorem simulates_unaryOp {alu : Alu} {emit : Reg → LiftM Unit} {f : BitVec 64 → BitVec 64} (op : Op)
    (hop : inst.op.IsUnary) (h0 : inst.operand0 = some dst) (h1 : inst.operand1 = none) (hdst : dst.IsDest)
    (hemit : Unary p alu emit) (hlow : LowBits fun a _ => f a) (hres : ∀ fl a b, alu.result fl a b = f a)
    (hf : ∀ a, inst.op.change a = some (f a)) :
    Emits p (unaryOp inst emit op) fun _ is => Simulates inst is :=
  (computes_unaryOp h0 hdst hemit op).mono fun _ _ hc =>
    (hc.assigns hlow hres (sameSize_self dst)).simulates fun s => exec_unary (guestOf s) hop h0 h1 hf

theorem simulates_lift_unary (hop : inst.op.IsUnary) (h0 : inst.operand0 = some dst) (h1 : inst.operand1 = none)
    (hdst : dst.IsDest) : Emits p (lift false inst) fun _ is => Simulates inst is := by
  unfold lift
  rcases id hop with h | h | h | h
  · rw [h]
    refine simulates_unaryOp (f := (· + 1)) _ hop h0 h1 hdst (unary_emitIncDec true) lowBits_add.withRight
      (fun _ a _ => addc_false a 1) fun a => ?_
    rw [h]
    rfl
  · rw [h]
    refine simulates_unaryOp (f := (· - 1)) _ hop h0 h1 hdst (unary_emitIncDec false) lowBits_sub.withRight
      (fun _ a _ => addc_not_true a 1) fun a => ?_
    rw [h]
    rfl
  · rw [h]
    refine simulates_unaryOp (f := (0 - ·)) _ hop h0 h1 hdst unary_emitNeg lowBits_sub.withLeft
      (fun _ a _ => addc_not_true 0 a) fun a => ?_
    rw [h]
    exact congrArg some (BitVec.zero_sub a).symm
  · rw [h]
    refine simulates_unaryOp (f := (~~~·)) _ hop h0 h1 hdst unary_emitNot lowBits_not
      (fun _ a _ => BitVec.zero_or) fun a => ?_
    rw [h]
    rfl

theorem simulates_lift_imul (hop : inst.op = .imul) (h0 : inst.operand0 = some (.reg r size))
    (h1 : inst.operand1 = some src) (hpair : PlainPair (.reg r size) src)
    (hfactor : ∀ op, inst.operand2 = some op → ∃ v sz, op = .imm v sz) :
    Emits p (lift false inst) fun _ is => Simulates inst is := by
  have hsame : SameSize (.reg r size) (inst.operand2.getD (.reg r size)) := by
    cases h2 : inst.operand2 with
    | none => rfl
    | some op =>
      obtain ⟨v, sz, rfl⟩ := hfactor op h2
      trivial
  have hne : inst.operand1 ≠ none := by
    rw [h1]
    exact Option.some_ne_none src
  unfold lift
  rw [hop]
  dsimp only
  rw [if_neg hne]
  refine (assigns_liftImulNOperand h0 h1 hpair.dest hpair.source).mono fun _ is h => h.simulates fun s => ?_
  rw [exec_imul _ hop h0 h1]
  exact congrArg some ((guestOf s).assign_congr (lowBits_mul _ _ _ _ _ (zeroExtended_hostValue hpair.same s)
    (zeroExtended_hostValue hsame s))).symm

/-- The shift sees the bits of the operand size only. -/
theorem result_zeroExtended (op : ShiftOp) (size : OpSize) (v : BitVec 64) (count : Nat) :
    op.result size (size.zeroExtended v) count = op.result size v count := by
  unfold ShiftOp.result
  rw [zeroExtended_eq_iff.mp (size.zeroExtended_idem v)]

theorem simulates_lift_shift {op : ShiftOp} {amt : Operand} (hop : inst.shiftOp = some op)
    (h0 : inst.operand0 = some (.reg r size)) (h1 : inst.operand1 = some amt) (hok : ShiftOk op size amt) :
    Emits p (lift false inst) fun _ is => Simulates inst is := by
  refine (assigns_lift_shift h0 h1 hop hok).mono fun _ is h => h.simulates fun s => ?_
  have hcount : shiftCount size amt s = (guestOf s).count size amt := by
    cases amt <;> rfl
  have hexec : inst.exec (guestOf s) = some ((guestOf s).assign inst (.reg r size)
      (op.result size ((guestOf s).value inst (.reg r size)) ((guestOf s).count size amt))) :=
    exec_shift _ hop h0 h1
  have hvalue : (guestOf s).value inst (.reg r size) = size.zeroExtended (guest s r) := rfl
  rw [hexec, hvalue, result_zeroExtended, hcount]

end Alu

/-! ### The body of a block -/

theorem simulates_lift_nop (hop : inst.op = .nop) : Emits p (lift false inst) fun _ is => Simulates inst is := by
  unfold lift
  rw [hop]
  refine Emits.push ?_
  rw [decode_nop]
  intro env pc s
  exact ⟨s, rfl, exec_nop _ hop, rfl⟩

theorem simulates_lift_compare {a b : Operand} (hop : inst.op = .cmp ∨ inst.op = .test)
    (h0 : inst.operand0 = some a) (h1 : inst.operand1 = some b) (hpair : PlainCompare a b) :
    Emits p (lift false inst) fun _ is => Simulates inst is := by
  have hexec : ∀ g, inst.exec g = some g := fun g => exec_flags g hop h0 h1
  unfold lift
  rcases hop with hop | hop <;> rw [hop]
  · obtain ⟨ha, hb⟩ := fits_cmpSize hpair
    exact (keepsGuest_liftCmp h0 h1 ha hb).mono fun _ is hk => hk.simulates hexec
  · exact (keepsGuest_liftTest h0 h1 (fits_leftover hpair.first) (fits_leftover hpair.second)).mono
      fun _ is hk => hk.simulates hexec

/-- The code of a plain instruction does what the instruction means. -/
theorem simulates_lift (h : inst.Plain) : Emits p (lift false inst) fun _ is => Simulates inst is := by
  cases h with
  | nop hop => exact simulates_lift_nop hop
  | cqo hop => exact simulates_lift_cqo hop
  | leave hop =>
    unfold lift
    rw [hop]
    exact simulates_liftLeave hop
  | push hop h0 hsrc =>
    unfold lift
    rw [hop]
    exact simulates_liftPush hop h0 hsrc
  | pop hop h0 hr =>
    unfold lift
    rw [hop]
    exact simulates_liftPop hop h0 hr
  | compare hop h0 h1 hpair => exact simulates_lift_compare hop h0 h1 hpair
  | mov hop h0 h1 hpair => exact simulates_lift_mov hop h0 h1 hpair
  | extend hop h0 h1 hok hsrc => exact simulates_lift_extend hop h0 h1 hok
  | lea hop h0 h1 hsize hmem hok => exact simulates_lift_lea hop h0 h1 hsize hmem hok
  | xchg hop h0 h1 => exact simulates_lift_xchg hop h0 h1
  | xchgMem hop h0 h1 hops hmem hsize hfit => exact simulates_lift_xchgMem hop h0 h1 hops hmem hsize hfit
  | binary hop h0 h1 hpair himm => exact simulates_lift_binary hop h0 h1 hpair himm
  | unary hop h0 h1 hdst => exact simulates_lift_unary hop h0 h1 hdst
  | imul hop h0 h1 hpair hfactor => exact simulates_lift_imul hop h0 h1 hpair hfactor
  | shift hop h0 h1 hok => exact simulates_lift_shift hop h0 h1 hok

/-- The code of a plain instruction shows what is known of the flags behind it. -/
theorem followsFlags_lift (h : inst.Plain) : Emits p (lift false inst) fun _ is => FollowsFlags inst is := by
  cases hk : inst.op.flagOp with
  | some k =>
    obtain ⟨oa, ob, h0, h1, ha, hb, ⟨hop, hsecond, hpair⟩ | ⟨hop, himm⟩⟩ := h.followed hk
    · exact followsFlags_cmp hop h0 hsecond hpair
    · exact followsFlags_flagOp hop hk h0 h1 ha hb himm
  | none =>
    cases hkeep : inst.op.keepsFlags with
    | true => exact followsFlags_keeps hkeep
    | false => exact (simulates_lift h).mono fun _ is _ => followsFlags_forgets hk hkeep is

/-- The code does what a list of instructions means. -/
def SimulatesAll (insts : List Inst) : List (Option Insn) → Prop :=
  Does fun s s' => hostPointers s' = hostPointers s ∧ ∀ fl, Shows fl s.nzcv →
    ∃ fl', execAll insts (guestOf s) fl = some (guestOf s', fl') ∧ Shows fl' s'.nzcv

theorem simulates_body {bytes : List Byte} {rip : BitVec 64} {body : List Inst} (h : ∀ inst ∈ body, inst.Plain) :
    Emits p (emitBody bytes rip false body) fun _ is => SimulatesAll body is := by
  induction body with
  | nil => exact Emits.pure fun env pc s => ⟨s, rfl, rfl, fun fl hfl => ⟨fl, rfl, hfl⟩⟩
  | cons inst body ih =>
    obtain ⟨hinst, hbody⟩ := List.forall_mem_cons.mp h
    refine Emits.bind (Emits.mapErr (((simulates_lift hinst).and (followsFlags_lift hinst)).mono
      fun _ is hfirst => (ih hbody).mono fun _ js hrest => ?_))
    obtain ⟨hsim, hfollows⟩ := hfirst
    intro env pc s
    obtain ⟨t, hrun, hexec, hptr⟩ := hsim env pc s
    obtain ⟨s', hrun', hptr', hall⟩ := hrest env (pc + is.length) t
    refine ⟨s', by rw [runSeq_append, hrun, Option.bind_some, hrun'], hptr'.trans hptr, fun fl hfl => ?_⟩
    obtain ⟨fl', hexecAll, hshows⟩ := hall _ (hfollows env pc s t hrun fl hfl)
    exact ⟨fl', by rw [execAll, hexec, Option.bind_some, hexecAll], hshows⟩

end Quantum.Jit
