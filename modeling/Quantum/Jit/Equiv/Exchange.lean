import Quantum.Jit.Equiv.SizedOperand
import Quantum.Jit.Equiv.TwoArms

/-!
# Exchanges

`XCHG`, `XADD` and `CMPXCHG` read a register and a second operand and write back to both.  The code moves
whole host registers, and compares them whole.  Between registers, `xchg_reg_iff`, `xadd_reg_iff` and
`cmpxchg_reg_iff` say for which operands and sizes that is what the architecture does from every state.
-/

namespace Quantum.Jit

open A64
open EmitM
open ByteMem (read write)

variable {p : Profile}

/-! ### What the instructions do -/

inductive ExchangeOp where
  | xchg | xadd | cmpxchg
  deriving DecidableEq

def Op.exchange : Op → Option ExchangeOp
  | .xchg => some .xchg
  | .xadd => some .xadd
  | .cmpxchg => some .cmpxchg
  | _ => none

/-- Registers and memory of the guest. -/
structure GuestState where
  regs : GpReg → BitVec 64
  mem : ByteMem

/-- A value of a size is written to a register, or to memory at the address `a`. -/
def GuestState.put (size : OpSize) (a : BitVec 64) (op : Operand) (v : BitVec 64) (g : GuestState) :
    GuestState :=
  match op with
  | .reg r _ => { g with regs := Function.update g.regs r (size.into (g.regs r) v) }
  | _ => { g with mem := g.mem.write size.bytes a v }

/-- The accumulator is the destination's old value `d`, up to the size. -/
def AccEqual (size : OpSize) (d : BitVec 64) (regs : GpReg → BitVec 64) : Prop :=
  size.zeroExtended (regs .rax) = size.zeroExtended d

instance (size : OpSize) (d : BitVec 64) (regs : GpReg → BitVec 64) : Decidable (AccEqual size d regs) :=
  inferInstanceAs (Decidable (_ = _))

/-- One exchange of the destination, whose old value is `d`, with the register `src`. -/
def ExchangeOp.exchange (op : ExchangeOp) (size : OpSize) (dst : Operand) (src : GpReg) (a d : BitVec 64)
    (g : GuestState) : GuestState :=
  match op with
  | .xchg => (g.put size a dst (g.regs src)).put size a (.reg src size) d
  | .xadd => (g.put size a (.reg src size) d).put size a dst (d + g.regs src)
  | .cmpxchg =>
    if AccEqual size d g.regs then g.put size a dst (g.regs src) else g.put size a (.reg .rax size) d

/-- The sixteen bytes below the host's stack pointer, which the code of `XADD` uses. -/
def BelowStack (s : State) (b : BitVec 64) : Prop :=
  InRange (s.x 31#5 - 16#64) 16 b

/-- A following `JZ` is taken if and only if `P`, and `JNZ` if and only if not. -/
def ZeroJumps (f : A64.Flags) (P : Prop) : Prop :=
  (∀ c, condX86ToA64 .e = some c → (c.holds f = true ↔ P)) ∧
    ∀ c, condX86ToA64 .ne = some c → (c.holds f = true ↔ ¬ P)

/-- The old value of the destination. -/
def oldValue (inst : Inst) (size : OpSize) (dst : Operand) (s : State) : BitVec 64 :=
  operandValue inst s size dst

/-- What the architecture does to the state of the guest. -/
def ExchangeOp.after (op : ExchangeOp) (inst : Inst) (size : OpSize) (dst : Operand) (src : GpReg)
    (s : State) : GuestState :=
  op.exchange size dst src (effectiveAddress inst s dst) (oldValue inst size dst s) ⟨guest s, s.mem⟩

/-- From the state `s` the code has led to `s'`, and that is the exchange. -/
structure Exchanged (op : ExchangeOp) (inst : Inst) (size : OpSize) (dst : Operand) (src : GpReg)
    (s s' : State) : Prop where
  regs : guest s' = (op.after inst size dst src s).regs
  mem : ∀ b, (op = .xadd → ¬ BelowStack s b) → s'.mem b = (op.after inst size dst src s).mem b
  simd : s'.v = s.v
  jumps : op = .cmpxchg → ZeroJumps s'.nzcv (AccEqual size (oldValue inst size dst s) (guest s))

/-- The bytes of an operand in memory are not on the host's stack. -/
def OffStack (inst : Inst) (size : OpSize) (dst : Operand) (s : State) : Prop :=
  dst.isMem = true → Disjoint64 (s.x 31#5 - 16#64) 16 (effectiveAddress inst s dst) size.bytes

/-- From every state the code does the exchange; `XADD` keeps the old value on the host's stack. -/
def ExchangeCorrect (op : ExchangeOp) (inst : Inst) (size : OpSize) (dst : Operand) (src : GpReg)
    (ws : List Word) : Prop :=
  ∀ env s, (op = .xadd → OffStack inst size dst s) →
    ∃ s', Exec env ws s s' ∧ Exchanged op inst size dst src s s'

/-- The operands and sizes at which the code is right. -/
def ExchangeOk (op : ExchangeOp) (size : OpSize) (dst : Operand) (src : GpReg) : Prop :=
  match dst with
  | .reg rd _ =>
    match op with
    | .xchg => if rd = src then size ≠ .b4 else size = .b8
    | .xadd => rd ≠ src ∧ (size = .b4 ∨ size = .b8)
    | .cmpxchg => size = .b8 ∨ rd = .rax ∧ (size = .b4 ∨ src = .rax)
  | m => Fits size.bytes m.leftover ∧ (size = .b8 ∨ size = .b4 ∧ op ≠ .cmpxchg)

/-! ### Values of a size in a register -/

theorem OpSize.getLsbD_into (size : OpSize) (old v : BitVec 64) (i : Nat) :
    (size.into old v).getLsbD i
      = if i < 8 * size.bytes then v.getLsbD i else if size = .b4 then false else old.getLsbD i := by
  by_cases h64 : i < 64
  swap
  · rw [BitVec.getLsbD_of_ge _ _ (by omega), BitVec.getLsbD_of_ge v _ (by omega),
      BitVec.getLsbD_of_ge old _ (by omega)]
    simp
  cases size with
  | b8 => simp [into, bytes, h64]
  | b4 => rw [into, getLsbD_zeroExtended]; by_cases h : i < 8 * OpSize.b4.bytes <;> simp [h]
  | b1 =>
    have hmask : ∀ i : Fin 64, (0xFF#64).getLsbD i = decide (i.val < 8 * OpSize.b1.bytes) := by
      decide
    rw [into, BitVec.getLsbD_or, getLsbD_zeroExtended, BitVec.getLsbD_and, BitVec.getLsbD_not, hmask ⟨i, h64⟩]
    by_cases h : i < 8 * OpSize.b1.bytes <;> simp [h, h64]
  | b2 =>
    have hmask : ∀ i : Fin 64, (0xFFFF#64).getLsbD i = decide (i.val < 8 * OpSize.b2.bytes) := by
      decide
    rw [into, BitVec.getLsbD_or, getLsbD_zeroExtended, BitVec.getLsbD_and, BitVec.getLsbD_not, hmask ⟨i, h64⟩]
    by_cases h : i < 8 * OpSize.b2.bytes <;> simp [h, h64]

/-- What a register holds, written back to it. -/
theorem OpSize.into_self {size : OpSize} (h : size ≠ .b4) (v : BitVec 64) : size.into v v = v := by
  apply BitVec.eq_of_getLsbD_eq
  intro i hi
  rw [getLsbD_into, if_neg h]
  split <;> rfl

theorem maskVal_eq_into {size : OpSize} (h : size = .b4 ∨ size = .b8) (old v : BitVec 64) :
    maskVal size v = size.into old v := by
  rcases h with rfl | rfl
  · exact maskVal_b4 v
  · rfl

/-- All ones do not fit a smaller size than the register. -/
theorem into_zero_ones {size : OpSize} (h : size.into 0 (-1) = -1) : size = .b8 := by
  cases size with
  | b8 => rfl
  | b1 | b2 | b4 => revert h; decide

theorem maskVal_ones {size : OpSize} (h : maskVal size (-1) = size.into 0 (-1)) :
    size = .b4 ∨ size = .b8 := by
  cases size with
  | b8 => exact .inr rfl
  | b4 => exact .inl rfl
  | b1 | b2 => revert h; decide

/-- Any values of the guest's registers are those of a state. -/
theorem exists_guest (g : GpReg → BitVec 64) : ∃ s : State, guest s = g := by
  refine ⟨{ (default : State) with x := Function.extend hostReg g fun _ => 0 }, ?_⟩
  funext r
  show Function.extend hostReg g (fun _ => 0) (hostReg r) = g r
  exact hostReg_injective.extend_apply g _ r

/-! ### Code whose effect is known -/

/-- Right code, when its runs are known. -/
theorem exchangeCorrect_iff {op : ExchangeOp} {inst : Inst} {size : OpSize} {dst : Operand} {src : GpReg}
    {ws : List Word} {P : State → Prop} (h : ∀ env s, (op = .xadd → OffStack inst size dst s) →
      ∃ s', Exec env ws s s' ∧ (Exchanged op inst size dst src s s' ↔ P s)) :
    ExchangeCorrect op inst size dst src ws ↔ ∀ s, (op = .xadd → OffStack inst size dst s) → P s := by
  constructor
  · intro hcorrect s hoff
    obtain ⟨s₁, hexec, hiff⟩ := h default s hoff
    exact hiff.mp (hexec.exists_iff.mp (hcorrect default s hoff))
  · intro hP env s hoff
    obtain ⟨s₁, hexec, hiff⟩ := h env s hoff
    exact ⟨s₁, hexec, hiff.mpr (hP s hoff)⟩

/-- Code that works on registers, and what it makes of them. -/
def RegisterCode (f : (GpReg → BitVec 64) → GpReg → BitVec 64) (ws : List Word) : Prop :=
  ∀ env s, ∃ s', Exec env ws s s' ∧ guest s' = f (guest s) ∧ s'.mem = s.mem ∧ s'.v = s.v

theorem ExchangeOp.exchange_reg_mem (op : ExchangeOp) (size : OpSize) (rd src : GpReg) (n : OpSize)
    (a d : BitVec 64) (g : GuestState) : (op.exchange size (.reg rd n) src a d g).mem = g.mem := by
  cases op with
  | xchg => rfl
  | xadd => rfl
  | cmpxchg =>
    show (if AccEqual size d g.regs then _ else _ : GuestState).mem = _
    split <;> rfl

/-- The registers after an exchange between registers. -/
def ExchangeOp.regsAfter (op : ExchangeOp) (size : OpSize) (rd src : GpReg) (g : GpReg → BitVec 64) :
    GpReg → BitVec 64 :=
  (op.exchange size (.reg rd size) src 0 (g rd) ⟨g, fun _ => 0⟩).regs

theorem ExchangeOp.after_reg_regs (op : ExchangeOp) (inst : Inst) (size : OpSize) (rd src : GpReg)
    (n : OpSize) (s : State) : (op.after inst size (.reg rd n) src s).regs = op.regsAfter size rd src (guest s) := by
  cases op with
  | xchg => rfl
  | xadd => rfl
  | cmpxchg =>
    show (if AccEqual size (guest s rd) (guest s) then _ else _ : GuestState).regs
      = (if AccEqual size (guest s rd) (guest s) then _ else _ : GuestState).regs
    by_cases h : AccEqual size (guest s rd) (guest s)
    · rw [if_pos h, if_pos h]
      rfl
    · rw [if_neg h, if_neg h]
      rfl

/-- Right code between registers, for the instructions that leave the flags to others. -/
theorem RegisterCode.correct_iff {op : ExchangeOp} (hop : op ≠ .cmpxchg) {inst : Inst} {size n : OpSize}
    {rd src : GpReg} {ws : List Word} {f : (GpReg → BitVec 64) → GpReg → BitVec 64} (h : RegisterCode f ws) :
    ExchangeCorrect op inst size (.reg rd n) src ws ↔ ∀ g, f g = op.regsAfter size rd src g := by
  have hiff := @exchangeCorrect_iff op inst size (.reg rd n) src ws
    (fun s => f (guest s) = op.regsAfter size rd src (guest s)) ?_
  · rw [hiff]
    constructor
    · intro hs g
      obtain ⟨s, rfl⟩ := exists_guest g
      exact hs s fun _ hmem => nomatch hmem
    · exact fun hg s _ => hg (guest s)
  · intro env s _
    obtain ⟨s', hexec, hguest, hmem, hv⟩ := h env s
    refine ⟨s', hexec, fun hx => ?_, fun heq => ⟨?_, fun b _ => ?_, hv, fun hc => absurd hc hop⟩⟩
    · rw [← hguest, hx.regs, op.after_reg_regs]
    · rw [hguest, heq, op.after_reg_regs]
    · rw [hmem, ExchangeOp.after, op.exchange_reg_mem]

/-! ### Between registers -/

section Registers

variable {size : OpSize} {rd src : GpReg}

/-- Registers that tell the values of `r` and of the others apart. -/
def onesBut (r : GpReg) : GpReg → BitVec 64 :=
  Function.update (fun _ => -1) r 0

theorem swap_iff (h : rd ≠ src) :
    (∀ g, Function.update (Function.update g rd (g src)) src (g rd)
        = ExchangeOp.xchg.regsAfter size rd src g) ↔
      size = .b8 := by
  constructor
  · intro hall
    have hsrc := congrFun (hall (onesBut src)) src
    simp only [ExchangeOp.regsAfter, ExchangeOp.exchange, GuestState.put, onesBut, Function.update_self,
      Function.update_of_ne h, Function.update_of_ne h.symm] at hsrc
    exact into_zero_ones hsrc.symm
  · rintro rfl g
    simp [ExchangeOp.regsAfter, ExchangeOp.exchange, GuestState.put, OpSize.into]

theorem swap_self_iff : (∀ g, g = ExchangeOp.xchg.regsAfter size rd rd g) ↔ size ≠ .b4 := by
  constructor
  · rintro hall rfl
    have hrd := congrFun (hall fun _ => -1) rd
    simp only [ExchangeOp.regsAfter, ExchangeOp.exchange, GuestState.put, Function.update_self] at hrd
    revert hrd
    decide
  · intro hsize g
    simp only [ExchangeOp.regsAfter, ExchangeOp.exchange, GuestState.put, OpSize.into_self hsize,
      Function.update_eq_self]

theorem add_iff : (∀ g, Function.update (Function.update g rd (maskVal size (g rd + g src))) src
      (maskVal size (g rd)) = ExchangeOp.xadd.regsAfter size rd src g) ↔
    rd ≠ src ∧ (size = .b4 ∨ size = .b8) := by
  constructor
  · intro hall
    by_cases h : rd = src
    · subst h
      have hrd := congrFun (hall fun _ => 1) rd
      simp only [ExchangeOp.regsAfter, ExchangeOp.exchange, GuestState.put, Function.update_self] at hrd
      exact absurd hrd (by cases size <;> decide)
    · refine ⟨h, maskVal_ones ?_⟩
      have hsrc := congrFun (hall (onesBut src)) src
      simpa only [ExchangeOp.regsAfter, ExchangeOp.exchange, GuestState.put, onesBut, Function.update_self,
        Function.update_of_ne h, Function.update_of_ne (Ne.symm h)] using hsrc
  · rintro ⟨h, hsize⟩ g
    simp only [ExchangeOp.regsAfter, ExchangeOp.exchange, GuestState.put, Function.update_of_ne h]
    rw [Function.update_comm h, ← maskVal_eq_into hsize, ← maskVal_eq_into hsize]

theorem compare_iff : (∀ g : GpReg → BitVec 64,
      (if g .rax = g rd then Function.update g rd (maskVal size (g src))
        else Function.update g .rax (maskVal size (g rd))) = ExchangeOp.cmpxchg.regsAfter size rd src g ∧
      (g .rax = g rd ↔ AccEqual size (g rd) g)) ↔
    size = .b8 ∨ rd = .rax ∧ (size = .b4 ∨ src = .rax) := by
  constructor
  · intro hall
    by_contra hnot
    obtain ⟨h8, hrax⟩ := not_or.mp hnot
    by_cases hrd : rd = .rax
    swap
    · -- a bit above the size tells the comparisons apart
      have hflag := (hall (Function.update (fun _ => 0) rd 0x100000000#64)).2
      rw [AccEqual, Function.update_self, Function.update_of_ne (Ne.symm hrd)] at hflag
      have hlow : size.zeroExtended 0 = size.zeroExtended 0x100000000#64 := by
        cases size with
        | b8 => exact absurd rfl h8
        | _ => decide
      exact absurd (hflag.mpr hlow) (by decide)
    · subst hrd
      obtain ⟨h4, hsrc⟩ := not_or.mp fun h => hrax ⟨rfl, h⟩
      have hrax := congrFun (hall (Function.update (fun _ => -1) .rax 0)).1 .rax
      simp only [ExchangeOp.regsAfter, ExchangeOp.exchange, GuestState.put, AccEqual, if_true,
        Function.update_self, Function.update_of_ne hsrc] at hrax
      exact (maskVal_ones hrax).elim h4 h8
  · intro hok g
    have hsize : size = .b8 → ∀ v, size.zeroExtended v = v := by
      rintro rfl v
      exact OpSize.zeroExtended_b8 v
    have hflag : g .rax = g rd ↔ AccEqual size (g rd) g := by
      rcases hok with h8 | ⟨rfl, -⟩
      · rw [AccEqual, hsize h8, hsize h8]
      · exact iff_of_true rfl rfl
    refine ⟨?_, hflag⟩
    simp only [ExchangeOp.regsAfter, ExchangeOp.exchange, ← hflag]
    split
    · rename_i heq
      rcases hok with h8 | ⟨rfl, h4 | rfl⟩
      · simp only [GuestState.put, ← maskVal_eq_into (.inr h8)]
      · simp only [GuestState.put, ← maskVal_eq_into (.inl h4)]
      · by_cases h4 : size = .b4
        · simp only [GuestState.put, ← maskVal_eq_into (.inl h4)]
        · simp only [GuestState.put, OpSize.into_self h4, maskVal, if_neg h4]
    · rename_i hne
      have h8 : size = .b8 := hok.resolve_right fun h => hne (by rw [h.1])
      simp only [GuestState.put, ← maskVal_eq_into (.inr h8)]

end Registers

/-! ### The code between registers -/

/-- Instructions that work on registers, and what they make of them. -/
def RegisterRun (f : (GpReg → BitVec 64) → GpReg → BitVec 64) : List (Option Insn) → Prop :=
  Does fun s s' => guest s' = f (guest s) ∧ s'.mem = s.mem ∧ s'.v = s.v

theorem RegisterRun.code {f : (GpReg → BitVec 64) → GpReg → BitVec 64} {ws : List Word}
    (h : RegisterRun f (ws.map decode)) : RegisterCode f ws := by
  intro env s
  obtain ⟨s', hrun, hs'⟩ := h env 0 s
  exact ⟨s', exec_of_runSeq hrun, hs'⟩

theorem readX_guest (s : State) (g : GpReg) : s.readX (hostReg g) = guest s g :=
  readX_hostReg s g

theorem emits_swap (rd src : GpReg) :
    Emits p (do
      mov64 16 (hostReg rd)
      mov64 (hostReg rd) (hostReg src)
      mov64 (hostReg src) 16 : LiftM Unit) fun _ is =>
        RegisterRun (fun g => Function.update (Function.update g rd (g src)) src (g rd)) is := by
  refine Emits.bind (emits_mov64 (Emits.bind (emits_mov64 (emits_mov64 ?_))))
  intro env pc s
  simp only [List.cons_append, List.nil_append]
  rw [runSeq_mov64, runSeq_mov64, runSeq_mov64, runSeq_nil]
  refine ⟨_, rfl, ?_, by simp, by simp⟩
  have h16 : ∀ r : GpReg, (16#5 : Reg) ≠ hostReg r := fun r => (IsScratch.hostReg_ne (.inl rfl) r).symm
  have hx : ∀ r : GpReg, s.x (hostReg r) = guest s r := fun _ => rfl
  simp [hx, h16]

/-- One move into the scratch register. -/
theorem runSeq_mov17 {env : Env} {pc : Nat} {s : State} {is : List (Option Insn)} (r : GpReg) :
    runSeq env pc (some (.logicShift .orr (hostReg r) 0 31 17) :: is) s
      = runSeq env (pc + 1) is (s.writeX 17#5 (guest s r)) := by
  rw [runSeq_mov64, readX_guest]
  rfl

/-- A move to a guest register, with the mask of the size. -/
theorem emits_maskedMove (size : OpSize) (r : GpReg) {q : Reg} (hq : q ≠ 31#5) :
    Emits p (do mov64 (hostReg r) q; maskB4 size (hostReg r) : LiftM Unit) fun _ is =>
      Sets (hostReg r) (fun s => maskVal size (s.x q)) is := by
  refine Emits.bind (emits_mov64 (emits_maskB4 (hostReg_ne_31 r) fun js hjs => ?_))
  have hmov : Sets (hostReg r) (fun s => s.x q) [some (.logicShift .orr q 0 31 (hostReg r))] := by
    intro env pc s
    rw [runSeq_mov64, s.readX_of_ne _ hq]
    rfl
  exact hmov.append (g := maskVal size) (hostReg_ne_31 r) hjs

theorem emits_addExchange (size : OpSize) (rd src : GpReg) :
    Emits p (do
      mov64 17 (hostReg rd)
      emitArithRr .add (hostReg rd) (hostReg rd) (hostReg src) size
      mov64 (hostReg src) 17
      maskB4 size (hostReg src) : LiftM Unit) fun _ is =>
        RegisterRun (fun g => Function.update (Function.update g rd (maskVal size (g rd + g src))) src
          (maskVal size (g rd))) is := by
  have hsum := @binary_emitArithRr p .add (hostReg rd) (hostReg rd) (hostReg src) size
    (hostReg_ne_31 rd) (hostReg_ne_31 rd) (hostReg_ne_31 src)
  refine Emits.bind (emits_mov64 (Emits.bind (hsum.mono fun _ is hadd => ?_)))
  refine (emits_maskedMove size src (by decide)).mono fun _ js hback => ?_
  intro env pc s
  have h17 : ∀ r : GpReg, (17#5 : Reg) ≠ hostReg r := fun r => (IsScratch.hostReg_ne (.inr rfl) r).symm
  have hx : ∀ r : GpReg, s.x (hostReg r) = guest s r := fun _ => rfl
  have halu : ∀ f a b, ArithKind.add.alu.result f a b = a + b := fun f a b => addc_false a b
  rw [List.singleton_append, runSeq_mov17, runSeq_append, hadd, Option.bind_some, hback]
  refine ⟨_, rfl, ?_, by simp [Alu.write], by simp [Alu.write]⟩
  rw [guest_writeX_hostReg, Alu.write, guest_nzcv, guest_writeX_hostReg, guest_writeX_17, halu]
  simp [hx, h17]

/-! ### Comparing and exchanging -/

theorem cmpxchgTail_eq (size : OpSize) (store : LiftM Unit) :
    cmpxchgTail size store = (do
      cmp64 (hostReg .rax) 17
      emitTwoArms .ne store (do mov64 (hostReg .rax) 17; maskB4 size (hostReg .rax))) := by
  unfold cmpxchgTail emitTwoArms
  simp only [emit_bind_assoc]

theorem zeroJumps_iff {a b : BitVec 64} {P : Prop} :
    ZeroJumps (A64.addFlags a (~~~b) true) P ↔ (a = b ↔ P) := by
  have he : ∀ c, condX86ToA64 .e = some c → (c.holds (A64.addFlags a (~~~b) true) = true ↔ a = b) := by
    intro c hc
    rw [holds_condX86ToA64 (by decide) (by decide) hc]
    exact beq_iff_eq
  have hne : ∀ c, condX86ToA64 .ne = some c → (c.holds (A64.addFlags a (~~~b) true) = true ↔ ¬ a = b) := by
    intro c hc
    rw [holds_condX86ToA64 (by decide) (by decide) hc]
    exact bne_iff_ne
  constructor
  · intro h
    rw [← he _ rfl]
    exact h.1 _ rfl
  · intro h
    refine ⟨fun c hc => ?_, fun c hc => ?_⟩
    · rw [he c hc, h]
    · rw [hne c hc, h]

/-- The comparison of two registers. -/
theorem runSeq_cmp64 {env : Env} {pc : Nat} {s : State} {is : List (Option Insn)} {rn rm : Reg} :
    runSeq env pc (some (.addSubShift true true rm 0 rn 31) :: is) s
      = runSeq env (pc + 1) is { s with nzcv := A64.addFlags (s.readX rn) (~~~s.readX rm) true } := by
  rw [runSeq_cons, execOne_subs64]
  rfl

/-- Linear code that sets one register. -/
theorem Sets.isLinear {r : Reg} {f : State → BitVec 64} {is : List (Option Insn)} (h : Sets r f is) :
    ∀ i, some i ∈ is → i.isLinear = true :=
  isLinear_of_runSeq (h default 0 default)

/-- Once two values are compared, their equality chooses the arm. -/
theorem exec_compared_iff {env : Env} {is js ks : List (Option Insn)} {ws : List Word} {s t : State}
    {a b : BitVec 64} (hws : TwoArms .ne is js ks ws) (hjs : ∀ i, some i ∈ js → i.isLinear = true)
    (hks : ∀ i, some i ∈ ks → i.isLinear = true) (hrun : runSeq env 0 is s = some t)
    (hflags : t.nzcv = A64.addFlags a (~~~b) true) (s' : State) :
    Exec env ws s s' ↔ if a = b then runSeq env (is.length + 1) js t = some s'
      else runSeq env (is.length + 1 + js.length + 1) ks t = some s' := by
  have hne : A64.Cond.ne.holds t.nzcv = true ↔ ¬ a = b := by
    rw [hflags]
    exact (zeroJumps_iff.mpr Iff.rfl).2 _ rfl
  rw [exec_twoArms_iff hws (isLinear_of_runSeq hrun) hjs hks, hrun]
  by_cases heq : a = b
  · have hnot : ¬ A64.Cond.ne.holds t.nzcv = true := fun h => hne.mp h heq
    simp [heq, hnot]
  · simp [heq, hne.mpr heq]

/-- The code of `CMPXCHG` between registers, run. -/
theorem exec_compareExchange {size : OpSize} {rd src : GpReg} {is js ks : List (Option Insn)} {ws : List Word}
    (hws : TwoArms .ne is js ks ws)
    (his : is = [some (.logicShift .orr (hostReg rd) 0 31 17),
      some (.addSubShift true true 17 0 (hostReg .rax) 31)])
    (hjs : Sets (hostReg rd) (fun s => maskVal size (s.x (hostReg src))) js)
    (hks : Sets (hostReg .rax) (fun s => maskVal size (s.x 17#5)) ks) (env : Env) (s : State) :
    ∃ s', Exec env ws s s' ∧ guest s' = (if guest s .rax = guest s rd
        then Function.update (guest s) rd (maskVal size (guest s src))
        else Function.update (guest s) .rax (maskVal size (guest s rd))) ∧
      s'.mem = s.mem ∧ s'.v = s.v ∧ s'.nzcv = A64.addFlags (guest s .rax) (~~~guest s rd) true := by
  obtain ⟨t, ht⟩ : ∃ t, t = { s.writeX 17#5 (guest s rd) with
      nzcv := A64.addFlags (guest s .rax) (~~~guest s rd) true } := ⟨_, rfl⟩
  have hrun : runSeq env 0 is s = some t := by
    rw [his, runSeq_mov17, runSeq_cmp64, runSeq_nil, readX_guest, guest_writeX_17, ht]
    simp
  have hguest : guest t = guest s := by
    rw [ht, guest_nzcv, guest_writeX_17]
  have hmem : t.mem = s.mem := by
    rw [ht]
    exact s.writeX_mem _ _
  have hv : t.v = s.v := by
    rw [ht]
    exact s.writeX_v _ _
  have hflags : t.nzcv = A64.addFlags (guest s .rax) (~~~guest s rd) true := by
    rw [ht]
  have h17 : t.x 17#5 = guest s rd := by
    rw [ht]
    show (s.writeX 17#5 (guest s rd)).x 17#5 = _
    simp
  have hiff := exec_compared_iff hws hjs.isLinear hks.isLinear hrun hflags
  -- neither arm touches the flags of the comparison
  by_cases heq : guest s .rax = guest s rd
  · simp only [if_pos heq] at hiff ⊢
    refine ⟨_, (hiff _).mpr (hjs env _ t), ?_, ?_, ?_, ?_⟩
    · have hsrc : t.x (hostReg src) = guest s src := congrFun hguest src
      rw [guest_writeX_hostReg, hguest]
      dsimp only
      rw [hsrc]
    · rw [State.writeX_mem, hmem]
    · rw [State.writeX_v, hv]
    · rw [State.writeX_nzcv, hflags]
  · simp only [if_neg heq] at hiff ⊢
    refine ⟨_, (hiff _).mpr (hks env _ t), ?_, ?_, ?_, ?_⟩
    · rw [guest_writeX_hostReg, hguest]
      dsimp only
      rw [h17]
    · rw [State.writeX_mem, hmem]
    · rw [State.writeX_v, hv]
    · rw [State.writeX_nzcv, hflags]

/-! ### The lifts between registers -/

def ExchangeOp.lift (op : ExchangeOp) : Inst → LiftM Unit :=
  match op with
  | .xchg => liftXchg
  | .xadd => liftXadd
  | .cmpxchg => liftCmpxchg

theorem lift_of_exchange {inst : Inst} {op : ExchangeOp} (h : inst.op.exchange = some op) (legacy32 : Bool) :
    lift legacy32 inst = op.lift inst := by
  unfold Op.exchange at h
  unfold lift
  split at h <;> cases h <;> rename_i hop <;> rw [hop] <;> rfl

section Lifts

variable {inst : Inst} {rd src : GpReg} {n size : OpSize} {ws : List Word}

theorem xchg_reg_iff (h0 : inst.operand0 = some (.reg rd n)) (h1 : inst.operand1 = some (.reg src size))
    (hws : compile p (liftXchg inst) = some ws) :
    ExchangeCorrect .xchg inst size (.reg rd n) src ws ↔ ExchangeOk .xchg size (.reg rd n) src := by
  have hlift : liftXchg inst = if rd = src then pure () else (do
      mov64 16 (hostReg rd)
      mov64 (hostReg rd) (hostReg src)
      mov64 (hostReg src) 16) := by
    unfold liftXchg
    rw [h0, h1]
    rfl
  rw [hlift] at hws
  unfold ExchangeOk
  by_cases h : rd = src
  · subst h
    rw [if_pos rfl] at hws
    have hnone : Emits p (pure () : LiftM Unit) fun _ is => RegisterRun (fun g => g) is :=
      Emits.pure fun _ _ s => ⟨s, rfl, rfl, rfl, rfl⟩
    obtain ⟨-, hrun⟩ := hnone.of_compile hws
    rw [hrun.code.correct_iff (by decide), swap_self_iff]
    simp
  · rw [if_neg h] at hws
    obtain ⟨-, hrun⟩ := (emits_swap rd src).of_compile hws
    rw [hrun.code.correct_iff (by decide), swap_iff h]
    simp [h]

theorem xadd_reg_iff (h0 : inst.operand0 = some (.reg rd n)) (h1 : inst.operand1 = some (.reg src size))
    (hws : compile p (liftXadd inst) = some ws) :
    ExchangeCorrect .xadd inst size (.reg rd n) src ws ↔ ExchangeOk .xadd size (.reg rd n) src := by
  have hlift : liftXadd inst = (do
      mov64 17 (hostReg rd)
      emitArithRr .add (hostReg rd) (hostReg rd) (hostReg src) size
      mov64 (hostReg src) 17
      maskB4 size (hostReg src)) := by
    unfold liftXadd
    rw [h0, h1]
    rfl
  rw [hlift] at hws
  obtain ⟨-, hrun⟩ := (emits_addExchange size rd src).of_compile hws
  rw [hrun.code.correct_iff (by decide), add_iff]
  rfl

theorem cmpxchg_reg_iff (h0 : inst.operand0 = some (.reg rd n)) (h1 : inst.operand1 = some (.reg src size))
    (hws : compile p (liftCmpxchg inst) = some ws) :
    ExchangeCorrect .cmpxchg inst size (.reg rd n) src ws ↔ ExchangeOk .cmpxchg size (.reg rd n) src := by
  have hlift : liftCmpxchg inst = (do
      let a ← (do mov64 17 (hostReg rd); cmp64 (hostReg .rax) 17 : LiftM Unit)
      emitTwoArms .ne (do mov64 (hostReg rd) (hostReg src); maskB4 size (hostReg rd))
        (do mov64 (hostReg .rax) 17; maskB4 size (hostReg .rax))) := by
    rw [emit_bind_assoc]
    unfold liftCmpxchg
    rw [h0, h1]
    show (do mov64 17 (hostReg rd); cmpxchgTail size _ : LiftM Unit) = _
    simp only [cmpxchgTail_eq]
  rw [hlift] at hws
  have hblock : Emits p (do mov64 17 (hostReg rd); cmp64 (hostReg .rax) 17 : LiftM Unit) fun _ is =>
      is = [some (.logicShift .orr (hostReg rd) 0 31 17),
        some (.addSubShift true true 17 0 (hostReg .rax) 31)] :=
    Emits.bind (emits_mov64 (emits_subs64 rfl))
  obtain ⟨-, is, js, ks, his, hjs, hks, htwo⟩ := compile_twoArms hblock
    (fun _ => emits_maskedMove size rd (hostReg_ne_31 src))
    (fun _ => emits_maskedMove size .rax (by decide)) hws
  have hiff := @exchangeCorrect_iff .cmpxchg inst size (.reg rd n) src ws
    (fun s => (if guest s .rax = guest s rd then Function.update (guest s) rd (maskVal size (guest s src))
        else Function.update (guest s) .rax (maskVal size (guest s rd)))
          = ExchangeOp.cmpxchg.regsAfter size rd src (guest s) ∧
      (guest s .rax = guest s rd ↔ AccEqual size (guest s rd) (guest s))) ?_
  · rw [hiff]
    refine Iff.trans ?_ compare_iff
    constructor
    · intro hs g
      obtain ⟨s, rfl⟩ := exists_guest g
      exact hs s fun _ hmem => nomatch hmem
    · exact fun hg s _ => hg (guest s)
  · intro env s _
    obtain ⟨s', hexec, hguest, hmem, hv, hflags⟩ := exec_compareExchange htwo his hjs hks env s
    refine ⟨s', hexec, fun hx => ⟨?_, ?_⟩, fun hP => ⟨?_, fun b _ => ?_, hv, fun _ => ?_⟩⟩
    · rw [← hguest, hx.regs, ExchangeOp.after_reg_regs]
    · have hjumps := hx.jumps rfl
      rw [hflags, zeroJumps_iff] at hjumps
      exact hjumps
    · rw [hguest, hP.1, ExchangeOp.after_reg_regs]
    · rw [hmem, ExchangeOp.after, ExchangeOp.exchange_reg_mem]
    · rw [hflags, zeroJumps_iff]
      exact hP.2

end Lifts

end Quantum.Jit
