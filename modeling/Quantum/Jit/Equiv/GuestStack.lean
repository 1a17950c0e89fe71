import Quantum.Jit.Decoder
import Quantum.Jit.Equiv.SizedOperand

/-!
# The guest stack

The stack pointer of the guest is in `X19`.  `PUSH` moves it before the store, and `POP` after the load, so
both go wrong when the operand is `RSP` itself, and on no other operand (`stack_correct_iff`).  In a run of
pushes and pops of other operands the stack area is a stack of values (`StackRun.replay`), so every pop gets
the value of the push that it matches.
-/

namespace Quantum.Jit

open A64

variable {p : Profile}

/-! ### What the instructions do -/

/-- The value of the operand of a `PUSH`. -/
def pushedValue (s : State) : Operand → BitVec 64
  | .reg r _ => guest s r
  | .imm v _ => v
  | _ => 0

/-- The value goes to the slot below the stack pointer, which becomes the stack pointer. -/
def Pushes (op : Operand) (s s' : State) : Prop :=
  guest s' = Function.update (guest s) .rsp (guest s .rsp - 8#64) ∧
  s'.mem = s.mem.write 8 (guest s .rsp - 8#64) (pushedValue s op) ∧ s'.v = s.v ∧ s'.nzcv = s.nzcv

/-- The destination gets the value in the slot, after the stack pointer has moved. -/
def Pops (rd : GpReg) (s s' : State) : Prop :=
  guest s' = Function.update (Function.update (guest s) .rsp (guest s .rsp + 8#64)) rd
    (s.mem.read 64 8 (guest s .rsp)) ∧
  s'.mem = s.mem ∧ s'.v = s.v ∧ s'.nzcv = s.nzcv

/-- `MOV RSP, RBP`, then `POP RBP`. -/
def LeavesFrame (s s' : State) : Prop :=
  Pops .rbp (s.writeX (hostReg .rsp) (guest s .rbp)) s'

/-! ### What the code does -/

/-- What the code of a `PUSH` stores: it reads the register after the stack pointer has moved. -/
def storedValue (s : State) : Operand → BitVec 64
  | .reg r _ => Function.update (guest s) .rsp (guest s .rsp - 8#64) r
  | op => pushedValue s op

/-- The code of a `PUSH`. -/
def PushCode (op : Operand) : List (Option Insn) → Prop :=
  Does fun s s' => guest s' = Function.update (guest s) .rsp (guest s .rsp - 8#64) ∧
    s'.mem = s.mem.write 8 (guest s .rsp - 8#64) (storedValue s op) ∧ s'.v = s.v ∧ s'.nzcv = s.nzcv

/-- The code of a `POP`: the stack pointer moves after the load. -/
def PopCode (rd : GpReg) : List (Option Insn) → Prop :=
  Does fun s s' => guest s' = Function.update
      (Function.update (guest s) rd (s.mem.read 64 8 (guest s .rsp))) .rsp
      (Function.update (guest s) rd (s.mem.read 64 8 (guest s .rsp)) .rsp + 8#64) ∧
    s'.mem = s.mem ∧ s'.v = s.v ∧ s'.nzcv = s.nzcv

theorem guest_writeX_19 (s : State) (v : BitVec 64) :
    guest (s.writeX 19#5 v) = Function.update (guest s) .rsp v :=
  guest_writeX_hostReg s .rsp v

theorem guest_writeXsp_19 (s : State) (v : BitVec 64) :
    guest (s.writeXsp 19#5 v) = Function.update (guest s) .rsp v := by
  rw [← guest_writeX_19, s.writeX_of_ne _ _ (by decide)]
  rfl

/-- The store of a register to the slot that `X19` points to. -/
theorem does_str64 (rt : Reg) :
    Does (fun s s' => s' = { s with mem := s.mem.write 8 (guest s .rsp) (s.readX rt) })
      [some (storeInsn .b8 rt 19 0)] := by
  intro env pc s
  rw [runSeq_storeInsn (fits_zero .b8), runSeq_nil]
  have haddr : s.x 19 + (0#32).setWidth 64 = guest s .rsp := BitVec.add_zero _
  exact ⟨_, rfl, congrArg (fun a => { s with mem := s.mem.write 8 a (s.readX rt) }) haddr⟩

theorem does_sub64Imm {sh : Bool} {i : BitVec 12} (hv : immValue sh i = (8#32).setWidth 64) :
    Does (fun s s' => s' = s.writeXsp 19#5 (guest s .rsp - 8#64))
      [some (.addSubImm true false sh i 19 19)] := by
  intro env pc s
  rw [runSeq_sub64Imm hv, runSeq_nil]
  exact ⟨_, rfl, rfl⟩

theorem emits_liftPush_code {inst : Inst} :
    Emits p (liftPush inst) fun _ is => ∃ op, inst.operand0 = some op ∧ PushCode op is := by
  unfold liftPush operand
  refine Emits.bind (Emits.okOr fun op h0 => Emits.bind (emits_sub64Imm fun sh i hv => ?_))
  cases op with
  | reg r size =>
    refine emits_str64 (fits_zero .b8) ⟨_, h0, ?_⟩
    refine ((does_sub64Imm hv).append (does_str64 (hostReg r))).mono ?_
    rintro s s' ⟨t, rfl, rfl⟩
    have hguest := guest_writeXsp_19 s (guest s .rsp - 8#64)
    refine ⟨hguest, ?_, by simp, by simp⟩
    have hval := congrFun hguest r
    have hsp := congrFun hguest .rsp
    rw [Function.update_self] at hsp
    rw [readX_hostReg, hsp]
    exact congrArg (ByteMem.write 8 s.mem (guest s .rsp - 8#64)) hval
  | imm v size =>
    refine Emits.bind (emits_loadConst64 (by decide) _ fun is hl =>
      emits_str64 (fits_zero .b8) ⟨_, h0, ?_⟩)
    have hset : Sets 16#5 (fun _ => v) is := hl.run
    refine ((does_sub64Imm hv).append (hset.does.append (does_str64 16))).mono ?_
    rintro s s' ⟨t, rfl, t', rfl, rfl⟩
    have hguest := guest_writeXsp_19 s (guest s .rsp - 8#64)
    refine ⟨(guest_writeX_16 _ v).trans hguest, ?_, by simp, by simp⟩
    have hsp := congrFun hguest .rsp
    rw [Function.update_self] at hsp
    have hval : ((s.writeXsp 19#5 (guest s .rsp - 8#64)).writeX 16#5 v).readX 16 = v := by
      rw [State.readX_of_ne _ _ (by decide)]
      simp
    rw [guest_writeX_16, hsp, hval]
    rfl
  | _ => exact Emits.fail

/-- The load from the slot that `X19` points to. -/
theorem does_ldr64 (rd : GpReg) :
    Does (fun s s' => s' = s.writeX (hostReg rd) (s.mem.read 64 8 (guest s .rsp)))
      [some (loadInsn .b8 (hostReg rd) 19 0)] := by
  intro env pc s
  rw [runSeq_loadInsn (fits_zero .b8), runSeq_nil]
  have haddr : s.x 19 + (0#32).setWidth 64 = guest s .rsp := BitVec.add_zero _
  exact ⟨_, rfl, congrArg (fun a => s.writeX (hostReg rd) (s.mem.read 64 8 a)) haddr⟩

theorem does_add64Imm {sh : Bool} {i : BitVec 12} (hv : immValue sh i = (8#32).setWidth 64) :
    Does (fun s s' => s' = s.writeXsp 19#5 (guest s .rsp + 8#64))
      [some (.addSubImm false false sh i 19 19)] := by
  intro env pc s
  rw [runSeq_add64Imm hv, runSeq_nil]
  exact ⟨_, rfl, rfl⟩

theorem emits_liftPop_code {inst : Inst} :
    Emits p (liftPop inst) fun _ is => ∃ rd size, inst.operand0 = some (.reg rd size) ∧ PopCode rd is := by
  unfold liftPop operand
  refine Emits.bind (Emits.okOr fun op h0 => ?_)
  cases op with
  | reg rd size =>
    refine Emits.bind (emits_ldr64 (fits_zero .b8) (emits_add64Imm fun sh i hv => ⟨rd, size, h0, ?_⟩))
    refine ((does_ldr64 rd).append (does_add64Imm hv)).mono ?_
    rintro s s' ⟨t, rfl, rfl⟩
    refine ⟨?_, by simp, by simp, by simp⟩
    rw [guest_writeXsp_19, guest_writeX_hostReg]
  | _ => exact Emits.fail

theorem emits_liftLeave_code : Emits p liftLeave fun _ is => Does LeavesFrame is := by
  unfold liftLeave
  refine Emits.bind (emits_mov64 (Emits.bind (emits_ldr64 (fits_zero .b8)
    (emits_add64Imm fun sh i hv => ?_))))
  have hmov : Does (fun s s' => s' = s.writeX (hostReg .rsp) (guest s .rbp))
      [some (.logicShift .orr (hostReg .rbp) 0 31 19)] := by
    intro env pc s
    rw [runSeq_mov64, runSeq_nil, readX_hostReg]
    exact ⟨_, rfl, rfl⟩
  refine (hmov.append ((does_ldr64 .rbp).append (does_add64Imm hv))).mono ?_
  rintro s s' ⟨t, rfl, t', rfl, rfl⟩
  refine ⟨?_, by simp, by simp, by simp⟩
  rw [guest_writeXsp_19, guest_writeX_hostReg]
  have hne : GpReg.rsp ≠ GpReg.rbp := by decide
  rw [Function.update_of_ne hne, Function.update_comm hne]

/-! ### Which operands go wrong -/

theorem storedValue_eq {op : Operand} (h : ∀ size, op ≠ .reg .rsp size) (s : State) :
    storedValue s op = pushedValue s op := by
  cases op with
  | reg r size =>
    have hr : r ≠ .rsp := by
      rintro rfl
      exact h size rfl
    exact Function.update_of_ne hr _ _
  | _ => rfl

theorem PushCode.pushes {op : Operand} {ws : List Word} (hcode : PushCode op (ws.map decode))
    (h : ∀ size, op ≠ .reg .rsp size) (env : Env) (s : State) :
    ∃ s', Exec env ws s s' ∧ Pushes op s s' := by
  obtain ⟨s', hrun, hguest, hmem, hrest⟩ := hcode env 0 s
  rw [storedValue_eq h] at hmem
  exact ⟨s', exec_of_runSeq hrun, hguest, hmem, hrest⟩

/-- `PUSH RSP` stores the new stack pointer. -/
theorem PushCode.pushes_iff {op : Operand} {ws : List Word} (hcode : PushCode op (ws.map decode)) :
    (∀ env s, ∃ s', Exec env ws s s' ∧ Pushes op s s') ↔ ∀ size, op ≠ .reg .rsp size := by
  refine ⟨fun h => ?_, hcode.pushes⟩
  rintro size rfl
  obtain ⟨s', hexec, -, hmem, -⟩ := h default default
  obtain ⟨t, hrun, -, hmem', -⟩ := hcode default 0 default
  rw [(exec_of_runSeq hrun).unique hexec, hmem] at hmem'
  have hread := congrArg (fun m => ByteMem.read 64 8 m (guest default .rsp - 8#64)) hmem'
  rw [ByteMem.read_write_self 64 _ _ _ (by decide), ByteMem.read_write_self 64 _ _ _ (by decide)] at hread
  exact absurd hread (by cases size <;> decide)

theorem PopCode.pops {rd : GpReg} {ws : List Word} (hcode : PopCode rd (ws.map decode))
    (h : rd ≠ .rsp) (env : Env) (s : State) : ∃ s', Exec env ws s s' ∧ Pops rd s s' := by
  obtain ⟨s', hrun, hguest, hrest⟩ := hcode env 0 s
  rw [Function.update_of_ne h.symm, Function.update_comm h] at hguest
  exact ⟨s', exec_of_runSeq hrun, hguest, hrest⟩

/-- `POP RSP` adds 8 to the value that it has read. -/
theorem PopCode.pops_iff {rd : GpReg} {ws : List Word} (hcode : PopCode rd (ws.map decode)) :
    (∀ env s, ∃ s', Exec env ws s s' ∧ Pops rd s s') ↔ rd ≠ .rsp := by
  refine ⟨fun h => ?_, hcode.pops⟩
  rintro rfl
  obtain ⟨s', hexec, hguest, -⟩ := h default default
  obtain ⟨t, hrun, hguest', -⟩ := hcode default 0 default
  rw [(exec_of_runSeq hrun).unique hexec, hguest] at hguest'
  have hrsp := congrFun hguest' .rsp
  rw [Function.update_self, Function.update_self, Function.update_self] at hrsp
  revert hrsp
  decide

/-! ### Sequences of pushes and pops -/

/-- A value that goes on the stack, or comes off it. -/
inductive StackEvent where
  | push (v : BitVec 64)
  | pop (v : BitVec 64)

/-- The stack of values after an event: a value that comes off is the one on top. -/
def StackEvent.apply : StackEvent → List (BitVec 64) → Option (List (BitVec 64))
  | .push v, vs => some (v :: vs)
  | .pop v, w :: vs => if v = w then some vs else none
  | .pop _, [] => none

/-- The stack after events, last in and first out. -/
def replay : List StackEvent → List (BitVec 64) → Option (List (BitVec 64))
  | [], vs => some vs
  | e :: es, vs => (e.apply vs).bind (replay es)

/-- A run of pushes and pops of operands other than `RSP`, with other steps between them, from depth `n` to
depth `m` above where the sequence began.  The other steps keep the stack pointer and the stack area, and so
does a push: its slot is not in the area yet. -/
inductive StackRun (p : Profile) (env : Env) : Nat → State → List StackEvent → Nat → State → Prop
  | done (n : Nat) (s : State) : StackRun p env n s [] n s
  | push {n m : Nat} {s t u : State} {es : List StackEvent} {inst : Inst} {op : Operand} {ws : List Word}
      (hop : inst.op = .push) (h0 : inst.operand0 = some op) (hrsp : ∀ size, op ≠ .reg .rsp size)
      (hws : compile p (lift false inst) = some ws) (hexec : Exec env ws s t)
      (hroom : 8 * (n + 1) ≤ 2 ^ 64) (hrest : StackRun p env (n + 1) t es m u) :
      StackRun p env n s (.push (pushedValue s op) :: es) m u
  | pop {n m : Nat} {s t u : State} {es : List StackEvent} {inst : Inst} {rd : GpReg} {size : OpSize}
      {ws : List Word} (hop : inst.op = .pop) (h0 : inst.operand0 = some (.reg rd size)) (hrsp : rd ≠ .rsp)
      (hws : compile p (lift false inst) = some ws) (hexec : Exec env ws s t)
      (hrest : StackRun p env n t es m u) : StackRun p env (n + 1) s (.pop (guest t rd) :: es) m u
  | other {n m : Nat} {s t u : State} {es : List StackEvent} (hsp : guest t .rsp = guest s .rsp)
      (harea : ∀ b, InRange (guest s .rsp) (8 * n) b → t.mem b = s.mem b)
      (hrest : StackRun p env n t es m u) : StackRun p env n s es m u

theorem pushCode_of_compile {legacy32 : Bool} {inst : Inst} {op : Operand} {ws : List Word}
    (hop : inst.op = .push) (h0 : inst.operand0 = some op)
    (hws : compile p (lift legacy32 inst) = some ws) : PushCode op (ws.map decode) := by
  unfold lift at hws
  rw [hop] at hws
  obtain ⟨-, op', h0', hcode⟩ := emits_liftPush_code.of_compile hws
  rw [h0, Option.some.injEq] at h0'
  rwa [h0']

theorem popCode_of_compile {legacy32 : Bool} {inst : Inst} {rd : GpReg} {size : OpSize} {ws : List Word}
    (hop : inst.op = .pop) (h0 : inst.operand0 = some (.reg rd size))
    (hws : compile p (lift legacy32 inst) = some ws) : PopCode rd (ws.map decode) := by
  unfold lift at hws
  rw [hop] at hws
  obtain ⟨-, rd', size', h0', hcode⟩ := emits_liftPop_code.of_compile hws
  rw [h0, Option.some.injEq] at h0'
  cases h0'
  exact hcode

/-- The words of the stack are in the stack area, and the stack pointer has moved by their number. -/
theorem StackRun.replay {env : Env} {n m : Nat} {s u : State} {es : List StackEvent}
    (h : StackRun p env n s es m u) :
    ∀ vs, vs.length = n → 8 * n ≤ 2 ^ 64 → ByteMem.WordsAt s.mem (guest s .rsp) vs →
      ∃ vs', Jit.replay es vs = some vs' ∧ vs'.length = m ∧ 8 * m ≤ 2 ^ 64 ∧
        ByteMem.WordsAt u.mem (guest u .rsp) vs' ∧
        guest u .rsp + BitVec.ofNat 64 (8 * m) = guest s .rsp + BitVec.ofNat 64 (8 * n) := by
  induction h with
  | done n s => exact fun vs hlen hn hvs => ⟨vs, rfl, hlen, hn, hvs, rfl⟩
  | @push n m s t u es inst op ws hop h0 hrsp hws hexec hroom hrest ih =>
    intro vs hlen hn hvs
    obtain ⟨t', hexec', hguest, hmem, -⟩ := (pushCode_of_compile hop h0 hws).pushes hrsp env s
    obtain rfl := hexec.unique hexec'
    have hsp : guest t .rsp = guest s .rsp - 8#64 := by
      rw [hguest, Function.update_self]
    have hpush := hvs.push (v := pushedValue s op) (by rw [hlen]; exact hroom)
    rw [← hmem, ← hsp] at hpush
    obtain ⟨vs', hreplay, hlen', hm, hwords, hrsp'⟩ := ih _ (by simp [hlen]) hroom hpush
    refine ⟨vs', hreplay, hlen', hm, hwords, ?_⟩
    rw [hrsp', hsp, Nat.mul_add, BitVec.ofNat_add, BitVec.add_comm (BitVec.ofNat 64 (8 * n)),
      ← BitVec.add_assoc]
    exact congrArg (· + BitVec.ofNat 64 (8 * n)) (BitVec.sub_add_cancel _ _)
  | @pop n m s t u es inst rd size ws hop h0 hrsp hws hexec hrest ih =>
    intro vs hlen hn hvs
    obtain ⟨t', hexec', hguest, hmem, -⟩ := (popCode_of_compile hop h0 hws).pops hrsp env s
    obtain rfl := hexec.unique hexec'
    have hsp : guest t .rsp = guest s .rsp + 8#64 := by
      rw [hguest, Function.update_of_ne hrsp.symm, Function.update_self]
    have hval : guest t rd = s.mem.read 64 8 (guest s .rsp) := by
      rw [hguest, Function.update_self]
    cases vs with
    | nil => cases hlen
    | cons v vs =>
      obtain ⟨hv, hvs'⟩ := hvs
      rw [← hmem, ← hsp] at hvs'
      obtain ⟨vs', hreplay, hlen', hm, hwords, hrsp'⟩ :=
        ih vs (Nat.succ.inj hlen) (by omega) hvs'
      refine ⟨vs', ?_, hlen', hm, hwords, ?_⟩
      · have htop : guest t rd = v := hval.trans hv
        rw [Jit.replay, StackEvent.apply, if_pos htop, Option.bind_some, hreplay]
      · rw [hrsp', hsp, Nat.mul_add, BitVec.ofNat_add, BitVec.add_comm (BitVec.ofNat 64 (8 * n)),
          ← BitVec.add_assoc]
  | @other n m s t u es hsp harea hrest ih =>
    intro vs hlen hn hvs
    have hkept : ByteMem.WordsAt t.mem (guest s .rsp) vs :=
      hvs.congr (by omega) fun b hb => harea b (by rwa [hlen] at hb)
    rw [← hsp] at hkept
    obtain ⟨vs', hreplay, hlen', hm, hwords, hrsp'⟩ := ih vs hlen hn hkept
    exact ⟨vs', hreplay, hlen', hm, hwords, by rw [hrsp', hsp]⟩

/-- **Guest stack operations.**  The code of a `PUSH` is right, from every state, if and only if the operand
is not `RSP`, and so is that of a `POP`; the code of a `LEAVE` is right.  A balanced run of pushes and pops
of other operands hands every value back, last in and first out, and restores the stack pointer. -/
theorem stack_correct_iff (p : Profile) :
    (∀ inst op ws, inst.op = .push → inst.operand0 = some op → compile p (lift false inst) = some ws →
      ((∀ env s, ∃ s', Exec env ws s s' ∧ Pushes op s s') ↔ ∀ size, op ≠ .reg .rsp size)) ∧
    (∀ inst rd size ws, inst.op = .pop → inst.operand0 = some (.reg rd size) →
      compile p (lift false inst) = some ws →
      ((∀ env s, ∃ s', Exec env ws s s' ∧ Pops rd s s') ↔ rd ≠ .rsp)) ∧
    (∀ inst ws, inst.op = .leave → compile p (lift false inst) = some ws →
      ∀ env s, ∃ s', Exec env ws s s' ∧ LeavesFrame s s') ∧
    ∀ env s es u, StackRun p env 0 s es 0 u → replay es [] = some [] ∧ guest u .rsp = guest s .rsp := by
  refine ⟨fun inst op ws hop h0 hws => (pushCode_of_compile hop h0 hws).pushes_iff,
    fun inst rd size ws hop h0 hws => (popCode_of_compile hop h0 hws).pops_iff,
    fun inst ws hop hws env s => ?_, fun env s es u hrun => ?_⟩
  · unfold lift at hws
    rw [hop] at hws
    obtain ⟨-, hcode⟩ := emits_liftLeave_code.of_compile hws
    obtain ⟨s', hrun, hleave⟩ := hcode env 0 s
    exact ⟨s', exec_of_runSeq hrun, hleave⟩
  · obtain ⟨vs, hreplay, hlen, -, -, hsp⟩ := hrun.replay [] rfl (by decide) trivial
    obtain rfl := List.length_eq_zero_iff.mp hlen
    have hzero : BitVec.ofNat 64 (8 * 0) = 0#64 := rfl
    rw [hzero, BitVec.add_zero, BitVec.add_zero] at hsp
    exact ⟨hreplay, hsp⟩

/-- `PUSH RAX`, then `POP RBX`. -/
theorem stack_correct_iff_push_pop : ∃ i₁ i₂ ws₁ ws₂,
    decodeNext true 0x1000 [0x50] = .ok (i₁, []) ∧ decodeNext true 0x1000 [0x5B] = .ok (i₂, []) ∧
    compile ⟨true⟩ (lift false i₁) = some ws₁ ∧ compile ⟨true⟩ (lift false i₂) = some ws₂ ∧
    ∀ env s, ∃ t u, Exec env ws₁ s t ∧ Exec env ws₂ t u ∧
      replay [.push (guest s .rax), .pop (guest u .rbx)] [] = some [] ∧ guest u .rsp = guest s .rsp := by
  obtain ⟨i₁, n₁, ws₁, hdec₁, hop₁, h0₁, hws₁⟩ : ∃ i₁ n₁ ws₁,
      decodeNext true 0x1000 [0x50] = .ok (i₁, []) ∧ i₁.op = .push ∧
      i₁.operand0 = some (.reg .rax n₁) ∧ compile ⟨true⟩ (lift false i₁) = some ws₁ :=
    ⟨_, _, _, rfl, rfl, rfl, rfl⟩
  obtain ⟨i₂, n₂, ws₂, hdec₂, hop₂, h0₂, hws₂⟩ : ∃ i₂ n₂ ws₂,
      decodeNext true 0x1000 [0x5B] = .ok (i₂, []) ∧ i₂.op = .pop ∧
      i₂.operand0 = some (.reg .rbx n₂) ∧ compile ⟨true⟩ (lift false i₂) = some ws₂ :=
    ⟨_, _, _, rfl, rfl, rfl, rfl⟩
  refine ⟨i₁, i₂, ws₁, ws₂, hdec₁, hdec₂, hws₁, hws₂, fun env s => ?_⟩
  obtain ⟨hpush, hpop, -, hrun⟩ := stack_correct_iff ⟨true⟩
  have hrsp₁ : ∀ size, Operand.reg .rax n₁ ≠ .reg .rsp size := fun size h => by cases h
  have hrsp₂ : GpReg.rbx ≠ .rsp := by decide
  obtain ⟨t, hexec₁, -⟩ := (hpush i₁ _ ws₁ hop₁ h0₁ hws₁).mpr hrsp₁ env s
  obtain ⟨u, hexec₂, -⟩ := (hpop i₂ _ _ ws₂ hop₂ h0₂ hws₂).mpr hrsp₂ env t
  refine ⟨t, u, hexec₁, hexec₂, hrun env s _ u ?_⟩
  exact .push hop₁ h0₁ hrsp₁ hws₁ hexec₁ (by decide) (.pop hop₂ h0₂ hrsp₂ hws₂ hexec₂ (.done 0 u))

/-- `PUSH RSP` and `POP RSP`. -/
theorem push_pop_rsp_wrong :
    (∃ inst op, decodeNext true 0x1000 [0x54] = .ok (inst, []) ∧ inst.op = .push ∧
      inst.operand0 = some op ∧ ∀ p, ∃ ws, compile p (lift false inst) = some ws ∧
        ¬ ∀ env s, ∃ s', Exec env ws s s' ∧ Pushes op s s') ∧
    ∃ inst rd size, decodeNext true 0x1000 [0x5C] = .ok (inst, []) ∧ inst.op = .pop ∧
      inst.operand0 = some (.reg rd size) ∧ ∀ p, ∃ ws, compile p (lift false inst) = some ws ∧
        ¬ ∀ env s, ∃ s', Exec env ws s s' ∧ Pops rd s s' := by
  constructor
  · obtain ⟨inst, n, hdec, hop, h0, hws⟩ : ∃ inst n, decodeNext true 0x1000 [0x54] = .ok (inst, []) ∧
        inst.op = .push ∧ inst.operand0 = some (.reg .rsp n) ∧
        ∀ p, ∃ ws, compile p (lift false inst) = some ws :=
      ⟨_, _, rfl, rfl, rfl, fun p => by rcases p with ⟨_ | _⟩ <;> exact ⟨_, rfl⟩⟩
    refine ⟨inst, _, hdec, hop, h0, fun p => ?_⟩
    obtain ⟨ws, hp⟩ := hws p
    exact ⟨ws, hp, fun h => (pushCode_of_compile hop h0 hp).pushes_iff.mp h n rfl⟩
  · obtain ⟨inst, n, hdec, hop, h0, hws⟩ : ∃ inst n, decodeNext true 0x1000 [0x5C] = .ok (inst, []) ∧
        inst.op = .pop ∧ inst.operand0 = some (.reg .rsp n) ∧
        ∀ p, ∃ ws, compile p (lift false inst) = some ws :=
      ⟨_, _, rfl, rfl, rfl, fun p => by rcases p with ⟨_ | _⟩ <;> exact ⟨_, rfl⟩⟩
    refine ⟨inst, _, n, hdec, hop, h0, fun p => ?_⟩
    obtain ⟨ws, hp⟩ := hws p
    exact ⟨ws, hp, fun h => (popCode_of_compile hop h0 hp).pops_iff.mp h rfl⟩

end Quantum.Jit
