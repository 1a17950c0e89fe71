import Quantum.A64.Equiv.Stack
import Quantum.Jit.Equiv.Address
import Quantum.Jit.Lifter

/-!
# Calls to host functions

A 64-bit indirect `CALL` of the guest is a call of a host function.  The code saves the guest
registers that the guest's convention keeps and the host's does not, moves the four register
arguments and loads the four stack arguments into `X0` to `X7`, calls, and restores.

* `call_arguments`: at the branch the target and the eight arguments are those of the state before;
* `call_restores`: after a conforming host function the saved registers are back;
* `callIndirect_bridge`: the two together, for every operand form.
-/

namespace Quantum.Jit

open A64 StateTransition
open EmitM

variable {p : Profile} {env : Env}

/-! ### The instructions -/

/-- Save the non-volatile guest registers and set up the arguments. -/
def callSetup : List (Option Insn) :=
  [some (pushInsn 3 5), some (pushInsn 6 7), some (pushInsn 12 13), some (pushInsn 14 15),
   some (.logicShift .orr 1 0 31 0), some (.logicShift .orr 2 0 31 1),
   some (.logicShift .orr 8 0 31 2), some (.logicShift .orr 9 0 31 3),
   some (loadInsn .b8 4 19 0x20), some (loadInsn .b8 5 19 0x28),
   some (loadInsn .b8 6 19 0x30), some (loadInsn .b8 7 19 0x38), some (pushInsn 29 30)]

/-- Restore the saved registers. -/
def callRestore : List (Option Insn) :=
  [some (popInsn 29 30), some (popInsn 14 15), some (popInsn 12 13), some (popInsn 6 7),
   some (popInsn 3 5)]

theorem emits_emitCall64 {Q : Unit → List (Option Insn) → Prop}
    (h : Q () (callSetup ++ some (.blr 16) :: callRestore)) : Emits p emitCall64 Q := by
  refine Emits.bind (emits_stp64Pre (Emits.bind (emits_stp64Pre
    (Emits.bind (emits_stp64Pre (Emits.bind (emits_stp64Pre ?_)))))))
  refine Emits.bind (emits_mov64 (Emits.bind (emits_mov64
    (Emits.bind (emits_mov64 (Emits.bind (emits_mov64 ?_)))))))
  refine Emits.bind (emits_ldstScaled_of_fits (by decide) (.inr (by decide)) fun _ => ?_)
  refine Emits.bind (emits_ldstScaled_of_fits (by decide) (.inr (by decide)) fun _ => ?_)
  refine Emits.bind (emits_ldstScaled_of_fits (by decide) (.inr (by decide)) fun _ => ?_)
  refine Emits.bind (emits_ldstScaled_of_fits (by decide) (.inr (by decide)) fun _ => ?_)
  refine Emits.bind (emits_stp64Pre (Emits.bind (emits_blr ?_)))
  refine Emits.bind (emits_ldp64Post (Emits.bind (emits_ldp64Post (Emits.bind (emits_ldp64Post
    (Emits.bind (emits_ldp64Post (emits_ldp64Post h))))))))

/-! ### Up to the call -/

/-- The state with the guest's non-volatile registers saved. -/
def savedState (s : State) : State :=
  (((s.pushPair 3#5 5#5).pushPair 6#5 7#5).pushPair 12#5 13#5).pushPair 14#5 15#5

/-- The stack argument at an offset from the guest's stack pointer. -/
def stackArg (s : State) (offset : BitVec 64) : BitVec 64 :=
  (savedState s).mem.read 64 8 (s.x 19#5 + offset)

/-- The state at the branch. -/
def callState (s : State) : State :=
  (((((((((savedState s).writeX 0#5 (s.x 1#5)).writeX 1#5 (s.x 2#5)).writeX 2#5 (s.x 8#5)).writeX
    3#5 (s.x 9#5)).writeX 4#5 (stackArg s 0x20)).writeX 5#5 (stackArg s 0x28)).writeX 6#5
    (stackArg s 0x30)).writeX 7#5 (stackArg s 0x38)).pushPair 29#5 30#5

@[simp]
theorem savedState_x (s : State) (r : Reg) :
    (savedState s).x r = if r = 31#5 then s.x 31#5 - 64#64 else s.x r := by
  by_cases h : r = 31#5
  · simp only [savedState, State.pushPair_x, h, if_true, BitVec.sub_sub]
    rfl
  · simp [savedState, h]

@[simp]
theorem savedState_readX (s : State) (r : Reg) : (savedState s).readX r = s.readX r := by
  simp [savedState]

theorem execOne_ldr64_rsp (s : State) (pc : Nat) (rt : Reg) {offset : BitVec 32}
    (hfit : Fits OpSize.b8.bytes offset) :
    execOne env pc (loadInsn .b8 rt 19 offset) s
      = some (s.writeX rt (s.mem.read 64 8 (s.x 19#5 + offset.setWidth 64))) :=
  execOne_loadInsn hfit s

theorem runSeq_callSetup (env : Env) (s : State) (pc : Nat) :
    runSeq env pc callSetup s = some (callState s) := by
  have h20 : Fits OpSize.b8.bytes 0x20 := by decide
  have h28 : Fits OpSize.b8.bytes 0x28 := by decide
  have h30 : Fits OpSize.b8.bytes 0x30 := by decide
  have h38 : Fits OpSize.b8.bytes 0x38 := by decide
  rw [callSetup]
  rw [runSeq_cons, execOne_pushInsn, Option.bind_some, runSeq_cons, execOne_pushInsn,
    Option.bind_some, runSeq_cons, execOne_pushInsn, Option.bind_some, runSeq_cons,
    execOne_pushInsn, Option.bind_some]
  rw [runSeq_cons, execOne_mov64, Option.bind_some, runSeq_cons, execOne_mov64, Option.bind_some,
    runSeq_cons, execOne_mov64, Option.bind_some, runSeq_cons, execOne_mov64, Option.bind_some]
  rw [runSeq_cons, execOne_ldr64_rsp _ _ _ h20, Option.bind_some, runSeq_cons,
    execOne_ldr64_rsp _ _ _ h28, Option.bind_some, runSeq_cons, execOne_ldr64_rsp _ _ _ h30,
    Option.bind_some, runSeq_cons, execOne_ldr64_rsp _ _ _ h38, Option.bind_some]
  rw [runSeq_cons, execOne_pushInsn, Option.bind_some, runSeq_nil]
  simp [callState, stackArg, savedState, State.readX]

/-- The words that the code has pushed when it calls. -/
def savedWords (s : State) : List (BitVec 64) :=
  [s.x 29#5, s.x 30#5, s.x 14#5, s.x 15#5, s.x 12#5, s.x 13#5, s.x 6#5, s.x 7#5, s.x 3#5, s.x 5#5]

theorem callState_sp (s : State) : (callState s).x 31#5 = s.x 31#5 - 80#64 := by
  simp only [callState, State.pushPair_x, State.x_writeX, savedState_x, if_true, BitVec.reduceEq,
    false_and, if_false, BitVec.sub_sub]
  rfl

/-- A register that the set-up does not write. -/
theorem callState_x (s : State) {r : Reg} (h : 8#5 ≤ r) (h31 : r ≠ 31#5) :
    (callState s).x r = s.x r := by
  have hne : ∀ k : Reg, k < 8#5 → r ≠ k := fun k hk hr => absurd (hr ▸ h) (BitVec.not_le.mpr hk)
  simp only [callState, State.pushPair_x, State.x_writeX, savedState_x, h31, if_false,
    hne 0#5 (by decide), hne 1#5 (by decide), hne 2#5 (by decide), hne 3#5 (by decide),
    hne 4#5 (by decide), hne 5#5 (by decide), hne 6#5 (by decide), hne 7#5 (by decide), false_and]

theorem wordsAt_callState (s : State) :
    (callState s).mem.WordsAt ((callState s).x 31#5) (savedWords s) := by
  have h0 : s.mem.WordsAt (s.x 31#5) [] := trivial
  have h1 := h0.push2 (u := s.x 3#5) (v := s.x 5#5) (by simp)
  have h2 := h1.push2 (u := s.x 6#5) (v := s.x 7#5) (by simp)
  have h3 := h2.push2 (u := s.x 12#5) (v := s.x 13#5) (by simp)
  have h4 := h3.push2 (u := s.x 14#5) (v := s.x 15#5) (by simp)
  have h5 := h4.push2 (u := s.x 29#5) (v := s.x 30#5) (by simp)
  simpa [callState, savedState, savedWords, State.readX] using h5

/-- The pushes change no byte outside the 64 bytes below the stack pointer. -/
theorem savedState_mem (s : State) {b : BitVec 64} (h : ¬ InRange (s.x 31#5 - 64#64) 64 b) :
    (savedState s).mem b = s.mem b := by
  rw [InRange] at h
  have hout : ∀ k : BitVec 64, 16 ≤ k.toNat → k.toNat ≤ 64 →
      ¬ InRange (s.x 31#5 - k) 16 b := by
    intro k h16 h64
    rw [InRange]
    have hk := ByteMem.toNat_sub_add b (s.x 31#5 - 64#64) (64#64 - k)
    rw [show s.x 31#5 - 64#64 + (64#64 - k) = s.x 31#5 - k by
      rw [BitVec.sub_eq_add_neg (64#64), ← BitVec.add_assoc, BitVec.sub_add_cancel,
        ← BitVec.sub_eq_add_neg]] at hk
    have h64k : (64#64 - k).toNat = 64 - k.toNat := by
      rw [BitVec.toNat_sub_of_le (BitVec.le_def.mpr h64)]
      rfl
    rw [h64k] at hk
    have hlt := (b - (s.x 31#5 - k)).isLt
    omega
  have h16 := hout 16#64 (by decide) (by decide)
  have h32 := hout 32#64 (by decide) (by decide)
  have h48 := hout 48#64 (by decide) (by decide)
  have h64 := hout 64#64 (by decide) (by decide)
  have e2 : s.x 31#5 - 16#64 - 16#64 = s.x 31#5 - 32#64 := by rw [BitVec.sub_sub]; rfl
  have e3 : s.x 31#5 - 32#64 - 16#64 = s.x 31#5 - 48#64 := by rw [BitVec.sub_sub]; rfl
  have e4 : s.x 31#5 - 48#64 - 16#64 = s.x 31#5 - 64#64 := by rw [BitVec.sub_sub]; rfl
  simp only [savedState, State.pushPair_mem, State.pushPair_x, if_true, e2, e3]
  rw [ByteMem.push2_of_not_inRange (by rwa [e4]), ByteMem.push2_of_not_inRange (by rwa [e3]),
    ByteMem.push2_of_not_inRange (by rwa [e2]), ByteMem.push2_of_not_inRange h16]

/-- The four stack arguments of the guest do not lie where the code pushes. -/
def ArgsDisjoint (s : State) : Prop :=
  Disjoint64 (s.x 19#5 + 0x20#64) 32 (s.x 31#5 - 64#64) 64

theorem stackArg_eq {s : State} (h : ArgsDisjoint s) {offset : BitVec 64}
    (hlo : 0x20 ≤ offset.toNat) (hhi : offset.toNat ≤ 0x38) :
    stackArg s offset = s.mem.read 64 8 (s.x 19#5 + offset) := by
  refine ByteMem.read_congr 64 fun b hb => savedState_mem s (h b ?_)
  rw [InRange] at hb ⊢
  have hk := ByteMem.toNat_sub_add b (s.x 19#5 + 0x20#64) (offset - 0x20#64)
  have hsub : (offset - 0x20#64).toNat = offset.toNat - 0x20 :=
    BitVec.toNat_sub_of_le (BitVec.le_def.mpr hlo)
  have hadd : s.x 19#5 + 0x20#64 + (offset - 0x20#64) = s.x 19#5 + offset := by
    rw [BitVec.add_assoc, BitVec.add_comm (0x20#64), BitVec.sub_add_cancel]
  rw [hadd, hsub] at hk
  omega

/-- The target and the arguments at the branch, in terms of the state before the call. -/
structure CallArgs (s sc : State) (target : BitVec 64) : Prop where
  target : sc.readX 16#5 = target
  x0 : sc.x 0#5 = guest s .rcx
  x1 : sc.x 1#5 = guest s .rdx
  x2 : sc.x 2#5 = guest s .r8
  x3 : sc.x 3#5 = guest s .r9
  x4 : sc.x 4#5 = s.mem.read 64 8 (guest s .rsp + 0x20#64)
  x5 : sc.x 5#5 = s.mem.read 64 8 (guest s .rsp + 0x28#64)
  x6 : sc.x 6#5 = s.mem.read 64 8 (guest s .rsp + 0x30#64)
  x7 : sc.x 7#5 = s.mem.read 64 8 (guest s .rsp + 0x38#64)

theorem call_arguments {s : State} (h : ArgsDisjoint s) :
    CallArgs s (callState s) (s.x 16#5) := by
  have harg := fun {offset : BitVec 64} => @stackArg_eq s h offset
  refine ⟨?_, ?_, ?_, ?_, ?_, ?_, ?_, ?_, ?_⟩
  · rw [State.readX_of_ne _ _ (by decide), callState_x s (by decide) (by decide)]
  · simp [callState, guest, hostReg]
  · simp [callState, guest, hostReg]
  · simp [callState, guest, hostReg]
  · simp [callState, guest, hostReg]
  · simp [callState, guest, hostReg, harg]
  · simp [callState, guest, hostReg, harg]
  · simp [callState, guest, hostReg, harg]
  · simp [callState, guest, hostReg, harg]

/-! ### After the call -/

/-- The state after the pops. -/
def restoredState (s : State) : State :=
  ((((s.popPair 29#5 30#5).popPair 14#5 15#5).popPair 12#5 13#5).popPair 6#5 7#5).popPair 3#5 5#5

theorem runSeq_callRestore (env : Env) (s : State) (pc : Nat) :
    runSeq env pc callRestore s = some (restoredState s) := by
  simp only [callRestore, runSeq_cons, execOne_popInsn, Option.bind_some, runSeq_nil,
    restoredState, BitVec.ofNat_eq_ofNat]

/-- What the guest and the host find again after a call: `s` is the state before the call, `sr` the
one in which the host function returned, `s'` the one after the code. -/
structure CallKeeps (s sr s' : State) : Prop where
  rax : guest s' .rax = sr.x 0#5
  rbx : guest s' .rbx = guest s .rbx
  rbp : guest s' .rbp = guest s .rbp
  rsi : guest s' .rsi = guest s .rsi
  rdi : guest s' .rdi = guest s .rdi
  rsp : guest s' .rsp = guest s .rsp
  r12 : guest s' .r12 = guest s .r12
  r13 : guest s' .r13 = guest s .r13
  r14 : guest s' .r14 = guest s .r14
  r15 : guest s' .r15 = guest s .r15
  sp : s'.x 31#5 = s.x 31#5
  x29 : s'.x 29#5 = s.x 29#5
  x30 : s'.x 30#5 = s.x 30#5

theorem call_restores {s sr : State} (hsp : sr.x 31#5 = s.x 31#5 - 80#64)
    (h19 : sr.x 19#5 = s.x 19#5) (hw : sr.mem.WordsAt (sr.x 31#5) (savedWords s)) :
    CallKeeps s sr (restoredState sr) := by
  obtain ⟨h29, h30, hw⟩ := hw.pop2
  obtain ⟨h14, h15, hw⟩ := hw.pop2
  obtain ⟨h12, h13, hw⟩ := hw.pop2
  obtain ⟨h6, h7, hw⟩ := hw.pop2
  obtain ⟨h3, h5, -⟩ := hw.pop2
  have hend : sr.x 31#5 + 16#64 + 16#64 + 16#64 + 16#64 + 16#64 = s.x 31#5 := by
    rw [hsp]
    simp only [BitVec.add_assoc]
    exact BitVec.sub_add_cancel _ _
  constructor <;>
    simp [restoredState, guest, hostReg, h29, h30, h14, h15, h12, h13, h6, h7, h3, h5, h19, hend]

/-! ### The whole call -/

/-- The pointer that the operand of an indirect call denotes. -/
def targetPointer (inst : Inst) (s : State) : Operand → BitVec 64
  | .reg r _ => guest s r
  | op => memValue inst s .b8 op

/-- The code of an indirect call: the pointer into `X16`, then the call. -/
theorem emits_liftCallIndirect {inst : Inst} {op : Operand} (h0 : inst.operand0 = some op)
    (hok : AccessOk p op .b8) :
    Emits p (liftCallIndirect false inst) fun _ is => ∃ is₀,
      SetsVia17 16#5 (fun s => targetPointer inst s op) is₀ ∧
      is = is₀ ++ (callSetup ++ some (.blr 16) :: callRestore) := by
  have hmem : ∀ op : Operand, AccessOk p op .b8 →
      Emits p (do
        let leftover ← addrIntoXtmp op inst 16
        ldr64 16 16 leftover
        emitCall64 : LiftM Unit) fun _ is => ∃ is₀,
      SetsVia17 16#5 (fun s => memValue inst s .b8 op) is₀ ∧
      is = is₀ ++ (callSetup ++ some (.blr 16) :: callRestore) := by
    intro op hok
    refine Emits.bind (emits_addrIntoXtmp fun is ha => Emits.bind (emits_ldstScaled_of_fits
      (by decide) hok fun hfit => emits_emitCall64
        ⟨is ++ [some (loadInsn .b8 16 16 op.leftover)], fun env pc s => ?_, ?_⟩))
    · obtain ⟨t, ht⟩ := ha env pc s
      refine ⟨t, ?_⟩
      rw [runSeq_append, ht, Option.bind_some, runSeq_cons,
        execOne_loadInsn (show Fits OpSize.b8.bytes _ from hfit)]
      simp [memValue]
    · rw [List.append_assoc]
      rfl
  rw [liftCallIndirect, h0]
  refine Emits.bind (Emits.pure ?_)
  cases op with
  | reg r sz =>
    refine Emits.bind (emits_mov64 (emits_emitCall64 ⟨_, fun env pc s => ⟨s.x 17#5, ?_⟩, rfl⟩))
    rw [State.writeX_x_self, runSeq_cons, execOne_mov64, readX_hostReg]
    rfl
  | mem m => exact hmem _ hok
  | ripRel d sz => exact hmem _ hok
  | imm v sz => exact Emits.bind Emits.fail
  | xmmReg n sz => exact Emits.bind Emits.fail

/-- The run of a call: `is₀` leads from `s` to `s₁`, with the target in `X16`.  The code reaches its
branch in `callState s₁`, and a conforming host function that returns leads to its end. -/
theorem call_run {ws : List Word} {is₀ : List (Option Insn)} {s s₁ : State} {frame : Nat}
    (his : ws.map decode = is₀ ++ (callSetup ++ some (.blr 16) :: callRestore))
    (hs₁ : runSeq env 0 is₀ s = some s₁) (hframe : 80 ≤ frame) (henv : Aapcs64 env frame) :
    ∃ k, Reaches (step env ws) (.at 0 s) (.at k (callState s₁)) ∧
      (ws[k]?).bind decode = some (.blr 16) ∧
      ∀ sr, env.call (callState s₁).ext ((callState s₁).readX 16)
          ((callState s₁).writeX 30 (env.addrOf (k + 1))) = some sr →
        ∃ s', Exec env ws s s' ∧ CallKeeps s₁ sr s' := by
  have hcode : CodeAt ws 0 (is₀ ++ (callSetup ++ some (.blr 16) :: callRestore)) :=
    ⟨[], ws, [], by simp, rfl, his⟩
  obtain ⟨hc₀, hc⟩ := hcode.append
  obtain ⟨hc₁, hc⟩ := hc.append
  obtain ⟨hblr, hc₂⟩ := hc.cons
  have hr₀ := reaches_of_runSeq hc₀ hs₁
  have hr₁ := reaches_of_runSeq hc₁ (runSeq_callSetup env s₁ (0 + is₀.length))
  refine ⟨_, hr₀.trans hr₁, ?_, ?_⟩
  · obtain ⟨w, hw, hd⟩ := Option.map_eq_some_iff.mp hblr
    rw [hw, Option.bind_some, hd]
  · intro sr hsr
    obtain ⟨hkeep, hsp, hmem⟩ := henv _ _ _ _ hsr
    have hstep : step env ws (.at (0 + is₀.length + callSetup.length) (callState s₁))
        = some (.at (0 + is₀.length + callSetup.length + 1)
            { sr with ext := (callState s₁).ext + 1 }) := by
      rw [step_of_some hblr]
      show (execCall env _ 16 (callState s₁)).map _ = _
      rw [execCall, hsr]
      rfl
    have hr₂ := reaches_of_runSeq hc₂ (runSeq_callRestore env
      { sr with ext := (callState s₁).ext + 1 } (0 + is₀.length + callSetup.length + 1))
    have hlen : 0 + is₀.length + callSetup.length + 1 + callRestore.length = ws.length := by
      have := congrArg List.length his
      rw [List.length_map, List.length_append, List.length_append, List.length_cons] at this
      omega
    rw [hlen] at hr₂
    have hexec : Exec env ws s (restoredState { sr with ext := (callState s₁).ext + 1 }) :=
      ((hr₀.trans hr₁).tail (Option.mem_def.mpr hstep)).trans hr₂
    refine ⟨_, hexec, ?_⟩
    have h31 : ((callState s₁).writeX 30 (env.addrOf
        (0 + is₀.length + callSetup.length + 1))).x 31#5 = (callState s₁).x 31#5 := by
      rw [State.x_writeX, if_neg (by decide)]
    rw [h31] at hsp hmem
    have hwords : sr.mem.WordsAt (sr.x 31#5) (savedWords s₁) := by
      rw [hsp]
      refine (wordsAt_callState s₁).congr (by simp [savedWords]) fun b hb => ?_
      rw [hmem b (lt_of_lt_of_le hb (by simpa [savedWords] using hframe)), State.writeX_mem]
    have h19 : sr.x 19#5 = s₁.x 19#5 := by
      rw [hkeep 19#5 (by decide) (by decide), State.x_writeX, if_neg (by decide),
        callState_x s₁ (by decide) (by decide)]
    have hk : CallKeeps s₁ { sr with ext := (callState s₁).ext + 1 }
        (restoredState { sr with ext := (callState s₁).ext + 1 }) :=
      call_restores (hsp.trans (callState_sp s₁)) h19 hwords
    exact ⟨hk.rax, hk.rbx, hk.rbp, hk.rsi, hk.rdi, hk.rsp, hk.r12, hk.r13, hk.r14, hk.r15, hk.sp,
      hk.x29, hk.x30⟩

/-- What is kept does not depend on the scratch registers of the state before. -/
theorem CallKeeps.congr {s s₁ sr s' : State} (h : CallKeeps s₁ sr s')
    (hx : ∀ r, r ≠ 16#5 → r ≠ 17#5 → s₁.x r = s.x r) : CallKeeps s sr s' := by
  have hg : ∀ g, guest s₁ g = guest s g := fun g => hx _ (hostReg_ne_16 g) (hostReg_ne_17 g)
  exact ⟨h.rax, h.rbx.trans (hg _), h.rbp.trans (hg _), h.rsi.trans (hg _), h.rdi.trans (hg _),
    h.rsp.trans (hg _), h.r12.trans (hg _), h.r13.trans (hg _), h.r14.trans (hg _),
    h.r15.trans (hg _), h.sp.trans (hx _ (by decide) (by decide)),
    h.x29.trans (hx _ (by decide) (by decide)), h.x30.trans (hx _ (by decide) (by decide))⟩

/-- **The call bridge.**  The code of an indirect call reaches its branch with the target the operand
denotes and the eight arguments in place; and if the host function there, which conforms to AAPCS64,
returns, the code ends with the non-volatile registers of the guest, the stack pointer, `X29` and
`X30` as they were, and the result in `RAX`. -/
theorem callIndirect_bridge {inst : Inst} {op : Operand} {ws : List Word}
    (hop : inst.op = .callIndirect) (h0 : inst.operand0 = some op)
    (hws : compile p (lift false inst) = some ws) (hok : AccessOk p op .b8) {frame : Nat}
    (hframe : 80 ≤ frame) (henv : Aapcs64 env frame) {s : State} (hdis : ArgsDisjoint s) :
    ∃ k sc, Reaches (step env ws) (.at 0 s) (.at k sc) ∧
      (ws[k]?).bind decode = some (.blr 16) ∧
      CallArgs s sc (targetPointer inst s op) ∧
      ∀ sr, env.call sc.ext (sc.readX 16) (sc.writeX 30 (env.addrOf (k + 1))) = some sr →
        ∃ s', Exec env ws s s' ∧ CallKeeps s sr s' := by
  have hlift : lift false inst = liftCallIndirect false inst := by
    rw [lift, hop]
  rw [hlift] at hws
  obtain ⟨-, is₀, hptr, his⟩ := (emits_liftCallIndirect h0 hok).of_compile hws
  obtain ⟨t, ht⟩ := hptr env 0 s
  -- the state with the pointer in `X16`: guest registers, memory and stack are those of `s`
  generalize hs₁ : (s.writeX 17#5 t).writeX 16#5 (targetPointer inst s op) = s₁ at ht
  have hx : ∀ r, r ≠ 16#5 → r ≠ 17#5 → s₁.x r = s.x r := by
    intro r h16 h17
    rw [← hs₁]
    simp [h16, h17]
  have hg : ∀ g, guest s₁ g = guest s g := fun g => hx _ (hostReg_ne_16 g) (hostReg_ne_17 g)
  have hm : s₁.mem = s.mem := by rw [← hs₁]; simp
  have h16 : s₁.x 16#5 = targetPointer inst s op := by rw [← hs₁]; simp
  have hdis₁ : ArgsDisjoint s₁ := by
    rw [ArgsDisjoint, hx 19#5 (by decide) (by decide), hx 31#5 (by decide) (by decide)]
    exact hdis
  obtain ⟨k, hreach, hblr, hret⟩ := call_run his ht hframe henv
  have hargs := call_arguments hdis₁
  refine ⟨k, callState s₁, hreach, hblr, ?_, fun sr hsr => ?_⟩
  · rw [h16] at hargs
    refine ⟨hargs.target, ?_, ?_, ?_, ?_, ?_, ?_, ?_, ?_⟩
    · rw [hargs.x0, hg]
    · rw [hargs.x1, hg]
    · rw [hargs.x2, hg]
    · rw [hargs.x3, hg]
    · rw [hargs.x4, hg, hm]
    · rw [hargs.x5, hg, hm]
    · rw [hargs.x6, hg, hm]
    · rw [hargs.x7, hg, hm]
  · obtain ⟨s', hexec, hk⟩ := hret sr hsr
    exact ⟨s', hexec, hk.congr hx⟩

/-- `call rax`. -/
def callRax : Inst :=
  { Inst.empty .callIndirect 0x1000 2 with operand0 := some (.reg .rax .b8) }

/-- The code of `call rax`. -/
def callRaxCode : List Word :=
  [0xAA0003F0#32, 0xA9BF17E3#32, 0xA9BF1FE6#32, 0xA9BF37EC#32, 0xA9BF3FEE#32, 0xAA0103E0#32,
   0xAA0203E1#32, 0xAA0803E2#32, 0xAA0903E3#32, 0xF9401264#32, 0xF9401665#32, 0xF9401A66#32,
   0xF9401E67#32, 0xA9BF7BFD#32, 0xD63F0200#32, 0xA8C17BFD#32, 0xA8C13FEE#32, 0xA8C137EC#32,
   0xA8C11FE6#32, 0xA8C117E3#32]

/-- An environment whose host functions return 42. -/
def envReturns42 : Env :=
  { (default : Env) with call := fun _ _ s => some (s.writeX 0#5 42#64) }

theorem aapcs64_envReturns42 : Aapcs64 envReturns42 80 := by
  intro n a s s' h
  obtain rfl : s.writeX 0#5 42#64 = s' := Option.some.inj h
  refine ⟨fun r h19 _ => ?_, by simp, fun b _ => by simp⟩
  have hne : r ≠ 0#5 := by
    rintro rfl
    exact absurd h19 (by decide)
  simp [hne]

/-- A state with the host stack at `0x8000` and the guest's at `0x10000`. -/
def twoStacks : State :=
  { (default : State) with x := fun r => if r = 31 then 0x8000 else if r = 19 then 0x10000 else 0 }

theorem argsDisjoint_twoStacks : ArgsDisjoint twoStacks := by
  intro c h₁ h₂
  have e₁ : (c - 0x10020#64).toNat < 32 := h₁
  have e₂ : (c - 0x7FC0#64).toNat < 64 := h₂
  rw [BitVec.toNat_sub] at e₁ e₂
  simp only [BitVec.toNat_ofNat] at e₁ e₂
  omega

theorem callIndirect_bridge_callRax :
    ∃ k sc, Reaches (step envReturns42 callRaxCode) (.at 0 twoStacks) (.at k sc) ∧
      (callRaxCode[k]?).bind decode = some (.blr 16) ∧
      CallArgs twoStacks sc (targetPointer callRax twoStacks (.reg .rax .b8)) ∧
      ∀ sr, envReturns42.call sc.ext (sc.readX 16)
          (sc.writeX 30 (envReturns42.addrOf (k + 1))) = some sr →
        ∃ s', Exec envReturns42 callRaxCode twoStacks s' ∧ CallKeeps twoStacks sr s' := by
  have hws : compile ⟨true⟩ (lift false callRax) = some callRaxCode := by decide
  exact callIndirect_bridge rfl rfl hws (.inl rfl) (le_refl 80) aapcs64_envReturns42
    argsDisjoint_twoStacks

end Quantum.Jit
