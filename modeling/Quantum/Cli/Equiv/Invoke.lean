import Quantum.Cli.Invoke

/-!
# The stack after `invoke_guest_function`

The host takes 0x28 bytes off RSP before it calls a guest function, for the shadow space and the return
address; the RET of the function puts back the 8 bytes of the return address, and nobody the shadow space.

* `InvokeReturns.rsp`: RSP after an invocation;
* `invoke_neutral_iff`: the invocations that leave RSP where it was.
-/

namespace Quantum.Cli

open Quantum.A64 Quantum.Jit Quantum.Runtime StateTransition

variable {env : Env} {p : Profile} {mode : IsaMode} {ctx : BitVec 64}

theorem gprSlot_rsp (ctx : BitVec 64) : gprSlot ctx 4 = ctxSlot ctx .rsp :=
  rfl

/-! ### The context pointer in a call -/

/-- Execution begins a block: at its first word, or at its hot entry. -/
inductive Entered (ctx : BitVec 64) : Nat → State → Prop
  | cold {s : State} (h : s.x 0#5 = ctx) : Entered ctx 0 s
  | hot {s : State} (h : s.x 28#5 = ctx) : Entered ctx (DISPATCHER_HOT_ENTRY_OFFSET / 4) s

theorem Entered.holds {k : Nat} {s : State} (h : Entered ctx k s) {blk : Block} {pt : Nat → CtxPoint}
    (hpt : CtxCode blk pt) : (pt k).Holds ctx s := by
  cases h with
  | cold h =>
    rw [hpt.start]
    exact h
  | hot h =>
    rw [hpt.hot]
    exact h

/-- A block that records a placeholder ends in a jump. -/
theorem chainsOrReturns_of_mem {bytes : List Byte} {rip : BitVec 64} {blk : Block}
    (h : translateForDispatcher p bytes rip mode = .ok blk) {q : BitVec 32 × BitVec 64}
    (hq : q ∈ blk.chainPatches) :
    ∃ body term rest, decodeLoop (mode = .long) (bytes.length + 1) rip bytes = .ok (body, term, rest) ∧
      term.op.chainsOrReturns = true := by
  obtain ⟨body, term, rest, e₀, e₁, e₂, e₃, patches, hdec, -, -, h₂, -, -, hpatches⟩ := block_parts h
  refine ⟨body, term, rest, hdec, ?_⟩
  by_contra hop
  have hjmp : term.op ≠ .jmp := by
    intro hjmp
    rw [hjmp] at hop
    exact hop rfl
  have hjcc : ∀ c, term.op ≠ .jcc c := by
    intro c hjcc
    rw [hjcc] at hop
    exact hop rfl
  rw [hpatches, (emitTerminator_other hjmp hjcc h₂).1] at hq
  cases hq

/-- **At the RET of a call the context pointer is in `X28`.** -/
theorem Runs.ctx_of_retAt (henv : Aapcs64 env 0) {blk last : Block} {k k' : Nat} {s s' : State} {term : Inst}
    (h : Runs env p mode blk k s last k' s') (hblk : ∃ rip, TranslationOf p mode rip blk)
    (hs : Entered ctx k s) (hret : RetAt p mode last k' term) : s'.x 28#5 = ctx := by
  induction h with
  | inside hrun =>
    obtain ⟨bytes, rip, body, rest, hblk, hdec, rfl⟩ := hret.block
    obtain ⟨pt, hpt, hterm⟩ := exists_ctxCode hblk hdec (chainsOrReturns_of_isRet hret.isRet)
    have hholds := hpt.reaches henv (hs.holds hpt) hrun
    rw [hterm] at hholds
    exact hholds
  | chained hq hsite hrun hnext hrest ih =>
    obtain ⟨rip, bytes, hblk⟩ := hblk
    obtain ⟨body, term, rest, hdec, hop⟩ := chainsOrReturns_of_mem hblk hq
    obtain ⟨pt, hpt, -⟩ := exists_ctxCode hblk hdec hop
    have hholds := hpt.reaches henv (hs.holds hpt) hrun
    rw [hpt.sites _ hq hsite] at hholds
    exact ih ⟨_, hnext⟩ (.hot hholds) hret

/-! ### RSP -/

/-- RSP after an invocation. -/
theorem InvokeReturns.rsp (henv : Aapcs64 env 0) {fn : BitVec 64} {m m' : ByteMem} {term : Inst}
    (h : InvokeReturns env p mode ctx fn m term m') :
    rspOf ctx m' = calleeRsp (rspOf ctx m) + popped term := by
  obtain ⟨-, -, hcall, hret, hrsp, hreturn, -⟩ := h
  obtain ⟨blk₀, s₀, hblk, hx0, -, hruns⟩ := hcall
  have hctx := hruns.ctx_of_retAt henv ⟨_, hblk⟩ (.cold hx0) hret
  obtain ⟨bytes, rip, body, rest, htrans, hdec, rfl⟩ := hret.block
  obtain ⟨is, hpops, hcode⟩ := codeAt_ret htrans hdec hret.isRet
  obtain ⟨r, hr, -, hslot⟩ := hpops.returns hcode _
  obtain rfl := returned_unique hr hreturn
  rw [rspOf, gprSlot_rsp, ← hctx, hslot, hctx, hrsp]

/-- What an invocation leaves of the bytes that the host has taken. -/
def leak (term : Inst) : BitVec 64 :=
  0x28#64 - popped term

theorem InvokeReturns.rsp_leak (henv : Aapcs64 env 0) {fn : BitVec 64} {m m' : ByteMem} {term : Inst}
    (h : InvokeReturns env p mode ctx fn m term m') : rspOf ctx m' = rspOf ctx m - leak term := by
  rw [h.rsp henv, calleeRsp, leak]
  bv_omega

/-- RSP after any number of invocations. -/
theorem Invocations.rsp (henv : Aapcs64 env 0) {terms : List Inst} {m m' : ByteMem}
    (h : Invocations env p mode ctx terms m m') : rspOf ctx m' = rspOf ctx m - (terms.map leak).sum := by
  induction h with
  | nil => exact (BitVec.sub_zero _).symm
  | cons hinvoke hrsp _ ih => rw [ih, hrsp, hinvoke.rsp_leak henv, List.map_cons, List.sum_cons, BitVec.sub_sub]

theorem sub_eq_self_iff {a b : BitVec 64} : a - b = a ↔ b = 0#64 := by
  constructor
  · intro h
    bv_omega
  · rintro rfl
    exact BitVec.sub_zero a

/-- **An invocation leaves RSP where it was** exactly when the RET of the function pops the shadow space with
the return address, as `RET 0x20` does; and successive invocations do exactly when their RETs pop together what
the host has taken. -/
theorem invoke_neutral_iff (p : Profile) (mode : IsaMode) (henv : Aapcs64 env 0) (ctx : BitVec 64) :
    (∀ fn m term m', InvokeReturns env p mode ctx fn m term m' →
      (rspOf ctx m' = rspOf ctx m ↔ popped term = 0x28#64)) ∧
    ∀ terms m m', Invocations env p mode ctx terms m m' →
      (rspOf ctx m' = rspOf ctx m ↔ (terms.map leak).sum = 0#64) := by
  refine ⟨fun fn m term m' h => ?_, fun terms m m' h => ?_⟩
  · rw [h.rsp_leak henv, sub_eq_self_iff, leak]
    constructor
    · intro hleak
      bv_omega
    · intro hpop
      rw [hpop]
      rfl
  · rw [h.rsp henv, sub_eq_self_iff]

/-! ### A function that only returns -/

/-- The code `RET`. -/
def retOnly : List Byte :=
  [0xC3]

/-- RSP in the context at 0x1000, and nothing else. -/
def retMemory : ByteMem :=
  ByteMem.write 8 (fun _ => 0) (gprSlot 0x1000 4) 0x20028#64

/-- The host state in which the loop calls the block. -/
def retCall : State :=
  { (default : State) with
    x := fun r => if r = 0#5 then 0x1000#64 else if r = 31#5 then 0x10000#64 else 0#64
    mem := enterFunction 0x1000 retMemory }

theorem rsp_framed_retCall :
    (framed retCall).mem.read 64 8 (ctxSlot 0x1000 .rsp) = calleeRsp (rspOf 0x1000 retMemory) := by
  decide +kernel

theorem sentinel_framed_retCall :
    (framed retCall).mem.read 64 8 (calleeRsp (rspOf 0x1000 retMemory)) = stopSentinel := by
  decide +kernel

/-- The invocation of a function that is a single RET. -/
theorem exists_invoke_retOnly : ∃ term m', term.op = .ret ∧
    InvokeReturns default ⟨true⟩ .long 0x1000 0x401000 retMemory term m' := by
  have hdec : ∃ term, decodeLoop (IsaMode.long = .long) 2 0x401000 retOnly = .ok ([], term, []) ∧
      term.op = .ret := ⟨_, rfl, rfl⟩
  obtain ⟨term, hdec, hop⟩ := hdec
  have hok : (translateForDispatcher ⟨true⟩ retOnly 0x401000 .long).isOk = true := by
    decide +kernel
  obtain ⟨blk, hblk⟩ := exists_of_isOk hok
  have hwords : 22 = startWords ⟨true⟩ retOnly 0x401000 (IsaMode.long = .legacy32) [] := by
    decide +kernel
  -- the block runs through its prologue to the RET
  obtain ⟨s, hrun, hmem, -, -, hguest⟩ := @exists_prologue_run default 0 retCall
  have hreach : Reaches (step default blk.code) (.at 0 retCall) (.at 22 s) :=
    reaches_of_runSeq (codeAt_prologue hblk) hrun
  have hrsp : guest s .rsp = calleeRsp (rspOf 0x1000 retMemory) := (hguest .rsp).trans rsp_framed_retCall
  obtain ⟨is, hpops, hcode⟩ := codeAt_ret hblk hdec (.inl hop)
  rw [← hwords] at hcode
  obtain ⟨r, hreturn, hx0, -⟩ := @PopsReturn.returns default _ _ hpops _ _ hcode s
  rw [hrsp, hmem, sentinel_framed_retCall] at hx0
  refine ⟨term, r.mem, hop, .intro (by decide) .zero ?_ ?_ hrsp hreturn hx0⟩
  · exact ⟨blk, retCall, ⟨retOnly, hblk⟩, rfl, rfl, .inside hreach⟩
  · exact ⟨.inl hop, retOnly, _, _, _, hblk, hdec, hwords⟩

theorem invoke_neutral_iff_retOnly : ∃ term m',
    InvokeReturns default ⟨true⟩ .long 0x1000 0x401000 retMemory term m' ∧
      (rspOf 0x1000 m' = rspOf 0x1000 retMemory ↔ popped term = 0x28#64) := by
  obtain ⟨term, m', -, h⟩ := exists_invoke_retOnly
  exact ⟨term, m', h, (invoke_neutral_iff ⟨true⟩ .long (aapcs64_default 0) 0x1000).1 _ _ _ _ h⟩

/-- RSP is 0x20 lower after the function has returned. -/
theorem retOnly_not_neutral : ∃ term m', term.op = .ret ∧
    InvokeReturns default ⟨true⟩ .long 0x1000 0x401000 retMemory term m' ∧
      rspOf 0x1000 retMemory = 0x20028#64 ∧ rspOf 0x1000 m' = 0x20008#64 := by
  obtain ⟨term, m', hop, h⟩ := exists_invoke_retOnly
  have hrsp : rspOf 0x1000 retMemory = 0x20028#64 := by
    decide +kernel
  refine ⟨term, m', hop, h, hrsp, ?_⟩
  rw [h.rsp (aapcs64_default 0), hrsp, popped_of_ret hop]
  rfl

end Quantum.Cli
