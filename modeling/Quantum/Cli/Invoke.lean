import Quantum.Jit.Equiv.CtxPointer
import Quantum.Runtime.Dispatcher

/-!
# Guest functions that the host calls

`invoke_guest_function` of `process.rs` reserves shadow space on the guest stack, pushes a return address that
stops the dispatcher, and runs the dispatcher loop.  The blocks run as the host code that they are, with block
chaining: the context at `ctx`, the guest stack and the host stack are in one memory, and the loop is the
sequence of its calls of blocks.
-/

namespace Quantum.Cli

open Quantum.A64 Quantum.Jit Quantum.Runtime StateTransition

/-- The address of `ctx.gprs[i]`. -/
def gprSlot (ctx : BitVec 64) (i : Fin 16) : BitVec 64 :=
  ctx + BitVec.ofNat 64 (8 * i)

/-- `ctx.gprs[4]`: the guest's RSP. -/
def rspOf (ctx : BitVec 64) (m : ByteMem) : BitVec 64 :=
  m.read 64 8 (gprSlot ctx 4)

/-- RSP at the first instruction of a function that is called with RSP at `rsp`: below the shadow space and
the return address. -/
def calleeRsp (rsp : BitVec 64) : BitVec 64 :=
  rsp - 0x28#64

/-- `invoke_guest_function` up to the loop. -/
def enterFunction (ctx : BitVec 64) (m : ByteMem) : ByteMem :=
  let rsp := calleeRsp (rspOf ctx m)
  let m := m.write 8 (gprSlot ctx 4) rsp
  m.write 8 rsp stopSentinel

/-- The rounds after which `run_dispatcher_loop` gives up. -/
def loopLimit : Nat :=
  10000000

section Loop

variable (env : Env) (p : Profile) (mode : IsaMode)

/-- The block is a translation of code at `rip`; the guest may have changed this code since. -/
def TranslationOf (rip : BitVec 64) (blk : Block) : Prop :=
  ∃ bytes, translateForDispatcher p bytes rip mode = .ok blk

/-- Execution gets from word `k` of a block to word `k'` of the last block.  A placeholder that has been patched
leads to the hot entry of a translation of its target. -/
inductive Runs : Block → Nat → State → Block → Nat → State → Prop
  | inside {blk : Block} {k k' : Nat} {s s' : State}
      (hrun : Reaches (step env blk.code) (.at k s) (.at k' s')) : Runs blk k s blk k' s'
  | chained {blk next last : Block} {q : BitVec 32 × BitVec 64} {k k' : Nat} {s s₁ s' : State}
      (hq : q ∈ blk.chainPatches) (hsite : Jit.ChainSite blk.code q)
      (hrun : Reaches (step env blk.code) (.at k s) (.at (q.1.toNat / 4) s₁))
      (hnext : TranslationOf p mode q.2 next)
      (hrest : Runs next (DISPATCHER_HOT_ENTRY_OFFSET / 4) s₁ last k' s') :
    Runs blk k s last k' s'

/-- `invoke_block_with_ctx` on the block of `rip` has got to word `k` of a block, in state `s`. -/
def CallReaches (ctx rip : BitVec 64) (m : ByteMem) (blk : Block) (k : Nat) (s : State) : Prop :=
  ∃ blk₀ s₀, TranslationOf p mode rip blk₀ ∧ s₀.x 0#5 = ctx ∧ s₀.mem = m ∧ Runs env p mode blk₀ 0 s₀ blk k s

/-- It has returned to the loop. -/
def CallReturns (ctx rip : BitVec 64) (m : ByteMem) (r : State) : Prop :=
  ∃ blk k s, CallReaches env p mode ctx rip m blk k s ∧ Reaches (step env blk.code) (.at k s) (.returned r)

/-- `n` rounds of the loop after which it goes on at `rip'`. -/
inductive Rounds (ctx : BitVec 64) : Nat → BitVec 64 → ByteMem → BitVec 64 → ByteMem → Prop
  | zero {rip : BitVec 64} {m : ByteMem} : Rounds ctx 0 rip m rip m
  | succ {n : Nat} {rip rip' : BitVec 64} {m m' : ByteMem} {r : State}
      (hcall : CallReturns env p mode ctx rip m r) (hne : r.x 0#5 ≠ stopSentinel)
      (hrest : Rounds ctx n (r.x 0#5) r.mem rip' m') : Rounds ctx (n + 1) rip m rip' m'

/-- Word `k` of the block is where the code of its RET begins. -/
structure RetAt (blk : Block) (k : Nat) (term : Inst) : Prop where
  isRet : term.IsRet
  block : ∃ bytes rip body rest, translateForDispatcher p bytes rip mode = .ok blk ∧
    decodeLoop (mode = .long) (bytes.length + 1) rip bytes = .ok (body, term, rest) ∧
    k = startWords p bytes rip (mode = .legacy32) body

/-- `invoke_guest_function` on the function at `fn` returns `Ok`, with memory `m'`: the function has returned
by the RET `term`, with RSP at the return address that it was entered with. -/
inductive InvokeReturns (ctx fn : BitVec 64) (m : ByteMem) (term : Inst) : ByteMem → Prop
  | intro {n : Nat} {rip : BitVec 64} {m₁ : ByteMem} {blk : Block} {k : Nat} {s r : State} (hn : n < loopLimit)
      (hrounds : Rounds env p mode ctx n fn (enterFunction ctx m) rip m₁)
      (hcall : CallReaches env p mode ctx rip m₁ blk k s) (hret : RetAt p mode blk k term)
      (hrsp : guest s .rsp = calleeRsp (rspOf ctx m))
      (hreturn : Reaches (step env blk.code) (.at k s) (.returned r)) (hstop : r.x 0#5 = stopSentinel) :
    InvokeReturns ctx fn m term r.mem

/-- Successive invocations of functions that return by the RETs `terms`.  Between two of them the host may do
anything but change RSP. -/
inductive Invocations (ctx : BitVec 64) : List Inst → ByteMem → ByteMem → Prop
  | nil {m : ByteMem} : Invocations ctx [] m m
  | cons {fn : BitVec 64} {term : Inst} {terms : List Inst} {m m₁ m₂ m' : ByteMem}
      (hinvoke : InvokeReturns env p mode ctx fn m term m₁) (hrsp : rspOf ctx m₂ = rspOf ctx m₁)
      (hrest : Invocations ctx terms m₂ m') : Invocations ctx (term :: terms) m m'

end Loop

end Quantum.Cli
