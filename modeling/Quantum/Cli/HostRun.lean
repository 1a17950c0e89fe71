import Quantum.A64.Exec
import Quantum.Jit.Equiv.Interpreter

/-!
# Runs of translated code

`run_dispatcher_loop` of `process.rs` with the machine that runs the blocks under it.  The loop calls a block of its
guest address with the context in `X0`, and goes on at the address that the block returns.  A placeholder either
goes on to the return behind it, as translated, or branches to the hot entry of a block of its target; which of the
two is left open at every visit, since any thread may patch it.

The blocks are translations of the guest's text, which does not change.  The emulator has memory of its own.  How
the blocks get into the cache, and that there are no others, is the matter of `SharedLoop`.
-/

namespace Quantum.Cli

open A64 Jit

structure HostSetup where
  profile : Profile
  env : Env
  /-- The guest's code. -/
  text : BitVec 64 → BitVec 8
  /-- The address of the guest context. -/
  ctx : BitVec 64
  /-- The memory of the emulator: stacks, heap, code cache. -/
  own : BitVec 64 → Prop

namespace HostSetup

variable (H : HostSetup)

/-- A block of at most 4 GiB that translates the text at an address. -/
def IsBlockAt (rip : BitVec 64) (blk : Block) : Prop :=
  ∃ n, translateForDispatcher H.profile (window H.text rip n) rip .long = .ok blk ∧ blk.hostBytes.length ≤ 2 ^ 32

/-- Memory that is not the guest's. -/
def Private (b : BitVec 64) : Prop :=
  H.own b ∨ InRange H.ctx 416 b

end HostSetup

inductive HostConfig where
  /-- The loop is about to call a block of an address; the state is that in which it got there. -/
  | loop (rip : BitVec 64) (s : State)
  /-- A block runs. -/
  | code (blk : Block) (c : A64.Config)

inductive HostStep (H : HostSetup) : HostConfig → HostConfig → Prop where
  /-- The loop uses its own memory and calls from the stack pointer that it has got back. -/
  | call {rip : BitVec 64} {s s' : State} {blk : Block} (hblk : H.IsBlockAt rip blk) (hctx : s'.x 0#5 = H.ctx)
    (hsp : s'.x 31#5 = s.x 31#5) (hmem : ∀ b, ¬ H.own b → s'.mem b = s.mem b) :
    HostStep H (.loop rip s) (.code blk (.at 0 s'))
  | run {blk : Block} {c c' : A64.Config} (h : A64.step H.env blk.code c = some c') :
    HostStep H (.code blk c) (.code blk c')
  /-- A rewritten placeholder branches to a block of its target. -/
  | link {blk blk' : Block} {q : BitVec 32 × BitVec 64} {k : Nat} {s : State} (hq : q ∈ blk.chainPatches)
    (hk : q.1.toNat = 4 * k) (hblk : H.IsBlockAt q.2 blk') :
    HostStep H (.code blk (.at k s)) (.code blk' (.at (DISPATCHER_HOT_ENTRY_OFFSET / 4) s))
  | ret {blk : Block} {s : State} (h : s.x 0#5 ≠ STOP_SENTINEL) :
    HostStep H (.code blk (.returned s)) (.loop (s.x 0#5) s)

end Quantum.Cli
