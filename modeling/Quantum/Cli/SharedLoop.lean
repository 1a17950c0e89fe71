import Quantum.A64.Insn
import Quantum.Jit.Block
import Quantum.Lib.Machine
import Quantum.Runtime.CodeCache

/-!
# The dispatcher loop on several threads

`run_dispatcher_loop` of `process.rs` against the bytes of the code cache.  The threads share a `Dispatcher`;
`lookup`, `install` and `patch_chain` take its lock, and a step of a thread is one such section, so other
threads may run between the lookup that fails and the install, or between two patches.  What a thread
translates are the bytes that it has copied from the image, which guest code may write at any time.

A block leaves by the word that stands in the cache at its placeholder: `B +1` goes on to the code that
returns the target to the loop, a rewritten one goes where it branches.  `DispatcherLoop` has the same loop
with `LAST_ENTERED_RIP`, which is left out here.
-/

namespace Quantum.Cli

open Quantum.Jit Quantum.Runtime

/-- A block that has been installed, with the guest address that it was translated from. -/
structure CachedBlock where
  rip : BitVec 64
  ptr : BitVec 64
  block : Block
  length_lt : block.hostBytes.length < 2 ^ 63
  deriving DecidableEq

/-- The host address of a placeholder. -/
def CachedBlock.site (b : CachedBlock) (offset : BitVec 32) : BitVec 64 :=
  b.ptr + offset.setWidth 64

/-- Where a chained block is entered. -/
def hotEntry (ptr : BitVec 64) : BitVec 64 :=
  ptr + BitVec.ofNat 64 DISPATCHER_HOT_ENTRY_OFFSET

/-- Where an activation of the loop is. -/
inductive LoopPhase where
  | head
  /-- The lookup has failed. -/
  | missed
  | found (ptr : BitVec 64)
  /-- The placeholders that are still to be patched. -/
  | patching (ptr : BitVec 64) (sites : List (BitVec 64))
  /-- Guest code runs that was entered at a host address. -/
  | running (entry : BitVec 64)

structure Activation where
  currentRip : BitVec 64
  iters : Nat
  /-- The placeholders that wait for a guest address. -/
  unpatched : List (BitVec 64 × BitVec 64)
  phase : LoopPhase

def Activation.new (startRip : BitVec 64) : Activation :=
  ⟨startRip, 0, [], .head⟩

structure SharedLoop where
  dispatcher : Dispatcher
  /-- Every block that has been installed, the newest first. -/
  blocks : List CachedBlock
  /-- The activations of the loop on each thread, innermost first. -/
  threads : List (List Activation)

structure SharedConfig where
  profile : Profile
  overflowChecks : Bool
  mode : IsaMode
  actualBase : BitVec 64
  imageLen : Nat
  region : JitRegion

/-- The number of bytes that the loop copies for the translator; `none` is outside the image. -/
def SharedConfig.windowLen (cfg : SharedConfig) (rip : BitVec 64) : Option Nat :=
  if cfg.actualBase.toNat ≤ rip.toNat ∧ rip.toNat - cfg.actualBase.toNat < cfg.imageLen then
    let rva := BitVec.ofNat 32 (rip.toNat - cfg.actualBase.toNat)
    some (min 256 (cfg.imageLen - rva.toNat))
  else none

inductive SharedEvent where
  /-- A new thread. -/
  | spawn
  /-- Rust code starts the loop on a thread that runs no guest code. -/
  | start (t : Nat) (rip : BitVec 64)
  | lookup (t : Nat)
  /-- Translate the copied bytes and install the block. -/
  | translate (t : Nat) (bytes : List (BitVec 8))
  /-- Take the placeholders that wait for the block. -/
  | takeSites (t : Nat)
  | patch (t : Nat)
  | invoke (t : Nat)
  /-- The block that runs leaves through a placeholder. -/
  | chainExit (t : Nat) (b : CachedBlock) (site : BitVec 32 × BitVec 64)
  /-- A block without placeholders returns the next guest address. -/
  | exit (t : Nat) (b : CachedBlock) (rip : BitVec 64)
  /-- A thunk that the running block has called runs a guest function. -/
  | callback (t : Nat) (rip : BitVec 64)
  /-- `ExitProcess` or a crash: `longjmp` leaves all activations of the thread. -/
  | abort (t : Nat)
  /-- Some code writes a byte outside the code cache. -/
  | write (a : BitVec 64) (v : BitVec 8)

namespace SharedLoop

variable (cfg : SharedConfig)

def setThread (s : SharedLoop) (t : Nat) (frames : List Activation) : SharedLoop :=
  { s with threads := s.threads.set t frames }

/-- The thread with an activation on top. -/
def onTop (s : SharedLoop) (t : Nat) (k : Activation → List Activation → Option SharedLoop) :
    Option SharedLoop :=
  match s.threads[t]? with
  | some (f :: rest) => k f rest
  | _ => none

/-- The top of the loop: count the round and look the guest address up.  Beyond the limit the loop returns an
error. -/
def lookupStep (s : SharedLoop) (t : Nat) (f : Activation) (rest : List Activation) : SharedLoop :=
  if f.iters + 1 > 10000000 then s.setThread t rest
  else
    let phase :=
      match s.dispatcher.lookup f.currentRip with
      | some ptr => .found ptr
      | none => .missed
    s.setThread t ({ f with iters := f.iters + 1, phase } :: rest)

/-- Translate a window, install the block and register its placeholders.  An error ends the activation; `none`
is a panic of the translator. -/
def translateStep (s : SharedLoop) (t : Nat) (f : Activation) (rest : List Activation)
    (bytes : List (BitVec 8)) : Option SharedLoop :=
  match translateForDispatcher cfg.profile bytes f.currentRip cfg.mode with
  | .error (.panic _) => none
  | .error (.err _) => some (s.setThread t rest)
  | .ok block =>
    if h : block.hostBytes.length < 2 ^ 63 then
      match s.dispatcher.install f.currentRip ⟨block.hostBytes, h⟩ with
      | (.error _, dispatcher) => some ({ s with dispatcher }.setThread t rest)
      | (.ok ptr, dispatcher) =>
        let b : CachedBlock := ⟨f.currentRip, ptr, block, h⟩
        let waiting := block.chainPatches.map fun q => (q.2, b.site q.1)
        some ({ s with dispatcher, blocks := b :: s.blocks }.setThread t
          ({ f with unpatched := f.unpatched ++ waiting, phase := .found ptr } :: rest))
    else none

/-- The block has returned `nextRip` to the loop. -/
def returnTo (s : SharedLoop) (t : Nat) (f : Activation) (rest : List Activation) (nextRip : BitVec 64) :
    SharedLoop :=
  if nextRip = stopSentinel then s.setThread t rest
  else s.setThread t ({ f with currentRip := nextRip, phase := .head } :: rest)

/-- The block is installed and was entered at `entry`. -/
def IsEntered (s : SharedLoop) (b : CachedBlock) (entry : BitVec 64) : Prop :=
  b ∈ s.blocks ∧ (entry = b.ptr ∨ entry = hotEntry b.ptr)

instance (s : SharedLoop) (b : CachedBlock) (entry : BitVec 64) : Decidable (s.IsEntered b entry) :=
  inferInstanceAs (Decidable (_ ∧ _))

/-- Leave by the word at a placeholder. -/
def leaveBy (s : SharedLoop) (t : Nat) (f : Activation) (rest : List Activation) (site target : BitVec 64) :
    Option SharedLoop :=
  match A64.decode (s.dispatcher.mem.read 32 4 site) with
  | some (.b false imm) =>
    let dest := site + imm.signExtend 64 <<< 2
    if dest = site + 4 then some (s.returnTo t f rest target)
    else some (s.setThread t ({ f with phase := .running dest } :: rest))
  | _ => none

def step (s : SharedLoop) (e : SharedEvent) : Option SharedLoop :=
  match e with
  | .spawn => some { s with threads := s.threads ++ [[]] }
  | .start t rip =>
    match s.threads[t]? with
    | some [] => some (s.setThread t [Activation.new rip])
    | _ => none
  | .lookup t =>
    s.onTop t fun f rest =>
      match f.phase with
      | .head => some (s.lookupStep t f rest)
      | _ => none
  | .translate t bytes =>
    s.onTop t fun f rest =>
      match f.phase with
      | .missed =>
        match cfg.windowLen f.currentRip with
        | none => some (s.setThread t rest)
        | some n => if bytes.length = n then s.translateStep cfg t f rest bytes else none
      | _ => none
  | .takeSites t =>
    s.onTop t fun f rest =>
      match f.phase with
      | .found ptr =>
        let sites := (f.unpatched.filter fun w => w.1 = f.currentRip).map (·.2)
        some (s.setThread t ({ f with
          unpatched := f.unpatched.filter fun w => w.1 ≠ f.currentRip
          phase := .patching ptr sites } :: rest))
      | _ => none
  | .patch t =>
    s.onTop t fun f rest =>
      match f.phase with
      | .patching ptr (site :: sites) =>
        match s.dispatcher.patchChain cfg.overflowChecks site (hotEntry ptr) with
        | none => none
        | some (_, dispatcher) =>
          some ({ s with dispatcher }.setThread t ({ f with phase := .patching ptr sites } :: rest))
      | _ => none
  | .invoke t =>
    s.onTop t fun f rest =>
      match f.phase with
      | .patching ptr [] => some (s.setThread t ({ f with phase := .running ptr } :: rest))
      | _ => none
  | .chainExit t b site =>
    s.onTop t fun f rest =>
      match f.phase with
      | .running entry =>
        if s.IsEntered b entry ∧ site ∈ b.block.chainPatches then
          s.leaveBy t f rest (b.site site.1) site.2
        else none
      | _ => none
  | .exit t b rip =>
    s.onTop t fun f rest =>
      match f.phase with
      | .running entry =>
        if s.IsEntered b entry ∧ b.block.chainPatches = [] then some (s.returnTo t f rest rip) else none
      | _ => none
  | .callback t rip =>
    s.onTop t fun f rest =>
      match f.phase with
      | .running _ => some (s.setThread t (Activation.new rip :: f :: rest))
      | _ => none
  | .abort t => s.onTop t fun _ _ => some (s.setThread t [])
  | .write a v =>
    if InRange cfg.region.base cfg.region.len.toNat a then none
    else some { s with dispatcher := { s.dispatcher with mem := Function.update s.dispatcher.mem a v } }

/-- A new dispatcher, before any thread. -/
def start (mem : ByteMem) : SharedLoop :=
  ⟨.new cfg.region mem, [], []⟩

end SharedLoop

end Quantum.Cli
