import Quantum.Jit.Block
import Quantum.Lib.Machine
import Quantum.Loader.Image
import Quantum.Runtime.Dispatcher

/-!
# The dispatcher loop

`run_dispatcher_loop` of `process.rs`, with block chaining: every thread has a stack of activations of the
loop (a thunk or an exception handler may start a nested one), all of them share the code cache, the block
map and `LAST_ENTERED_RIP`.  The events of a run say what the guest code does; the loop's own work is
`enter`, up to the store of `LAST_ENTERED_RIP`, and `invoke`.
-/

namespace Quantum.Cli

open Quantum.Jit Quantum.Loader Quantum.Runtime

/-- A host pointer to an installed block: its offset in the code cache, with the guest address that the
block was translated from. -/
structure HostPtr where
  rip : BitVec 64
  offset : Nat
  deriving DecidableEq

/-- A placeholder of a block: its byte offset in the block, the guest address it waits for, and the block
that it branches to once it is patched. -/
structure ChainSite where
  offset : BitVec 32
  target : BitVec 64
  link : Option HostPtr
  deriving DecidableEq

/-- Where an activation of the loop is. -/
inductive LoopPoint where
  | head
  /-- `LAST_ENTERED_RIP` is stored, the block is about to be called. -/
  | entered (ptr : HostPtr)
  | running (ptr : HostPtr)
  deriving DecidableEq

structure LoopFrame where
  currentRip : BitVec 64
  iters : Nat
  /-- The placeholders that wait for a guest address: the block and the index of the site. -/
  unpatched : List (BitVec 64 × HostPtr × Nat)
  point : LoopPoint

def LoopFrame.new (startRip : BitVec 64) : LoopFrame :=
  ⟨startRip, 0, [], .head⟩

structure DispatcherState where
  image : LoadedImage
  /-- The placeholders of the installed blocks. -/
  sites : HostPtr → List ChainSite
  blockMap : List (BitVec 64 × HostPtr)
  /-- The bytes of the code cache in use. -/
  used : Nat
  lastEnteredRip : BitVec 64
  /-- The activations of the loop on each thread, innermost first. -/
  threads : List (List LoopFrame)

structure LoopConfig where
  profile : Profile
  mode : IsaMode
  /-- The length of the code cache. -/
  cacheLen : Nat

inductive LoopEvent where
  /-- A new thread. -/
  | spawn
  /-- Rust code starts the loop on a thread that runs no guest code. -/
  | start (t : Nat) (rip : BitVec 64)
  | enter (t : Nat)
  | invoke (t : Nat)
  /-- The running block leaves through its placeholder `i`. -/
  | chainExit (t : Nat) (i : Nat)
  /-- The running block has no placeholders and returns the next guest address. -/
  | exit (t : Nat) (rip : BitVec 64)
  /-- A thunk that the running block has called runs a guest function. -/
  | callback (t : Nat) (rip : BitVec 64)
  /-- `ExitProcess` or a crash: `longjmp` leaves all activations of the thread. -/
  | abort (t : Nat)
  /-- Guest code writes to the image. -/
  | write (byte : Nat → BitVec 8)

namespace DispatcherState

variable (cfg : LoopConfig)

/-- The bytes handed to the translator: at most 256, none outside the image. -/
def window (s : DispatcherState) (rip : BitVec 64) : Option (List (BitVec 8)) :=
  if s.image.actualBase.toNat ≤ rip.toNat ∧ rip.toNat - s.image.actualBase.toNat < s.image.len then
    let rva := BitVec.ofNat 32 (rip.toNat - s.image.actualBase.toNat)
    s.image.rvaToSlice rva (min 256 (s.image.len - rva.toNat))
  else
    none

def lookup (s : DispatcherState) (rip : BitVec 64) : Option HostPtr :=
  s.blockMap.lookup rip

/-- `Dispatcher::install`: the block goes to the end of the code cache, rounded up to whole words. -/
def install (s : DispatcherState) (rip : BitVec 64) (block : Block) :
    Option (DispatcherState × HostPtr) :=
  if s.used + block.hostBytes.length > cfg.cacheLen then none
  else
    let ptr : HostPtr := ⟨rip, s.used⟩
    some (
      { s with
        sites := Function.update s.sites ptr (block.chainPatches.map fun c => ⟨c.1, c.2, none⟩)
        blockMap := (rip, ptr) :: s.blockMap
        used := (s.used + block.hostBytes.length + 3) / 4 * 4 },
      ptr)

/-- What the top of the loop finds for `current_rip`: the installed block, or a new one with its
placeholders registered as waiting.  The outer `none` is a panic of the translator, the inner one an
error, which the loop returns. -/
def obtain (s : DispatcherState) (f : LoopFrame) :
    Option (Option (DispatcherState × LoopFrame × HostPtr)) :=
  match s.lookup f.currentRip with
  | some ptr => some (some (s, f, ptr))
  | none =>
    match s.window f.currentRip with
    | none => some none
    | some bytes =>
      match translateForDispatcher cfg.profile bytes f.currentRip cfg.mode with
      | .error (.panic _) => none
      | .error (.err _) => some none
      | .ok block =>
        match s.install cfg f.currentRip block with
        | none => some none
        | some (s, ptr) =>
          let waiting := block.chainPatches.mapIdx fun i c => (c.2, ptr, i)
          some (some (s, { f with unpatched := f.unpatched ++ waiting }, ptr))

/-- Can `patch_chain` encode the branch from a placeholder to the hot entry of a block? -/
def inBranchRange (src : HostPtr) (site : ChainSite) (ptr : HostPtr) : Bool :=
  let delta : Int := (ptr.offset + DISPATCHER_HOT_ENTRY_OFFSET : Nat) -
    (src.offset + site.offset.toNat : Nat)
  delta % 4 = 0 && -(2 ^ 25) ≤ delta / 4 && delta / 4 ≤ 2 ^ 25 - 1

/-- `patch_chain` on one placeholder; out of range it stays as it is. -/
def patchChain (s : DispatcherState) (src : HostPtr) (i : Nat) (ptr : HostPtr) : DispatcherState :=
  { s with
    sites := Function.update s.sites src ((s.sites src).modify i fun site =>
      if inBranchRange src site ptr then { site with link := some ptr } else site) }

/-- Patch every placeholder that waits for the block. -/
def patchAll (s : DispatcherState) (ptr : HostPtr) : List (BitVec 64 × HostPtr × Nat) → DispatcherState
  | [] => s
  | (_, src, i) :: ws => (s.patchChain src i ptr).patchAll ptr ws

def setThread (s : DispatcherState) (t : Nat) (frames : List LoopFrame) : DispatcherState :=
  { s with threads := s.threads.set t frames }

/-- One round of the loop up to the call of the block; an error ends the activation. -/
def enterFrame (s : DispatcherState) (t : Nat) (f : LoopFrame) (rest : List LoopFrame) :
    Option DispatcherState :=
  let f := { f with iters := f.iters + 1 }
  if f.iters > 10000000 then some (s.setThread t rest)
  else
    match s.obtain cfg f with
    | none => none
    | some none => some (s.setThread t rest)
    | some (some (s, f, ptr)) =>
      let waiting := f.unpatched.filter fun w => w.1 = f.currentRip
      let s := s.patchAll ptr waiting
      let f := { f with
        unpatched := f.unpatched.filter fun w => w.1 ≠ f.currentRip
        point := .entered ptr }
      some ({ s with lastEnteredRip := f.currentRip }.setThread t (f :: rest))

/-- The block has returned `nextRip` to the loop. -/
def returnTo (s : DispatcherState) (t : Nat) (f : LoopFrame) (rest : List LoopFrame)
    (nextRip : BitVec 64) : DispatcherState :=
  if nextRip = stopSentinel then s.setThread t rest
  else s.setThread t ({ f with currentRip := nextRip, point := .head } :: rest)

def step (s : DispatcherState) (e : LoopEvent) : Option DispatcherState :=
  match e with
  | .spawn => some { s with threads := s.threads ++ [[]] }
  | .start t rip =>
    match s.threads[t]? with
    | some [] => some (s.setThread t [LoopFrame.new rip])
    | _ => none
  | .enter t =>
    match s.threads[t]? with
    | some (f :: rest) => if f.point = .head then s.enterFrame cfg t f rest else none
    | _ => none
  | .invoke t =>
    match s.threads[t]? with
    | some (f :: rest) =>
      match f.point with
      | .entered ptr => some (s.setThread t ({ f with point := .running ptr } :: rest))
      | _ => none
    | _ => none
  | .chainExit t i =>
    match s.threads[t]? with
    | some (f :: rest) =>
      match f.point with
      | .running ptr =>
        match (s.sites ptr)[i]? with
        | some ⟨_, _, some ptr'⟩ => some (s.setThread t ({ f with point := .running ptr' } :: rest))
        | some ⟨_, target, none⟩ => some (s.returnTo t f rest target)
        | none => none
      | _ => none
    | _ => none
  | .exit t rip =>
    match s.threads[t]? with
    | some (f :: rest) =>
      match f.point with
      | .running ptr => if s.sites ptr = [] then some (s.returnTo t f rest rip) else none
      | _ => none
    | _ => none
  | .callback t rip =>
    match s.threads[t]? with
    | some (f :: rest) =>
      match f.point with
      | .running _ => some (s.setThread t (LoopFrame.new rip :: f :: rest))
      | _ => none
    | _ => none
  | .abort t =>
    match s.threads[t]? with
    | some (_ :: _) => some (s.setThread t [])
    | _ => none
  | .write byte => some { s with image := { s.image with byte := byte } }

end DispatcherState

end Quantum.Cli
