import Quantum.Kernel32.Heap
import Quantum.Runtime.Dispatcher

/-!
# The code cache

`CodeCache` and `Dispatcher` of the runtime crate.  The cache is one region of executable memory with a
bump offset; the dispatcher adds the map from guest addresses to installed code and rewrites the
placeholder branches between blocks.  The host memory is part of the state.
-/

namespace Quantum.Runtime

/-- The error of a failed host call, `Error::Host`. -/
inductive HostError where
  | host (syscall : String) (code : BitVec 32)
  deriving Repr, DecidableEq

/-- What `allocate_jit` hands out.  No object of the host is larger than an `isize` can say. -/
structure JitRegion extends Kernel32.Region where
  len_lt : len.toNat < 2 ^ 63

/-- A `&[u8]`: the same bound holds for every slice. -/
structure Slice where
  bytes : List (BitVec 8)
  length_lt : bytes.length < 2 ^ 63

def Slice.len (s : Slice) : BitVec 64 := BitVec.ofNat 64 s.bytes.length

structure CodeCache where
  region : JitRegion
  used : BitVec 64

namespace CodeCache

def new (region : JitRegion) : CodeCache := ⟨region, 0⟩

/-- Up to the next instruction. -/
def pad (used : BitVec 64) : BitVec 64 := (4 - (used &&& 3)) &&& 3

/-- `CodeCache::install`: the result, and the cache and the memory after it. -/
def install (c : CodeCache) (mem : ByteMem) (s : Slice) :
    Except HostError (BitVec 64) × CodeCache × ByteMem :=
  if c.used + s.len > c.region.len then
    (.error (.host "codecache:install (oversize)" 0), c, mem)
  else
    let dst := c.region.base + c.used
    let mem := mem.storeBytes dst s.bytes
    let used := c.used + s.len
    (.ok dst, { c with used := used + pad used }, mem)

end CodeCache

/-- The dispatcher with the host memory that its cache lies in. -/
structure Dispatcher where
  codeCache : CodeCache
  blockMap : BitVec 64 → Option (BitVec 64)
  mem : ByteMem

namespace Dispatcher

def new (region : JitRegion) (mem : ByteMem) : Dispatcher := ⟨.new region, fun _ => none, mem⟩

def lookup (d : Dispatcher) (guestRip : BitVec 64) : Option (BitVec 64) := d.blockMap guestRip

/-- `Dispatcher::install`. -/
def install (d : Dispatcher) (guestRip : BitVec 64) (hostBytes : Slice) :
    Except HostError (BitVec 64) × Dispatcher :=
  match d.codeCache.install d.mem hostBytes with
  | (.error e, codeCache, mem) => (.error e, { d with codeCache, mem })
  | (.ok ptr, codeCache, mem) =>
    (.ok ptr, ⟨codeCache, Function.update d.blockMap guestRip (some ptr), mem⟩)

/-- The word that `patch_chain` writes for a distance in words. -/
def chainWord (words : BitVec 64) : BitVec 32 :=
  0x14000000#32 ||| (words.setWidth 32 &&& 0x03FFFFFF#32)

/-- `Dispatcher::patch_chain`.  The difference of the addresses is one of two `isize`s; `none` is the
panic of a build that checks it for overflow. -/
def patchChain (overflowChecks : Bool) (d : Dispatcher) (patchSite targetHostAddr : BitVec 64) :
    Option (Bool × Dispatcher) :=
  if overflowChecks && targetHostAddr.ssubOverflow patchSite then none
  else
    let delta := targetHostAddr - patchSite
    if delta &&& 0x3 ≠ 0 then some (false, d)
    else
      let words := delta.sshiftRight 2
      if -(1 <<< 25) ≤ words.toInt ∧ words.toInt ≤ (1 <<< 25) - 1 then
        some (true, { d with mem := d.mem.write 4 patchSite (chainWord words) })
      else some (false, d)

end Dispatcher

end Quantum.Runtime
