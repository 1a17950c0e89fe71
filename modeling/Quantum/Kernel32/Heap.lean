import Quantum.Lib.ByteMem

/-!
# The process heap

One arena, carved up by a bump allocator that never takes anything back.  A request is rounded up to a
multiple of 16 before it is compared with what is left.

The sum of the rounding may overflow.  A build with overflow checks panics there, and a panic in a
thunk ends the process; a build without them wraps around.
-/

namespace Quantum.Kernel32

def DEFAULT_HEAP_BYTES : BitVec 64 := 64 * 1024 * 1024

def DEFAULT_HEAP_HANDLE : BitVec 64 := 0xDEADBEEF

def HEAP_ZERO_MEMORY : BitVec 32 := 0x8

/-- A range of host memory, as the memory manager hands it out: not at the null pointer, at the start of
a page, and short of the end of the address space. -/
structure Region where
  base : BitVec 64
  len : BitVec 64
  base_ne_zero : base ≠ 0
  pageAligned : 4096 ∣ base.toNat
  in_space : base.toNat + len.toNat < 2 ^ 64

structure Heap where
  region : Region
  next : BitVec 64

/-- `usize::checked_add`. -/
def checkedAdd (x y : BitVec 64) : Option (BitVec 64) :=
  if x.toNat + y.toNat < 2 ^ 64 then some (x + y) else none

/-- `write_bytes` of `n` zeros. -/
def zeroBytes (mem : ByteMem) (p n : BitVec 64) : ByteMem :=
  fun a => if InRange p n.toNat a then 0 else mem a

/-- `copy_nonoverlapping` of `n` bytes. -/
def copyBytes (mem : ByteMem) (src dst n : BitVec 64) : ByteMem :=
  fun a => if InRange dst n.toNat a then mem (src + (a - dst)) else mem a

namespace Heap

def new (region : Region) : Heap := ⟨region, 0⟩

/-- A request rounded up to 16 bytes. -/
def aligned (size : BitVec 64) : BitVec 64 := (size + 15) &&& ~~~15

/-- Is there room for a request? -/
def fits (h : Heap) (size : BitVec 64) : Bool :=
  match checkedAdd h.next (aligned size) with
  | none => false
  | some stop => !decide (h.region.len < stop)

/-- `Heap::alloc`: the heap, the memory and the pointer after it; `none` is a panic. -/
def alloc (overflowChecks : Bool) (h : Heap) (mem : ByteMem) (size : BitVec 64) (zero : Bool) :
    Option (Heap × ByteMem × BitVec 64) :=
  if overflowChecks && decide (2 ^ 64 ≤ size.toNat + 15) then none
  else if h.fits size then
    let ptr := h.region.base + h.next
    let mem := if zero then zeroBytes mem ptr (aligned size) else mem
    some ({ h with next := h.next + aligned size }, mem, ptr)
  else some (h, mem, 0)

end Heap

/-- The heap, the memory, and the blocks that have been handed out, the newest first. -/
structure HeapState where
  heap : Heap
  mem : ByteMem
  blocks : List (BitVec 64 × BitVec 64)

/-- A call on the heap. -/
inductive HeapCall where
  | heapAlloc (handle : BitVec 64) (flags : BitVec 32) (size : BitVec 64)
  | heapReAlloc (handle : BitVec 64) (flags : BitVec 32) (ptr size : BitVec 64)
  | heapFree (handle : BitVec 64) (flags : BitVec 32) (ptr : BitVec 64)

namespace HeapState

def new (region : Region) (mem : ByteMem) : HeapState := ⟨.new region, mem, []⟩

/-- Note a pointer that is handed out, if it is one. -/
def record (blocks : List (BitVec 64 × BitVec 64)) (ptr size : BitVec 64) :
    List (BitVec 64 × BitVec 64) :=
  if ptr = 0 then blocks else (ptr, size) :: blocks

variable (overflowChecks : Bool) (s : HeapState)

/-- `HeapAlloc`. -/
def heapAlloc (handle : BitVec 64) (flags : BitVec 32) (size : BitVec 64) :
    Option (HeapState × BitVec 64) :=
  if handle ≠ DEFAULT_HEAP_HANDLE then some (s, 0)
  else
    match s.heap.alloc overflowChecks s.mem size (flags &&& HEAP_ZERO_MEMORY != 0) with
    | none => none
    | some (heap, mem, ptr) => some (⟨heap, mem, record s.blocks ptr size⟩, ptr)

/-- `HeapReAlloc`: a new block, and the bytes at the old pointer copied to it. -/
def heapReAlloc (handle : BitVec 64) (flags : BitVec 32) (ptr size : BitVec 64) :
    Option (HeapState × BitVec 64) :=
  if handle ≠ DEFAULT_HEAP_HANDLE then some (s, 0)
  else
    match s.heap.alloc overflowChecks s.mem size (flags &&& HEAP_ZERO_MEMORY != 0) with
    | none => none
    | some (heap, mem, newPtr) =>
      let mem := if ptr ≠ 0 ∧ newPtr ≠ 0 then copyBytes mem ptr newPtr size else mem
      some (⟨heap, mem, record s.blocks newPtr size⟩, newPtr)

/-- `HeapFree` of a bump allocator does nothing; its result is a `BOOL`. -/
def heapFree (handle : BitVec 64) (_flags : BitVec 32) (_ptr : BitVec 64) : HeapState × BitVec 32 :=
  if handle ≠ DEFAULT_HEAP_HANDLE then (s, 0) else (s, 1)

def step (s : HeapState) : HeapCall → Option HeapState
  | .heapAlloc handle flags size => (s.heapAlloc overflowChecks handle flags size).map Prod.fst
  | .heapReAlloc handle flags ptr size =>
    (s.heapReAlloc overflowChecks handle flags ptr size).map Prod.fst
  | .heapFree handle flags ptr => some (s.heapFree handle flags ptr).1

end HeapState

end Quantum.Kernel32
