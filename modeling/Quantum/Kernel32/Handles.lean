import Mathlib.Data.BitVec

/-!
# Kernel handles and objects

The handle table of the kernel32 crate's `handles.rs`, and the locked sections of its kernel objects.

A handle holds the index of a slot, offset by 0x1000, in its low half and the slot's generation in its
high half.  A slot holds its generation only while it is in use.

Every wait on an object is a loop around one locked section, `acquire`: it takes the object if it is
signalled for the thread, and leaves it alone otherwise.
-/

namespace Quantum.Kernel32

/-! ### The table -/

structure HandleTable (O : Type) where
  slots : List (Option (BitVec 32 × O))

abbrev Handle := BitVec 64

def pack (index : Nat) (generation : BitVec 32) : Handle :=
  (generation.setWidth 64 <<< 32) ||| BitVec.ofNat 64 (index + 0x1000)

/-- The index of a handle and its generation; `none` for a handle below 0x1000.  A handle whose low
half is below 0x1000 makes the subtraction overflow: a panic (`error`) when overflow is checked, and
an index that wraps around otherwise. -/
def unpack (overflowChecks : Bool) (handle : Handle) : Except Unit (Option (Nat × BitVec 32)) :=
  if handle < 0x1000#64 then .ok none
  else
    let low := handle &&& 0xFFFFFFFF#64
    if overflowChecks && decide (low < 0x1000#64) then .error ()
    else .ok (some ((low - 0x1000#64).toNat, (handle >>> 32).setWidth 32))

namespace HandleTable

variable {O : Type} (t : HandleTable O)

def new : HandleTable O := ⟨[]⟩

/-- Put an object in the first free slot, or in a new one; the result is its handle. -/
def insert (obj : O) : HandleTable O × Handle :=
  match t.slots.findIdx? Option.isNone with
  | some idx =>
    -- The source takes the generation from the slot, which is free.
    let newGen := ((t.slots[idx]?).join.map fun s => s.1 + 1).getD 1
    (⟨t.slots.set idx (some (newGen, obj))⟩, pack idx newGen)
  | none => (⟨t.slots ++ [some (1, obj)]⟩, pack t.slots.length 1)

/-- The object of a slot with the given generation. -/
def lookup (idx : Nat) (generation : BitVec 32) : Option O :=
  ((t.slots[idx]?).join.filter fun s => s.1 == generation).map (·.2)

def get (overflowChecks : Bool) (handle : Handle) : Except Unit (Option O) :=
  match unpack overflowChecks handle with
  | .error x => .error x
  | .ok none => .ok none
  | .ok (some (idx, generation)) => .ok (t.lookup idx generation)

/-- Free the slot of a handle: the new table and the object that was there, whose file descriptor, if
it has one, the source closes. -/
def remove (overflowChecks : Bool) (handle : Handle) : Except Unit (Option (HandleTable O × O)) :=
  match unpack overflowChecks handle with
  | .error x => .error x
  | .ok none => .ok none
  | .ok (some (idx, generation)) =>
    .ok ((t.lookup idx generation).map fun obj => (⟨t.slots.set idx none⟩, obj))

end HandleTable

/-! ### Kernel objects -/

abbrev ThreadId := BitVec 32

/-- `KernelObject`, with the contents of its locks. -/
inductive KernelObject where
  | event (manualReset signaled : Bool)
  | mutex (ownerThread : Option ThreadId) (recursion : BitVec 32)
  | semaphore (count max : BitVec 32)
  | file (fd : BitVec 32)
  | thread (finished : Bool)
  | currentProcess
  | currentThread
  | stdStream (n : BitVec 32)
  deriving DecidableEq

def WAIT_OBJECT_0 : BitVec 32 := 0
def WAIT_TIMEOUT : BitVec 32 := 0x102
def WAIT_FAILED : BitVec 32 := 0xFFFFFFFF
def INFINITE : BitVec 32 := 0xFFFFFFFF

namespace KernelObject

/-- The section of `wait_single` that takes the object: the object afterwards, or `none` when the
thread has to wait.  Counters wrap around; with overflow checks the process ends instead. -/
def acquire (tid : ThreadId) : KernelObject → Option KernelObject
  | .event manualReset true => some (.event manualReset manualReset)
  | .event _ false => none
  | .mutex none _ => some (.mutex (some tid) 1)
  | .mutex (some t) recursion => if t = tid then some (.mutex (some t) (recursion + 1)) else none
  | .semaphore count max => if 0 < count.toInt then some (.semaphore (count - 1) max) else none
  | .thread true => some (.thread true)
  | .thread false => none
  | _ => none

/-- Does the counter in a section that takes the object overflow? -/
def acquireOverflows (tid : ThreadId) : KernelObject → Bool
  | .mutex owner recursion => decide (owner = some tid) && recursion == 0xFFFFFFFF#32
  | _ => false

/-- Does a wait on the object loop until it is taken?  The others time out at once. -/
def isWaitable : KernelObject → Bool
  | .event .. | .mutex .. | .semaphore .. | .thread _ => true
  | _ => false

section

variable (tid t : ThreadId) (manualReset signaled finished : Bool) (recursion count max : BitVec 32)

@[simp]
theorem acquire_event : (event manualReset signaled).acquire tid =
    if signaled then some (.event manualReset manualReset) else none := by
  cases signaled <;> rfl

@[simp]
theorem acquire_mutex_none : (mutex none recursion).acquire tid = some (.mutex (some tid) 1) :=
  rfl

@[simp]
theorem acquire_mutex_some : (mutex (some t) recursion).acquire tid =
    if t = tid then some (.mutex (some t) (recursion + 1)) else none :=
  rfl

@[simp]
theorem acquire_semaphore : (semaphore count max).acquire tid =
    if 0 < count.toInt then some (.semaphore (count - 1) max) else none :=
  rfl

@[simp]
theorem acquire_thread : (thread finished).acquire tid =
    if finished then some (.thread true) else none := by
  cases finished <;> rfl

/-- The other objects are never taken. -/
theorem acquire_of_not_isWaitable {obj : KernelObject} (h : obj.isWaitable = false) :
    obj.acquire tid = none := by
  cases obj <;> first | rfl | cases h

end

/-- `SetEvent`. -/
def setEvent : KernelObject → Option KernelObject
  | .event manualReset _ => some (.event manualReset true)
  | _ => none

/-- `ResetEvent`. -/
def resetEvent : KernelObject → Option KernelObject
  | .event manualReset _ => some (.event manualReset false)
  | _ => none

/-- `ReleaseMutex`; `none` when the caller does not own the mutex. -/
def releaseMutex (tid : ThreadId) : KernelObject → Option KernelObject
  | .mutex owner recursion =>
    if owner = some tid then
      some (.mutex (if recursion - 1 = 0 then none else owner) (recursion - 1))
    else none
  | _ => none

/-- Does the counter in `ReleaseMutex` underflow? -/
def releaseUnderflows (tid : ThreadId) : KernelObject → Bool
  | .mutex owner recursion => decide (owner = some tid) && recursion == 0#32
  | _ => false

/-- `ReleaseSemaphore`: the object afterwards and the previous count; `none` when the call fails. -/
def releaseSemaphore (releaseCount : BitVec 32) : KernelObject → Option (KernelObject × BitVec 32)
  | .semaphore count max =>
    if max.toInt < (count + releaseCount).toInt then none
    else some (.semaphore (count + releaseCount) max, count)
  | _ => none

/-- Does the sum in `ReleaseSemaphore` overflow? -/
def releaseOverflows (releaseCount : BitVec 32) : KernelObject → Bool
  | .semaphore count _ => count.saddOverflow releaseCount
  | _ => false

end KernelObject

end Quantum.Kernel32
