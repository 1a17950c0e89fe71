import Quantum.Kernel32.Handles

/-!
# Synchronisation calls

The thunks of the kernel32 crate's `threads.rs` on top of the handle table: events, mutexes,
semaphores, waits, `CloseHandle` and `DuplicateHandle`.

The table maps a handle to the number of an object (the `Arc`), and the objects have their contents
beside it.  A call that panics is an `error`.

A wait may be interrupted by other threads.  It runs against a list of turns: `run others` lets the
other threads change the objects before the calling thread takes the lock, and `timedOut` ends a wait
that is blocked.  The list covers the call up to its return; with fewer turns the call is still
waiting, and one that panics does not return either (`none`).
-/

namespace Quantum.Kernel32

/-- The number of an object. -/
abbrev ObjId := Nat

abbrev Objects := ObjId → KernelObject

structure Kernel where
  table : HandleTable ObjId
  objects : Objects
  /-- The number of the next object. -/
  next : ObjId

namespace Kernel

def new : Kernel := ⟨HandleTable.new, fun _ => .currentProcess, 0⟩

variable (k : Kernel) (overflowChecks : Bool)

/-- `handles::insert`. -/
def insert (obj : KernelObject) : Kernel × Handle :=
  let (table, handle) := k.table.insert k.next
  (⟨table, Function.update k.objects k.next obj, k.next + 1⟩, handle)

/-- `handles::get`, with the object's number and contents. -/
def get (handle : Handle) : Except Unit (Option (ObjId × KernelObject)) :=
  (k.table.get overflowChecks handle).map fun o => o.map fun id => (id, k.objects id)

/-- Run a locked section on the object of a handle; the result is the `BOOL` of the call. -/
def withObject (handle : Handle) (section_ : KernelObject → Option KernelObject) :
    Except Unit (Kernel × Bool) :=
  match k.get overflowChecks handle with
  | .error x => .error x
  | .ok none => .ok (k, false)
  | .ok (some (id, obj)) =>
    match section_ obj with
    | some obj' => .ok ({ k with objects := Function.update k.objects id obj' }, true)
    | none => .ok (k, false)

/-! ### Events, mutexes and semaphores -/

def createEvent (manualReset initialState : BitVec 32) : Kernel × Handle :=
  k.insert (.event (manualReset != 0) (initialState != 0))

def setEvent (handle : Handle) : Except Unit (Kernel × Bool) :=
  k.withObject overflowChecks handle KernelObject.setEvent

def resetEvent (handle : Handle) : Except Unit (Kernel × Bool) :=
  k.withObject overflowChecks handle KernelObject.resetEvent

/-- `PulseEvent` sets and resets in two sections; `others` is what happens between them. -/
def pulseEvent (handle : Handle) (others : Kernel → Kernel) : Except Unit (Kernel × Bool) :=
  match k.setEvent overflowChecks handle with
  | .error x => .error x
  | .ok (k', false) => .ok (k', false)
  | .ok (k', true) => ((others k').resetEvent overflowChecks handle).map fun r => (r.1, true)

def createMutex (tid : ThreadId) (initialOwner : BitVec 32) : Kernel × Handle :=
  k.insert (if initialOwner != 0 then .mutex (some tid) 1 else .mutex none 0)

def releaseMutex (tid : ThreadId) (handle : Handle) : Except Unit (Kernel × Bool) :=
  k.withObject overflowChecks handle (KernelObject.releaseMutex tid)

def createSemaphore (initialCount maxCount : BitVec 32) : Kernel × Handle :=
  k.insert (.semaphore initialCount maxCount)

/-- `ReleaseSemaphore`; a sum that overflows is a panic when overflow is checked. -/
def releaseSemaphore (handle : Handle) (releaseCount : BitVec 32) :
    Except Unit (Kernel × Option (BitVec 32)) :=
  match k.get overflowChecks handle with
  | .error x => .error x
  | .ok none => .ok (k, none)
  | .ok (some (id, obj)) =>
    if overflowChecks && obj.releaseOverflows releaseCount then .error ()
    else
      match obj.releaseSemaphore releaseCount with
      | some (obj', prev) =>
        .ok ({ k with objects := Function.update k.objects id obj' }, some prev)
      | none => .ok (k, none)

/-! ### Handles -/

def closeHandle (handle : Handle) : Except Unit (Kernel × Bool) :=
  match k.table.remove overflowChecks handle with
  | .error x => .error x
  | .ok none => .ok (k, false)
  | .ok (some (table, _)) => .ok ({ k with table := table }, true)

end Kernel

/-- `DuplicateHandle`: what it writes to the output pointer, if that is not null. -/
def duplicateHandle (srcHandle : Handle) (dstHandleOut : Option (BitVec 64)) : Option Handle :=
  dstHandleOut.map fun _ => srcHandle

/-! ### Waits -/

/-- What happens before the calling thread goes on. -/
inductive Turn where
  | run (others : Objects → Objects)
  | timedOut

/-- A locked section of a wait on an object: all objects before and after it.  For a thread it is the
load of the flag. -/
structure LockedSection where
  id : ObjId
  before : Objects
  after : Objects

/-- The end of a wait. -/
structure Waited where
  code : BitVec 32
  objects : Objects
  /-- The turns that are left. -/
  turns : List Turn
  /-- What the call has done, in order. -/
  sections : List LockedSection

/-- A wait that goes on after some sections. -/
def Waited.after (sections : List LockedSection) (r : Waited) : Waited :=
  { r with sections := sections ++ r.sections }

/-- `wait_single`. -/
def waitSingle (overflowChecks : Bool) (tid : ThreadId) (timeout : BitVec 32) (id : ObjId) :
    Objects → List Turn → Option Waited
  | objects, .run others :: turns =>
    let objects := others objects
    if overflowChecks && (objects id).acquireOverflows tid then none
    else
      match (objects id).acquire tid with
      | some obj =>
        let objects' := Function.update objects id obj
        some ⟨WAIT_OBJECT_0, objects', turns, [⟨id, objects, objects'⟩]⟩
      | none =>
        let looked := [⟨id, objects, objects⟩]
        if !(objects id).isWaitable || timeout == 0 then some ⟨WAIT_TIMEOUT, objects, turns, looked⟩
        else
          match turns with
          | .timedOut :: turns =>
            if timeout = INFINITE then none else some ⟨WAIT_TIMEOUT, objects, turns, looked⟩
          | _ => (waitSingle overflowChecks tid timeout id objects turns).map (Waited.after looked)
  | _, _ => none

/-- `WaitForSingleObject`. -/
def waitForSingleObject (table : HandleTable ObjId) (overflowChecks : Bool) (tid : ThreadId)
    (timeout : BitVec 32) (handle : Handle) (objects : Objects) (turns : List Turn) :
    Option Waited :=
  match table.get overflowChecks handle with
  | .error _ => none
  | .ok none => some ⟨WAIT_FAILED, objects, turns, []⟩
  | .ok (some id) => waitSingle overflowChecks tid timeout id objects turns

/-- The loop of a wait for all objects. -/
def waitAll (table : HandleTable ObjId) (overflowChecks : Bool) (tid : ThreadId)
    (timeout : BitVec 32) : List Handle → Objects → List Turn → Option Waited
  | [], objects, turns => some ⟨WAIT_OBJECT_0, objects, turns, []⟩
  | h :: hs, objects, turns => do
    let r ← waitForSingleObject table overflowChecks tid timeout h objects turns
    if r.code ≠ WAIT_OBJECT_0 then some r
    else
      let rest ← waitAll table overflowChecks tid timeout hs r.objects r.turns
      some (rest.after r.sections)

/-- One round of a wait for any object, from index `i` on.  It returns, or nothing was taken and the call
goes on from the objects, turns and sections. -/
def pollOnce (table : HandleTable ObjId) (overflowChecks : Bool) (tid : ThreadId) :
    List Handle → Nat → Objects → List Turn →
      Option (Waited ⊕ (Objects × List Turn × List LockedSection))
  | [], _, objects, turns => some (.inr (objects, turns, []))
  | h :: hs, i, objects, turns => do
    let r ← waitForSingleObject table overflowChecks tid 0 h objects turns
    if r.code = WAIT_OBJECT_0 then some (.inl { r with code := WAIT_OBJECT_0 + BitVec.ofNat 32 i })
    else
      match ← pollOnce table overflowChecks tid hs (i + 1) r.objects r.turns with
      | .inl rest => some (.inl (rest.after r.sections))
      | .inr (objects, turns, sections) => some (.inr (objects, turns, r.sections ++ sections))

/-- The loop of a wait for any object, for a number of rounds; the thread sleeps between them. -/
def waitAny (table : HandleTable ObjId) (overflowChecks : Bool) (tid : ThreadId)
    (timeout : BitVec 32) (handles : List Handle) : Nat → Objects → List Turn → Option Waited
  | 0, _, _ => none
  | rounds + 1, objects, turns => do
    match ← pollOnce table overflowChecks tid handles 0 objects turns with
    | .inl r => some r
    | .inr (objects, .timedOut :: turns, sections) =>
      if timeout = INFINITE then none else some ⟨WAIT_TIMEOUT, objects, turns, sections⟩
    | .inr (objects, .run others :: turns, sections) =>
      (waitAny table overflowChecks tid timeout handles rounds (others objects) turns).map
        (Waited.after sections)
    | .inr (_, [], _) => none

/-- `WaitForMultipleObjects` on an array of handles; `none` stands for a null pointer. -/
def waitForMultipleObjects (table : HandleTable ObjId) (overflowChecks : Bool) (tid : ThreadId)
    (handles : Option (List Handle)) (waitForAll : BitVec 32) (timeout : BitVec 32) (rounds : Nat)
    (objects : Objects) (turns : List Turn) : Option Waited :=
  match handles with
  | none => some ⟨WAIT_FAILED, objects, turns, []⟩
  | some [] => some ⟨WAIT_FAILED, objects, turns, []⟩
  | some hs =>
    if waitForAll ≠ 0 then waitAll table overflowChecks tid timeout hs objects turns
    else waitAny table overflowChecks tid timeout hs rounds objects turns

end Quantum.Kernel32
