import Quantum.Kernel32.Handles

/-!
# Threads on one object

Any number of threads make calls on one kernel object.  A step is one locked section of one thread:
the first section of a wait, the section after a wake-up, a timeout, `SetEvent`, `ResetEvent`, either
half of `PulseEvent`, `ReleaseMutex` or `ReleaseSemaphore`.  A wake-up may be spurious, so a thread
that waits may be woken at any time; a wait that is not infinite may time out at any time.

The log records what the calls have returned.
-/

namespace Quantum.Kernel32

/-- Where a thread is between two locked sections. -/
inductive Status where
  | idle
  /-- On the condition variable, in a wait with the given timeout. -/
  | waiting (timeout : BitVec 32)
  /-- Between the two halves of `PulseEvent`. -/
  | pulsing
  deriving DecidableEq

inductive Act where
  | wait (timeout : BitVec 32)
  | wake
  | timedOut
  | setEvent
  | resetEvent
  | pulseEvent
  | endPulse
  | releaseMutex
  | releaseSemaphore (releaseCount : BitVec 32)
  deriving DecidableEq

/-- What a section has done. -/
inductive Outcome where
  | waited (code : BitVec 32)
  | eventSet
  | eventReset
  | mutexReleased (ok : Bool)
  | semaphoreReleased (releaseCount : BitVec 32) (ok : Bool)
  deriving DecidableEq

/-- The object, the threads and the log, with its newest entry first. -/
structure Shared where
  object : KernelObject
  status : ThreadId → Status
  log : List (ThreadId × Outcome)

namespace Shared

def new (object : KernelObject) : Shared := ⟨object, fun _ => .idle, []⟩

variable (s : Shared) (tid : ThreadId)

/-- Leave a section with an outcome. -/
def finish (status : Status) (object : KernelObject) (outcome : Outcome) : Shared :=
  ⟨object, Function.update s.status tid status, (tid, outcome) :: s.log⟩

/-- A section of a wait. -/
def attempt (overflowChecks : Bool) (timeout : BitVec 32) : Option Shared :=
  if overflowChecks && s.object.acquireOverflows tid then none
  else
    match s.object.acquire tid with
    | some object => some (s.finish tid .idle object (.waited WAIT_OBJECT_0))
    | none =>
      if !s.object.isWaitable || timeout == 0 then
        some (s.finish tid .idle s.object (.waited WAIT_TIMEOUT))
      else some { s with status := Function.update s.status tid (.waiting timeout) }

/-- A section that sets or resets an event; on another object the call fails at once. -/
def signal (status : Status) (outcome : Outcome) : Option KernelObject → Shared
  | some object => s.finish tid status object outcome
  | none => s

/-- One locked section of a thread; `none` when the thread is not there, or when the process ends on an
overflow. -/
def step (overflowChecks : Bool) (s : Shared) (e : ThreadId × Act) : Option Shared :=
  let tid := e.1
  match e.2, s.status tid with
  | .wait timeout, .idle => s.attempt tid overflowChecks timeout
  | .wake, .waiting timeout => s.attempt tid overflowChecks timeout
  | .timedOut, .waiting timeout =>
    if timeout = INFINITE then none
    else some (s.finish tid .idle s.object (.waited WAIT_TIMEOUT))
  | .setEvent, .idle => some (s.signal tid .idle .eventSet s.object.setEvent)
  | .resetEvent, .idle => some (s.signal tid .idle .eventReset s.object.resetEvent)
  | .pulseEvent, .idle => some (s.signal tid .pulsing .eventSet s.object.setEvent)
  | .endPulse, .pulsing => some (s.signal tid .idle .eventReset s.object.resetEvent)
  | .releaseMutex, .idle =>
    if overflowChecks && s.object.releaseUnderflows tid then none
    else
      match s.object.releaseMutex tid with
      | some object => some (s.finish tid .idle object (.mutexReleased true))
      | none => some (s.finish tid .idle s.object (.mutexReleased false))
  | .releaseSemaphore n, .idle =>
    if overflowChecks && s.object.releaseOverflows n then none
    else
      match s.object.releaseSemaphore n with
      | some (object, _) => some (s.finish tid .idle object (.semaphoreReleased n true))
      | none => some (s.finish tid .idle s.object (.semaphoreReleased n false))
  | _, _ => none

end Shared

end Quantum.Kernel32
