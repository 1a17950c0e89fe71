import Mathlib.Logic.Function.Basic
import Quantum.Kernel32.Handles

/-!
# Critical sections

A critical section is two atomic words, a count and the owner's thread id, and the three calls on it
touch them by single atomic operations.  Any number of threads make calls on one section.  A step is
one atomic operation of one thread, so between two operations of a call any other thread may take any
number of its own.

Threads are known by the id that `GetCurrentThreadId` returns in them.
-/

namespace Quantum.Kernel32

/-- The part of the 40 bytes of a `CRITICAL_SECTION` that the calls use. -/
structure GuestCriticalSection where
  lockCount : BitVec 32
  ownerThreadId : ThreadId
  deriving DecidableEq

/-- `InitializeCriticalSection` stores zero in both words, whatever they were. -/
def initializeCriticalSection (_ : GuestCriticalSection) : GuestCriticalSection where
  lockCount := 0
  ownerThreadId := 0

namespace CriticalSection

/-- The two ways in. -/
inductive Entry where
  | enter
  | tryEnter
  deriving DecidableEq

inductive Call where
  /-- `EnterCriticalSection` or `TryEnterCriticalSection`. -/
  | entry (e : Entry)
  /-- `LeaveCriticalSection`. -/
  | leave
  deriving DecidableEq

/-- What a call has returned. -/
inductive Returned where
  | entered
  | tryEntered (result : BitVec 32)
  | left
  deriving DecidableEq

/-- The atomic operation that a thread takes next. -/
inductive Pc where
  | outside
  /-- `owner_thread_id.load`, and the comparison with the own id. -/
  | loadOwner (e : Entry)
  /-- `lock_count.fetch_add(1)` of a re-entry. -/
  | fetchAdd (e : Entry)
  /-- `lock_count.compare_exchange(0, 1)`. -/
  | compareExchange (e : Entry)
  /-- `owner_thread_id.store(tid)`. -/
  | storeOwner (e : Entry)
  /-- `lock_count.fetch_sub(1)`, and the comparison of its result with 1. -/
  | fetchSub
  /-- `owner_thread_id.store(0)`. -/
  | clearOwner
  deriving DecidableEq

/-- The first operation of a call. -/
def Call.first : Call → Pc
  | .entry e => .loadOwner e
  | .leave => .fetchSub

/-- What a successful entry returns. -/
def Entry.succeeded : Entry → Returned
  | .enter => .entered
  | .tryEnter => .tryEntered 1

/-- The section and the threads.  `depth` is not in the code: it counts how often a thread has got in,
less how often it has got out.  The log has its newest entry first. -/
structure Threads where
  cs : GuestCriticalSection
  pc : ThreadId → Pc
  depth : ThreadId → ℕ
  log : List (ThreadId × Returned)

inductive Event where
  /-- A thread that is in no call makes one. -/
  | call (tid : ThreadId) (c : Call)
  /-- A thread takes the next atomic operation of its call. -/
  | atomic (tid : ThreadId)
  deriving DecidableEq

namespace Threads

/-- All threads are outside and the section is as it is. -/
def new (cs : GuestCriticalSection) : Threads := ⟨cs, fun _ => .outside, fun _ => 0, []⟩

variable (s : Threads) (tid : ThreadId)

def goto (pc : Pc) : Threads := { s with pc := Function.update s.pc tid pc }

def ret (r : Returned) : Threads :=
  { s with pc := Function.update s.pc tid .outside, log := (tid, r) :: s.log }

def setCount (count : BitVec 32) (depth : ℕ) : Threads :=
  { s with cs := { s.cs with lockCount := count }, depth := Function.update s.depth tid depth }

def setOwner (owner : ThreadId) : Threads :=
  { s with cs := { s.cs with ownerThreadId := owner } }

/-- One atomic operation of a thread. -/
def atomic : Option Threads :=
  match s.pc tid with
  | .outside => none
  | .loadOwner e =>
    if s.cs.ownerThreadId = tid then some (s.goto tid (.fetchAdd e))
    else some (s.goto tid (.compareExchange e))
  | .fetchAdd e =>
    some ((s.setCount tid (s.cs.lockCount + 1) (s.depth tid + 1)).ret tid e.succeeded)
  | .compareExchange e =>
    if s.cs.lockCount = 0 then some ((s.setCount tid 1 (s.depth tid + 1)).goto tid (.storeOwner e))
    else
      match e with
      -- `spin_loop`, and the loop starts over.
      | .enter => some (s.goto tid (.loadOwner .enter))
      | .tryEnter => some (s.ret tid (.tryEntered 0))
  | .storeOwner e => some ((s.setOwner tid).ret tid e.succeeded)
  | .fetchSub =>
    let s' := s.setCount tid (s.cs.lockCount - 1) (s.depth tid - 1)
    if s.cs.lockCount ≤ 1 then some (s'.goto tid .clearOwner) else some (s'.ret tid .left)
  | .clearOwner => some ((s.setOwner 0).ret tid .left)

def step (s : Threads) : Event → Option Threads
  | .call tid c => if s.pc tid = .outside then some (s.goto tid c.first) else none
  | .atomic tid => s.atomic tid

/-- What the threads are trusted with: ids are not zero, a thread leaves only as often as it has
entered, and the count does not wrap. -/
def Legal (s : Threads) : Event → Prop
  | .call tid c => tid ≠ 0 ∧ (c = .leave → 0 < s.depth tid)
  | .atomic tid => ∀ e, s.pc tid = .fetchAdd e → s.cs.lockCount.toNat + 1 < 2 ^ 32

instance (s : Threads) : (e : Event) → Decidable (s.Legal e)
  | .call tid c => inferInstanceAs (Decidable (tid ≠ 0 ∧ (c = .leave → 0 < s.depth tid)))
  | .atomic tid =>
    match h : s.pc tid with
    | .fetchAdd e =>
      decidable_of_iff (s.cs.lockCount.toNat + 1 < 2 ^ 32) (by simp [Legal, h])
    | .outside | .loadOwner _ | .compareExchange _ | .storeOwner _ | .fetchSub | .clearOwner =>
      isTrue (by simp [Legal, h])

end Threads

end CriticalSection

end Quantum.Kernel32
