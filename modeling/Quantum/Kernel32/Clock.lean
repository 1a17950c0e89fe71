import Quantum.Kernel32.Handles

/-!
# Clocks

`QueryPerformanceCounter` and `GetTickCount64`, called by any number of threads.  Both report the time since
`QPC_ANCHOR`, which is thread-local: the first call on a thread reads the clock once more, for the anchor.

An `Instant` is opaque to the code but for the difference of two, so it is the step at which the clock was
read here, and the clock comes in with the difference.
-/

namespace Quantum.Kernel32.Time

/-- The host's clock: its nanoseconds at each step. -/
abbrev HostClock := ℕ → ℕ

inductive Counter where
  | queryPerformance
  | tickCount64
  deriving DecidableEq

/-- `Instant::elapsed`, in nanoseconds; time never goes back, so the difference saturates at zero. -/
def elapsed (clock : HostClock) (since now : ℕ) : ℕ :=
  clock now - clock since

/-- What a counter makes of the nanoseconds: `as_nanos() as i64`, and `as_millis() as u64`. -/
def Counter.report : Counter → ℕ → BitVec 64
  | .queryPerformance, nanos => BitVec.ofNat 64 nanos
  | .tickCount64, nanos => BitVec.ofNat 64 (nanos / 1000000)

/-- The reports of a counter in the order of their type. -/
def Counter.le : Counter → BitVec 64 → BitVec 64 → Prop
  | .queryPerformance, x, y => x.sle y
  | .tickCount64, x, y => x ≤ y

/-- A call that has begun; `read` is the instant of `elapsed`. -/
structure Pending where
  counter : Counter
  begun : ℕ
  read : Option ℕ

/-- A call that has returned. -/
structure Entry where
  counter : Counter
  begun : ℕ
  completed : ℕ
  since : ℕ
  read : ℕ

/-- The value that the call has reported. -/
def Entry.value (clock : HostClock) (e : Entry) : BitVec 64 :=
  e.counter.report (elapsed clock e.since e.read)

/-- The number of steps so far, the anchor and the call of each thread, and the calls that have returned. -/
structure ClockState where
  now : ℕ
  anchors : ThreadId → Option ℕ
  pending : ThreadId → Option Pending
  log : List Entry

inductive Event where
  /-- A thread calls one of the functions. -/
  | call (counter : Counter)
  /-- The thread-local is initialised, on its first use. -/
  | anchor
  | read
  | ret

namespace ClockState

def new : ClockState := ⟨0, fun _ => none, fun _ => none, []⟩

/-- The next step of one thread; `none` where the thread does something else. -/
def step (s : ClockState) : ThreadId × Event → Option ClockState
  | (tid, .call counter) =>
    match s.pending tid with
    | none =>
      some { s with
        now := s.now + 1
        pending := Function.update s.pending tid (some ⟨counter, s.now, none⟩) }
    | some _ => none
  | (tid, .anchor) =>
    match s.pending tid, s.anchors tid with
    | some ⟨_, _, none⟩, none =>
      some { s with
        now := s.now + 1
        anchors := Function.update s.anchors tid (some s.now) }
    | _, _ => none
  | (tid, .read) =>
    match s.pending tid, s.anchors tid with
    | some ⟨counter, begun, none⟩, some _ =>
      some { s with
        now := s.now + 1
        pending := Function.update s.pending tid (some ⟨counter, begun, some s.now⟩) }
    | _, _ => none
  | (tid, .ret) =>
    match s.pending tid, s.anchors tid with
    | some ⟨counter, begun, some read⟩, some since =>
      some { s with
        now := s.now + 1
        pending := Function.update s.pending tid none
        log := ⟨counter, begun, s.now, since, read⟩ :: s.log }
    | _, _ => none

end ClockState

end Quantum.Kernel32.Time
