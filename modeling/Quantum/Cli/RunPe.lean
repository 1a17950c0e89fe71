import Quantum.Kernel32.Process
import Quantum.Lib.Machine

/-!
# Running a program

The exit handling of `run_pe_with_dir`: the main trap with the initialisation of the side modules, the
loop that dispatches crashes and resumes, and the worker threads.

Guest code is not fixed: the events say what the guest does next on which thread, so a run of `step` is
any program in any interleaving.  `host` steps are the Rust code between the guest calls.
-/

namespace Quantum.Cli

open Quantum.Kernel32

/-- What `init_side_module` reads of a side module: the number of its TLS callbacks (none if the
directory does not parse) and its entry point. -/
structure SideInit where
  tlsCallbacks : Nat
  entryRva : BitVec 32

structure Config where
  /-- `QUANTUM_TRACE` is set. -/
  trace : Bool
  /-- `QUANTUM_SKIP_DLL_INIT` is set. -/
  skipDllInit : Bool
  sideModules : List SideInit
  /-- The number of TLS callbacks of the main image. -/
  mainCallbacks : Nat

/-- The calls that the body of a trap makes: a guest function run in a trap of its own, or one run
under the trap at hand. -/
inductive Call where
  | trapped
  | plain
  deriving DecidableEq

/-- `init_side_module`: each TLS callback and `DllMain` runs in its own trap. -/
def initSideModule (sm : SideInit) : List Call :=
  List.replicate sm.tlsCallbacks .trapped ++ if sm.entryRva ≠ 0 then [.trapped] else []

/-- The body of the main trap. -/
def mainBody (cfg : Config) : List Call :=
  (if cfg.skipDllInit then []
    else cfg.sideModules.flatMap initSideModule ++ List.replicate cfg.mainCallbacks .plain)
    ++ [.plain]

/-- Where `run_pe_with_dir` is. -/
inductive Phase where
  /-- Inside one of its own traps. -/
  | running
  /-- At the condition of the loop that handles crashes. -/
  | checking
  /-- Inside `dispatch_seh`. -/
  | dispatching (crash : CrashInfo)
  | returned (code : BitVec 32)
  /-- The process has ended without a return. -/
  | terminated (status : BitVec 32)
  deriving DecidableEq

structure Process where
  main : Thread (List Call)
  phase : Phase
  exitCode : BitVec 32
  sehAttempts : Nat
  /-- `CRASH_INFO`, shared by all threads. -/
  crashInfo : Option CrashInfo
  workers : List (Thread (List Call))
  deriving DecidableEq

def Process.start (cfg : Config) : Process where
  main := Thread.new.enterTrap (mainBody cfg)
  phase := .running
  exitCode := 0
  sehAttempts := 0
  crashInfo := none
  workers := []

inductive ThreadId where
  | main
  | worker (i : Nat)
  deriving DecidableEq

inductive Event where
  /-- The Rust code of the thread goes on. -/
  | host (t : ThreadId)
  /-- A guest function is called from a thunk (a window procedure) or from `dispatch_seh`. -/
  | enter (t : ThreadId)
  /-- The innermost `run_dispatcher_loop` returns, with `Ok` or with an error. -/
  | leave (t : ThreadId)
  /-- `CreateThread`. -/
  | spawn (t : ThreadId)
  | exitProcess (t : ThreadId) (code : BitVec 32)
  /-- SIGSEGV, SIGBUS, SIGTRAP or SIGILL in guest code. -/
  | fault (t : ThreadId) (crash : CrashInfo)
  /-- `dispatch_seh` or the recovery after it has decided whether to resume. -/
  | verdict (resume : Bool)
  deriving DecidableEq

namespace Process

variable (cfg : Config)

def thread (p : Process) : ThreadId → Option (Thread (List Call))
  | .main => some p.main
  | .worker i => p.workers[i]?

def setThread (p : Process) (id : ThreadId) (t : Thread (List Call)) : Process :=
  match id with
  | .main => { p with main := t }
  | .worker i => { p with workers := p.workers.set i t }

/-- A trap of the thread has returned `result` and left the thread as `t`.  The main thread reads the
result of its own traps; that of a side module's initialisation only clears the crash information when
tracing; a worker drops it. -/
def trapReturned (p : Process) (id : ThreadId) (result : BitVec 32) (t : Thread (List Call)) :
    Process :=
  match id with
  | .worker i => p.setThread (.worker i) t
  | .main =>
    if t.stack = [] then
      { p with main := t, exitCode := result, phase := .checking }
    else if cfg.trace ∧ result = crashCode then
      { p with main := t, crashInfo := none }
    else
      { p with main := t }

/-- The Rust code inside a trap: the next call of its body, or the return of the body. -/
def trapStep (p : Process) (id : ThreadId) (t : Thread (List Call)) : Option Process :=
  match t.stack with
  | .trap saved (.trapped :: body) :: rest =>
    some (p.setThread id ({ t with stack := .trap saved body :: rest }.enterTrap [.plain]))
  | .trap saved (.plain :: body) :: rest =>
    some (p.setThread id { t with stack := .guest :: .trap saved body :: rest })
  | .trap _ [] :: _ => t.leaveTrap.map (p.trapReturned cfg id bodyReturned)
  | _ => none

/-- The condition of the loop: `take_crash_info` decides about a crash code. -/
def check (p : Process) : Process :=
  if p.exitCode = crashCode ∧ p.sehAttempts < 16 then
    let p := { p with sehAttempts := p.sehAttempts + 1 }
    match p.crashInfo with
    | some crash => { p with crashInfo := none, phase := .dispatching crash }
    | none => { p with phase := .returned p.exitCode }
  else
    { p with phase := .returned p.exitCode }

def raised (p : Process) (id : ThreadId) : Raised (List Call) → Process
  | .caught result t => p.trapReturned cfg id result t
  | .terminated status => { p with phase := .terminated status }

/-- Has `run_pe_with_dir` ended? -/
def ended (p : Process) : Bool :=
  match p.phase with
  | .returned _ => true
  | .terminated _ => true
  | _ => false

/-- May the thread call a guest function?  From guest code, and the main thread from `dispatch_seh`. -/
def mayEnter (p : Process) (id : ThreadId) (t : Thread (List Call)) : Bool :=
  t.inGuest || match id, p.phase with
    | .main, .dispatching _ => true
    | _, _ => false

def step (p : Process) (e : Event) : Option Process :=
  if p.ended then none else
  match e with
  | .host id => do
    let t ← p.thread id
    match id, p.phase with
    | .main, .checking => some p.check
    | _, _ => p.trapStep cfg id t
  | .enter id => do
    let t ← p.thread id
    if p.mayEnter id t then some (p.setThread id { t with stack := .guest :: t.stack }) else none
  | .leave id => do
    let t ← p.thread id
    if t.inGuest then some (p.setThread id { t with stack := t.stack.tail }) else none
  | .spawn id => do
    let t ← p.thread id
    if t.inGuest then
      some { p with workers := p.workers ++ [Thread.new.enterTrap [.plain]] }
    else none
  | .exitProcess id code => do
    let t ← p.thread id
    if t.inGuest then (Kernel32.exitProcess t code).map (p.raised cfg id) else none
  | .fault id crash => do
    let t ← p.thread id
    if t.inGuest then
      (crashHandler t).map ({ p with crashInfo := some crash }.raised cfg id)
    else none
  | .verdict resume =>
    match p.phase, p.main.stack with
    | .dispatching _, [] =>
      if resume then
        some { p with main := p.main.enterTrap [.plain], phase := .running }
      else
        some { p with phase := .returned p.exitCode }
    | _, _ => none

end Process

end Quantum.Cli
