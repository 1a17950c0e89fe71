import Quantum.Cli.Invoke
import Quantum.Cli.RunPe
import Quantum.Runtime.GuestStack

/-!
# Entering guest code

Every place of `process.rs` at which the host enters guest code, with the RSP that the guest code starts
with: the initialisation of the side modules, the TLS callbacks and the program entry of `run_pe_with_dir`,
the handlers that `dispatch_seh` invokes, window procedures (`CliCallbackInvoker`) and threads
(`CliThreadSpawner`).

Guest code is not fixed.  It may write to all of memory and leave any RSP in the context, and may call thunks
that enter guest code again, to any depth.
-/

namespace Quantum.Cli

open Quantum.A64 Quantum.Runtime

inductive EntryKind where
  /-- A TLS callback of a side module. -/
  | sideCallback
  | dllMain
  /-- A TLS callback of the main image. -/
  | tlsCallback
  | program
  /-- Not a function: the program goes on after an exception. -/
  | resumed
  | handler
  | windowProc
  | thread
  deriving DecidableEq

/-- The first instruction of a guest function: the stack that it runs on, RSP and memory. -/
structure GuestEntry where
  kind : EntryKind
  stack : GuestStack
  rsp : BitVec 64
  mem : ByteMem

/-- The host runs the loop with the context as it is. -/
def directEntry (kind : EntryKind) (stack : GuestStack) (rsp : BitVec 64) (mem : ByteMem) : GuestEntry :=
  ⟨kind, stack, rsp, mem⟩

/-- The host calls `invoke_guest_function`. -/
def invokeEntry (kind : EntryKind) (stack : GuestStack) (rsp : BitVec 64) (mem : ByteMem) : GuestEntry :=
  ⟨kind, stack, calleeRsp rsp, mem.write 8 (calleeRsp rsp) stopSentinel⟩

/-- Where the host code of the main thread is. -/
inductive HostPhase where
  /-- Before the next side module. -/
  | modules (ms : List SideInit)
  /-- In `init_side_module`, with the calls that are left. -/
  | side (calls : List EntryKind) (ms : List SideInit)
  /-- `n` TLS callbacks of the main image are left before the program. -/
  | callbacks (n : Nat)
  /-- The program has been entered, or its trap left before that. -/
  | entered
  /-- The program has returned. -/
  | finished
  /-- In `dispatch_seh`. -/
  | dispatching

structure HostState where
  mem : ByteMem
  /-- The stack and the RSP of the main context. -/
  stack : GuestStack
  rsp : BitVec 64
  /-- `saved_rsp` of `init_side_module`. -/
  savedRsp : BitVec 64
  phase : HostPhase
  /-- The guest functions that run on each thread, innermost first. -/
  main : List EntryKind
  workers : List (List EntryKind)
  /-- The guest function that the last step has entered. -/
  entry : Option GuestEntry

inductive EntryEvent where
  /-- The host code of the main thread goes on. -/
  | host
  /-- `dispatch_seh` starts with the registers of a crash on `stack`. -/
  | crash (stack : GuestStack) (rsp : BitVec 64)
  /-- `dispatch_seh` invokes the next handler. -/
  | handler
  /-- A handler has resumed the program. -/
  | resume (rsp : BitVec 64)
  /-- A thunk sends a message to a window. -/
  | windowProc (t : ThreadId) (stack : GuestStack)
  /-- `CreateThread`. -/
  | spawn (t : ThreadId) (stack : GuestStack)
  /-- Guest code changes memory. -/
  | write (t : ThreadId) (mem : ByteMem)
  /-- The innermost guest function of the thread ends, with `rsp` in its context. -/
  | leave (t : ThreadId) (rsp : BitVec 64)
  /-- The thread returns to its innermost trap. -/
  | abort (t : ThreadId) (rsp : BitVec 64)

/-- The guest functions that `init_side_module` calls. -/
def sideCalls (sm : SideInit) : List EntryKind :=
  List.replicate sm.tlsCallbacks .sideCallback ++ if sm.entryRva ≠ 0 then [.dllMain] else []

namespace HostState

variable (cfg : Config)

/-- `run_pe_with_dir` up to its main trap: the context gets the RSP of a fresh stack. -/
def start (stack : GuestStack) (mem : ByteMem) : HostState where
  mem := stack.writeSentinel mem
  stack := stack
  rsp := stack.entryRsp
  savedRsp := 0
  phase := if cfg.skipDllInit then .callbacks 0 else .modules cfg.sideModules
  main := []
  workers := []
  entry := none

def frames (s : HostState) : ThreadId → Option (List EntryKind)
  | .main => some s.main
  | .worker i => s.workers[i]?

def setFrames (s : HostState) (t : ThreadId) (fs : List EntryKind) : HostState :=
  match t with
  | .main => { s with main := fs }
  | .worker i => { s with workers := s.workers.set i fs }

/-- Is guest code running on the thread? -/
def inGuest (s : HostState) (t : ThreadId) : Bool :=
  match s.frames t with
  | some (_ :: _) => true
  | _ => false

/-- The main thread enters a guest function. -/
def enterMain (s : HostState) (e : GuestEntry) (phase : HostPhase) : HostState :=
  { s with mem := e.mem, rsp := e.rsp, phase := phase, main := [e.kind], entry := some e }

/-- The host code of the main thread, between two guest functions. -/
def hostStep (s : HostState) : Option HostState :=
  match s.phase with
  | .modules [] => some { s with phase := .callbacks cfg.mainCallbacks }
  | .modules (sm :: ms) => some { s with savedRsp := s.rsp, phase := .side (sideCalls sm) ms }
  | .side [] ms => some { s with rsp := s.savedRsp, phase := .modules ms }
  | .side (k :: ks) ms => some (s.enterMain (invokeEntry k s.stack s.savedRsp s.mem) (.side ks ms))
  | .callbacks (n + 1) => some (s.enterMain (invokeEntry .tlsCallback s.stack s.rsp s.mem) (.callbacks n))
  | .callbacks 0 => some (s.enterMain (directEntry .program s.stack s.rsp s.mem) .entered)
  | .entered => none
  | .finished => none
  | .dispatching => none

/-- The thread `t` loses its guest functions but `rest`.  The main context keeps the RSP at the end of its last
guest function; the others have a context of their own. -/
def unwind (s : HostState) (t : ThreadId) (rest : List EntryKind) (rsp : BitVec 64) : HostState :=
  match t, rest with
  | .main, [] => { s with main := [], rsp := rsp }
  | t, rest => s.setFrames t rest

/-- The phase after a guest function has ended, with the others of its thread left. -/
def afterLeave (s : HostState) (t : ThreadId) (rest : List EntryKind) : HostPhase :=
  match t, rest, s.phase with
  | .main, [], .entered => .finished
  | _, _, phase => phase

/-- The phase after a thread has left for its innermost trap.  A side module has a trap of its own; handlers
have none, and the process ends. -/
def afterAbort (s : HostState) (t : ThreadId) : Option HostPhase :=
  match t, s.phase with
  | .worker _, phase => some phase
  | .main, .side ks ms => some (.side ks ms)
  | .main, .dispatching => none
  | .main, _ => some .entered

def step (s : HostState) (e : EntryEvent) : Option HostState :=
  let s := { s with entry := none }
  match e with
  | .host =>
    match s.main with
    | [] => s.hostStep cfg
    | _ => none
  | .crash stack rsp =>
    match s.main, s.phase with
    | [], .entered => some { s with stack := stack, rsp := rsp, phase := .dispatching }
    | _, _ => none
  | .handler =>
    match s.main, s.phase with
    | [], .dispatching => some (s.enterMain (invokeEntry .handler s.stack s.rsp s.mem) .dispatching)
    | _, _ => none
  | .resume rsp =>
    match s.main, s.phase with
    | [], .dispatching => some { s with rsp := rsp, phase := .entered, main := [.resumed] }
    | _, _ => none
  | .windowProc t stack =>
    match s.frames t with
    | some (k :: ks) =>
      let e := invokeEntry .windowProc stack stack.entryRsp (stack.writeSentinel s.mem)
      some { s.setFrames t (.windowProc :: k :: ks) with mem := e.mem, entry := some e }
    | _ => none
  | .spawn t stack =>
    if s.inGuest t then
      let e := directEntry .thread stack stack.entryRsp (stack.writeSentinel s.mem)
      some { s with mem := e.mem, workers := s.workers ++ [[.thread]], entry := some e }
    else none
  | .write t mem => if s.inGuest t then some { s with mem := mem } else none
  | .leave t rsp =>
    match s.frames t with
    | some (_ :: ks) => some { s.unwind t ks rsp with phase := s.afterLeave t ks }
    | _ => none
  | .abort t rsp =>
    match s.frames t with
    | some (_ :: _) => (s.afterAbort t).map fun phase => { s.unwind t [] rsp with phase := phase }
    | _ => none

end HostState

end Quantum.Cli
