import Mathlib.Data.BitVec

/-!
# Process control

`ExitProcess`, the crash handler and `run_with_exit_trap` of the kernel32 crate's `process.rs`.

A thread is modelled by its `ExitState` and its Rust stack, innermost frame first: a `guest` frame is
a running `run_dispatcher_loop`, a `trap` frame is a `run_with_exit_trap` with the state that it saved
and the rest of its body.  `setjmp` records the depth of the stack and `longjmp` cuts the stack back to
that depth, as their contract says.
-/

namespace Quantum.Kernel32

/-- What the signal handler captures: X0..X30 and SP are `hostGprs`. -/
structure CrashInfo where
  sig : Int
  faultAddr : BitVec 64
  hostPc : BitVec 64
  hostGprs : Fin 32 → BitVec 64
  deriving DecidableEq

/-- The guest registers at the crash: slots 0 to 15 are X0 to X15, except that RSP lives in X19. -/
def CrashInfo.toGuestGprs (c : CrashInfo) : Fin 16 → BitVec 64 := fun i =>
  if i = 4 then c.hostGprs 19 else c.hostGprs (i.castLE (by decide))

/-- The code that the crash handler leaves for the trap. -/
def crashCode : BitVec 32 :=
  0xFFFFFFFE#32

/-- The result of a trap whose body returns. -/
def bodyReturned : BitVec 32 :=
  0xFFFFFFFF#32

/-- The exit and crash sink of a thread; `env` is the depth of the stack at `setjmp`. -/
structure ExitState where
  env : Nat
  code : BitVec 32
  armed : Bool
  deriving DecidableEq

def ExitState.new : ExitState :=
  ⟨0, 0, false⟩

inductive Frame (β : Type) where
  | trap (saved : ExitState) (body : β)
  | guest
  deriving DecidableEq

def Frame.isGuest {β : Type} : Frame β → Bool
  | .trap _ _ => false
  | .guest => true

structure Thread (β : Type) where
  exit : ExitState
  stack : List (Frame β)
  deriving DecidableEq

namespace Thread

variable {β : Type}

def new : Thread β :=
  ⟨.new, []⟩

/-- `run_with_exit_trap` up to the call of its body: save the state, arm the trap, `setjmp`. -/
def enterTrap (t : Thread β) (body : β) : Thread β :=
  { exit := ⟨t.stack.length + 1, 0, true⟩
    stack := .trap t.exit body :: t.stack }

/-- The end of `run_with_exit_trap`: the caller's trap state comes back. -/
def leaveTrap (t : Thread β) : Option (Thread β) :=
  match t.stack with
  | .trap saved _ :: rest => some ⟨saved, rest⟩
  | _ => none

/-- `longjmp` to the recorded depth. -/
def longjmp (t : Thread β) : Thread β :=
  { t with stack := t.stack.drop (t.stack.length - t.exit.env) }

/-- Is guest code (or a thunk that it called) running on the thread? -/
def inGuest (t : Thread β) : Bool :=
  match t.stack with
  | .guest :: _ => true
  | _ => false

end Thread

/-- How `ExitProcess` and the crash handler end: in a trap, which returns `result` and leaves the
thread as given, or with the whole process. -/
inductive Raised (β : Type) where
  | caught (result : BitVec 32) (t : Thread β)
  | terminated (status : BitVec 32)

/-- Store the code and jump to the armed trap, which reads the code and restores its caller's state. -/
def raise {β : Type} (t : Thread β) (code status : BitVec 32) : Option (Raised β) :=
  let t := { t with exit := { t.exit with code := code } }
  if t.exit.armed then
    t.longjmp.leaveTrap.map (.caught t.exit.code)
  else
    some (.terminated status)

/-- `ExitProcess`: with no trap armed the process ends with the code. -/
def exitProcess {β : Type} (t : Thread β) (code : BitVec 32) : Option (Raised β) :=
  raise t code code

/-- The crash handler after it has stored the crash information: with no trap armed, `_exit(139)`. -/
def crashHandler {β : Type} (t : Thread β) : Option (Raised β) :=
  raise t crashCode 139

end Quantum.Kernel32
