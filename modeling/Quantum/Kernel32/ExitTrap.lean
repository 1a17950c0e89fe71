import Quantum.Kernel32.Process

/-!
# Nested calls of `run_with_exit_trap`

A body of `run_with_exit_trap` is a finite tree of the traps and dispatcher loops that it runs, with the
way it ends: it returns, or it calls `ExitProcess` or `ExitThread`, or it crashes.  A jump is compared by
its depth with the frame of the trap that is running: the trap's own `setjmp` returns again, or an outer
one does, or the frame is already dead.
-/

namespace Quantum.Kernel32

/-- How a body of `run_with_exit_trap` ends. -/
inductive Ending where
  | returns
  | exitProcess (code : BitVec 32)
  | exitThread
  | crash
  deriving DecidableEq

/-- What code under a trap does on its thread.  A nested trap hands its result to the code after it;
`guest` runs code in a dispatcher loop. -/
inductive Body where
  | ends (e : Ending)
  | trap (inner : Body) (rest : BitVec 32 → Body)
  | guest (inner rest : Body)

/-- What a body has come to: `lost` is a jump to a frame that is not on the stack. -/
inductive BodyOutcome where
  | returned (t : Thread Unit)
  | caught (result : BitVec 32) (t : Thread Unit)
  | terminated (status : BitVec 32)
  | threadExited
  | lost
  deriving DecidableEq

def Raised.outcome : Option (Raised Unit) → BodyOutcome
  | some (.caught result t) => .caught result t
  | some (.terminated status) => .terminated status
  | none => .lost

/-- `ExitThread`: a jump to the armed trap that stores no code, else `pthread_exit`. -/
def exitThread (t : Thread Unit) : BodyOutcome :=
  if t.exit.armed then
    match t.longjmp.leaveTrap with
    | some t' => .caught t.exit.code t'
    | none => .lost
  else
    .threadExited

def Ending.run (t : Thread Unit) : Ending → BodyOutcome
  | .returns => .returned t
  | .exitProcess code => Raised.outcome (Kernel32.exitProcess t code)
  | .exitThread => Kernel32.exitThread t
  | .crash => Raised.outcome (crashHandler t)

/-- A jump: the stack that it was made from, and what the trap that it landed in leaves of it. -/
structure Jump where
  stack : List (Frame Unit)
  left : List (Frame Unit)

def BodyOutcome.jumps (t : Thread Unit) : BodyOutcome → List Jump
  | .caught _ t' => [⟨t.stack, t'.stack⟩]
  | _ => []

/-- `run_with_exit_trap` after its body, called on thread `t`: its result and the thread it leaves, or
what the outer frames see when it does not return. -/
def trapEnd (t : Thread Unit) : BodyOutcome → Except BodyOutcome (BitVec 32 × Thread Unit)
  | .returned t₁ =>
    match t₁.leaveTrap with
    | some t' => .ok (bodyReturned, t')
    | none => .error .lost
  | .caught result t' =>
    if t'.stack.length = t.stack.length then
      .ok (result, t')
    else if t'.stack.length < t.stack.length then
      .error (.caught result t')
    else
      .error .lost
  | o => .error o

def Thread.enterGuest (t : Thread Unit) : Thread Unit :=
  { t with stack := .guest :: t.stack }

def Thread.leaveGuest (t : Thread Unit) : Option (Thread Unit) :=
  match t.stack with
  | .guest :: rest => some { t with stack := rest }
  | _ => none

/-- Runs a body on a thread, with the jumps that are made. -/
def Body.run : Body → Thread Unit → List Jump × BodyOutcome
  | .ends e, t => ((e.run t).jumps t, e.run t)
  | .trap inner rest, t =>
    let (jumps, o) := inner.run (t.enterTrap ())
    match trapEnd t o with
    | .ok (result, t') =>
      let (jumps', o') := (rest result).run t'
      (jumps ++ jumps', o')
    | .error o => (jumps, o)
  | .guest inner rest, t =>
    match inner.run t.enterGuest with
    | (jumps, .returned t₁) =>
      match t₁.leaveGuest with
      | some t' =>
        let (jumps', o') := rest.run t'
        (jumps ++ jumps', o')
      | none => (jumps, .lost)
    | r => r

/-- `run_with_exit_trap`. -/
def runWithExitTrap (body : Body) (t : Thread Unit) :
    List Jump × Except BodyOutcome (BitVec 32 × Thread Unit) :=
  let (jumps, o) := body.run (t.enterTrap ())
  (jumps, trapEnd t o)

end Quantum.Kernel32
