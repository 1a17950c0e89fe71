import Quantum.Runtime.Dispatcher

/-!
# Structured exception handling

The parts of the kernel32 crate's `seh.rs` that exception dispatch uses.
-/

namespace Quantum.Kernel32

open Quantum.Runtime

def exceptionAccessViolation : BitVec 32 := 0xC0000005#32
def exceptionBreakpoint : BitVec 32 := 0x80000003#32
def exceptionIllegalInstruction : BitVec 32 := 0xC000001D#32

def exceptionContinueExecution : BitVec 32 := 0xFFFFFFFF#32
def exceptionContinueSearch : BitVec 32 := 0#32

/-- The fields of `EXCEPTION_RECORD` that dispatch sets; the others are zero. -/
structure ExceptionRecord where
  exceptionCode : BitVec 32
  exceptionAddress : BitVec 64

structure VectoredHandler where
  handle : BitVec 64
  callback : BitVec 64
  first : Bool

/-- The fields of the Win64 `CONTEXT` that dispatch sets or reads; RAX to R15 are `gprs`, by register
number. -/
structure Win64Context where
  contextFlags : BitVec 32
  segCs : BitVec 16
  segDs : BitVec 16
  segEs : BitVec 16
  segFs : BitVec 16
  segGs : BitVec 16
  segSs : BitVec 16
  eFlags : BitVec 32
  gprs : Fin 16 → BitVec 64
  rip : BitVec 64

def Win64Context.fromGuestGprs (gprs : Fin 16 → BitVec 64) (rip flags : BitVec 64) :
    Win64Context where
  contextFlags := 0x00100007
  segCs := 0x33
  segDs := 0x2B
  segEs := 0x2B
  segFs := 0x53
  segGs := 0x2B
  segSs := 0x2B
  eFlags := flags.truncate 32
  gprs := gprs
  rip := rip

/-- `into_guest_gprs` and what its callers do with the RIP and the flags that it returns. -/
def Win64Context.intoGuest (c : Win64Context) (ctx : GuestContext) : GuestContext :=
  { ctx with gprs := c.gprs, rip := c.rip, flags := c.eFlags.zeroExtend 64 }

end Quantum.Kernel32
