import Quantum.Kernel32.Process
import Quantum.Kernel32.Seh
import Quantum.Loader.Exception

/-!
# Exception dispatch

`dispatch_seh` of `process.rs`.  The handlers are guest code, run by `invoke_guest_function` through the
same dispatcher loop as everything else, so `invoke` is a parameter: it may do anything to the guest's
registers, to the `CONTEXT` record, to the registered filter, to the image and to all else (`σ`).  The loop
stores every block it enters to `LAST_ENTERED_RIP`, so the block entered last is part of what a run gives.
-/

namespace Quantum.Cli

open Quantum.Kernel32 Quantum.Loader Quantum.Runtime

/-- What the handlers read and write. -/
structure SehGuest (σ : Type) where
  ctx : GuestContext
  record : ExceptionRecord
  context : Win64Context
  unhandledFilter : BitVec 64
  image : LoadedImage
  rest : σ

/-- The guest, and `LAST_ENTERED_RIP`. -/
structure SehWorld (σ : Type) extends SehGuest σ where
  lastEnteredRip : BitVec 64

/-- How `invoke_guest_function` ends: with RAX, with an error, or with the process (the handler calls
`ExitProcess` or faults; no trap is armed here).  A run that returns has entered a block; one that ends in an
error may not have. -/
inductive Invoked (σ : Type) where
  | ok (rax lastBlock : BitVec 64) (guest : SehGuest σ)
  | error (lastBlock : Option (BitVec 64)) (guest : SehGuest σ)
  | ended

/-- The heap addresses of the records that the handlers get. -/
structure SehRecords where
  pointersPtr : BitVec 64
  recordPtr : BitVec 64
  contextPtr : BitVec 64

inductive SehCall where
  | vectored (callback : BitVec 64)
  | filter (callback : BitVec 64)
  /-- The language-specific handler of an entry of `.pdata`. -/
  | language (entry : RuntimeFunction) (handlerVa : BitVec 64)
  deriving DecidableEq

inductive Verdict (σ : Type) where
  | resume (w : SehWorld σ)
  | propagate
  | ended

/-- The result of dispatch, with the guest functions it has called. -/
structure SehResult (σ : Type) where
  calls : List SehCall
  verdict : Verdict σ

def SehResult.after {σ : Type} (call : SehCall) (r : SehResult σ) : SehResult σ :=
  { r with calls := call :: r.calls }

/-- The exception code of a signal; other signals are not dispatched. -/
def exceptionCode (sig : Int) : Option (BitVec 32) :=
  if sig = 5 then some exceptionBreakpoint
  else if sig = 11 ∨ sig = 10 then some exceptionAccessViolation
  else if sig = 4 then some exceptionIllegalInstruction
  else none

section Dispatch

variable {σ : Type} (invoke : SehGuest σ → BitVec 64 → Invoked σ) (recs : SehRecords)

def SehGuest.setGpr (g : SehGuest σ) (i : Fin 16) (v : BitVec 64) : SehGuest σ :=
  { g with ctx := g.ctx.setGpr i v }

/-- The guest goes on with the registers of the `CONTEXT` record. -/
def SehWorld.restore (w : SehWorld σ) : SehWorld σ :=
  { w with ctx := w.context.intoGuest w.ctx }

/-- Call a handler with the pointers record. -/
def callHandler (w : SehWorld σ) (callback : BitVec 64) : Invoked σ :=
  invoke (w.toSehGuest.setGpr 1 recs.pointersPtr) callback

/-- The vectored handlers, then `next`.  A disposition other than the two documented ones ends the walk
over the handlers. -/
def callVectored (next : SehWorld σ → SehResult σ) : List VectoredHandler → SehWorld σ → SehResult σ
  | [], w => next w
  | h :: hs, w =>
    match callHandler invoke recs w h.callback with
    | .ended => ⟨[.vectored h.callback], .ended⟩
    | .error _ _ => ⟨[.vectored h.callback], .propagate⟩
    | .ok rax lastBlock guest =>
      let w : SehWorld σ := ⟨guest, lastBlock⟩
      let disposition := rax.truncate 32
      if disposition = exceptionContinueExecution then
        ⟨[.vectored h.callback], .resume w.restore⟩
      else if disposition = exceptionContinueSearch then
        (callVectored next hs w).after (.vectored h.callback)
      else
        (next w).after (.vectored h.callback)

/-- The unhandled-exception filter, if one is registered, then `next`. -/
def callFilter (next : SehWorld σ → SehResult σ) (w : SehWorld σ) : SehResult σ :=
  let filter := w.unhandledFilter
  if filter ≠ 0 then
    match callHandler invoke recs w filter with
    | .ended => ⟨[.filter filter], .ended⟩
    | .error _ _ => ⟨[.filter filter], .propagate⟩
    | .ok rax lastBlock guest =>
      let w : SehWorld σ := ⟨guest, lastBlock⟩
      if rax.truncate 32 = exceptionContinueExecution then
        ⟨[.filter filter], .resume w.restore⟩
      else
        (next w).after (.filter filter)
  else
    next w

/-- An address relative to the image: saturating subtraction, cut to 32 bits. -/
def faultRvaOf (image : LoadedImage) (rip : BitVec 64) : BitVec 32 :=
  BitVec.ofNat 32 (rip.toNat - image.actualBase.toNat)

/-- The handler of an entry, as an address in the image. -/
def entryHandler (image : LoadedImage) (rf : RuntimeFunction) : Option (BitVec 64) := do
  let (ui, _) ← resolveHandler image rf
  let handlerRva ← ui.handlerRva
  return image.actualBase + handlerRva.zeroExtend 64

/-- The entry of `.pdata` whose handler is called, looked up with `LAST_ENTERED_RIP`. -/
def selectEntry (runtimeFunctions : List RuntimeFunction) (w : SehWorld σ) :
    Option (RuntimeFunction × BitVec 64) := do
  let faultRva := faultRvaOf w.image w.lastEnteredRip
  let rf ← lookupRuntimeFunction runtimeFunctions faultRva
  let handlerVa ← entryHandler w.image rf
  return (rf, handlerVa)

/-- Static SEH: the language-specific handler with the four arguments of its signature. -/
def callLanguage (runtimeFunctions : List RuntimeFunction) (w : SehWorld σ) : SehResult σ :=
  match selectEntry runtimeFunctions w with
  | none => ⟨[], .propagate⟩
  | some (rf, handlerVa) =>
    let args := (((w.toSehGuest.setGpr 1 recs.recordPtr).setGpr 2 (w.ctx.gprs 4)).setGpr 8
      recs.contextPtr).setGpr 9 0
    match invoke args handlerVa with
    | .ended => ⟨[.language rf handlerVa], .ended⟩
    | .error _ _ => ⟨[.language rf handlerVa], .propagate⟩
    | .ok rax lastBlock guest =>
      let w : SehWorld σ := ⟨guest, lastBlock⟩
      if rax.truncate 32 = 0#32 then ⟨[.language rf handlerVa], .resume w.restore⟩
      else ⟨[.language rf handlerVa], .propagate⟩

/-- The state in which the handlers start: the record and the `CONTEXT` describe the crash, and the
guest registers are those at the crash. -/
def sehStart (crash : CrashInfo) (code : BitVec 32) (w : SehWorld σ) : SehWorld σ :=
  let gprs := crash.toGuestGprs
  { w with
    record := ⟨code, crash.hostPc⟩
    context := Win64Context.fromGuestGprs gprs w.lastEnteredRip w.ctx.flags
    ctx := { w.ctx with gprs := gprs, rip := w.lastEnteredRip } }

def dispatchSeh (crash : CrashInfo) (handlers : List VectoredHandler)
    (runtimeFunctions : List RuntimeFunction) (w : SehWorld σ) : SehResult σ :=
  match exceptionCode crash.sig with
  | none => ⟨[], .propagate⟩
  | some code =>
    callVectored invoke recs
      (callFilter invoke recs (callLanguage invoke recs runtimeFunctions)) handlers
      (sehStart crash code w)

end Dispatch

end Quantum.Cli
