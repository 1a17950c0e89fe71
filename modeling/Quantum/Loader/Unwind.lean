import Quantum.Loader.Exception
import Quantum.Loader.Exports

/-!
# The exception directory with its errors

`exception::parse`, `parse_unwind_info` and `resolve_handler` with the errors that they return and the
arithmetic that may panic.  `Loader.parseUnwindInfo` and `Loader.resolveHandler` are the same functions
without them.
-/

namespace Quantum.Loader.Exception

/-- `dir::EXCEPTION`. -/
def dirException : Nat := 3

def RUNTIME_FUNCTION_SIZE : BitVec 32 := 12

/-- A `RUNTIME_FUNCTION` from a slice. -/
def runtimeFunction (bytes : Bytes) : Checked LoadError RuntimeFunction := do
  let beginRva ← u32At bytes 0
  let endRva ← u32At bytes 4
  let unwindInfoRva ← u32At bytes 8
  return { beginRva, endRva, unwindInfoRva }

/-- The `i`-th entry of the directory. -/
def parseEntry (image : PeImage) (dirEntry : DataDirectory) (i : Nat) :
    Checked LoadError RuntimeFunction := do
  let rel ← Checked.mul (BitVec.ofNat 32 i) RUNTIME_FUNCTION_SIZE
  let off ← Checked.add dirEntry.virtualAddress rel
  let bytes ← image.sliceOr off RUNTIME_FUNCTION_SIZE.toNat
    (.malformed "RUNTIME_FUNCTION oob" off.toNat)
  runtimeFunction bytes

def parse (image : PeImage) : Checked LoadError (List RuntimeFunction) :=
  match image.dataDir dirException with
  | none => return []
  | some dirEntry => do
    Checked.ensure (dirEntry.size % RUNTIME_FUNCTION_SIZE = 0)
      (.malformed "exception directory size not multiple of 12" dirEntry.virtualAddress.toNat)
    Checked.collect (parseEntry image dirEntry) 0 (dirEntry.size / RUNTIME_FUNCTION_SIZE).toNat

/-- The RUNTIME_FUNCTION or the handler after the codes. -/
def parseTrailer (image : PeImage) (flags : BitVec 8) (trailerOff : BitVec 32) :
    Checked LoadError (Option (BitVec 32) × Option RuntimeFunction) :=
  if flags &&& unwFlagChaininfo ≠ 0 then do
    let b ← image.sliceOr trailerOff RUNTIME_FUNCTION_SIZE.toNat
      (.malformed "UNWIND_INFO chained RUNTIME_FUNCTION oob" trailerOff.toNat)
    let chained ← runtimeFunction b
    return (none, some chained)
  else if flags &&& (unwFlagEhandler ||| unwFlagUhandler) ≠ 0 then do
    let b ← image.sliceOr trailerOff 4 (.malformed "UNWIND_INFO handler RVA oob" trailerOff.toNat)
    let handler ← u32At b 0
    return (some handler, none)
  else return (none, none)

def parseUnwindInfo (image : PeImage) (unwindRva : BitVec 32) : Checked LoadError UnwindInfo := do
  let header ← image.sliceOr unwindRva 4 (.malformed "UNWIND_INFO header oob" unwindRva.toNat)
  let verFlags ← Checked.index header 0
  let version := verFlags &&& 0x07
  let flags := (verFlags >>> 3) &&& 0x1F
  let sizeOfProlog ← Checked.index header 1
  let countOfCodes ← Checked.index header 2
  let frameByte ← Checked.index header 3
  Checked.ensure (¬ (version ≠ 1 ∧ version ≠ 2))
    (.malformed "UNWIND_INFO version unsupported" unwindRva.toNat)
  let codesPaddedCount ← Checked.mul (BitVec.ofNat 32 ((countOfCodes.toNat + 1) / 2)) 2
  let codesSize ← Checked.mul (codesPaddedCount.setWidth 64) 2
  let codesOff ← Checked.add unwindRva 4
  let unwindCodes ← image.sliceOr codesOff codesSize.toNat
    (.malformed "UNWIND_INFO codes oob" codesOff.toNat)
  let trailerOff ← Checked.add codesOff (codesSize.setWidth 32)
  let trailer ← parseTrailer image flags trailerOff
  return {
    version, flags, sizeOfProlog, countOfCodes, unwindCodes
    frameRegister := frameByte &&& 0x0F
    frameOffset := (frameByte >>> 4) &&& 0x0F
    handlerRva := trailer.1
    chainedFunction := trailer.2 }

/-- The loop of `resolve_handler`, for at most `left` more links of the chain. -/
def resolveHandlerLoop (image : PeImage) :
    Nat → RuntimeFunction → Checked LoadError (UnwindInfo × RuntimeFunction)
  | 0, current =>
    Checked.fail (.malformed "UNWIND_INFO chain too deep" current.unwindInfoRva.toNat)
  | left + 1, current => do
    let ui ← parseUnwindInfo image current.unwindInfoRva
    match ui.chainedFunction with
    | some next => resolveHandlerLoop image left next
    | none => return (ui, current)

def resolveHandler (image : PeImage) (starting : RuntimeFunction) :
    Checked LoadError (UnwindInfo × RuntimeFunction) :=
  resolveHandlerLoop image 16 starting

end Quantum.Loader.Exception
