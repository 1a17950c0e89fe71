import Quantum.Loader.Image

/-!
# Exception directory

`RUNTIME_FUNCTION` entries, the `UNWIND_INFO` they point to, and the search for the handler of an RVA.
-/

namespace Quantum.Loader

structure RuntimeFunction where
  beginRva : BitVec 32
  endRva : BitVec 32
  unwindInfoRva : BitVec 32
  deriving DecidableEq

def RuntimeFunction.ofBytes (b : List (BitVec 8)) : RuntimeFunction :=
  ⟨le32 b, le32 (b.drop 4), le32 (b.drop 8)⟩

structure UnwindInfo where
  version : BitVec 8
  flags : BitVec 8
  sizeOfProlog : BitVec 8
  countOfCodes : BitVec 8
  frameRegister : BitVec 8
  frameOffset : BitVec 8
  unwindCodes : List (BitVec 8)
  handlerRva : Option (BitVec 32)
  chainedFunction : Option RuntimeFunction
  deriving DecidableEq

def unwFlagEhandler : BitVec 8 := 0x1
def unwFlagUhandler : BitVec 8 := 0x2
def unwFlagChaininfo : BitVec 8 := 0x4

/-- `parse_unwind_info`; `none` stands for the `Malformed` errors. -/
def parseUnwindInfo (image : LoadedImage) (unwindRva : BitVec 32) : Option UnwindInfo := do
  let header ← image.rvaToSlice unwindRva 4
  let verFlags := header.getD 0 0
  let version := verFlags &&& 0x07
  let flags := (verFlags >>> 3) &&& 0x1F
  let countOfCodes := header.getD 2 0
  let frameByte := header.getD 3 0
  if version ≠ 1 ∧ version ≠ 2 then none
  -- The array of codes is padded to an even number of entries of two bytes.
  let codesSize := (countOfCodes.toNat + 1) / 2 * 2 * 2
  let codesOff := unwindRva + 4
  let unwindCodes ← image.rvaToSlice codesOff codesSize
  let trailerOff := codesOff + BitVec.ofNat 32 codesSize
  let chainedFunction ←
    if flags &&& unwFlagChaininfo ≠ 0 then
      (image.rvaToSlice trailerOff 12).map fun b => some (RuntimeFunction.ofBytes b)
    else some none
  let handlerRva ←
    if flags &&& unwFlagChaininfo = 0 ∧ flags &&& (unwFlagEhandler ||| unwFlagUhandler) ≠ 0 then
      (image.rvaToSlice trailerOff 4).map fun b => some (le32 b)
    else some none
  return {
    version, flags, countOfCodes, unwindCodes, handlerRva, chainedFunction
    sizeOfProlog := header.getD 1 0
    frameRegister := frameByte &&& 0x0F
    frameOffset := (frameByte >>> 4) &&& 0x0F }

/-- The loop of `slice::binary_search_by`: halve the range until one element is left. -/
def binarySearchLoop (cmp : Nat → Ordering) : Nat → Nat → Nat → Nat
  | 0, base, _ => base
  | fuel + 1, base, size =>
    if size ≤ 1 then base
    else
      let half := size / 2
      let mid := base + half
      binarySearchLoop cmp fuel (if cmp mid = .gt then base else mid) (size - half)

/-- `slice::binary_search_by`, with `Err` as `none`. -/
def binarySearchBy {α : Type} (l : List α) (cmp : α → Ordering) : Option α := do
  let base := binarySearchLoop (fun i => (l[i]?.map cmp).getD .gt) l.length 0 l.length
  let found ← l[base]?
  if cmp found = .eq then some found else none

/-- Where an entry lies as seen from `rva`. -/
def RuntimeFunction.compare (rva : BitVec 32) (f : RuntimeFunction) : Ordering :=
  if rva < f.beginRva then .gt else if rva ≥ f.endRva then .lt else .eq

def lookupRuntimeFunction (funcs : List RuntimeFunction) (rva : BitVec 32) :
    Option RuntimeFunction :=
  binarySearchBy funcs (RuntimeFunction.compare rva)

/-- The loop of `resolve_handler`, for at most `fuel` more links of the chain. -/
def resolveHandlerLoop (image : LoadedImage) :
    Nat → RuntimeFunction → Option (UnwindInfo × RuntimeFunction)
  | 0, _ => none
  | fuel + 1, current => do
    let ui ← parseUnwindInfo image current.unwindInfoRva
    match ui.chainedFunction with
    | some next => resolveHandlerLoop image fuel next
    | none => some (ui, current)

/-- Follow the chained entries to the one with the handler; chains of more than 16 are an error. -/
def resolveHandler (image : LoadedImage) (starting : RuntimeFunction) :
    Option (UnwindInfo × RuntimeFunction) :=
  resolveHandlerLoop image 16 starting

end Quantum.Loader
