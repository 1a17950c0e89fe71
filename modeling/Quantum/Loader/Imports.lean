import Quantum.Loader.Exports

/-!
# Import directory

`imports::parse` and `imports::wire_iat`.  Both bitnesses of an image are read with the thunks of
PE32+.
-/

namespace Quantum.Loader

/-- `dir::IMPORT`. -/
def dirImport : Nat := 1

/-- The errors of a `read_cstr`. -/
structure CstrErrors where
  oob : String
  overflow : String
  unbounded : String
  utf8 : String

/-- The loop of a `read_cstr` from `off` on.  It stops with an error at the 4097th byte; `left` is how
many it may still take. -/
def cstrLoop (what : CstrErrors) (image : PeImage) (rva : BitVec 32) :
    Nat → BitVec 32 → Checked LoadError Bytes
  | 0, _ => Checked.fail (.malformed what.unbounded rva.toNat)
  | left + 1, off => do
    let s ← image.sliceOr off 1 (.malformed what.oob off.toNat)
    let b ← Checked.index s 0
    if b = 0 then return []
    else
      let next ← Checked.okOr (checkedAdd off 1) (.malformed what.overflow off.toNat)
      let rest ← cstrLoop what image rva left next
      return b :: rest

def cstrOf (what : CstrErrors) (image : PeImage) (rva : BitVec 32) : Checked LoadError String := do
  let out ← cstrLoop what image rva 4097 rva
  Checked.okOr (fromUtf8 out) (.malformed what.utf8 rva.toNat)

namespace Imports

def IMPORT_DESCRIPTOR_SIZE : BitVec 32 := 20
def IMPORT_BY_ORDINAL_FLAG_64 : BitVec 64 := 1 <<< 63
def IMPORT_ORDINAL_MASK_64 : BitVec 64 := 0xFFFF

inductive ImportEntry where
  | name (hint : BitVec 16) (name : String) (iatSlotRva : BitVec 32)
  | ordinal (ordinal : BitVec 16) (iatSlotRva : BitVec 32)
  deriving DecidableEq

def ImportEntry.iatSlotRva : ImportEntry → BitVec 32
  | .name _ _ iatSlotRva => iatSlotRva
  | .ordinal _ iatSlotRva => iatSlotRva

structure DllImports where
  name : String
  iatRva : BitVec 32
  iltRva : BitVec 32
  entries : List ImportEntry
  deriving DecidableEq

structure ImportTable where
  dlls : List DllImports
  deriving DecidableEq

def readCstr (image : PeImage) (rva : BitVec 32) : Checked LoadError String :=
  cstrOf ⟨"cstr oob", "cstr overflow", "cstr unbounded", "cstr utf8"⟩ image rva

/-! ### Parsing -/

/-- An entry from its thunk. -/
def parseThunk (image : PeImage) (thunk : BitVec 64) (iatSlotRva : BitVec 32) :
    Checked LoadError ImportEntry :=
  if thunk &&& IMPORT_BY_ORDINAL_FLAG_64 ≠ 0 then
    return .ordinal ((thunk &&& IMPORT_ORDINAL_MASK_64).setWidth 16) iatSlotRva
  else do
    let byNameRva := (thunk &&& 0x7FFFFFFF).setWidth 32
    let hintBytes ← image.sliceOr byNameRva 2 (.malformed "by-name hint" byNameRva.toNat)
    let hint ← u16At hintBytes 0
    let nameRva ← Checked.add byNameRva 2
    let name ← readCstr image nameRva
    return .name hint name iatSlotRva

/-- The loop of `parse_thunk_array` from index `idx` on.  It stops with an error after the 65537th
entry; `left` is how many it may still take. -/
def parseThunkLoop (image : PeImage) (arrayRva iatRva : BitVec 32) :
    Nat → BitVec 32 → Checked LoadError (List ImportEntry)
  | 0, _ => Checked.fail (.malformed "thunk array unbounded" arrayRva.toNat)
  | left + 1, idx => do
    let rel ← Checked.okOr (checkedMul idx 8) (.malformed "thunk index overflow" arrayRva.toNat)
    let off ← Checked.okOr (checkedAdd arrayRva rel) (.malformed "thunk rva overflow" arrayRva.toNat)
    let slot ← image.sliceOr off 8 (.malformed "thunk slot oob" off.toNat)
    let thunk := le64 slot
    if thunk = 0 then return []
    else
      let slotRel ← Checked.mul idx 8
      let iatSlotRva ← Checked.okOr (checkedAdd iatRva slotRel)
        (.malformed "iat slot rva overflow" iatRva.toNat)
      let entry ← parseThunk image thunk iatSlotRva
      let idx ← Checked.add idx 1
      let rest ← parseThunkLoop image arrayRva iatRva left idx
      return entry :: rest

/-- The lookup table if there is one, else the IAT. -/
def parseThunkArray (image : PeImage) (iltRva iatRva : BitVec 32) :
    Checked LoadError (List ImportEntry) :=
  let arrayRva := if iltRva ≠ 0 then iltRva else iatRva
  if arrayRva = 0 then return []
  else parseThunkLoop image arrayRva iatRva 65537 0

/-- The loop over the descriptors.  `left` is a bound on the rounds: a directory has room for fewer
descriptors. -/
def parseDescriptors (image : PeImage) (stop : BitVec 32) :
    Nat → BitVec 32 → Checked LoadError (List DllImports)
  | 0, cursor => Checked.fail (.malformed "import descriptor past directory" cursor.toNat)
  | left + 1, cursor =>
    if saturatingAdd cursor IMPORT_DESCRIPTOR_SIZE > stop then
      Checked.fail (.malformed "import descriptor past directory" cursor.toNat)
    else do
      let bytes ← image.sliceOr cursor IMPORT_DESCRIPTOR_SIZE.toNat
        (.malformed "import descriptor" cursor.toNat)
      let originalFirstThunk ← u32At bytes 0
      let nameRva ← u32At bytes 12
      let firstThunk ← u32At bytes 16
      if originalFirstThunk = 0 ∧ nameRva = 0 ∧ firstThunk = 0 then return []
      else
        let name ← readCstr image nameRva
        let entries ← parseThunkArray image originalFirstThunk firstThunk
        let rest ← parseDescriptors image stop left (saturatingAdd cursor IMPORT_DESCRIPTOR_SIZE)
        return { name, iatRva := firstThunk, iltRva := originalFirstThunk, entries } :: rest

def parseWithDirectory (image : PeImage) (directory : Nat) : Checked LoadError ImportTable :=
  match image.dataDir directory with
  | none => return { dlls := [] }
  | some dir => do
    let stop := saturatingAdd dir.virtualAddress dir.size
    let dlls ← parseDescriptors image stop (dir.size.toNat / 20 + 1) dir.virtualAddress
    return { dlls }

def parse (image : PeImage) : Checked LoadError ImportTable :=
  parseWithDirectory image dirImport

/-! ### Wiring -/

section Wiring

variable {σ : Type}

/-- What the resolver is asked for. -/
def ImportEntry.lookupName : ImportEntry → String
  | .name _ importName _ => importName
  | .ordinal number _ => "#" ++ toString number.toNat

/-- The loop of `wire_iat`.  The resolver may keep a state; what it does not resolve gets 0. -/
def wireEntries (resolver : σ → String → String → Option (BitVec 64) × σ) :
    List (String × ImportEntry) → PeImage → σ → Checked LoadError Unit × PeImage × σ
  | [], image, s => (.ok (), image, s)
  | (dll, entry) :: rest, image, s =>
    let (answer, s) := resolver s dll entry.lookupName
    let target := answer.getD 0
    match image.rvaToSlice entry.iatSlotRva 8 with
    | none => (Checked.fail (.malformed "iat slot oob" entry.iatSlotRva.toNat), image, s)
    | some _ => wireEntries resolver rest (image.write 8 entry.iatSlotRva target) s

/-- The entries of all DLLs in the order of the two loops. -/
def ImportTable.entries (imports : ImportTable) : List (String × ImportEntry) :=
  imports.dlls.flatMap fun dll => dll.entries.map fun entry => (dll.name, entry)

def wireIat (image : PeImage) (imports : ImportTable)
    (resolver : σ → String → String → Option (BitVec 64) × σ) (s : σ) :
    Checked LoadError Unit × PeImage × σ :=
  wireEntries resolver imports.entries image s

end Wiring

end Imports

end Quantum.Loader
