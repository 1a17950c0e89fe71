import Quantum.Loader.Reloc

/-!
# Export directory

`exports::parse`.  As in `PeFile::parse`, an addition or a multiplication that is not a `checked_` or
`saturating_` one panics when it overflows, and so does an index out of bounds.
-/

namespace Quantum.Loader

/-- `dir::EXPORT`. -/
def dirExport : Nat := 0

/-! ### Reading -/

/-- `rva_to_slice(rva, n).ok_or(e)`. -/
def PeImage.sliceOr (image : PeImage) (rva : BitVec 32) (n : Nat) (e : LoadError) :
    Checked LoadError Bytes :=
  Checked.okOr (image.rvaToSlice rva n) e

/-- `u32::from_le_bytes(s[k..k + 4].try_into().unwrap())`. -/
def u32At (s : Bytes) (k : Nat) : Checked LoadError (BitVec 32) := do
  let b ← Checked.slice s k 4
  return le32 b

/-- `u16::from_le_bytes([s[k], s[k + 1]])`. -/
def u16At (s : Bytes) (k : Nat) : Checked LoadError (BitVec 16) := do
  let lo ← Checked.index s k
  let hi ← Checked.index s (k + 1)
  return le16 [lo, hi]

/-- `u32::checked_add`. -/
def checkedAdd (x y : BitVec 32) : Option (BitVec 32) :=
  if x.toNat + y.toNat < 2 ^ 32 then some (x + y) else none

/-- `u32::checked_mul`. -/
def checkedMul (x y : BitVec 32) : Option (BitVec 32) :=
  if x.toNat * y.toNat < 2 ^ 32 then some (x * y) else none

/-- `String::from_utf8`. -/
def fromUtf8 (b : Bytes) : Option String :=
  String.fromUTF8? ⟨(b.map UInt8.ofBitVec).toArray⟩

/-- The loop of `read_cstr` from `off` on.  It stops with an error at the 4097th byte; `left` is how
many it may still take. -/
def readCstrLoop (image : PeImage) (rva : BitVec 32) : Nat → BitVec 32 → Checked LoadError Bytes
  | 0, _ => Checked.fail (.malformed "export cstr unbounded" rva.toNat)
  | left + 1, off => do
    let s ← image.sliceOr off 1 (.malformed "export cstr" off.toNat)
    let b ← Checked.index s 0
    if b = 0 then return []
    else
      let next ← Checked.okOr (checkedAdd off 1) (.malformed "export cstr overflow" off.toNat)
      let rest ← readCstrLoop image rva left next
      return b :: rest

def readCstr (image : PeImage) (rva : BitVec 32) : Checked LoadError String := do
  let out ← readCstrLoop image rva 4097 rva
  Checked.okOr (fromUtf8 out) (.malformed "export cstr utf8" rva.toNat)

/-! ### The directory -/

inductive ExportTarget where
  | rva (rva : BitVec 32)
  | forwarded (target : String)
  deriving DecidableEq

/-- `Export`. -/
structure ExportEntry where
  ordinal : BitVec 32
  target : ExportTarget
  deriving DecidableEq

structure NamedExport where
  name : String
  ordinal : BitVec 32
  deriving DecidableEq

structure ExportTable where
  moduleName : String
  ordinalBase : BitVec 32
  entries : List ExportEntry
  names : List NamedExport
  deriving DecidableEq

/-- The fields of the directory that `parse` uses. -/
structure ExportHeader where
  nameRva : BitVec 32
  base : BitVec 32
  numFuncs : BitVec 32
  numNames : BitVec 32
  funcsRva : BitVec 32
  namesRva : BitVec 32
  ordinalsRva : BitVec 32
  deriving DecidableEq

def exportHeader (image : PeImage) (dirEntry : DataDirectory) : Checked LoadError ExportHeader := do
  let header ← image.sliceOr dirEntry.virtualAddress 40
    (.malformed "export directory" dirEntry.virtualAddress.toNat)
  let nameRva ← u32At header 12
  let base ← u32At header 16
  let numFuncs ← u32At header 20
  let numNames ← u32At header 24
  let funcsRva ← u32At header 28
  let namesRva ← u32At header 32
  let ordinalsRva ← u32At header 36
  return { nameRva, base, numFuncs, numNames, funcsRva, namesRva, ordinalsRva }

def moduleName (image : PeImage) (header : ExportHeader) : Checked LoadError String :=
  if header.nameRva ≠ 0 then readCstr image header.nameRva else return ""

/-- The target of the `i`-th function: a string if it lies in the directory. -/
def exportTarget (image : PeImage) (dirEntry : DataDirectory) (header : ExportHeader) (i : Nat) :
    Checked LoadError ExportTarget := do
  let rel ← Checked.okOr (checkedMul (BitVec.ofNat 32 i) 4)
    (.malformed "export funcs overflow" header.funcsRva.toNat)
  let off ← Checked.okOr (checkedAdd header.funcsRva rel)
    (.malformed "export funcs offset" header.funcsRva.toNat)
  let bytes ← image.sliceOr off 4 (.malformed "export func entry" off.toNat)
  let targetRva ← u32At bytes 0
  let dirStart := dirEntry.virtualAddress
  let dirEnd := saturatingAdd dirStart dirEntry.size
  if dirStart ≤ targetRva ∧ targetRva < dirEnd then
    let target ← readCstr image targetRva
    return .forwarded target
  else return .rva targetRva

/-- The name of the `i`-th named function, and its ordinal less the base. -/
def exportName (image : PeImage) (header : ExportHeader) (i : Nat) :
    Checked LoadError (String × BitVec 32) := do
  let nameRel ← Checked.mul (BitVec.ofNat 32 i) 4
  let nameOff := saturatingAdd header.namesRva nameRel
  let ordRel ← Checked.mul (BitVec.ofNat 32 i) 2
  let ordOff := saturatingAdd header.ordinalsRva ordRel
  let nameRvaBytes ← image.sliceOr nameOff 4 (.malformed "export name entry" nameOff.toNat)
  let ordBytes ← image.sliceOr ordOff 2 (.malformed "export ordinal entry" ordOff.toNat)
  let nameRva ← u32At nameRvaBytes 0
  let biased ← u16At ordBytes 0
  let name ← readCstr image nameRva
  return (name, biased.setWidth 32)

def exportEntry (image : PeImage) (dirEntry : DataDirectory) (header : ExportHeader) (i : Nat) :
    Checked LoadError ExportEntry := do
  let target ← exportTarget image dirEntry header i
  let ordinal ← Checked.add header.base (BitVec.ofNat 32 i)
  return { ordinal, target }

def namedExport (image : PeImage) (header : ExportHeader) (i : Nat) :
    Checked LoadError NamedExport := do
  let entry ← exportName image header i
  let ordinal ← Checked.add header.base entry.2
  return { name := entry.1, ordinal }

def Exports.parse (image : PeImage) : Checked LoadError (Option ExportTable) :=
  match image.dataDir dirExport with
  | none => return none
  | some dirEntry => do
    let header ← exportHeader image dirEntry
    let moduleName ← moduleName image header
    let entries ← Checked.collect (exportEntry image dirEntry header) 0 header.numFuncs.toNat
    let names ← Checked.collect (namedExport image header) 0 header.numNames.toNat
    return some { moduleName, ordinalBase := header.base, entries, names }

/-! ### Without overflow checks

The sums of a release build wrap.  Those of the ordinals are the ones that may. -/

def wrappingEntry (image : PeImage) (dirEntry : DataDirectory) (header : ExportHeader) (i : Nat) :
    Checked LoadError ExportEntry := do
  let target ← exportTarget image dirEntry header i
  return { ordinal := header.base + BitVec.ofNat 32 i, target }

def wrappingName (image : PeImage) (header : ExportHeader) (i : Nat) :
    Checked LoadError NamedExport := do
  let entry ← exportName image header i
  return { name := entry.1, ordinal := header.base + entry.2 }

def Exports.parseWrapping (image : PeImage) : Checked LoadError (Option ExportTable) :=
  match image.dataDir dirExport with
  | none => return none
  | some dirEntry => do
    let header ← exportHeader image dirEntry
    let moduleName ← moduleName image header
    let entries ← Checked.collect (wrappingEntry image dirEntry header) 0 header.numFuncs.toNat
    let names ← Checked.collect (wrappingName image header) 0 header.numNames.toNat
    return some { moduleName, ordinalBase := header.base, entries, names }

/-- `exports::parse` in a build with or without overflow checks. -/
def Exports.parseIn (overflowChecks : Bool) (image : PeImage) : Checked LoadError (Option ExportTable) :=
  if overflowChecks then parse image else parseWrapping image

end Quantum.Loader
