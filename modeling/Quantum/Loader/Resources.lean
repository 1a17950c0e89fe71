import Quantum.Loader.Exports

/-!
# Resource directory

`resources::parse`.  A directory has entries that are directories or data; the offsets in it are from
the start of the whole tree.
-/

namespace Quantum.Loader.Resources

/-- `dir::RESOURCE`. -/
def dirResource : Nat := 2

def DIR_HEADER_SIZE : BitVec 32 := 16
def DIR_ENTRY_SIZE : BitVec 32 := 8
def DATA_ENTRY_SIZE : BitVec 32 := 16

inductive ResourceId where
  | name (name : String)
  | integer (id : BitVec 32)
  deriving DecidableEq

structure ResourceData where
  dataRva : BitVec 32
  size : BitVec 32
  codePage : BitVec 32
  deriving DecidableEq

mutual

inductive ResourceDir where
  | mk (characteristics timeDateStamp : BitVec 32) (majorVersion minorVersion : BitVec 16)
    (entries : List ResourceEntry)

inductive ResourceEntry where
  | mk (id : ResourceId) (kind : ResourceKind)

inductive ResourceKind where
  | dir (dir : ResourceDir)
  | data (data : ResourceData)

end

structure ResourceTree where
  root : ResourceDir

/-- `char::from_u32`. -/
def charFromU32 (u : BitVec 32) : Option Char :=
  if h : u.toNat.isValidChar then some ⟨UInt32.ofBitVec u, h⟩ else none

/-- The loop over the characters of a name; halves of a surrogate pair are left out. -/
def decodeName (charsBytes : Bytes) : Checked LoadError String := do
  let units ← Checked.collect (fun i => u16At charsBytes (2 * i)) 0 ((charsBytes.length + 1) / 2)
  return String.ofList (units.filterMap fun u => charFromU32 (u.setWidth 32))

def parseId (image : PeImage) (baseRva idRaw : BitVec 32) : Checked LoadError ResourceId :=
  if idRaw &&& 0x80000000 ≠ 0 then do
    let nameOff ← Checked.add baseRva (idRaw &&& 0x7FFFFFFF)
    let lenBytes ← image.sliceOr nameOff 2 (.malformed "resource name len" nameOff.toNat)
    let len ← u16At lenBytes 0
    let bodyOff ← Checked.add nameOff 2
    let bodyLen ← Checked.mul (len.setWidth 64) (2 : BitVec 64)
    let charsBytes ← image.sliceOr bodyOff bodyLen.toNat
      (.malformed "resource name body" nameOff.toNat)
    let name ← decodeName charsBytes
    return .name name
  else return .integer idRaw

def parseData (image : PeImage) (baseRva kindRaw : BitVec 32) : Checked LoadError ResourceData := do
  let dataOff ← Checked.add baseRva kindRaw
  let dataBytes ← image.sliceOr dataOff DATA_ENTRY_SIZE.toNat
    (.malformed "resource data entry" dataOff.toNat)
  let dataRva ← u32At dataBytes 0
  let size ← u32At dataBytes 4
  let codePage ← u32At dataBytes 8
  return { dataRva, size, codePage }

/-- The `i`-th entry of a directory.  `child` parses the directory at an RVA. -/
def parseEntry (image : PeImage) (baseRva dirRva : BitVec 32)
    (child : BitVec 32 → Checked LoadError ResourceDir) (i : Nat) :
    Checked LoadError ResourceEntry := do
  let first ← Checked.add dirRva DIR_HEADER_SIZE
  let rel ← Checked.mul (BitVec.ofNat 32 i) DIR_ENTRY_SIZE
  let off ← Checked.add first rel
  let entryBytes ← image.sliceOr off DIR_ENTRY_SIZE.toNat (.malformed "resource entry oob" off.toNat)
  let idRaw ← u32At entryBytes 0
  let kindRaw ← u32At entryBytes 4
  let id ← parseId image baseRva idRaw
  if kindRaw &&& 0x80000000 ≠ 0 then
    let childRva ← Checked.add baseRva (kindRaw &&& 0x7FFFFFFF)
    let dir ← child childRva
    return .mk id (.dir dir)
  else
    let data ← parseData image baseRva kindRaw
    return .mk id (.data data)

/-- `parse_dir`.  Directories are at most six deep; `left` is how many levels are left, the own one
included. -/
def parseDir (image : PeImage) (baseRva : BitVec 32) : Nat → BitVec 32 → Checked LoadError ResourceDir
  | 0, dirRva => Checked.fail (.malformed "resource depth" dirRva.toNat)
  | left + 1, dirRva => do
    let bytes ← image.sliceOr dirRva DIR_HEADER_SIZE.toNat
      (.malformed "resource dir header" dirRva.toNat)
    let characteristics ← u32At bytes 0
    let timeDateStamp ← u32At bytes 4
    let majorVersion ← u16At bytes 8
    let minorVersion ← u16At bytes 10
    let named ← u16At bytes 12
    let id ← u16At bytes 14
    let total ← Checked.add (named.setWidth 32) (id.setWidth 32)
    let entries ← Checked.collect
      (parseEntry image baseRva dirRva (parseDir image baseRva left)) 0 total.toNat
    return .mk characteristics timeDateStamp majorVersion minorVersion entries

def parse (image : PeImage) : Checked LoadError (Option ResourceTree) :=
  match image.dataDir dirResource with
  | none => return none
  | some dirEntry => do
    let root ← parseDir image dirEntry.virtualAddress 6 dirEntry.virtualAddress
    return some { root }

end Quantum.Loader.Resources
