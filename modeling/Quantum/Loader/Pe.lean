import Quantum.Lib.Checked
import Quantum.Loader.Image

/-!
# PE headers

`PeFile::parse` and the section table.  A `usize` has 64 bits.  The additions are those of the source
and panic when they overflow; whether they can is a question for the proofs.
-/

namespace Quantum.Loader

/-- `quantum_core::Error`, as far as the loader returns it. -/
inductive LoadError where
  | malformed (what : String) (offset : Nat)
  | unsupported (what : String)
  | host (syscall : String) (code : Int)
  deriving DecidableEq

abbrev Bytes := List (BitVec 8)

/-! ### Reading -/

/-- `u16::from_le_bytes`. -/
def le16 (b : Bytes) : BitVec 16 :=
  b.getD 1 0 ++ b.getD 0 0

/-- `u64::from_le_bytes`. -/
def le64 (b : Bytes) : BitVec 64 :=
  le32 (b.drop 4) ++ le32 b

/-- `b.get(start..stop)`. -/
def getRange (b : Bytes) (start stop : BitVec 64) : Option Bytes :=
  if start ≤ stop ∧ stop.toNat ≤ b.length then
    some ((b.drop start.toNat).take (stop.toNat - start.toNat))
  else
    none

/-- A little-endian number of `n` bytes at `off`. -/
def readLe {α : Type} (n : Nat) (ofLe : Bytes → α) (what : String) (b : Bytes) (off : BitVec 64) :
    Checked LoadError α := do
  let stop ← Checked.add off (BitVec.ofNat 64 n)
  let s ← Checked.okOr (getRange b off stop) (.malformed what off.toNat)
  let s ← Checked.slice s 0 n
  return ofLe s

def readU16 : Bytes → BitVec 64 → Checked LoadError (BitVec 16) :=
  readLe 2 le16 "u16 read"

def readU32 : Bytes → BitVec 64 → Checked LoadError (BitVec 32) :=
  readLe 4 le32 "u32 read"

def readU64 : Bytes → BitVec 64 → Checked LoadError (BitVec 64) :=
  readLe 8 le64 "u64 read"

/-- The number of type `α` at `off + k`. -/
def readAt {α : Type} (read : Bytes → BitVec 64 → Checked LoadError α) (b : Bytes)
    (off k : BitVec 64) : Checked LoadError α := do
  let off ← Checked.add off k
  read b off

/-! ### Headers -/

inductive PeKind where
  | pe32
  | pe32Plus
  deriving DecidableEq

structure CoffHeader where
  machine : BitVec 16
  numberOfSections : BitVec 16
  timeDateStamp : BitVec 32
  pointerToSymbolTable : BitVec 32
  numberOfSymbols : BitVec 32
  sizeOfOptionalHeader : BitVec 16
  characteristics : BitVec 16
  deriving DecidableEq

structure DataDirectory where
  virtualAddress : BitVec 32
  size : BitVec 32
  deriving DecidableEq

structure OptionalHeader where
  kind : PeKind
  addressOfEntryPoint : BitVec 32
  imageBase : BitVec 64
  sectionAlignment : BitVec 32
  fileAlignment : BitVec 32
  sizeOfImage : BitVec 32
  sizeOfHeaders : BitVec 32
  subsystem : BitVec 16
  numberOfRvaAndSizes : BitVec 32
  dataDirectories : List DataDirectory
  deriving DecidableEq

structure SectionHeader where
  name : Bytes
  virtualSize : BitVec 32
  virtualAddress : BitVec 32
  sizeOfRawData : BitVec 32
  pointerToRawData : BitVec 32
  characteristics : BitVec 32
  deriving DecidableEq

structure PeFile where
  bytes : Bytes
  peHeaderOffset : BitVec 64
  coff : CoffHeader
  opt : OptionalHeader
  sectionsOffset : BitVec 64
  deriving DecidableEq

def DOS_SIG : BitVec 16 := 0x5A4D
def PE_SIG : BitVec 32 := 0x4550
def OPT_MAGIC_PE32 : BitVec 16 := 0x010B
def OPT_MAGIC_PE32PLUS : BitVec 16 := 0x020B

def parseCoff (bytes : Bytes) (coffOff : BitVec 64) : Checked LoadError CoffHeader := do
  let machine ← readU16 bytes coffOff
  let numberOfSections ← readAt readU16 bytes coffOff 2
  let timeDateStamp ← readAt readU32 bytes coffOff 4
  let pointerToSymbolTable ← readAt readU32 bytes coffOff 8
  let numberOfSymbols ← readAt readU32 bytes coffOff 12
  let sizeOfOptionalHeader ← readAt readU16 bytes coffOff 16
  let characteristics ← readAt readU16 bytes coffOff 18
  return { machine, numberOfSections, timeDateStamp, pointerToSymbolTable, numberOfSymbols,
           sizeOfOptionalHeader, characteristics }

/-- An entry of the data directories. -/
def parseDataDirectory (bytes : Bytes) (dataDirOff : BitVec 64) (i : Nat) :
    Checked LoadError DataDirectory := do
  let rel ← Checked.mul (BitVec.ofNat 64 i) 8
  let entryOff ← Checked.add dataDirOff rel
  let virtualAddress ← readU32 bytes entryOff
  let size ← readAt readU32 bytes entryOff 4
  return { virtualAddress, size }

/-- Where the number of data directories lies, from `fixed_off` on. -/
def PeKind.numberOfRvaAndSizesOff : PeKind → BitVec 64
  | .pe32 => 60
  | .pe32Plus => 76

/-- Where the data directories lie. -/
def PeKind.dataDirOff : PeKind → BitVec 64
  | .pe32 => 64
  | .pe32Plus => 80

/-- The image base has 32 bits in a PE32 file. -/
def parseImageBase (bytes : Bytes) (off : BitVec 64) (kind : PeKind) :
    Checked LoadError (BitVec 64) :=
  match kind with
  | .pe32 => (readAt readU32 bytes off 28).map fun ib => ib.setWidth 64
  | .pe32Plus => readAt readU64 bytes off 24

def parseOptional (bytes : Bytes) (off : BitVec 64) (kind : PeKind) :
    Checked LoadError OptionalHeader := do
  let addressOfEntryPoint ← readAt readU32 bytes off 16
  let imageBase ← parseImageBase bytes off kind
  let fixedOff ← Checked.add off 32
  let sectionAlignment ← readU32 bytes fixedOff
  let fileAlignment ← readAt readU32 bytes fixedOff 4
  let sizeOfImage ← readAt readU32 bytes fixedOff 24
  let sizeOfHeaders ← readAt readU32 bytes fixedOff 28
  let subsystem ← readAt readU16 bytes fixedOff 36
  let numberOfRvaAndSizesOff ← Checked.add fixedOff kind.numberOfRvaAndSizesOff
  let dataDirOff ← Checked.add fixedOff kind.dataDirOff
  let numberOfRvaAndSizes ← readU32 bytes numberOfRvaAndSizesOff
  let count := min numberOfRvaAndSizes.toNat 16
  let entries ← Checked.collect (parseDataDirectory bytes dataDirOff) 0 count
  return { kind, addressOfEntryPoint, imageBase, sectionAlignment, fileAlignment, sizeOfImage,
           sizeOfHeaders, subsystem, numberOfRvaAndSizes
           dataDirectories := entries ++ List.replicate (16 - count) ⟨0, 0⟩ }

def peKind (magic : BitVec 16) : Option PeKind :=
  if magic = OPT_MAGIC_PE32 then some .pe32
  else if magic = OPT_MAGIC_PE32PLUS then some .pe32Plus
  else none

def PeFile.parse (bytes : Bytes) : Checked LoadError PeFile := do
  let dosSig ← readU16 bytes 0
  Checked.ensure (dosSig = DOS_SIG) (.malformed "DOS signature" 0)
  let lfanew ← readU32 bytes 0x3C
  let eLfanew := lfanew.setWidth 64
  let peSig ← readU32 bytes eLfanew
  Checked.ensure (peSig = PE_SIG) (.malformed "PE signature" eLfanew.toNat)
  let coffOff ← Checked.add eLfanew 4
  let coff ← parseCoff bytes coffOff
  let optOff ← Checked.add coffOff 20
  let magic ← readU16 bytes optOff
  let kind ← Checked.okOr (peKind magic) (.malformed "optional header magic" optOff.toNat)
  let opt ← parseOptional bytes optOff kind
  let sectionsOffset ← Checked.add optOff (coff.sizeOfOptionalHeader.setWidth 64)
  let tableSize ← Checked.mul 40 (coff.numberOfSections.setWidth 64)
  let sectionsEnd ← Checked.add sectionsOffset tableSize
  Checked.ensure (sectionsEnd.toNat ≤ bytes.length)
    (.malformed "section table" sectionsOffset.toNat)
  return { bytes, coff, opt, sectionsOffset, peHeaderOffset := eLfanew }

/-! ### The section table -/

/-- `SectionIter::next` at a file offset; `none` ends the iteration. -/
def SectionHeader.read (bytes : Bytes) (off : Nat) : Option SectionHeader :=
  if off + 40 ≤ bytes.length then
    let field := fun k => le32 (bytes.drop (off + k))
    some {
      name := (bytes.drop off).take 8
      virtualSize := field 8
      virtualAddress := field 12
      sizeOfRawData := field 16
      pointerToRawData := field 20
      characteristics := field 36 }
  else
    none

/-- The items of a `SectionIter`. -/
def sectionIter (bytes : Bytes) : Nat → Nat → List SectionHeader
  | _, 0 => []
  | off, remaining + 1 =>
    match SectionHeader.read bytes off with
    | some sh => sh :: sectionIter bytes (off + 40) remaining
    | none => []

def PeFile.sections (pe : PeFile) : List SectionHeader :=
  sectionIter pe.bytes pe.sectionsOffset.toNat pe.coff.numberOfSections.toNat

end Quantum.Loader
