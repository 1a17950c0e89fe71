import Quantum.Kernel32.Dxbc
import Quantum.Kernel32.Instructions

/-!
# Signatures

`parse_signature`: an `ISGN` or `OSGN` chunk, with its elements as records of 24 bytes that refer to their
names by offset.  A `usize` has 64 bits; additions, multiplications and slices panic as the source's do.  A
`String` is the list of its characters.
-/

namespace Quantum.Kernel32.Dxbc

open Loader (le32)

inductive ComponentType where
  | uint32
  | sint32
  | float32
  | unknown (raw : BitVec 32)
  deriving DecidableEq

def ComponentType.fromRaw (v : BitVec 32) : ComponentType :=
  match v with
  | 1 => .uint32
  | 2 => .sint32
  | 3 => .float32
  | other => .unknown other

structure SignatureElement where
  semanticName : List Char
  semanticIndex : BitVec 32
  systemValue : BitVec 32
  componentType : ComponentType
  register : BitVec 32
  mask : BitVec 8
  usedMask : BitVec 8
  deriving DecidableEq

/-- `read_u32`: the word at `base + off`. -/
def readU32 (chunkPayload : Bytes) (base off : BitVec 64) : Checked DecodeError (BitVec 32) := do
  let start ← Checked.add base off
  let _ ← Checked.add start 4
  let s ← Checked.slice chunkPayload start.toNat 4
  return le32 s

/-- `b as char`. -/
def charOfByte (b : BitVec 8) : Char := Char.ofNat b.toNat

/-- The characters up to the first zero byte, or none if the offset is out of range. -/
def readName (chunkPayload : Bytes) (nameOff : BitVec 64) : Checked DecodeError (List Char) :=
  if nameOff.toNat < chunkPayload.length then do
    let tail ← Checked.slice chunkPayload nameOff.toNat (chunkPayload.length - nameOff.toNat)
    return (tail.takeWhile (· != 0)).map charOfByte
  else return []

/-- One iteration of the loop in `parse_signature`. -/
def parseElement (chunkPayload : Bytes) (elemStart : BitVec 64) (i : ℕ) :
    Checked DecodeError SignatureElement := do
  let rel ← Checked.mul (BitVec.ofNat 64 i) 24
  let base ← Checked.add elemStart rel
  let nameOff ← readU32 chunkPayload base 0
  let semanticIndex ← readU32 chunkPayload base 4
  let systemValue ← readU32 chunkPayload base 8
  let componentRaw ← readU32 chunkPayload base 12
  let register ← readU32 chunkPayload base 16
  let maskDword ← readU32 chunkPayload base 20
  let semanticName ← readName chunkPayload (nameOff.setWidth 64)
  return {
    semanticName
    semanticIndex
    systemValue
    componentType := ComponentType.fromRaw componentRaw
    register
    mask := (maskDword &&& 0x0F).setWidth 8
    usedMask := (maskDword >>> 8 &&& 0x0F).setWidth 8 }

/-- `parse_signature`. -/
def parseSignature (chunkPayload : Bytes) : Checked DecodeError (List SignatureElement) := do
  Checked.ensure (8 ≤ chunkPayload.length) .headerTooShort
  let countBytes ← Checked.slice chunkPayload 0 4
  let startBytes ← Checked.slice chunkPayload 4 4
  let count := (le32 countBytes).setWidth 64
  let elemStart := (le32 startBytes).setWidth 64
  let size ← Checked.mul count 24
  let stop ← Checked.add elemStart size
  Checked.ensure (stop.toNat ≤ chunkPayload.length) (.instructionOob elemStart.toNat (size.setWidth 32))
  Checked.collect (parseElement chunkPayload elemStart) 0 count.toNat

/-! ### The layout of a signature -/

def ComponentType.raw : ComponentType → BitVec 32
  | .uint32 => 1
  | .sint32 => 2
  | .float32 => 3
  | .unknown v => v

/-- `name.as_bytes()` of an ASCII name, and the terminator. -/
def nameBytes (e : SignatureElement) : Bytes :=
  e.semanticName.map (fun c => BitVec.ofNat 8 c.toNat) ++ [0]

def maskDword (e : SignatureElement) : BitVec 32 :=
  e.mask.setWidth 32 ||| e.usedMask.setWidth 32 <<< 8

/-- The record of an element whose name is at `nameOff`. -/
def recordBytes (nameOff : ℕ) (e : SignatureElement) : Bytes :=
  u32Bytes nameOff ++ u32Bytes e.semanticIndex.toNat ++ u32Bytes e.systemValue.toNat ++
    u32Bytes e.componentType.raw.toNat ++ u32Bytes e.register.toNat ++ u32Bytes (maskDword e).toNat

/-- The records, if the names start at `nameOff`. -/
def records : ℕ → List SignatureElement → Bytes
  | _, [] => []
  | nameOff, e :: es => recordBytes nameOff e ++ records (nameOff + (nameBytes e).length) es

def signatureSize (elements : List SignatureElement) : ℕ :=
  8 + elements.length * 24 + (elements.flatMap nameBytes).length

/-- `build_signature_payload`. -/
def buildSignaturePayload (elements : List SignatureElement) : Bytes :=
  u32Bytes elements.length ++ u32Bytes 8 ++ records (8 + elements.length * 24) elements ++
    elements.flatMap nameBytes

end Quantum.Kernel32.Dxbc
