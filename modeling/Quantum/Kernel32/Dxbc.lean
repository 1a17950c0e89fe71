import Quantum.Lib.Checked
import Quantum.Loader.Image

/-!
# DXBC containers

The container of a shader: a header, a table of offsets and the chunks they point to.  A `usize` has 64
bits.  Additions panic when they overflow and slices when they are out of range; whether they can is a
question for the proofs.
-/

namespace Quantum.Kernel32.Dxbc

open Loader (le32)

abbrev Bytes := List (BitVec 8)

/-- `[u8; 4]`. -/
abbrev Fourcc := BitVec 8 × BitVec 8 × BitVec 8 × BitVec 8

inductive DxbcError where
  | tooShort
  | badMagic
  | badVersion
  | sizeMismatch
  | chunkOob (idx : ℕ) (offset size : BitVec 32)
  | tooManyChunks (count : BitVec 32)
  deriving DecidableEq

structure Chunk where
  fourcc : Fourcc
  payloadOffset : BitVec 64
  payloadSize : BitVec 64
  deriving DecidableEq

structure Container where
  totalSize : BitVec 64
  chunks : List Chunk
  deriving DecidableEq

def HEADER_FIXED_LEN : BitVec 64 := 0x20

/-- `b"DXBC"`. -/
def MAGIC : Bytes := [0x44, 0x58, 0x42, 0x43]

/-- `&bytes[start..start + n]`. -/
def sliceAt (bytes : Bytes) (start n : BitVec 64) : Checked DxbcError Bytes := do
  let _ ← Checked.add start n
  Checked.slice bytes start.toNat n.toNat

/-- `u32::from_le_bytes` of the four bytes from `start` on. -/
def u32At (bytes : Bytes) (start : BitVec 64) : Checked DxbcError (BitVec 32) := do
  let s ← sliceAt bytes start 4
  return le32 s

def Fourcc.ofBytes (s : Bytes) : Fourcc := (s.getD 0 0, s.getD 1 0, s.getD 2 0, s.getD 3 0)

/-- `Chunk::payload`. -/
def Chunk.payload (c : Chunk) (bytes : Bytes) : Checked DxbcError Bytes :=
  sliceAt bytes c.payloadOffset c.payloadSize

/-- One iteration of the loop in `parse`. -/
def parseChunk (bytes : Bytes) (i : ℕ) : Checked DxbcError Chunk := do
  let rel ← Checked.mul (BitVec.ofNat 64 i) 4
  let entryOff ← Checked.add HEADER_FIXED_LEN rel
  let off ← u32At bytes entryOff
  let chunkOff := off.setWidth 64
  let payloadOffset ← Checked.add chunkOff 8
  Checked.ensure (payloadOffset.toNat ≤ bytes.length) (.chunkOob i off 0)
  let fourcc ← sliceAt bytes chunkOff 4
  let sizeOff ← Checked.add chunkOff 4
  let size ← u32At bytes sizeOff
  let payloadSize := size.setWidth 64
  let payloadEnd ← Checked.add payloadOffset payloadSize
  Checked.ensure (payloadEnd.toNat ≤ bytes.length) (.chunkOob i off size)
  return { fourcc := Fourcc.ofBytes fourcc, payloadOffset, payloadSize }

/-- `parse`. -/
def parse (bytes : Bytes) : Checked DxbcError Container := do
  Checked.ensure (HEADER_FIXED_LEN.toNat ≤ bytes.length) .tooShort
  let magic ← sliceAt bytes 0 4
  Checked.ensure (magic = MAGIC) .badMagic
  let one ← u32At bytes 0x14
  Checked.ensure (one = 1) .badVersion
  let totalSize ← u32At bytes 0x18
  Checked.ensure (totalSize.toNat = bytes.length) .sizeMismatch
  let chunkCount ← u32At bytes 0x1C
  let tableLen ← Checked.mul (chunkCount.setWidth 64) 4
  -- `checked_add`, and the comparison with the length.
  Checked.ensure (HEADER_FIXED_LEN.toNat + tableLen.toNat < 2 ^ 64) (.tooManyChunks chunkCount)
  Checked.ensure (HEADER_FIXED_LEN.toNat + tableLen.toNat ≤ bytes.length) (.tooManyChunks chunkCount)
  let chunks ← Checked.collect (parseChunk bytes) 0 chunkCount.toNat
  return { totalSize := totalSize.setWidth 64, chunks }

/-! ### The layout of a container -/

/-- `to_le_bytes` of a `usize` cut to 32 bits. -/
def u32Bytes (n : ℕ) : Bytes :=
  let v := BitVec.ofNat 32 n
  [v.extractLsb' 0 8, v.extractLsb' 8 8, v.extractLsb' 16 8, v.extractLsb' 24 8]

def Fourcc.bytes (f : Fourcc) : Bytes := [f.1, f.2.1, f.2.2.1, f.2.2.2]

/-- A chunk with its header. -/
def chunkBytes (c : Fourcc × Bytes) : Bytes := Fourcc.bytes c.1 ++ u32Bytes c.2.length ++ c.2

/-- Where the chunks start, if the first one starts at `off`. -/
def chunkOffsets : ℕ → List (Fourcc × Bytes) → List ℕ
  | _, [] => []
  | off, c :: cs => off :: chunkOffsets (off + (8 + c.2.length)) cs

def totalSize (chunks : List (Fourcc × Bytes)) : ℕ :=
  0x20 + chunks.length * 4 + (chunks.map fun c => 8 + c.2.length).sum

/-- `build_container`, with any hash. -/
def buildContainer (hash : Fin 16 → BitVec 8) (chunks : List (Fourcc × Bytes)) : Bytes :=
  MAGIC ++ List.ofFn hash ++ u32Bytes 1 ++ u32Bytes (totalSize chunks) ++ u32Bytes chunks.length ++
    (chunkOffsets (0x20 + chunks.length * 4) chunks).flatMap u32Bytes ++ chunks.flatMap chunkBytes

end Quantum.Kernel32.Dxbc
