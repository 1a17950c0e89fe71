import Quantum.Lib.LeWord
import Quantum.Loader.Load

/-!
# Base relocations

`reloc::apply`.  The directory is a sequence of blocks, each with the RVA of a page, its own size and
entries of 16 bits: a type and an offset in the page.  The image is changed in place, so the result is
the image afterwards and the statistics or an error.
-/

namespace Quantum.Loader

/-- `u32::saturating_add`. -/
def saturatingAdd (x y : BitVec 32) : BitVec 32 :=
  if x.toNat + y.toNat < 2 ^ 32 then x + y else BitVec.allOnes 32

/-- `dir::BASERELOC`. -/
def dirBasereloc : Nat := 5

def REL_ABSOLUTE : BitVec 16 := 0
def REL_HIGHLOW : BitVec 16 := 3
def REL_DIR64 : BitVec 16 := 10

/-- The counters stay below the number of bytes of the directory. -/
structure RelocStats where
  blocks : Nat := 0
  absolute : Nat := 0
  dir64 : Nat := 0
  highlow : Nat := 0
  deriving DecidableEq

/-- Write the low `n` bytes of a value in place. -/
def PeImage.write {w : Nat} (image : PeImage) (n : Nat) (rva : BitVec 32) (v : BitVec w) : PeImage :=
  { image with byte := LeWord.store n image.byte rva.toNat v }

/-- The type of an entry. -/
def relocType (raw : BitVec 16) : BitVec 16 :=
  (raw >>> 12) &&& 0xF

/-- The offset of an entry in its page. -/
def relocOffset (raw : BitVec 16) : BitVec 32 :=
  (raw &&& 0x0FFF).setWidth 32

/-- The loop over the entries of a block. -/
def applyEntries (delta : BitVec 64) (pageRva : BitVec 32) :
    List (BitVec 16) → PeImage → RelocStats → PeImage × Except LoadError RelocStats
  | [], image, stats => (image, .ok stats)
  | raw :: entries, image, stats =>
    let ty := relocType raw
    let targetRva := saturatingAdd pageRva (relocOffset raw)
    if ty = REL_ABSOLUTE then
      applyEntries delta pageRva entries image { stats with absolute := stats.absolute + 1 }
    else if ty = REL_DIR64 then
      match image.rvaToSlice targetRva 8 with
      | none => (image, .error (.malformed "DIR64 oob" targetRva.toNat))
      | some slot =>
        applyEntries delta pageRva entries (image.write 8 targetRva (le64 slot + delta))
          { stats with dir64 := stats.dir64 + 1 }
    else if ty = REL_HIGHLOW then
      match image.rvaToSlice targetRva 4 with
      | none => (image, .error (.malformed "HIGHLOW oob" targetRva.toNat))
      | some slot =>
        applyEntries delta pageRva entries
          (image.write 4 targetRva (le32 slot + delta.setWidth 32))
          { stats with highlow := stats.highlow + 1 }
    else
      (image, .error
        (.unsupported "unsupported base relocation type (HIGH/LOW/HIGHADJ are PE32-era)"))

/-- What `apply` finds at the cursor: the page, the size of the block and its entries. -/
def readBlock (image : PeImage) (cursor stop : BitVec 32) :
    Except LoadError (BitVec 32 × BitVec 32 × List (BitVec 16)) :=
  match image.rvaToSlice cursor 8 with
  | none => .error (.malformed "reloc block header" cursor.toNat)
  | some header =>
    let pageRva := le32 header
    let blockSize := le32 (header.drop 4)
    let entryCount := (blockSize.toNat - 8) / 2
    let entriesOff := cursor + 8
    if blockSize < 8 then .error (.malformed "reloc block_size < 8" cursor.toNat)
    else if stop < saturatingAdd cursor blockSize then
      .error (.malformed "reloc block past dir" cursor.toNat)
    else if 2048 < entryCount then .error (.malformed "reloc block oversized" cursor.toNat)
    else
      match image.rvaToSlice entriesOff (entryCount * 2) with
      | none => .error (.malformed "reloc entries" entriesOff.toNat)
      | some raw =>
        .ok (pageRva, blockSize, (List.range entryCount).map fun i => le16 (raw.drop (i * 2)))

/-- The cursor moves on, and not past the end. -/
theorem lt_of_readBlock {image : PeImage} {cursor stop pageRva blockSize : BitVec 32}
    {entries : List (BitVec 16)} (hlt : cursor < stop)
    (h : readBlock image cursor stop = .ok (pageRva, blockSize, entries)) :
    cursor.toNat < (saturatingAdd cursor blockSize).toNat ∧
      (saturatingAdd cursor blockSize).toNat ≤ stop.toNat := by
  unfold readBlock at h
  split at h
  · cases h
  · dsimp only at h
    split at h
    · cases h
    · rename_i hsize
      split at h
      · cases h
      · rename_i hpast
        split at h
        · cases h
        · split at h
          · cases h
          · injection h with h
            obtain ⟨-, rfl, -⟩ := h
            rw [BitVec.lt_def] at hlt hsize hpast
            refine ⟨?_, not_lt.mp hpast⟩
            have h8 : (8 : BitVec 32).toNat = 8 := rfl
            have hstop := stop.isLt
            unfold saturatingAdd
            split
            · rename_i hno
              rw [BitVec.toNat_add, Nat.mod_eq_of_lt hno]
              omega
            · rw [BitVec.toNat_allOnes]
              omega

/-- The loop over the blocks. -/
def applyBlocks (delta : BitVec 64) (stop cursor : BitVec 32) (image : PeImage)
    (stats : RelocStats) : PeImage × Except LoadError RelocStats :=
  if _ : cursor < stop then
    match _ : readBlock image cursor stop with
    | .error e => (image, .error e)
    | .ok (pageRva, blockSize, entries) =>
      match applyEntries delta pageRva entries image { stats with blocks := stats.blocks + 1 } with
      | (image, .error e) => (image, .error e)
      | (image, .ok stats) =>
        applyBlocks delta stop (saturatingAdd cursor blockSize) image stats
  else (image, .ok stats)
termination_by stop.toNat - cursor.toNat
decreasing_by
  have := lt_of_readBlock ‹cursor < stop› ‹_›
  omega

/-- `reloc::apply`. -/
def Reloc.apply (image : PeImage) : PeImage × Except LoadError RelocStats :=
  let delta := image.actualBase - image.preferredBase
  if delta = 0 then (image, .ok {})
  else
    match image.dataDir dirBasereloc with
    | none => (image, .ok {})
    | some dir =>
      applyBlocks delta (saturatingAdd dir.virtualAddress dir.size) dir.virtualAddress image {}

end Quantum.Loader
