import Quantum.Lib.ByteMem
import Quantum.Loader.Pe

/-!
# Mapping a file

`load` of the loader's `image.rs`.  It asks the memory manager for a region, first at the preferred
base and then anywhere, and copies the headers and the sections there.  The host memory is explicit:
the result is the image or an error, and the memory afterwards.
-/

namespace Quantum.Loader

structure MappedSection where
  name : Bytes
  rva : BitVec 32
  vsize : BitVec 32
  rawSize : BitVec 32
  characteristics : BitVec 32
  deriving DecidableEq

inductive Bitness where
  | x86
  | x86_64
  deriving DecidableEq

/-- A `LoadedImage` with what `load` keeps of the headers.  A region has at most 2 GiB. -/
structure PeImage extends LoadedImage where
  preferredBase : BitVec 64
  sizeOfImage : BitVec 32
  sizeOfHeaders : BitVec 32
  entryRva : BitVec 32
  subsystem : BitVec 16
  bitness : Bitness
  sections : List MappedSection
  dataDirectories : List DataDirectory
  len_le : len ≤ 2 ^ 31

/-- A data directory that is present. -/
def PeImage.dataDir (image : PeImage) (index : Nat) : Option DataDirectory :=
  image.dataDirectories[index]?.filter fun d => d.virtualAddress ≠ 0 ∧ d.size ≠ 0

/-! ### Host memory -/

/-- `MemoryManager::allocate` for a writable region: its base, and the memory afterwards.  The length
of the region is the size that was asked for. -/
structure MemoryManager where
  allocate : Option (BitVec 64) → Nat → ByteMem → Except LoadError (BitVec 64 × ByteMem)

structure Region where
  base : BitVec 64
  len : Nat

/-- `ptr::copy_nonoverlapping`. -/
def copyNonoverlapping (mem : ByteMem) (src : Bytes) (dst : BitVec 64) : ByteMem :=
  fun a => if (a - dst).toNat < src.length then src.getD (a - dst).toNat 0 else mem a

/-- `ptr::write_bytes`. -/
def writeBytes (mem : ByteMem) (dst : BitVec 64) (val : BitVec 8) (count : Nat) : ByteMem :=
  fun a => if (a - dst).toNat < count then val else mem a

/-! ### Copying -/

def copyHeaders (mem : ByteMem) (raw : Bytes) (headersLen : Nat) (region : Region) : ByteMem :=
  let copyFromHeader := min headersLen raw.length
  let mem := copyNonoverlapping mem (raw.take copyFromHeader) region.base
  if copyFromHeader < headersLen then
    writeBytes mem (region.base + BitVec.ofNat 64 copyFromHeader) 0 (headersLen - copyFromHeader)
  else mem

/-- The sums of 32-bit numbers do not overflow a `usize`. -/
def copySection (mem : ByteMem) (sh : SectionHeader) (raw : Bytes) (region : Region) :
    Except LoadError Unit × ByteMem :=
  let dstOff := sh.virtualAddress.toNat
  let vsize := max sh.virtualSize.toNat sh.sizeOfRawData.toNat
  let rawOff := sh.pointerToRawData.toNat
  let rawSize := sh.sizeOfRawData.toNat
  if region.len < dstOff + vsize then (.error (.malformed "section virtual range" dstOff), mem)
  else
    let dst := region.base + BitVec.ofNat 64 dstOff
    if 0 < rawSize ∧ raw.length < rawOff + rawSize then
      (.error (.malformed "section raw oob" rawOff), mem)
    else
      let mem :=
        if 0 < rawSize then copyNonoverlapping mem ((raw.drop rawOff).take rawSize) dst else mem
      let mem :=
        -- zero-fill the rest of the section
        if rawSize < vsize then
          writeBytes mem (dst + BitVec.ofNat 64 rawSize) 0 (vsize - rawSize)
        else mem
      (.ok (), mem)

def SectionHeader.mapped (sh : SectionHeader) : MappedSection :=
  ⟨sh.name, sh.virtualAddress, sh.virtualSize, sh.sizeOfRawData, sh.characteristics⟩

/-- The loop over the sections. -/
def copySections (raw : Bytes) (region : Region) :
    List SectionHeader → ByteMem → Except LoadError (List MappedSection) × ByteMem
  | [], mem => (.ok [], mem)
  | sh :: shs, mem =>
    match copySection mem sh raw region with
    | (.error e, mem) => (.error e, mem)
    | (.ok _, mem) =>
      let (r, mem) := copySections raw region shs mem
      (r.map (sh.mapped :: ·), mem)

/-- What `load` does once it has its region. -/
def mapImage (pe : PeFile) (base : BitVec 64) (hsize : pe.opt.sizeOfImage.toNat ≤ 2 ^ 31)
    (mem : ByteMem) : Except LoadError PeImage × ByteMem :=
  let region : Region := ⟨base, pe.opt.sizeOfImage.toNat⟩
  let headersLen := pe.opt.sizeOfHeaders.toNat
  if region.len < headersLen then (.error (.malformed "size_of_headers" 0), mem)
  else
    let mem := copyHeaders mem pe.bytes headersLen region
    let (r, mem) := copySections pe.bytes region pe.sections mem
    (r.map fun sections => {
      actualBase := base
      len := pe.opt.sizeOfImage.toNat
      byte := fun i => mem (base + BitVec.ofNat 64 i)
      preferredBase := pe.opt.imageBase
      sizeOfImage := pe.opt.sizeOfImage
      sizeOfHeaders := pe.opt.sizeOfHeaders
      entryRva := pe.opt.addressOfEntryPoint
      subsystem := pe.opt.subsystem
      bitness := match pe.opt.kind with | .pe32 => .x86 | .pe32Plus => .x86_64
      sections := sections
      dataDirectories := pe.opt.dataDirectories
      len_le := hsize }, mem)

/-- The region for an image: at the preferred base, or else anywhere. -/
def allocateImage (mm : MemoryManager) (pe : PeFile) (mem : ByteMem) :
    Except LoadError (BitVec 64 × ByteMem) :=
  match mm.allocate (some pe.opt.imageBase) pe.opt.sizeOfImage.toNat mem with
  | .ok r => .ok r
  | .error _ => mm.allocate none pe.opt.sizeOfImage.toNat mem

def load (mm : MemoryManager) (pe : PeFile) (mem : ByteMem) : Except LoadError PeImage × ByteMem :=
  if h : pe.opt.sizeOfImage.toNat ≠ 0 ∧ pe.opt.sizeOfImage.toNat ≤ 2 ^ 31 then
    match allocateImage mm pe mem with
    | .ok (base, mem) => mapImage pe base h.2 mem
    | .error e => (.error e, mem)
  else (.error (.malformed "size_of_image" 0), mem)

end Quantum.Loader
