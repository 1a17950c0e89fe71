import Mathlib.Data.BitVec

/-!
# Loaded images

The mapped memory of an image, addressed by RVA.
-/

namespace Quantum.Loader

/-- `LoadedImage`: the base it is mapped at, the length of its region and the bytes there. -/
structure LoadedImage where
  actualBase : BitVec 64
  len : Nat
  byte : Nat → BitVec 8

/-- `len` bytes at `rva`, if they lie in the region. -/
def LoadedImage.rvaToSlice (image : LoadedImage) (rva : BitVec 32) (len : Nat) :
    Option (List (BitVec 8)) :=
  if rva.toNat + len ≤ image.len then
    some ((List.range len).map fun i => image.byte (rva.toNat + i))
  else
    none

/-- `u32::from_le_bytes`. -/
def le32 (b : List (BitVec 8)) : BitVec 32 :=
  b.getD 3 0 ++ b.getD 2 0 ++ b.getD 1 0 ++ b.getD 0 0

end Quantum.Loader
