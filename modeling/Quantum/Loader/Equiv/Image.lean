import Quantum.Lib.LeWord
import Quantum.Loader.Pe

/-!
# Words of an image

The parsers read an image through slices.  A slice that lies in the image holds its bytes, and the
numbers in it are the little-endian words of the image.
-/

namespace Quantum.Loader

open LeWord

/-! ### Numbers in a slice -/

theorem le16_eq_word {m : Nat → BitVec 8} {a : Nat} {s : Bytes}
    (h : ∀ i < 2, s.getD i 0 = m (a + i)) : le16 s = word 16 2 m a := by
  rw [le16, h 0 (by decide), h 1 (by decide)]
  refine BitVec.eq_of_getLsbD_eq fun i hi => ?_
  rw [getLsbD_word, BitVec.getLsbD_append]
  by_cases h8 : i < 8
  · rw [show i / 8 = 0 by omega, show i % 8 = i by omega]
    simp [h8, hi]
  · rw [show i / 8 = 1 by omega, show i % 8 = i - 8 by omega]
    simp [h8, hi]

theorem le32_eq_word {m : Nat → BitVec 8} {a : Nat} {s : Bytes}
    (h : ∀ i < 4, s.getD i 0 = m (a + i)) : le32 s = word 32 4 m a := by
  rw [le32, h 0 (by decide), h 1 (by decide), h 2 (by decide), h 3 (by decide)]
  refine BitVec.eq_of_getLsbD_eq fun i hi => ?_
  rw [getLsbD_word, BitVec.getLsbD_append, BitVec.getLsbD_append, BitVec.getLsbD_append]
  have hcases : i / 8 = 0 ∨ i / 8 = 1 ∨ i / 8 = 2 ∨ i / 8 = 3 := by omega
  rcases hcases with hq | hq | hq | hq
  · rw [hq, if_pos (by omega), show i % 8 = i by omega]
    simp [hi]
  · rw [hq, if_neg (by omega), if_pos (by omega), show i % 8 = i - 8 by omega]
    simp [hi]
  · rw [hq, if_neg (by omega), if_neg (by omega), if_pos (by omega),
      show i % 8 = i - 8 - 8 by omega]
    simp [hi]
  · rw [hq, if_neg (by omega), if_neg (by omega), if_neg (by omega),
      show i % 8 = i - 8 - 8 - 8 by omega]
    simp [hi]

theorem le64_eq_word {m : Nat → BitVec 8} {a : Nat} {s : Bytes}
    (h : ∀ i < 8, s.getD i 0 = m (a + i)) : le64 s = word 64 8 m a := by
  have hlow : le32 s = word 32 4 m a := le32_eq_word fun i hi => h i (by omega)
  have hhigh : le32 (s.drop 4) = word 32 4 m (a + 4) := le32_eq_word fun i hi => by
    have := h (4 + i) (by omega)
    rw [List.getD_eq_getElem?_getD, List.getElem?_drop, ← List.getD_eq_getElem?_getD, this]
    congr 1
    omega
  rw [le64, hlow, hhigh]
  refine BitVec.eq_of_getLsbD_eq fun i hi => ?_
  rw [getLsbD_word, BitVec.getLsbD_append, getLsbD_word, getLsbD_word]
  by_cases h32 : i < 32
  · rw [if_pos h32]
    simp [hi, h32]
  · rw [if_neg h32, show a + 4 + (i - 32) / 8 = a + i / 8 by omega,
      show (i - 32) % 8 = i % 8 by omega]
    simp [show i - 32 < 32 by omega, show i < 64 by omega]

/-! ### Slices of an image -/

namespace LoadedImage

variable {image : LoadedImage} {rva : BitVec 32} {n : Nat}

theorem rvaToSlice_of_le (h : rva.toNat + n ≤ image.len) :
    image.rvaToSlice rva n = some ((List.range n).map fun i => image.byte (rva.toNat + i)) :=
  if_pos h

theorem rvaToSlice_eq_some {s : Bytes} : image.rvaToSlice rva n = some s ↔
    rva.toNat + n ≤ image.len ∧ s = (List.range n).map fun i => image.byte (rva.toNat + i) := by
  unfold rvaToSlice
  split
  · rename_i h
    simp [h, eq_comm]
  · rename_i h
    simp [h]

/-- The word of 4 bytes that is read through a slice. -/
theorem le32_rvaToSlice (h : rva.toNat + 4 ≤ image.len) :
    (image.rvaToSlice rva 4).map le32 = some (word 32 4 image.byte rva.toNat) := by
  rw [rvaToSlice_of_le h]
  refine congrArg some (le32_eq_word fun i hi => ?_)
  rw [List.getD_eq_getElem?_getD, List.getElem?_map, List.getElem?_range hi]
  rfl

/-- The word of 8 bytes that is read through a slice. -/
theorem le64_rvaToSlice (h : rva.toNat + 8 ≤ image.len) :
    (image.rvaToSlice rva 8).map le64 = some (word 64 8 image.byte rva.toNat) := by
  rw [rvaToSlice_of_le h]
  refine congrArg some (le64_eq_word fun i hi => ?_)
  rw [List.getD_eq_getElem?_getD, List.getElem?_map, List.getElem?_range hi]
  rfl

/-- The bytes of a slice from its `k`-th on. -/
theorem getD_slice (f : Nat → BitVec 8) {k i : Nat} (h : k + i < n) :
    (((List.range n).map f).drop k).getD i 0 = f (k + i) := by
  rw [List.getD_eq_getElem?_getD, List.getElem?_drop, List.getElem?_map, List.getElem?_range h]
  rfl

theorem le16_slice (k : Nat) (h : k + 2 ≤ n) (m : Nat → BitVec 8) (a : Nat) :
    le16 (((List.range n).map fun i => m (a + i)).drop k) = word 16 2 m (a + k) :=
  le16_eq_word fun i hi => by
    rw [getD_slice (fun i => m (a + i)) (show k + i < n by omega), Nat.add_assoc]

theorem le32_slice (k : Nat) (h : k + 4 ≤ n) (m : Nat → BitVec 8) (a : Nat) :
    le32 (((List.range n).map fun i => m (a + i)).drop k) = word 32 4 m (a + k) :=
  le32_eq_word fun i hi => by
    rw [getD_slice (fun i => m (a + i)) (show k + i < n by omega), Nat.add_assoc]

theorem le64_slice (k : Nat) (h : k + 8 ≤ n) (m : Nat → BitVec 8) (a : Nat) :
    le64 (((List.range n).map fun i => m (a + i)).drop k) = word 64 8 m (a + k) :=
  le64_eq_word fun i hi => by
    rw [getD_slice (fun i => m (a + i)) (show k + i < n by omega), Nat.add_assoc]

end LoadedImage

end Quantum.Loader
