import Mathlib.Data.BitVec

/-!
# Little-endian words in an array of bytes

Bytes are numbered by `Nat`.  `word w n m a` is the little-endian value of the `n` bytes from `a` on,
zero-extended to `w` bits, and `store n m a v` puts the low `n` bytes of `v` there.

* `byte_word`: the bytes of a word;
* `word_store_self`, `store_of_not_mem`: what a store leaves in its place and elsewhere;
* `word_congr`: a word depends on its own bytes only.
-/

namespace Quantum.LeWord

variable {w w' n : Nat} {m m' : Nat → BitVec 8} {a : Nat}

def word (w : Nat) : Nat → (Nat → BitVec 8) → Nat → BitVec w
  | 0, _, _ => 0
  | n + 1, m, a => (m a).setWidth w ||| word w n m (a + 1) <<< 8

def store (n : Nat) (m : Nat → BitVec 8) (a : Nat) (v : BitVec w) : Nat → BitVec 8 :=
  fun b => if a ≤ b ∧ b < a + n then v.extractLsb' (8 * (b - a)) 8 else m b

theorem getLsbD_word (w n : Nat) (m : Nat → BitVec 8) (a i : Nat) :
    (word w n m a).getLsbD i =
      (decide (i < w) && decide (i < 8 * n) && (m (a + i / 8)).getLsbD (i % 8)) := by
  induction n generalizing a i with
  | zero => simp [word]
  | succ n ih =>
    rw [word, BitVec.getLsbD_or, BitVec.getLsbD_setWidth, BitVec.getLsbD_shiftLeft, ih]
    by_cases hw : i < w
    · by_cases h8 : i < 8
      · have h1 : i / 8 = 0 := by omega
        have h2 : i % 8 = i := by omega
        have h3 : i < 8 * (n + 1) := by omega
        simp [hw, h8, h1, h2, h3]
      · have h1 : (m a).getLsbD i = false := BitVec.getLsbD_of_ge _ _ (by omega)
        have h2 : a + 1 + (i - 8) / 8 = a + i / 8 := by omega
        have h3 : (i - 8) % 8 = i % 8 := by omega
        have h4 : i - 8 < w := by omega
        have h5 : (i - 8 < 8 * n) = (i < 8 * (n + 1)) := by
          apply propext
          omega
        simp [hw, h8, h1, h2, h3, h4, h5]
    · simp [hw]

theorem word_congr (w : Nat) (h : ∀ i < n, m (a + i) = m' (a + i)) :
    word w n m a = word w n m' a := by
  refine BitVec.eq_of_getLsbD_eq fun i hi => ?_
  rw [getLsbD_word, getLsbD_word]
  by_cases h8 : i < 8 * n
  · rw [h (i / 8) (by omega)]
  · simp [h8]

/-- The bytes of a word. -/
theorem byte_word (hw : 8 * n ≤ w) {i : Nat} (hi : i < n) :
    (word w n m a).extractLsb' (8 * i) 8 = m (a + i) := by
  refine BitVec.eq_of_getLsbD_eq fun j hj => ?_
  rw [BitVec.getLsbD_extractLsb', getLsbD_word]
  have h1 : (8 * i + j) / 8 = i := by omega
  have h2 : (8 * i + j) % 8 = j := by omega
  have h3 : 8 * i + j < w := by omega
  have h4 : 8 * i + j < 8 * n := by omega
  simp [h1, h2, h3, h4, hj]

theorem store_of_not_mem (m : Nat → BitVec 8) (v : BitVec w) {b : Nat} (h : ¬ (a ≤ b ∧ b < a + n)) :
    store n m a v b = m b :=
  if_neg h

theorem store_of_lt (m : Nat → BitVec 8) (a : Nat) (v : BitVec w) {i : Nat} (hi : i < n) :
    store n m a v (a + i) = v.extractLsb' (8 * i) 8 := by
  rw [store, if_pos (by omega), Nat.add_sub_cancel_left]

/-- What was stored is read back, as far as it was stored. -/
theorem word_store_self (w : Nat) (m : Nat → BitVec 8) (a : Nat) (v : BitVec w') :
    word w n (store n m a v) a = (v.setWidth (8 * n)).setWidth w := by
  refine BitVec.eq_of_getLsbD_eq fun i hi => ?_
  rw [getLsbD_word, BitVec.getLsbD_setWidth, BitVec.getLsbD_setWidth]
  by_cases h8 : i < 8 * n
  · have hlt : i / 8 < n := by omega
    rw [store_of_lt m a v hlt, BitVec.getLsbD_extractLsb', show 8 * (i / 8) + i % 8 = i by omega]
    simp [h8, Nat.mod_lt]
  · simp [h8]

/-- Storing a word reads as the word elsewhere does. -/
theorem word_store_of_disjoint (w : Nat) (m : Nat → BitVec 8) (v : BitVec w') {b k : Nat}
    (h : b + k ≤ a ∨ a + n ≤ b) : word w k (store n m a v) b = word w k m b :=
  word_congr w fun i hi => store_of_not_mem m v (by omega)

/-- A store depends only on the low bytes of the value. -/
theorem store_congr {v : BitVec w} {v' : BitVec w'}
    (h : v.setWidth (8 * n) = v'.setWidth (8 * n)) (m : Nat → BitVec 8) (a : Nat) :
    store n m a v = store n m a v' := by
  funext b
  by_cases hb : a ≤ b ∧ b < a + n
  · rw [store, store, if_pos hb, if_pos hb]
    refine BitVec.eq_of_getLsbD_eq fun j hj => ?_
    rw [BitVec.getLsbD_extractLsb', BitVec.getLsbD_extractLsb']
    have hbit : ∀ i < 8 * n, v.getLsbD i = v'.getLsbD i := by
      intro i hi
      have := congrArg (BitVec.getLsbD · i) h
      simpa [BitVec.getLsbD_setWidth, hi] using this
    rw [hbit _ (by omega)]
  · rw [store, store, if_neg hb, if_neg hb]

end Quantum.LeWord
