import Mathlib.Data.BitVec
import Mathlib.Tactic.Ring

/-!
# Byte-addressed little-endian memory

A memory is a total function from 64-bit addresses to bytes; addresses wrap around.  `read w n m a`
is the little-endian value of the `n` bytes at `a`, zero-extended to `w` bits, and `write n m a v`
stores the low `n` bytes of `v` at `a`.

* `read_write_self`: what was written is read back (at the number of bytes written);
* `read_write_of_disjoint`: a write to a disjoint range does not change what is read;
* `read_congr`: a read depends only on the bytes of its range.

`storeBytes m a bs` stores a whole string of bytes, and `BytesAt m a bs` says that it is there.

A range is `InRange a n b`: `b` is one of the `n` addresses from `a` up, modulo `2 ^ 64`.
-/

namespace Quantum

/-- A byte-addressed memory over 64-bit addresses. -/
abbrev ByteMem := BitVec 64 → BitVec 8

/-- `b` is one of the `n` addresses `a, a + 1, …` (modulo `2 ^ 64`). -/
def InRange (a : BitVec 64) (n : Nat) (b : BitVec 64) : Prop :=
  (b - a).toNat < n

instance (a : BitVec 64) (n : Nat) (b : BitVec 64) : Decidable (InRange a n b) :=
  inferInstanceAs (Decidable (_ < _))

/-- The address ranges `[a, a + n)` and `[b, b + k)` have no address in common. -/
def Disjoint64 (a : BitVec 64) (n : Nat) (b : BitVec 64) (k : Nat) : Prop :=
  ∀ c, InRange a n c → ¬ InRange b k c

namespace ByteMem

/-- The little-endian value of the `n` bytes of `m` at `a`, as a `w`-bit word. -/
def read (w : Nat) : Nat → ByteMem → BitVec 64 → BitVec w
  | 0, _, _ => 0
  | n + 1, m, a => (m a).setWidth w ||| read w n m (a + 1#64) <<< 8

/-- Store the low `n` bytes of `v` at `a`. -/
def write {w : Nat} (n : Nat) (m : ByteMem) (a : BitVec 64) (v : BitVec w) : ByteMem :=
  fun b => if (b - a).toNat < n then v.extractLsb' (8 * (b - a).toNat) 8 else m b

/-! ### Reading -/

theorem getLsbD_read (w : Nat) : ∀ (n : Nat) (m : ByteMem) (a : BitVec 64) (i : Nat),
    (read w n m a).getLsbD i
      = (decide (i < w) && decide (i < 8 * n) && (m (a + BitVec.ofNat 64 (i / 8))).getLsbD (i % 8))
  | 0, m, a, i => by simp [read]
  | n + 1, m, a, i => by
    rw [read, BitVec.getLsbD_or, BitVec.getLsbD_setWidth, BitVec.getLsbD_shiftLeft,
      getLsbD_read w n m (a + 1#64) (i - 8)]
    by_cases hw : i < w
    · by_cases h8 : i < 8
      · have h1 : i / 8 = 0 := by omega
        have h2 : i % 8 = i := by omega
        have h3 : i < 8 * (n + 1) := by omega
        simp [hw, h8, h1, h2, h3]
      · have h1 : (m a).getLsbD i = false := BitVec.getLsbD_of_ge _ _ (by omega)
        have h2 : a + 1#64 + BitVec.ofNat 64 ((i - 8) / 8) = a + BitVec.ofNat 64 (i / 8) := by
          rw [show i / 8 = 1 + (i - 8) / 8 by omega, BitVec.ofNat_add, ← BitVec.add_assoc]
        have h3 : (i - 8) % 8 = i % 8 := by omega
        have h4 : i - 8 < w := by omega
        have h5 : (i - 8 < 8 * n) = (i < 8 * (n + 1)) := by
          apply propext; omega
        simp [hw, h8, h1, h2, h3, h4, h5]
    · simp [hw]

/-- Two memories that agree on the bytes of a range read the same there. -/
theorem read_congr (w : Nat) {n : Nat} {m m' : ByteMem} {a : BitVec 64}
    (h : ∀ b, InRange a n b → m b = m' b) : read w n m a = read w n m' a := by
  refine BitVec.eq_of_getLsbD_eq fun i hi => ?_
  rw [getLsbD_read, getLsbD_read]
  by_cases h8 : i < 8 * n
  · rw [h]
    rw [InRange, BitVec.add_comm, BitVec.add_sub_cancel, BitVec.toNat_ofNat]
    exact lt_of_le_of_lt (Nat.mod_le _ _) (by omega)
  · simp [h8]

/-! ### Reading after writing -/

theorem write_of_not_inRange {w n : Nat} {m : ByteMem} {a b : BitVec 64} {v : BitVec w}
    (h : ¬ InRange a n b) : write n m a v b = m b := by
  exact if_neg h

theorem write_of_inRange {w n : Nat} {m : ByteMem} {a b : BitVec 64} {v : BitVec w}
    (h : InRange a n b) : write n m a v b = v.extractLsb' (8 * (b - a).toNat) 8 := by
  exact if_pos h

theorem read_write_of_disjoint (w : Nat) {w' n k : Nat} {m : ByteMem} {a b : BitVec 64}
    {v : BitVec w'} (h : Disjoint64 b k a n) :
    read w k (write n m a v) b = read w k m b :=
  read_congr w fun c hc => write_of_not_inRange (h c hc)

/-- The `n` low bytes of what was written are read back. -/
theorem read_write_self (w : Nat) {w' n : Nat} (m : ByteMem) (a : BitVec 64) (v : BitVec w')
    (hn : n < 2 ^ 64) : read w n (write n m a v) a = (v.setWidth (8 * n)).setWidth w := by
  refine BitVec.eq_of_getLsbD_eq fun i hi => ?_
  rw [getLsbD_read, BitVec.getLsbD_setWidth, BitVec.getLsbD_setWidth]
  by_cases h8 : i < 8 * n
  · have hlt : i / 8 < n := by omega
    have hsub : (a + BitVec.ofNat 64 (i / 8) - a).toNat = i / 8 := by
      rw [BitVec.add_comm, BitVec.add_sub_cancel, BitVec.toNat_ofNat, Nat.mod_eq_of_lt (by omega)]
    rw [write_of_inRange (by rw [InRange, hsub]; exact hlt), hsub, BitVec.getLsbD_extractLsb',
      show 8 * (i / 8) + i % 8 = i by omega]
    simp [h8, Nat.mod_lt]
  · simp [h8]

/-! ### Strings of bytes -/

/-- Store a string of bytes from `a` up. -/
def storeBytes (m : ByteMem) (a : BitVec 64) (bs : List (BitVec 8)) : ByteMem :=
  fun b => (bs[(b - a).toNat]?).getD (m b)

/-- The string `bs` lies in memory from `a` up. -/
def BytesAt (m : ByteMem) (a : BitVec 64) (bs : List (BitVec 8)) : Prop :=
  ∀ b, InRange a bs.length b → bs[(b - a).toNat]? = some (m b)

theorem storeBytes_of_not_inRange {m : ByteMem} {a b : BitVec 64} {bs : List (BitVec 8)}
    (h : ¬ InRange a bs.length b) : storeBytes m a bs b = m b := by
  rw [InRange, Nat.not_lt] at h
  rw [storeBytes, List.getElem?_eq_none h, Option.getD_none]

theorem bytesAt_storeBytes (m : ByteMem) (a : BitVec 64) (bs : List (BitVec 8)) :
    BytesAt (storeBytes m a bs) a bs := by
  intro b hb
  have hget : bs[(b - a).toNat]? = some bs[(b - a).toNat] := List.getElem?_eq_getElem hb
  rw [storeBytes, hget, Option.getD_some]

theorem BytesAt.congr {m m' : ByteMem} {a : BitVec 64} {bs : List (BitVec 8)} (h : BytesAt m a bs)
    (heq : ∀ b, InRange a bs.length b → m' b = m b) : BytesAt m' a bs := by
  intro b hb
  rw [heq b hb]
  exact h b hb

/-- A string that is stored elsewhere does not change one that is there. -/
theorem BytesAt.storeBytes {m : ByteMem} {a a' : BitVec 64} {bs bs' : List (BitVec 8)}
    (h : BytesAt m a bs) (hdis : Disjoint64 a bs.length a' bs'.length) :
    BytesAt (storeBytes m a' bs') a bs :=
  h.congr fun b hb => storeBytes_of_not_inRange (hdis b hb)

/-! ### Stacks of words -/

/-- The 64-bit words `vs` lie one after the other in memory from `a` up. -/
def WordsAt (m : ByteMem) : BitVec 64 → List (BitVec 64) → Prop
  | _, [] => True
  | a, v :: vs => read 64 8 m a = v ∧ WordsAt m (a + 8#64) vs

/-- The distance of `c` from `a` and from an address above `a`. -/
theorem toNat_sub_add (c a k : BitVec 64) :
    (c - a).toNat = ((c - (a + k)).toNat + k.toNat) % 2 ^ 64 := by
  rw [← BitVec.toNat_add, ← BitVec.sub_sub, BitVec.sub_add_cancel]

/-- The distance of `c` from an address `k` below `a`. -/
theorem toNat_sub_sub (c a : BitVec 64) {k : Nat} (hk : k < 2 ^ 64) :
    (c - (a - BitVec.ofNat 64 k)).toNat = ((c - a).toNat + k) % 2 ^ 64 := by
  have h := toNat_sub_add c (a - BitVec.ofNat 64 k) (BitVec.ofNat 64 k)
  rwa [BitVec.sub_add_cancel, BitVec.toNat_ofNat, Nat.mod_eq_of_lt hk] at h

/-- Words stay where the bytes under them do. -/
theorem WordsAt.congr {m m' : ByteMem} {a : BitVec 64} {vs : List (BitVec 64)}
    (hlen : 8 * vs.length ≤ 2 ^ 64) (h : ∀ b, InRange a (8 * vs.length) b → m' b = m b)
    (hm : WordsAt m a vs) : WordsAt m' a vs := by
  induction vs generalizing a with
  | nil => trivial
  | cons v vs ih =>
    rw [List.length_cons] at hlen h
    refine ⟨?_, ih (by omega) (fun b hb => h b ?_) hm.2⟩
    · rw [← hm.1]
      refine read_congr 64 fun b hb => h b ?_
      rw [InRange] at hb ⊢
      omega
    · have hsub : (b - a).toNat = ((b - (a + 8#64)).toNat + 8) % 2 ^ 64 := toNat_sub_add b a 8#64
      rw [InRange] at hb ⊢
      omega

/-- A push of one word below words. -/
theorem WordsAt.push {m : ByteMem} {a v : BitVec 64} {vs : List (BitVec 64)}
    (hlen : 8 * (vs.length + 1) ≤ 2 ^ 64) (h : WordsAt m a vs) :
    WordsAt (write 8 m (a - 8#64) v) (a - 8#64) (v :: vs) := by
  refine ⟨?_, ?_⟩
  · rw [read_write_self 64 _ _ _ (by decide)]
    simp
  · rw [BitVec.sub_add_cancel]
    refine h.congr (by omega) fun b hb => write_of_not_inRange ?_
    rw [InRange] at hb ⊢
    have hsub : (b - (a - 8#64)).toNat = ((b - a).toNat + 8) % 2 ^ 64 :=
      toNat_sub_sub b a (by decide)
    omega

/-- Two words pushed below `a`. -/
def push2 (m : ByteMem) (a u v : BitVec 64) : ByteMem :=
  write 8 (write 8 m (a - 16#64) u) (a - 16#64 + 8#64) v

theorem push2_of_not_inRange {m : ByteMem} {a u v b : BitVec 64}
    (h : ¬ InRange (a - 16#64) 16 b) : push2 m a u v b = m b := by
  rw [push2, write_of_not_inRange, write_of_not_inRange]
  · rw [InRange] at h ⊢
    omega
  · rw [InRange] at h ⊢
    have hsub : (b - (a - 16#64)).toNat = ((b - (a - 16#64 + 8#64)).toNat + 8) % 2 ^ 64 :=
      toNat_sub_add b (a - 16#64) 8#64
    omega

/-- A push on top of words. -/
theorem WordsAt.push2 {m : ByteMem} {a u v : BitVec 64} {vs : List (BitVec 64)}
    (hlen : 8 * vs.length + 16 < 2 ^ 64) (h : WordsAt m a vs) :
    WordsAt (push2 m a u v) (a - 16#64) (u :: v :: vs) := by
  have hdis : Disjoint64 (a - 16#64) 8 (a - 16#64 + 8#64) 8 := by
    intro c h₁ h₂
    rw [InRange] at h₁ h₂
    have hsub : (c - (a - 16#64)).toNat = ((c - (a - 16#64 + 8#64)).toNat + 8) % 2 ^ 64 :=
      toNat_sub_add c (a - 16#64) 8#64
    omega
  refine ⟨?_, ?_, ?_⟩
  · rw [ByteMem.push2, read_write_of_disjoint 64 hdis, read_write_self 64 _ _ _ (by decide)]
    simp
  · rw [ByteMem.push2, read_write_self 64 _ _ _ (by decide)]
    simp
  · rw [show a - 16#64 + 8#64 + 8#64 = a by rw [BitVec.add_assoc]; exact BitVec.sub_add_cancel a _]
    refine h.congr (by omega) fun b hb => push2_of_not_inRange ?_
    rw [InRange] at hb ⊢
    have hsub : (b - (a - 16#64)).toNat = ((b - a).toNat + 16) % 2 ^ 64 := by
      have := toNat_sub_add b (a - 16#64) 16#64
      rwa [BitVec.sub_add_cancel] at this
    omega

/-- The two words on top. -/
theorem WordsAt.pop2 {m : ByteMem} {a u v : BitVec 64} {vs : List (BitVec 64)}
    (h : WordsAt m a (u :: v :: vs)) :
    read 64 8 m a = u ∧ read 64 8 m (a + 8#64) = v ∧ WordsAt m (a + 16#64) vs := by
  refine ⟨h.1, h.2.1, ?_⟩
  have := h.2.2
  rwa [BitVec.add_assoc] at this

end ByteMem

end Quantum
