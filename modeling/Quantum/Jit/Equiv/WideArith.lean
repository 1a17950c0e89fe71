import Quantum.Jit.Equiv.Compare
import Quantum.Jit.Lifter

/-!
# Products and quotients of the wide instructions

`wideResult` and `widePair` are what the architecture defines for one-operand `MUL`, `IMUL`, `DIV` and `IDIV`;
`codePair` is what the lifted code computes, with its slips: a 64-bit instruction reads `RAX` again after it
has been overwritten, a 32-bit divide overwrites a divisor in `X17`, and a signed one takes the divisor for
the high half of the dividend.  `codePair_eq` says where the two agree.
-/

namespace Quantum.Jit

open A64

/-! ### What the instructions do -/

section Wide

variable {w : Nat}

/-- RAX and RDX after the instruction, for operands of `w` bits; `none` is a divide error. -/
def wideResult (kind : DivMulKind) (d a v : BitVec w) : Option (BitVec w × BitVec w) :=
  match kind with
  | .mul =>
    let n := a.toNat * v.toNat
    some (BitVec.ofNat w n, BitVec.ofNat w (n / 2 ^ w))
  | .imul1 =>
    let n := a.toInt * v.toInt
    some (BitVec.ofInt w n, BitVec.ofInt w (n / 2 ^ w))
  | .div =>
    let n := d.toNat * 2 ^ w + a.toNat
    if v = 0 ∨ 2 ^ w ≤ n / v.toNat then none
    else some (BitVec.ofNat w (n / v.toNat), BitVec.ofNat w (n % v.toNat))
  | .idiv =>
    let n := d.toInt * 2 ^ w + a.toNat
    if v = 0 ∨ n.tdiv v.toInt < -2 ^ (w - 1) ∨ 2 ^ (w - 1) ≤ n.tdiv v.toInt then none
    else some (BitVec.ofInt w (n.tdiv v.toInt), BitVec.ofInt w (n.tmod v.toInt))

end Wide

/-- The same for an operand size, on whole registers: the results of a 32-bit instruction are
zero-extended. -/
def widePair (kind : DivMulKind) (size : OpSize) (d a v : BitVec 64) : Option (BitVec 64 × BitVec 64) :=
  match size with
  | .b8 => wideResult kind d a v
  | .b4 => (wideResult kind (lo32 d) (lo32 a) (lo32 v)).map fun r => (r.1.setWidth 64, r.2.setWidth 64)
  | _ => none

/-- The dividends of a 64-bit divide that are covered: RDX is zero, or the sign of RAX. -/
def Covered (kind : DivMulKind) (size : OpSize) (d a : BitVec 64) : Prop :=
  match kind, size with
  | .div, .b8 => d = 0
  | .idiv, .b8 => d = if a.msb then -1 else 0
  | _, _ => True

/-! ### What the code does -/

/-- The low half of a register, zero- and sign-extended. -/
def zx32 (a : BitVec 64) : BitVec 64 := (lo32 a).setWidth 64
def sx32 (a : BitVec 64) : BitVec 64 := (lo32 a).signExtend 64

theorem ubfm_zx32 (a : BitVec 64) : A64.ubfm 0 31 a = zx32 a := by
  apply BitVec.eq_of_toNat_eq
  have ha := a.isLt
  rw [A64.ubfm, if_pos (by decide), zx32, lo32, BitVec.toNat_ushiftRight, BitVec.toNat_shiftLeft,
    BitVec.toNat_setWidth, BitVec.toNat_setWidth, Nat.shiftLeft_eq, Nat.shiftRight_eq_div_pow]
  omega

theorem ubfm_high (a : BitVec 64) : A64.ubfm 32 63 a = a >>> 32 := by
  rw [A64.ubfm, if_pos (by decide), BitVec.shiftLeft_zero]

theorem sbfm_sx32 (a : BitVec 64) : A64.sbfm 0 31 a = sx32 a := by
  refine BitVec.eq_of_getLsbD_eq fun i hi => ?_
  rw [A64.sbfm, if_pos (by decide), sx32, lo32, BitVec.getLsbD_sshiftRight, BitVec.getLsbD_signExtend]
  simp only [BitVec.getLsbD_shiftLeft, BitVec.msb_eq_getLsbD_last]
  by_cases h32 : i < 32
  · simp [h32, hi, show 32 + i < 64 by omega, show ¬ 64 ≤ i by omega]
  · simp [h32, hi, show ¬ 32 + i < 64 by omega, show ¬ 64 ≤ i by omega]

@[simp]
theorem lo32_zx32 (a : BitVec 64) : lo32 (zx32 a) = lo32 a := by
  unfold zx32 lo32
  rw [BitVec.setWidth_setWidth_of_le _ (by decide), BitVec.setWidth_eq]

@[simp]
theorem zx32_zx32 (a : BitVec 64) : zx32 (zx32 a) = zx32 a :=
  congrArg (BitVec.setWidth 64) (lo32_zx32 a)

@[simp]
theorem sx32_zx32 (a : BitVec 64) : sx32 (zx32 a) = sx32 a :=
  congrArg (BitVec.signExtend 64) (lo32_zx32 a)

/-- The high half of a 64-bit product. -/
def mulHigh (signed : Bool) (a b : BitVec 64) : BitVec 64 :=
  if signed then BitVec.ofInt 64 (a.toInt * b.toInt / 2 ^ 64)
  else BitVec.ofNat 64 (a.toNat * b.toNat / 2 ^ 64)

def quotient (signed : Bool) (a b : BitVec 64) : BitVec 64 :=
  if signed then a.sdiv b else a / b

/-- 64-bit multiply: the second instruction finds the low half in the place of a factor in `RAX`. -/
def mul64Pair (signed : Bool) (dv : Reg) (a v : BitVec 64) : BitVec 64 × BitVec 64 :=
  (a * v, mulHigh signed a (if dv = 0#5 then a * v else v))

/-- 64-bit divide: the remainder finds the quotient in the place of a divisor in `RAX`. -/
def div64Pair (signed : Bool) (dv : Reg) (a v : BitVec 64) : BitVec 64 × BitVec 64 :=
  let q := quotient signed a v
  (q, a - q * (if dv = 0#5 then q else v))

def mul32Pair (signed : Bool) (a v : BitVec 64) : BitVec 64 × BitVec 64 :=
  let n := if signed then sx32 a * sx32 v else zx32 a * zx32 v
  (zx32 n, n >>> 32)

/-- The divisor of a 32-bit divide: a memory operand in `X17` has been overwritten with EDX. -/
def divisor32 (dv : Reg) (d v : BitVec 64) : BitVec 64 :=
  if dv = 17#5 then zx32 d else zx32 v

/-- 32-bit divide; the signed one puts the divisor in the place of EDX. -/
def div32Pair (signed : Bool) (dv : Reg) (d a v : BitVec 64) : BitVec 64 × BitVec 64 :=
  let n := if signed then sx32 a ||| divisor32 dv d v <<< 32 else zx32 a ||| zx32 d <<< 32
  let c := if signed then sx32 (divisor32 dv d v) else divisor32 dv d v
  let q := quotient signed n c
  (zx32 q, zx32 (n - q * c))

/-- What the code leaves in `X0` and `X2`, from `X2`, `X0` and the operand in `dv`. -/
def codePair (kind : DivMulKind) (size : OpSize) (dv : Reg) (d a v : BitVec 64) : BitVec 64 × BitVec 64 :=
  match kind, size with
  | .mul, .b8 => mul64Pair false dv a v
  | .imul1, .b8 => mul64Pair true dv a v
  | .div, .b8 => div64Pair false dv a v
  | .idiv, .b8 => div64Pair true dv a v
  | .mul, _ => mul32Pair false a v
  | .imul1, _ => mul32Pair true a v
  | .div, _ => div32Pair false dv d a v
  | .idiv, _ => div32Pair true dv d a v

/-! ### Arithmetic -/

theorem wideResult_mul (d a v : BitVec 64) :
    wideResult .mul d a v = some (a * v, mulHigh false a v) := by
  have hlow : BitVec.ofNat 64 (a.toNat * v.toNat) = a * v := by
    apply BitVec.eq_of_toNat_eq
    rw [BitVec.toNat_ofNat, BitVec.toNat_mul]
  unfold wideResult mulHigh
  dsimp only
  rw [hlow]
  rfl

theorem wideResult_imul (d a v : BitVec 64) :
    wideResult .imul1 d a v = some (a * v, mulHigh true a v) := by
  have hlow : BitVec.ofInt 64 (a.toInt * v.toInt) = a * v := by
    rw [BitVec.ofInt_mul, BitVec.ofInt_toInt, BitVec.ofInt_toInt]
  unfold wideResult mulHigh
  dsimp only
  rw [hlow]
  rfl

/-- A remainder from the quotient. -/
theorem sub_udiv_mul (n c : BitVec 64) : n - n / c * c = n % c := by
  have hle : n.toNat / c.toNat * c.toNat ≤ n.toNat := Nat.div_mul_le_self _ _
  have hlt := n.isLt
  have hmod := Nat.mod_def n.toNat c.toNat
  rw [Nat.mul_comm] at hmod
  apply BitVec.eq_of_toNat_eq
  rw [BitVec.toNat_sub, BitVec.toNat_mul, BitVec.toNat_udiv, BitVec.toNat_umod, hmod]
  omega

theorem ofInt_tdiv (n c : BitVec 64) : BitVec.ofInt 64 (n.toInt.tdiv c.toInt) = n.sdiv c := by
  apply BitVec.eq_of_toInt_eq
  rw [BitVec.toInt_ofInt, BitVec.toInt_sdiv]

theorem ofInt_tmod (n c : BitVec 64) :
    BitVec.ofInt 64 (n.toInt.tmod c.toInt) = n - n.sdiv c * c := by
  rw [Int.tmod_def, Int.sub_eq_add_neg, BitVec.ofInt_add, BitVec.ofInt_neg, BitVec.ofInt_mul, ofInt_tdiv,
    BitVec.ofInt_toInt, BitVec.ofInt_toInt, BitVec.mul_comm, ← BitVec.sub_eq_add_neg]

/-- An unsigned dividend with a high half of zero. -/
theorem wideResult_div {a v x y : BitVec 64} (h : wideResult .div 0 a v = some (x, y)) :
    x = a / v ∧ y = a - a / v * v := by
  have hn : (0 : BitVec 64).toNat * 2 ^ 64 + a.toNat = a.toNat := by
    rw [show (0 : BitVec 64).toNat = 0 from rfl]
    omega
  unfold wideResult at h
  dsimp only at h
  rw [hn] at h
  split_ifs at h
  obtain ⟨rfl, rfl⟩ := Prod.mk.inj (Option.some.inj h)
  constructor
  · apply BitVec.eq_of_toNat_eq
    rw [BitVec.toNat_ofNat, BitVec.toNat_udiv]
    exact Nat.mod_eq_of_lt (Nat.lt_of_le_of_lt (Nat.div_le_self _ _) a.isLt)
  · rw [sub_udiv_mul]
    apply BitVec.eq_of_toNat_eq
    rw [BitVec.toNat_ofNat, BitVec.toNat_umod]
    exact Nat.mod_eq_of_lt (Nat.lt_of_le_of_lt (Nat.mod_le _ _) a.isLt)

/-- A signed dividend whose high half is its sign. -/
theorem wideResult_idiv {a d v x y : BitVec 64} (hd : d = if a.msb then -1 else 0)
    (h : wideResult .idiv d a v = some (x, y)) : x = a.sdiv v ∧ y = a - a.sdiv v * v := by
  have hn : d.toInt * 2 ^ 64 + a.toNat = a.toInt := by
    have ha := BitVec.toInt_eq_msb_cond a
    rw [hd]
    cases hm : a.msb with
    | false =>
      rw [hm, if_neg Bool.false_ne_true] at ha
      rw [if_neg Bool.false_ne_true, show (0 : BitVec 64).toInt = 0 from rfl]
      omega
    | true =>
      rw [hm, if_pos rfl] at ha
      rw [if_pos rfl, show (-1 : BitVec 64).toInt = -1 by decide]
      omega
  unfold wideResult at h
  dsimp only at h
  rw [hn] at h
  split_ifs at h
  obtain ⟨rfl, rfl⟩ := Prod.mk.inj (Option.some.inj h)
  exact ⟨ofInt_tdiv a v, ofInt_tmod a v⟩

theorem toNat_zx32 (a : BitVec 64) : (zx32 a).toNat = (lo32 a).toNat := by
  have hlt := (lo32 a).isLt
  unfold zx32
  rw [BitVec.toNat_setWidth]
  omega

theorem toInt_sx32 (a : BitVec 64) : (sx32 a).toInt = (lo32 a).toInt :=
  BitVec.toInt_signExtend_of_le (by decide)

theorem lo32_ofInt (n : Int) : lo32 (BitVec.ofInt 64 n) = BitVec.ofInt 32 n := by
  apply BitVec.eq_of_toNat_eq
  rw [lo32, BitVec.toNat_setWidth, BitVec.toNat_ofInt, BitVec.toNat_ofInt]
  omega

theorem mul32Pair_unsigned (d a v : BitVec 64) :
    (wideResult .mul (lo32 d) (lo32 a) (lo32 v)).map (fun r => (r.1.setWidth 64, r.2.setWidth 64))
      = some (mul32Pair false a v) := by
  have hn : (zx32 a * zx32 v).toNat = (lo32 a).toNat * (lo32 v).toNat := by
    rw [BitVec.toNat_mul, toNat_zx32, toNat_zx32]
    apply Nat.mod_eq_of_lt
    calc (lo32 a).toNat * (lo32 v).toNat < 2 ^ 32 * 2 ^ 32 :=
          Nat.mul_lt_mul'' (lo32 a).isLt (lo32 v).isLt
      _ = 2 ^ 64 := rfl
  have hlt := (zx32 a * zx32 v).isLt
  unfold wideResult mul32Pair
  simp only [Bool.false_eq_true, if_false, Option.map_some, Option.some.injEq, Prod.mk.injEq]
  rw [← hn]
  constructor
  · apply BitVec.eq_of_toNat_eq
    rw [toNat_zx32, lo32]
    simp only [BitVec.toNat_setWidth, BitVec.toNat_ofNat]
    omega
  · apply BitVec.eq_of_toNat_eq
    simp only [BitVec.toNat_setWidth, BitVec.toNat_ofNat, BitVec.toNat_ushiftRight,
      Nat.shiftRight_eq_div_pow]
    omega

theorem mul32Pair_signed (d a v : BitVec 64) :
    (wideResult .imul1 (lo32 d) (lo32 a) (lo32 v)).map (fun r => (r.1.setWidth 64, r.2.setWidth 64))
      = some (mul32Pair true a v) := by
  have hn : sx32 a * sx32 v = BitVec.ofInt 64 ((lo32 a).toInt * (lo32 v).toInt) := by
    rw [BitVec.ofInt_mul, ← toInt_sx32, ← toInt_sx32, BitVec.ofInt_toInt, BitVec.ofInt_toInt]
  unfold wideResult mul32Pair
  simp only [if_true, Option.map_some, Option.some.injEq, Prod.mk.injEq]
  rw [hn]
  generalize (lo32 a).toInt * (lo32 v).toInt = n
  constructor
  · rw [zx32, lo32_ofInt]
  · apply BitVec.eq_of_toNat_eq
    simp only [BitVec.toNat_setWidth, BitVec.toNat_ofInt, BitVec.toNat_ushiftRight,
      Nat.shiftRight_eq_div_pow]
    omega

/-- The halves of a dividend. -/
theorem toNat_joined (a d : BitVec 64) :
    (zx32 a ||| zx32 d <<< 32).toNat = (lo32 d).toNat * 2 ^ 32 + (lo32 a).toNat := by
  have ha := (lo32 a).isLt
  have hd := (lo32 d).isLt
  rw [BitVec.toNat_or, BitVec.toNat_shiftLeft, toNat_zx32, toNat_zx32, Nat.shiftLeft_eq,
    Nat.mod_eq_of_lt (by omega), Nat.or_comm, Nat.mul_comm, ← Nat.two_pow_add_eq_or_of_lt ha]

theorem div32Pair_unsigned {d a v : BitVec 64} {dv : Reg} (hdv : dv ≠ 17#5) {x y : BitVec 32}
    (h : wideResult .div (lo32 d) (lo32 a) (lo32 v) = some (x, y)) :
    div32Pair false dv d a v = (x.setWidth 64, y.setWidth 64) := by
  unfold wideResult at h
  dsimp only at h
  rw [← toNat_joined] at h
  split_ifs at h with hde
  obtain ⟨rfl, rfl⟩ := Prod.mk.inj (Option.some.inj h)
  rw [not_or, not_le] at hde
  have hv := toNat_zx32 v
  have hpos : 0 < (lo32 v).toNat := by
    apply Nat.pos_of_ne_zero
    exact fun h0 => hde.1 (BitVec.eq_of_toNat_eq h0)
  have hmod := Nat.mod_lt (zx32 a ||| zx32 d <<< 32).toNat hpos
  have hlt := (lo32 v).isLt
  have hq := (zx32 a ||| zx32 d <<< 32).isLt
  unfold div32Pair divisor32 quotient
  simp only [Bool.false_eq_true, if_false, hdv, sub_udiv_mul]
  rw [Prod.mk.injEq]
  constructor
  · apply BitVec.eq_of_toNat_eq
    rw [toNat_zx32, lo32, BitVec.toNat_setWidth, BitVec.toNat_udiv, hv, BitVec.toNat_setWidth,
      BitVec.toNat_ofNat]
    omega
  · apply BitVec.eq_of_toNat_eq
    rw [toNat_zx32, lo32, BitVec.toNat_setWidth, BitVec.toNat_umod, hv, BitVec.toNat_setWidth,
      BitVec.toNat_ofNat]
    omega

/-- A dividend over its own high half has a quotient of 32 bits only if that half is the sign. -/
theorem high_half_of_quotient {e : Int} {a : Nat} (ha : a < 2 ^ 32) (he : e ≠ 0)
    (hhigh : (e * 2 ^ 32 + a).tdiv e < 2 ^ 31) : e = -1 ∧ 2 ^ 31 < a := by
  obtain hneg | hpos := Int.lt_or_gt_of_ne he
  · -- dividend and divisor are negative
    have hquot : (e * 2 ^ 32 + a).tdiv e = (-e * 2 ^ 32 - a) / -e := by
      have hn : e * 2 ^ 32 + a = -(-e * 2 ^ 32 - a) := by
        omega
      have he' : e = -(-e) := by
        omega
      rw [hn, he', Int.neg_tdiv, Int.tdiv_neg, Int.neg_neg, ← he', Int.tdiv_eq_ediv_of_nonneg (by omega)]
    rw [hquot, Int.ediv_lt_iff_lt_mul (by omega)] at hhigh
    omega
  · have hquot : 2 ^ 32 ≤ (e * 2 ^ 32 + a).tdiv e := by
      rw [Int.tdiv_eq_ediv_of_nonneg (by omega), Int.le_ediv_iff_mul_le hpos]
      rw [Int.mul_comm]
      omega
    omega

theorem sx32_or_ones {a : BitVec 64} (ha : (lo32 a).msb = true) :
    sx32 a ||| zx32 (-1) <<< 32 = sx32 a := by
  refine BitVec.eq_of_getLsbD_eq fun i hi => ?_
  rw [BitVec.getLsbD_or, BitVec.getLsbD_shiftLeft, sx32, BitVec.getLsbD_signExtend, ha]
  by_cases h32 : i < 32
  · simp [h32]
  · simp [h32, hi]

theorem div32Pair_signed {d a : BitVec 64} {dv : Reg} {x y : BitVec 32} (hdv : dv ≠ 17#5)
    (h : wideResult .idiv (lo32 d) (lo32 a) (lo32 d) = some (x, y)) :
    div32Pair true dv d a d = (x.setWidth 64, y.setWidth 64) := by
  unfold wideResult at h
  dsimp only at h
  split_ifs at h with hde
  obtain ⟨rfl, rfl⟩ := Prod.mk.inj (Option.some.inj h)
  rw [not_or, not_or, not_le] at hde
  have hne : (lo32 d).toInt ≠ 0 := by
    intro h0
    exact hde.1 (BitVec.eq_of_toInt_eq h0)
  obtain ⟨hd, ha⟩ := high_half_of_quotient (lo32 a).isLt hne hde.2.2
  have hd32 : lo32 d = -1 := BitVec.eq_of_toInt_eq (hd.trans (by decide))
  have hmsb : (lo32 a).msb = true := by
    rw [BitVec.msb_eq_decide]
    exact decide_eq_true (Nat.le_of_lt ha)
  have hzx : zx32 d = zx32 (-1) := congrArg (BitVec.setWidth 64) (hd32.trans (by decide))
  have hsx : sx32 (-1) = -1 := by
    decide
  have hquot : (sx32 a).sdiv (-1) = -sx32 a := by
    rw [← ofInt_tdiv, show (-1 : BitVec 64).toInt = -1 by decide, Int.tdiv_neg, Int.tdiv_one,
      BitVec.ofInt_neg, BitVec.ofInt_toInt]
  have hrem : sx32 a - -sx32 a * -1 = 0 := by
    ring
  have hint : -(-1 * 2 ^ 32 + ((lo32 a).toNat : Int)) = -(sx32 a).toInt := by
    rw [toInt_sx32, BitVec.toInt_eq_msb_cond, hmsb, if_pos rfl]
    omega
  unfold div32Pair divisor32 quotient
  simp only [if_true, hdv, if_false, sx32_zx32, hzx, hsx, sx32_or_ones hmsb, hquot, hrem]
  rw [hd, Int.tdiv_neg, Int.tdiv_one, Int.tmod_neg, Int.tmod_one, Prod.mk.injEq]
  constructor
  · rw [hint, ← lo32_ofInt, BitVec.ofInt_neg, BitVec.ofInt_toInt]
    rfl
  · rfl

/-- When the code's pair is the right one: the operand is not in `RAX` for a 64-bit instruction, not in memory
for a 32-bit divide, and `EDX` for a signed one. -/
theorem codePair_eq {kind : DivMulKind} {size : OpSize} {dv : Reg} {d a v x y : BitVec 64}
    (h8 : size = .b8 → dv ≠ 0#5) (hdiv : size = .b4 → kind = .div → dv ≠ 17#5)
    (hidiv : size = .b4 → kind = .idiv → dv ≠ 17#5 ∧ v = d) (hcov : Covered kind size d a)
    (h : widePair kind size d a v = some (x, y)) : codePair kind size dv d a v = (x, y) := by
  cases size with
  | b1 => cases h
  | b2 => cases h
  | b4 =>
    obtain ⟨⟨x', y'⟩, hr, hxy⟩ := Option.map_eq_some_iff.mp h
    obtain ⟨rfl, rfl⟩ := Prod.mk.inj hxy
    cases kind with
    | mul => exact Option.some.inj ((mul32Pair_unsigned d a v).symm.trans h)
    | imul1 => exact Option.some.inj ((mul32Pair_signed d a v).symm.trans h)
    | div => exact div32Pair_unsigned (hdiv rfl rfl) hr
    | idiv =>
      obtain ⟨hdv, rfl⟩ := hidiv rfl rfl
      exact div32Pair_signed hdv hr
  | b8 =>
    have hdv := h8 rfl
    cases kind with
    | mul =>
      rw [widePair, wideResult_mul] at h
      simpa only [codePair, mul64Pair, if_neg hdv] using Option.some.inj h
    | imul1 =>
      rw [widePair, wideResult_imul] at h
      simpa only [codePair, mul64Pair, if_neg hdv] using Option.some.inj h
    | div =>
      obtain rfl : d = 0 := hcov
      obtain ⟨rfl, rfl⟩ := wideResult_div h
      simp only [codePair, div64Pair, if_neg hdv]
      rfl
    | idiv =>
      obtain ⟨rfl, rfl⟩ := wideResult_idiv hcov h
      simp only [codePair, div64Pair, if_neg hdv]
      rfl

end Quantum.Jit
