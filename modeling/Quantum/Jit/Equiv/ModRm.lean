import Quantum.Jit.Equiv.DecodeRow
import Quantum.X86.Address

/-!
# Memory operands of the decoder

`decodeRmMemory` against the architecture's description of ModRM and SIB bytes (`X86.address`): on the
bytes of an encoding, followed by anything, it stops right after them and its operand has the parts that
the architecture gives (`decodeRmMemory_address`).

The registers come from `gpReg_eq`, the SIB byte from `decodeSib_eq` and the displacement from
`decodeDisp_eq`; the special case of mod 00 with `rm` 101 does not go through the last two.
-/

namespace Quantum.Jit

open DecodeM X86

variable {α β : Type}

/-- The parts of a memory operand, in the architecture's terms. -/
def Operand.address? : Operand → Option Address
  | .mem m => some ⟨m.base.map GpReg.index, m.index.map GpReg.index, m.scale, m.disp.toInt, false⟩
  | .ripRel disp _ => some ⟨none, none, 1, disp.toInt, true⟩
  | _ => none

theorem DecodeM.bind_apply {m : DecodeM α} {a : α} {bs rest : List Byte} (h : m bs = .ok (a, rest))
    (f : α → DecodeM β) : (m >>= f) bs = f a rest := by
  simp only [bind, h]

/-! ### Registers -/

/-- A field of three bits and its extension always name a register. -/
theorem gpReg_eq (ext : Bool) {field : Nat} (h : field < 8) :
    ∃ r : GpReg, (∀ bs, gpReg ext field bs = .ok (r, bs)) ∧ r.index = regNumber ext field := by
  have hreg : ∀ ext : Bool, ∀ field < 8,
      (GpReg.fromIndex (regIndex ext field)).map GpReg.index = some (regNumber ext field) := by
    decide
  obtain ⟨r, hr, hindex⟩ := Option.map_eq_some_iff.mp (hreg ext field h)
  refine ⟨r, ?_, hindex⟩
  intro bs
  unfold gpReg
  rw [hr]
  rfl

/-- A register that the encoding may leave out. -/
theorem optionalReg_eq {c : Prop} [Decidable c] {ext : Bool} {field : Nat} {r : GpReg}
    (hr : ∀ bs, gpReg ext field bs = .ok (r, bs)) (f : Option GpReg → DecodeM β) (bs : List Byte) :
    (if c then pure none >>= f else gpReg ext field >>= fun r => pure (some r) >>= f) bs
      = f (if c then none else some r) bs := by
  split_ifs
  · rfl
  · rw [bind_apply (hr bs)]
    rfl

theorem regNumber_eq_four {ext : Bool} {field : Nat} (h : field < 8) :
    regNumber ext field = 4 ↔ field = 4 ∧ ext = false := by
  unfold regNumber
  cases ext with
  | false => simp
  | true =>
    rw [if_pos rfl]
    constructor
    · omega
    · simp

/-- The SIB byte: read exactly for `rm` 100, and its fields name base, index and scale. -/
theorem decodeSib_eq (p : Prefixes) (modrm sib : Byte) (bs : List Byte) :
    ∃ s : Sib, decodeSib p (modField modrm) (rmField modrm) (sibBytes modrm sib ++ bs) = .ok (s, bs) ∧
      (rmField modrm = 4 → s.base.map GpReg.index = sibBase p.rex.b modrm sib ∧
        s.index.map GpReg.index = sibIndex p.rex.x sib ∧ s.scale = 2 ^ sibScaleField sib) ∧
      (rmField modrm ≠ 4 → s.base.map GpReg.index = some (regNumber p.rex.b (rmField modrm)) ∧
        s.index = none ∧ s.scale = 1) := by
  unfold decodeSib sibBytes
  split_ifs with hrm
  · have hlt₀ : sibBaseField sib < 8 := (sib.extractLsb' 0 3).isLt
    have hlt₁ : sibIndexField sib < 8 := (sib.extractLsb' 3 3).isLt
    obtain ⟨r₀, hr₀, hbase⟩ := gpReg_eq p.rex.b hlt₀
    obtain ⟨r₁, hr₁, hindex⟩ := gpReg_eq p.rex.x hlt₁
    have hread : readU8 ([sib] ++ bs) = .ok (sib, bs) := rfl
    rw [bind_apply hread]
    refine ⟨_, (optionalReg_eq hr₁ _ bs).trans (optionalReg_eq hr₀ _ bs), fun _ => ⟨?_, ?_, ?_⟩,
      fun h => absurd hrm h⟩
    · simp only [sibBase, apply_ite (Option.map GpReg.index), Option.map_none, Option.map_some]
      simp only [hbase, Bool.and_eq_true, decide_eq_true_eq]
      rfl
    · simp only [sibIndex, regNumber_eq_four hlt₁, apply_ite (Option.map GpReg.index), Option.map_none,
        Option.map_some]
      simp only [hindex, Bool.and_eq_true, decide_eq_true_eq, Bool.not_eq_true']
      rfl
    · exact Nat.one_shiftLeft _
  · have hlt : rmField modrm < 8 := (modrm.extractLsb' 0 3).isLt
    obtain ⟨r, hr, hindex⟩ := gpReg_eq p.rex.b hlt
    refine ⟨⟨some r, none, 1, .inl rfl⟩, ?_, fun h => absurd h hrm,
      fun _ => ⟨congrArg some hindex, rfl, rfl⟩⟩
    rw [List.nil_append, bind_apply (hr bs)]
    rfl

/-! ### Displacements -/

theorem setWidth_or_shiftLeft (w : Nat) (b : Byte) (n : Nat) :
    b.setWidth w ||| BitVec.ofNat w n <<< 8 = BitVec.ofNat w (b.toNat + 256 * n) := by
  have hor : b.toNat + 256 * n = b.toNat ||| n <<< 8 := by
    rw [Nat.or_comm, Nat.shiftLeft_eq, Nat.mul_comm n, ← Nat.two_pow_add_eq_or_of_lt b.isLt]
    omega
  have hshift : BitVec.ofNat w n <<< 8 = BitVec.ofNat w (n <<< 8) := by
    apply BitVec.eq_of_toNat_eq
    rw [BitVec.toNat_shiftLeft, BitVec.toNat_ofNat, BitVec.toNat_ofNat, Nat.shiftLeft_eq,
      Nat.shiftLeft_eq, Nat.mul_mod, Nat.mod_mod, ← Nat.mul_mod]
  have hbyte : b.setWidth w = BitVec.ofNat w b.toNat := by
    apply BitVec.eq_of_toNat_eq
    rw [BitVec.toNat_setWidth, BitVec.toNat_ofNat]
  rw [hor, BitVec.ofNat_or, hshift, hbyte]

theorem readLe_append (w : Nat) (d rest : List Byte) :
    readLe w d.length (d ++ rest) = .ok (BitVec.ofNat w (Nat.ofDigits 256 (d.map BitVec.toNat)), rest) := by
  induction d with
  | nil => rfl
  | cons b d ih =>
    have hread : readU8 (b :: d ++ rest) = .ok (b, d ++ rest) := rfl
    rw [List.length_cons, readLe, bind_apply hread, bind_apply ih, setWidth_or_shiftLeft]
    rfl

/-- A displacement of four bytes. -/
theorem readI32_append {d : List Byte} (hd : d.length = 4) (rest : List Byte) :
    ∃ v, readI32 (d ++ rest) = .ok (v, rest) ∧ v.toInt = signedLe d := by
  refine ⟨BitVec.ofNat 32 (Nat.ofDigits 256 (d.map BitVec.toNat)), ?_, ?_⟩
  · have hread := readLe_append 32 d rest
    rwa [hd] at hread
  · rw [BitVec.toInt_ofNat', signedLe, hd]

/-- A displacement of one byte. -/
theorem toInt_signExtend_byte (b : Byte) : (b.signExtend 32).toInt = signedLe [b] := by
  have hdigits : Nat.ofDigits 256 ([b].map BitVec.toNat) = b.toNat := by
    simp
  rw [BitVec.toInt_signExtend_of_le (by decide), signedLe, hdigits, BitVec.toInt_eq_toNat_bmod]
  rfl

/-- The displacement after the SIB byte: its length follows from the mod field and the base. -/
theorem decodeDisp_eq {modrm sib : Byte} {s : Sib} {d rest : List Byte} {g : BitVec 32 → Operand}
    (hrip : ¬ (modField modrm = 0 ∧ rmField modrm = 5)) (hmod : modField modrm ≠ 3)
    (hbase : rmField modrm = 4 → (s.base = none ↔ modField modrm = 0 ∧ sibBaseField sib = 5))
    (hd : d.length = dispBytes modrm sib) :
    ∃ v, (match modField modrm with
      | 0 => if rmField modrm = 4 && s.base.isNone then readI32 >>= fun d => pure (g d)
        else pure 0 >>= fun d => pure (g d)
      | 1 => readU8 >>= fun b => pure (b.signExtend 32) >>= fun d => pure (g d)
      | 2 => readI32 >>= fun d => pure (g d)
      | _ => pure 0 >>= fun d => pure (g d) : DecodeM Operand) (d ++ rest) = .ok (g v, rest) ∧
      v.toInt = signedLe d := by
  have hlt : modField modrm < 4 := (modrm.extractLsb' 6 2).isLt
  have hword : d.length = 4 → ∃ v, (readI32 >>= fun d => (pure (g d) : DecodeM Operand)) (d ++ rest)
      = .ok (g v, rest) ∧ v.toInt = signedLe d := by
    intro hfour
    obtain ⟨v, hread, hv⟩ := readI32_append hfour rest
    refine ⟨v, ?_, hv⟩
    rw [bind_apply hread]
    rfl
  unfold dispBytes at hd
  generalize modField modrm = mod at *
  rcases mod with _ | _ | _ | mod
  · have hrm5 : rmField modrm ≠ 5 := fun h => hrip ⟨rfl, h⟩
    simp only [hrm5, false_or, true_and] at hd hbase
    by_cases hnone : rmField modrm = 4 ∧ sibBaseField sib = 5
    · have hs : s.base.isNone = true := by
        rw [Option.isNone_iff_eq_none]
        exact (hbase hnone.1).mpr hnone.2
      rw [if_pos hnone] at hd
      simp only [hs, hnone.1, decide_true, Bool.and_self, if_true]
      exact hword hd
    · have hs : (rmField modrm = 4 && s.base.isNone) = false := by
        rw [Bool.and_eq_false_iff, decide_eq_false_iff_not, ← Bool.not_eq_true,
          Option.isNone_iff_eq_none]
        by_cases hrm : rmField modrm = 4
        · exact .inr fun h => hnone ⟨hrm, (hbase hrm).mp h⟩
        · exact .inl hrm
      rw [if_neg hnone] at hd
      obtain rfl := List.length_eq_zero_iff.mp hd
      simp only [hs, Bool.false_eq_true, if_false]
      exact ⟨0, rfl, rfl⟩
  · obtain ⟨b, rfl⟩ := List.length_eq_one_iff.mp hd
    exact ⟨b.signExtend 32, rfl, toInt_signExtend_byte b⟩
  · exact hword hd
  · omega

/-! ### Operands -/

/-- The operand that the SIB and displacement bytes of an encoding give. -/
theorem decodeRmMemory_eq (longMode : Bool) (p : Prefixes) (modrm sib : Byte) (size : OpSize)
    (d rest : List Byte) (hmod : modField modrm ≠ 3) (hd : d.length = dispBytes modrm sib) :
    ∃ op, decodeRmMemory longMode p (modField modrm) (rmField modrm) size
        (sibBytes modrm sib ++ (d ++ rest)) = .ok (op, rest) ∧
      op.address? = some (address longMode p.rex.x p.rex.b modrm sib d) := by
  unfold decodeRmMemory address
  by_cases hrip : modField modrm = 0 ∧ rmField modrm = 5
  · have hsib : sibBytes modrm sib = [] := by
      unfold sibBytes
      rw [hrip.2]
      rfl
    have hfour : d.length = 4 := by
      unfold dispBytes at hd
      simpa only [hrip, true_or, if_true] using hd
    obtain ⟨v, hread, hv⟩ := readI32_append hfour rest
    rw [if_pos hrip, if_pos hrip, hsib, List.nil_append, bind_apply hread]
    cases longMode with
    | true => exact ⟨.ripRel v size, rfl, by rw [Operand.address?, hv]⟩
    | false => exact ⟨_, rfl, by rw [Operand.address?, hv]; rfl⟩
  · obtain ⟨s, hs, hsib, hnosib⟩ := decodeSib_eq p modrm sib (d ++ rest)
    have hbase : rmField modrm = 4 → (s.base = none ↔ modField modrm = 0 ∧ sibBaseField sib = 5) := by
      intro hrm
      have hmap := (hsib hrm).1
      unfold sibBase at hmap
      rw [← Option.map_eq_none_iff (f := GpReg.index), hmap]
      split_ifs with hnone <;> simp [hnone]
    rw [if_neg hrip, if_neg hrip, bind_apply hs]
    obtain ⟨v, hdisp, hv⟩ := decodeDisp_eq hrip hmod hbase hd
    refine ⟨_, hdisp, ?_⟩
    simp only [Operand.address?, hv]
    by_cases hrm : rmField modrm = 4
    · obtain ⟨h₁, h₂, h₃⟩ := hsib hrm
      rw [if_pos hrm, h₁, h₂, h₃]
    · obtain ⟨h₁, h₂, h₃⟩ := hnosib hrm
      rw [if_neg hrm, h₁, h₂, h₃, Option.map_none]

/-- **Memory operands**: on the SIB and displacement bytes of an encoding the decoder stops right after
them, with the base, index, scale and displacement that the architecture gives; after the ModRM byte
itself it does the same, and returns the reg field. -/
theorem decodeRmMemory_address (longMode : Bool) (p : Prefixes) (modrm sib : Byte) (size : OpSize)
    (d rest : List Byte) (hmod : modField modrm ≠ 3) (hd : d.length = dispBytes modrm sib) :
    ∃ op, decodeRmMemory longMode p (modField modrm) (rmField modrm) size
        (sibBytes modrm sib ++ (d ++ rest)) = .ok (op, rest) ∧
      decodeModrm longMode p size (modrm :: (sibBytes modrm sib ++ (d ++ rest)))
        = .ok ((op, regField modrm), rest) ∧
      op.address? = some (address longMode p.rex.x p.rex.b modrm sib d) := by
  obtain ⟨op, hop, haddr⟩ := decodeRmMemory_eq longMode p modrm sib size d rest hmod hd
  refine ⟨op, hop, ?_, haddr⟩
  have hread : readModRm (modrm :: (sibBytes modrm sib ++ (d ++ rest)))
      = .ok ((modField modrm, regField modrm, rmField modrm), sibBytes modrm sib ++ (d ++ rest)) := rfl
  unfold decodeModrm
  rw [bind_apply hread]
  dsimp only
  rw [if_neg hmod, bind_apply hop]
  rfl

/-- SIB base 101 after mod 00, without an index and with a negative displacement. -/
theorem decodeRmMemory_address_noBase :
    address true false false 0x04 0x25 [0xF0, 0xFF, 0xFF, 0xFF] = ⟨none, none, 1, -16, false⟩ ∧
      ∃ op, decodeRmMemory true .default (modField 0x04) (rmField 0x04) .b8
          (sibBytes 0x04 0x25 ++ ([0xF0, 0xFF, 0xFF, 0xFF] ++ [0xC3])) = .ok (op, [0xC3]) ∧
        decodeModrm true .default .b8 (0x04 :: (sibBytes 0x04 0x25 ++ ([0xF0, 0xFF, 0xFF, 0xFF] ++ [0xC3])))
          = .ok ((op, regField 0x04), [0xC3]) ∧
        op.address? = some (address true false false 0x04 0x25 [0xF0, 0xFF, 0xFF, 0xFF]) := by
  constructor
  · decide
  · exact decodeRmMemory_address true .default 0x04 0x25 .b8 [0xF0, 0xFF, 0xFF, 0xFF] [0xC3] (by decide)
      (by decide)

end Quantum.Jit
