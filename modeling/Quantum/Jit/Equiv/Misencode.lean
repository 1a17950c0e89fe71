import Quantum.Jit.Equiv.Emit

/-!
# Loads and stores with an offset that does not fit

Without debug assertions an offset that is too wide for the twelve-bit field falls into the fields
above it.  The register fields are below the offset, so the word still names the same registers, and
it decodes to a load or store with other size and opcode bits, to a scalar SIMD word, or to nothing
(`decode_ldstUoffWord_cases`).  Whatever access it makes, it begins below the offset asked for
(`misencoded_offset_lt`).
-/

namespace Quantum.Jit

open A64

theorem extractLsb'_shiftLeft (q : Word) {sh a k : Nat} (h : sh ≤ a) (hw : a + k ≤ 32) :
    (q <<< sh).extractLsb' a k = q.extractLsb' (a - sh) k := by
  refine BitVec.eq_of_getLsbD_eq fun i hi => ?_
  rw [BitVec.getLsbD_extractLsb', BitVec.getLsbD_extractLsb', BitVec.getLsbD_shiftLeft]
  simp [hi, show a + i < 32 by omega, show ¬ a + i < sh by omega,
    show a + i - sh = a - sh + i by omega]

theorem extractLsb'_shiftLeft_low (q : Word) {sh a k : Nat} (h : a + k ≤ sh) :
    (q <<< sh).extractLsb' a k = 0 := by
  refine BitVec.eq_of_getLsbD_eq fun i hi => ?_
  rw [BitVec.getLsbD_extractLsb', BitVec.getLsbD_shiftLeft]
  simp [hi, show a + i < sh by omega]

section Fields

variable (size opc : BitVec 2) (v : BitVec 1) (q : Word) (rn rt : Reg)

attribute [local simp] BitVec.extractLsb'_or extractLsb'_bitField_of_disjoint
  extractLsb'_bitField_self extractLsb'_shiftLeft extractLsb'_shiftLeft_low

/-- The top byte of a load or store word: bits of the offset from 14 on fall into it. -/
theorem ldstUoffWord_top :
    Word.field (ldstUoffWord size v opc q rn rt) 24 8
      = 0x39#8 ||| bitField 6 (size ||| q.extractLsb' 20 2) |||
        bitField 2 (v ||| q.extractLsb' 16 1) ||| bitField 1 (q.extractLsb' 15 1) := by
  refine BitVec.eq_of_getLsbD_eq fun i hi => ?_
  simp only [Word.field, ldstUoffWord, BitVec.getLsbD_extractLsb', BitVec.getLsbD_or,
    getLsbD_bitField, BitVec.getLsbD_shiftLeft]
  obtain rfl | rfl | rfl | rfl | rfl | rfl | rfl | rfl :
      i = 0 ∨ i = 1 ∨ i = 2 ∨ i = 3 ∨ i = 4 ∨ i = 5 ∨ i = 6 ∨ i = 7 := by omega
  all_goals simp [Bool.or_comm]

/-- What the top bytes of such words decode to. -/
theorem decodeTop_ldst (sz : BitVec 2) (vv b : BitVec 1) (w : Word) :
    decodeTop (0x39#8 ||| bitField 6 sz ||| bitField 2 vv ||| bitField 1 b).toNat w = decodeLdst w ∨
    decodeTop (0x39#8 ||| bitField 6 sz ||| bitField 2 vv ||| bitField 1 b).toNat w = none ∨
    decodeTop (0x39#8 ||| bitField 6 sz ||| bitField 2 vv ||| bitField 1 b).toNat w
      = some (.simdScalar w) := by
  rcases bv2_cases sz with rfl | rfl | rfl | rfl <;> rcases bv1_cases vv with rfl | rfl <;>
    rcases bv1_cases b with rfl | rfl <;>
    first | exact .inl rfl | exact .inr (.inl rfl) | exact .inr (.inr rfl)

/-- A load or store word with any offset. -/
theorem decode_ldstUoffWord_cases :
    decode (ldstUoffWord size v opc q rn rt)
      = some (.ldst (size ||| q.extractLsb' 20 2) ((v ||| q.extractLsb' 16 1) == 1#1)
          (opc ||| q.extractLsb' 12 2) (q.extractLsb' 0 12) rn rt) ∨
    decode (ldstUoffWord size v opc q rn rt) = none ∨
    decode (ldstUoffWord size v opc q rn rt)
      = some (.simdScalar (ldstUoffWord size v opc q rn rt)) := by
  rw [decode, ldstUoffWord_top]
  have hldst : decodeLdst (ldstUoffWord size v opc q rn rt)
      = some (.ldst (size ||| q.extractLsb' 20 2) ((v ||| q.extractLsb' 16 1) == 1#1)
          (opc ||| q.extractLsb' 12 2) (q.extractLsb' 0 12) rn rt) := by
    simp (disch := decide) [decodeLdst, ldstUoffWord, Word.field, Word.bit, Word.rn, Word.rd]
  rw [← hldst]
  exact decodeTop_ldst _ _ _ _

end Fields

theorem isLinear_ldstUoffWord {size opc : BitVec 2} {v : BitVec 1} {q : Word} {rn rt : Reg} {i : Insn}
    (h : some i = decode (ldstUoffWord size v opc q rn rt)) : i.isLinear = true := by
  rcases decode_ldstUoffWord_cases size opc v q rn rt with hd | hd | hd
  · rw [hd] at h
    cases h
    rfl
  · rw [hd] at h
    cases h
  · rw [hd] at h
    cases h
    rfl

/-! ### The access of such a word -/

/-- The loads and stores of the emitter. -/
inductive Access where
  | ldr64 | ldr32 | ldrh | ldrb | str64 | str32 | strh | strb
  | ldrQ | strQ | ldrD | strD | ldrS | strS
  deriving Repr, DecidableEq

namespace Access

/-- The encoder of an access at a byte offset. -/
def emit {ε : Type} : Access → Reg → Reg → BitVec 32 → EmitM ε Unit
  | ldr64 => Jit.ldr64 | ldr32 => Jit.ldr32 | ldrh => Jit.ldrh | ldrb => Jit.ldrb
  | str64 => Jit.str64 | str32 => Jit.str32 | strh => Jit.strh | strb => Jit.strb
  | ldrQ => Jit.ldrQ | strQ => Jit.strQ | ldrD => Jit.ldrD | strD => Jit.strD
  | ldrS => Jit.ldrS | strS => Jit.strS

/-- The number of bytes of an access. -/
def bytes : Access → Nat
  | ldr64 | str64 | ldrD | strD => 8
  | ldr32 | str32 | ldrS | strS => 4
  | ldrh | strh => 2
  | ldrb | strb => 1
  | ldrQ | strQ => 16

/-- The size field. -/
def size : Access → BitVec 2
  | ldr64 | str64 | ldrD | strD => 3
  | ldr32 | str32 | ldrS | strS => 2
  | ldrh | strh => 1
  | ldrb | strb | ldrQ | strQ => 0

/-- The bit that tells vector registers. -/
def v : Access → BitVec 1
  | ldrQ | strQ | ldrD | strD | ldrS | strS => 1
  | _ => 0

/-- The opcode field. -/
def opc : Access → BitVec 2
  | str64 | str32 | strh | strb | strD | strS => 0
  | strQ => 2
  | ldrQ => 3
  | _ => 1

theorem emit_eq {ε : Type} (a : Access) (rt rn : Reg) (offset : BitVec 32) :
    (a.emit rt rn offset : EmitM ε Unit) = ldstScaled a.bytes a.size a.v a.opc offset rn rt := by
  cases a <;> rfl

theorem bytes_pos (a : Access) : 0 < a.bytes := by
  cases a <;> decide

theorem bytes_lt (a : Access) : a.bytes < 2 ^ 32 := by
  cases a <;> decide

/-- A correctly encoded access has its own number of bytes. -/
theorem ldstBytes_eq (a : Access) : ldstBytes a.size (a.v == 1#1) a.opc = some a.bytes := by
  cases a <;> decide

/-- Other opcode bits do not make the access larger. -/
theorem ldstBytes_le (a : Access) (o : BitVec 2) {n : Nat}
    (h : ldstBytes a.size (a.v == 1#1) (a.opc ||| o) = some n) : n ≤ a.bytes := by
  have key : (ldstBytes a.size (a.v == 1#1) (a.opc ||| o)).all (fun n => decide (n ≤ a.bytes))
      = true := by
    rcases bv2_cases o with rfl | rfl | rfl | rfl <;> cases a <;> decide
  rw [h] at key
  simpa using key

end Access

theorem ldstBytes_le_16 {size opc : BitVec 2} {v : Bool} {n : Nat}
    (h : ldstBytes size v opc = some n) : n ≤ 16 := by
  have key : (ldstBytes size v opc).all (fun n => decide (n ≤ 16)) = true := by
    rcases bv2_cases size with rfl | rfl | rfl | rfl <;>
      rcases bv2_cases opc with rfl | rfl | rfl | rfl <;> cases v <;> decide
  rw [h] at key
  simpa using key

theorem extractLsb'_eq_zero_of_lt {q : Word} {a k : Nat} (h : q.toNat < 2 ^ a) :
    q.extractLsb' a k = 0 := by
  refine BitVec.eq_of_toNat_eq ?_
  rw [BitVec.extractLsb'_toNat, Nat.shiftRight_eq_div_pow, Nat.div_eq_of_lt h]
  rfl

/-- An offset that does not fit is above the offset of the access that the word makes. -/
theorem misencoded_offset_lt (a : Access) {offset : BitVec 32} (hfit : ¬ Fits a.bytes offset)
    {q : Word} (hq : q.toNat = offset.toNat / a.bytes) {n : Nat}
    (hn : ldstBytes (a.size ||| q.extractLsb' 20 2) ((a.v ||| q.extractLsb' 16 1) == 1#1)
      (a.opc ||| q.extractLsb' 12 2) = some n) :
    (q.extractLsb' 0 12).toNat * n < offset.toNat := by
  have himm : (q.extractLsb' 0 12).toNat = q.toNat % 2 ^ 12 := by
    rw [BitVec.extractLsb'_toNat, Nat.shiftRight_zero]
  have hle := Nat.mod_lt q.toNat (show 0 < 2 ^ 12 by decide)
  rw [himm]
  have hoff := Nat.div_add_mod offset.toNat a.bytes
  rw [← hq] at hoff
  have hpos := a.bytes_pos
  by_cases hbig : 2 ^ 16 ≤ q.toNat
  · have h16 := ldstBytes_le_16 hn
    have h1 : q.toNat % 2 ^ 12 * n ≤ 4095 * 16 := Nat.mul_le_mul (by omega) h16
    have h2 : 1 * q.toNat ≤ a.bytes * q.toNat := Nat.mul_le_mul_right _ hpos
    omega
  · have hbytes : n ≤ a.bytes := by
      rw [extractLsb'_eq_zero_of_lt (a := 20) (by omega),
        extractLsb'_eq_zero_of_lt (a := 16) (by omega)] at hn
      simp only [BitVec.ofNat_eq_ofNat, BitVec.or_zero] at hn
      exact a.ldstBytes_le _ hn
    have h1 : q.toNat % 2 ^ 12 * n ≤ q.toNat % 2 ^ 12 * a.bytes := Nat.mul_le_mul_left _ hbytes
    by_cases h12 : q.toNat < 2 ^ 12
    · have hr : offset.toNat % a.bytes ≠ 0 := fun h0 => hfit ⟨h0, by rw [← hq]; exact h12⟩
      rw [Nat.mod_eq_of_lt h12, Nat.mul_comm _ a.bytes] at h1
      rw [Nat.mod_eq_of_lt h12]
      omega
    · have h2 : q.toNat % 2 ^ 12 * a.bytes ≤ 4095 * a.bytes := Nat.mul_le_mul_right _ (by omega)
      have h3 : a.bytes * 4096 ≤ a.bytes * q.toNat := Nat.mul_le_mul_left _ (by omega)
      omega

/-! ### What a load leaves -/

/-- The low byte of a loaded value. -/
theorem loadValue_low {n : Nat} (hn : 0 < n) (opc : BitVec 2) (m : ByteMem) (a : BitVec 64) :
    (loadValue n opc m a).setWidth 8 = m a := by
  have hbit : ∀ i, i < 8 → (m.read 64 n a).getLsbD i = (m a).getLsbD i := by
    intro i hi
    rw [ByteMem.getLsbD_read, Nat.div_eq_of_lt hi, Nat.mod_eq_of_lt hi]
    simp [show i < 64 by omega, show i < 8 * n by omega]
  refine BitVec.eq_of_getLsbD_eq fun i hi => ?_
  have h8 : i < 8 * n := by
    omega
  rw [BitVec.getLsbD_setWidth, decide_eq_true hi, Bool.true_and, ← hbit i hi]
  unfold loadValue
  split
  · rw [BitVec.getLsbD_signExtend, if_pos h8, BitVec.getLsbD_setWidth]
    simp [h8, show i < 64 by omega]
  · rw [BitVec.getLsbD_setWidth, BitVec.getLsbD_signExtend, if_pos h8, BitVec.getLsbD_setWidth]
    simp [h8, show i < 64 by omega, show i < 32 by omega]
  · rfl

theorem ldstBytes_pos {size opc : BitVec 2} {v : Bool} {n : Nat} (h : ldstBytes size v opc = some n) :
    0 < n := by
  have hpow : 0 < 2 ^ size.toNat := Nat.two_pow_pos _
  unfold ldstBytes at h
  split at h
  case h_5 =>
    obtain rfl := Option.some.inj h
    exact hpow
  all_goals
    split_ifs at h
    obtain rfl := Option.some.inj h
    omega

/-- What a load or store of register `rt` leaves: other registers and memory away from its address as they
were, and in `rt` what was there, or a value from its address. -/
theorem execLdst_effect {size opc : BitVec 2} {v : Bool} {imm : BitVec 12} {rn rt : Reg} {s s' : State}
    (h31 : rt ≠ 31#5) (h : execLdst size v opc imm rn rt s = some s') :
    (∀ r, r ≠ rt → s'.x r = s.x r) ∧
    (s'.x rt = s.x rt ∨
      ∃ n, ldstBytes size v opc = some n ∧ (s'.x rt).setWidth 8 = s.mem (ldstAddr s n imm rn)) ∧
    ∀ b, (∀ n, ldstBytes size v opc = some n → ¬ InRange (ldstAddr s n imm rn) n b) →
      s'.mem b = s.mem b := by
  unfold execLdst at h
  cases hn : ldstBytes size v opc with
  | none =>
    rw [hn] at h
    dsimp only at h
    split_ifs at h
    obtain rfl := Option.some.inj h
    exact ⟨fun _ _ => rfl, .inl rfl, fun _ _ => rfl⟩
  | some n =>
    rw [hn] at h
    dsimp only at h
    have hstore : ∀ {w : Nat} (val : BitVec w) (b : BitVec 64),
        (∀ n', some n = some n' → ¬ InRange (ldstAddr s n' imm rn) n' b) →
          s.mem.write n (ldstAddr s n imm rn) val b = s.mem b := by
      intro w val b hb
      exact ByteMem.write_of_not_inRange (hb n rfl)
    by_cases hst : ldstIsStore v opc = true
    · rw [if_pos hst] at h
      split_ifs at h <;> obtain rfl := Option.some.inj h
      · exact ⟨fun _ _ => rfl, .inl rfl, hstore _⟩
      · exact ⟨fun _ _ => rfl, .inl rfl, hstore _⟩
    · rw [if_neg hst] at h
      split_ifs at h <;> obtain rfl := Option.some.inj h
      · exact ⟨fun _ _ => rfl, .inl rfl, fun _ _ => rfl⟩
      · refine ⟨fun r hr => ?_, .inr ⟨n, rfl, ?_⟩, fun b _ => ?_⟩
        · rw [State.x_writeX, if_neg fun hc => hr hc.1]
        · rw [State.x_writeX, if_pos ⟨rfl, h31⟩]
          exact loadValue_low (ldstBytes_pos hn) opc s.mem _
        · rw [State.writeX_mem]

end Quantum.Jit
