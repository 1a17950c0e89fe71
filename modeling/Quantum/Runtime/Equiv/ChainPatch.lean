import Quantum.Jit.Equiv.Certify
import Quantum.Runtime.Equiv.CodeCache

/-!
# Rewriting a placeholder

`patch_chain` writes a branch to the target over the placeholder when the target is within reach, and leaves
everything as it is when it is not (`rewrites_iff`).
-/

namespace Quantum.Runtime

open A64

/-- The word that is written is a branch by the distance, if that fits. -/
theorem decode_chainWord (words : BitVec 64) :
    decode (Dispatcher.chainWord words) = some (.b false (words.setWidth 26)) := by
  have hmask : words.setWidth 32 &&& 0x03FFFFFF#32 = bitField 0 (words.setWidth 26) := by
    have hbits : ∀ i : Fin 32, (0x03FFFFFF#32).getLsbD i = decide (i.val < 26) := by
      decide
    apply BitVec.eq_of_getLsbD_eq
    intro i hi
    rw [BitVec.getLsbD_and, hbits ⟨i, hi⟩, bitField, BitVec.shiftLeft_zero, BitVec.getLsbD_setWidth,
      BitVec.getLsbD_setWidth, BitVec.getLsbD_setWidth]
    simp only [hi, decide_true, Bool.true_and]
    exact Bool.and_comm _ _
  rw [Dispatcher.chainWord, hmask, Jit.decode_b]

/-- A distance that is a multiple of four, in words and back. -/
theorem sshiftRight_shiftLeft_two {delta : BitVec 64} (h : delta &&& 0x3 = 0) :
    delta.sshiftRight 2 <<< 2 = delta := by
  have hlow : ∀ i, i < 2 → delta.getLsbD i = false := by
    intro i hi
    have hmask : ∀ i : Fin 2, (0x3 : BitVec 64).getLsbD i = true := by
      decide
    have hm : (0x3 : BitVec 64).getLsbD i = true := hmask ⟨i, hi⟩
    have hbit := congrArg (fun b : BitVec 64 => b.getLsbD i) h
    rw [BitVec.getLsbD_and, hm, Bool.and_true] at hbit
    exact hbit.trans BitVec.getLsbD_zero
  apply BitVec.eq_of_getLsbD_eq
  intro i hi
  rw [BitVec.getLsbD_shiftLeft, BitVec.getLsbD_sshiftRight]
  by_cases h2 : i < 2
  · simp [h2, hlow i h2]
  · have hi2 : 2 + (i - 2) = i := by omega
    simp [h2, hi2, hi]
    omega

theorem signExtend_setWidth_of_range {words : BitVec 64} (h : -(2 ^ 25) ≤ words.toInt ∧ words.toInt < 2 ^ 25) :
    (words.setWidth 26).signExtend 64 = words := by
  have htrunc : words.setWidth 26 = BitVec.ofInt 26 words.toInt := by
    apply BitVec.eq_of_toNat_eq
    have hlt := words.isLt
    rw [BitVec.toNat_setWidth, BitVec.toNat_ofInt, BitVec.toInt_eq_toNat_cond]
    split <;> omega
  apply BitVec.eq_of_toInt_eq
  rw [BitVec.toInt_signExtend_of_le (by decide), htrunc, Jit.toInt_ofInt_of_range (by decide) h]

/-- The addresses are within the reach of a branch: 128 MiB. -/
def InReach (site target : BitVec 64) : Prop :=
  -(2 ^ 27) ≤ (target - site).toInt ∧ (target - site).toInt < 2 ^ 27

/-- What rewriting the placeholder at `site` may come to: a target out of reach leaves everything as it is,
and for the others a branch to the target is written. -/
def Rewrites (d : Dispatcher) (site target : BitVec 64) (r : Option (Bool × Dispatcher)) : Prop :=
  (r = some (false, d) ∧ ¬ InReach site target) ∨
    ∃ d' imm, r = some (true, d') ∧ InReach site target ∧
      d' = { d with mem := d.mem.write 4 site (d'.mem.read 32 4 site) } ∧
      decode (d'.mem.read 32 4 site) = some (.b false imm) ∧ site + imm.signExtend 64 <<< 2 = target

theorem rewrites_patchChain {overflowChecks : Bool} {d : Dispatcher} {site target : BitVec 64}
    (hsite : site.toNat % 4 = 0) (htarget : target.toNat % 4 = 0)
    (hov : overflowChecks = true → target.ssubOverflow site = false) :
    Rewrites d site target (d.patchChain overflowChecks site target) := by
  have hpanic : (overflowChecks && target.ssubOverflow site) = false := by
    cases overflowChecks with
    | false => rfl
    | true => exact hov rfl
  have hal : (target - site) &&& 0x3 = 0 := by
    apply BitVec.eq_of_toNat_eq
    have hlt := site.isLt
    have hand := toNat_and_three (target - site)
    have hzero : (0 : BitVec 64).toNat = 0 := rfl
    rw [BitVec.toNat_sub] at hand
    rw [hzero]
    exact hand.trans (by omega)
  have hwords : ((target - site).sshiftRight 2).toInt = (target - site).toInt / 4 := by
    rw [BitVec.toInt_sshiftRight, Int.shiftRight_eq_div_pow]
    rfl
  have hreach : (-((1 <<< 25 : Nat) : Int) ≤ ((target - site).sshiftRight 2).toInt ∧
      ((target - site).sshiftRight 2).toInt ≤ ((1 <<< 25 : Nat) : Int) - 1) ↔ InReach site target := by
    have hone : ((1 <<< 25 : Nat) : Int) = 2 ^ 25 := by
      decide
    rw [hone, hwords, InReach]
    omega
  unfold Dispatcher.patchChain
  rw [hpanic]
  dsimp only
  rw [if_neg Bool.false_ne_true, if_neg (not_not.mpr hal)]
  by_cases hr : InReach site target
  · rw [if_pos (hreach.mpr hr)]
    have hread : (d.mem.write 4 site (Dispatcher.chainWord ((target - site).sshiftRight 2))).read 32 4 site
        = Dispatcher.chainWord ((target - site).sshiftRight 2) := by
      rw [ByteMem.read_write_self _ _ _ _ (by decide)]
      simp
    have hrange : -(2 ^ 25) ≤ ((target - site).sshiftRight 2).toInt ∧
        ((target - site).sshiftRight 2).toInt < 2 ^ 25 := by
      rw [hwords]
      unfold InReach at hr
      omega
    refine .inr ⟨_, ((target - site).sshiftRight 2).setWidth 26, rfl, hr, ?_, ?_, ?_⟩
    · rw [hread]
    · rw [hread, decode_chainWord]
    · rw [signExtend_setWidth_of_range hrange, sshiftRight_shiftLeft_two hal, BitVec.add_comm,
        BitVec.sub_add_cancel]
  · rw [if_neg fun h => hr (hreach.mp h)]
    exact .inl ⟨rfl, hr⟩

/-- The panic of a build that checks for overflow is the only other outcome. -/
theorem rewrites_iff {overflowChecks : Bool} {d : Dispatcher} {site target : BitVec 64}
    (hsite : site.toNat % 4 = 0) (htarget : target.toNat % 4 = 0) :
    Rewrites d site target (d.patchChain overflowChecks site target) ↔
      (overflowChecks = true → target.ssubOverflow site = false) := by
  constructor
  · rintro h rfl
    by_contra hne
    rw [Bool.not_eq_false] at hne
    have hnone : d.patchChain true site target = none := by
      unfold Dispatcher.patchChain
      rw [hne]
      rfl
    rw [hnone] at h
    rcases h with ⟨h, -⟩ | ⟨d', imm, h, -⟩
    · cases h
    · cases h
  · exact fun h => rewrites_patchChain hsite htarget h

end Quantum.Runtime
