import Quantum.Kernel32.FilePointer

/-!
# Two ways to move a file

`SetFilePointer` takes the distance in two halves and `SetFilePointerEx` as a whole.  With a high half both
move the file alike; without one the low half is extended by zeros, so a negative distance leads 4 GiB too
far.  `positionsAgree_iff` says when the two agree.
-/

namespace Quantum.Kernel32

/-! ### What the two calls promise -/

/-- The distance that the two halves make: without a high half the low one is a signed number. -/
def distance (low : BitVec 32) : Option (BitVec 32) → BitVec 64
  | none => low.signExtend 64
  | some high => high ++ low

/-- `SetFilePointer` moves the file as `SetFilePointerEx` does, and with a high half it gives the halves of
the new position. -/
structure FileHost.PositionsAgree (host : FileHost) (handle : Handle) (low : BitVec 32)
    (high : Option (BitVec 32)) (method : BitVec 32) : Prop where
  moves : ∀ newPos, (host.setFilePointer handle low high method).host =
    (host.setFilePointerEx handle (distance low high) newPos method).host
  halves : ∀ h old p, high = some h →
    (host.setFilePointerEx handle (distance low high) (some old) method).ret = 1 →
    (host.setFilePointerEx handle (distance low high) (some old) method).out = some p →
    (host.setFilePointer handle low high method).ret = p.extractLsb' 0 32 ∧
      (host.setFilePointer handle low high method).out = some (p.extractLsb' 32 32)

/-- Of two targets one is no position, and the other is where the file is anyway. -/
def OpenFile.Coincides (f : OpenFile) (target : Int) : Prop :=
  (target < 0 ∧ target + 2 ^ 32 = f.pos) ∨ (2 ^ 63 ≤ target + 2 ^ 32 ∧ target = f.pos)

/-! ### Distances -/

theorem distance_some (low high : BitVec 32) :
    high.signExtend 64 <<< 32 ||| low.setWidth 64 = distance low (some high) := by
  have happend : ∀ i, (distance low (some high)).getLsbD i =
      if i < 32 then low.getLsbD i else high.getLsbD (i - 32) := fun i => BitVec.getLsbD_append
  apply BitVec.eq_of_getLsbD_eq
  intro i hi
  rw [happend, BitVec.getLsbD_or, BitVec.getLsbD_shiftLeft, BitVec.getLsbD_setWidth]
  by_cases hlow : i < 32
  · simp [hlow, hi]
  · have hin : i - 32 < 32 := by omega
    have hin' : i - 32 < 64 := by omega
    have hout : low.getLsbD i = false := BitVec.getLsbD_of_ge _ _ (by omega)
    simp [hlow, hin, hin', hi, hout, BitVec.getElem_signExtend]

theorem setWidth_eq_low (x : BitVec 64) : x.setWidth 32 = x.extractLsb' 0 32 :=
  BitVec.setWidth_eq_extractLsb' (by decide)

theorem sshiftRight_eq_high (x : BitVec 64) : (x.sshiftRight 32).setWidth 32 = x.extractLsb' 32 32 := by
  ext i hi
  have hin : i < 64 := by omega
  have hsum : 32 + i < 64 := by omega
  rw [BitVec.getElem_setWidth, BitVec.getLsbD_sshiftRight, BitVec.getElem_extractLsb', if_pos hsum]
  simp [hin]

theorem toInt_zeroExtended (low : BitVec 32) : (low.setWidth 64).toInt = low.toNat := by
  have hlt := low.isLt
  rw [BitVec.toInt_eq_toNat_of_lt]
  · rw [BitVec.toNat_setWidth, Nat.mod_eq_of_lt (by omega)]
  · rw [BitVec.toNat_setWidth]
    omega

theorem toInt_distance_none (low : BitVec 32) : (distance low none).toInt = low.toInt :=
  BitVec.toInt_signExtend_of_le (by decide)

/-- Extended by zeros, a negative distance becomes too large by 4 GiB. -/
theorem toNat_of_neg {low : BitVec 32} (h : low.toInt < 0) : (low.toNat : Int) = low.toInt + 2 ^ 32 := by
  rw [BitVec.toInt_eq_toNat_cond] at h ⊢
  split at h
  · omega
  · rw [if_neg (by assumption)]
    omega

theorem signExtend_of_nonneg {low : BitVec 32} (h : 0 ≤ low.toInt) :
    low.signExtend 64 = low.setWidth 64 := by
  apply BitVec.eq_of_toInt_eq
  have hsign := toInt_distance_none low
  rw [distance] at hsign
  rw [hsign, toInt_zeroExtended]
  rw [BitVec.toInt_eq_toNat_cond] at h ⊢
  split at h
  · rw [if_pos (by assumption)]
  · omega

/-! ### `lseek` -/

section

variable {host : FileHost} {fd : BitVec 32} {f : OpenFile} {offset : BitVec 64} {whence : Whence}

theorem OpenFile.origin_lt (f : OpenFile) (whence : Whence) : f.origin whence < 2 ^ 63 := by
  cases whence with
  | set => exact Nat.two_pow_pos 63
  | cur => exact f.pos_lt
  | end_ => exact f.size_lt

/-- Where the file is after `lseek`. -/
def OpenFile.target (f : OpenFile) (whence : Whence) (offset : Int) : Int :=
  f.origin whence + offset

/-- `lseek` moves an open file to the target if that is a position. -/
theorem pos_lseek (hf : host.files fd = some f) :
    (((host.lseek fd offset whence).1.files fd).map fun f => (f.pos : Int)) =
      if 0 ≤ f.target whence offset.toInt ∧ f.target whence offset.toInt < 2 ^ 63
      then some (f.target whence offset.toInt) else some (f.pos : Int) := by
  unfold FileHost.lseek
  rw [hf]
  dsimp only
  change (Option.map _ ((if _ : 0 ≤ f.target whence offset.toInt ∧ f.target whence offset.toInt < 2 ^ 63
    then _ else _ : FileHost × BitVec 64).1.files fd)) = _
  by_cases h : 0 ≤ f.target whence offset.toInt ∧ f.target whence offset.toInt < 2 ^ 63
  · rw [dif_pos h, if_pos h]
    simp only [Function.update_self, Option.map_some, Option.some.injEq]
    exact Int.toNat_of_nonneg h.1
  · rw [dif_neg h, if_neg h, hf, Option.map_some]

/-- Two offsets leave the host alike if and only if they leave the file at the same position. -/
theorem lseek_fst_eq_iff (hf : host.files fd = some f) {offset' : BitVec 64} :
    (host.lseek fd offset whence).1 = (host.lseek fd offset' whence).1 ↔
      ((host.lseek fd offset whence).1.files fd).map (fun f => (f.pos : Int)) =
        ((host.lseek fd offset' whence).1.files fd).map (fun f => (f.pos : Int)) := by
  constructor
  · intro h
    rw [h]
  · have hcases : ∀ offset, ∃ pos hlt, (host.lseek fd offset whence).1 =
        { host with files := Function.update host.files fd (some { f with pos := pos, pos_lt := hlt }) } := by
      intro offset
      unfold FileHost.lseek
      rw [hf]
      dsimp only
      split
      case isTrue h => exact ⟨_, by omega, rfl⟩
      case isFalse =>
        refine ⟨f.pos, f.pos_lt, ?_⟩
        have hsame : ({ f with pos := f.pos, pos_lt := f.pos_lt } : OpenFile) = f := rfl
        rw [hsame, ← hf, Function.update_eq_self]
    obtain ⟨p, hp, h₁⟩ := hcases offset
    obtain ⟨q, hq, h₂⟩ := hcases offset'
    rw [h₁, h₂]
    simp only [Function.update_self, Option.map_some, Option.some.injEq, Nat.cast_inj]
    rintro rfl
    rfl

end

/-! ### The calls -/

section

variable {host : FileHost} {handle : Handle} {low method : BitVec 32} {fd : BitVec 32} {f : OpenFile}

theorem fdOf_eq (hh : host.objects handle = some (.file fd)) : host.fdOf handle = some fd := by
  rw [FileHost.fdOf, hh]

/-- The calls move the file by `lseek`, if the method is known. -/
theorem setFilePointer_host (hh : host.objects handle = some (.file fd)) (high : Option (BitVec 32)) :
    (host.setFilePointer handle low high method).host =
      match whenceOf method with
      | none => host
      | some whence =>
        (host.lseek fd (match high with
          | some h => h.signExtend 64 <<< 32 ||| low.setWidth 64
          | none => low.setWidth 64) whence).1 := by
  have hzero : (0 : BitVec 64) <<< 32 ||| low.setWidth 64 = low.setWidth 64 := by
    rw [show (0 : BitVec 64) <<< 32 = 0#64 from rfl, BitVec.zero_or]
  unfold FileHost.setFilePointer
  simp only [fdOf_eq hh]
  cases whenceOf method with
  | none => rfl
  | some whence =>
    cases high with
    | none =>
      simp only [hzero]
      split
      · rfl
      · rfl
    | some h =>
      dsimp only
      split
      · rfl
      · rfl

theorem setFilePointerEx_host (hh : host.objects handle = some (.file fd)) (dist : BitVec 64)
    (newPos : Option (BitVec 64)) :
    (host.setFilePointerEx handle dist newPos method).host =
      match whenceOf method with
      | none => host
      | some whence => (host.lseek fd dist whence).1 := by
  unfold FileHost.setFilePointerEx
  simp only [fdOf_eq hh]
  cases whenceOf method with
  | none => rfl
  | some whence =>
    dsimp only
    split
    · rfl
    · rfl

/-- With a high half the two calls agree, and `SetFilePointer` gives both halves of the position. -/
theorem positionsAgree_some (hh : host.objects handle = some (.file fd)) (high : BitVec 32) :
    host.PositionsAgree handle low (some high) method := by
  constructor
  · intro newPos
    rw [setFilePointer_host hh, setFilePointerEx_host hh]
    simp only [distance_some]
  · intro h old p _ hret hout
    unfold FileHost.setFilePointerEx at hret hout
    unfold FileHost.setFilePointer
    simp only [fdOf_eq hh] at hret hout ⊢
    cases hw : whenceOf method with
    | none =>
      simp only [hw] at hret
      cases hret
    | some whence =>
      simp only [hw, distance_some] at hret hout ⊢
      by_cases hneg : (host.lseek fd (distance low (some high)) whence).2.slt 0
      · rw [if_pos hneg] at hret
        cases hret
      · rw [if_neg hneg] at hout ⊢
        obtain rfl := Option.some.inj hout
        exact ⟨setWidth_eq_low _, congrArg some (sshiftRight_eq_high _)⟩

end

/-- **File positions.**  The two calls agree exactly when a high half is given, the distance is not negative
or the method is unknown, or when the two targets coincide by chance. -/
theorem positionsAgree_iff {host : FileHost} {handle : Handle} {fd : BitVec 32} {f : OpenFile}
    (hh : host.objects handle = some (.file fd)) (hf : host.files fd = some f) (low : BitVec 32)
    (high : Option (BitVec 32)) (method : BitVec 32) :
    host.PositionsAgree handle low high method ↔
      high.isSome ∨ 0 ≤ low.toInt ∨
        ∀ whence, whenceOf method = some whence → f.Coincides (f.target whence low.toInt) := by
  cases high with
  | some high => exact iff_of_true (positionsAgree_some hh high) (.inl rfl)
  | none =>
    have hagree : host.PositionsAgree handle low none method ↔ ∀ whence, whenceOf method = some whence →
        (host.lseek fd (low.setWidth 64) whence).1 = (host.lseek fd (distance low none) whence).1 := by
      constructor
      · intro h whence hw
        have hmoves := h.moves none
        rw [setFilePointer_host hh, setFilePointerEx_host hh, hw] at hmoves
        exact hmoves
      · intro h
        refine ⟨fun newPos => ?_, nofun⟩
        rw [setFilePointer_host hh, setFilePointerEx_host hh]
        cases hw : whenceOf method with
        | none => rfl
        | some whence => exact h whence hw
    rw [hagree]
    by_cases hneg : 0 ≤ low.toInt
    · refine iff_of_true (fun whence _ => ?_) (.inr (.inl hneg))
      rw [distance, signExtend_of_nonneg hneg]
    · simp only [Option.isSome_none, Bool.false_eq_true, false_or, hneg]
      refine forall_congr' fun whence => imp_congr_right fun _ => ?_
      rw [lseek_fst_eq_iff hf, pos_lseek hf, pos_lseek hf, toInt_distance_none, toInt_zeroExtended,
        toNat_of_neg (by omega)]
      have horigin := f.origin_lt whence
      have hlow := BitVec.le_toInt low
      have hpos := f.pos_lt
      have hsum : f.target whence (low.toInt + 2 ^ 32) = f.target whence low.toInt + 2 ^ 32 := by
        unfold OpenFile.target
        omega
      have hlarge : 0 ≤ f.target whence low.toInt + 2 ^ 32 := by
        unfold OpenFile.target
        omega
      have hsmall : f.target whence low.toInt < 2 ^ 63 := by
        unfold OpenFile.target
        omega
      rw [hsum, OpenFile.Coincides]
      generalize f.target whence low.toInt = target at *
      split_ifs with h₁ h₂ h₂
      · -- both are positions, and they differ
        simp only [Option.some.injEq]
        omega
      · simp only [Option.some.injEq]
        omega
      · simp only [Option.some.injEq]
        omega
      · omega

/-- A file of 100 bytes at position 10, behind every handle. -/
def oneFile : FileHost where
  objects _ := some (.file 3)
  files _ := some ⟨10, 100, by decide, by decide⟩

theorem positionsAgree_iff_back :
    oneFile.PositionsAgree 0x1000 0xFFFFFFFF (some 0xFFFFFFFF) 1 :=
  (@positionsAgree_iff oneFile 0x1000 3 _ rfl rfl _ _ _).mpr (.inl rfl)

/-- One byte back from the current position, and 4 GiB too far. -/
theorem not_positionsAgree_back : ¬ ∀ host handle fd f low high method,
    FileHost.objects host handle = some (.file fd) → host.files fd = some f →
    host.PositionsAgree handle low high method := by
  intro h
  have hmoves := (h oneFile 0x1000 3 _ 0xFFFFFFFF none 1 rfl rfl).moves none
  have hpos := congrArg (fun host => (host.files 3).map (·.pos)) hmoves
  revert hpos
  decide

end Quantum.Kernel32
