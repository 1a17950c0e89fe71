import Quantum.Loader.Equiv.Totality

/-!
# The two models of the unwind information

`Exception.parseUnwindInfo` returns what `Loader.parseUnwindInfo` does, which has no errors and no
arithmetic that may panic, and so does `Exception.resolveHandler`.
-/

namespace Quantum.Loader.Exception

open Checked

variable {image : PeImage} {α : Type}

theorem sliceOr_eq_error {rva : BitVec 32} {n : Nat} {e : LoadError} {x : Fault LoadError}
    (h : image.sliceOr rva n e = .error x) : image.rvaToSlice rva n = none := by
  unfold PeImage.sliceOr okOr at h
  split at h
  · cases h
  · assumption

theorem index_of_lt {s : Bytes} {k : Nat} (h : k < s.length) :
    (Checked.index s k : Checked LoadError _) = .ok (s.getD k 0) := by
  rw [Checked.index, List.getElem?_eq_getElem h, List.getD_eq_getElem?_getD,
    List.getElem?_eq_getElem h]
  rfl

theorem u32At_of_le {s : Bytes} {k : Nat} (h : k + 4 ≤ s.length) :
    u32At s k = .ok (le32 (s.drop k)) := by
  have hget : ∀ i < 4, ((s.drop k).take 4).getD i 0 = (s.drop k).getD i 0 := fun i hi => by
    rw [List.getD_eq_getElem?_getD, List.getD_eq_getElem?_getD, List.getElem?_take_of_lt hi]
  rw [u32At, Checked.slice, if_pos h]
  show Except.ok (le32 _) = _
  rw [le32, le32, hget 0 (by decide), hget 1 (by decide), hget 2 (by decide), hget 3 (by decide)]

theorem runtimeFunction_of_length {s : Bytes} (h : s.length = 12) :
    runtimeFunction s = .ok (RuntimeFunction.ofBytes s) := by
  rw [runtimeFunction, u32At_of_le (by omega), u32At_of_le (by omega), u32At_of_le (by omega)]
  rfl

/-- What follows the codes, without the errors. -/
def trailerOf (image : LoadedImage) (flags : BitVec 8) (off : BitVec 32) :
    Option (Option (BitVec 32) × Option RuntimeFunction) :=
  if flags &&& unwFlagChaininfo ≠ 0 then
    (image.rvaToSlice off 12).map fun b => (none, some (RuntimeFunction.ofBytes b))
  else if flags &&& (unwFlagEhandler ||| unwFlagUhandler) ≠ 0 then
    (image.rvaToSlice off 4).map fun b => (some (le32 b), none)
  else some (none, none)

theorem parseTrailer_toOption (image : PeImage) (flags : BitVec 8) (off : BitVec 32) :
    (parseTrailer image flags off).toOption = trailerOf image.toLoadedImage flags off := by
  have h12 : RUNTIME_FUNCTION_SIZE.toNat = 12 := rfl
  unfold parseTrailer trailerOf
  split
  · rw [h12]
    cases hs : image.sliceOr off 12
        (.malformed "UNWIND_INFO chained RUNTIME_FUNCTION oob" off.toNat) with
    | error e =>
      rw [sliceOr_eq_error hs]
      rfl
    | ok b =>
      rw [okOr_eq_ok.mp hs, ok_bind, runtimeFunction_of_length (sliceOr_eq_ok hs).2]
      rfl
  · split
    · cases hs : image.sliceOr off 4 (.malformed "UNWIND_INFO handler RVA oob" off.toNat) with
      | error e =>
        rw [sliceOr_eq_error hs]
        rfl
      | ok b =>
        have hb := (sliceOr_eq_ok hs).2
        rw [okOr_eq_ok.mp hs, ok_bind, u32At_of_le (by omega)]
        rfl
    · rfl

/-- The unwind information, from its header, its codes and its trailer. -/
def unwindInfoOf (header codes : Bytes) (trailer : Option (BitVec 32) × Option RuntimeFunction) :
    UnwindInfo where
  version := header.getD 0 0 &&& 0x07
  flags := (header.getD 0 0 >>> 3) &&& 0x1F
  sizeOfProlog := header.getD 1 0
  countOfCodes := header.getD 2 0
  frameRegister := header.getD 3 0 &&& 0x0F
  frameOffset := (header.getD 3 0 >>> 4) &&& 0x0F
  unwindCodes := codes
  handlerRva := trailer.1
  chainedFunction := trailer.2

theorem parseUnwindInfo_eq (image : LoadedImage) (unwindRva : BitVec 32) :
    Loader.parseUnwindInfo image unwindRva = (image.rvaToSlice unwindRva 4).bind fun header =>
      if header.getD 0 0 &&& 0x07 ≠ 1 ∧ header.getD 0 0 &&& 0x07 ≠ 2 then none
      else
        let codesSize := ((header.getD 2 0).toNat + 1) / 2 * 2 * 2
        (image.rvaToSlice (unwindRva + 4) codesSize).bind fun codes =>
          (trailerOf image ((header.getD 0 0 >>> 3) &&& 0x1F)
            (unwindRva + 4 + BitVec.ofNat 32 codesSize)).map (unwindInfoOf header codes) := by
  unfold Loader.parseUnwindInfo
  cases image.rvaToSlice unwindRva 4 with
  | none => rfl
  | some header =>
    simp only [Option.bind_eq_bind, Option.bind_some]
    split
    · rfl
    · unfold trailerOf
      cases image.rvaToSlice (unwindRva + 4) (((header.getD 2 0).toNat + 1) / 2 * 2 * 2) with
      | none => rfl
      | some codes =>
        simp only [Option.bind_some]
        by_cases hchain : (header.getD 0 0 >>> 3) &&& 0x1F &&& unwFlagChaininfo ≠ 0
        · have hnot : ¬ ((header.getD 0 0 >>> 3) &&& 0x1F &&& unwFlagChaininfo = 0 ∧
              (header.getD 0 0 >>> 3) &&& 0x1F &&& (unwFlagEhandler ||| unwFlagUhandler) ≠ 0) :=
            fun h => hchain h.1
          simp only [if_pos hchain, if_neg hnot]
          cases image.rvaToSlice _ 12 <;> rfl
        · simp only [if_neg hchain]
          by_cases hhandler :
              (header.getD 0 0 >>> 3) &&& 0x1F &&& (unwFlagEhandler ||| unwFlagUhandler) ≠ 0
          · simp only [if_pos hhandler, if_pos (And.intro (not_not.mp hchain) hhandler)]
            cases image.rvaToSlice _ 4 <;> rfl
          · have hnot : ¬ ((header.getD 0 0 >>> 3) &&& 0x1F &&& unwFlagChaininfo = 0 ∧
                (header.getD 0 0 >>> 3) &&& 0x1F &&& (unwFlagEhandler ||| unwFlagUhandler) ≠ 0) :=
              fun h => hhandler h.2
            simp only [if_neg hhandler, if_neg hnot]
            rfl

/-! ### The size of the codes

`half` is half of the padded number of codes.
-/

section CodesSize

variable {half : Nat}

theorem mul_padded (h : half ≤ 128) : (Checked.mul (BitVec.ofNat 32 half) 2 : Checked LoadError _) =
    .ok (BitVec.ofNat 32 (half * 2)) := by
  refine mul_eq_ok.mpr ?_
  rw [toNat_ofNat_of_lt (show half < 129 by omega) (by decide),
    toNat_ofNat_of_lt (show half * 2 < 257 by omega) (by decide)]
  rfl

theorem toNat_codesSize (h : half ≤ 128) :
    (BitVec.ofNat 64 (half * 2 * 2)).toNat = half * 2 * 2 := by
  rw [BitVec.toNat_ofNat, Nat.mod_eq_of_lt (by omega)]

theorem mul_codesSize (h : half ≤ 128) :
    (Checked.mul ((BitVec.ofNat 32 (half * 2)).setWidth 64) 2 : Checked LoadError _) =
      .ok (BitVec.ofNat 64 (half * 2 * 2)) := by
  refine mul_eq_ok.mpr ?_
  rw [BitVec.toNat_setWidth_of_le (by decide), toNat_codesSize h,
    toNat_ofNat_of_lt (show half * 2 < 257 by omega) (by decide)]
  rfl

theorem setWidth_codesSize (h : half ≤ 128) :
    (BitVec.ofNat 64 (half * 2 * 2)).setWidth 32 = BitVec.ofNat 32 (half * 2 * 2) := by
  refine BitVec.eq_of_toNat_eq ?_
  rw [BitVec.toNat_setWidth, toNat_codesSize h, BitVec.toNat_ofNat]

end CodesSize

/-- The two models return the same. -/
theorem parseUnwindInfo_toOption (image : PeImage) (unwindRva : BitVec 32) :
    (parseUnwindInfo image unwindRva).toOption =
      Loader.parseUnwindInfo image.toLoadedImage unwindRva := by
  rw [parseUnwindInfo_eq]
  unfold parseUnwindInfo
  cases hs : image.sliceOr unwindRva 4 (.malformed "UNWIND_INFO header oob" unwindRva.toNat) with
  | error e =>
    rw [sliceOr_eq_error hs]
    rfl
  | ok header =>
    obtain ⟨hin, hlen⟩ := sliceOr_eq_ok hs
    rw [okOr_eq_ok.mp hs, Option.bind_some]
    simp only [ok_bind, index_of_lt (show 0 < header.length by omega),
      index_of_lt (show 1 < header.length by omega), index_of_lt (show 2 < header.length by omega),
      index_of_lt (show 3 < header.length by omega)]
    split
    · rename_i hversion
      rw [ensure, if_neg (not_not.mpr hversion)]
      rfl
    · rename_i hversion
      rw [ensure, if_pos hversion, ok_bind]
      have hlen_le := image.len_le
      have hcount := (header.getD 2 0).isLt
      have hhalf : ((header.getD 2 0).toNat + 1) / 2 ≤ 128 := by omega
      generalize ((header.getD 2 0).toNat + 1) / 2 = half at hhalf
      have hoff : (Checked.add unwindRva 4 : Checked LoadError _) = .ok (unwindRva + 4) :=
        add_of_lt (show unwindRva.toNat + 4 < 2 ^ 32 by omega)
      rw [mul_padded hhalf, ok_bind, mul_codesSize hhalf, ok_bind, hoff, ok_bind,
        toNat_codesSize hhalf, setWidth_codesSize hhalf]
      cases hc : image.sliceOr (unwindRva + 4) (half * 2 * 2)
          (.malformed "UNWIND_INFO codes oob" (unwindRva + 4).toNat) with
      | error e =>
        rw [sliceOr_eq_error hc]
        rfl
      | ok codes =>
        have hcodes := (sliceOr_eq_ok hc).1
        have htrailer : (Checked.add (unwindRva + 4) (BitVec.ofNat 32 (half * 2 * 2)) :
            Checked LoadError _) = .ok (unwindRva + 4 + BitVec.ofNat 32 (half * 2 * 2)) :=
          add_of_lt (by
            rw [toNat_ofNat_of_lt (show half * 2 * 2 < 513 by omega) (by decide)]
            omega)
        rw [okOr_eq_ok.mp hc, Option.bind_some, ok_bind, htrailer, ok_bind, ← parseTrailer_toOption]
        cases parseTrailer image _ _ <;> rfl

/-- Following a chain returns the same in both models. -/
theorem resolveHandler_toOption (image : PeImage) (starting : RuntimeFunction) :
    (resolveHandler image starting).toOption =
      Loader.resolveHandler image.toLoadedImage starting := by
  unfold resolveHandler Loader.resolveHandler
  generalize 16 = left
  induction left generalizing starting with
  | zero => rfl
  | succ left ih =>
    rw [resolveHandlerLoop, Loader.resolveHandlerLoop, ← parseUnwindInfo_toOption]
    cases parseUnwindInfo image starting.unwindInfoRva with
    | error e => rfl
    | ok ui =>
      have hsome : (Except.ok ui : Checked LoadError UnwindInfo).toOption = some ui := rfl
      simp only [hsome, ok_bind, Option.bind_eq_bind, Option.bind_some]
      cases ui.chainedFunction with
      | none => rfl
      | some next => exact ih next

end Quantum.Loader.Exception
