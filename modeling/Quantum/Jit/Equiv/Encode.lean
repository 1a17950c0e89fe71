import Quantum.Jit.Lifter.Basic

/-!
# What the emitted words mean

The encoders of the emitter and the decoder of the host agree: `decode` of an encoded word is the
instruction with the fields that were put in.  Each lemma names the word function and gives its
instruction; the general ones (`decode_addsubShiftedWord`, `decode_ldstUoffWord`, …) cover a family.

`decode_ldstUoffWord` needs the offset to fit its field.  What a load or store with a wider offset
decodes to is in `Equiv/Misencode.lean`.
-/

namespace Quantum.Jit

open A64

/-- Bits of a word that come from a field or from the constant part. -/
theorem decode_of_top {w : Word} {t : BitVec 8} (h : w.field 24 8 = t) :
    decode w = decodeTop t.toNat w := by
  rw [decode, h]

/-! ### Three and two registers over constant bits -/

section Regs

variable (base : Word) (rm rn rd : Reg)

theorem field_regs3Word {l n : Nat} (hl : 21 ≤ l ∨ (10 ≤ l ∧ l + n ≤ 16)) :
    Word.field (regs3Word base rm rn rd) l n = Word.field base l n := by
  simp only [regs3Word, Word.field, BitVec.extractLsb'_or]
  rw [extractLsb'_bitField_of_disjoint _ _ _ _ (by omega),
    extractLsb'_bitField_of_disjoint _ _ _ _ (by omega),
    extractLsb'_bitField_of_disjoint _ _ _ _ (by omega)]
  simp

theorem regs3Word_rd (h : Word.field base 0 5 = 0) : Word.rd (regs3Word base rm rn rd) = rd := by
  simp (disch := decide) only [regs3Word, Word.rd, Word.field, BitVec.extractLsb'_or,
    extractLsb'_bitField_of_disjoint, extractLsb'_bitField_self]
  rw [show BitVec.extractLsb' 0 5 base = 0 from h]
  simp

theorem regs3Word_rn (h : Word.field base 5 5 = 0) : Word.rn (regs3Word base rm rn rd) = rn := by
  simp (disch := decide) only [regs3Word, Word.rn, Word.field, BitVec.extractLsb'_or,
    extractLsb'_bitField_of_disjoint, extractLsb'_bitField_self]
  rw [show BitVec.extractLsb' 5 5 base = 0 from h]
  simp

theorem regs3Word_rm (h : Word.field base 16 5 = 0) : Word.rm (regs3Word base rm rn rd) = rm := by
  simp (disch := decide) only [regs3Word, Word.rm, Word.field, BitVec.extractLsb'_or,
    extractLsb'_bitField_of_disjoint, extractLsb'_bitField_self]
  rw [show BitVec.extractLsb' 16 5 base = 0 from h]
  simp

theorem field_regs2Word {l n : Nat} (hl : 10 ≤ l) :
    Word.field (regs2Word base rn rd) l n = Word.field base l n := by
  simp only [regs2Word, Word.field, BitVec.extractLsb'_or]
  rw [extractLsb'_bitField_of_disjoint _ _ _ _ (by omega),
    extractLsb'_bitField_of_disjoint _ _ _ _ (by omega)]
  simp

theorem bit_regs2Word {i : Nat} (hl : 10 ≤ i) :
    Word.bit (regs2Word base rn rd) i = Word.bit base i := by
  rw [Word.bit, Word.bit, field_regs2Word _ _ _ hl]

theorem regs2Word_rd (h : Word.field base 0 5 = 0) : Word.rd (regs2Word base rn rd) = rd := by
  simp (disch := decide) only [regs2Word, Word.rd, Word.field, BitVec.extractLsb'_or,
    extractLsb'_bitField_of_disjoint, extractLsb'_bitField_self]
  rw [show BitVec.extractLsb' 0 5 base = 0 from h]
  simp

theorem regs2Word_rn (h : Word.field base 5 5 = 0) : Word.rn (regs2Word base rn rd) = rn := by
  simp (disch := decide) only [regs2Word, Word.rn, Word.field, BitVec.extractLsb'_or,
    extractLsb'_bitField_of_disjoint, extractLsb'_bitField_self]
  rw [show BitVec.extractLsb' 5 5 base = 0 from h]
  simp

end Regs

section Tables

variable (vm vn vd rn rd : Reg)

theorem decode_regs3Word_vec {e : Word × VecOp} (he : e ∈ vecTable) :
    decode (regs3Word e.1 vm vn vd) = some (.vec e.2 vm vn vd) := by
  -- everything about the constant part is checked over the table at once
  have hall : ∀ e ∈ vecTable, (Word.field e.1 24 8 = 0x4E#8 ∨ Word.field e.1 24 8 = 0x6E#8) ∧
      Word.field e.1 0 5 = 0 ∧ Word.field e.1 5 5 = 0 ∧ Word.field e.1 16 5 = 0 ∧
      Word.field e.1 21 11 ≠ 0x370#11 ∧
      ¬ (Word.field e.1 21 11 = 0x270#11 ∧ Word.field e.1 10 6 = 7#6) ∧
      Word.field e.1 21 11 ≠ 0x071#11 ∧ Word.field e.1 21 11 ≠ 0x070#11 ∧
      vecTable.find? (fun b => opcode3 b.1 == opcode3 e.1) = some e := by decide
  obtain ⟨htop, h0, h5, h16, h1, h2, h3, h4, hfind⟩ := hall e he
  have hop : opcode3 (regs3Word e.1 vm vn vd) = opcode3 e.1 := by
    rw [opcode3, opcode3, field_regs3Word _ _ _ _ (by decide), field_regs3Word _ _ _ _ (by decide)]
  have hdec : decode (regs3Word e.1 vm vn vd) = decodeVec (regs3Word e.1 vm vn vd) := by
    rcases htop with h | h <;>
    · rw [decode_of_top (by rw [field_regs3Word _ _ _ _ (by decide), h])]
      rfl
  have h2' : (decide (Word.field e.1 21 11 = 0x270#11) && decide (Word.field e.1 10 6 = 7#6))
      = false := by
    rw [← Bool.decide_and]
    exact decide_eq_false h2
  rw [hdec, decodeVec, decodeVecOp, hop, hfind, regs3Word_rd _ _ _ _ h0, regs3Word_rn _ _ _ _ h5,
    regs3Word_rm _ _ _ _ h16]
  simp (disch := decide) only [field_regs3Word, h1, h2', h3, h4, decide_false, Bool.false_and,
    Bool.false_eq_true, if_false]

theorem decode_regs3Word_fpVec {b : Word} (hb : b ∈ fpVecTable) :
    decode (regs3Word b vm vn vd) = some (.fp2 b vm vn vd) := by
  have hall : fpVecTable.all (fun b => decide (
      (Word.field b 24 8 = 0x4E#8 ∨ Word.field b 24 8 = 0x6E#8) ∧
      Word.field b 0 5 = 0 ∧ Word.field b 5 5 = 0 ∧ Word.field b 16 5 = 0 ∧
      Word.field b 21 11 ≠ 0x370#11 ∧ Word.field b 21 11 ≠ 0x270#11 ∧
      Word.field b 21 11 ≠ 0x071#11 ∧ Word.field b 21 11 ≠ 0x070#11 ∧
      vecTable.find? (fun e => opcode3 e.1 == opcode3 b) = none ∧
      fpVecTable.find? (fun e => opcode3 e == opcode3 b) = some b)) = true := by decide
  obtain ⟨htop, h0, h5, h16, h1, h2, h3, h4, hnone, hfind⟩ :=
    of_decide_eq_true (List.all_eq_true.mp hall b hb)
  have hop : opcode3 (regs3Word b vm vn vd) = opcode3 b := by
    rw [opcode3, opcode3, field_regs3Word _ _ _ _ (by decide), field_regs3Word _ _ _ _ (by decide)]
  have hdec : decode (regs3Word b vm vn vd) = decodeVec (regs3Word b vm vn vd) := by
    rcases htop with h | h <;>
    · rw [decode_of_top (by rw [field_regs3Word _ _ _ _ (by decide), h])]
      rfl
  rw [hdec, decodeVec, decodeVecOp, hop, hnone, hfind, regs3Word_rd _ _ _ _ h0,
    regs3Word_rn _ _ _ _ h5, regs3Word_rm _ _ _ _ h16]
  simp (disch := decide) only [field_regs3Word, h1, h2, h3, h4, decide_false, Bool.false_and,
    Bool.false_eq_true, if_false, Option.map_some]

theorem decode_regs3Word_fp2 {b : Word} (hb : b ∈ fp2Table) :
    decode (regs3Word b vm vn vd) = some (.fp2 b vm vn vd) := by
  have hall : fp2Table.all (fun b => decide (Word.field b 24 8 = 0x1E#8 ∧
      Word.field b 0 5 = 0 ∧ Word.field b 5 5 = 0 ∧ Word.field b 16 5 = 0 ∧
      fp2Table.find? (fun e => opcode3 e == opcode3 b) = some b)) = true := by decide
  obtain ⟨htop, h0, h5, h16, hfind⟩ :=
    of_decide_eq_true (List.all_eq_true.mp hall b hb)
  have hop : opcode3 (regs3Word b vm vn vd) = opcode3 b := by
    rw [opcode3, opcode3, field_regs3Word _ _ _ _ (by decide), field_regs3Word _ _ _ _ (by decide)]
  have hdec : decode (regs3Word b vm vn vd) = decodeFp (regs3Word b vm vn vd) := by
    rw [decode_of_top (by rw [field_regs3Word _ _ _ _ (by decide), htop])]
    rfl
  rw [hdec, decodeFp, hop, hfind, regs3Word_rd _ _ _ _ h0, regs3Word_rn _ _ _ _ h5,
    regs3Word_rm _ _ _ _ h16]

theorem decode_regs3Word_fcmp {b : Word} (hb : b ∈ fcmpTable) :
    decode (regs3Word b vm vn 0) = some (.fcmp b vm vn) := by
  have hall : fcmpTable.all (fun b => decide (Word.field b 24 8 = 0x1E#8 ∧
      Word.field b 0 5 = 0 ∧ Word.field b 5 5 = 0 ∧ Word.field b 16 5 = 0 ∧
      fp2Table.find? (fun e => opcode3 e == opcode3 b) = none ∧
      fcmpTable.find? (fun e => opcode3 e == opcode3 b) = some b)) = true := by decide
  obtain ⟨htop, h0, h5, h16, hnone, hfind⟩ :=
    of_decide_eq_true (List.all_eq_true.mp hall b hb)
  have hop : opcode3 (regs3Word b vm vn 0) = opcode3 b := by
    rw [opcode3, opcode3, field_regs3Word _ _ _ _ (by decide), field_regs3Word _ _ _ _ (by decide)]
  have hdec : decode (regs3Word b vm vn 0) = decodeFp (regs3Word b vm vn 0) := by
    rw [decode_of_top (by rw [field_regs3Word _ _ _ _ (by decide), htop])]
    rfl
  rw [hdec, decodeFp, hop, hnone, hfind, regs3Word_rd _ _ _ _ h0, regs3Word_rn _ _ _ _ h5,
    regs3Word_rm _ _ _ _ h16]
  rfl

theorem opcode2_regs2Word (b : Word) : opcode2 (regs2Word b rn rd) = opcode2 b := by
  rw [opcode2, opcode2, field_regs2Word _ _ _ (by decide)]

theorem opcode3_regs2Word (b : Word) : opcode3 (regs2Word b rn rd) = opcode3 b := by
  rw [opcode3, opcode3, field_regs2Word _ _ _ (by decide), field_regs2Word _ _ _ (by decide)]

theorem decode_regs2Word_intToFp {b : Word} (hb : b ∈ intToFpTable) :
    decode (regs2Word b rn vd) = some (.intToFp (Word.bit b 31) b rn vd) := by
  have hall : intToFpTable.all (fun b => decide (
      (Word.field b 24 8 = 0x1E#8 ∨ Word.field b 24 8 = 0x9E#8) ∧
      Word.field b 0 5 = 0 ∧ Word.field b 5 5 = 0 ∧
      fp2Table.find? (fun e => opcode3 e == opcode3 b) = none ∧
      fcmpTable.find? (fun e => opcode3 e == opcode3 b) = none ∧
      intToFpTable.find? (fun e => opcode2 e == opcode2 b) = some b)) = true := by decide
  obtain ⟨htop, h0, h5, hn1, hn2, hfind⟩ :=
    of_decide_eq_true (List.all_eq_true.mp hall b hb)
  have hdec : decode (regs2Word b rn vd) = decodeFp (regs2Word b rn vd) := by
    rcases htop with h | h <;>
    · rw [decode_of_top (by rw [field_regs2Word _ _ _ (by decide), h])]
      rfl
  rw [hdec, decodeFp, opcode2_regs2Word, opcode3_regs2Word, hn1, hn2, hfind,
    regs2Word_rd _ _ _ h0, regs2Word_rn _ _ _ h5, bit_regs2Word _ _ _ (by decide)]

theorem decode_regs2Word_fpToInt {b : Word} (hb : b ∈ fpToIntTable) :
    decode (regs2Word b vn rd) = some (.fpToInt (Word.bit b 31) b vn rd) := by
  have hall : fpToIntTable.all (fun b => decide (
      (Word.field b 24 8 = 0x1E#8 ∨ Word.field b 24 8 = 0x9E#8) ∧
      Word.field b 0 5 = 0 ∧ Word.field b 5 5 = 0 ∧
      fp2Table.find? (fun e => opcode3 e == opcode3 b) = none ∧
      fcmpTable.find? (fun e => opcode3 e == opcode3 b) = none ∧
      intToFpTable.find? (fun e => opcode2 e == opcode2 b) = none ∧
      fpToIntTable.find? (fun e => opcode2 e == opcode2 b) = some b)) = true := by decide
  obtain ⟨htop, h0, h5, hn1, hn2, hn3, hfind⟩ :=
    of_decide_eq_true (List.all_eq_true.mp hall b hb)
  have hdec : decode (regs2Word b vn rd) = decodeFp (regs2Word b vn rd) := by
    rcases htop with h | h <;>
    · rw [decode_of_top (by rw [field_regs2Word _ _ _ (by decide), h])]
      rfl
  rw [hdec, decodeFp, opcode2_regs2Word, opcode3_regs2Word, hn1, hn2, hn3, hfind,
    regs2Word_rd _ _ _ h0, regs2Word_rn _ _ _ h5, bit_regs2Word _ _ _ (by decide)]

theorem decode_regs2Word_fp1 {b : Word} (hb : b ∈ fp1Table) :
    decode (regs2Word b vn vd) = some (.fp1 b vn vd) := by
  have hall : fp1Table.all (fun b => decide (Word.field b 24 8 = 0x1E#8 ∧
      Word.field b 0 5 = 0 ∧ Word.field b 5 5 = 0 ∧
      fp2Table.find? (fun e => opcode3 e == opcode3 b) = none ∧
      fcmpTable.find? (fun e => opcode3 e == opcode3 b) = none ∧
      intToFpTable.find? (fun e => opcode2 e == opcode2 b) = none ∧
      fpToIntTable.find? (fun e => opcode2 e == opcode2 b) = none ∧
      fp1Table.find? (fun e => opcode2 e == opcode2 b) = some b)) = true := by decide
  obtain ⟨htop, h0, h5, hn1, hn2, hn3, hn4, hfind⟩ :=
    of_decide_eq_true (List.all_eq_true.mp hall b hb)
  have hdec : decode (regs2Word b vn vd) = decodeFp (regs2Word b vn vd) := by
    rw [decode_of_top (by rw [field_regs2Word _ _ _ (by decide), htop])]
    rfl
  rw [hdec, decodeFp, opcode2_regs2Word, opcode3_regs2Word, hn1, hn2, hn3, hn4, hfind,
    regs2Word_rd _ _ _ h0, regs2Word_rn _ _ _ h5]
  rfl

end Tables

/-! ### Integer data processing -/

section Integer

attribute [local simp] Word.field Word.bit Word.rd Word.rn Word.rm Word.ra BitVec.extractLsb'_or
  extractLsb'_bitField_of_disjoint extractLsb'_bitField_self bitField_ofNat Sf.bit ShiftKind.bits

variable (rm rn rd ra rt rt2 : Reg)

theorem bv1_cases : ∀ b : BitVec 1, b = 0 ∨ b = 1 := by
  decide

theorem decode_movz64 (hw : BitVec 2) (imm : BitVec 16) :
    decode (movwWord .x 2 hw imm rd) = some (.movWide true .movz hw imm rd) := by
  rw [decode_of_top (t := 0xD2) (by simp (disch := decide) [movwWord])]
  show decodeMovWide _ = _
  simp (disch := decide) [decodeMovWide, movwWord]

theorem decode_movk64 (hw : BitVec 2) (imm : BitVec 16) :
    decode (movwWord .x 3 hw imm rd) = some (.movWide true .movk hw imm rd) := by
  rw [decode_of_top (t := 0xF2) (by simp (disch := decide) [movwWord])]
  show decodeMovWide _ = _
  simp (disch := decide) [decodeMovWide, movwWord]

theorem decode_movz32 (imm : BitVec 16) :
    decode (movwWord .w 2 0 imm rd) = some (.movWide false .movz 0 imm rd) := by
  rw [decode_of_top (t := 0x52) (by simp (disch := decide) [movwWord])]
  show decodeMovWide _ = _
  simp (disch := decide) [decodeMovWide, movwWord]

theorem decode_movk32 (imm : BitVec 16) :
    decode (movwWord .w 3 1 imm rd) = some (.movWide false .movk 1 imm rd) := by
  rw [decode_of_top (t := 0x72) (by simp (disch := decide) [movwWord])]
  show decodeMovWide _ = _
  simp (disch := decide) [decodeMovWide, movwWord]

theorem decode_addsubImmWord (op s shift : BitVec 1) (imm : BitVec 32)
    (h : imm.toNat < 2 ^ 12) :
    decode (addsubImmWord .x op s shift imm rn rd)
      = some (.addSubImm (op == 1#1) (s == 1#1) (shift == 1#1) (imm.setWidth 12) rn rd) := by
  rw [addsubImmWord, ← bitField_setWidth 10 imm h]
  rcases bv1_cases op with rfl | rfl <;> rcases bv1_cases s with rfl | rfl
  · rw [decode_of_top (t := 0x91) (by simp (disch := decide))]
    show decodeAddSubImm _ = _
    simp (disch := decide) [decodeAddSubImm]
  · rw [decode_of_top (t := 0xB1) (by simp (disch := decide))]
    show decodeAddSubImm _ = _
    simp (disch := decide) [decodeAddSubImm]
  · rw [decode_of_top (t := 0xD1) (by simp (disch := decide))]
    show decodeAddSubImm _ = _
    simp (disch := decide) [decodeAddSubImm]
  · rw [decode_of_top (t := 0xF1) (by simp (disch := decide))]
    show decodeAddSubImm _ = _
    simp (disch := decide) [decodeAddSubImm]

theorem decode_addsubShiftedWord (op s : BitVec 1) (imm6 : BitVec 6) :
    decode (addsubShiftedWord .x op s .lsl rm imm6 rn rd)
      = some (.addSubShift (op == 1#1) (s == 1#1) rm imm6 rn rd) := by
  rcases bv1_cases op with rfl | rfl <;> rcases bv1_cases s with rfl | rfl
  · rw [decode_of_top (t := 0x8B) (by simp (disch := decide) [addsubShiftedWord])]
    show decodeAddSubShift _ = _
    simp (disch := decide) [decodeAddSubShift, addsubShiftedWord]
  · rw [decode_of_top (t := 0xAB) (by simp (disch := decide) [addsubShiftedWord])]
    show decodeAddSubShift _ = _
    simp (disch := decide) [decodeAddSubShift, addsubShiftedWord]
  · rw [decode_of_top (t := 0xCB) (by simp (disch := decide) [addsubShiftedWord])]
    show decodeAddSubShift _ = _
    simp (disch := decide) [decodeAddSubShift, addsubShiftedWord]
  · rw [decode_of_top (t := 0xEB) (by simp (disch := decide) [addsubShiftedWord])]
    show decodeAddSubShift _ = _
    simp (disch := decide) [decodeAddSubShift, addsubShiftedWord]

theorem decode_and64 (imm6 : BitVec 6) :
    decode (logicalShiftedWord .x 0 .lsl 0 rm imm6 rn rd)
      = some (.logicShift .and rm imm6 rn rd) := by
  rw [decode_of_top (t := 0x8A) (by simp (disch := decide) [logicalShiftedWord])]
  show decodeLogicShift _ = _
  simp (disch := decide) [decodeLogicShift, decodeLogicOp, logicalShiftedWord]

theorem decode_orr64 (imm6 : BitVec 6) :
    decode (logicalShiftedWord .x 1 .lsl 0 rm imm6 rn rd)
      = some (.logicShift .orr rm imm6 rn rd) := by
  rw [decode_of_top (t := 0xAA) (by simp (disch := decide) [logicalShiftedWord])]
  show decodeLogicShift _ = _
  simp (disch := decide) [decodeLogicShift, decodeLogicOp, logicalShiftedWord]

theorem decode_eor64 (imm6 : BitVec 6) :
    decode (logicalShiftedWord .x 2 .lsl 0 rm imm6 rn rd)
      = some (.logicShift .eor rm imm6 rn rd) := by
  rw [decode_of_top (t := 0xCA) (by simp (disch := decide) [logicalShiftedWord])]
  show decodeLogicShift _ = _
  simp (disch := decide) [decodeLogicShift, decodeLogicOp, logicalShiftedWord]

theorem decode_ands64 (imm6 : BitVec 6) :
    decode (logicalShiftedWord .x 3 .lsl 0 rm imm6 rn rd)
      = some (.logicShift .ands rm imm6 rn rd) := by
  rw [decode_of_top (t := 0xEA) (by simp (disch := decide) [logicalShiftedWord])]
  show decodeLogicShift _ = _
  simp (disch := decide) [decodeLogicShift, decodeLogicOp, logicalShiftedWord]

theorem decode_udiv64 :
    decode (dp2srcWord .x 2 rm rn rd) = some (.dp2 .udiv rm rn rd) := by
  rw [decode_of_top (t := 0x9A) (by simp (disch := decide) [dp2srcWord])]
  show decodeCselDp2 _ = _
  simp (disch := decide) [decodeCselDp2, decodeDp2, dp2srcWord]

theorem decode_sdiv64 :
    decode (dp2srcWord .x 3 rm rn rd) = some (.dp2 .sdiv rm rn rd) := by
  rw [decode_of_top (t := 0x9A) (by simp (disch := decide) [dp2srcWord])]
  show decodeCselDp2 _ = _
  simp (disch := decide) [decodeCselDp2, decodeDp2, dp2srcWord]

theorem decode_lslv64 :
    decode (dp2srcWord .x 8 rm rn rd) = some (.dp2 .lslv rm rn rd) := by
  rw [decode_of_top (t := 0x9A) (by simp (disch := decide) [dp2srcWord])]
  show decodeCselDp2 _ = _
  simp (disch := decide) [decodeCselDp2, decodeDp2, dp2srcWord]

theorem decode_lsrv64 :
    decode (dp2srcWord .x 9 rm rn rd) = some (.dp2 .lsrv rm rn rd) := by
  rw [decode_of_top (t := 0x9A) (by simp (disch := decide) [dp2srcWord])]
  show decodeCselDp2 _ = _
  simp (disch := decide) [decodeCselDp2, decodeDp2, dp2srcWord]

theorem decode_asrv64 :
    decode (dp2srcWord .x 10 rm rn rd) = some (.dp2 .asrv rm rn rd) := by
  rw [decode_of_top (t := 0x9A) (by simp (disch := decide) [dp2srcWord])]
  show decodeCselDp2 _ = _
  simp (disch := decide) [decodeCselDp2, decodeDp2, dp2srcWord]

theorem decode_rorv64 :
    decode (dp2srcWord .x 11 rm rn rd) = some (.dp2 .rorv rm rn rd) := by
  rw [decode_of_top (t := 0x9A) (by simp (disch := decide) [dp2srcWord])]
  show decodeCselDp2 _ = _
  simp (disch := decide) [decodeCselDp2, decodeDp2, dp2srcWord]

theorem decode_madd64 :
    decode (dp3srcWord 0 rm ra rn rd) = some (.dp3 .madd rm ra rn rd) := by
  rw [decode_of_top (t := 0x9B) (by simp (disch := decide) [dp3srcWord])]
  show decodeDp3 _ = _
  simp (disch := decide) [decodeDp3, dp3srcWord]

theorem decode_msub64 :
    decode (dp3srcWord 1 rm ra rn rd) = some (.dp3 .msub rm ra rn rd) := by
  rw [decode_of_top (t := 0x9B) (by simp (disch := decide) [dp3srcWord])]
  show decodeDp3 _ = _
  simp (disch := decide) [decodeDp3, dp3srcWord]

theorem decode_umulh64 :
    decode (regs3Word 0x9BC07C00#32 rm rn rd) = some (.dp3 .umulh rm 31 rn rd) := by
  rw [decode_of_top (t := 0x9B) (by simp (disch := decide) [regs3Word])]
  show decodeDp3 _ = _
  simp (disch := decide) [decodeDp3, regs3Word]

theorem decode_smulh64 :
    decode (regs3Word 0x9B407C00#32 rm rn rd) = some (.dp3 .smulh rm 31 rn rd) := by
  rw [decode_of_top (t := 0x9B) (by simp (disch := decide) [regs3Word])]
  show decodeDp3 _ = _
  simp (disch := decide) [decodeDp3, regs3Word]

theorem decode_csel64 (c : A64.Cond) :
    decode (cselWord .x 0 0 rm c rn rd) = some (.csel .csel rm c rn rd) := by
  rw [decode_of_top (t := 0x9A) (by simp (disch := decide) [cselWord])]
  show decodeCselDp2 _ = _
  simp (disch := decide) [decodeCselDp2, decodeCsel, cselWord]

theorem decode_csinc64 (c : A64.Cond) :
    decode (cselWord .x 0 1 rm c rn rd) = some (.csel .csinc rm c rn rd) := by
  rw [decode_of_top (t := 0x9A) (by simp (disch := decide) [cselWord])]
  show decodeCselDp2 _ = _
  simp (disch := decide) [decodeCselDp2, decodeCsel, cselWord]

/-! ### Masks, shifts and single-register words -/

theorem decode_andImm_uxtb :
    decode (regs2Word 0x92401C00#32 rn rd) = some (.andImm 7 rn rd) := by
  rw [decode_of_top (t := 0x92) (by simp (disch := decide) [regs2Word])]
  show decodeAndImm _ = _
  simp (disch := decide) [decodeAndImm, regs2Word]

theorem decode_andImm_uxth :
    decode (regs2Word 0x92403C00#32 rn rd) = some (.andImm 15 rn rd) := by
  rw [decode_of_top (t := 0x92) (by simp (disch := decide) [regs2Word])]
  show decodeAndImm _ = _
  simp (disch := decide) [decodeAndImm, regs2Word]

theorem decode_andImm_lo32 :
    decode (regs2Word 0x92407C00#32 rn rd) = some (.andImm 31 rn rd) := by
  rw [decode_of_top (t := 0x92) (by simp (disch := decide) [regs2Word])]
  show decodeAndImm _ = _
  simp (disch := decide) [decodeAndImm, regs2Word]

theorem decode_sxtb :
    decode (regs2Word 0x93401C00#32 rn rd) = some (.sbfm 0 7 rn rd) := by
  rw [decode_of_top (t := 0x93) (by simp (disch := decide) [regs2Word])]
  show decodeSbfm _ = _
  simp (disch := decide) [decodeSbfm, regs2Word]

theorem decode_sxth :
    decode (regs2Word 0x93403C00#32 rn rd) = some (.sbfm 0 15 rn rd) := by
  rw [decode_of_top (t := 0x93) (by simp (disch := decide) [regs2Word])]
  show decodeSbfm _ = _
  simp (disch := decide) [decodeSbfm, regs2Word]

theorem decode_sxtw :
    decode (regs2Word 0x93407C00#32 rn rd) = some (.sbfm 0 31 rn rd) := by
  rw [decode_of_top (t := 0x93) (by simp (disch := decide) [regs2Word])]
  show decodeSbfm _ = _
  simp (disch := decide) [decodeSbfm, regs2Word]

theorem decode_asr3 :
    decode (regs2Word 0x9343FC00#32 rn rd) = some (.sbfm 3 63 rn rd) := by
  rw [decode_of_top (t := 0x93) (by simp (disch := decide) [regs2Word])]
  show decodeSbfm _ = _
  simp (disch := decide) [decodeSbfm, regs2Word]

theorem decode_sbfmWord (immr imms : BitVec 6) :
    decode (bfmWord 0x93400000#32 immr imms rn rd) = some (.sbfm immr imms rn rd) := by
  rw [decode_of_top (t := 0x93) (by simp (disch := decide) [bfmWord])]
  show decodeSbfm _ = _
  simp (disch := decide) [decodeSbfm, bfmWord]

theorem decode_ubfmWord (immr imms : BitVec 6) :
    decode (bfmWord 0xD3400000#32 immr imms rn rd) = some (.ubfm immr imms rn rd) := by
  rw [decode_of_top (t := 0xD3) (by simp (disch := decide) [bfmWord])]
  show decodeUbfm _ = _
  simp (disch := decide) [decodeUbfm, bfmWord]

theorem decode_addLsl64 (imm6 : BitVec 6) :
    decode (lslWord 0x8B000000#32 rm imm6 rn rd)
      = some (.addSubShift false false rm imm6 rn rd) := by
  rw [decode_of_top (t := 0x8B) (by simp (disch := decide) [lslWord])]
  show decodeAddSubShift _ = _
  simp (disch := decide) [decodeAddSubShift, lslWord]

theorem decode_orrLsl64 (imm6 : BitVec 6) :
    decode (lslWord 0xAA000000#32 rm imm6 rn rd) = some (.logicShift .orr rm imm6 rn rd) := by
  rw [decode_of_top (t := 0xAA) (by simp (disch := decide) [lslWord])]
  show decodeLogicShift _ = _
  simp (disch := decide) [decodeLogicShift, decodeLogicOp, lslWord]

theorem decode_adcs64 :
    decode (regs3Word 0xBA000000#32 rm rn rd) = some (.addSubCarry false rm rn rd) := by
  rw [decode_of_top (t := 0xBA) (by simp (disch := decide) [regs3Word])]
  show decodeAddSubCarry _ = _
  simp (disch := decide) [decodeAddSubCarry, regs3Word]

theorem decode_sbcs64 :
    decode (regs3Word 0xFA000000#32 rm rn rd) = some (.addSubCarry true rm rn rd) := by
  rw [decode_of_top (t := 0xFA) (by simp (disch := decide) [regs3Word])]
  show decodeAddSubCarry _ = _
  simp (disch := decide) [decodeAddSubCarry, regs3Word]

theorem decode_negs64 :
    decode (regs3Word 0xEB000000#32 rm rn rd) = some (.addSubShift true true rm 0 rn rd) := by
  rw [decode_of_top (t := 0xEB) (by simp (disch := decide) [regs3Word])]
  show decodeAddSubShift _ = _
  simp (disch := decide) [decodeAddSubShift, regs3Word]

theorem decode_orn64 :
    decode (regs3Word 0xAA200000#32 rm rn rd) = some (.logicShift .orn rm 0 rn rd) := by
  rw [decode_of_top (t := 0xAA) (by simp (disch := decide) [regs3Word])]
  show decodeLogicShift _ = _
  simp (disch := decide) [decodeLogicShift, decodeLogicOp, regs3Word]

theorem decode_rbit :
    decode (regs2Word 0xDAC00000#32 rn rd) = some (.dp1 .rbit rn rd) := by
  rw [decode_of_top (t := 0xDA) (by simp (disch := decide) [regs2Word])]
  show decodeCselDp1 _ = _
  simp (disch := decide) [decodeCselDp1, decodeDp1, regs2Word]

theorem decode_clz :
    decode (regs2Word 0xDAC01000#32 rn rd) = some (.dp1 .clz rn rd) := by
  rw [decode_of_top (t := 0xDA) (by simp (disch := decide) [regs2Word])]
  show decodeCselDp1 _ = _
  simp (disch := decide) [decodeCselDp1, decodeDp1, regs2Word]

theorem decode_revX :
    decode (regs2Word 0xDAC00C00#32 rn rd) = some (.dp1 .rev64 rn rd) := by
  rw [decode_of_top (t := 0xDA) (by simp (disch := decide) [regs2Word])]
  show decodeCselDp1 _ = _
  simp (disch := decide) [decodeCselDp1, decodeDp1, regs2Word]

theorem decode_revW :
    decode (regs2Word 0x5AC00800#32 rn rd) = some (.dp1 .rev32 rn rd) := by
  rw [decode_of_top (t := 0x5A) (by simp (disch := decide) [regs2Word])]
  show decodeDp1 _ = _
  simp (disch := decide) [decodeDp1, regs2Word]

theorem decode_mrsCntvct :
    decode (0xD53BE040#32 ||| bitField 0 rd) = some (.mrsCntvct rd) := by
  rw [decode_of_top (t := 0xD5) (by simp (disch := decide))]
  show decodeSystem _ = _
  simp (disch := decide) [decodeSystem]

/-! ### Loads and stores -/

theorem bv2_cases : ∀ b : BitVec 2, b = 0 ∨ b = 1 ∨ b = 2 ∨ b = 3 := by
  decide

theorem decode_ldstUoffWord (size : BitVec 2) (v : BitVec 1) (opc : BitVec 2) (imm : BitVec 32)
    (h : imm.toNat < 2 ^ 12) : decode (ldstUoffWord size v opc imm rn rt)
      = some (.ldst size (v == 1#1) opc (imm.setWidth 12) rn rt) := by
  rw [ldstUoffWord, ← bitField_setWidth 10 imm h]
  have hdec : ∀ t ∈ [0x39, 0x79, 0xB9, 0xF9, 0x3D, 0x7D, 0xBD, 0xFD], ∀ w,
      decodeTop t w = decodeLdst w := by
    intro t ht w
    simp only [List.mem_cons, List.not_mem_nil, or_false] at ht
    rcases ht with rfl | rfl | rfl | rfl | rfl | rfl | rfl | rfl <;> rfl
  rw [decode]
  rcases bv2_cases size with rfl | rfl | rfl | rfl <;> rcases bv1_cases v with rfl | rfl <;>
  · rw [hdec _ (by simp (disch := decide))]
    simp (disch := decide) [decodeLdst]

theorem decode_stp64Pre (imm7 : BitVec 7) :
    decode (ldstpWord 2 0 0 3 imm7 rt2 rn rt)
      = some (.ldstPair false .preIndex imm7 rt2 rn rt) := by
  rw [decode_of_top (t := 0xA9) (by simp (disch := decide) [ldstpWord])]
  show decodeLdstPair _ = _
  simp (disch := decide) [decodeLdstPair, ldstpWord]

theorem decode_ldp64Post (imm7 : BitVec 7) :
    decode (ldstpWord 2 0 1 1 imm7 rt2 rn rt)
      = some (.ldstPair true .postIndex imm7 rt2 rn rt) := by
  rw [decode_of_top (t := 0xA8) (by simp (disch := decide) [ldstpWord])]
  show decodeLdstPair _ = _
  simp (disch := decide) [decodeLdstPair, ldstpWord]

/-! ### Branches and system -/

theorem decode_blr :
    decode (0xD63F0000#32 ||| bitField 5 rn) = some (.blr rn) := by
  rw [decode_of_top (t := 0xD6) (by simp (disch := decide))]
  show decodeBranchReg _ = _
  simp (disch := decide) [decodeBranchReg]

theorem decode_ret :
    decode (0xD65F0000#32 ||| bitField 5 rn) = some (.ret rn) := by
  rw [decode_of_top (t := 0xD6) (by simp (disch := decide))]
  show decodeBranchReg _ = _
  simp (disch := decide) [decodeBranchReg]

theorem decode_nop : decode 0xD503201F#32 = some .hint := by
  decide

theorem decode_brk (imm16 : BitVec 16) :
    decode (0xD4200000#32 ||| bitField 5 imm16) = some (.brk imm16) := by
  rw [decode_of_top (t := 0xD4) (by simp (disch := decide))]
  show decodeBrk _ = _
  simp (disch := decide) [decodeBrk]

/-! ### Branches to a label -/

theorem setWidth_ofInt {n : Nat} (hn : n ≤ 32) (delta : Int) :
    (BitVec.ofInt 32 delta).setWidth n = BitVec.ofInt n delta := by
  refine BitVec.eq_of_toNat_eq ?_
  rw [BitVec.toNat_setWidth, BitVec.toNat_ofInt, BitVec.toNat_ofInt]
  have hdvd : ((2 ^ n : Nat) : Int) ∣ ((2 ^ 32 : Nat) : Int) :=
    Int.natCast_dvd_natCast.mpr (Nat.pow_dvd_pow 2 hn)
  have h0 : 0 ≤ delta % ((2 ^ 32 : Nat) : Int) := Int.emod_nonneg _ (by decide)
  have h1 : 0 ≤ delta % ((2 ^ n : Nat) : Int) :=
    Int.emod_nonneg _ (by exact_mod_cast (Nat.two_pow_pos n).ne')
  apply Int.ofNat.inj
  show ((_ : Nat) : Int) = ((_ : Nat) : Int)
  rw [Int.natCast_mod, Int.toNat_of_nonneg h0, Int.toNat_of_nonneg h1, Int.emod_emod_of_dvd _ hdvd]

/-- The offset field of a patched branch. -/
theorem and_mask_shift (k n : Nat) (hn : n ≤ 32) (delta : Int) :
    (BitVec.ofInt 32 delta &&& BitVec.ofNat 32 (2 ^ n - 1)) <<< k
      = (bitField k (BitVec.ofInt n delta) : Word) := by
  rw [bitField, ← setWidth_ofInt hn]
  congr 1
  refine BitVec.eq_of_getLsbD_eq fun i hi => ?_
  rw [BitVec.getLsbD_and, BitVec.getLsbD_setWidth, BitVec.getLsbD_setWidth, BitVec.getLsbD_ofNat,
    Nat.testBit_two_pow_sub_one]
  simp [hi, Bool.and_comm]

/-- The two bits of a 26-bit offset that reach into the top byte. -/
theorem top_bitField_imm26 (imm26 : BitVec 26) :
    BitVec.extractLsb' 24 8 (bitField 0 imm26 : Word) = (imm26.extractLsb' 24 2).setWidth 8 := by
  refine BitVec.eq_of_getLsbD_eq fun i hi => ?_
  rw [BitVec.getLsbD_extractLsb', getLsbD_bitField, BitVec.getLsbD_setWidth,
    BitVec.getLsbD_extractLsb']
  by_cases h2 : i < 2
  · simp [hi, h2, show 24 + i < 32 by omega]
  · simp [h2, BitVec.getLsbD_of_ge imm26 (24 + i) (by omega)]

theorem decode_b (imm26 : BitVec 26) :
    decode (0x14000000#32 ||| bitField 0 imm26) = some (.b false imm26) := by
  have hdec : ∀ b : BitVec 2, ∀ w, decodeTop (0x14#8 ||| b.setWidth 8).toNat w
      = some (.b false (Word.field w 0 26)) := by
    intro b w
    rcases bv2_cases b with rfl | rfl | rfl | rfl <;> rfl
  rw [decode]
  simp only [Word.field, BitVec.extractLsb'_or, top_bitField_imm26]
  rw [show BitVec.extractLsb' 24 8 0x14000000#32 = 0x14#8 by decide, hdec]
  simp (disch := decide)

theorem decode_bl (imm26 : BitVec 26) :
    decode (0x94000000#32 ||| bitField 0 imm26) = some (.b true imm26) := by
  have hdec : ∀ b : BitVec 2, ∀ w, decodeTop (0x94#8 ||| b.setWidth 8).toNat w
      = some (.b true (Word.field w 0 26)) := by
    intro b w
    rcases bv2_cases b with rfl | rfl | rfl | rfl <;> rfl
  rw [decode]
  simp only [Word.field, BitVec.extractLsb'_or, top_bitField_imm26]
  rw [show BitVec.extractLsb' 24 8 0x94000000#32 = 0x94#8 by decide, hdec]
  simp (disch := decide)

theorem decode_bCond (c : A64.Cond) (imm19 : BitVec 19) :
    decode (0x54000000#32 ||| bitField 0 c.code ||| bitField 5 imm19) = some (.bCond c imm19) := by
  rw [decode_of_top (t := 0x54) (by simp (disch := decide))]
  show decodeBCond _ = _
  simp (disch := decide) [decodeBCond]

theorem decode_cbz (imm19 : BitVec 19) :
    decode (0xB4000000#32 ||| bitField 0 rt ||| bitField 5 imm19) = some (.cbz false imm19 rt) := by
  rw [decode_of_top (t := 0xB4) (by simp (disch := decide))]
  show some _ = _
  simp (disch := decide)

theorem decode_cbnz (imm19 : BitVec 19) :
    decode (0xB5000000#32 ||| bitField 0 rt ||| bitField 5 imm19) = some (.cbz true imm19 rt) := by
  rw [decode_of_top (t := 0xB5) (by simp (disch := decide))]
  show some _ = _
  simp (disch := decide)

/-- The number of the bit is put together again. -/
theorem append_bit (bit : Fin 64) :
    ((BitVec.ofNat 1 (bit.val >>> 5)).append (BitVec.ofNat 5 bit.val) : BitVec 6)
      = BitVec.ofFin bit := by
  revert bit
  decide

theorem decode_testBitFields (b5 nonzero : BitVec 1) (b40 : BitVec 5) (imm14 : BitVec 14) :
    decode (bitField 31 b5 ||| 0x36000000#32 ||| bitField 24 nonzero ||| bitField 19 b40
        ||| bitField 0 rt ||| bitField 5 imm14)
      = some (.tbz (nonzero == 1) (b5.append b40) imm14 rt) := by
  have hdec : ∀ (b z : BitVec 1) (w : Word),
      decodeTop (bitField 7 b ||| 0x36#8 ||| bitField 0 z).toNat w
        = some (.tbz (z == 1) ((Word.field w 31 1).append (Word.field w 19 5))
          (Word.field w 5 14) (Word.rd w)) := by
    intro b z w
    rcases bv1_cases b with rfl | rfl <;> rcases bv1_cases z with rfl | rfl <;> rfl
  have htop : ∀ b z : BitVec 1,
      BitVec.extractLsb' 24 8 (bitField 31 b : Word) = bitField 7 b ∧
        BitVec.extractLsb' 24 8 (bitField 24 z : Word) = bitField 0 z := by
    decide
  rw [decode]
  simp (disch := decide) only [Word.field, BitVec.extractLsb'_or,
    extractLsb'_bitField_of_disjoint]
  rw [(htop b5 nonzero).1, (htop b5 nonzero).2,
    show BitVec.extractLsb' 24 8 0x36000000#32 = 0x36#8 by decide, BitVec.or_zero,
    BitVec.or_zero, BitVec.or_zero, hdec]
  simp (disch := decide)

theorem decode_testBit (nonzero : BitVec 1) (bit : Fin 64) (imm14 : BitVec 14) :
    decode (testBitWord nonzero rt bit ||| bitField 5 imm14)
      = some (.tbz (nonzero == 1) (BitVec.ofFin bit) imm14 rt) := by
  rw [← append_bit]
  exact decode_testBitFields ..

theorem patchBranch_b (delta : Int) (h : -2 ^ 25 ≤ delta ∧ delta < 2 ^ 25) :
    Emitter.patchBranch 0x14000000#32 .branch26 delta
      = .ok (0x14000000#32 ||| bitField 0 (BitVec.ofInt 26 delta)) := by
  have hm := and_mask_shift 0 26 (by decide) delta
  simp only [BitVec.shiftLeft_zero] at hm
  rw [Emitter.patchBranch, if_pos h, ← hm]
  rfl

theorem patchBranch_bCond (c : A64.Cond) (delta : Int) (h : -2 ^ 18 ≤ delta ∧ delta < 2 ^ 18) :
    Emitter.patchBranch (0x54000000#32 ||| bitField 0 c.code) .branch19 delta
      = .ok (0x54000000#32 ||| bitField 0 c.code ||| bitField 5 (BitVec.ofInt 19 delta)) := by
  have hm : (0x54000000#32 ||| bitField 0 c.code) &&& 0xFF00001F#32
      = 0x54000000#32 ||| bitField 0 c.code := by
    rw [BitVec.and_or_distrib_right, bitField_and_of_allOnes _ _ _ (by decide)]
    rfl
  rw [Emitter.patchBranch, if_pos h, hm, ← and_mask_shift 5 19 (by decide)]
  rfl

theorem patchBranch_cbz (delta : Int) (h : -2 ^ 18 ≤ delta ∧ delta < 2 ^ 18) :
    Emitter.patchBranch (0xB4000000#32 ||| bitField 0 rt) .branch19 delta
      = .ok (0xB4000000#32 ||| bitField 0 rt ||| bitField 5 (BitVec.ofInt 19 delta)) := by
  have hm : (0xB4000000#32 ||| bitField 0 rt) &&& 0xFF00001F#32
      = 0xB4000000#32 ||| bitField 0 rt := by
    rw [BitVec.and_or_distrib_right, bitField_and_of_allOnes _ _ _ (by decide)]
    rfl
  rw [Emitter.patchBranch, if_pos h, hm, ← and_mask_shift 5 19 (by decide)]
  rfl

theorem patchBranch_bl (delta : Int) (h : -2 ^ 25 ≤ delta ∧ delta < 2 ^ 25) :
    Emitter.patchBranch 0x94000000#32 .branch26 delta
      = .ok (0x94000000#32 ||| bitField 0 (BitVec.ofInt 26 delta)) := by
  have hm := and_mask_shift 0 26 (by decide) delta
  simp only [BitVec.shiftLeft_zero] at hm
  rw [Emitter.patchBranch, if_pos h, ← hm]
  rfl

theorem patchBranch_cbnz (delta : Int) (h : -2 ^ 18 ≤ delta ∧ delta < 2 ^ 18) :
    Emitter.patchBranch (0xB5000000#32 ||| bitField 0 rt) .branch19 delta
      = .ok (0xB5000000#32 ||| bitField 0 rt ||| bitField 5 (BitVec.ofInt 19 delta)) := by
  have hm : (0xB5000000#32 ||| bitField 0 rt) &&& 0xFF00001F#32
      = 0xB5000000#32 ||| bitField 0 rt := by
    rw [BitVec.and_or_distrib_right, bitField_and_of_allOnes _ _ _ (by decide)]
    rfl
  rw [Emitter.patchBranch, if_pos h, hm, ← and_mask_shift 5 19 (by decide)]
  rfl

theorem patchBranch_testBit (nonzero : BitVec 1) (bit : Nat) (delta : Int)
    (h : -2 ^ 13 ≤ delta ∧ delta < 2 ^ 13) :
    Emitter.patchBranch (testBitWord nonzero rt bit) .branch14 delta
      = .ok (testBitWord nonzero rt bit ||| bitField 5 (BitVec.ofInt 14 delta)) := by
  have hm : testBitWord nonzero rt bit &&& 0xFFF8001F#32 = testBitWord nonzero rt bit := by
    rw [testBitWord]
    simp only [BitVec.and_or_distrib_right]
    rw [bitField_and_of_allOnes _ _ _ (by decide), bitField_and_of_allOnes _ _ _ (by decide),
      bitField_and_of_allOnes _ _ _ (by decide), bitField_and_of_allOnes _ _ _ (by decide)]
    rfl
  rw [Emitter.patchBranch, if_pos h, hm, ← and_mask_shift 5 14 (by decide)]
  rfl

/-! ### SIMD words with immediates and lanes -/

theorem decode_addvB : decode (regs2Word 0x0E31B800#32 rn rd) = some (.addvB rn rd) := by
  rw [decode_of_top (t := 0x0E) (by simp (disch := decide) [regs2Word])]
  show decodeVec _ = _
  simp (disch := decide) [decodeVec, regs2Word]

theorem decode_insVS (dst src : BitVec 2) :
    decode (0x6E040400#32 ||| bitField 19 dst ||| bitField 13 src ||| bitField 5 rn
        ||| bitField 0 rd)
      = some (.insS dst src rn rd) := by
  rw [decode_of_top (t := 0x6E) (by simp (disch := decide))]
  show decodeVec _ = _
  simp (disch := decide) [decodeVec]

theorem decode_insVDGpr (lane : BitVec 1) :
    decode (0x4E081C00#32 ||| bitField 20 lane ||| bitField 5 rn ||| bitField 0 rd)
      = some (.insD (lane == 1#1) rn rd) := by
  rw [decode_of_top (t := 0x4E) (by simp (disch := decide))]
  show decodeVec _ = _
  simp (disch := decide) [decodeVec]

theorem decode_umovWB (lane : BitVec 4) :
    decode (0x0E013C00#32 ||| bitField 17 lane ||| bitField 5 rn ||| bitField 0 rd)
      = some (.umovB lane rn rd) := by
  rw [decode_of_top (t := 0x0E) (by simp (disch := decide))]
  show decodeVec _ = _
  simp (disch := decide) [decodeVec]

theorem decode_extV16b (imm : BitVec 32) (h : imm.toNat < 2 ^ 4) :
    decode (0x6E000000#32 ||| bitField 16 rm ||| (imm <<< 11) ||| bitField 5 rn ||| bitField 0 rd)
      = some (.vec (.ext imm.toNat) rm rn rd) := by
  rw [← bitField_setWidth 11 imm h, decode_of_top (t := 0x6E) (by simp (disch := decide))]
  show decodeVec _ = _
  simp (disch := decide) [decodeVec, Nat.mod_eq_of_lt (show imm.toNat < 16 from h)]

theorem decode_bfiW (immr imms : BitVec 5) :
    decode (0x33000000#32 ||| bitField 16 immr ||| bitField 10 imms ||| bitField 5 rn
        ||| bitField 0 rd)
      = some (.bfm32 immr imms rn rd) := by
  rw [decode_of_top (t := 0x33) (by simp (disch := decide))]
  show decodeBfm32 _ = _
  simp (disch := decide) [decodeBfm32]

/-- The opcode bits of the three kinds of shift by immediate. -/
def vecShiftBase : VecShift → Word
  | .shl => 0x4F005400#32
  | .ushr => 0x6F000400#32
  | .sshr => 0x4F000400#32

theorem decode_vecShiftWord (op : VecShift) (imm : BitVec 32) (h : imm.toNat < 2 ^ 7)
    (h8 : 8 ≤ imm.toNat) :
    decode (vecShiftWord (vecShiftBase op) imm rn rd)
      = some (.vecShift op (imm.setWidth 7) rn rd) := by
  have himm : ∀ b : BitVec 7, 8 ≤ b.toNat → b.extractLsb' 3 4 ≠ 0 := by decide
  have hfield : BitVec.extractLsb' 19 4 (bitField 16 (imm.setWidth 7) : Word) ≠ 0 := by
    have hext : BitVec.extractLsb' 19 4 (bitField 16 (imm.setWidth 7) : Word)
        = (imm.setWidth 7).extractLsb' 3 4 := by
      refine BitVec.eq_of_getLsbD_eq fun i hi => ?_
      rw [BitVec.getLsbD_extractLsb', getLsbD_bitField, BitVec.getLsbD_extractLsb']
      simp [hi, show 19 + i < 32 by omega, show 19 + i - 16 = 3 + i by omega,
        show 16 ≤ 19 + i by omega]
    rw [hext]
    refine himm _ ?_
    rw [BitVec.toNat_setWidth, Nat.mod_eq_of_lt h]
    exact h8
  rw [vecShiftWord, ← bitField_setWidth 16 imm h]
  cases op with
  | shl =>
    rw [vecShiftBase, decode_of_top (t := 0x4F) (by simp (disch := decide))]
    show decodeVecShift _ = _
    simp (disch := decide) [decodeVecShift]
    exact hfield
  | ushr =>
    rw [vecShiftBase, decode_of_top (t := 0x6F) (by simp (disch := decide))]
    show decodeVecShift _ = _
    simp (disch := decide) [decodeVecShift]
    exact hfield
  | sshr =>
    rw [vecShiftBase, decode_of_top (t := 0x4F) (by simp (disch := decide))]
    show decodeVecShift _ = _
    simp (disch := decide) [decodeVecShift]
    exact hfield

end Integer

end Quantum.Jit
