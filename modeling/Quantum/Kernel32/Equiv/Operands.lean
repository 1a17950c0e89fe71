import Quantum.Kernel32.Operands

/-!
# Operands, token by token

`decodeOperand_eq`: what `decodeOperand` returns, as a function of the operand token and of the words behind
it.  It succeeds exactly when as many tokens are there as the operand token asks for.

`EncodedOperand` is an operand as tokens, which is what `decodeOperand` reads (`decodeOperand_encoded`,
`exists_encoded`).
-/

namespace Quantum.Kernel32.Dxbc

open Checked

/-! ### The tokens that an operand asks for -/

/-- The number of words of the immediate or of the index. -/
def payloadLength (token : BitVec 32) : ℕ :=
  if OperandType.fromRaw (opTypeField token) = .immediate32 then immCount (numCompField token)
  else (indexDimField token).toNat

/-- The number of tokens of an operand. -/
def operandLength (token : BitVec 32) : ℕ :=
  1 + (if extendedField token then 1 else 0) + payloadLength token

/-- The operand of a token and of the words of its immediate or index. -/
def Operand.ofWords (token : BitVec 32) (words : List (BitVec 32)) : Operand where
  opType := OperandType.fromRaw (opTypeField token)
  selection := ComponentSelect.ofFields (numCompField token) (selModeField token) (selBitsField token)
  index0 := words.headD 0
  imm := if OperandType.fromRaw (opTypeField token) = .immediate32 then immOfSlots words else immOfSlots []
  immLen :=
    if OperandType.fromRaw (opTypeField token) = .immediate32 then BitVec.ofNat 8 words.length else 0

/-- An operand with the extension and the words that its token asks for. -/
structure EncodedOperand where
  token : BitVec 32
  extension : Option (BitVec 32)
  words : List (BitVec 32)
  extended : extension.isSome = extendedField token
  length_words : words.length = payloadLength token

namespace EncodedOperand

def tokens (o : EncodedOperand) : List (BitVec 32) := o.token :: (o.extension.toList ++ o.words)

def operand (o : EncodedOperand) : Operand := Operand.ofWords o.token o.words

theorem length_extension (o : EncodedOperand) :
    o.extension.toList.length = if extendedField o.token then 1 else 0 := by
  rw [← o.extended]
  cases o.extension <;> rfl

theorem length_tokens (o : EncodedOperand) : o.tokens.length = operandLength o.token := by
  rw [tokens, List.length_cons, List.length_append, o.length_extension, o.length_words, operandLength]
  omega

end EncodedOperand

/-! ### Reading -/

variable {tokens : List (BitVec 32)} {k n : ℕ}

/-- A cursor moves on by one. -/
theorem add_one_ofNat (hk : k < 2 ^ 63) :
    (add (BitVec.ofNat 64 k) 1 : Checked Unit _) = .ok (BitVec.ofNat 64 (k + 1)) := by
  have hk' : (BitVec.ofNat 64 k).toNat = k := Nat.mod_eq_of_lt (by omega)
  have hone : (1 : BitVec 64).toNat = 1 := rfl
  rw [add_of_lt (by rw [hk', hone]; omega), BitVec.ofNat_add]
  rfl

theorem readToken_of_lt (hk : k < tokens.length) (hlen : tokens.length < 2 ^ 63) :
    readToken tokens (BitVec.ofNat 64 k) = .ok (tokens[k], BitVec.ofNat 64 (k + 1)) := by
  have hk' : (BitVec.ofNat 64 k).toNat = k := Nat.mod_eq_of_lt (by omega)
  unfold readToken
  rw [hk', List.getElem?_eq_getElem hk, add_one_ofNat (by omega)]
  rfl

theorem readToken_of_le (hk : tokens.length ≤ k) (hk' : k < 2 ^ 64) :
    readToken tokens (BitVec.ofNat 64 k) = fail () := by
  have htoNat : (BitVec.ofNat 64 k).toNat = k := Nat.mod_eq_of_lt hk'
  unfold readToken
  rw [htoNat, List.getElem?_eq_none hk]
  rfl

theorem readSlots_eq (hk : k ≤ tokens.length) (hlen : tokens.length < 2 ^ 63) :
    readSlots tokens n (BitVec.ofNat 64 k) =
      if k + n ≤ tokens.length then .ok ((tokens.drop k).take n, BitVec.ofNat 64 (k + n))
      else fail () := by
  induction n generalizing k with
  | zero =>
    rw [Nat.add_zero, if_pos hk, List.take_zero]
    rfl
  | succ n ih =>
    rw [readSlots]
    rcases Nat.lt_or_ge k tokens.length with hlt | hge
    · have hrest := ih (k := k + 1) hlt
      rw [show k + 1 + n = k + (n + 1) by omega] at hrest
      rw [readToken_of_lt hlt hlen, ok_bind]
      dsimp only
      rw [hrest, List.drop_eq_getElem_cons hlt, List.take_succ_cons]
      split
      · rfl
      · rfl
    · rw [readToken_of_le hge (by omega), if_neg (by omega)]
      rfl

theorem skipDims_eq (hk : k ≤ tokens.length) (hlen : tokens.length < 2 ^ 63) :
    skipDims tokens n (BitVec.ofNat 64 k) =
      if k + n ≤ tokens.length then .ok (BitVec.ofNat 64 (k + n)) else fail () := by
  induction n generalizing k with
  | zero =>
    rw [Nat.add_zero, if_pos hk]
    rfl
  | succ n ih =>
    have hnext : (BitVec.ofNat 64 (k + 1)).toNat = k + 1 := Nat.mod_eq_of_lt (by omega)
    rw [skipDims, add_one_ofNat (by omega), ok_bind, hnext]
    rcases Nat.lt_or_ge k tokens.length with hlt | hge
    · have hrest := ih (k := k + 1) hlt
      rw [show k + 1 + n = k + (n + 1) by omega] at hrest
      rw [if_neg (by omega), hrest]
    · rw [if_pos (by omega), if_neg (by omega)]

/-! ### An operand -/

theorem headD_eq_getD (words : List (BitVec 32)) : words.headD 0 = words.getD 0 0 := by
  cases words <;> rfl

theorem decodeRest_eq (token : BitVec 32) (hk : k ≤ tokens.length) (hlen : tokens.length < 2 ^ 63) :
    decodeRest tokens token (BitVec.ofNat 64 k) =
      if k + payloadLength token ≤ tokens.length then
        .ok (Operand.ofWords token ((tokens.drop k).take (payloadLength token)),
          BitVec.ofNat 64 (k + payloadLength token))
      else fail () := by
  by_cases himm : OperandType.fromRaw (opTypeField token) = .immediate32
  · -- an immediate: its words are read into the slots
    have hn : payloadLength token = immCount (numCompField token) := if_pos himm
    unfold decodeRest
    simp only [if_pos himm, readSlots_eq hk hlen, hn]
    split
    case isTrue hfits =>
      have hlength : ((tokens.drop k).take (immCount (numCompField token))).length =
          immCount (numCompField token) := by
        rw [List.length_take, List.length_drop]
        omega
      have hhead : (immOfSlots ((tokens.drop k).take (immCount (numCompField token))))[0] =
          ((tokens.drop k).take (immCount (numCompField token))).headD 0 := by
        rw [headD_eq_getD, immOfSlots, Vector.getElem_ofFn]
      simp only [ok_bind, hhead, Operand.ofWords, if_pos himm, hlength]
      rfl
    case isFalse => rfl
  · -- a register: the first index is read, and the further dimensions are skipped
    have hn : payloadLength token = (indexDimField token).toNat := if_neg himm
    unfold decodeRest
    simp only [if_neg himm, hn]
    generalize (indexDimField token).toNat = d
    cases d with
    | zero =>
      rw [if_neg (by omega)]
      simp only [Nat.zero_sub, skipDims, Nat.add_zero, if_pos hk, List.take_zero, Operand.ofWords,
        if_neg himm]
      rfl
    | succ d =>
      rw [if_pos (by omega), Nat.add_sub_cancel]
      rcases Nat.lt_or_ge k tokens.length with hlt | hge
      · have hrest := skipDims_eq (n := d) (k := k + 1) hlt hlen
        rw [show k + 1 + d = k + (d + 1) by omega] at hrest
        simp only [readToken_of_lt hlt hlen, ok_bind, hrest]
        split
        · simp only [ok_bind, Operand.ofWords, if_neg himm, List.drop_eq_getElem_cons hlt,
            List.take_succ_cons, List.headD_cons]
          rfl
        · rfl
      · rw [readToken_of_le hge (by omega), if_neg (by omega)]
        rfl

/-- The index of the first word of the immediate or of the index. -/
def payloadStart (k : ℕ) (token : BitVec 32) : ℕ :=
  k + 1 + if extendedField token then 1 else 0

theorem payloadStart_add (k : ℕ) (token : BitVec 32) :
    payloadStart k token + payloadLength token = k + operandLength token := by
  unfold payloadStart operandLength
  omega

theorem decodeOperand_eq (hk : k < tokens.length) (hlen : tokens.length < 2 ^ 63) :
    decodeOperand tokens (BitVec.ofNat 64 k) =
      if k + operandLength tokens[k] ≤ tokens.length then
        .ok (Operand.ofWords tokens[k]
            ((tokens.drop (payloadStart k tokens[k])).take (payloadLength tokens[k])),
          BitVec.ofNat 64 (k + operandLength tokens[k]))
      else fail () := by
  have hsum := payloadStart_add k tokens[k]
  unfold decodeOperand
  rw [readToken_of_lt hk hlen, ok_bind]
  dsimp only
  split
  case isTrue hext =>
    have hstart : payloadStart k tokens[k] = k + 1 + 1 := by rw [payloadStart, if_pos hext]
    rcases Nat.lt_or_ge (k + 1) tokens.length with hlt | hge
    · rw [readToken_of_lt hlt hlen, ok_bind]
      dsimp only
      rw [← hsum, hstart]
      exact decodeRest_eq tokens[k] hlt hlen
    · rw [readToken_of_le hge (by omega), if_neg (by omega)]
      rfl
  case isFalse hext =>
    have hstart : payloadStart k tokens[k] = k + 1 := by rw [payloadStart, if_neg hext, Nat.add_zero]
    rw [← hsum, hstart]
    exact decodeRest_eq tokens[k] hk hlen

theorem decodeOperand_of_le (hk : tokens.length ≤ k) (hk' : k < 2 ^ 64) :
    decodeOperand tokens (BitVec.ofNat 64 k) = fail () := by
  unfold decodeOperand
  rw [readToken_of_le hk hk']
  rfl

theorem decodeOperand_total (hlen : tokens.length < 2 ^ 63) (cursor : BitVec 64) :
    Total (decodeOperand tokens cursor) := by
  have hcursor : BitVec.ofNat 64 cursor.toNat = cursor := by simp
  rw [← hcursor]
  rcases Nat.lt_or_ge cursor.toNat tokens.length with hk | hk
  · rw [decodeOperand_eq hk hlen]
    split
    · exact total_ok _
    · exact total_fail ()
  · rw [decodeOperand_of_le hk cursor.isLt]
    exact total_fail ()

/-- **Operands.**  `decodeOperand` does not panic on any slice, which has less than `2 ^ 63` tokens.  It
succeeds exactly when as many tokens are there as the operand token asks for, and then the cursor advances
past them. -/
theorem decodeOperand_spec (hlen : tokens.length < 2 ^ 63) (cursor : BitVec 64) :
    Total (decodeOperand tokens cursor) ∧
      (∀ op next, decodeOperand tokens cursor = .ok (op, next) →
        cursor.toNat < next.toNat ∧ next.toNat ≤ tokens.length ∧
          ∃ token, tokens[cursor.toNat]? = some token ∧
            next.toNat - cursor.toNat = operandLength token) ∧
      (decodeOperand tokens cursor = fail () ↔
        ∀ token, tokens[cursor.toNat]? = some token →
          tokens.length < cursor.toNat + operandLength token) := by
  refine ⟨decodeOperand_total hlen cursor, ?_⟩
  have hcursor : BitVec.ofNat 64 cursor.toNat = cursor := by simp
  rcases Nat.lt_or_ge cursor.toNat tokens.length with hk | hk
  · have heq := decodeOperand_eq hk hlen
    rw [hcursor] at heq
    have hget : tokens[cursor.toNat]? = some tokens[cursor.toNat] := List.getElem?_eq_getElem hk
    have hpos : 0 < operandLength tokens[cursor.toNat] := by
      unfold operandLength
      omega
    by_cases hfits : cursor.toNat + operandLength tokens[cursor.toNat] ≤ tokens.length
    · -- all tokens are there, and the cursor does not wrap around
      rw [if_pos hfits] at heq
      rw [heq]
      refine ⟨fun op next hok => ?_, ⟨nofun, fun h => ?_⟩⟩
      · cases hok
        have hnext : (BitVec.ofNat 64 (cursor.toNat + operandLength tokens[cursor.toNat])).toNat =
            cursor.toNat + operandLength tokens[cursor.toNat] := Nat.mod_eq_of_lt (by omega)
        rw [hnext]
        exact ⟨by omega, hfits, _, hget, by omega⟩
      · have hlt := h _ hget
        omega
    · rw [if_neg hfits] at heq
      rw [heq]
      refine ⟨nofun, ⟨fun _ token htoken => ?_, fun _ => rfl⟩⟩
      rw [hget, Option.some.injEq] at htoken
      rw [← htoken]
      omega
  · -- there is no operand token
    have heq := decodeOperand_of_le hk cursor.isLt
    rw [hcursor] at heq
    rw [heq]
    refine ⟨nofun, ⟨fun _ token htoken => ?_, fun _ => rfl⟩⟩
    rw [List.getElem?_eq_none hk] at htoken
    cases htoken

/-- A register operand without its index, and with it. -/
theorem decodeOperand_spec_cut :
    Total (decodeOperand [0x1000F2] 0) ∧ decodeOperand [0x1000F2] 0 = fail () ∧
      ∃ op next, decodeOperand [0x1000F2, 5] 0 = .ok (op, next) ∧ op.index0 = 5 ∧ 0 < next.toNat ∧
        next.toNat ≤ 2 ∧ next.toNat - 0 = operandLength 0x1000F2 := by
  obtain ⟨htotal, -, hnone⟩ := @decodeOperand_spec [0x1000F2] (by decide) 0
  obtain ⟨-, hsome, -⟩ := @decodeOperand_spec [0x1000F2, 5] (by decide) 0
  refine ⟨htotal, hnone.mpr fun token htoken => ?_, ?_⟩
  · cases htoken
    decide
  · obtain ⟨op, hop, hindex⟩ : ∃ op, decodeOperand [0x1000F2, 5] 0 = .ok (op, 2) ∧ op.index0 = 5 :=
      ⟨_, rfl, rfl⟩
    obtain ⟨hlt, hle, token, htoken, hlength⟩ := hsome op 2 hop
    cases htoken
    exact ⟨op, 2, hop, hindex, hlt, hle, hlength⟩

/-! ### Operands in a stream -/

theorem decodeOperand_encoded (o : EncodedOperand) {pre post : List (BitVec 32)}
    (hlen : (pre ++ (o.tokens ++ post)).length < 2 ^ 63) :
    decodeOperand (pre ++ (o.tokens ++ post)) (BitVec.ofNat 64 pre.length) =
      .ok (o.operand, BitVec.ofNat 64 (pre.length + o.tokens.length)) := by
  have htotal : (pre ++ (o.tokens ++ post)).length = pre.length + o.tokens.length + post.length := by
    rw [List.length_append, List.length_append, Nat.add_assoc]
  have hpos := o.length_tokens
  have hk : pre.length < (pre ++ (o.tokens ++ post)).length := by
    rw [htotal, hpos, operandLength]
    omega
  have htoken : (pre ++ (o.tokens ++ post))[pre.length] = o.token := by
    simp [EncodedOperand.tokens]
  have hdrop : (pre ++ (o.tokens ++ post)).drop (payloadStart pre.length o.token) = o.words ++ post := by
    have hsplit : pre ++ (o.tokens ++ post) =
        (pre ++ (o.token :: o.extension.toList)) ++ (o.words ++ post) := by
      simp [EncodedOperand.tokens]
    have hfront : payloadStart pre.length o.token = (pre ++ (o.token :: o.extension.toList)).length := by
      rw [payloadStart, List.length_append, List.length_cons, o.length_extension]
      omega
    rw [hsplit, hfront, List.drop_left]
  have htake : (o.words ++ post).take (payloadLength o.token) = o.words := by
    rw [← o.length_words, List.take_left]
  rw [decodeOperand_eq hk hlen, htoken, if_pos (by rw [htotal, hpos]; omega), hdrop, htake, hpos]
  rfl

/-- What is decoded is an operand that stands at the cursor. -/
theorem exists_encoded {op : Operand} {next : BitVec 64} (hk : k < 2 ^ 64) (hlen : tokens.length < 2 ^ 63)
    (h : decodeOperand tokens (BitVec.ofNat 64 k) = .ok (op, next)) :
    ∃ (o : EncodedOperand) (rest : List (BitVec 32)), tokens.drop k = o.tokens ++ rest ∧ op = o.operand ∧
      next = BitVec.ofNat 64 (k + o.tokens.length) := by
  rcases Nat.lt_or_ge k tokens.length with hlt | hge
  · rw [decodeOperand_eq hlt hlen] at h
    have hsum := payloadStart_add k tokens[k]
    split at h
    case isFalse => cases h
    case isTrue hfits =>
      generalize hwords : (tokens.drop (payloadStart k tokens[k])).take (payloadLength tokens[k]) = words
        at h
      have hlength : words.length = payloadLength tokens[k] := by
        rw [← hwords, List.length_take, List.length_drop]
        omega
      have hrest : tokens.drop (payloadStart k tokens[k]) =
          words ++ tokens.drop (k + operandLength tokens[k]) := by
        rw [← hwords, ← hsum, ← List.drop_drop, List.take_append_drop]
      rw [Except.ok.injEq, Prod.mk.injEq] at h
      obtain ⟨hop, hnext⟩ := h
      -- the token in front, with the extension that its top bit announces
      obtain ⟨extension, hext, hfront⟩ : ∃ extension : Option (BitVec 32),
          extension.isSome = extendedField tokens[k] ∧
          tokens.drop k = tokens[k] :: (extension.toList ++ tokens.drop (payloadStart k tokens[k])) := by
        by_cases hext : extendedField tokens[k] = true
        · have hstart : payloadStart k tokens[k] = k + 1 + 1 := by rw [payloadStart, if_pos hext]
          have hlt' : k + 1 < tokens.length := by omega
          refine ⟨some tokens[k + 1], hext.symm, ?_⟩
          rw [hstart, List.drop_eq_getElem_cons hlt, List.drop_eq_getElem_cons hlt']
          rfl
        · have hstart : payloadStart k tokens[k] = k + 1 := by
            rw [payloadStart, if_neg hext, Nat.add_zero]
          refine ⟨none, by simpa using hext, ?_⟩
          rw [hstart, List.drop_eq_getElem_cons hlt]
          rfl
      refine ⟨⟨tokens[k], extension, words, hext, hlength⟩, tokens.drop (k + operandLength tokens[k]),
        ?_, hop.symm, ?_⟩
      · rw [hfront, hrest, EncodedOperand.tokens, List.cons_append, List.append_assoc]
      · rw [EncodedOperand.length_tokens]
        exact hnext.symm
  · rw [decodeOperand_of_le hge hk] at h
    cases h

end Quantum.Kernel32.Dxbc
