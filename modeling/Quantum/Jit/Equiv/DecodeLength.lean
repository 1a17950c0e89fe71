import Quantum.Jit.Equiv.Decode
import Quantum.Jit.Equiv.DecodeSecondary

/-!
# Instruction lengths

When the decoder consumes exactly the bytes of the instruction (`decodeNext_length_iff`).  Handled rows are
read in full; of the unhandled ones, some are left right after the opcode, so that the stream goes on in the
middle of their operands.
-/

namespace Quantum.Jit

open DecodeM X86

/-! ### Prefixes -/

def Seg.segment : Seg → Segment
  | .fs => .fs
  | .gs => .gs

/-- The decoder's segment is the one in force, or one that a later flat segment has replaced. -/
def SegmentRead (p : Prefixes) (h : Header) : Prop :=
  p.seg.map Seg.segment = h.seg ∨ (h.seg = none ∧ p.seg.isSome = true)

/-- Before the first REX byte. -/
structure BeforeRex (p : Prefixes) (h : Header) : Prop where
  osize : p.osize = h.osize
  repne : p.repne = h.repne
  repe : p.repe = h.repe
  seg : SegmentRead p h
  noRex : p.rex = ⟨false, false, false, false⟩
  rex : h.rex = none
  stray : h.strayRex = false

theorem BeforeRex.initial : BeforeRex .default .empty :=
  ⟨rfl, rfl, rfl, .inl rfl, rfl, rfl, rfl⟩

variable {longMode : Bool} {p : Prefixes} {h h' hd : Header} {b : Byte} {bs code : List Byte}

theorem segmentRead_flat (hflat : h.seg = none) : SegmentRead p h := by
  unfold SegmentRead
  rw [hflat]
  cases p.seg with
  | none => exact .inl rfl
  | some s => exact .inr ⟨rfl, rfl⟩

/-- A legacy prefix. -/
theorem readPrefixes_legacy (hs : BeforeRex p h) (hb : h.legacy longMode b.toNat = some h')
    (bs : List Byte) :
    ∃ p', readPrefixes longMode p (b :: bs) = readPrefixes longMode p' bs ∧
      BeforeRex p' { h' with rex := none, strayRex := h.strayRex || h.rex.isSome } := by
  have hstray : (h.strayRex || h.rex.isSome) = false := by
    rw [hs.stray, hs.rex]
    rfl
  rw [hstray]
  simp only [readPrefixes]
  generalize b.toNat = n at hb ⊢
  unfold Header.legacy at hb
  split at hb
  · obtain rfl := Option.some.inj hb
    exact ⟨_, rfl, rfl, hs.repne, hs.repe, hs.seg, hs.noRex, rfl, rfl⟩
  · obtain rfl := Option.some.inj hb
    exact ⟨_, rfl, hs.osize, hs.repne, hs.repe, hs.seg, hs.noRex, rfl, rfl⟩
  · obtain rfl := Option.some.inj hb
    exact ⟨_, rfl, hs.osize, rfl, hs.repe, hs.seg, hs.noRex, rfl, rfl⟩
  · obtain rfl := Option.some.inj hb
    exact ⟨_, rfl, hs.osize, hs.repne, rfl, hs.seg, hs.noRex, rfl, rfl⟩
  · obtain rfl := Option.some.inj hb
    exact ⟨_, rfl, hs.osize, hs.repne, hs.repe, .inl rfl, hs.noRex, rfl, rfl⟩
  · obtain rfl := Option.some.inj hb
    exact ⟨_, rfl, hs.osize, hs.repne, hs.repe, .inl rfl, hs.noRex, rfl, rfl⟩
  -- The flat segments.
  iterate 4
    obtain rfl := Option.some.inj hb
    refine ⟨_, rfl, ?_⟩
    cases longMode with
    | true => exact ⟨hs.osize, hs.repne, hs.repe, hs.seg, hs.noRex, rfl, rfl⟩
    | false => exact ⟨hs.osize, hs.repne, hs.repe, segmentRead_flat rfl, hs.noRex, rfl, rfl⟩
  · obtain rfl := Option.some.inj hb
    exact ⟨_, rfl, hs.osize, hs.repne, hs.repe, hs.seg, hs.noRex, rfl, rfl⟩
  · cases hb

/-- The extension bits of a REX byte. -/
def Prefixes.withRex (p : Prefixes) (b : Byte) : Prefixes :=
  { p with rex := ⟨b.getLsbD 3, b.getLsbD 2, b.getLsbD 1, b.getLsbD 0⟩ }

/-- Any other byte is a REX byte, which ends the prefixes, or the opcode. -/
theorem readPrefixes_other (hb : h.legacy longMode b.toNat = none) :
    readPrefixes longMode p (b :: bs) =
      if isRex longMode b then .ok (p.withRex b, bs) else .ok (p, b :: bs) := by
  simp only [readPrefixes]
  have hrex : (longMode && decide (b.extractLsb' 4 4 = 4)) = isRex longMode b := by
    unfold isRex
    cases longMode <;> rfl
  rw [hrex]
  generalize b.toNat = n at hb ⊢
  split
  all_goals first
    | rfl
    | cases hb

/-- Once a REX byte has gone astray, the header stays so. -/
theorem scanPrefixes_stray (hs : h.strayRex = true) (hscan : scanPrefixes longMode h bs = some (hd, code)) :
    hd.strayRex = true ∧ code.length ≤ bs.length := by
  induction bs generalizing h with
  | nil => cases hscan
  | cons b bs ih =>
    unfold scanPrefixes at hscan
    split at hscan
    · obtain ⟨hstray, hlen⟩ := ih (by rw [hs]; rfl) hscan
      exact ⟨hstray, by rw [List.length_cons]; omega⟩
    · split_ifs at hscan
      · obtain ⟨hstray, hlen⟩ := ih (by rw [hs]; rfl) hscan
        exact ⟨hstray, by rw [List.length_cons]; omega⟩
      · obtain ⟨rfl, rfl⟩ := Prod.mk.inj (Option.some.inj hscan)
        exact ⟨hs, Nat.le_refl _⟩

/-- A prefix, of either kind. -/
def PrefixByte (longMode : Bool) (c : Byte) : Prop :=
  (∃ h h' : Header, h.legacy longMode c.toNat = some h') ∨ isRex longMode c = true

/-- After a REX byte comes the opcode, or the REX byte has gone astray. -/
theorem scanPrefixes_afterRex (hrex : h.rex.isSome = true)
    (hscan : scanPrefixes longMode h bs = some (hd, code)) :
    (hd = h ∧ code = bs) ∨
      (hd.strayRex = true ∧ ∃ c rest, bs = c :: rest ∧ PrefixByte longMode c ∧
        code.length ≤ rest.length) := by
  have hstray : (h.strayRex || h.rex.isSome) = true := by
    rw [hrex, Bool.or_true]
  cases bs with
  | nil => cases hscan
  | cons c rest =>
    unfold scanPrefixes at hscan
    split at hscan
    · rename_i h' hc
      obtain ⟨hs, hlen⟩ := scanPrefixes_stray hstray hscan
      exact .inr ⟨hs, c, rest, rfl, .inl ⟨h, h', hc⟩, hlen⟩
    · split_ifs at hscan with hc
      · obtain ⟨hs, hlen⟩ := scanPrefixes_stray hstray hscan
        exact .inr ⟨hs, c, rest, rfl, .inr hc, hlen⟩
      · obtain ⟨rfl, rfl⟩ := Prod.mk.inj (Option.some.inj hscan)
        exact .inl ⟨rfl, rfl⟩

/-- What the decoder makes of the prefixes: those of the header, or, when a REX byte is followed by another
prefix, that prefix in the place of the opcode. -/
theorem readPrefixes_scan (hs : BeforeRex p h) (hscan : scanPrefixes longMode h bs = some (hd, code)) :
    (hd.strayRex = false ∧ ∃ p', readPrefixes longMode p bs = .ok (p', code) ∧
      p'.Matches longMode hd ∧ SegmentRead p' hd) ∨
    (hd.strayRex = true ∧ ∃ p' c rest, readPrefixes longMode p bs = .ok (p', c :: rest) ∧
      PrefixByte longMode c ∧ code.length ≤ rest.length) := by
  induction bs generalizing p h with
  | nil => cases hscan
  | cons b bs ih =>
    unfold scanPrefixes at hscan
    cases hb : h.legacy longMode b.toNat with
    | some h' =>
      rw [hb] at hscan
      obtain ⟨p', hread, hs'⟩ := readPrefixes_legacy hs hb bs
      rw [hread]
      exact ih hs' hscan
    | none =>
      rw [hb] at hscan
      rw [readPrefixes_other hb]
      dsimp only at hscan
      split_ifs at hscan ⊢ with hrex
      · obtain ⟨rfl, rfl⟩ | ⟨hstray, c, rest, rfl, hc, hlen⟩ := scanPrefixes_afterRex rfl hscan
        · refine .inl ⟨?_, _, rfl, ⟨hs.osize, hs.repne, hs.repe, rfl, rfl, rfl, fun hlong => ?_⟩, hs.seg⟩
          · change (h.strayRex || h.rex.isSome) = false
            rw [hs.stray, hs.rex]
            rfl
          · unfold isRex at hrex
            rw [hlong] at hrex
            exact absurd hrex Bool.false_ne_true
        · exact .inr ⟨hstray, _, c, rest, rfl, hc, hlen⟩
      · obtain ⟨rfl, rfl⟩ := Prod.mk.inj (Option.some.inj hscan)
        have hbit : ∀ i, h.rexBit i = false := by
          intro i
          unfold Header.rexBit
          rw [hs.rex]
        refine .inl ⟨hs.stray, p, rfl, ⟨hs.osize, hs.repne, hs.repe, ?_, ?_, ?_, fun _ => hs.rex⟩, hs.seg⟩
        all_goals rw [hs.noRex, hbit]

/-! ### The opcode -/

/-- The opcode byte, and what follows it. -/
def opcodeForm (longMode : Bool) (p : Prefixes) : DecodeM Form := do
  let opcode ← readU8
  if opcode = 0x0F then decodeSecondary longMode p else decodePrimary longMode p opcode.toNat

/-- The opcode is one whose operands are all read. -/
def opcodeRead (longMode : Bool) (h : Header) : List Byte → Bool
  | [] => true
  | b :: bs =>
    if b = 0x0F then
      match bs with
      | [] => true
      | c :: _ => secondaryRead longMode h c.toNat
    else primaryRead longMode h b.toNat (bs.headD 0)

theorem scanOpcode_primary {b : Byte} (hb : b ≠ 0x0F) (bs : List Byte) :
    scanOpcode longMode h (b :: bs) =
      (primaryMap longMode b.toNat (bs.headD 0)).map fun args => (1, args, bs) := by
  unfold scanOpcode
  exact if_neg hb

theorem opcodeRead_primary {b : Byte} (hb : b ≠ 0x0F) (bs : List Byte) :
    opcodeRead longMode h (b :: bs) = primaryRead longMode h b.toNat (bs.headD 0) := by
  unfold opcodeRead
  exact if_neg hb

theorem opcodeForm_length (hp : p.Matches longMode hd) {n : Nat} {args : List Arg} {tail rest : List Byte}
    {f : Form} (hcode : scanOpcode longMode hd code = some (n, args, tail))
    (hf : opcodeForm longMode p code = .ok (f, rest)) :
    code.length = rest.length + n + argsLength longMode hd args (tail.headD 0) ((tail.drop 1).headD 0) ↔
      opcodeRead longMode hd code = true ∧ SameForm longMode hd args (tail.headD 0) := by
  obtain ⟨b, rest₁, hb, hf₁⟩ := bind_ok hf
  obtain rfl := readU8_ok hb
  by_cases h0F : b = 0x0F
  · rw [if_pos h0F] at hf₁
    subst h0F
    cases rest₁ with
    | nil => cases hcode
    | cons c tail' =>
      obtain ⟨args', hentry, hargs⟩ := Option.map_eq_some_iff.mp hcode
      obtain ⟨rfl, rfl, rfl⟩ := hargs
      rw [decodeSecondary_cons] at hf₁
      have hagrees := (secondary_agrees hp c.isLt f rest hf₁).1 _ hentry
      refine Iff.trans ?_ hagrees
      rw [List.length_cons, List.length_cons]
      omega
  · rw [scanOpcode_primary h0F] at hcode
    rw [if_neg h0F] at hf₁
    rw [opcodeRead_primary h0F]
    obtain ⟨args', hentry, hargs⟩ := Option.map_eq_some_iff.mp hcode
    obtain ⟨rfl, rfl, rfl⟩ := hargs
    have hagrees := (primary_agrees false hp b.isLt f rest hf₁).1 _ hentry
    rw [← hagrees, List.length_cons]
    omega

/-- A prefix in the place of the opcode is not handled, and nothing follows it. -/
theorem decodePrimary_prefixByte {c : Byte} (hc : PrefixByte longMode c) :
    c ≠ 0x0F ∧ decodePrimary longMode p c.toNat = unhandledForm := by
  obtain ⟨h, h', hlegacy⟩ | hrex := hc
  · have h0F : c ≠ 0x0F := by
      rintro rfl
      cases hlegacy
    refine ⟨h0F, ?_⟩
    generalize c.toNat = n at hlegacy ⊢
    unfold Header.legacy at hlegacy
    split at hlegacy
    all_goals first
      | rfl
      | cases hlegacy
  · unfold isRex at hrex
    rw [Bool.and_eq_true, beq_iff_eq] at hrex
    obtain ⟨rfl, hhigh⟩ := hrex
    have hn : 0x40 ≤ c.toNat ∧ c.toNat < 0x50 := by
      have hnat := congrArg BitVec.toNat hhigh
      rw [BitVec.extractLsb'_toNat, Nat.shiftRight_eq_div_pow] at hnat
      have hlt := c.isLt
      simp only [BitVec.toNat_ofNat] at hnat
      omega
    refine ⟨?_, ?_⟩
    · rintro rfl
      exact absurd hn.1 (by decide)
    · generalize c.toNat = n at hn
      obtain ⟨hge, hlt⟩ := hn
      interval_cases n <;> rfl

theorem opcodeForm_prefixByte {c : Byte} (hc : PrefixByte longMode c) (rest : List Byte) :
    opcodeForm longMode p (c :: rest) = unhandledForm rest := by
  obtain ⟨h0F, hprim⟩ := decodePrimary_prefixByte (p := p) hc
  change (if c = 0x0F then decodeSecondary longMode p else decodePrimary longMode p c.toNat) rest = _
  rw [if_neg h0F, hprim]

theorem decodeNext_ok {rip : BitVec 64} {inst : Inst} {rest : List Byte}
    (hdec : decodeNext longMode rip bs = .ok (inst, rest)) :
    ∃ f, decodeOpcode longMode bs = .ok (f, rest) ∧ inst = f.toInst (bs.length - rest.length) rip := by
  cases hf : decodeOpcode longMode bs with
  | error x =>
    rw [decodeNext_eq_error hf] at hdec
    cases hdec
  | ok r =>
    rw [decodeNext_eq_ok hf] at hdec
    obtain ⟨rfl, rfl⟩ := Prod.mk.inj (Except.ok.inj hdec)
    exact ⟨r.1, rfl, rfl⟩

/-- The condition for the length: no prefix follows a REX byte, the operands of the opcode are all read, and
a form with 16-bit addresses is as long as the one with 32-bit addresses. -/
def lengthRead (longMode : Bool) (bs : List Byte) : Bool :=
  match scanPrefixes longMode .empty bs with
  | none => true
  | some (h, code) =>
    !h.strayRex && opcodeRead longMode h code &&
      match scanOpcode longMode h code with
      | some (_, args, tail) =>
        !(args.any Arg.usesModrm && !longMode && h.asize) || sameForm (tail.headD 0)
      | none => true

theorem sameForm_iff {args : List Arg} {modrm : Byte} :
    SameForm longMode h args modrm ↔
      (!(args.any Arg.usesModrm && !longMode && h.asize) || sameForm modrm) = true := by
  unfold SameForm
  cases args.any Arg.usesModrm <;> cases longMode <;> cases h.asize <;> simp

theorem scanPrefixes_length (hscan : scanPrefixes longMode h bs = some (hd, code)) :
    code.length ≤ bs.length := by
  induction bs generalizing h with
  | nil => cases hscan
  | cons b bs ih =>
    unfold scanPrefixes at hscan
    rw [List.length_cons]
    split at hscan
    · exact Nat.le_succ_of_le (ih hscan)
    · split_ifs at hscan
      · exact Nat.le_succ_of_le (ih hscan)
      · obtain ⟨rfl, rfl⟩ := Prod.mk.inj (Option.some.inj hscan)
        exact Nat.le_refl _

theorem scanOpcode_pos {n : Nat} {args : List Arg} {tail : List Byte}
    (hcode : scanOpcode longMode h code = some (n, args, tail)) : 1 ≤ n := by
  cases code with
  | nil => cases hcode
  | cons b bs =>
    by_cases h0F : b = 0x0F
    · subst h0F
      cases bs with
      | nil => cases hcode
      | cons c bs =>
        obtain ⟨_, -, hargs⟩ := Option.map_eq_some_iff.mp hcode
        obtain ⟨rfl, -⟩ := hargs
        exact Nat.le_succ 1
    · rw [scanOpcode_primary h0F] at hcode
      obtain ⟨_, -, hargs⟩ := Option.map_eq_some_iff.mp hcode
      obtain ⟨rfl, -⟩ := hargs
      exact Nat.le_refl 1

/-- The parts of an instruction. -/
theorem instructionLength_eq_some {n : Nat} (hn : instructionLength longMode bs = some n) :
    ∃ h code k args tail, scanPrefixes longMode .empty bs = some (h, code) ∧
      scanOpcode longMode h code = some (k, args, tail) ∧
      n = bs.length - code.length + k +
        argsLength longMode h args (tail.headD 0) ((tail.drop 1).headD 0) := by
  unfold instructionLength at hn
  obtain ⟨⟨h, code⟩, hscan, hn⟩ := Option.bind_eq_some_iff.mp hn
  obtain ⟨⟨k, args, tail⟩, hcode, hn⟩ := Option.bind_eq_some_iff.mp hn
  dsimp only at hn
  split_ifs at hn
  exact ⟨h, code, k, args, tail, hscan, hcode, (Option.some.inj hn).symm⟩

/-- On bytes that begin with an instruction, the decoder consumes exactly that instruction if and only if
the condition holds. -/
theorem decodeNext_length_iff (longMode : Bool) (rip : BitVec 64) (bs : List Byte) (n : Nat)
    (inst : Inst) (rest : List Byte) (hn : instructionLength longMode bs = some n)
    (hdec : decodeNext longMode rip bs = .ok (inst, rest)) :
    bs.length - rest.length = n ↔ lengthRead longMode bs = true := by
  obtain ⟨used, hused, -⟩ := (isLocal_decodeNext longMode rip).reads hdec
  have hrest : rest.length ≤ bs.length := by
    rw [hused, List.length_append]
    omega
  obtain ⟨h, code, k, args, tail, hscan, hcode, rfl⟩ := instructionLength_eq_some hn
  have hlen := scanPrefixes_length hscan
  have hk := scanOpcode_pos hcode
  obtain ⟨f, hf, -⟩ := decodeNext_ok hdec
  obtain ⟨p, rest₁, hp, hform⟩ := bind_ok hf
  unfold lengthRead
  rw [hscan]
  dsimp only
  rw [hcode]
  dsimp only
  obtain ⟨hstray, p', hread, hmatch, -⟩ | ⟨hstray, p', c, rest', hread, hc, hle⟩ :=
    readPrefixes_scan .initial hscan
  · rw [hread] at hp
    obtain ⟨rfl, rfl⟩ := Prod.mk.inj (Except.ok.inj hp)
    have hiff := opcodeForm_length hmatch hcode hform
    rw [hstray, Bool.not_false, Bool.true_and, Bool.and_eq_true, ← sameForm_iff, ← hiff]
    omega
  · rw [hread] at hp
    obtain ⟨rfl, rfl⟩ := Prod.mk.inj (Except.ok.inj hp)
    rw [hstray, Bool.not_true, Bool.false_and, Bool.false_and]
    -- The byte in the place of the opcode is the last one consumed.
    obtain ⟨-, rfl⟩ := pure_ok ((opcodeForm_prefixByte hc rest').symm.trans hform)
    refine ⟨fun heq => ?_, fun hc => absurd hc Bool.false_ne_true⟩
    omega

/-- `MOV RAX, [RIP + 16]`, followed by a RET. -/
theorem decodeNext_length_iff_mov :
    ∃ inst, decodeNext true 0 [0x48, 0x8B, 0x05, 0x10, 0, 0, 0, 0xC3] = .ok (inst, [0xC3]) ∧
      instructionLength true [0x48, 0x8B, 0x05, 0x10, 0, 0, 0, 0xC3] = some 7 ∧
      ([0x48, 0x8B, 0x05, 0x10, 0, 0, 0, 0xC3].length - [0xC3].length = 7 ↔
        lengthRead true [0x48, 0x8B, 0x05, 0x10, 0, 0, 0, 0xC3] = true) :=
  ⟨_, rfl, by decide, decodeNext_length_iff true 0 [0x48, 0x8B, 0x05, 0x10, 0, 0, 0, 0xC3] 7 _ [0xC3]
    (by decide) rfl⟩

/-- `ENTER 16, 0`: four bytes, of which the decoder takes the opcode. -/
theorem enter_length :
    instructionLength true [0xC8, 0x10, 0, 0] = some 4 ∧
      ∃ inst rest, decodeNext true 0 [0xC8, 0x10, 0, 0] = .ok (inst, rest) ∧
        [0xC8, 0x10, 0, 0].length - rest.length ≠ 4 :=
  ⟨by decide, _, [0x10, 0, 0], rfl, by decide⟩

end Quantum.Jit
