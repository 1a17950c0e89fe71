import Quantum.Jit.Equiv.DecodeRow
import Mathlib.Tactic.IntervalCases

/-!
# The decoder's tables and the opcode maps

Opcode by opcode, what a row of the decoder consumes is compared with what the architecture's map says
(`primary_agrees`, `secondary_agrees`).  `primaryRead` and `secondaryRead` are the rows that are read in
full: the others are left unhandled after the opcode byte, or take an immediate of the wrong size.
-/

namespace Quantum.Jit

open DecodeM X86

/-- The prefixes that the decoder has read are those of the header. -/
structure Prefixes.Matches (p : Prefixes) (longMode : Bool) (h : Header) : Prop where
  osize : p.osize = h.osize
  repne : p.repne = h.repne
  repe : p.repe = h.repe
  rexW : p.rex.w = h.rexBit 3
  rexR : p.rex.r = h.rexBit 2
  rexB : p.rex.b = h.rexBit 0
  /-- Only 64-bit mode has REX bytes. -/
  legacy : longMode = false → h.rex = none

/-- A one-byte opcode whose operands are all read. -/
def primaryRead (longMode : Bool) (h : Header) (op : Nat) (modrm : Byte) : Bool :=
  match op with
  | 0x62 | 0x82 | 0x8C | 0x8E | 0x9A | 0xA0 | 0xA1 | 0xA2 | 0xA3 | 0xC4 | 0xC5 | 0xC8 | 0xCA
  | 0xD4 | 0xD5 | 0xD8 | 0xD9 | 0xDA | 0xDB | 0xDC | 0xDD | 0xDE | 0xDF
  | 0xE0 | 0xE1 | 0xE2 | 0xE3 | 0xE4 | 0xE5 | 0xE6 | 0xE7 | 0xEA => false
  -- PUSH takes four bytes of an immediate whatever the operand size
  | 0x68 => !h.osize || h.rexBit 3
  -- and so do the near branches
  | 0xE8 | 0xE9 => longMode || !h.osize
  -- XABORT and XBEGIN
  | 0xC6 | 0xC7 => modrm != 0xF8
  | _ => true

/-- A `0F` opcode whose operands are all read. -/
def secondaryRead (longMode : Bool) (h : Header) (op : Nat) : Bool :=
  match op with
  | 0x00 | 0x01 | 0x02 | 0x03 | 0x0D | 0x12 | 0x13 | 0x14 | 0x15 | 0x16 | 0x17 | 0x18 | 0x19 | 0x1A
  | 0x1B | 0x1C | 0x1D | 0x1E | 0x20 | 0x21 | 0x22 | 0x23 | 0x28 | 0x29 | 0x2B
  | 0x50 | 0x52 | 0x53 | 0x54 | 0x55 | 0x56 | 0x57 | 0x5B | 0x63 | 0x64 | 0x65 | 0x66 | 0x67 | 0x6B
  | 0x78 | 0x79 | 0x7C | 0x7D | 0xA4 | 0xA5 | 0xAB | 0xAC | 0xAD | 0xAE | 0xB2 | 0xB3 | 0xB4 | 0xB5
  | 0xB8 | 0xB9 | 0xBB | 0xC2 | 0xC3 | 0xC4 | 0xC5 | 0xC6 | 0xC7 | 0xD0 | 0xD1 | 0xD2 | 0xD3 | 0xD6
  | 0xD8 | 0xD9 | 0xDA | 0xDC | 0xDD | 0xDE | 0xDF | 0xE0 | 0xE1 | 0xE2 | 0xE3 | 0xE4 | 0xE5 | 0xE6
  | 0xE7 | 0xE8 | 0xE9 | 0xEA | 0xEC | 0xED | 0xEE | 0xF0 | 0xF1 | 0xF2 | 0xF3 | 0xF4 | 0xF5 | 0xF6
  | 0xF7 => false
  | 0x10 | 0x11 | 0x2A | 0x2C | 0x2D | 0x51 | 0x5A | 0x5D | 0x5F => h.repne || h.repe
  | 0x2E | 0x2F => !(h.repne || h.repe)
  | 0x60 | 0x61 | 0x62 | 0x68 | 0x69 | 0x6A | 0x6C | 0x6D | 0x6E | 0x70 | 0x71 | 0x72 | 0x73 | 0x74
  | 0x75 | 0x76 | 0xD4 | 0xD5 | 0xD7 | 0xDB | 0xEB | 0xEF | 0xF8 | 0xF9 | 0xFA | 0xFB | 0xFC | 0xFD
  | 0xFE => h.osize
  | 0x6F | 0x7E | 0x7F => h.osize || h.repe
  | 0x80 | 0x81 | 0x82 | 0x83 | 0x84 | 0x85 | 0x86 | 0x87 | 0x88 | 0x89 | 0x8A | 0x8B | 0x8C | 0x8D
  | 0x8E | 0x8F => longMode || !h.osize
  | _ => true

/-- A ModRM byte whose forms with 16-bit and with 32-bit addresses are equally long. -/
def sameForm (modrm : Byte) : Bool :=
  match modField modrm with
  | 3 => true
  | 1 => rmField modrm != 4
  | 0 => rmField modrm < 4 || rmField modrm == 7
  | _ => false

theorem modrmBytes16_eq_iff (modrm sib : Byte) :
    modrmBytes16 modrm = modrmBytes32 modrm sib ↔ sameForm modrm = true := by
  have hmod : modField modrm < 4 := (modrm.extractLsb' 6 2).isLt
  have hrm : rmField modrm < 8 := (modrm.extractLsb' 0 3).isLt
  unfold modrmBytes16 modrmBytes32 sameForm
  generalize modField modrm = mod at hmod ⊢
  generalize rmField modrm = rm at hrm ⊢
  rcases mod with _ | _ | _ | _ | mod
  · simp only [Bool.or_eq_true, decide_eq_true_eq, beq_iff_eq]
    split_ifs <;> omega
  · simp only [Nat.zero_add, bne_iff_ne, ne_eq]
    split_ifs with h <;> simp [h]
  · simp only [Nat.zero_add, Nat.reduceAdd, Bool.false_eq_true, iff_false]
    split_ifs <;> omega
  · simp
  · omega

section Agrees

variable (longMode : Bool) (p : Prefixes) (low3 : Nat) (raw : Bool) (h : Header)

/-- The form has the length it has with 32-bit addresses. -/
def SameForm (args : List Arg) (modrm : Byte) : Prop :=
  args.any Arg.usesModrm = true → longMode = false → h.asize = true → sameForm modrm = true

/-- The computation decodes a row with the operands `entry` (of which it names `named`): it consumes their
bytes exactly if the row is read. -/
def Agrees (m : DecodeM Form) (bs : List Byte) (entry : Option (List Arg))
    (named : Option (List Arg)) (read : Bool) : Prop :=
  ∀ f rest, m bs = .ok (f, rest) →
    (∀ args, entry = some args →
      (bs.length = rest.length + argsLength longMode h args (bs.headD 0) ((bs.drop 1).headD 0) ↔
        read = true ∧ SameForm longMode h args (bs.headD 0))) ∧
    (f.op ≠ .unhandled → ∃ args, named = some args ∧
      List.Forall₂ (Made longMode p (bs.headD 0) low3 raw) args f.named)

variable {longMode p low3 raw h} {bs : List Byte}

/-- The bytes of the immediates. -/
def immLength (longMode : Bool) (h : Header) (args : List Arg) : Nat :=
  (args.map (Arg.immBytes longMode h)).sum

/-- A ModRM form with its immediates. -/
theorem length_modrm {args : List Arg} {k : Nat} (huses : args.any Arg.usesModrm = true)
    (hk : k = immLength longMode h args) :
    modrmLength bs + k = argsLength longMode h args (bs.headD 0) ((bs.drop 1).headD 0) ↔
      SameForm longMode h args (bs.headD 0) := by
  unfold argsLength SameForm modrmLength
  rw [if_pos huses, hk]
  by_cases hshort : longMode = false ∧ h.asize = true
  · have hcond : (!longMode && h.asize) = true := by
      rw [hshort.1, hshort.2]
      rfl
    rw [if_pos hcond, ← modrmBytes16_eq_iff (bs.headD 0) ((bs.drop 1).headD 0)]
    unfold immLength
    constructor
    · intro heq _ _ _
      omega
    · intro heq
      rw [heq huses hshort.1 hshort.2]
  · have hcond : ¬ (!longMode && h.asize) = true := by
      intro hc
      rw [Bool.and_eq_true, Bool.not_eq_true'] at hc
      exact hshort hc
    rw [if_neg hcond]
    exact ⟨fun _ _ hl ha => absurd ⟨hl, ha⟩ hshort, fun _ => rfl⟩

/-- Immediates alone. -/
theorem length_plain {args : List Arg} {k : Nat} (huses : args.any Arg.usesModrm = false)
    (hk : k = immLength longMode h args) :
    k = argsLength longMode h args (bs.headD 0) ((bs.drop 1).headD 0) ↔
      SameForm longMode h args (bs.headD 0) := by
  unfold argsLength SameForm
  rw [huses, if_neg Bool.false_ne_true, hk, Nat.zero_add]
  exact ⟨fun _ hc => absurd hc Bool.false_ne_true, fun _ => rfl⟩

section Row

variable {m : DecodeM Form} {entry named : Option (List Arg)} {read : Bool} {k : Nat}

theorem Row.agrees {made : Option (List Arg)} (hrow : Row longMode p low3 raw m bs k made)
    (hnamed : ∀ args, made = some args → named = some args)
    (hlen : ∀ args, entry = some args →
      (k = argsLength longMode h args (bs.headD 0) ((bs.drop 1).headD 0) ↔
        read = true ∧ SameForm longMode h args (bs.headD 0))) :
    Agrees longMode p low3 raw h m bs entry named read := by
  intro f rest hf
  obtain ⟨hk, hmade⟩ := hrow f rest hf
  refine ⟨fun args hargs => ?_, fun hop => ?_⟩
  · rw [← hlen args hargs, hk, Nat.add_right_inj]
  · obtain ⟨args, hargs, hall⟩ := hmade hop
    exact ⟨args, hnamed args hargs, hall⟩

/-- A ModRM form with its immediates. -/
theorem Row.agrees_modrm {args names : List Arg}
    (hrow : Row longMode p low3 raw m bs (modrmLength bs + k) (some names))
    (hentry : entry = some args) (hnamed : named = some names) (hread : read = true)
    (huses : args.any Arg.usesModrm = true) (hk : k = immLength longMode h args) :
    Agrees longMode p low3 raw h m bs entry named read := by
  refine hrow.agrees (fun args' hargs' => hnamed.trans hargs') fun args' hargs' => ?_
  obtain rfl := Option.some.inj (hentry.symm.trans hargs')
  rw [length_modrm huses hk]
  exact ⟨fun hs => ⟨hread, hs⟩, fun hs => hs.2⟩

/-- Immediates alone. -/
theorem Row.agrees_plain {args names : List Arg}
    (hrow : Row longMode p low3 raw m bs k (some names))
    (hentry : entry = some args) (hnamed : named = some names) (hread : read = true)
    (huses : args.any Arg.usesModrm = false) (hk : k = immLength longMode h args) :
    Agrees longMode p low3 raw h m bs entry named read := by
  refine hrow.agrees (fun args' hargs' => hnamed.trans hargs') fun args' hargs' => ?_
  obtain rfl := Option.some.inj (hentry.symm.trans hargs')
  rw [length_plain huses hk]
  exact ⟨fun hs => ⟨hread, hs⟩, fun hs => hs.2⟩

/-- An immediate that may be read with the wrong size. -/
theorem Row.agrees_imm {args names : List Arg}
    (hrow : Row longMode p low3 raw m bs k (some names))
    (hentry : entry = some args) (hnamed : named = some names)
    (huses : args.any Arg.usesModrm = false) (hk : k = immLength longMode h args ↔ read = true) :
    Agrees longMode p low3 raw h m bs entry named read := by
  refine hrow.agrees (fun args' hargs' => hnamed.trans hargs') fun args' hargs' => ?_
  obtain rfl := Option.some.inj (hentry.symm.trans hargs')
  by_cases hread : read = true
  · rw [length_plain huses (hk.mpr hread)]
    exact ⟨fun hs => ⟨hread, hs⟩, fun hs => hs.2⟩
  · have hne : k ≠ argsLength longMode h args (bs.headD 0) ((bs.drop 1).headD 0) := by
      unfold argsLength
      rw [huses, if_neg Bool.false_ne_true, Nat.zero_add]
      exact fun hc => hread (hk.mp hc)
    exact ⟨fun hc => absurd hc hne, fun hs => absurd hs.1 hread⟩

/-- An operand that takes up bytes. -/
def occupies (a : Arg) : Bool :=
  a.usesModrm || match a with
    | .ib | .iw | .iz | .iv | .jb | .jz | .moffs | .far | .ctrl => true
    | _ => false

theorem modrmBytes16_pos (modrm : Byte) : 0 < modrmBytes16 modrm := by
  unfold modrmBytes16
  split <;> (try split_ifs) <;> omega

theorem modrmBytes32_pos (modrm sib : Byte) : 0 < modrmBytes32 modrm sib := by
  unfold modrmBytes32
  split <;> (try split_ifs) <;> omega

theorem immZ_pos (h : Header) : 0 < immZ h := by
  unfold immZ
  split_ifs <;> omega

theorem immBytes_pos (longMode : Bool) (h : Header) {a : Arg} (hocc : occupies a = true) (huses : a.usesModrm = false) :
    0 < a.immBytes longMode h := by
  have hz := immZ_pos h
  cases a with
  | e byte | g byte | v | w | other => exact absurd huses.symm Bool.false_ne_true
  | z byte | acc byte | cl | one => exact absurd hocc Bool.false_ne_true
  | ib | jb | ctrl => exact Nat.one_pos
  | iw => exact Nat.two_pos
  | iz => exact hz
  | far => exact Nat.lt_add_left _ Nat.two_pos
  | iv | jz | moffs =>
    simp only [Arg.immBytes]
    split_ifs <;> omega

theorem argsLength_pos (longMode : Bool) (h : Header) {a : Arg} (hocc : occupies a = true) (args : List Arg)
    (modrm sib : Byte) :
    0 < argsLength longMode h (a :: args) modrm sib := by
  unfold argsLength
  by_cases huses : a.usesModrm = true
  · have hany : (a :: args).any Arg.usesModrm = true := by
      rw [List.any_cons, huses]
      rfl
    have h16 := modrmBytes16_pos modrm
    have h32 := modrmBytes32_pos modrm sib
    rw [if_pos hany]
    split_ifs <;> omega
  · have hpos := immBytes_pos longMode h hocc (Bool.eq_false_iff.mpr huses)
    rw [List.map_cons, List.sum_cons]
    omega

/-- What is left unhandled after the opcode: undefined opcodes, rows without operands, and rows that
should have been read. -/
def Rest (entry : Option (List Arg)) (read : Bool) : Prop :=
  match entry with
  | none => True
  | some [] => read = true
  | some (a :: _) => read = false ∧ occupies a = true

theorem agrees_unhandledForm (hrest : Rest entry read) :
    Agrees longMode p low3 raw h unhandledForm bs entry named read := by
  refine (row_unhandledForm none).agrees (fun args hargs => by cases hargs) fun args hargs => ?_
  subst hargs
  cases args with
  | nil => exact ⟨fun _ => ⟨hrest, fun hc => absurd hc Bool.false_ne_true⟩, fun _ => rfl⟩
  | cons a args =>
    obtain ⟨hread, hocc⟩ := hrest
    have hpos := argsLength_pos longMode h hocc args (bs.headD 0) ((bs.drop 1).headD 0)
    refine ⟨fun hc => absurd hc (Nat.ne_of_lt hpos), fun hc => ?_⟩
    exact absurd (hread.symm.trans hc.1) Bool.false_ne_true

end Row

/-! ### The one-byte opcodes -/

theorem Prefixes.Matches.rexBit_legacy (hp : p.Matches longMode h) (hlong : longMode = false) (i : Nat) :
    h.rexBit i = false := by
  unfold Header.rexBit
  rw [hp.legacy hlong]

theorem Prefixes.Matches.immZ (hp : p.Matches longMode h) :
    (immSizeZ (opSizeDefault32 longMode p)).bytes = X86.immZ h := by
  unfold opSizeDefault32 X86.immZ
  rw [hp.osize, hp.rexW]
  cases hlong : longMode with
  | true =>
    rw [Bool.true_and]
    cases h.rexBit 3 <;> cases h.osize <;> rfl
  | false =>
    rw [hp.rexBit_legacy hlong]
    cases h.osize <;> rfl

/-- The operands that a one-byte opcode names; `63` is always MOVSXD. -/
def primaryNamed (longMode : Bool) (op : Nat) (modrm : Byte) : Option (List Arg) :=
  if op = 0x63 then some [.g false, .e false]
  else (primaryMap longMode op modrm).map (List.filter Arg.isNamed)

theorem Agrees.ite {c : Prop} [Decidable c] {m₁ m₂ : DecodeM Form} {entry named : Option (List Arg)}
    {read : Bool} (ht : c → Agrees longMode p low3 raw h m₁ bs entry named read)
    (he : ¬ c → Agrees longMode p low3 raw h m₂ bs entry named read) :
    Agrees longMode p low3 raw h (if c then m₁ else m₂) bs entry named read := by
  split_ifs with hc
  · exact ht hc
  · exact he hc

/-- The opcodes that the decoder takes range by range are all read. -/
theorem primaryRead_of_range {op : Nat} {modrm : Byte}
    (hop : op < 0x62 ∨ 0x70 ≤ op ∧ op < 0x80 ∨ 0x90 ≤ op ∧ op < 0x98 ∨ 0xB0 ≤ op ∧ op < 0xC0) :
    primaryRead longMode h op modrm = true := by
  unfold primaryRead
  split <;> first | rfl | omega

theorem primaryNamed_eq {op : Nat} {modrm : Byte} (hop : op ≠ 0x63) :
    primaryNamed longMode op modrm = (primaryMap longMode op modrm).map (List.filter Arg.isNamed) :=
  if_neg hop

theorem agrees_decodeArithForm (hp : p.Matches longMode h) {op : Nat} (hop : op ≤ 0x3D)
    (hlow : op % 8 ≤ 5) :
    Agrees longMode p low3 raw h (decodeArithForm longMode p op (arithOp (op / 8))) bs
      (primaryMap longMode op (bs.headD 0)) (primaryNamed longMode op (bs.headD 0))
      (primaryRead longMode h op (bs.headD 0)) := by
  have hentry : primaryMap longMode op (bs.headD 0) = arithArgs longMode op := if_pos (by omega)
  rw [primaryRead_of_range (.inl (by omega)), primaryNamed_eq (by omega), hentry]
  unfold decodeArithForm arithArgs
  generalize op % 8 = low at hlow ⊢
  match low, hlow with
  | 0, _ => exact (row_rmReg _ _ rfl).agrees_modrm (k := 0) rfl rfl rfl rfl rfl
  | 1, _ => exact (row_rmReg _ _ opSizeDefault32_isByte).agrees_modrm (k := 0) rfl rfl rfl rfl rfl
  | 2, _ => exact (row_regRm _ _ _ rfl rfl).agrees_modrm (k := 0) rfl rfl rfl rfl rfl
  | 3, _ =>
    exact (row_regRm _ _ _ opSizeDefault32_isByte opSizeDefault32_isByte).agrees_modrm (k := 0)
      rfl rfl rfl rfl rfl
  | 4, _ => exact (row_accImm _ _ _ rfl).agrees_plain rfl rfl rfl rfl rfl
  | 5, _ =>
    exact (row_accImm _ _ _ opSizeDefault32_isByte).agrees_plain rfl rfl rfl rfl
      (hp.immZ.trans (Nat.zero_add _).symm)

/-- The opcodes with a row of their own. -/
def primaryRows : List Nat :=
  [0x63, 0x68, 0x6A, 0x69, 0x6B, 0x80, 0x81, 0x83, 0x84, 0x85, 0x86, 0x87, 0x88, 0x89, 0x8A, 0x8B,
    0x8D, 0x8F, 0x90, 0x98, 0x99, 0x9C, 0x9D, 0xA8, 0xA9, 0xC0, 0xC1, 0xC2, 0xA4, 0xA5, 0xAA, 0xAB,
    0xC3, 0xC6, 0xC7, 0xC9, 0xCC, 0xCD, 0xD0, 0xD1, 0xD2, 0xD3, 0xE8, 0xE9, 0xEB, 0xF4, 0xF5, 0xF6,
    0xF7, 0xF8, 0xF9, 0xFC, 0xFD, 0xFE, 0xFF]

/-- BOUND, LES and LDS take memory only. -/
theorem rest_primary_memory {op : Nat} {modrm : Byte} (hop : op = 0x62 ∨ op = 0xC4 ∨ op = 0xC5) :
    Rest (primaryMap longMode op modrm) (primaryRead longMode h op modrm) := by
  have hlegacy : ∀ args, modField modrm = 3 ∨ longMode = true →
      Rest (if modField modrm = 3 then none else legacyOnly longMode args) false := by
    intro args hnone
    split_ifs with hmod
    · exact trivial
    · rw [hnone.resolve_left hmod]
      exact trivial
  by_cases hnone : modField modrm = 3 ∨ longMode = true
  · obtain rfl | rfl | rfl := hop
    · exact hlegacy _ hnone
    · exact hlegacy _ hnone
    · exact hlegacy _ hnone
  · obtain ⟨hmod, hlong⟩ := not_or.mp hnone
    obtain rfl := Bool.eq_false_iff.mpr hlong
    have hsome : ∀ args, Rest (some args) false →
        Rest (if modField modrm = 3 then none else legacyOnly false args) false := by
      intro args hargs
      rw [if_neg hmod]
      exact hargs
    obtain rfl | rfl | rfl := hop
    · exact hsome _ ⟨rfl, rfl⟩
    · exact hsome _ ⟨rfl, rfl⟩
    · exact hsome _ ⟨rfl, rfl⟩

/-- Every other one-byte opcode is left unhandled. -/
theorem rest_primary {op : Nat} {modrm : Byte} (hop : op < 256)
    (harith : ¬ (op ≤ 0x3D ∧ op % 8 ≤ 5))
    (hlong : 0x40 ≤ op → op < 0x50 → longMode = true)
    (hrange : op < 0x50 ∨ (0x60 ≤ op ∧ op < 0x70) ∨ (0x80 ≤ op ∧ op < 0x91) ∨
      (0x98 ≤ op ∧ op < 0xB0) ∨ 0xC0 ≤ op)
    (hrow : op ∉ primaryRows) :
    Rest (primaryMap longMode op modrm) (primaryRead longMode h op modrm) := by
  by_cases hmem : op = 0x62 ∨ op = 0xC4 ∨ op = 0xC5
  · exact rest_primary_memory hmem
  obtain hlt | ⟨hge, hlt⟩ | ⟨hge, hlt⟩ | ⟨hge, hlt⟩ | hge := hrange
  · rw [primaryRead_of_range (.inl (by omega))]
    unfold primaryMap arithArgs
    by_cases harith' : op < 0x40
    · have hlow : op % 8 = 6 ∨ op % 8 = 7 := by omega
      rw [if_pos harith']
      obtain hlow | hlow := hlow
      all_goals
        rw [hlow]
        cases longMode with
        | false => exact rfl
        | true => exact trivial
    · rw [if_neg harith', if_pos hlt, hlong (by omega) hlt]
      exact trivial
  -- The other blocks go opcode by opcode: it has a row, or its operands are none, missing or not read.
  all_goals
    clear harith hlong
    cases longMode
    all_goals
      interval_cases op
      all_goals first
        | exact absurd (by decide) hrow
        | exact absurd (by decide) hmem
        | exact trivial
        | exact rfl
        | exact ⟨rfl, rfl⟩

section PrimaryRanges

variable {op : Nat}

theorem agrees_opcodeReg (o : Op) {base : Nat} {size : OpSize} (hbase : op - base = op % 8)
    (hb : size.isByte = false) (hop : op < 0x60 ∧ 0x40 ≤ op)
    (hlong : op < 0x50 → longMode = false) :
    Agrees longMode p (op % 8) raw h (opcodeReg p o (op - base) size) bs
      (primaryMap longMode op (bs.headD 0)) (primaryNamed longMode op (bs.headD 0))
      (primaryRead longMode h op (bs.headD 0)) := by
  have hentry : primaryMap longMode op (bs.headD 0) = some [.z false] := by
    unfold primaryMap
    rw [if_neg (by omega)]
    by_cases hlt : op < 0x50
    · rw [if_pos hlt, hlong hlt]
      rfl
    · rw [if_neg hlt, if_pos hop.1]
  rw [primaryRead_of_range (.inl (by omega)), primaryNamed_eq (by omega), hentry, hbase]
  exact (row_opcodeReg o size hb).agrees_plain rfl rfl rfl rfl rfl

theorem agrees_primaryJcc (cond : Cond) (hop : 0x70 ≤ op ∧ op < 0x80) :
    Agrees longMode p low3 raw h (immOnly (.jcc cond) .b1 .b1) bs
      (primaryMap longMode op (bs.headD 0)) (primaryNamed longMode op (bs.headD 0))
      (primaryRead longMode h op (bs.headD 0)) := by
  have hentry : primaryMap longMode op (bs.headD 0) = some [.jb] := by
    unfold primaryMap
    rw [if_neg (by omega), if_neg (by omega), if_neg (by omega), if_neg (by omega), if_pos hop.2]
  rw [primaryRead_of_range (.inr (.inl hop)), primaryNamed_eq (by omega), hentry]
  exact (row_immOnly _ _ _).agrees_plain rfl rfl rfl rfl rfl

theorem primaryMap_eq_args9 (hop : 0x90 ≤ op ∧ op < 0xC0) (modrm : Byte) :
    primaryMap longMode op modrm = args9 longMode op := by
  unfold primaryMap
  rw [if_neg (by omega), if_neg (by omega), if_neg (by omega), if_neg (by omega), if_neg (by omega),
    if_neg (by omega), if_pos hop.2]

theorem agrees_xchgAcc (hop : 0x91 ≤ op ∧ op ≤ 0x97) :
    Agrees longMode p (op % 8) raw h (xchgAcc longMode p (op - 0x90)) bs
      (primaryMap longMode op (bs.headD 0)) (primaryNamed longMode op (bs.headD 0))
      (primaryRead longMode h op (bs.headD 0)) := by
  have hentry : args9 longMode op = some [.acc false, .z false] := by
    obtain ⟨hlo, hhi⟩ := hop
    interval_cases op <;> rfl
  have hlow : op - 0x90 = op % 8 := by omega
  rw [primaryRead_of_range (.inr (.inr (.inl (by omega)))), primaryNamed_eq (by omega),
    primaryMap_eq_args9 (by omega), hentry, hlow]
  exact row_xchgAcc.agrees_plain rfl rfl rfl rfl rfl

/-- The block of `MOV r, imm`. -/
theorem args9_mov (hop : 0xB0 ≤ op) :
    args9 longMode op = if op < 0xB8 then some [.z true, .ib] else some [.z false, .iv] := by
  unfold args9
  split
  all_goals first
    | omega
    | rw [if_neg (by omega)]

theorem agrees_movByte (hop : 0xB0 ≤ op ∧ op ≤ 0xB7) :
    Agrees longMode p (op % 8) raw h (movOpcodeReg p (op - 0xB0) .b1) bs
      (primaryMap longMode op (bs.headD 0)) (primaryNamed longMode op (bs.headD 0))
      (primaryRead longMode h op (bs.headD 0)) := by
  have hlow : op - 0xB0 = op % 8 := by omega
  have hentry : args9 longMode op = some [.z true, .ib] :=
    (args9_mov hop.1).trans (if_pos (by omega))
  rw [primaryRead_of_range (.inr (.inr (.inr (by omega)))), primaryNamed_eq (by omega),
    primaryMap_eq_args9 (by omega), hentry, hlow]
  exact (row_movOpcodeReg _ rfl).agrees_plain rfl rfl rfl rfl rfl

theorem agrees_movWide (hp : p.Matches longMode h) (hop : 0xB8 ≤ op ∧ op ≤ 0xBF) :
    Agrees longMode p (op % 8) raw h
      (movOpcodeReg p (op - 0xB8) (if p.rex.w then .b8 else if p.osize then .b2 else .b4)) bs
      (primaryMap longMode op (bs.headD 0)) (primaryNamed longMode op (bs.headD 0))
      (primaryRead longMode h op (bs.headD 0)) := by
  have hlow : op - 0xB8 = op % 8 := by omega
  have hb : OpSize.isByte (if p.rex.w then .b8 else if p.osize then .b2 else .b4) = false := by
    split_ifs <;> rfl
  have himm : OpSize.bytes (if p.rex.w then .b8 else if p.osize then .b2 else .b4) =
      immLength longMode h [.z false, .iv] := by
    unfold immLength
    simp only [List.map_cons, List.map_nil, List.sum_cons, List.sum_nil, Arg.immBytes, hp.rexW, hp.osize]
    split_ifs <;> rfl
  have hentry : args9 longMode op = some [.z false, .iv] :=
    (args9_mov (by omega)).trans (if_neg (by omega))
  rw [primaryRead_of_range (.inr (.inr (.inr (by omega)))), primaryNamed_eq (by omega),
    primaryMap_eq_args9 (by omega), hentry, hlow]
  exact (row_movOpcodeReg _ hb).agrees_plain rfl rfl rfl rfl himm

end PrimaryRanges

/-! Rows whose operands depend on the ModRM byte. -/

/-- A ModRM form that is defined for some of its values. -/
theorem Row.agrees_cond {m : DecodeM Form} {c : Prop} [Decidable c] {args names : List Arg} {k : Nat}
    (hrow : Row longMode p low3 raw m bs (modrmLength bs + k) (if c then some names else none))
    (hnames : args.filter Arg.isNamed = names) (huses : args.any Arg.usesModrm = true)
    (hk : k = immLength longMode h args) :
    Agrees longMode p low3 raw h m bs (if c then some args else none)
      ((if c then some args else none).map (List.filter Arg.isNamed)) true := by
  subst hnames
  refine hrow.agrees (fun args' hargs' => ?_) fun args' hargs' => ?_
  · split_ifs at hargs' ⊢
    exact hargs'
  · split_ifs at hargs'
    obtain rfl := Option.some.inj hargs'
    rw [length_modrm huses hk]
    exact ⟨fun hs => ⟨rfl, hs⟩, fun hs => hs.2⟩

theorem agrees_popRm :
    Agrees longMode p low3 raw h (popRm longMode p) bs (primaryMap longMode 0x8F (bs.headD 0))
      (primaryNamed longMode 0x8F (bs.headD 0)) (primaryRead longMode h 0x8F (bs.headD 0)) :=
  row_popRm.agrees_cond (k := 0) rfl rfl rfl

theorem agrees_decodeGroup4 :
    Agrees longMode p low3 raw h (decodeGroup4 longMode p) bs (primaryMap longMode 0xFE (bs.headD 0))
      (primaryNamed longMode 0xFE (bs.headD 0)) (primaryRead longMode h 0xFE (bs.headD 0)) :=
  row_decodeGroup4.agrees_cond (k := 0) rfl rfl rfl

theorem agrees_decodeGroup5 :
    Agrees longMode p low3 raw h (decodeGroup5 longMode p) bs (primaryMap longMode 0xFF (bs.headD 0))
      (primaryNamed longMode 0xFF (bs.headD 0)) (primaryRead longMode h 0xFF (bs.headD 0)) :=
  row_decodeGroup5.agrees_cond (k := 0) rfl rfl rfl

theorem agrees_decodeGroup3 {op : Nat} {size : OpSize} {byte : Bool} {imm : Arg}
    (hb : size.isByte = byte) (hne : op ≠ 0x63)
    (hentry : primaryMap longMode op (bs.headD 0) =
      some (if regField (bs.headD 0) ≤ 1 then [.e byte, imm] else [.e byte]))
    (hread : primaryRead longMode h op (bs.headD 0) = true) (hnamed : imm.isNamed = false)
    (himm : (if size = .b1 then OpSize.b1 else immSizeZ size).bytes = imm.immBytes longMode h) :
    Agrees longMode p low3 raw h (decodeGroup3 longMode p size) bs
      (primaryMap longMode op (bs.headD 0)) (primaryNamed longMode op (bs.headD 0))
      (primaryRead longMode h op (bs.headD 0)) := by
  refine (row_decodeGroup3 size hb).agrees_modrm hentry ?_ hread ?_ ?_
  · rw [primaryNamed_eq hne, hentry, Option.map_some]
    split_ifs
    · rw [List.filter_cons_of_pos rfl, List.filter_cons_of_neg (Bool.eq_false_iff.mp hnamed),
        List.filter_nil]
    · rfl
  · split_ifs <;> rfl
  · split_ifs at himm ⊢
    · exact himm.trans (Nat.zero_add _).symm
    · exact himm.trans (Nat.zero_add _).symm
    · rfl
    · rfl

/-- `MOV r/m, imm`: XABORT and XBEGIN, which share the opcodes, are not told apart. -/
theorem agrees_movRmImm {op : Nat} {size immSize : OpSize} {byte : Bool} {imm : Arg}
    (hb : size.isByte = byte) (hne : op ≠ 0x63)
    (hentry : primaryMap longMode op (bs.headD 0) =
      if regField (bs.headD 0) = 0 then some [.e byte, imm]
      else if bs.headD 0 = 0xF8 then some [.ctrl, imm] else none)
    (hread : primaryRead longMode h op (bs.headD 0) = (bs.headD 0 != 0xF8))
    (hnamed : imm.isNamed = false) (huses : imm.usesModrm = false)
    (hpos : 0 < imm.immBytes longMode h) (himm : immSize.bytes = imm.immBytes longMode h) :
    Agrees longMode p low3 raw h (movRmImm longMode p size immSize) bs
      (primaryMap longMode op (bs.headD 0)) (primaryNamed longMode op (bs.headD 0))
      (primaryRead longMode h op (bs.headD 0)) := by
  have hnames : List.filter Arg.isNamed [.e byte, imm] = [.e byte] := by
    rw [List.filter_cons_of_pos rfl, List.filter_cons_of_neg (Bool.eq_false_iff.mp hnamed),
      List.filter_nil]
  refine (row_movRmImm size immSize hb).agrees (fun args hargs => ?_) fun args hargs => ?_
  · split_ifs at hargs with hsub
    rw [primaryNamed_eq hne, hentry, if_pos hsub, Option.map_some, hnames]
    exact hargs
  · rw [hread]
    rw [hentry] at hargs
    split_ifs at hargs with hsub hF8
    · obtain rfl := Option.some.inj hargs
      have hne8 : bs.headD 0 ≠ 0xF8 := by
        intro hc
        rw [hc] at hsub
        exact absurd hsub (by decide)
      rw [if_pos hsub, length_modrm rfl (himm.trans (Nat.zero_add _).symm)]
      exact ⟨fun hs => ⟨bne_iff_ne.mpr hne8, hs⟩, fun hs => hs.2⟩
    · -- The immediate after the ModRM byte is missed.
      obtain rfl := Option.some.inj hargs
      have hmodrm : modrmLength bs = 1 := by
        unfold modrmLength
        rw [hF8]
        rfl
      have hplain : argsLength longMode h [.ctrl, imm] (bs.headD 0) ((bs.drop 1).headD 0)
          = 0 + (1 + (imm.immBytes longMode h + 0)) := by
        unfold argsLength
        rw [List.any_cons, List.any_cons, huses]
        rfl
      rw [if_neg hsub, hmodrm, hplain, hF8]
      refine ⟨fun hc => ?_, fun hc => absurd hc.1 Bool.false_ne_true⟩
      omega

/-- `PUSH imm` with four bytes of immediate. -/
theorem agrees_pushImm {size : OpSize} :
    Agrees longMode p low3 raw h (immOnly .push .b4 size) bs (primaryMap longMode 0x68 (bs.headD 0))
      (primaryNamed longMode 0x68 (bs.headD 0)) (primaryRead longMode h 0x68 (bs.headD 0)) := by
  refine (row_immOnly _ _ _).agrees_imm rfl rfl rfl ?_
  change 4 = X86.immZ h + 0 ↔ (!h.osize || h.rexBit 3) = true
  unfold X86.immZ
  cases h.osize <;> cases h.rexBit 3 <;> decide

/-- A near branch with four bytes of displacement. -/
theorem agrees_branch (hp : p.Matches longMode h) {m : DecodeM Form} {entry named : Option (List Arg)}
    {read : Bool} (hrow : Row longMode p low3 raw m bs 4 (some []))
    (hentry : entry = some [.jz]) (hnamed : named = some []) (hread : read = (longMode || !h.osize)) :
    Agrees longMode p low3 raw h m bs entry named read := by
  refine hrow.agrees_imm hentry hnamed rfl ?_
  rw [hread]
  change 4 = (if longMode = true then 4 else X86.immZ h) + 0 ↔ _
  cases hlong : longMode with
  | true => exact ⟨fun _ => rfl, fun _ => rfl⟩
  | false =>
    unfold X86.immZ
    rw [hp.rexBit_legacy hlong]
    cases h.osize <;> decide

/-- Every one-byte opcode. -/
theorem primary_agrees (raw : Bool) (hp : p.Matches longMode h) {op : Nat} (hop : op < 256) :
    Agrees longMode p (op % 8) raw h (decodePrimary longMode p op) bs
      (primaryMap longMode op (bs.headD 0)) (primaryNamed longMode op (bs.headD 0))
      (primaryRead longMode h op (bs.headD 0)) := by
  have hz : (immSizeZ (opSizeDefault32 longMode p)).bytes = 0 + X86.immZ h :=
    hp.immZ.trans (Nat.zero_add _).symm
  unfold decodePrimary
  refine .ite (fun hc => agrees_decodeArithForm hp hc.1 hc.2) fun harith => ?_
  refine .ite (fun hc => agrees_opcodeReg _ (by omega) opSizeDefault32_isByte (by omega)
    fun _ => hc.2.2) fun hinc => ?_
  refine .ite (fun hc => agrees_opcodeReg _ (by omega) opSizeDefault32_isByte (by omega)
    fun _ => hc.2.2) fun hdec => ?_
  refine .ite (fun hc => agrees_opcodeReg _ (by omega) opSizeDefault64_isByte (by omega)
    (by omega)) fun hpush => ?_
  refine .ite (fun hc => agrees_opcodeReg _ (by omega) opSizeDefault64_isByte (by omega)
    (by omega)) fun hpop => ?_
  refine .ite (fun hc => agrees_primaryJcc _ (by omega)) fun hjcc => ?_
  refine .ite (fun hc => agrees_xchgAcc hc) fun hxchg => ?_
  refine .ite (fun hc => agrees_movByte hc) fun hmovb => ?_
  refine .ite (fun hc => agrees_movWide hp hc) fun hmov => ?_
  have hs : (opSizeDefault32 longMode p).isByte = false := opSizeDefault32_isByte
  have hint : (if p.rex.w then OpSize.b8 else .b4).isByte = false := by
    split_ifs <;> rfl
  have hgroup3 : (if opSizeDefault32 longMode p = .b1 then OpSize.b1
      else immSizeZ (opSizeDefault32 longMode p)).bytes = X86.immZ h := by
    rw [if_neg fun hc => ?_, hp.immZ]
    rw [hc] at hs
    exact Bool.false_ne_true hs.symm
  have hrange : op < 0x50 ∨ (0x60 ≤ op ∧ op < 0x70) ∨ (0x80 ≤ op ∧ op < 0x91) ∨
      (0x98 ≤ op ∧ op < 0xB0) ∨ 0xC0 ≤ op := by
    clear harith hinc hdec hz hgroup3
    omega
  have hlong : 0x40 ≤ op → op < 0x50 → longMode = true := by
    intro hge hlt
    by_contra hlong
    have hlegacy : longMode = false := Bool.eq_false_iff.mpr hlong
    by_cases hhi : op ≤ 0x47
    · exact hinc ⟨hge, hhi, hlegacy⟩
    · exact hdec ⟨by omega, by omega, hlegacy⟩
  split
  · cases longMode with
    | true => exact (row_regRm _ _ _ hint rfl).agrees_modrm (k := 0) rfl rfl rfl rfl rfl
    | false => exact (row_regRm _ _ _ hint rfl).agrees_modrm (k := 0) rfl rfl rfl rfl rfl
  · exact agrees_pushImm
  · exact (row_immOnly _ _ _).agrees_plain rfl rfl rfl rfl rfl
  · exact (row_imulImm _ _ hs).agrees_modrm rfl rfl rfl rfl (hz.trans (Nat.zero_add _).symm)
  · exact (row_imulImm _ _ hs).agrees_modrm rfl rfl rfl rfl rfl
  · exact (row_decodeGroup1 _ _ rfl).agrees_modrm rfl rfl rfl rfl rfl
  · exact (row_decodeGroup1 _ _ hs).agrees_modrm rfl rfl rfl rfl hz
  · exact (row_decodeGroup1 _ _ hs).agrees_modrm rfl rfl rfl rfl rfl
  · exact (row_rmReg _ _ rfl).agrees_modrm (k := 0) rfl rfl rfl rfl rfl
  · exact (row_rmReg _ _ hs).agrees_modrm (k := 0) rfl rfl rfl rfl rfl
  · exact (row_rmReg _ _ rfl).agrees_modrm (k := 0) rfl rfl rfl rfl rfl
  · exact (row_rmReg _ _ hs).agrees_modrm (k := 0) rfl rfl rfl rfl rfl
  · exact (row_rmReg _ _ rfl).agrees_modrm (k := 0) rfl rfl rfl rfl rfl
  · exact (row_rmReg _ _ hs).agrees_modrm (k := 0) rfl rfl rfl rfl rfl
  · exact (row_regRm _ _ _ rfl rfl).agrees_modrm (k := 0) rfl rfl rfl rfl rfl
  · exact (row_regRm _ _ _ hs hs).agrees_modrm (k := 0) rfl rfl rfl rfl rfl
  · exact (row_regRm _ _ _ hs hs).agrees_modrm (k := 0) rfl rfl rfl rfl rfl
  · exact agrees_popRm
  · exact (row_make0 _).agrees_plain rfl rfl rfl rfl rfl
  · exact (row_make0 _).agrees_plain rfl rfl rfl rfl rfl
  · exact (row_make0 _).agrees_plain rfl rfl rfl rfl rfl
  · exact (row_make0 _).agrees_plain rfl rfl rfl rfl rfl
  · exact (row_make0 _).agrees_plain rfl rfl rfl rfl rfl
  · exact (row_accImm _ _ _ rfl).agrees_plain rfl rfl rfl rfl rfl
  · exact (row_accImm _ _ _ hs).agrees_plain rfl rfl rfl rfl hz
  · exact (row_decodeGroup2 _ _ rfl).agrees_modrm rfl rfl rfl rfl rfl
  · exact (row_decodeGroup2 _ _ hs).agrees_modrm rfl rfl rfl rfl rfl
  · exact (row_immediate (takes_readLe 16 2) _ _ _).agrees_plain rfl rfl rfl rfl rfl
  · exact (row_stringForm _ _).agrees_plain rfl rfl rfl rfl rfl
  · exact (row_stringForm _ _).agrees_plain rfl rfl rfl rfl rfl
  · exact (row_stringForm _ _).agrees_plain rfl rfl rfl rfl rfl
  · exact (row_stringForm _ _).agrees_plain rfl rfl rfl rfl rfl
  · exact (row_make0 _).agrees_plain rfl rfl rfl rfl rfl
  · exact agrees_movRmImm rfl (by decide) rfl rfl rfl rfl Nat.one_pos rfl
  · exact agrees_movRmImm hs (by decide) rfl rfl rfl rfl (immZ_pos h) hp.immZ
  · exact (row_make0 _).agrees_plain rfl rfl rfl rfl rfl
  · exact (row_make0 _).agrees_plain rfl rfl rfl rfl rfl
  · exact (row_immediate takes_readU8 _ _ _).agrees_plain rfl rfl rfl rfl rfl
  · exact (row_decodeGroup2 _ _ rfl).agrees_modrm rfl rfl rfl rfl rfl
  · exact (row_decodeGroup2 _ _ hs).agrees_modrm rfl rfl rfl rfl rfl
  · exact (row_decodeGroup2 _ _ rfl).agrees_modrm rfl rfl rfl rfl rfl
  · exact (row_decodeGroup2 _ _ hs).agrees_modrm rfl rfl rfl rfl rfl
  · exact agrees_branch hp (row_immOnly _ _ _) rfl rfl rfl
  · exact agrees_branch hp (row_immOnly _ _ _) rfl rfl rfl
  · exact (row_immOnly _ _ _).agrees_plain rfl rfl rfl rfl rfl
  · exact (row_make0 _).agrees_plain rfl rfl rfl rfl rfl
  · exact (row_make0 _).agrees_plain rfl rfl rfl rfl rfl
  · exact agrees_decodeGroup3 rfl (by decide) rfl rfl rfl rfl
  · exact agrees_decodeGroup3 hs (by decide) rfl rfl rfl hgroup3
  · exact (row_make0 _).agrees_plain rfl rfl rfl rfl rfl
  · exact (row_make0 _).agrees_plain rfl rfl rfl rfl rfl
  · exact (row_make0 _).agrees_plain rfl rfl rfl rfl rfl
  · exact (row_make0 _).agrees_plain rfl rfl rfl rfl rfl
  · exact agrees_decodeGroup4
  · exact agrees_decodeGroup5
  · refine agrees_unhandledForm (rest_primary hop harith hlong hrange ?_)
    simp only [primaryRows, List.mem_cons, List.not_mem_nil, or_false, not_or]
    and_intros <;> assumption

end Agrees

end Quantum.Jit
