import Quantum.Jit.Equiv.DecodeMap

/-!
# The `0F` table and its map

The rows that `66`, `F2` and `F3` select, those that no prefix selects, and what is left over.
-/

namespace Quantum.Jit

open DecodeM X86

section Agrees

variable {longMode : Bool} {p : Prefixes} {low3 : Nat} {raw : Bool} {h : Header} {bs : List Byte}
  {op : Nat}

variable (longMode p) in
/-- The tables that prefixes select, with whether they do. -/
def secondaryRows (op : Nat) : List (Bool × Option (DecodeM Form)) :=
  [(p.osize, decodeOsize longMode p op), (p.osize || p.repe, decodeOsizeOrRepe longMode p op),
    (p.repne || p.repe, decodeRep longMode p op), (!p.repne && !p.repe, decodeNoRep longMode p op)]

variable (longMode p) in
/-- The row of a `0F` opcode. -/
def secondaryRow (op : Nat) : DecodeM Form :=
  match (secondaryRows longMode p op).findSome? fun (sel, row) => if sel then row else none with
  | some m => m
  | none => decodePlain longMode p op

theorem decodeSecondary_cons (c : Byte) :
    decodeSecondary longMode p (c :: bs) = secondaryRow longMode p c.toNat bs :=
  rfl

/-- The operands that a `0F` opcode names; with `66`, `7E` is always the move to a general register. -/
def secondaryNamed (h : Header) (op : Nat) (modrm : Byte) : Option (List Arg) :=
  if op = 0x7E ∧ h.osize = true then some [.e false, .v]
  else (secondaryMap h op modrm).map (List.filter Arg.isNamed)

/-- The rows that take the reg field without its extension bit. -/
def secondaryRaw (h : Header) (op : Nat) : Bool :=
  ((op == 0x6E || op == 0x7E) && h.osize) || (op == 0x2A && (h.repne || h.repe))

variable (longMode p h) in
/-- A computation that decodes the row of a `0F` opcode. -/
def SecondaryAgrees (op : Nat) (bs : List Byte) (m : DecodeM Form) : Prop :=
  Agrees longMode p (op % 8) (secondaryRaw h op) h m bs (secondaryMap h op (bs.headD 0))
    (secondaryNamed h op (bs.headD 0)) (secondaryRead longMode h op)

theorem intSize_isByte : (intSize p).isByte = false := by
  unfold intSize
  split_ifs <;> rfl

/-- A row of register forms only, with the immediate of a shift. -/
theorem agrees_registerForm {m : DecodeM Form} {args : List Arg} {k : Nat} {read : Bool}
    (hrow : Row longMode p low3 raw m bs (1 + if modField (bs.headD 0) = 3 then k else 0)
      (if modField (bs.headD 0) = 3 then some (args.filter Arg.isNamed) else none))
    (hread : read = true) (huses : args.any Arg.usesModrm = true)
    (hk : k = immLength longMode h args) :
    Agrees longMode p low3 raw h m bs (if modField (bs.headD 0) = 3 then some args else none)
      ((if modField (bs.headD 0) = 3 then some args else none).map (List.filter Arg.isNamed)) read := by
  refine hrow.agrees (fun args' hargs' => ?_) fun args' hargs' => ?_
  · split_ifs at hargs' ⊢
    exact hargs'
  · split_ifs at hargs' with hmod
    obtain rfl := Option.some.inj hargs'
    have hlen : 1 + k = modrmLength bs + k := by
      unfold modrmLength
      rw [modrmBytes32_register hmod]
    rw [if_pos hmod, hlen, length_modrm huses hk]
    exact ⟨fun hs => ⟨hread, hs⟩, fun hs => hs.2⟩

theorem agrees_decodeOsize {m : DecodeM Form} (hosize : h.osize = true)
    (hm : decodeOsize longMode p op = some m) : SecondaryAgrees longMode p h op bs m := by
  obtain ⟨osize, asize, repne, repe, seg, rex, stray⟩ := h
  obtain rfl : osize = true := hosize
  unfold decodeOsize at hm
  split at hm
  any_goals obtain rfl := Option.some.inj hm
  · exact (row_xmmGpr _ _ _ intSize_isByte).agrees_modrm (k := 0) rfl rfl rfl rfl rfl
  · cases repe with
    | true => exact (row_gprXmm _ _ intSize_isByte).agrees_modrm (k := 0) rfl rfl rfl rfl rfl
    | false => exact (row_gprXmm _ _ intSize_isByte).agrees_modrm (k := 0) rfl rfl rfl rfl rfl
  · exact agrees_registerForm (row_decodePackedShift _) rfl rfl rfl
  · exact agrees_registerForm (row_decodePackedShift _) rfl rfl rfl
  · exact agrees_registerForm (row_decodePackedShift _) rfl rfl rfl
  · exact (row_xmmRm _ _ _).agrees_modrm (k := 0) rfl rfl rfl rfl rfl
  · exact (row_xmmRm _ _ _).agrees_modrm (k := 0) rfl rfl rfl rfl rfl
  · exact (row_xmmRm _ _ _).agrees_modrm (k := 0) rfl rfl rfl rfl rfl
  · exact (row_xmmRm _ _ _).agrees_modrm (k := 0) rfl rfl rfl rfl rfl
  · exact (row_xmmRm _ _ _).agrees_modrm (k := 0) rfl rfl rfl rfl rfl
  · exact (row_xmmRm _ _ _).agrees_modrm (k := 0) rfl rfl rfl rfl rfl
  · exact (row_xmmRm _ _ _).agrees_modrm (k := 0) rfl rfl rfl rfl rfl
  · exact (row_xmmRm _ _ _).agrees_modrm (k := 0) rfl rfl rfl rfl rfl
  · exact agrees_registerForm (k := 0) (by rw [ite_self]; exact row_decodePmovmskb) rfl rfl rfl
  · exact (row_xmmRm _ _ _).agrees_modrm (k := 0) rfl rfl rfl rfl rfl
  · exact row_decodePshufd.agrees_modrm rfl rfl rfl rfl rfl
  · exact (row_xmmRm _ _ _).agrees_modrm (k := 0) rfl rfl rfl rfl rfl
  · exact (row_xmmRm _ _ _).agrees_modrm (k := 0) rfl rfl rfl rfl rfl
  · exact (row_xmmRm _ _ _).agrees_modrm (k := 0) rfl rfl rfl rfl rfl
  · exact (row_xmmRm _ _ _).agrees_modrm (k := 0) rfl rfl rfl rfl rfl
  · exact (row_xmmRm _ _ _).agrees_modrm (k := 0) rfl rfl rfl rfl rfl
  · exact (row_xmmRm _ _ _).agrees_modrm (k := 0) rfl rfl rfl rfl rfl
  · exact (row_xmmRm _ _ _).agrees_modrm (k := 0) rfl rfl rfl rfl rfl
  · exact (row_xmmRm _ _ _).agrees_modrm (k := 0) rfl rfl rfl rfl rfl
  · exact (row_xmmRm _ _ _).agrees_modrm (k := 0) rfl rfl rfl rfl rfl
  · exact (row_xmmRm _ _ _).agrees_modrm (k := 0) rfl rfl rfl rfl rfl
  · exact (row_xmmRm _ _ _).agrees_modrm (k := 0) rfl rfl rfl rfl rfl
  · exact (row_xmmRm _ _ _).agrees_modrm (k := 0) rfl rfl rfl rfl rfl
  · exact (row_xmmRm _ _ _).agrees_modrm (k := 0) rfl rfl rfl rfl rfl
  · exact (row_xmmRm _ _ _).agrees_modrm (k := 0) rfl rfl rfl rfl rfl
  · cases hm

theorem agrees_decodeOsizeOrRepe {m : DecodeM Form} (hp : p.Matches longMode h)
    (hsel : (h.osize || h.repe) = true) (hm : decodeOsizeOrRepe longMode p op = some m) :
    SecondaryAgrees longMode p h op bs m := by
  have hosize := hp.osize
  obtain ⟨osize, asize, repne, repe, seg, rex, stray⟩ := h
  dsimp only at hosize hsel
  unfold decodeOsizeOrRepe at hm
  split at hm
  · obtain rfl := Option.some.inj hm
    cases osize <;> cases repe
    · cases hsel
    all_goals exact (row_xmmRm _ _ _).agrees_modrm (k := 0) rfl rfl rfl rfl rfl
  · obtain rfl := Option.some.inj hm
    cases osize <;> cases repe
    · cases hsel
    all_goals exact (row_rmXmm _ _).agrees_modrm (k := 0) rfl rfl rfl rfl rfl
  · -- Only F3 is left.
    split_ifs at hm with hc
    obtain rfl := Option.some.inj hm
    rw [hosize] at hc
    obtain rfl := Bool.eq_false_iff.mpr hc
    obtain rfl : repe = true := hsel
    exact (row_xmmRm _ _ _).agrees_modrm (k := 0) rfl rfl rfl rfl rfl
  · cases hm

theorem agrees_decodeRep {m : DecodeM Form} (hrep : (h.repne || h.repe) = true)
    (hm : decodeRep longMode p op = some m) : SecondaryAgrees longMode p h op bs m := by
  have hconv : ∀ (args : List Arg), some (if (h.repne || h.repe) = true then args else [.other]) = some args :=
    fun args => congrArg some (if_pos hrep)
  unfold decodeRep at hm
  dsimp only at hm
  split at hm
  any_goals obtain rfl := Option.some.inj hm
  · exact (row_xmmRm _ _ _).agrees_modrm (k := 0) rfl rfl hrep rfl rfl
  · exact (row_rmXmm _ _).agrees_modrm (k := 0) rfl rfl hrep rfl rfl
  · exact (row_xmmRm _ _ _).agrees_modrm (k := 0) rfl rfl rfl rfl rfl
  · exact (row_xmmRm _ _ _).agrees_modrm (k := 0) rfl rfl rfl rfl rfl
  · exact (row_xmmRm _ _ _).agrees_modrm (k := 0) rfl rfl rfl rfl rfl
  · exact (row_xmmRm _ _ _).agrees_modrm (k := 0) rfl rfl rfl rfl rfl
  · have hraw : secondaryRaw h 0x2A = true := hrep
    unfold SecondaryAgrees
    rw [hraw]
    exact (row_xmmGpr _ _ _ intSize_isByte).agrees_modrm (k := 0) (hconv _)
      (congrArg (Option.map (List.filter Arg.isNamed)) (hconv [.v, .e false])) hrep rfl rfl
  · exact (row_regXmm _ _ _ intSize_isByte).agrees_modrm (k := 0) (hconv _)
      (congrArg (Option.map (List.filter Arg.isNamed)) (hconv [.g false, .w])) hrep rfl rfl
  · exact (row_regXmm _ _ _ intSize_isByte).agrees_modrm (k := 0) (hconv _)
      (congrArg (Option.map (List.filter Arg.isNamed)) (hconv [.g false, .w])) hrep rfl rfl
  · split_ifs at hm
    all_goals
      obtain rfl := Option.some.inj hm
      exact (row_xmmRm _ _ _).agrees_modrm (k := 0) rfl rfl hrep rfl rfl
  · exact (row_xmmRm _ _ _).agrees_modrm (k := 0) rfl rfl hrep rfl rfl
  · exact (row_xmmRm _ _ _).agrees_modrm (k := 0) rfl rfl hrep rfl rfl
  · exact (row_xmmRm _ _ _).agrees_modrm (k := 0) rfl rfl hrep rfl rfl
  · cases hm

theorem agrees_decodeNoRep {m : DecodeM Form} (hrep : (h.repne || h.repe) = false)
    (hm : decodeNoRep longMode p op = some m) : SecondaryAgrees longMode p h op bs m := by
  have hread : (!(h.repne || h.repe)) = true := by
    rw [hrep]
    rfl
  unfold decodeNoRep at hm
  dsimp only at hm
  split at hm
  any_goals obtain rfl := Option.some.inj hm
  · exact (row_xmmRm _ _ _).agrees_modrm (k := 0) rfl rfl rfl rfl rfl
  · exact (row_xmmRm _ _ _).agrees_modrm (k := 0) rfl rfl rfl rfl rfl
  · exact (row_xmmRm _ _ _).agrees_modrm (k := 0) rfl rfl rfl rfl rfl
  · exact (row_xmmRm _ _ _).agrees_modrm (k := 0) rfl rfl rfl rfl rfl
  · exact (row_xmmRm _ _ _).agrees_modrm (k := 0) rfl rfl hread rfl rfl
  · exact (row_xmmRm _ _ _).agrees_modrm (k := 0) rfl rfl hread rfl rfl
  · split_ifs at hm
    obtain rfl := Option.some.inj hm
    exact (row_make0 _).agrees_plain rfl rfl rfl rfl rfl
  · cases hm

/-! ### The rows that no prefix selects -/

theorem secondaryNamed_eq {modrm : Byte} (hop : op ≠ 0x7E) :
    secondaryNamed h op modrm = (secondaryMap h op modrm).map (List.filter Arg.isNamed) :=
  if_neg fun hc => hop hc.1

theorem agrees_cmov (o : Op) (hop : 0x40 ≤ op ∧ op ≤ 0x4F) :
    SecondaryAgrees longMode p h op bs
      (regRm longMode p o (opSizeDefault32 longMode p) (opSizeDefault32 longMode p)) := by
  obtain ⟨hge, hle⟩ := hop
  have hread : secondaryRead longMode h op = true := by
    interval_cases op <;> rfl
  have hentry : secondaryMap h op (bs.headD 0) = some [.g false, .e false] := by
    interval_cases op <;> rfl
  unfold SecondaryAgrees
  rw [hread, secondaryNamed_eq (by omega), hentry]
  exact (row_regRm _ _ _ opSizeDefault32_isByte opSizeDefault32_isByte).agrees_modrm (k := 0)
    rfl rfl rfl rfl rfl

theorem agrees_secondaryJcc (hp : p.Matches longMode h) (o : Op) (hop : 0x80 ≤ op ∧ op ≤ 0x8F) :
    SecondaryAgrees longMode p h op bs (immOnly o .b4 .b4) := by
  obtain ⟨hge, hle⟩ := hop
  have hread : secondaryRead longMode h op = (longMode || !h.osize) := by
    interval_cases op <;> rfl
  have hentry : secondaryMap h op (bs.headD 0) = some [.jz] := by
    interval_cases op <;> rfl
  have hnamed : secondaryNamed h op (bs.headD 0) = some [] := by
    rw [secondaryNamed_eq (by omega), hentry]
    rfl
  exact agrees_branch hp (row_immOnly _ _ _) hentry hnamed hread

theorem agrees_decodeSet (cond : Cond) (hop : 0x90 ≤ op ∧ op ≤ 0x9F) :
    SecondaryAgrees longMode p h op bs (decodeSet longMode p cond) := by
  obtain ⟨hge, hle⟩ := hop
  have hread : secondaryRead longMode h op = true := by
    interval_cases op <;> rfl
  have hentry : secondaryMap h op (bs.headD 0) = some [.e true] := by
    interval_cases op <;> rfl
  unfold SecondaryAgrees
  rw [hread, secondaryNamed_eq (by omega), hentry]
  exact (row_decodeSet _).agrees_modrm (k := 0) rfl rfl rfl rfl rfl

theorem agrees_bswap (o : Op) (hop : 0xC8 ≤ op ∧ op ≤ 0xCF) :
    SecondaryAgrees longMode p h op bs (opcodeReg p o (op - 0xC8) (intSize p)) := by
  obtain ⟨hge, hle⟩ := hop
  have hread : secondaryRead longMode h op = true := by
    interval_cases op <;> rfl
  have hentry : secondaryMap h op (bs.headD 0) = some [.z false] := by
    interval_cases op <;> rfl
  have hlow : op - 0xC8 = op % 8 := by omega
  unfold SecondaryAgrees
  rw [hread, secondaryNamed_eq (by omega), hentry, hlow]
  exact (row_opcodeReg _ _ intSize_isByte).agrees_plain rfl rfl rfl rfl rfl

theorem agrees_decodeGroup8 :
    SecondaryAgrees longMode p h 0xBA bs (decodeGroup8 longMode p (opSizeDefault32 longMode p)) :=
  (row_decodeGroup8 _ opSizeDefault32_isByte).agrees_cond rfl rfl rfl

/-! ### What is left over -/

/-- The opcodes with a row under `66`. -/
def osizeRows : List Nat :=
  [0x6E, 0x7E, 0x71, 0x72, 0x73, 0x60, 0x61, 0x62, 0x68, 0x69, 0x6A, 0x6C, 0x6D, 0xD7, 0xD5, 0x70,
    0x74, 0x75, 0x76, 0xEF, 0xDB, 0xEB, 0xD4, 0xFB, 0xFE, 0xFA, 0xFD, 0xF9, 0xFC, 0xF8]

theorem decodeOsize_ne_none (hop : op ∈ osizeRows) : decodeOsize longMode p op ≠ none := by
  simp only [osizeRows, List.mem_cons, List.not_mem_nil, or_false] at hop
  rcases hop with rfl | rfl | rfl | rfl | rfl | rfl | rfl | rfl | rfl | rfl | rfl | rfl | rfl | rfl |
    rfl | rfl | rfl | rfl | rfl | rfl | rfl | rfl | rfl | rfl | rfl | rfl | rfl | rfl | rfl | rfl
  all_goals exact Option.some_ne_none _

/-- The opcodes with a row under `F2` or `F3`. -/
def repRows : List Nat :=
  [0x10, 0x11, 0x58, 0x59, 0x5C, 0x5E, 0x2A, 0x2C, 0x2D, 0x5A, 0x51, 0x5D, 0x5F]

theorem decodeRep_ne_none (hop : op ∈ repRows) : decodeRep longMode p op ≠ none := by
  simp only [repRows, List.mem_cons, List.not_mem_nil, or_false] at hop
  rcases hop with rfl | rfl | rfl | rfl | rfl | rfl | rfl | rfl | rfl | rfl | rfl | rfl | rfl
  case inr.inr.inr.inr.inr.inr.inr.inr.inr.inl =>
    unfold decodeRep
    dsimp only
    split_ifs <;> exact Option.some_ne_none _
  all_goals exact Option.some_ne_none _

/-- The opcodes with a row under neither. -/
def noRepRows : List Nat :=
  [0x58, 0x59, 0x5C, 0x5E, 0x2E, 0x2F]

theorem decodeNoRep_ne_none (hop : op ∈ noRepRows) : decodeNoRep longMode p op ≠ none := by
  simp only [noRepRows, List.mem_cons, List.not_mem_nil, or_false] at hop
  rcases hop with rfl | rfl | rfl | rfl | rfl | rfl
  all_goals exact Option.some_ne_none _

/-- The opcodes with a row under no prefix. -/
def plainRows : List Nat :=
  [0x05, 0x0B, 0x31, 0x1F, 0xA3, 0xAF, 0xB0, 0xB1, 0xB6, 0xB7, 0xBA, 0xBC, 0xBD, 0xBE, 0xBF, 0xC0,
    0xC1]

theorem Rest.cond {c : Prop} [Decidable c] {args : List Arg} {read : Bool} (h : Rest (some args) read) :
    Rest (if c then some args else none) read := by
  split_ifs
  · exact h
  · exact trivial

/-- Every other `0F` opcode is left unhandled. -/
theorem rest_secondary {modrm : Byte} (hop : op < 256)
    (hosize : h.osize = true → op ∉ osizeRows)
    (hor : (h.osize || h.repe) = true → op ∉ [0x6F, 0x7E, 0x7F])
    (hrep : (h.repne || h.repe) = true → op ∉ repRows)
    (hnoRep : (h.repne || h.repe) = false → op ∉ noRepRows)
    (hrange : op < 0x40 ∨ (0x50 ≤ op ∧ op < 0x80) ∨ (0xA0 ≤ op ∧ op < 0xC8) ∨ 0xD0 ≤ op)
    (hrow : op ∉ plainRows) :
    Rest (secondaryMap h op modrm) (secondaryRead longMode h op) := by
  obtain ⟨osize, asize, repne, repe, seg, rex, stray⟩ := h
  dsimp only at hosize hor hrep hnoRep
  obtain hlt | ⟨hge, hlt⟩ | ⟨hge, hlt⟩ | hge := hrange
  all_goals
    interval_cases op
    all_goals first
      | exact absurd (by decide) hrow
      | exact trivial
      | exact rfl
      | exact ⟨rfl, rfl⟩
      | skip
  -- Some operands depend on `66` or on the ModRM byte,
  all_goals
    cases osize
    all_goals first
      | exact trivial
      | exact rfl
      | exact ⟨rfl, rfl⟩
      | exact absurd (by decide) (hosize rfl)
      | exact Rest.cond (c := modField modrm = 3) ⟨rfl, rfl⟩
      | exact Rest.cond (c := regField modrm ≤ 5) ⟨rfl, rfl⟩
      | skip
  -- others on the repeat prefixes too.
  all_goals
    cases repne <;> cases repe
    all_goals first
      | exact trivial
      | exact ⟨rfl, rfl⟩
      | exact absurd (by decide) (hor rfl)
      | exact absurd (by decide) (hrep rfl)
      | exact absurd (by decide) (hnoRep rfl)

theorem agrees_decodePlain (hp : p.Matches longMode h) (hop : op < 256)
    (hosize : h.osize = true → op ∉ osizeRows)
    (hor : (h.osize || h.repe) = true → op ∉ [0x6F, 0x7E, 0x7F])
    (hrep : (h.repne || h.repe) = true → op ∉ repRows)
    (hnoRep : (h.repne || h.repe) = false → op ∉ noRepRows) :
    SecondaryAgrees longMode p h op bs (decodePlain longMode p op) := by
  have hs : (opSizeDefault32 longMode p).isByte = false := opSizeDefault32_isByte
  unfold decodePlain
  refine Agrees.ite (fun hc => agrees_cmov _ hc) fun hcmov => ?_
  refine Agrees.ite (fun hc => agrees_secondaryJcc hp _ hc) fun hjcc => ?_
  refine Agrees.ite (fun hc => agrees_decodeSet _ hc) fun hset => ?_
  refine Agrees.ite (fun hc => agrees_bswap _ hc) fun hbswap => ?_
  have hrange : op < 0x40 ∨ (0x50 ≤ op ∧ op < 0x80) ∨ (0xA0 ≤ op ∧ op < 0xC8) ∨ 0xD0 ≤ op := by
    omega
  split
  · exact (row_make0 _).agrees_plain rfl rfl rfl rfl rfl
  · exact (row_make0 _).agrees_plain rfl rfl rfl rfl rfl
  · exact (row_make0 _).agrees_plain rfl rfl rfl rfl rfl
  · exact row_decodeNopRm.agrees_modrm (k := 0) rfl rfl rfl rfl rfl
  · exact (row_rmReg _ _ hs).agrees_modrm (k := 0) rfl rfl rfl rfl rfl
  · exact (row_regRm _ _ _ hs hs).agrees_modrm (k := 0) rfl rfl rfl rfl rfl
  · exact (row_rmReg _ _ rfl).agrees_modrm (k := 0) rfl rfl rfl rfl rfl
  · exact (row_rmReg _ _ hs).agrees_modrm (k := 0) rfl rfl rfl rfl rfl
  · exact (row_regRm _ _ _ hs rfl).agrees_modrm (k := 0) rfl rfl rfl rfl rfl
  · exact (row_regRm _ _ _ hs rfl).agrees_modrm (k := 0) rfl rfl rfl rfl rfl
  · exact agrees_decodeGroup8
  · exact (row_regRm _ _ _ hs hs).agrees_modrm (k := 0) rfl rfl rfl rfl rfl
  · exact (row_regRm _ _ _ hs hs).agrees_modrm (k := 0) rfl rfl rfl rfl rfl
  · exact (row_regRm _ _ _ hs rfl).agrees_modrm (k := 0) rfl rfl rfl rfl rfl
  · exact (row_regRm _ _ _ hs rfl).agrees_modrm (k := 0) rfl rfl rfl rfl rfl
  · exact (row_rmReg _ _ rfl).agrees_modrm (k := 0) rfl rfl rfl rfl rfl
  · exact (row_rmReg _ _ hs).agrees_modrm (k := 0) rfl rfl rfl rfl rfl
  · refine agrees_unhandledForm (rest_secondary hop hosize hor hrep hnoRep hrange ?_)
    simp only [plainRows, List.mem_cons, List.not_mem_nil, or_false, not_or]
    and_intros <;> assumption

theorem decodeOsizeOrRepe_ne_none (hop : op ∈ [0x6F, 0x7E, 0x7F]) (h7E : op = 0x7E → p.osize = false) :
    decodeOsizeOrRepe longMode p op ≠ none := by
  simp only [List.mem_cons, List.not_mem_nil, or_false] at hop
  rcases hop with rfl | rfl | rfl
  · exact Option.some_ne_none _
  · unfold decodeOsizeOrRepe
    rw [h7E rfl]
    exact Option.some_ne_none _
  · exact Option.some_ne_none _

/-- Every `0F` opcode. -/
theorem secondary_agrees (hp : p.Matches longMode h) (hop : op < 256) :
    SecondaryAgrees longMode p h op bs (secondaryRow longMode p op) := by
  unfold secondaryRow
  split
  · rename_i m hm
    obtain ⟨⟨sel, row⟩, hrow, hsome⟩ := List.exists_of_findSome?_eq_some hm
    dsimp only at hsome
    split_ifs at hsome with hsel
    subst hsome
    simp only [secondaryRows, List.mem_cons, List.not_mem_nil, or_false, Prod.mk.injEq] at hrow
    obtain ⟨rfl, hm⟩ | ⟨rfl, hm⟩ | ⟨rfl, hm⟩ | ⟨rfl, hm⟩ := hrow
    · exact agrees_decodeOsize (hp.osize.symm.trans hsel) hm.symm
    · rw [hp.osize, hp.repe] at hsel
      exact agrees_decodeOsizeOrRepe hp hsel hm.symm
    · rw [hp.repne, hp.repe] at hsel
      exact agrees_decodeRep hsel hm.symm
    · rw [hp.repne, hp.repe, ← Bool.not_or, Bool.not_eq_true'] at hsel
      exact agrees_decodeNoRep hsel hm.symm
  · rename_i hnone
    have hunsel : ∀ sel row, (sel, row) ∈ secondaryRows longMode p op → sel = true → row = none := by
      intro sel row hmem hsel
      have hrow := List.findSome?_eq_none_iff.mp hnone (sel, row) hmem
      dsimp only at hrow
      rwa [if_pos hsel] at hrow
    have hosize : h.osize = true → op ∉ osizeRows := by
      intro hsel hmem
      refine decodeOsize_ne_none hmem (hunsel _ _ (.head _) ?_)
      exact hp.osize.trans hsel
    refine agrees_decodePlain hp hop hosize (fun hsel hmem => ?_) (fun hsel hmem => ?_)
      fun hsel hmem => ?_
    · refine decodeOsizeOrRepe_ne_none hmem (fun h7E => ?_) (hunsel _ _ (.tail _ (.head _)) ?_)
      · rw [hp.osize, Bool.eq_false_iff]
        intro hc
        subst h7E
        exact hosize hc (by decide)
      · rw [hp.osize, hp.repe, hsel]
    · refine decodeRep_ne_none hmem (hunsel _ _ (.tail _ (.tail _ (.head _))) ?_)
      rw [hp.repne, hp.repe, hsel]
    · refine decodeNoRep_ne_none hmem (hunsel _ _ (.tail _ (.tail _ (.tail _ (.head _)))) ?_)
      rw [hp.repne, hp.repe, ← Bool.not_or, hsel]
      rfl

end Agrees

end Quantum.Jit
