import Quantum.Jit.Equiv.DecodeLength

/-!
# Register and segment names

When the operands of a handled instruction are the registers and carry the segment that the encoding names
(`decodeNext_names_iff`).
-/

namespace Quantum.Jit

open DecodeM X86

/-! ### What an operand names -/

/-- The register that an operand stands for: the low part of a general register, one of AH, CH, DH and BH, or
an XMM register. -/
inductive RegName where
  | low (n : Nat)
  | high (n : Nat)
  | xmm (n : Nat)
  deriving Repr, DecidableEq

def Operand.regName : Operand → Option RegName
  | .reg r _ => some (.low r.index)
  | .xmmReg n _ => some (.xmm n.toNat)
  | _ => none

/-- The segment that a memory operand carries. -/
def Operand.segment : Operand → Option (Option Segment)
  | .mem m => some (m.seg.map Seg.segment)
  | .ripRel _ _ => some none
  | _ => none

def Inst.named (i : Inst) : List Operand :=
  ([i.operand0, i.operand1, i.operand2].filterMap id).filter fun op => !op.isImm

/-- The encoding of a byte register above BL, without REX, is that of AH, CH, DH and BH. -/
def isHigh (h : Header) (byte : Bool) (field : Nat) : Bool :=
  byte && h.rex.isNone && decide (4 ≤ field)

/-- A register field with its extension bit. -/
def extended (ext : Bool) (field : Nat) : Nat :=
  field + if ext then 8 else 0

/-- The general register of a field. -/
def gpName (h : Header) (byte ext : Bool) (field : Nat) : RegName :=
  if isHigh h byte field then .high (field - 4) else .low (extended ext field)

/-- The operand is the one that the encoding names. -/
def Names (h : Header) (modrm : Byte) (low3 : Nat) : Arg → Operand → Prop
  | .e byte, op =>
    if modField modrm = 3 then op.regName = some (gpName h byte (h.rexBit 0) (rmField modrm))
    else op.segment = some h.seg
  | .g byte, op => op.regName = some (gpName h byte (h.rexBit 2) (regField modrm))
  | .z byte, op => op.regName = some (gpName h byte (h.rexBit 0) low3)
  | .acc _, op => op.regName = some (.low 0)
  | .cl, op => op.regName = some (.low 1)
  | .v, op => op.regName = some (.xmm (extended (h.rexBit 2) (regField modrm)))
  | .w, op =>
    if modField modrm = 3 then op.regName = some (.xmm (extended (h.rexBit 0) (rmField modrm)))
    else op.segment = some h.seg
  | _, _ => False

/-- The low three bits of the opcode. -/
def opcodeLow : List Byte → Nat
  | [] => 0
  | b :: bs => if b = 0x0F then (bs.headD 0).toNat % 8 else b.toNat % 8

/-- The instruction names the operands of the encoding, in their order. -/
def NamesOperands (longMode : Bool) (bs : List Byte) (inst : Inst) : Prop :=
  ∃ h code n args tail, scanPrefixes longMode .empty bs = some (h, code) ∧
    scanOpcode longMode h code = some (n, args, tail) ∧
    List.Forall₂ (Names h (tail.headD 0) (opcodeLow code)) (args.filter Arg.isNamed) inst.named

/-! ### When it does -/

/-- An FS or GS prefix. -/
def isFsGs (b : Byte) : Bool :=
  b.toNat == 0x64 || b.toNat == 0x65

/-- A memory operand carries the segment in force: an address relative to RIP carries none, and a flat
segment does not replace FS or GS. -/
def memoryNamed (longMode : Bool) (h : Header) (pre : List Byte) (modrm : Byte) : Bool :=
  if longMode = true ∧ modField modrm = 0 ∧ rmField modrm = 5 then h.seg.isNone
  else h.seg.isSome || !pre.any isFsGs

/-- An operand that is named as the encoding says; `raw` rows leave out REX.R. -/
def argNamed (longMode : Bool) (h : Header) (pre : List Byte) (modrm : Byte) (low3 : Nat) (raw : Bool) :
    Arg → Bool
  | .e byte =>
    if modField modrm = 3 then !isHigh h byte (rmField modrm) else memoryNamed longMode h pre modrm
  | .g byte => !isHigh h byte (regField modrm)
  | .z byte => !isHigh h byte low3
  | .v => !(raw && h.rexBit 2)
  | .w => decide (modField modrm = 3) || memoryNamed longMode h pre modrm
  | _ => true

variable {longMode : Bool} {p : Prefixes} {h : Header} {pre : List Byte} {modrm : Byte} {low3 : Nat}
  {raw : Bool}

theorem fromIndex_eq_some {n : Nat} {r : GpReg} (hr : GpReg.fromIndex n = some r) : r.index = n := by
  unfold GpReg.fromIndex at hr
  split at hr
  all_goals first
    | (obtain rfl := Option.some.inj hr; rfl)
    | cases hr

theorem regIndex_eq_extended {ext : Bool} {field : Nat} (hf : field < 8) :
    regIndex ext field = extended ext field := by
  unfold regIndex extended
  interval_cases field <;> cases ext <;> rfl

/-- A general register is named unless it is a high byte. -/
theorem gpName_iff {byte ext : Bool} {field : Nat} {r : GpReg} {size : OpSize} (hf : field < 8)
    (hr : GpReg.fromIndex (regIndex ext field) = some r) :
    (Operand.reg r size).regName = some (gpName h byte ext field) ↔ (!isHigh h byte field) = true := by
  change some (RegName.low r.index) = _ ↔ _
  unfold gpName
  rw [fromIndex_eq_some hr, regIndex_eq_extended hf]
  cases isHigh h byte field with
  | true => exact ⟨nofun, nofun⟩
  | false => exact ⟨fun _ => rfl, fun _ => rfl⟩

/-- The decoder has seen FS or GS exactly if it has a segment. -/
structure SegmentScanned (p : Prefixes) (h : Header) (pre : List Byte) : Prop where
  read : SegmentRead p h
  isSome : p.seg.isSome = pre.any isFsGs

theorem memory_iff (hseg : SegmentScanned p h pre) {size : OpSize} {op : Operand}
    (hop : IsRmMemory longMode p modrm size op) :
    op.segment = some h.seg ↔ memoryNamed longMode h pre modrm = true := by
  unfold IsRmMemory at hop
  unfold memoryNamed
  split_ifs at hop ⊢
  · obtain ⟨disp, rfl⟩ := hop
    change some none = some h.seg ↔ _
    cases h.seg with
    | none => exact ⟨fun _ => rfl, fun _ => rfl⟩
    | some s => exact ⟨nofun, nofun⟩
  · obtain ⟨m, rfl, hm, -⟩ := hop
    change some (m.seg.map Seg.segment) = some h.seg ↔ _
    rw [hm, ← hseg.isSome]
    obtain heq | ⟨hnone, hsome⟩ := hseg.read
    · rw [← heq]
      cases p.seg <;> exact ⟨fun _ => rfl, fun _ => rfl⟩
    · rw [hnone, hsome]
      obtain ⟨s, hs⟩ := Option.isSome_iff_exists.mp hsome
      rw [hs]
      exact ⟨nofun, nofun⟩

theorem xmmOperand_regName (ext : Bool) {field : Nat} (size : OpSize) (hf : field < 8) :
    (xmmOperand (regIndex ext field) size).regName = some (.xmm (regIndex ext field)) := by
  change some (RegName.xmm (BitVec.ofNat 8 (regIndex ext field)).toNat) = _
  rw [BitVec.toNat_ofNat, regIndex_eq_extended hf, Nat.mod_eq_of_lt]
  unfold extended
  split_ifs <;> omega

/-- The XMM register of the reg field is named unless REX.R is left out. -/
theorem xmmName_iff (hp : p.Matches longMode h) {size : OpSize} (hf : regField modrm < 8) :
    (xmmOperand (if raw then regField modrm else regIndex p.rex.r (regField modrm)) size).regName =
        some (.xmm (extended (h.rexBit 2) (regField modrm))) ↔
      (!(raw && h.rexBit 2)) = true := by
  rw [hp.rexR]
  cases raw with
  | true =>
    have hname : (xmmOperand (regField modrm) size).regName = some (.xmm (regField modrm)) := by
      have hfalse := xmmOperand_regName false size hf
      rwa [regIndex_eq_extended hf] at hfalse
    rw [if_pos rfl, hname, Bool.true_and]
    cases h.rexBit 2 with
    | true =>
      refine ⟨fun hc => ?_, nofun⟩
      have hxmm := RegName.xmm.inj (Option.some.inj hc)
      unfold extended at hxmm
      rw [if_pos rfl] at hxmm
      omega
    | false => exact ⟨fun _ => rfl, fun _ => rfl⟩
  | false =>
    rw [if_neg Bool.false_ne_true, xmmOperand_regName _ _ hf, regIndex_eq_extended hf]
    exact ⟨fun _ => rfl, fun _ => rfl⟩

/-- What the decoder makes of an operand names it exactly under the condition. -/
theorem names_iff (hp : p.Matches longMode h) (hseg : SegmentScanned p h pre) (hlow : low3 < 8)
    {arg : Arg} {op : Operand} (hmade : Made longMode p modrm low3 raw arg op) :
    Names h modrm low3 arg op ↔ argNamed longMode h pre modrm low3 raw arg = true := by
  have hrm : rmField modrm < 8 := (modrm.extractLsb' 0 3).isLt
  have hreg : regField modrm < 8 := (modrm.extractLsb' 3 3).isLt
  cases arg with
  | e byte =>
    obtain ⟨size, -, hop⟩ := hmade
    unfold IsRm at hop
    unfold Names argNamed
    dsimp only
    split_ifs at hop ⊢ with hmod
    · obtain ⟨r, hr, rfl⟩ := hop
      rw [hp.rexB] at hr
      exact gpName_iff hrm hr
    · exact memory_iff hseg hop
  | g byte =>
    obtain ⟨r, size, -, hr, rfl⟩ := hmade
    rw [hp.rexR] at hr
    exact gpName_iff hreg hr
  | z byte =>
    obtain ⟨r, size, -, hr, rfl⟩ := hmade
    rw [hp.rexB] at hr
    exact gpName_iff hlow hr
  | acc byte =>
    obtain ⟨size, -, rfl⟩ := hmade
    exact ⟨fun _ => rfl, fun _ => rfl⟩
  | cl =>
    obtain rfl := hmade
    exact ⟨fun _ => rfl, fun _ => rfl⟩
  | v =>
    obtain ⟨size, rfl⟩ := hmade
    exact xmmName_iff hp hreg
  | w =>
    obtain ⟨size, hop⟩ := hmade
    unfold IsXmmRm at hop
    unfold Names argNamed
    dsimp only
    split_ifs at hop ⊢ with hmod
    · rw [hop, hp.rexB, decide_eq_true hmod, Bool.true_or]
      refine ⟨fun _ => rfl, fun _ => ?_⟩
      rw [xmmOperand_regName _ _ hrm, regIndex_eq_extended hrm]
    · rw [decide_eq_false hmod, Bool.false_or]
      exact memory_iff hseg hop
  | one | other | ctrl | ib | iw | iz | iv | jb | jz | moffs | far => exact hmade.elim

/-! ### The prefixes and the opcode -/

variable {p' : Prefixes} {bs code : List Byte}

/-- The segment after the prefixes. -/
theorem readPrefixes_segment (hread : readPrefixes longMode p bs = .ok (p', code)) :
    ∃ pre, bs = pre ++ code ∧ p'.seg.isSome = (p.seg.isSome || pre.any isFsGs) := by
  induction bs generalizing p with
  | nil => cases hread
  | cons b bs ih =>
    -- A prefix other than FS and GS keeps the segment.
    have hkeep : ∀ q : Prefixes, readPrefixes longMode q bs = .ok (p', code) → q.seg = p.seg →
        isFsGs b = false →
        ∃ pre, b :: bs = pre ++ code ∧ p'.seg.isSome = (p.seg.isSome || pre.any isFsGs) := by
      intro q hrest hq hb
      obtain ⟨pre, rfl, hseg⟩ := ih hrest
      refine ⟨b :: pre, rfl, ?_⟩
      rw [hseg, hq, List.any_cons, hb, Bool.false_or]
    have hset : ∀ q : Prefixes, readPrefixes longMode q bs = .ok (p', code) →
        q.seg.isSome = true → isFsGs b = true →
        ∃ pre, b :: bs = pre ++ code ∧ p'.seg.isSome = (p.seg.isSome || pre.any isFsGs) := by
      intro q hrest hq hb
      obtain ⟨pre, rfl, hseg⟩ := ih hrest
      refine ⟨b :: pre, rfl, ?_⟩
      rw [hseg, hq, List.any_cons, hb, Bool.true_or, Bool.or_true]
    simp only [readPrefixes] at hread
    unfold isFsGs at hkeep hset
    generalize hn : b.toNat = n at hread hkeep hset
    split at hread
    all_goals try first
      | exact hkeep _ hread rfl rfl
      | exact hset _ hread rfl rfl
    split_ifs at hread
    · obtain ⟨rfl, rfl⟩ := Prod.mk.inj (Except.ok.inj hread)
      have hb : isFsGs b = false := by
        unfold isFsGs
        rw [hn]
        exact Bool.or_eq_false_iff.mpr ⟨beq_false_of_ne ‹_›, beq_false_of_ne ‹_›⟩
      refine ⟨[b], rfl, ?_⟩
      rw [List.any_cons, hb, List.any_nil, Bool.or_false, Bool.or_false]
    · obtain ⟨rfl, rfl⟩ := Prod.mk.inj (Except.ok.inj hread)
      exact ⟨[], rfl, (Bool.or_false _).symm⟩

/-- The opcodes that leave out REX.R. -/
def opcodeRaw (h : Header) : List Byte → Bool
  | [] => false
  | b :: bs => decide (b = 0x0F) && secondaryRaw h (bs.headD 0).toNat

/-- The operands are those of the encoding, in its order: ARPL is not taken for MOVSXD (unless its operands
are the same register), nor MOVQ for MOVD. -/
def sameOperands (longMode : Bool) (h : Header) : List Byte → Bool
  | [] => true
  | b :: bs =>
    if b = 0x0F then !((bs.headD 0).toNat == 0x7E && h.osize && h.repe)
    else longMode || b.toNat != 0x63 ||
      (modField (bs.headD 0) == 3 && regField (bs.headD 0) == rmField (bs.headD 0))

/-- The condition for the names. -/
def namesRead (longMode : Bool) (bs : List Byte) : Bool :=
  match scanPrefixes longMode .empty bs with
  | none => true
  | some (h, code) =>
    match scanOpcode longMode h code with
    | none => true
    | some (_, args, tail) =>
      sameOperands longMode h code &&
        args.all (argNamed longMode h (bs.take (bs.length - code.length)) (tail.headD 0)
          (opcodeLow code) (opcodeRaw h code))

theorem argNamed_of_not_named {arg : Arg} (harg : arg.isNamed = false) :
    argNamed longMode h pre modrm low3 raw arg = true := by
  cases arg with
  | e _ | g _ | z _ | acc _ | cl | v | w => cases harg
  | one | other | ctrl | ib | iw | iz | iv | jb | jz | moffs | far => rfl

/-- The operands together. -/
theorem names_all_iff (hp : p.Matches longMode h) (hseg : SegmentScanned p h pre) (hlow : low3 < 8)
    {args : List Arg} {ops : List Operand}
    (hmade : List.Forall₂ (Made longMode p modrm low3 raw) args ops) :
    List.Forall₂ (Names h modrm low3) args ops ↔
      args.all (argNamed longMode h pre modrm low3 raw) = true := by
  induction hmade with
  | nil => exact ⟨fun _ => rfl, fun _ => .nil⟩
  | cons harg _ ih => rw [List.forall₂_cons, List.all_cons, Bool.and_eq_true, ih, names_iff hp hseg hlow harg]

theorem all_named_filter (args : List Arg) :
    (args.filter Arg.isNamed).all (argNamed longMode h pre modrm low3 raw) =
      args.all (argNamed longMode h pre modrm low3 raw) := by
  induction args with
  | nil => rfl
  | cons a args ih =>
    cases ha : a.isNamed with
    | true => rw [List.filter_cons_of_pos ha, List.all_cons, List.all_cons, ih]
    | false =>
      rw [List.filter_cons_of_neg (Bool.eq_false_iff.mp ha), List.all_cons, argNamed_of_not_named ha, ih,
        Bool.true_and]

theorem gpName_word (ext : Bool) (field : Nat) : gpName h false ext field = .low (extended ext field) :=
  rfl

/-- ARPL has the operands of MOVSXD the other way round. -/
theorem names_arpl_iff (hp : p.Matches false h) {ops : List Operand}
    (hmade : List.Forall₂ (Made false p modrm low3 raw) [.g false, .e false] ops) :
    List.Forall₂ (Names h modrm low3) [.e false, .g false] ops ↔
      (modField modrm == 3 && regField modrm == rmField modrm) = true := by
  have hreg : regField modrm < 8 := (modrm.extractLsb' 3 3).isLt
  have hrm : rmField modrm < 8 := (modrm.extractLsb' 0 3).isLt
  obtain ⟨o₁, ops₁, ⟨r₁, size₁, -, hr₁, rfl⟩, hmade₁, rfl⟩ := List.forall₂_cons_left_iff.mp hmade
  obtain ⟨o₂, ops₂, ⟨size₂, -, hop₂⟩, hmade₂, rfl⟩ := List.forall₂_cons_left_iff.mp hmade₁
  obtain rfl := List.forall₂_nil_left_iff.mp hmade₂
  rw [hp.rexR, hp.rexBit_legacy rfl] at hr₁
  have hname₁ : (Operand.reg r₁ size₁).regName = some (.low (regField modrm)) := by
    change some (RegName.low r₁.index) = _
    rw [fromIndex_eq_some hr₁, regIndex_eq_extended hreg]
    rfl
  rw [List.forall₂_cons, List.forall₂_cons]
  by_cases hmod : modField modrm = 3
  · unfold IsRm at hop₂
    rw [if_pos hmod, hp.rexB, hp.rexBit_legacy rfl] at hop₂
    obtain ⟨r₂, hr₂, rfl⟩ := hop₂
    have hname₂ : (Operand.reg r₂ size₂).regName = some (.low (rmField modrm)) := by
      change some (RegName.low r₂.index) = _
      rw [fromIndex_eq_some hr₂, regIndex_eq_extended hrm]
      rfl
    unfold Names
    dsimp only
    rw [if_pos hmod, hname₁, hname₂, gpName_word, gpName_word, hp.rexBit_legacy rfl, hp.rexBit_legacy rfl,
      hmod, beq_self_eq_true, Bool.true_and, beq_iff_eq]
    refine ⟨fun hn => RegName.low.inj (Option.some.inj hn.1), fun heq => ?_⟩
    rw [heq]
    exact ⟨rfl, rfl, .nil⟩
  · rw [beq_false_of_ne hmod, Bool.false_and]
    refine ⟨fun hn => ?_, nofun⟩
    have hseg := hn.1
    unfold Names at hseg
    dsimp only at hseg
    rw [if_neg hmod] at hseg
    cases hseg

theorem IsRmMemory.regName {size : OpSize} {op : Operand} (hop : IsRmMemory longMode p modrm size op) :
    op.regName = none := by
  unfold IsRmMemory at hop
  split_ifs at hop
  · obtain ⟨disp, rfl⟩ := hop
    rfl
  · obtain ⟨m, rfl, -⟩ := hop
    rfl

/-- A general register or memory is not an XMM register. -/
theorem not_names_movq {ops : List Operand} {args : List Arg}
    (hmade : List.Forall₂ (Made longMode p modrm low3 raw) [.e false, .v] ops) :
    ¬ List.Forall₂ (Names h modrm low3) (.v :: args) ops := by
  intro hnames
  obtain ⟨o₁, ops₁, ⟨size, -, hop⟩, -, rfl⟩ := List.forall₂_cons_left_iff.mp hmade
  have hname := (List.forall₂_cons.mp hnames).1
  unfold Names at hname
  unfold IsRm at hop
  dsimp only at hname
  split_ifs at hop
  · obtain ⟨r, -, rfl⟩ := hop
    cases hname
  · rw [hop.regName] at hname
    cases hname

/-- A handled row: the encoding has an entry, and names its operands under the condition. -/
def NamedRow (longMode : Bool) (h : Header) (pre : List Byte) (modrm : Byte) (low3 : Nat) (raw same : Bool)
    (entry : Option (List Arg)) (ops : List Operand) : Prop :=
  ∃ args, entry = some args ∧
    (List.Forall₂ (Names h modrm low3) (args.filter Arg.isNamed) ops ↔
      (same && args.all (argNamed longMode h pre modrm low3 raw)) = true)

/-- The row names the operands of its entry. -/
theorem namedRow_of_entry (hp : p.Matches longMode h) (hseg : SegmentScanned p h pre) (hlow : low3 < 8)
    {entry : Option (List Arg)} {names : List Arg} {ops : List Operand} {same : Bool}
    (hsame : same = true) (hentry : entry.map (List.filter Arg.isNamed) = some names)
    (hmade : List.Forall₂ (Made longMode p modrm low3 raw) names ops) :
    NamedRow longMode h pre modrm low3 raw same entry ops := by
  obtain ⟨args, hargs, rfl⟩ := Option.map_eq_some_iff.mp hentry
  refine ⟨args, hargs, ?_⟩
  rw [names_all_iff hp hseg hlow hmade, all_named_filter, hsame, Bool.true_and]

theorem primary_names (hp : p.Matches longMode h) (hseg : SegmentScanned p h pre) {op : Nat}
    (hop : op < 256) {tail rest : List Byte} {f : Form}
    (hf : decodePrimary longMode p op tail = .ok (f, rest)) (hhandled : f.op ≠ .unhandled) :
    NamedRow longMode h pre (tail.headD 0) (op % 8) false
      (longMode || op != 0x63 ||
        (modField (tail.headD 0) == 3 && regField (tail.headD 0) == rmField (tail.headD 0)))
      (primaryMap longMode op (tail.headD 0)) f.named := by
  have hlow : op % 8 < 8 := Nat.mod_lt _ (by decide)
  obtain ⟨names, hnames, hmade⟩ := (primary_agrees false hp hop f rest hf).2 hhandled
  by_cases h63 : op = 0x63
  · subst h63
    obtain rfl := Option.some.inj hnames
    cases longMode with
    | true => exact namedRow_of_entry hp hseg hlow rfl rfl hmade
    | false =>
      refine ⟨[.e false, .g false], rfl, Iff.trans (names_arpl_iff hp hmade) ?_⟩
      change _ ↔ ((modField (tail.headD 0) == 3 && _) && _) = true
      rw [Bool.and_eq_true, Bool.and_eq_true, Bool.and_eq_true]
      refine ⟨fun hs => ⟨hs, ?_⟩, fun hs => hs.1⟩
      have hmod : modField (tail.headD 0) = 3 := beq_iff_eq.mp hs.1
      have he : argNamed false h pre (tail.headD 0) (0x63 % 8) false (.e false) = true := if_pos hmod
      rw [List.all_cons, he]
      rfl
  · rw [primaryNamed_eq h63] at hnames
    have hsame : (longMode || op != 0x63 || (modField (tail.headD 0) == 3 &&
        regField (tail.headD 0) == rmField (tail.headD 0))) = true := by
      rw [bne_iff_ne.mpr h63, Bool.or_true, Bool.true_or]
    exact namedRow_of_entry hp hseg hlow hsame hnames hmade

theorem secondary_names (hp : p.Matches longMode h) (hseg : SegmentScanned p h pre) {op : Nat}
    (hop : op < 256) {tail rest : List Byte} {f : Form}
    (hf : secondaryRow longMode p op tail = .ok (f, rest)) (hhandled : f.op ≠ .unhandled) :
    NamedRow longMode h pre (tail.headD 0) (op % 8) (secondaryRaw h op)
      (!(op == 0x7E && h.osize && h.repe)) (secondaryMap h op (tail.headD 0)) f.named := by
  have hlow : op % 8 < 8 := Nat.mod_lt _ (by decide)
  obtain ⟨names, hnames, hmade⟩ := (secondary_agrees hp hop f rest hf).2 hhandled
  by_cases h7E : op = 0x7E ∧ h.osize = true
  · obtain ⟨rfl, hosize⟩ := h7E
    rw [secondaryNamed, if_pos ⟨rfl, hosize⟩] at hnames
    obtain rfl := Option.some.inj hnames
    cases hrepe : h.repe with
    | true =>
      have hentry : secondaryMap h 0x7E (tail.headD 0) = some [.v, .w] := by
        change some (if h.repe = true then _ else _) = _
        rw [hrepe]
        rfl
      refine ⟨[.v, .w], hentry, fun hn => absurd hn (not_names_movq hmade), fun hc => ?_⟩
      rw [hosize] at hc
      cases hc
    | false =>
      have hentry : secondaryMap h 0x7E (tail.headD 0) = some [.e false, .v] := by
        change some (if h.repe = true then _ else if h.osize = true then _ else _) = _
        rw [hrepe, hosize]
        rfl
      refine namedRow_of_entry hp hseg hlow ?_ (congrArg (Option.map (List.filter Arg.isNamed)) hentry) hmade
      rw [Bool.and_false]
      rfl
  · rw [secondaryNamed, if_neg h7E] at hnames
    refine namedRow_of_entry hp hseg hlow ?_ hnames hmade
    cases hcond : (op == 0x7E && h.osize) with
    | true =>
      rw [Bool.and_eq_true, beq_iff_eq] at hcond
      exact absurd hcond h7E
    | false => rfl

/-- Without a header there is no opcode, or a prefix in its place. -/
theorem readPrefixes_noHeader (hs : BeforeRex p h) (hscan : scanPrefixes longMode h bs = none)
    (hread : readPrefixes longMode p bs = .ok (p', code)) :
    code = [] ∨ ∃ c rest, code = c :: rest ∧ PrefixByte longMode c := by
  induction bs generalizing p h with
  | nil => cases hread
  | cons b bs ih =>
    unfold scanPrefixes at hscan
    cases hb : h.legacy longMode b.toNat with
    | some h' =>
      rw [hb] at hscan
      obtain ⟨p'', heq, hs'⟩ := readPrefixes_legacy hs hb bs
      rw [heq] at hread
      exact ih hs' hscan hread
    | none =>
      rw [hb] at hscan
      rw [readPrefixes_other hb] at hread
      dsimp only at hscan
      split_ifs at hscan hread with hrex
      obtain ⟨rfl, rfl⟩ := Prod.mk.inj (Except.ok.inj hread)
      cases bs with
      | nil => exact .inl rfl
      | cons c rest =>
        refine .inr ⟨c, rest, rfl, ?_⟩
        unfold scanPrefixes at hscan
        split at hscan
        · rename_i h' hc
          exact .inl ⟨_, h', hc⟩
        · split_ifs at hscan with hc
          exact .inr hc

/-- An opcode that is handled is no prefix. -/
theorem opcodeForm_handled {c : Byte} {rest rest' : List Byte} {f : Form}
    (hf : opcodeForm longMode p (c :: rest) = .ok (f, rest')) (hhandled : f.op ≠ .unhandled) :
    ¬ PrefixByte longMode c := by
  intro hc
  rw [opcodeForm_prefixByte hc] at hf
  obtain ⟨rfl, -⟩ := pure_ok hf
  exact hhandled rfl

theorem opcodeForm_names (hp : p.Matches longMode h) (hseg : SegmentScanned p h pre) {rest : List Byte}
    {f : Form} (hf : opcodeForm longMode p code = .ok (f, rest)) (hhandled : f.op ≠ .unhandled) :
    ∃ n args tail, scanOpcode longMode h code = some (n, args, tail) ∧
      (List.Forall₂ (Names h (tail.headD 0) (opcodeLow code)) (args.filter Arg.isNamed) f.named ↔
        (sameOperands longMode h code &&
          args.all (argNamed longMode h pre (tail.headD 0) (opcodeLow code) (opcodeRaw h code))) = true) := by
  obtain ⟨b, rest₁, hb, hf₁⟩ := bind_ok hf
  obtain rfl := readU8_ok hb
  by_cases h0F : b = 0x0F
  · rw [if_pos h0F] at hf₁
    subst h0F
    cases rest₁ with
    | nil => cases hf₁
    | cons c tail =>
      rw [decodeSecondary_cons] at hf₁
      obtain ⟨args, hentry, hiff⟩ := secondary_names hp hseg c.isLt hf₁ hhandled
      exact ⟨2, args, tail, Option.map_eq_some_iff.mpr ⟨args, hentry, rfl⟩, hiff⟩
  · rw [if_neg h0F] at hf₁
    obtain ⟨args, hentry, hiff⟩ := primary_names hp hseg b.isLt hf₁ hhandled
    refine ⟨1, args, rest₁, ?_, ?_⟩
    · rw [scanOpcode_primary h0F, hentry]
      rfl
    · unfold sameOperands opcodeLow opcodeRaw
      dsimp only
      rw [if_neg h0F, if_neg h0F, decide_eq_false h0F]
      exact hiff

/-- The operands of a handled instruction are the ones that its encoding names if and only if the condition
holds. -/
theorem decodeNext_names_iff (longMode : Bool) (rip : BitVec 64) (bs : List Byte) (inst : Inst)
    (rest : List Byte) (hdec : decodeNext longMode rip bs = .ok (inst, rest))
    (hhandled : inst.op ≠ .unhandled) :
    NamesOperands longMode bs inst ↔ namesRead longMode bs = true := by
  obtain ⟨f, hf, rfl⟩ := decodeNext_ok hdec
  obtain ⟨p, code, hp, hform⟩ := bind_ok hf
  have hnoPrefix : ∀ c rest', code = c :: rest' → ¬ PrefixByte longMode c := by
    rintro c rest' rfl
    exact opcodeForm_handled hform hhandled
  obtain ⟨pre, hpre, hsome⟩ := readPrefixes_segment hp
  cases hscan : scanPrefixes longMode .empty bs with
  | none =>
    obtain rfl | ⟨c, rest', hc, hprefix⟩ := readPrefixes_noHeader .initial hscan hp
    · cases hform
    · exact absurd hprefix (hnoPrefix c rest' hc)
  | some r =>
    obtain ⟨h, code'⟩ := r
    obtain ⟨-, p', hread, hmatch, hseg⟩ | ⟨-, p', c, rest', hread, hc, -⟩ :=
      readPrefixes_scan .initial hscan
    · rw [hread] at hp
      obtain ⟨rfl, rfl⟩ := Prod.mk.inj (Except.ok.inj hp)
      obtain ⟨n, args, tail, hcode, hiff⟩ := opcodeForm_names hmatch ⟨hseg, hsome⟩ hform hhandled
      have htake : bs.take (bs.length - code'.length) = pre := by
        rw [hpre, List.length_append, Nat.add_sub_cancel, List.take_left]
      unfold namesRead
      rw [hscan]
      dsimp only
      rw [hcode, htake]
      refine ⟨?_, fun hc => ⟨h, code', n, args, tail, hscan, hcode, hiff.mpr hc⟩⟩
      rintro ⟨h₂, code₂, n₂, args₂, tail₂, hscan₂, hcode₂, hnames⟩
      obtain ⟨rfl, rfl⟩ := Prod.mk.inj (Option.some.inj (hscan.symm.trans hscan₂))
      obtain ⟨rfl, heq⟩ := Prod.mk.inj (Option.some.inj (hcode.symm.trans hcode₂))
      obtain ⟨rfl, rfl⟩ := Prod.mk.inj heq
      exact hiff.mp hnames
    · rw [hread] at hp
      obtain ⟨rfl, rfl⟩ := Prod.mk.inj (Except.ok.inj hp)
      exact absurd hc (hnoPrefix c rest' rfl)

/-- `MOV R8, [RBX + 8]`. -/
theorem decodeNext_names_iff_mov :
    ∃ inst, decodeNext true 0 [0x4C, 0x8B, 0x43, 0x08] = .ok (inst, []) ∧ inst.op ≠ .unhandled ∧
      (NamesOperands true [0x4C, 0x8B, 0x43, 0x08] inst ↔ namesRead true [0x4C, 0x8B, 0x43, 0x08] = true) :=
  ⟨_, rfl, by decide, decodeNext_names_iff true 0 [0x4C, 0x8B, 0x43, 0x08] _ [] rfl (by decide)⟩

/-- `MOVQ XMM8, RAX` is decoded with XMM0. -/
theorem movq_xmm8_misnamed :
    ∃ inst, decodeNext true 0 [0x66, 0x4C, 0x0F, 0x6E, 0xC0] = .ok (inst, []) ∧ inst.op ≠ .unhandled ∧
      ¬ NamesOperands true [0x66, 0x4C, 0x0F, 0x6E, 0xC0] inst := by
  refine ⟨_, rfl, by decide, ?_⟩
  rintro ⟨h, code, n, args, tail, hscan, hcode, hnames⟩
  have hheader : scanPrefixes true .empty [0x66, 0x4C, 0x0F, 0x6E, 0xC0] =
      some (⟨true, false, false, false, none, some 0x4C, false⟩, [0x0F, 0x6E, 0xC0]) := by decide
  obtain ⟨rfl, rfl⟩ := Prod.mk.inj (Option.some.inj (hheader.symm.trans hscan))
  obtain ⟨rfl, heq⟩ := Prod.mk.inj (Option.some.inj hcode)
  obtain ⟨rfl, rfl⟩ := Prod.mk.inj heq
  have hxmm := (List.forall₂_cons.mp hnames).1
  exact absurd hxmm (by decide : ¬ (some (RegName.xmm 0) = some (RegName.xmm 8)))

end Quantum.Jit
