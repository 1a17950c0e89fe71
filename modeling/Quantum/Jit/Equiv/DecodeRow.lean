import Quantum.Jit.Decoder
import Quantum.X86.OpcodeMap

/-!
# Rows of the decoder's tables

What each row of the opcode tables consumes and which operands it makes (`Row`), in the terms of the
architecture's opcode maps.  The comparison with the maps themselves is in `DecodeLength` and `DecodeNames`.
-/

namespace Quantum.Jit

open DecodeM X86

variable {α β : Type} {w : Nat}

/-! ### What the computations consume -/

/-- Whenever the computation succeeds it has consumed `len bs` bytes. -/
def DecodeM.Takes (m : DecodeM α) (len : List Byte → Nat) : Prop :=
  ∀ bs a rest, m bs = .ok (a, rest) → bs.length = rest.length + len bs

theorem DecodeM.bind_ok {m : DecodeM α} {f : α → DecodeM β} {bs rest : List Byte} {b : β}
    (h : (m >>= f) bs = .ok (b, rest)) :
    ∃ a rest', m bs = .ok (a, rest') ∧ f a rest' = .ok (b, rest) := by
  cases hm : m bs with
  | error x =>
    have hbind : (m >>= f) bs = .error x := by
      simp only [bind, hm]
    rw [hbind] at h
    cases h
  | ok r =>
    have hbind : (m >>= f) bs = f r.1 r.2 := by
      simp only [bind, hm]
    rw [hbind] at h
    exact ⟨r.1, r.2, rfl, h⟩

theorem DecodeM.pure_ok {a b : α} {bs rest : List Byte} (h : (pure a : DecodeM α) bs = .ok (b, rest)) :
    b = a ∧ rest = bs := by
  obtain ⟨rfl, rfl⟩ := Prod.mk.inj (Except.ok.inj h)
  exact ⟨rfl, rfl⟩

namespace DecodeM

theorem Takes.pure (a : α) : Takes (Pure.pure a : DecodeM α) fun _ => 0 := by
  intro bs b rest h
  obtain ⟨-, rfl⟩ := pure_ok h
  rfl

/-- The bytes of a computation that is followed by one of fixed length. -/
theorem Takes.bind {m : DecodeM α} {f : α → DecodeM β} {len : List Byte → Nat} {k : Nat}
    (hm : m.Takes len) (hf : ∀ a, (f a).Takes fun _ => k) : (m >>= f).Takes fun bs => len bs + k := by
  intro bs b rest h
  obtain ⟨a, rest', h₁, h₂⟩ := bind_ok h
  have hlen₁ := hm bs a rest' h₁
  have hlen₂ := hf a rest' b rest h₂
  dsimp only at hlen₂ ⊢
  omega

end DecodeM

theorem takes_readU8 : readU8.Takes fun _ => 1 := by
  intro bs b rest h
  cases bs with
  | nil => cases h
  | cons b' bs =>
    obtain ⟨-, rfl⟩ := Prod.mk.inj (Except.ok.inj h)
    rfl

theorem takes_readLe (w n : Nat) : (readLe w n).Takes fun _ => n := by
  induction n with
  | zero => exact .pure _
  | succ n ih =>
    intro bs b rest h
    have hlen := takes_readU8.bind (fun _ => ih.bind fun _ => Takes.pure _) bs b rest h
    dsimp only at hlen ⊢
    omega

theorem takes_readImm (size : OpSize) : (readImm size).Takes fun _ => size.bytes := by
  cases size with
  | b1 => exact takes_readU8.bind fun _ => .pure _
  | b2 => exact (takes_readLe 16 2).bind fun _ => .pure _
  | b4 => exact (takes_readLe 32 4).bind fun _ => .pure _
  | b8 => exact takes_readLe 64 8

/-! ### ModRM forms -/

/-- The ModRM byte at the front, and what follows it. -/
def modrmLength (bs : List Byte) : Nat :=
  modrmBytes32 (bs.headD 0) ((bs.drop 1).headD 0)

theorem gpReg_ok {ext : Bool} {field : Nat} {bs rest : List Byte} {r : GpReg}
    (h : gpReg ext field bs = .ok (r, rest)) :
    GpReg.fromIndex (regIndex ext field) = some r ∧ rest = bs := by
  unfold gpReg at h
  cases hr : GpReg.fromIndex (regIndex ext field) with
  | none =>
    rw [hr] at h
    cases h
  | some r' =>
    rw [hr] at h
    obtain ⟨rfl, rfl⟩ := pure_ok h
    exact ⟨rfl, rfl⟩

theorem readU8_ok {bs rest : List Byte} {b : Byte} (h : readU8 bs = .ok (b, rest)) : bs = b :: rest := by
  cases bs with
  | nil => cases h
  | cons b' bs =>
    obtain ⟨rfl, rfl⟩ := Prod.mk.inj (Except.ok.inj h)
    rfl

theorem readModRm_ok {bs rest : List Byte} {f : Nat × Nat × Nat} (h : readModRm bs = .ok (f, rest)) :
    ∃ b, bs = b :: rest ∧ f = (modField b, regField b, rmField b) := by
  obtain ⟨b, rest', hb, hf⟩ := bind_ok h
  obtain ⟨rfl, rfl⟩ := pure_ok hf
  exact ⟨b, readU8_ok hb, rfl⟩

/-- A register that may be missing. -/
theorem optionalReg_ok {c : Prop} [Decidable c] {ext : Bool} {field : Nat} {bs rest : List Byte}
    {f : Option GpReg → DecodeM β} {b : β}
    (h : (if c then pure none >>= f else gpReg ext field >>= fun r => pure (some r) >>= f) bs
      = .ok (b, rest)) :
    ∃ o, f o bs = .ok (b, rest) ∧ o.isNone = decide c := by
  split_ifs at h with hc
  · exact ⟨none, h, (decide_eq_true hc).symm⟩
  · obtain ⟨r, rest₁, hr, hrest⟩ := bind_ok h
    obtain ⟨-, rfl⟩ := gpReg_ok hr
    exact ⟨some r, hrest, (decide_eq_false hc).symm⟩

/-- The SIB byte is read exactly for rm 4; the base is missing only there. -/
theorem decodeSib_ok {p : Prefixes} {mod rm : Nat} {bs rest : List Byte} {sib : Sib}
    (h : decodeSib p mod rm bs = .ok (sib, rest)) :
    (rm ≠ 4 ∧ rest = bs) ∨
      (rm = 4 ∧ ∃ b, bs = b :: rest ∧
        sib.base.isNone = decide (mod = 0 ∧ (b.extractLsb' 0 3).toNat = 5)) := by
  unfold decodeSib at h
  split_ifs at h with hrm
  · refine .inr ⟨hrm, ?_⟩
    obtain ⟨b, rest₁, hb, h₁⟩ := bind_ok h
    obtain ⟨index, h₂, -⟩ := optionalReg_ok h₁
    obtain ⟨base, h₃, hbase⟩ := optionalReg_ok h₂
    obtain ⟨rfl, rfl⟩ := pure_ok h₃
    refine ⟨b, readU8_ok hb, ?_⟩
    rw [hbase]
    simp
  · refine .inl ⟨hrm, ?_⟩
    obtain ⟨r, rest₁, hr, hrest⟩ := bind_ok h
    obtain ⟨-, rfl⟩ := gpReg_ok hr
    exact (pure_ok hrest).2

/-- A memory operand of the r/m field: an address with the override of the prefixes, or one relative to
the next instruction. -/
def IsRmMemory (longMode : Bool) (p : Prefixes) (modrm : Byte) (size : OpSize) (op : Operand) : Prop :=
  if longMode = true ∧ modField modrm = 0 ∧ rmField modrm = 5 then ∃ disp, op = .ripRel disp size
  else ∃ m : Mem, op = .mem m ∧ m.seg = p.seg ∧ m.size = size

/-- The displacement after the SIB byte. -/
def dispLength (modrm : Byte) (noBase : Bool) : Nat :=
  match modField modrm with
  | 0 => if rmField modrm = 4 ∧ noBase = true then 4 else 0
  | 1 => 1
  | 2 => 4
  | _ => 0

theorem decodeDisp_ok {modrm : Byte} {sib : Sib} {bs rest : List Byte} {g : BitVec 32 → Operand}
    {op : Operand}
    (h : (match modField modrm with
      | 0 => if rmField modrm = 4 && sib.base.isNone then readI32 >>= fun d => pure (g d)
        else pure 0 >>= fun d => pure (g d)
      | 1 => readU8 >>= fun b => pure (b.signExtend 32) >>= fun d => pure (g d)
      | 2 => readI32 >>= fun d => pure (g d)
      | _ => pure 0 >>= fun d => pure (g d) : DecodeM Operand) bs = .ok (op, rest)) :
    (∃ d, op = g d) ∧ bs.length = rest.length + dispLength modrm sib.base.isNone := by
  -- Every form reads a displacement of some length and wraps it.
  have hread : ∀ {m : DecodeM (BitVec 32)} {k : Nat}, m.Takes (fun _ => k) →
      (m >>= fun d => pure (g d)) bs = .ok (op, rest) →
      (∃ d, op = g d) ∧ bs.length = rest.length + k := by
    intro m k hm h
    obtain ⟨d, rest₁, hd, h⟩ := bind_ok h
    obtain ⟨rfl, rfl⟩ := pure_ok h
    exact ⟨⟨d, rfl⟩, hm _ _ _ hd⟩
  unfold dispLength
  generalize modField modrm = mod at h ⊢
  rcases mod with _ | _ | _ | mod
  · by_cases hnone : (rmField modrm = 4 && sib.base.isNone) = true
    · have hnone' := hnone
      rw [Bool.and_eq_true, decide_eq_true_eq] at hnone'
      rw [if_pos hnone] at h
      rw [if_pos hnone']
      exact hread (takes_readLe 32 4) h
    · have hnone' := hnone
      rw [Bool.and_eq_true, decide_eq_true_eq] at hnone'
      rw [if_neg hnone] at h
      rw [if_neg hnone']
      exact hread (.pure 0) h
  · obtain ⟨b, rest₁, hb, h₁⟩ := bind_ok h
    obtain ⟨rfl, rfl⟩ := pure_ok h₁
    exact ⟨⟨_, rfl⟩, takes_readU8 _ _ _ hb⟩
  · exact hread (takes_readLe 32 4) h
  · exact hread (.pure 0) h

/-- The SIB byte and the displacement make up the form. -/
theorem modrmBytes32_eq {modrm sib : Byte} (hmod : modField modrm ≠ 3)
    (hrip : ¬ (modField modrm = 0 ∧ rmField modrm = 5)) :
    modrmBytes32 modrm sib = 1 + (if rmField modrm = 4 then 1 else 0) +
      dispLength modrm (decide (modField modrm = 0 ∧ (sib.extractLsb' 0 3).toNat = 5)) := by
  have hlt : modField modrm < 4 := (modrm.extractLsb' 6 2).isLt
  unfold modrmBytes32 dispLength
  generalize modField modrm = mod at hmod hrip hlt ⊢
  rcases mod with _ | _ | _ | mod
  · have hrm : rmField modrm ≠ 5 := fun h => hrip ⟨rfl, h⟩
    simp only [if_neg hrm, true_and, decide_eq_true_eq]
    split_ifs <;> first | rfl | omega
  · simp only [Nat.zero_add]
    split_ifs <;> rfl
  · simp only [Nat.zero_add, Nat.reduceAdd]
    split_ifs <;> rfl
  · omega

/-- What a memory form consumes, together with its ModRM byte. -/
theorem decodeRmMemory_ok {longMode : Bool} {p : Prefixes} {modrm : Byte} {size : OpSize}
    {bs rest : List Byte} {op : Operand} (hmod : modField modrm ≠ 3)
    (h : decodeRmMemory longMode p (modField modrm) (rmField modrm) size bs = .ok (op, rest)) :
    IsRmMemory longMode p modrm size op ∧
      bs.length + 1 = rest.length + modrmBytes32 modrm (bs.headD 0) := by
  unfold decodeRmMemory at h
  unfold IsRmMemory
  by_cases hrip : modField modrm = 0 ∧ rmField modrm = 5
  · rw [if_pos hrip] at h
    obtain ⟨disp, rest₁, hdisp, h⟩ := bind_ok h
    have hlen := takes_readLe 32 4 bs disp rest₁ hdisp
    have hbytes : modrmBytes32 modrm (bs.headD 0) = 5 := by
      unfold modrmBytes32
      simp only [hrip, if_true]
    rw [hbytes]
    dsimp only at hlen
    split_ifs at h with hlong
    · obtain ⟨rfl, rfl⟩ := pure_ok h
      rw [if_pos ⟨hlong, hrip⟩]
      exact ⟨⟨disp, rfl⟩, by omega⟩
    · obtain ⟨rfl, rfl⟩ := pure_ok h
      rw [if_neg fun hc => hlong hc.1]
      exact ⟨⟨_, rfl, rfl, rfl⟩, by omega⟩
  · rw [if_neg hrip] at h
    obtain ⟨sib, rest₁, hsib, h⟩ := bind_ok h
    obtain ⟨⟨disp, rfl⟩, hlen⟩ := decodeDisp_ok h
    rw [if_neg fun hc => hrip hc.2]
    refine ⟨⟨_, rfl, rfl, rfl⟩, ?_⟩
    rw [modrmBytes32_eq hmod hrip]
    obtain ⟨hrm, rfl⟩ | ⟨hrm, b, rfl, hbase⟩ := decodeSib_ok hsib
    · have hdl : ∀ c₁ c₂, dispLength modrm c₁ = dispLength modrm c₂ := by
        intro c₁ c₂
        unfold dispLength
        simp only [hrm, false_and, if_false]
      rw [if_neg hrm, hdl _ sib.base.isNone]
      omega
    · rw [if_pos hrm, List.length_cons, List.headD_cons, ← hbase]
      omega

theorem modrmBytes32_register {modrm : Byte} (hmod : modField modrm = 3) (sib : Byte) :
    modrmBytes32 modrm sib = 1 := by
  simp only [modrmBytes32, hmod]

/-- The r/m operand: a register for mod 3, else memory. -/
def IsRm (longMode : Bool) (p : Prefixes) (modrm : Byte) (size : OpSize) (op : Operand) : Prop :=
  if modField modrm = 3 then
    ∃ r, GpReg.fromIndex (regIndex p.rex.b (rmField modrm)) = some r ∧ op = .reg r size
  else IsRmMemory longMode p modrm size op

theorem decodeModrm_ok {longMode : Bool} {p : Prefixes} {size : OpSize} {bs rest : List Byte}
    {r : Operand × Nat} (h : decodeModrm longMode p size bs = .ok (r, rest)) :
    IsRm longMode p (bs.headD 0) size r.1 ∧ r.2 = regField (bs.headD 0) ∧
      bs.length = rest.length + modrmLength bs := by
  obtain ⟨f, rest₁, hf, h⟩ := bind_ok h
  obtain ⟨b, rfl, rfl⟩ := readModRm_ok hf
  dsimp only at h
  unfold IsRm modrmLength
  rw [List.headD_cons]
  split_ifs at h ⊢ with hmod
  · obtain ⟨g, rest₂, hg, h₂⟩ := bind_ok h
    obtain ⟨hreg, rfl⟩ := gpReg_ok hg
    obtain ⟨rfl, rfl⟩ := pure_ok h₂
    refine ⟨⟨g, hreg, rfl⟩, rfl, ?_⟩
    rw [modrmBytes32_register hmod]
    rfl
  · obtain ⟨op, rest₂, hop, h₂⟩ := bind_ok h
    obtain ⟨rfl, rfl⟩ := pure_ok h₂
    obtain ⟨hmem, hlen⟩ := decodeRmMemory_ok hmod hop
    refine ⟨hmem, rfl, ?_⟩
    rw [List.length_cons, List.drop_one, List.tail_cons]
    exact hlen

/-- The r/m operand as an XMM register or memory. -/
def IsXmmRm (longMode : Bool) (p : Prefixes) (modrm : Byte) (size : OpSize) (op : Operand) : Prop :=
  if modField modrm = 3 then op = xmmOperand (regIndex p.rex.b (rmField modrm)) size
  else IsRmMemory longMode p modrm size op

theorem decodeModrmXmm_ok {longMode : Bool} {p : Prefixes} {size : OpSize} {bs rest : List Byte}
    {r : Operand × Nat} (h : decodeModrmXmm longMode p size bs = .ok (r, rest)) :
    IsXmmRm longMode p (bs.headD 0) size r.1 ∧ r.2 = regIndex p.rex.r (regField (bs.headD 0)) ∧
      bs.length = rest.length + modrmLength bs := by
  obtain ⟨f, rest₁, hf, h⟩ := bind_ok h
  obtain ⟨b, rfl, rfl⟩ := readModRm_ok hf
  dsimp only at h
  unfold IsXmmRm modrmLength
  rw [List.headD_cons]
  split_ifs at h ⊢ with hmod
  · obtain ⟨rfl, rfl⟩ := pure_ok h
    refine ⟨rfl, rfl, ?_⟩
    rw [modrmBytes32_register hmod]
    rfl
  · obtain ⟨op, rest₂, hop, h₂⟩ := bind_ok h
    obtain ⟨rfl, rfl⟩ := pure_ok h₂
    obtain ⟨hmem, hlen⟩ := decodeRmMemory_ok hmod hop
    refine ⟨hmem, rfl, ?_⟩
    rw [List.length_cons, List.drop_one, List.tail_cons]
    exact hlen

/-! ### Rows -/

def OpSize.isByte (size : OpSize) : Bool :=
  size == .b1

/-- What the decoder makes of an operand of the map, given the ModRM byte and the low bits of the opcode.
Some rows take the reg field of an XMM register as it is (`raw`). -/
def Made (longMode : Bool) (p : Prefixes) (modrm : Byte) (low3 : Nat) (raw : Bool) :
    Arg → Operand → Prop
  | .e byte, op => ∃ size, size.isByte = byte ∧ IsRm longMode p modrm size op
  | .g byte, op => ∃ r size, size.isByte = byte ∧
      GpReg.fromIndex (regIndex p.rex.r (regField modrm)) = some r ∧ op = .reg r size
  | .z byte, op => ∃ r size, size.isByte = byte ∧
      GpReg.fromIndex (regIndex p.rex.b low3) = some r ∧ op = .reg r size
  | .acc byte, op => ∃ size, size.isByte = byte ∧ op = .reg .rax size
  | .cl, op => op = .reg .rcx .b1
  | .v, op => ∃ size, op = xmmOperand
      (if raw then regField modrm else regIndex p.rex.r (regField modrm)) size
  | .w, op => ∃ size, IsXmmRm longMode p modrm size op
  | _, _ => False

def Operand.isImm : Operand → Bool
  | .imm _ _ => true
  | _ => false

/-- The register and memory operands. -/
def Form.named (f : Form) : List Operand :=
  ([f.operand0, f.operand1, f.operand2].filterMap id).filter fun op => !op.isImm

section Rows

variable {longMode : Bool} {p : Prefixes}

theorem IsRmMemory.isImm {modrm : Byte} {size : OpSize} {op : Operand}
    (h : IsRmMemory longMode p modrm size op) : op.isImm = false := by
  unfold IsRmMemory at h
  split_ifs at h
  · obtain ⟨disp, rfl⟩ := h
    rfl
  · obtain ⟨m, rfl, -⟩ := h
    rfl

theorem IsRm.isImm {modrm : Byte} {size : OpSize} {op : Operand}
    (h : IsRm longMode p modrm size op) : op.isImm = false := by
  unfold IsRm at h
  split_ifs at h
  · obtain ⟨r, -, rfl⟩ := h
    rfl
  · exact h.isImm

theorem IsXmmRm.isImm {modrm : Byte} {size : OpSize} {op : Operand}
    (h : IsXmmRm longMode p modrm size op) : op.isImm = false := by
  unfold IsXmmRm at h
  split_ifs at h
  · rw [h]
    rfl
  · exact h.isImm

variable {low3 : Nat} {raw : Bool}

theorem Made.isImm {modrm : Byte} {arg : Arg} {op : Operand}
    (h : Made longMode p modrm low3 raw arg op) : op.isImm = false := by
  cases arg with
  | e byte =>
    obtain ⟨size, -, h⟩ := h
    exact h.isImm
  | g byte | z byte =>
    obtain ⟨r, size, -, -, rfl⟩ := h
    rfl
  | acc byte =>
    obtain ⟨size, -, rfl⟩ := h
    rfl
  | cl =>
    obtain rfl := h
    rfl
  | v =>
    obtain ⟨size, rfl⟩ := h
    rfl
  | w =>
    obtain ⟨size, h⟩ := h
    exact h.isImm
  | one | other | ctrl | ib | iw | iz | iv | jb | jz | moffs | far => exact h.elim

/-- One named operand, with or without immediates. -/
theorem named_one {modrm : Byte} {arg : Arg} {o : Operand} {op : Op} {o₁ : Option Operand}
    (h : Made longMode p modrm low3 raw arg o) (h₁ : ∀ o ∈ o₁, o.isImm = true) :
    List.Forall₂ (Made longMode p modrm low3 raw) [arg] (Form.named ⟨op, some o, o₁, none⟩) := by
  have hnamed : Form.named ⟨op, some o, o₁, none⟩ = [o] := by
    cases o₁ with
    | none => simp [Form.named, h.isImm]
    | some o₁ => simp [Form.named, h.isImm, h₁ o₁ rfl]
  rw [hnamed]
  exact .cons h .nil

/-- Two named operands, with or without an immediate. -/
theorem named_two {modrm : Byte} {arg₀ arg₁ : Arg} {o₀ o₁ : Operand} {op : Op} {o₂ : Option Operand}
    (h₀ : Made longMode p modrm low3 raw arg₀ o₀) (h₁ : Made longMode p modrm low3 raw arg₁ o₁)
    (h₂ : ∀ o ∈ o₂, o.isImm = true) :
    List.Forall₂ (Made longMode p modrm low3 raw) [arg₀, arg₁]
      (Form.named ⟨op, some o₀, some o₁, o₂⟩) := by
  have hnamed : Form.named ⟨op, some o₀, some o₁, o₂⟩ = [o₀, o₁] := by
    cases o₂ with
    | none => simp [Form.named, h₀.isImm, h₁.isImm]
    | some o₂ => simp [Form.named, h₀.isImm, h₁.isImm, h₂ o₂ rfl]
  rw [hnamed]
  exact .cons h₀ (.cons h₁ .nil)

theorem no_operand : ∀ o ∈ (none : Option Operand), o.isImm = true := by
  intro o h
  cases h

theorem imm_operand (v : BitVec 64) (size : OpSize) : ∀ o ∈ some (Operand.imm v size), o.isImm = true := by
  intro o h
  obtain rfl := Option.mem_some.mp h
  rfl

variable (longMode p low3 raw)

/-- The row consumes `k` bytes.  It is handled only if the operands have an entry, and makes those. -/
def Row (m : DecodeM Form) (bs : List Byte) (k : Nat) (entry : Option (List Arg)) : Prop :=
  ∀ f rest, m bs = .ok (f, rest) → bs.length = rest.length + k ∧
    (f.op ≠ .unhandled → ∃ args, entry = some args ∧
      List.Forall₂ (Made longMode p (bs.headD 0) low3 raw) args f.named)

variable {longMode p low3 raw} {bs : List Byte}

theorem row_unhandledForm (entry : Option (List Arg)) :
    Row longMode p low3 raw unhandledForm bs 0 entry := by
  intro f rest h
  obtain ⟨rfl, rfl⟩ := pure_ok h
  exact ⟨rfl, fun hop => absurd rfl hop⟩

theorem row_make0 (op : Op) : Row longMode p low3 raw (make0 op) bs 0 (some []) := by
  intro f rest h
  obtain ⟨rfl, rfl⟩ := pure_ok h
  exact ⟨rfl, fun _ => ⟨[], rfl, .nil⟩⟩

theorem row_stringForm (op : Op) (sizeBytes : BitVec 64) :
    Row longMode p low3 raw (stringForm p op sizeBytes) bs 0 (some []) := by
  intro f rest h
  obtain ⟨rfl, rfl⟩ := pure_ok h
  exact ⟨rfl, fun _ => ⟨[], rfl, .nil⟩⟩

/-- A row that only reads an immediate. -/
theorem row_immediate {m : DecodeM (BitVec w)} {k : Nat} (hm : m.Takes fun _ => k) (op : Op)
    (g : BitVec w → BitVec 64) (size : OpSize) :
    Row longMode p low3 raw (m >>= fun imm => make op (some (.imm (g imm) size)) none none) bs k
      (some []) := by
  intro f rest h
  obtain ⟨imm, rest₁, himm, h₁⟩ := bind_ok h
  obtain ⟨rfl, rfl⟩ := pure_ok h₁
  exact ⟨hm _ _ _ himm, fun _ => ⟨[], rfl, .nil⟩⟩

theorem row_immOnly (op : Op) (readSize size : OpSize) :
    Row longMode p low3 raw (immOnly op readSize size) bs readSize.bytes (some []) :=
  row_immediate (takes_readImm readSize) op id size

theorem row_accImm (op : Op) (size immSize : OpSize) {byte : Bool}
    (hb : size.isByte = byte) :
    Row longMode p low3 raw (accImm op size immSize) bs immSize.bytes (some [.acc byte]) := by
  intro f rest h
  obtain ⟨imm, rest₁, himm, h₁⟩ := bind_ok h
  obtain ⟨rfl, rfl⟩ := pure_ok h₁
  exact ⟨takes_readImm immSize _ _ _ himm,
    fun _ => ⟨_, rfl, named_one ⟨size, hb, rfl⟩ (imm_operand _ _)⟩⟩

theorem regOperand_ok {n : Nat} {size : OpSize} {rest : List Byte} {op : Operand}
    (h : regOperand p n size bs = .ok (op, rest)) :
    ∃ r, GpReg.fromIndex (regIndex p.rex.r n) = some r ∧ op = .reg r size ∧ rest = bs := by
  obtain ⟨r, rest₁, hr, h₁⟩ := bind_ok h
  obtain ⟨hreg, rfl⟩ := gpReg_ok hr
  obtain ⟨rfl, hrest⟩ := pure_ok h₁
  exact ⟨r, hreg, rfl, hrest⟩

theorem opcodeRegOperand_ok {n : Nat} {size : OpSize} {rest : List Byte} {op : Operand}
    (h : opcodeRegOperand p n size bs = .ok (op, rest)) :
    ∃ r, GpReg.fromIndex (regIndex p.rex.b n) = some r ∧ op = .reg r size ∧ rest = bs := by
  obtain ⟨r, rest₁, hr, h₁⟩ := bind_ok h
  obtain ⟨hreg, rfl⟩ := gpReg_ok hr
  obtain ⟨rfl, hrest⟩ := pure_ok h₁
  exact ⟨r, hreg, rfl, hrest⟩

/-! ### Registers named by the opcode -/

theorem row_opcodeReg (op : Op) (size : OpSize) {byte : Bool}
    (hb : size.isByte = byte) :
    Row longMode p low3 raw (opcodeReg p op low3 size) bs 0 (some [.z byte]) := by
  intro f rest h
  obtain ⟨o, rest₁, ho, h₁⟩ := bind_ok h
  obtain ⟨r, hr, rfl, rfl⟩ := opcodeRegOperand_ok ho
  obtain ⟨rfl, rfl⟩ := pure_ok h₁
  exact ⟨rfl, fun _ => ⟨_, rfl, named_one ⟨r, size, hb, hr, rfl⟩ no_operand⟩⟩

theorem row_movOpcodeReg (size : OpSize) {byte : Bool}
    (hb : size.isByte = byte) :
    Row longMode p low3 raw (movOpcodeReg p low3 size) bs size.bytes (some [.z byte]) := by
  intro f rest h
  obtain ⟨o, rest₁, ho, h₁⟩ := bind_ok h
  obtain ⟨r, hr, rfl, rfl⟩ := opcodeRegOperand_ok ho
  obtain ⟨imm, rest₂, himm, h₂⟩ := bind_ok h₁
  obtain ⟨rfl, rfl⟩ := pure_ok h₂
  exact ⟨takes_readImm size _ _ _ himm,
    fun _ => ⟨_, rfl, named_one ⟨r, size, hb, hr, rfl⟩ (imm_operand _ _)⟩⟩

theorem opSizeDefault32_isByte : (opSizeDefault32 longMode p).isByte = false := by
  unfold opSizeDefault32
  split <;> rfl

theorem opSizeDefault64_isByte : (opSizeDefault64 longMode p).isByte = false := by
  unfold opSizeDefault64
  split_ifs <;> rfl

theorem row_xchgAcc :
    Row longMode p low3 raw (xchgAcc longMode p low3) bs 0 (some [.acc false, .z false]) := by
  intro f rest h
  obtain ⟨o, rest₁, ho, h₁⟩ := bind_ok h
  obtain ⟨r, hr, rfl, rfl⟩ := opcodeRegOperand_ok ho
  obtain ⟨rfl, rfl⟩ := pure_ok h₁
  exact ⟨rfl, fun _ => ⟨_, rfl, named_two ⟨_, opSizeDefault32_isByte, rfl⟩
    ⟨r, _, opSizeDefault32_isByte, hr, rfl⟩ no_operand⟩⟩

/-! ### Operands of a ModRM byte -/

variable (longMode p low3 raw) in
/-- What is left of a row after its ModRM byte `modrm`. -/
def Ends (modrm : Byte) (m : DecodeM Form) (k : Nat) (entry : Option (List Arg)) : Prop :=
  ∀ bs f rest, m bs = .ok (f, rest) → bs.length = rest.length + k ∧
    (f.op ≠ .unhandled → ∃ args, entry = some args ∧
      List.Forall₂ (Made longMode p modrm low3 raw) args f.named)

section Ends

variable {modrm : Byte} {entry : Option (List Arg)} {k : Nat}

theorem ends_make {f : Form} {args : List Arg}
    (h : List.Forall₂ (Made longMode p modrm low3 raw) args f.named) :
    Ends longMode p low3 raw modrm (pure f) 0 (some args) := by
  intro bs f' rest hf
  obtain ⟨rfl, rfl⟩ := pure_ok hf
  exact ⟨rfl, fun _ => ⟨args, rfl, h⟩⟩

theorem ends_unhandled : Ends longMode p low3 raw modrm unhandledForm 0 entry := by
  intro bs f rest hf
  obtain ⟨rfl, rfl⟩ := pure_ok hf
  exact ⟨rfl, fun hop => absurd rfl hop⟩

/-- An immediate, with what comes after it. -/
theorem Ends.bind {m : DecodeM α} {g : α → DecodeM Form} {n : Nat} (hm : m.Takes fun _ => n)
    (hg : ∀ a, Ends longMode p low3 raw modrm (g a) k entry) :
    Ends longMode p low3 raw modrm (m >>= g) (n + k) entry := by
  intro bs f rest hf
  obtain ⟨a, rest₁, ha, hrest⟩ := bind_ok hf
  obtain ⟨hlen, hnamed⟩ := hg a rest₁ f rest hrest
  have hn := hm bs a rest₁ ha
  dsimp only at hn
  exact ⟨by omega, hnamed⟩

/-- The register of the reg field. -/
theorem Ends.reg {size : OpSize} {g : Operand → DecodeM Form}
    (hg : ∀ r, GpReg.fromIndex (regIndex p.rex.r (regField modrm)) = some r →
      Ends longMode p low3 raw modrm (g (.reg r size)) k entry) :
    Ends longMode p low3 raw modrm (regOperand p (regField modrm) size >>= g) k entry := by
  intro bs f rest hf
  obtain ⟨o, rest₁, ho, hrest⟩ := bind_ok hf
  obtain ⟨r, hr, rfl, rfl⟩ := regOperand_ok ho
  exact hg r hr _ f rest hrest

end Ends

theorem row_modrm {size : OpSize} {g : Operand × Nat → DecodeM Form} {k : Nat}
    {entry : Option (List Arg)}
    (hg : ∀ rm, IsRm longMode p (bs.headD 0) size rm →
      Ends longMode p low3 raw (bs.headD 0) (g (rm, regField (bs.headD 0))) k entry) :
    Row longMode p low3 raw (decodeModrm longMode p size >>= g) bs (modrmLength bs + k) entry := by
  intro f rest h
  obtain ⟨⟨rm, reg⟩, rest₁, hrm, h₁⟩ := bind_ok h
  obtain ⟨hmade, rfl, hlen⟩ := decodeModrm_ok hrm
  obtain ⟨hends, hnamed⟩ := hg rm hmade rest₁ f rest h₁
  exact ⟨by omega, hnamed⟩

theorem row_modrmXmm {size : OpSize} {g : Operand × Nat → DecodeM Form} {k : Nat}
    {entry : Option (List Arg)}
    (hg : ∀ rm, IsXmmRm longMode p (bs.headD 0) size rm →
      Ends longMode p low3 raw (bs.headD 0) (g (rm, regIndex p.rex.r (regField (bs.headD 0)))) k
        entry) :
    Row longMode p low3 raw (decodeModrmXmm longMode p size >>= g) bs (modrmLength bs + k) entry := by
  intro f rest h
  obtain ⟨⟨rm, reg⟩, rest₁, hrm, h₁⟩ := bind_ok h
  obtain ⟨hmade, rfl, hlen⟩ := decodeModrmXmm_ok hrm
  obtain ⟨hends, hnamed⟩ := hg rm hmade rest₁ f rest h₁
  exact ⟨by omega, hnamed⟩

theorem row_rmReg (op : Op) (size : OpSize) {byte : Bool}
    (hb : size.isByte = byte) :
    Row longMode p low3 raw (rmReg longMode p op size) bs (modrmLength bs)
      (some [.e byte, .g byte]) := by
  refine row_modrm (k := 0) fun rm hrm => ?_
  refine Ends.reg fun r hr => ends_make ?_
  exact named_two ⟨size, hb, hrm⟩ ⟨r, size, hb, hr, rfl⟩ no_operand

theorem row_regRm (op : Op) (size rmSize : OpSize) {byte rmByte : Bool}
    (hb : size.isByte = byte) (hrb : rmSize.isByte = rmByte) :
    Row longMode p low3 raw (regRm longMode p op size rmSize) bs (modrmLength bs)
      (some [.g byte, .e rmByte]) := by
  refine row_modrm (k := 0) fun rm hrm => ?_
  refine Ends.reg fun r hr => ends_make ?_
  exact named_two ⟨r, size, hb, hr, rfl⟩ ⟨rmSize, hrb, hrm⟩ no_operand

theorem row_imulImm (size immSize : OpSize) {byte : Bool}
    (hb : size.isByte = byte) :
    Row longMode p low3 raw (imulImm longMode p size immSize) bs (modrmLength bs + immSize.bytes)
      (some [.g byte, .e byte]) := by
  refine row_modrm fun rm hrm => ?_
  refine Ends.reg fun r hr => .bind (takes_readImm immSize) fun imm => ends_make ?_
  exact named_two ⟨r, size, hb, hr, rfl⟩ ⟨size, hb, hrm⟩ (imm_operand _ _)

theorem row_decodeGroup1 (size immSize : OpSize) {byte : Bool}
    (hb : size.isByte = byte) :
    Row longMode p low3 raw (decodeGroup1 longMode p size immSize) bs
      (modrmLength bs + immSize.bytes) (some [.e byte]) := by
  refine row_modrm fun rm hrm => .bind (takes_readImm immSize) fun imm => ends_make ?_
  exact named_one ⟨size, hb, hrm⟩ (imm_operand _ _)

/-- The shift amount: one byte for an immediate, and a named operand for CL. -/
def ShiftAmountForm.bytes : ShiftAmountForm → Nat
  | .imm8 => 1
  | _ => 0

def ShiftAmountForm.args : ShiftAmountForm → List Arg
  | .cl => [.cl]
  | _ => []

theorem row_decodeGroup2 (size : OpSize) (amount : ShiftAmountForm) {byte : Bool}
    (hb : size.isByte = byte) :
    Row longMode p low3 raw (decodeGroup2 longMode p size amount) bs
      (modrmLength bs + amount.bytes) (some (.e byte :: amount.args)) := by
  refine row_modrm fun rm hrm => ?_
  cases amount with
  | one => exact ends_make (named_one ⟨size, hb, hrm⟩ (imm_operand _ _))
  | cl => exact ends_make (named_two ⟨size, hb, hrm⟩ rfl no_operand)
  | imm8 =>
    refine .bind takes_readU8 fun v => ends_make ?_
    exact named_one ⟨size, hb, hrm⟩ (imm_operand _ _)

/-- Only the first two operations of group 3 have an immediate. -/
theorem row_decodeGroup3 (size : OpSize) {byte : Bool}
    (hb : size.isByte = byte) :
    Row longMode p low3 raw (decodeGroup3 longMode p size) bs
      (modrmLength bs + if regField (bs.headD 0) ≤ 1
        then (if size = .b1 then OpSize.b1 else immSizeZ size).bytes else 0)
      (some [.e byte]) := by
  refine row_modrm fun rm hrm => ?_
  have hmade : Made longMode p (bs.headD 0) low3 raw (.e byte) rm := ⟨size, hb, hrm⟩
  dsimp only
  generalize regField (bs.headD 0) = sub
  split
  · exact .bind (takes_readImm _) fun imm => ends_make (named_one hmade (imm_operand _ _))
  · exact .bind (takes_readImm _) fun imm => ends_make (named_one hmade (imm_operand _ _))
  · exact ends_make (named_one hmade no_operand)
  · exact ends_make (named_one hmade no_operand)
  · exact ends_make (named_one hmade no_operand)
  · exact ends_make (named_one hmade no_operand)
  · exact ends_make (named_one hmade no_operand)
  · rename_i hne₀ hne₁ _ _ _ _ _
    have hsub : ¬ sub ≤ 1 := by
      intro hle
      obtain rfl | rfl := Nat.le_one_iff_eq_zero_or_eq_one.mp hle
      · exact hne₀ rfl
      · exact hne₁ rfl
    rw [if_neg hsub]
    exact ends_make (named_one hmade no_operand)

theorem row_decodeGroup4 :
    Row longMode p low3 raw (decodeGroup4 longMode p) bs (modrmLength bs)
      (if regField (bs.headD 0) ≤ 1 then some [.e true] else none) := by
  refine row_modrm (k := 0) fun rm hrm => ?_
  have hmade : Made longMode p (bs.headD 0) low3 raw (.e true) rm := ⟨.b1, rfl, hrm⟩
  dsimp only
  generalize regField (bs.headD 0) = sub
  split
  · exact ends_make (named_one hmade no_operand)
  · exact ends_make (named_one hmade no_operand)
  · exact ends_unhandled

/-- Another width does not change which register or memory operand it is. -/
theorem IsRm.rewidth {modrm : Byte} {size size' : OpSize} {op : Operand}
    (h : IsRm longMode p modrm size op) : IsRm longMode p modrm size' (rewidth op size') := by
  unfold IsRm at h ⊢
  split_ifs at h ⊢ with hmod
  · obtain ⟨r, hr, rfl⟩ := h
    exact ⟨r, hr, rfl⟩
  · unfold IsRmMemory at h ⊢
    split_ifs at h ⊢ with hrip
    · obtain ⟨disp, rfl⟩ := h
      exact ⟨disp, rfl⟩
    · obtain ⟨m, rfl, hseg, -⟩ := h
      exact ⟨_, rfl, hseg, rfl⟩

theorem row_decodeGroup5 :
    Row longMode p low3 raw (decodeGroup5 longMode p) bs (modrmLength bs)
      (if regField (bs.headD 0) ≤ 6 then some [.e false] else none) := by
  refine row_modrm (k := 0) fun rm hrm => ?_
  have hmade : Made longMode p (bs.headD 0) low3 raw (.e false) rm := ⟨_, opSizeDefault32_isByte, hrm⟩
  have hwide : Made longMode p (bs.headD 0) low3 raw (.e false)
      (rewidth rm (opSizeDefault64 longMode p)) := ⟨_, opSizeDefault64_isByte, hrm.rewidth⟩
  dsimp only
  generalize regField (bs.headD 0) = sub
  split
  · exact ends_make (named_one hmade no_operand)
  · exact ends_make (named_one hmade no_operand)
  · exact ends_make (named_one hwide no_operand)
  · exact ends_make (named_one hwide no_operand)
  · exact ends_make (named_one hwide no_operand)
  · exact ends_unhandled

theorem row_movRmImm (size immSize : OpSize) {byte : Bool}
    (hb : size.isByte = byte) :
    Row longMode p low3 raw (movRmImm longMode p size immSize) bs
      (modrmLength bs + if regField (bs.headD 0) = 0 then immSize.bytes else 0)
      (if regField (bs.headD 0) = 0 then some [.e byte] else none) := by
  refine row_modrm fun rm hrm => ?_
  dsimp only
  by_cases hsub : regField (bs.headD 0) = 0
  · rw [if_neg (not_not.mpr hsub), if_pos hsub, if_pos hsub]
    refine .bind (takes_readImm _) fun imm => ends_make ?_
    exact named_one ⟨size, hb, hrm⟩ (imm_operand _ _)
  · rw [if_pos hsub, if_neg hsub, if_neg hsub]
    exact ends_unhandled

theorem row_popRm :
    Row longMode p low3 raw (popRm longMode p) bs (modrmLength bs)
      (if regField (bs.headD 0) = 0 then some [.e false] else none) := by
  refine row_modrm (k := 0) fun rm hrm => ?_
  dsimp only
  by_cases hsub : regField (bs.headD 0) = 0
  · rw [if_neg (not_not.mpr hsub), if_pos hsub]
    exact ends_make (named_one ⟨_, opSizeDefault64_isByte, hrm⟩ no_operand)
  · rw [if_pos hsub, if_neg hsub]
    exact ends_unhandled

theorem row_decodeNopRm :
    Row longMode p low3 raw (decodeNopRm longMode p) bs (modrmLength bs) (some []) :=
  row_modrm (k := 0) fun _ _ => ends_make .nil

theorem row_decodeSet (cond : Cond) :
    Row longMode p low3 raw (decodeSet longMode p cond) bs (modrmLength bs) (some [.e true]) :=
  row_modrm (k := 0) fun _ hrm => ends_make (named_one ⟨.b1, rfl, hrm⟩ no_operand)

theorem row_decodeGroup8 (size : OpSize) {byte : Bool}
    (hb : size.isByte = byte) :
    Row longMode p low3 raw (decodeGroup8 longMode p size) bs (modrmLength bs + 1)
      (if 4 ≤ regField (bs.headD 0) then some [.e byte] else none) := by
  refine row_modrm fun rm hrm => Ends.bind (k := 0) (takes_readImm .b1) fun imm => ?_
  have hmade : Made longMode p (bs.headD 0) low3 raw (.e byte) rm := ⟨size, hb, hrm⟩
  generalize regField (bs.headD 0) = sub
  split
  · exact ends_make (named_one hmade (imm_operand _ _))
  · exact ends_make (named_one hmade (imm_operand _ _))
  · exact ends_make (named_one hmade (imm_operand _ _))
  · exact ends_make (named_one hmade (imm_operand _ _))
  · exact ends_unhandled

/-! ### XMM operands -/

theorem row_xmmRm (op : Op) (size rmSize : OpSize) :
    Row longMode p low3 false (xmmRm longMode p op size rmSize) bs (modrmLength bs)
      (some [.v, .w]) :=
  row_modrmXmm (k := 0) fun _ hrm => ends_make (named_two ⟨size, rfl⟩ ⟨rmSize, hrm⟩ no_operand)

theorem row_rmXmm (op : Op) (size : OpSize) :
    Row longMode p low3 false (rmXmm longMode p op size) bs (modrmLength bs) (some [.w, .v]) :=
  row_modrmXmm (k := 0) fun _ hrm => ends_make (named_two ⟨size, hrm⟩ ⟨size, rfl⟩ no_operand)

theorem row_xmmGpr (op : Op) (size rmSize : OpSize) {byte : Bool}
    (hb : rmSize.isByte = byte) :
    Row longMode p low3 true (xmmGpr longMode p op size rmSize) bs (modrmLength bs)
      (some [.v, .e byte]) :=
  row_modrm (k := 0) fun _ hrm => ends_make (named_two ⟨size, rfl⟩ ⟨rmSize, hb, hrm⟩ no_operand)

theorem row_gprXmm (op : Op) (size : OpSize) {byte : Bool}
    (hb : size.isByte = byte) :
    Row longMode p low3 true (gprXmm longMode p op size) bs (modrmLength bs)
      (some [.e byte, .v]) :=
  row_modrm (k := 0) fun _ hrm => ends_make (named_two ⟨size, hb, hrm⟩ ⟨size, rfl⟩ no_operand)

theorem row_decodePshufd :
    Row longMode p low3 false (decodePshufd longMode p) bs (modrmLength bs + 1) (some [.v, .w]) := by
  refine row_modrmXmm fun rm hrm => .bind takes_readU8 fun imm => ends_make ?_
  exact named_two ⟨.b8, rfl⟩ ⟨.b8, hrm⟩ (imm_operand _ _)

/-- The extension bit is put in once more. -/
theorem regIndex_regIndex (ext : Bool) (field : Nat) :
    regIndex ext (regIndex ext field) = regIndex ext field := by
  unfold regIndex
  rw [← Nat.or_assoc, Nat.or_self]

theorem row_regXmm (op : Op) (intSize fpSize : OpSize) {byte : Bool}
    (hb : intSize.isByte = byte) :
    Row longMode p low3 raw (regXmm longMode p op intSize fpSize) bs (modrmLength bs)
      (some [.g byte, .w]) := by
  refine row_modrmXmm (k := 0) fun rm hrm bs' f rest h => ?_
  obtain ⟨o, rest₁, ho, h₁⟩ := bind_ok h
  obtain ⟨r, hr, rfl, rfl⟩ := regOperand_ok ho
  rw [regIndex_regIndex] at hr
  have hg : Made longMode p (bs.headD 0) low3 raw (.g byte) (.reg r intSize) :=
    ⟨r, intSize, hb, hr, rfl⟩
  have hw : Made longMode p (bs.headD 0) low3 raw .w rm := ⟨fpSize, hrm⟩
  exact ends_make (named_two hg hw no_operand) _ f rest h₁

/-- A row that takes only register forms. -/
theorem row_readModRm {g : Nat × Nat × Nat → DecodeM Form} {k : Nat} {args : List Arg}
    (hreg : modField (bs.headD 0) = 3 →
      Ends longMode p low3 raw (bs.headD 0)
        (g (3, regField (bs.headD 0), rmField (bs.headD 0))) k (some args))
    (hmem : ∀ mod reg rm, mod ≠ 3 → g (mod, reg, rm) = unhandledForm) :
    Row longMode p low3 raw (readModRm >>= g) bs (1 + if modField (bs.headD 0) = 3 then k else 0)
      (if modField (bs.headD 0) = 3 then some args else none) := by
  intro f rest h
  obtain ⟨⟨mod, reg, rm⟩, rest₁, hf, h₁⟩ := bind_ok h
  obtain ⟨b, rfl, hfields⟩ := readModRm_ok hf
  obtain ⟨rfl, rfl, rfl⟩ := hfields
  rw [List.headD_cons] at hreg ⊢
  rw [List.length_cons]
  split_ifs with hmod
  · rw [hmod] at h₁
    obtain ⟨hlen, hnamed⟩ := hreg hmod rest₁ f rest h₁
    exact ⟨by omega, hnamed⟩
  · rw [hmem _ _ _ hmod] at h₁
    obtain ⟨rfl, rfl⟩ := pure_ok h₁
    exact ⟨rfl, fun hop => absurd rfl hop⟩

theorem row_decodePackedShift (lane : OpSize) :
    Row longMode p low3 raw (decodePackedShift p lane) bs
      (1 + if modField (bs.headD 0) = 3 then 1 else 0)
      (if modField (bs.headD 0) = 3 then some [.w] else none) := by
  refine row_readModRm (fun hmod => ?_) fun mod reg rm hmod => if_pos hmod
  have hmade : Made longMode p (bs.headD 0) low3 raw .w
      (xmmOperand (regIndex p.rex.b (rmField (bs.headD 0))) .b8) := ⟨.b8, by rw [IsXmmRm, if_pos hmod]⟩
  refine Ends.bind (k := 0) takes_readU8 fun imm => ?_
  cases packedShiftOp (regField (bs.headD 0)) lane with
  | none => exact ends_unhandled
  | some op => exact ends_make (named_one hmade (imm_operand _ _))

theorem row_decodePmovmskb :
    Row longMode p low3 raw (decodePmovmskb p) bs 1
      (if modField (bs.headD 0) = 3 then some [.g false, .w] else none) := by
  have hrow : Row longMode p low3 raw (decodePmovmskb p) bs
      (1 + if modField (bs.headD 0) = 3 then 0 else 0)
      (if modField (bs.headD 0) = 3 then some [.g false, .w] else none) := by
    refine row_readModRm (fun hmod => ?_) fun mod reg rm hmod => if_pos hmod
    have hw : Made longMode p (bs.headD 0) low3 raw .w
        (xmmOperand (regIndex p.rex.b (rmField (bs.headD 0))) .b8) :=
      ⟨.b8, by rw [IsXmmRm, if_pos hmod]⟩
    intro bs' f rest h
    obtain ⟨r, rest₁, hr, h₁⟩ := bind_ok h
    obtain ⟨hreg, rfl⟩ := gpReg_ok hr
    have hg : Made longMode p (bs.headD 0) low3 raw (.g false) (.reg r .b4) := ⟨r, .b4, rfl, hreg, rfl⟩
    exact ends_make (named_two hg hw no_operand) _ f rest h₁
  rwa [ite_self] at hrow

end Rows

/-! ### The `0F` table -/

/-- The row that the prefixes select is one of the four. -/
theorem selected_row {longMode : Bool} {p : Prefixes} {opcode : Nat} {m : DecodeM Form}
    (h : [(p.osize, decodeOsize longMode p opcode),
        (p.osize || p.repe, decodeOsizeOrRepe longMode p opcode),
        (p.repne || p.repe, decodeRep longMode p opcode),
        (!p.repne && !p.repe, decodeNoRep longMode p opcode)].findSome?
      (fun (sel, row) => if sel then row else none) = some m) :
    decodeOsize longMode p opcode = some m ∨ decodeOsizeOrRepe longMode p opcode = some m ∨
      decodeRep longMode p opcode = some m ∨ decodeNoRep longMode p opcode = some m := by
  obtain ⟨⟨sel, row⟩, hrow, hsome⟩ := List.exists_of_findSome?_eq_some h
  have hm : row = some m := by
    dsimp only at hsome
    split_ifs at hsome
    exact hsome
  simp only [List.mem_cons, List.not_mem_nil, or_false, Prod.mk.injEq] at hrow
  obtain ⟨-, rfl⟩ | ⟨-, rfl⟩ | ⟨-, rfl⟩ | ⟨-, rfl⟩ := hrow
  · exact .inl hm
  · exact .inr (.inl hm)
  · exact .inr (.inr (.inl hm))
  · exact .inr (.inr (.inr hm))

end Quantum.Jit
