import Quantum.Jit.Decoder
import Quantum.Lib.Parser

/-!
# The decoder reads what it consumes

Every computation of the decoder is local: its result depends only on the bytes that it consumes, and it
reports truncation for every shorter input.  The tables follow row by row from the few ways in which bytes
are read.
-/

namespace Quantum.Jit

open DecodeM

variable {α β : Type}

/-- The decoder's error for missing bytes. -/
def truncated : Fault DecodeError :=
  .err .truncated

namespace DecodeM

/-- The computation depends only on the bytes that it consumes. -/
def IsLocal (m : DecodeM α) : Prop :=
  Parser.Local truncated m

theorem IsLocal.pure (a : α) : IsLocal (Pure.pure a : DecodeM α) :=
  Parser.Local.pure a

theorem bind_eq (m : DecodeM α) (f : α → DecodeM β) : (m >>= f) = Parser.bind m f := by
  funext bs
  simp only [bind, Parser.bind]
  cases m bs <;> rfl

theorem IsLocal.bind {m : DecodeM α} {f : α → DecodeM β} (hm : m.IsLocal)
    (hf : ∀ a, (f a).IsLocal) : (m >>= f).IsLocal := by
  unfold IsLocal
  rw [bind_eq]
  exact Parser.Local.bind hm hf

theorem IsLocal.ite {c : Prop} [Decidable c] {m m' : DecodeM α} (hm : m.IsLocal)
    (hm' : m'.IsLocal) : (if c then m else m').IsLocal := by
  by_cases h : c
  · rwa [if_pos h]
  · rwa [if_neg h]

theorem isLocal_unwrap (o : Option α) : (unwrap o).IsLocal := by
  cases o with
  | none => exact Parser.Local.error _
  | some a => exact .pure a

end DecodeM

/-! ### Reading -/

theorem isLocal_readU8 : readU8.IsLocal := by
  intro bs
  cases bs with
  | nil => exact .nil rfl
  | cons b bs => exact .cons rfl (fun _ => rfl) (Parser.Local.pure b bs)

theorem isLocal_readLe (w n : Nat) : (readLe w n).IsLocal := by
  induction n with
  | zero => exact .pure _
  | succ n ih => exact isLocal_readU8.bind fun _ => ih.bind fun _ => .pure _

theorem isLocal_readI8 : readI8.IsLocal :=
  isLocal_readU8.bind fun _ => .pure _

theorem isLocal_readU16 : readU16.IsLocal :=
  isLocal_readLe 16 2

theorem isLocal_readImm (size : OpSize) : (readImm size).IsLocal := by
  cases size with
  | b1 => exact isLocal_readI8
  | b2 => exact (isLocal_readLe 16 2).bind fun _ => .pure _
  | b4 => exact (isLocal_readLe 32 4).bind fun _ => .pure _
  | b8 => exact isLocal_readLe 64 8

/-- What the prefix loop does with a byte: consume it and go on, consume it and stop, or leave it. -/
theorem readPrefixes_cons (longMode : Bool) (p : Prefixes) (b : Byte) :
    (∃ p', ∀ bs, readPrefixes longMode p (b :: bs) = readPrefixes longMode p' bs) ∨
      (∃ p', ∀ bs, readPrefixes longMode p (b :: bs) = .ok (p', bs)) ∨
      ∀ bs, readPrefixes longMode p (b :: bs) = .ok (p, b :: bs) := by
  simp only [readPrefixes]
  split
  any_goals exact .inl ⟨_, fun _ => rfl⟩
  split_ifs
  · exact .inr (.inl ⟨_, fun _ => rfl⟩)
  · exact .inr (.inr fun _ => rfl)

/-- The loop looks at the byte after the prefixes, so it is local together with the opcode that
follows. -/
theorem isLocal_readPrefixes_bind (longMode : Bool) (k : Prefixes → Byte → DecodeM α)
    (hk : ∀ p b, (k p b).IsLocal) (p : Prefixes) :
    DecodeM.IsLocal (readPrefixes longMode p >>= fun p => readU8 >>= k p) := by
  intro bs
  induction bs generalizing p with
  | nil => exact .nil rfl
  | cons b bs ih =>
    obtain ⟨p', hp'⟩ | ⟨p', hp'⟩ | hp' := readPrefixes_cons longMode p b
    · refine .cons rfl (fun bs => ?_) (ih p')
      rw [bind_eq, bind_eq]
      unfold Parser.bind
      rw [hp']
    · refine .cons rfl (fun bs => ?_) (isLocal_readU8.bind (hk p') bs)
      rw [bind_eq]
      unfold Parser.bind
      rw [hp']
    · refine .cons rfl (fun bs => ?_) (hk p b bs)
      rw [bind_eq]
      unfold Parser.bind
      rw [hp']
      rfl

/-! ### ModRM and SIB -/

theorem isLocal_gpReg (ext : Bool) (field : Nat) : (gpReg ext field).IsLocal :=
  isLocal_unwrap _

theorem isLocal_regOperand (p : Prefixes) (regField : Nat) (size : OpSize) :
    (regOperand p regField size).IsLocal :=
  (isLocal_gpReg _ _).bind fun _ => .pure _

theorem isLocal_opcodeRegOperand (p : Prefixes) (low3 : Nat) (size : OpSize) :
    (opcodeRegOperand p low3 size).IsLocal :=
  (isLocal_gpReg _ _).bind fun _ => .pure _

theorem isLocal_decodeSib (p : Prefixes) (mod rm : Nat) : (decodeSib p mod rm).IsLocal := by
  unfold decodeSib
  split
  · refine isLocal_readU8.bind fun sib => ?_
    dsimp only
    -- With or without an index, with or without a base.
    split
    · refine IsLocal.bind (.pure _) fun index => ?_
      split
      · exact IsLocal.bind (.pure _) fun base => .pure _
      · exact (isLocal_gpReg _ _).bind fun _ => IsLocal.bind (.pure _) fun base => .pure _
    · refine (isLocal_gpReg _ _).bind fun _ => IsLocal.bind (.pure _) fun index => ?_
      split
      · exact IsLocal.bind (.pure _) fun base => .pure _
      · exact (isLocal_gpReg _ _).bind fun _ => IsLocal.bind (.pure _) fun base => .pure _
  · exact (isLocal_gpReg _ _).bind fun _ => .pure _

theorem isLocal_decodeRmMemory (longMode : Bool) (p : Prefixes) (mod rm : Nat) (size : OpSize) :
    (decodeRmMemory longMode p mod rm size).IsLocal := by
  unfold decodeRmMemory
  split
  · refine (isLocal_readLe 32 4).bind fun disp => ?_
    split
    · exact .pure _
    · exact .pure _
  · refine (isLocal_decodeSib p mod rm).bind fun sib => ?_
    dsimp only
    split
    · split
      · exact (isLocal_readLe 32 4).bind fun disp => .pure _
      · exact IsLocal.bind (.pure _) fun disp => .pure _
    · exact isLocal_readU8.bind fun _ => IsLocal.bind (.pure _) fun disp => .pure _
    · exact (isLocal_readLe 32 4).bind fun disp => .pure _
    · exact IsLocal.bind (.pure _) fun disp => .pure _

theorem isLocal_readModRm : readModRm.IsLocal :=
  isLocal_readU8.bind fun _ => .pure _

theorem isLocal_decodeModrm (longMode : Bool) (p : Prefixes) (size : OpSize) :
    (decodeModrm longMode p size).IsLocal := by
  refine isLocal_readModRm.bind fun ⟨mod, reg, rm⟩ => ?_
  dsimp only
  split
  · exact (isLocal_gpReg _ _).bind fun _ => IsLocal.bind (.pure _) fun op => .pure _
  · exact (isLocal_decodeRmMemory longMode p mod rm size).bind fun op => .pure _

theorem isLocal_decodeModrmXmm (longMode : Bool) (p : Prefixes) (size : OpSize) :
    (decodeModrmXmm longMode p size).IsLocal := by
  refine isLocal_readModRm.bind fun ⟨mod, reg, rm⟩ => ?_
  dsimp only
  split
  · exact IsLocal.bind (.pure _) fun op => .pure _
  · exact (isLocal_decodeRmMemory longMode p mod rm size).bind fun op => .pure _

/-! ### The tables -/

section Tables

variable (longMode : Bool) (p : Prefixes)

theorem isLocal_make (op : Op) (o₀ o₁ o₂ : Option Operand) : (make op o₀ o₁ o₂).IsLocal :=
  .pure _

theorem isLocal_make0 (op : Op) : (make0 op).IsLocal :=
  .pure _

theorem isLocal_unhandledForm : unhandledForm.IsLocal :=
  .pure _

theorem isLocal_stringForm (op : Op) (sizeBytes : BitVec 64) : (stringForm p op sizeBytes).IsLocal :=
  .pure _

theorem isLocal_rmReg (op : Op) (size : OpSize) : (rmReg longMode p op size).IsLocal :=
  (isLocal_decodeModrm longMode p size).bind fun ⟨_, _⟩ =>
    (isLocal_regOperand _ _ _).bind fun _ => isLocal_make _ _ _ _

theorem isLocal_regRm (op : Op) (size rmSize : OpSize) :
    (regRm longMode p op size rmSize).IsLocal :=
  (isLocal_decodeModrm longMode p rmSize).bind fun ⟨_, _⟩ =>
    (isLocal_regOperand _ _ _).bind fun _ => isLocal_make _ _ _ _

theorem isLocal_accImm (op : Op) (size immSize : OpSize) : (accImm op size immSize).IsLocal :=
  (isLocal_readImm immSize).bind fun _ => isLocal_make _ _ _ _

theorem isLocal_immOnly (op : Op) (readSize size : OpSize) : (immOnly op readSize size).IsLocal :=
  (isLocal_readImm readSize).bind fun _ => isLocal_make _ _ _ _

theorem isLocal_opcodeReg (op : Op) (low3 : Nat) (size : OpSize) :
    (opcodeReg p op low3 size).IsLocal :=
  (isLocal_opcodeRegOperand p low3 size).bind fun _ => isLocal_make _ _ _ _

theorem isLocal_decodeArithForm (opcode : Nat) (op : Op) :
    (decodeArithForm longMode p opcode op).IsLocal := by
  unfold decodeArithForm
  split
  · exact isLocal_rmReg _ _ _ _
  · exact isLocal_rmReg _ _ _ _
  · exact isLocal_regRm _ _ _ _ _
  · exact isLocal_regRm _ _ _ _ _
  · exact isLocal_accImm _ _ _
  · exact isLocal_accImm _ _ _
  · exact isLocal_make _ _ _ _

theorem isLocal_decodeGroup1 (size immSize : OpSize) :
    (decodeGroup1 longMode p size immSize).IsLocal :=
  (isLocal_decodeModrm longMode p size).bind fun ⟨_, _⟩ =>
    (isLocal_readImm immSize).bind fun _ => isLocal_make _ _ _ _

theorem isLocal_decodeGroup2 (size : OpSize) (amount : ShiftAmountForm) :
    (decodeGroup2 longMode p size amount).IsLocal := by
  refine (isLocal_decodeModrm longMode p size).bind fun ⟨rm, sub⟩ => ?_
  cases amount with
  | one => exact IsLocal.bind (.pure _) fun amt => isLocal_make _ _ _ _
  | cl => exact IsLocal.bind (.pure _) fun amt => isLocal_make _ _ _ _
  | imm8 =>
    exact isLocal_readU8.bind fun _ => IsLocal.bind (.pure _) fun amt => isLocal_make _ _ _ _

theorem isLocal_decodeGroup3 (size : OpSize) : (decodeGroup3 longMode p size).IsLocal := by
  refine (isLocal_decodeModrm longMode p size).bind fun ⟨rm, sub⟩ => ?_
  dsimp only
  split
  iterate 2 exact (isLocal_readImm _).bind fun _ => isLocal_make _ _ _ _
  all_goals exact isLocal_make _ _ _ _

theorem isLocal_decodeGroup4 : (decodeGroup4 longMode p).IsLocal := by
  refine (isLocal_decodeModrm longMode p .b1).bind fun ⟨rm, sub⟩ => ?_
  dsimp only
  split <;> exact isLocal_make _ _ _ _

theorem isLocal_decodeGroup5 : (decodeGroup5 longMode p).IsLocal := by
  refine (isLocal_decodeModrm longMode p _).bind fun ⟨rm, sub⟩ => ?_
  dsimp only
  split <;> exact isLocal_make _ _ _ _

theorem isLocal_imulImm (size immSize : OpSize) : (imulImm longMode p size immSize).IsLocal :=
  (isLocal_decodeModrm longMode p size).bind fun ⟨_, _⟩ =>
    (isLocal_regOperand _ _ _).bind fun _ =>
      (isLocal_readImm immSize).bind fun _ => isLocal_make _ _ _ _

theorem isLocal_movRmImm (size immSize : OpSize) : (movRmImm longMode p size immSize).IsLocal := by
  refine (isLocal_decodeModrm longMode p size).bind fun ⟨rm, sub⟩ => ?_
  dsimp only
  split
  · exact isLocal_make _ _ _ _
  · exact (isLocal_readImm immSize).bind fun _ => isLocal_make _ _ _ _

theorem isLocal_movOpcodeReg (low3 : Nat) (size : OpSize) : (movOpcodeReg p low3 size).IsLocal :=
  (isLocal_opcodeRegOperand p low3 size).bind fun _ =>
    (isLocal_readImm size).bind fun _ => isLocal_make _ _ _ _

theorem isLocal_popRm : (popRm longMode p).IsLocal := by
  refine (isLocal_decodeModrm longMode p _).bind fun ⟨rm, sub⟩ => ?_
  dsimp only
  split <;> exact isLocal_make _ _ _ _

theorem isLocal_xchgAcc (low3 : Nat) : (xchgAcc longMode p low3).IsLocal :=
  (isLocal_opcodeRegOperand p low3 _).bind fun _ => isLocal_make _ _ _ _

/-- One case for each row of the primary table. -/
theorem isLocal_decodePrimary (opcode : Nat) : (decodePrimary longMode p opcode).IsLocal := by
  unfold decodePrimary
  refine .ite (isLocal_decodeArithForm _ _ _ _) ?_
  refine .ite (isLocal_opcodeReg _ _ _ _) ?_
  refine .ite (isLocal_opcodeReg _ _ _ _) ?_
  refine .ite (isLocal_opcodeReg _ _ _ _) ?_
  refine .ite (isLocal_opcodeReg _ _ _ _) ?_
  refine .ite (isLocal_immOnly _ _ _) ?_
  refine .ite (isLocal_xchgAcc _ _ _) ?_
  refine .ite (isLocal_movOpcodeReg _ _ _) ?_
  refine .ite (isLocal_movOpcodeReg _ _ _) ?_
  · split
    all_goals with_reducible first
      | exact isLocal_make0 _
      | exact isLocal_rmReg _ _ _ _
      | exact isLocal_regRm _ _ _ _ _
      | exact isLocal_immOnly _ _ _
      | exact isLocal_accImm _ _ _
      | exact isLocal_stringForm _ _ _
      | exact isLocal_imulImm _ _ _ _
      | exact isLocal_decodeGroup1 _ _ _ _
      | exact isLocal_decodeGroup2 _ _ _ _
      | exact isLocal_decodeGroup3 _ _ _
      | exact isLocal_decodeGroup4 _ _
      | exact isLocal_decodeGroup5 _ _
      | exact isLocal_popRm _ _
      | exact isLocal_movRmImm _ _ _ _
      | exact isLocal_readU16.bind fun _ => isLocal_make _ _ _ _
      | exact isLocal_readU8.bind fun _ => isLocal_make _ _ _ _
      | exact isLocal_unhandledForm

theorem isLocal_xmmRm (op : Op) (size rmSize : OpSize) :
    (xmmRm longMode p op size rmSize).IsLocal :=
  (isLocal_decodeModrmXmm longMode p rmSize).bind fun ⟨_, _⟩ => isLocal_make _ _ _ _

theorem isLocal_rmXmm (op : Op) (size : OpSize) : (rmXmm longMode p op size).IsLocal :=
  (isLocal_decodeModrmXmm longMode p size).bind fun ⟨_, _⟩ => isLocal_make _ _ _ _

theorem isLocal_xmmGpr (op : Op) (size rmSize : OpSize) :
    (xmmGpr longMode p op size rmSize).IsLocal :=
  (isLocal_decodeModrm longMode p rmSize).bind fun ⟨_, _⟩ => isLocal_make _ _ _ _

theorem isLocal_gprXmm (op : Op) (size : OpSize) : (gprXmm longMode p op size).IsLocal :=
  (isLocal_decodeModrm longMode p size).bind fun ⟨_, _⟩ => isLocal_make _ _ _ _

theorem isLocal_regXmm (op : Op) (intSize fpSize : OpSize) :
    (regXmm longMode p op intSize fpSize).IsLocal :=
  (isLocal_decodeModrmXmm longMode p fpSize).bind fun ⟨_, _⟩ =>
    (isLocal_regOperand _ _ _).bind fun _ => isLocal_make _ _ _ _

theorem isLocal_decodePackedShift (lane : OpSize) : (decodePackedShift p lane).IsLocal := by
  refine isLocal_readModRm.bind fun ⟨mod, sub, rm⟩ => ?_
  dsimp only
  split
  · exact isLocal_make _ _ _ _
  · refine isLocal_readU8.bind fun imm => ?_
    split <;> exact isLocal_make _ _ _ _

theorem isLocal_decodePmovmskb : (decodePmovmskb p).IsLocal := by
  refine isLocal_readModRm.bind fun ⟨mod, reg, rm⟩ => ?_
  dsimp only
  split
  · exact isLocal_make _ _ _ _
  · exact (isLocal_gpReg _ _).bind fun _ => isLocal_make _ _ _ _

theorem isLocal_decodePshufd : (decodePshufd longMode p).IsLocal :=
  (isLocal_decodeModrmXmm longMode p .b8).bind fun ⟨_, _⟩ =>
    isLocal_readU8.bind fun _ => isLocal_make _ _ _ _

theorem isLocal_decodeGroup8 (size : OpSize) : (decodeGroup8 longMode p size).IsLocal := by
  refine (isLocal_decodeModrm longMode p size).bind fun ⟨rm, sub⟩ => ?_
  refine isLocal_readI8.bind fun imm => ?_
  split <;> exact isLocal_make _ _ _ _

theorem isLocal_decodeNopRm : (decodeNopRm longMode p).IsLocal :=
  (isLocal_decodeModrm longMode p .b4).bind fun _ => isLocal_make _ _ _ _

theorem isLocal_decodeSet (cond : Cond) : (decodeSet longMode p cond).IsLocal :=
  (isLocal_decodeModrm longMode p .b1).bind fun ⟨_, _⟩ => isLocal_make _ _ _ _

theorem isLocal_decodeOsize {opcode : Nat} {m : DecodeM Form}
    (h : decodeOsize longMode p opcode = some m) : m.IsLocal := by
  unfold decodeOsize at h
  split at h
  any_goals obtain rfl := Option.some.inj h
  all_goals with_reducible first
    | exact isLocal_xmmRm _ _ _ _ _
    | exact isLocal_xmmGpr _ _ _ _ _
    | exact isLocal_gprXmm _ _ _ _
    | exact isLocal_decodePackedShift _ _
    | exact isLocal_decodePmovmskb _
    | exact isLocal_decodePshufd _ _
    | cases h

theorem isLocal_decodeOsizeOrRepe {opcode : Nat} {m : DecodeM Form}
    (h : decodeOsizeOrRepe longMode p opcode = some m) : m.IsLocal := by
  unfold decodeOsizeOrRepe at h
  split at h
  · obtain rfl := Option.some.inj h
    exact isLocal_xmmRm _ _ _ _ _
  · obtain rfl := Option.some.inj h
    exact isLocal_rmXmm _ _ _ _
  · split_ifs at h
    obtain rfl := Option.some.inj h
    exact isLocal_xmmRm _ _ _ _ _
  · cases h

theorem isLocal_decodeRep {opcode : Nat} {m : DecodeM Form}
    (h : decodeRep longMode p opcode = some m) : m.IsLocal := by
  unfold decodeRep at h
  dsimp only at h
  split at h
  any_goals obtain rfl := Option.some.inj h
  any_goals with_reducible first
    | exact isLocal_xmmRm _ _ _ _ _
    | exact isLocal_rmXmm _ _ _ _
    | exact isLocal_xmmGpr _ _ _ _ _
    | exact isLocal_regXmm _ _ _ _ _
    | cases h
  split_ifs at h
  all_goals
    obtain rfl := Option.some.inj h
    exact isLocal_xmmRm _ _ _ _ _

theorem isLocal_decodeNoRep {opcode : Nat} {m : DecodeM Form}
    (h : decodeNoRep longMode p opcode = some m) : m.IsLocal := by
  unfold decodeNoRep at h
  dsimp only at h
  split at h
  any_goals obtain rfl := Option.some.inj h
  any_goals with_reducible first
    | exact isLocal_xmmRm _ _ _ _ _
    | cases h
  split_ifs at h
  obtain rfl := Option.some.inj h
  exact isLocal_make _ _ _ _

theorem isLocal_decodePlain (opcode : Nat) : (decodePlain longMode p opcode).IsLocal := by
  unfold decodePlain
  refine .ite (isLocal_regRm _ _ _ _ _) ?_
  refine .ite (isLocal_immOnly _ _ _) ?_
  refine .ite (isLocal_decodeSet _ _ _) ?_
  refine .ite (isLocal_opcodeReg _ _ _ _) ?_
  · split
    all_goals with_reducible first
      | exact isLocal_make0 _
      | exact isLocal_rmReg _ _ _ _
      | exact isLocal_regRm _ _ _ _ _
      | exact isLocal_decodeNopRm _ _
      | exact isLocal_decodeGroup8 _ _ _
      | exact isLocal_unhandledForm

theorem isLocal_decodeSecondary : (decodeSecondary longMode p).IsLocal := by
  refine isLocal_readU8.bind fun b => ?_
  dsimp only
  split
  · rename_i m hm
    obtain ⟨⟨sel, row⟩, hrow, hsome⟩ := List.exists_of_findSome?_eq_some hm
    have hrow' : row = some m := by
      dsimp only at hsome
      split_ifs at hsome
      exact hsome
    simp only [List.mem_cons, List.not_mem_nil, or_false, Prod.mk.injEq] at hrow
    obtain ⟨-, rfl⟩ | ⟨-, rfl⟩ | ⟨-, rfl⟩ | ⟨-, rfl⟩ := hrow
    · exact isLocal_decodeOsize _ _ hrow'
    · exact isLocal_decodeOsizeOrRepe _ _ hrow'
    · exact isLocal_decodeRep _ _ hrow'
    · exact isLocal_decodeNoRep _ _ hrow'
  · exact isLocal_decodePlain _ _ _

end Tables

theorem isLocal_decodeOpcode (longMode : Bool) : (decodeOpcode longMode).IsLocal := by
  refine isLocal_readPrefixes_bind longMode _ (fun p b => ?_) _
  split
  · exact isLocal_decodeSecondary longMode p
  · exact isLocal_decodePrimary longMode p b.toNat

/-- The instruction at `rip` made of a form of `n` bytes. -/
def Form.toInst (f : Form) (n : Nat) (rip : BitVec 64) : Inst :=
  ⟨f.op, f.operand0, f.operand1, f.operand2, BitVec.ofNat 8 n, rip⟩

theorem decodeNext_eq_ok {longMode : Bool} {rip : BitVec 64} {bs rest : List Byte} {f : Form}
    (h : decodeOpcode longMode bs = .ok (f, rest)) :
    decodeNext longMode rip bs = .ok (f.toInst (bs.length - rest.length) rip, rest) := by
  unfold decodeNext
  rw [h]
  rfl

theorem decodeNext_eq_error {longMode : Bool} {rip : BitVec 64} {bs : List Byte}
    {x : Fault DecodeError} (h : decodeOpcode longMode bs = .error x) :
    decodeNext longMode rip bs = .error x := by
  unfold decodeNext
  rw [h]

/-- The length that `next` fills in is that of the bytes consumed. -/
theorem isLocal_decodeNext (longMode : Bool) (rip : BitVec 64) :
    (decodeNext longMode rip).IsLocal := by
  intro bs
  obtain ⟨used, rest, r, rfl, hr⟩ | hshort := isLocal_decodeOpcode longMode bs
  · refine .inl ⟨used, rest, r.map fun f => f.toInst used.length rip, rfl, fun rest => ?_,
      fun pre hp hne => decodeNext_eq_error (hr.runsShort pre hp hne)⟩
    cases r with
    | error x => exact decodeNext_eq_error (hr.result rest)
    | ok f =>
      rw [decodeNext_eq_ok (hr.result rest), List.length_append, Nat.add_sub_cancel]
      rfl
  · exact .inr fun pre hp => decodeNext_eq_error (hshort pre hp)

theorem decodeNext_nil (longMode : Bool) (rip : BitVec 64) :
    decodeNext longMode rip [] = .error truncated :=
  rfl

/-- Decoding is determined by the bytes it consumes, of which there is at least one, and truncation is
reported for every prefix of a truncated input. -/
theorem decodeNext_determined (longMode : Bool) (rip : BitVec 64) (s : List Byte) :
    (∀ inst rest, decodeNext longMode rip s = .ok (inst, rest) →
      1 ≤ s.length - rest.length ∧ s.length - rest.length ≤ s.length ∧
        ∀ t : List Byte,
          t.take (s.length - rest.length) = s.take (s.length - rest.length) →
            decodeNext longMode rip t = .ok (inst, t.drop (s.length - rest.length))) ∧
      (decodeNext longMode rip s = .error (.err .truncated) →
        ∀ pre, pre <+: s → decodeNext longMode rip pre = .error (.err .truncated)) := by
  refine ⟨fun inst rest h => ?_, fun h pre hp =>
    (isLocal_decodeNext longMode rip).short_of_short h hp⟩
  obtain ⟨used, rfl, hr⟩ := (isLocal_decodeNext longMode rip).reads h
  have hn : (used ++ rest).length - rest.length = used.length := by
    rw [List.length_append, Nat.add_sub_cancel]
  rw [hn]
  refine ⟨?_, ?_, fun t ht => ?_⟩
  · -- On no bytes at all the decoder runs short.
    refine List.length_pos_iff.mpr fun hnil => ?_
    subst hnil
    have hres := hr.result []
    rw [List.nil_append, decodeNext_nil] at hres
    cases hres
  · rw [List.length_append]
    exact Nat.le_add_right _ _
  · rw [List.take_left] at ht
    have hsplit : t = used ++ t.drop used.length := by
      conv_lhs => rw [← List.take_append_drop used.length t, ht]
    rw [hsplit, hr.result, List.drop_left]
    rfl

end Quantum.Jit
