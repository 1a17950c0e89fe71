import Quantum.Jit.Equiv.FlagsKept

/-!
# What guest code touches

An instruction reads and writes no memory but what it touches (`Inst.touches`).  So it does the same to a guest
in whose memory something else stands where it does not touch (`exec_withMem`, `goOn_withMem`).  The emulator keeps its
own data there: the context and the host stack.
-/

namespace Quantum.Jit

/-! ### Touched memory -/

def Inst.HasOperand (inst : Inst) (op : Operand) : Prop :=
  inst.operand0 = some op ∨ inst.operand1 = some op ∨ inst.operand2 = some op

/-- The word of the stack that an instruction reads or writes. -/
def Inst.stackSlot (inst : Inst) (g : GuestMachine) : Option (BitVec 64) :=
  match inst.op with
  | .push | .call => some (g.regs .rsp - 8#64)
  | .pop | .ret | .retImm => some (g.regs .rsp)
  | .leave => some (g.regs .rbp)
  | _ => none

/-- The bytes of an operand in memory. -/
def Inst.Covers (inst : Inst) (g : GuestMachine) (op : Operand) (b : BitVec 64) : Prop :=
  op.isMem = true ∧ InRange (g.address inst op) op.memSize.bytes b

/-- The bytes of memory that an instruction may read or write.  `LEA` has an address only. -/
def Inst.touches (inst : Inst) (g : GuestMachine) (b : BitVec 64) : Prop :=
  (inst.op ≠ .lea ∧ ∃ op, inst.HasOperand op ∧ inst.Covers g op b) ∨ ∃ a ∈ inst.stackSlot g, InRange a 8 b

/-! ### Other memory under the guest -/

open Classical in
/-- `m'` with the bytes of `m` in `A`. -/
noncomputable def overlay (A : BitVec 64 → Prop) (m m' : ByteMem) : ByteMem :=
  fun b => if A b then m b else m' b

theorem overlay_of_mem {A : BitVec 64 → Prop} {m m' : ByteMem} {b : BitVec 64} (hb : A b) : overlay A m m' b = m b :=
  if_pos hb

theorem overlay_of_not_mem {A : BitVec 64 → Prop} {m m' : ByteMem} {b : BitVec 64} (hb : ¬ A b) :
    overlay A m m' b = m' b :=
  if_neg hb

namespace GuestMachine

/-- The guest with `m` in place of its memory in `A`. -/
noncomputable def withMem (A : BitVec 64 → Prop) (m : ByteMem) (g : GuestMachine) : GuestMachine :=
  { g with mem := overlay A m g.mem }

variable {A : BitVec 64 → Prop} {m : ByteMem} {g : GuestMachine} {inst : Inst} {op : Operand}

theorem read_withMem {a : BitVec 64} {n : Nat} (h : ∀ b, InRange a n b → ¬ A b) (w : Nat) :
    (g.withMem A m).mem.read w n a = g.mem.read w n a :=
  ByteMem.read_congr w fun b hb => overlay_of_not_mem (h b hb)

theorem write_withMem {a : BitVec 64} {n : Nat} (h : ∀ b, InRange a n b → ¬ A b) (v : BitVec 64) :
    { g.withMem A m with mem := (g.withMem A m).mem.write n a v }
      = { g with mem := g.mem.write n a v }.withMem A m := by
  have hmem : (overlay A m g.mem).write n a v = overlay A m (g.mem.write n a v) := by
    funext b
    by_cases hb : InRange a n b
    · rw [ByteMem.write_of_inRange hb, overlay_of_not_mem (h b hb), ByteMem.write_of_inRange hb]
    · rw [ByteMem.write_of_not_inRange hb]
      by_cases hA : A b
      · rw [overlay_of_mem hA, overlay_of_mem hA]
      · rw [overlay_of_not_mem hA, overlay_of_not_mem hA, ByteMem.write_of_not_inRange hb]
  exact congrArg (fun m' => { g with mem := m' }) hmem

theorem value_withMem (hop : ∀ n size, op ≠ .xmmReg n size) (h : ∀ b, inst.Covers g op b → ¬ A b) :
    (g.withMem A m).value inst op = g.value inst op := by
  cases op with
  | mem o => exact read_withMem (fun b hb => h b ⟨rfl, hb⟩) 64
  | ripRel d s => exact read_withMem (fun b hb => h b ⟨rfl, hb⟩) 64
  | reg r size => rfl
  | imm v size => rfl
  | xmmReg n size => exact absurd rfl (hop n size)

theorem assign_withMem (h : ∀ b, inst.Covers g op b → ¬ A b) (v : BitVec 64) :
    (g.withMem A m).assign inst op v = (g.assign inst op v).withMem A m := by
  cases op with
  | mem o => exact write_withMem (fun b hb => h b ⟨rfl, hb⟩) v
  | ripRel d s => exact write_withMem (fun b hb => h b ⟨rfl, hb⟩) v
  | _ => rfl

theorem exchange_withMem {r : GpReg} {size : OpSize} (hop : ∀ n size, op ≠ .xmmReg n size)
    (h : ∀ b, inst.Covers g op b → ¬ A b) :
    (g.withMem A m).exchange inst r size op = (g.exchange inst r size op).withMem A m := by
  have hreg : (g.withMem A m).value inst (.reg r size) = g.value inst (.reg r size) := rfl
  rw [exchange, exchange, hreg, value_withMem hop h, assign_withMem h]
  rfl

theorem push_withMem (h : ∀ b, InRange (g.regs .rsp - 8#64) 8 b → ¬ A b) (v : BitVec 64) :
    (g.withMem A m).push v = (g.push v).withMem A m :=
  congrArg (fun g' : GuestMachine => g'.setReg .rsp (g.regs .rsp - 8#64)) (write_withMem h v)

theorem pop_withMem (h : ∀ b, InRange (g.regs .rsp) 8 b → ¬ A b) :
    (g.withMem A m).pop = (g.pop.1, g.pop.2.withMem A m) := by
  have hword : (g.withMem A m).mem.read 64 8 (g.regs .rsp) = g.mem.read 64 8 (g.regs .rsp) := read_withMem h 64
  exact congrArg (·, g.pop.2.withMem A m) hword

end GuestMachine

section Over

open GuestMachine

variable {A : BitVec 64 → Prop} {m : ByteMem} {g : GuestMachine} {inst : Inst}

theorem hasOperand_second {k : FlagOp} {op : Operand} (h : k.second inst = some op) : inst.HasOperand op := by
  cases k with
  | inc | dec | neg => exact .inl h
  | _ => exact .inr (.inl h)

theorem covers_of_touches (hop : inst.op ≠ .lea) {op : Operand} (hoper : inst.HasOperand op)
    (h : ∀ b, inst.touches g b → ¬ A b) : ∀ b, inst.Covers g op b → ¬ A b :=
  fun b hb => h b (.inl ⟨hop, op, hoper, hb⟩)

theorem slot_of_touches {a : BitVec 64} (hslot : inst.stackSlot g = some a) (h : ∀ b, inst.touches g b → ¬ A b) :
    ∀ b, InRange a 8 b → ¬ A b :=
  fun b hb => h b (.inr ⟨a, hslot, hb⟩)

/-- A register covers no memory. -/
theorem covers_reg {r : GpReg} {size : OpSize} : ∀ b, inst.Covers g (.reg r size) b → ¬ A b :=
  fun _ h => absurd h.1 Bool.false_ne_true

/-- What an instruction does, over other memory. -/
def Commutes (inst : Inst) (A : BitVec 64 → Prop) (m : ByteMem) (g : GuestMachine) : Prop :=
  inst.exec (g.withMem A m) = (inst.exec g).map (·.withMem A m)

theorem commutes_assign {dst : Operand} {v : GuestMachine → BitVec 64}
    (hexec : ∀ g, inst.exec g = some (g.assign inst dst (v g))) (hv : v (g.withMem A m) = v g)
    (hdst : ∀ b, inst.Covers g dst b → ¬ A b) : Commutes inst A m g := by
  rw [Commutes, hexec, hexec, hv, assign_withMem hdst]
  rfl

theorem commutes_binary {dst src : Operand} (hop : inst.op.IsBinary) (h0 : inst.operand0 = some dst)
    (h1 : inst.operand1 = some src) (hpair : PlainPair dst src) (h : ∀ b, inst.touches g b → ¬ A b) :
    Commutes inst A m g := by
  have hne : inst.op ≠ .lea := by
    rcases hop with hop | hop | hop | hop | hop <;> rw [hop] <;> decide
  obtain ⟨f, hf⟩ : ∃ f : BitVec 64 → BitVec 64 → BitVec 64, ∀ a b, inst.op.combine a b = some (f a b) := by
    rcases hop with hop | hop | hop | hop | hop <;> rw [hop] <;> exact ⟨_, fun _ _ => rfl⟩
  have hdst := covers_of_touches hne (.inl h0) h
  have hsrc := covers_of_touches hne (.inr (.inl h1)) h
  refine commutes_assign (v := fun g => f (g.value inst dst) (g.value inst src))
    (fun g => exec_binary g hop h0 h1 hf) ?_ hdst
  rw [value_withMem hpair.dest.ne_xmm hdst, value_withMem hpair.source.ne_xmm hsrc]

theorem commutes_unary {dst : Operand} (hop : inst.op.IsUnary) (h0 : inst.operand0 = some dst)
    (h1 : inst.operand1 = none) (hdest : dst.IsDest) (h : ∀ b, inst.touches g b → ¬ A b) :
    Commutes inst A m g := by
  have hne : inst.op ≠ .lea := by
    rcases hop with hop | hop | hop | hop <;> rw [hop] <;> decide
  obtain ⟨f, hf⟩ : ∃ f : BitVec 64 → BitVec 64, ∀ a, inst.op.change a = some (f a) := by
    rcases hop with hop | hop | hop | hop <;> rw [hop] <;> exact ⟨_, fun _ => rfl⟩
  have hdst := covers_of_touches hne (.inl h0) h
  refine commutes_assign (v := fun g => f (g.value inst dst)) (fun g => exec_unary g hop h0 h1 hf) ?_ hdst
  rw [value_withMem hdest.ne_xmm hdst]

/-- A plain instruction does the same over other memory, where it does not touch it. -/
theorem exec_withMem (hplain : inst.Plain) (h : ∀ b, inst.touches g b → ¬ A b) :
    inst.exec (g.withMem A m) = (inst.exec g).map (·.withMem A m) := by
  have hne : ∀ {op : Op}, inst.op = op → op ≠ .lea → inst.op ≠ .lea := by
    rintro _ rfl hne
    exact hne
  cases hplain with
  | nop hop => rw [exec_nop _ hop, exec_nop _ hop, Option.map_some]
  | compare hop h0 h1 hpair => rw [exec_flags _ hop h0 h1, exec_flags _ hop h0 h1, Option.map_some]
  | cqo hop =>
    rw [exec_cqo _ hop, exec_cqo _ hop]
    rfl
  | leave hop =>
    have hslot := slot_of_touches (a := g.regs .rbp) (by rw [Inst.stackSlot, hop]) h
    have hpop := @pop_withMem A m (g.setReg .rsp (g.regs .rbp)) (by simpa using hslot)
    have hsp : (g.withMem A m).setReg .rsp ((g.withMem A m).regs .rbp)
        = (g.setReg .rsp (g.regs .rbp)).withMem A m := rfl
    rw [exec_leave _ hop, exec_leave _ hop, hsp, hpop]
    rfl
  | @push src hop h0 hsrc =>
    have hslot := slot_of_touches (a := g.regs .rsp - 8#64) (by rw [Inst.stackSlot, hop]) h
    have hvalue : (g.withMem A m).value inst src = g.value inst src := by
      rcases hsrc with ⟨r, rfl, -⟩ | ⟨v, size, rfl⟩ <;> rfl
    rw [exec_push _ hop h0, exec_push _ hop h0, hvalue, push_withMem hslot, Option.map_some]
  | pop hop h0 hr =>
    have hslot := slot_of_touches (a := g.regs .rsp) (by rw [Inst.stackSlot, hop]) h
    rw [exec_pop _ hop h0, exec_pop _ hop h0, pop_withMem hslot]
    rfl
  | mov hop h0 h1 hpair =>
    have hdst := covers_of_touches (hne hop (by decide)) (.inl h0) h
    have hsrc := covers_of_touches (hne hop (by decide)) (.inr (.inl h1)) h
    exact commutes_assign (fun g => exec_mov g hop h0 h1) (value_withMem hpair.source.ne_xmm hsrc) hdst
  | extend hop h0 h1 hok hsrc =>
    have hlea : inst.op ≠ .lea := by
      intro hlea
      rw [Inst.extendKind, hlea] at hop
      cases hop
    have hcov := covers_of_touches hlea (.inr (.inl h1)) h
    refine commutes_assign (fun g => exec_extend g hop h0 h1) ?_ covers_reg
    rw [value_withMem hsrc.ne_xmm hcov]
  | lea hop h0 h1 hsize hmem hok => exact commutes_assign (fun g => exec_lea g hop h0 h1) rfl covers_reg
  | xchg hop h0 h1 =>
    rw [exec_xchg _ hop h0 h1 (.inl ⟨rfl, rfl⟩), exec_xchg _ hop h0 h1 (.inl ⟨rfl, rfl⟩)]
    rfl
  | @xchgMem r a b o hop h0 h1 hops hmem hsize hfit =>
    have hform : a = .reg r o.memSize ∧ b = o ∨ a = o ∧ b = .reg r o.memSize ∧ o.isMem = true :=
      hops.imp_right fun h => ⟨h.1, h.2, hmem⟩
    have hoper : inst.HasOperand o := by
      rcases hops with ⟨-, rfl⟩ | ⟨rfl, -⟩
      · exact .inr (.inl h1)
      · exact .inl h0
    have hcov := covers_of_touches (hne hop (by decide)) hoper h
    rw [exec_xchg _ hop h0 h1 hform, exec_xchg _ hop h0 h1 hform, exchange_withMem (ne_xmm_of_isMem hmem) hcov,
      Option.map_some]
  | binary hop h0 h1 hpair himm => exact commutes_binary hop h0 h1 hpair.toPlainPair h
  | unary hop h0 h1 hdst => exact commutes_unary hop h0 h1 hdst h
  | @imul r size src hop h0 h1 hpair hfactor =>
    have hcov := covers_of_touches (hne hop (by decide)) (.inr (.inl h1)) h
    have hvalue : (g.withMem A m).value inst (inst.operand2.getD (.reg r size))
        = g.value inst (inst.operand2.getD (.reg r size)) := by
      cases h2 : inst.operand2 with
      | none => rfl
      | some op =>
        obtain ⟨v, sz, rfl⟩ := hfactor op h2
        rfl
    refine commutes_assign (fun g => exec_imul g hop h0 h1) ?_ covers_reg
    rw [value_withMem hpair.source.ne_xmm hcov, hvalue]
  | shift hop h0 h1 hok => exact commutes_assign (fun g => exec_shift g hop h0 h1) rfl covers_reg

theorem wide_withMem {op : Operand} (hop : ∀ n size, op ≠ .xmmReg n size) (h : ∀ b, inst.Covers g op b → ¬ A b) :
    (g.withMem A m).wide inst op = g.wide inst op := by
  cases op with
  | reg r size => rfl
  | _ => exact value_withMem (m := m) hop h

/-- The flags are of operands. -/
theorem flagsAfter_withMem (hplain : inst.Plain) (h : ∀ b, inst.touches g b → ¬ A b) (fl : Option FlagSource) :
    inst.flagsAfter (g.withMem A m) fl = inst.flagsAfter g fl := by
  cases hk : inst.op.flagOp with
  | none =>
    unfold Inst.flagsAfter
    rw [hk]
  | some k =>
    have hne : inst.op ≠ .lea := by
      intro hlea
      rw [hlea] at hk
      cases hk
    obtain ⟨oa, ob, h0, h1, ha, hb, -⟩ := hplain.followed hk
    have hcov := covers_of_touches hne (.inl h0) h
    have hcov' := covers_of_touches hne (hasOperand_second h1) h
    rw [flagsAfter_follows hk h0 h1, flagsAfter_follows hk h0 h1, wide_withMem ha.ne_xmm hcov,
      wide_withMem hb.ne_xmm hcov']

/-- And so does what comes behind it. -/
theorem goOn_withMem (hexit : inst.PlainExit) (h : ∀ b, inst.touches g b → ¬ A b) (fl : Option FlagSource) :
    inst.goOn fl (g.withMem A m) = (inst.goOn fl g).map (Prod.map id (·.withMem A m)) := by
  cases hexit with
  | jmp hop h0 =>
    rw [goOn_jmp _ _ hop h0, goOn_jmp _ _ hop h0]
    rfl
  | @jcc cc rel size hop h0 =>
    unfold Inst.goOn
    rw [hop, h0]
    dsimp only
    cases fl.bind fun f => f.answer cc <;> rfl
  | call hop h0 =>
    have hslot := slot_of_touches (a := g.regs .rsp - 8#64) (by rw [Inst.stackSlot, hop]) h
    rw [goOn_call _ _ hop h0, goOn_call _ _ hop h0, push_withMem hslot]
    rfl
  | jmpReg hop h0 =>
    rw [goOn_jmpIndirect _ _ hop h0, goOn_jmpIndirect _ _ hop h0]
    rfl
  | jmpMem hop h0 hmem hsize hfit =>
    have hcov := covers_of_touches (by rw [hop]; decide) (.inl h0) h
    rw [goOn_jmpIndirect _ _ hop h0, goOn_jmpIndirect _ _ hop h0, value_withMem (ne_xmm_of_isMem hmem) hcov]
    rfl
  | ret hop =>
    have hslot := slot_of_touches (a := g.regs .rsp) (by rw [Inst.stackSlot, hop]) h
    rw [goOn_ret _ _ hop, goOn_ret _ _ hop, pop_withMem hslot]
    rfl
  | retImm hop h0 hn =>
    have hslot := slot_of_touches (a := g.regs .rsp) (by rw [Inst.stackSlot, hop]) h
    rw [goOn_retImm _ _ hop h0, goOn_retImm _ _ hop h0, pop_withMem hslot]
    rfl

/-! ### What stays -/

theorem seg_assign (g : GuestMachine) (op : Operand) (v : BitVec 64) : (g.assign inst op v).seg = g.seg := by
  cases op <;> rfl

/-- No instruction changes a segment base. -/
theorem seg_exec {g' : GuestMachine} (hexec : inst.exec g = some g') : g'.seg = g.seg := by
  unfold Inst.exec at hexec
  split at hexec
  case h_11 | h_12 =>
    cases hexec
    exact (seg_assign _ _ _).trans (seg_assign _ _ _)
  case h_16 =>
    obtain ⟨v, -, rfl⟩ := Option.map_eq_some_iff.mp hexec
    exact seg_assign _ _ _
  case h_17 =>
    split at hexec
    · cases hexec
      exact seg_assign _ _ _
    · obtain ⟨v, -, rfl⟩ := Option.map_eq_some_iff.mp hexec
      exact seg_assign _ _ _
  case h_18 => cases hexec
  all_goals
    cases hexec
    first | rfl | exact seg_assign _ _ _

theorem seg_goOn {fl : Option FlagSource} {next : BitVec 64} {g' : GuestMachine}
    (hgo : inst.goOn fl g = some (next, g')) : g'.seg = g.seg := by
  unfold Inst.goOn at hgo
  split at hgo
  case h_2 =>
    obtain ⟨taken, -, heq⟩ := Option.map_eq_some_iff.mp hgo
    cases heq
    rfl
  all_goals
    cases hgo
    try rfl

end Over

end Quantum.Jit
