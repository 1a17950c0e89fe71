import Quantum.Jit.Equiv.Meaning

/-!
# Lifted code does what the instruction means
-/

namespace Quantum.Jit

open A64
open EmitM

variable {p : Profile}

/-! ### The guest in a host state -/

def guestOf (s : State) : GuestMachine :=
  ⟨guest s, s.mem, segBase s⟩

@[simp]
theorem guestOf_writeX_hostReg (s : State) (r : GpReg) (v : BitVec 64) :
    guestOf (s.writeX (hostReg r) v) = (guestOf s).setReg r v := by
  simp [guestOf, GuestMachine.setReg, segBase_writeX_hostReg]

theorem segBase_writeX_16 (s : State) (v : BitVec 64) : segBase (s.writeX 16#5 v) = segBase s := by
  funext sg
  cases sg <;> simp [segBase, segReg]

@[simp]
theorem guestOf_writeX_16 (s : State) (v : BitVec 64) : guestOf (s.writeX 16#5 v) = guestOf s := by
  simp [guestOf, segBase_writeX_16]

@[simp]
theorem guestOf_writeX_17 (s : State) (v : BitVec 64) : guestOf (s.writeX 17#5 v) = guestOf s := by
  simp [guestOf, segBase_writeX_17]

@[simp] theorem guestOf_nzcv (s : State) (f : A64.Flags) : guestOf { s with nzcv := f } = guestOf s := rfl

/-- The context pointer and the stack pointer of the host. -/
def hostPointers (s : State) : BitVec 64 × BitVec 64 :=
  (s.x 28#5, s.x 31#5)

theorem hostPointers_writeX (s : State) {r : Reg} (hr : r ≠ 28#5) (v : BitVec 64) :
    hostPointers (s.writeX r v) = hostPointers s := by
  have h28 : (s.writeX r v).x 28#5 = s.x 28#5 := by
    rw [State.x_writeX, if_neg fun h => hr h.1.symm]
  -- a write to number 31 is one to the zero register
  have h31 : (s.writeX r v).x 31#5 = s.x 31#5 := by
    rw [State.x_writeX, if_neg fun h => h.2 h.1.symm]
  rw [hostPointers, h28, h31]
  rfl

@[simp]
theorem hostPointers_writeX_hostReg (s : State) (r : GpReg) (v : BitVec 64) :
    hostPointers (s.writeX (hostReg r) v) = hostPointers s :=
  hostPointers_writeX s (hostReg_ne_28 r) v

@[simp]
theorem hostPointers_writeX_16 (s : State) (v : BitVec 64) : hostPointers (s.writeX 16#5 v) = hostPointers s :=
  hostPointers_writeX s (by decide) v

@[simp]
theorem hostPointers_writeX_17 (s : State) (v : BitVec 64) : hostPointers (s.writeX 17#5 v) = hostPointers s :=
  hostPointers_writeX s (by decide) v

@[simp] theorem hostPointers_nzcv (s : State) (f : A64.Flags) : hostPointers { s with nzcv := f } = hostPointers s :=
  rfl

theorem address_guestOf (inst : Inst) (s : State) (op : Operand) :
    (guestOf s).address inst op = effectiveAddress inst s op := by
  cases op <;> rfl

/-! ### Values that agree at a size -/

theorem zeroExtended_eq_iff {size : OpSize} {v w : BitVec 64} :
    size.zeroExtended v = size.zeroExtended w ↔ v.setWidth (8 * size.bytes) = w.setWidth (8 * size.bytes) := by
  constructor
  · intro h
    have hback := congrArg (BitVec.setWidth (8 * size.bytes)) h
    have hle : 8 * size.bytes ≤ 64 := by
      cases size <;> decide
    rwa [OpSize.zeroExtended, OpSize.zeroExtended, BitVec.setWidth_setWidth_of_le _ hle, BitVec.setWidth_eq,
      BitVec.setWidth_setWidth_of_le _ hle, BitVec.setWidth_eq] at hback
  · exact congrArg (BitVec.setWidth 64)

/-- The low bits of a result depend on those of the operands. -/
def LowBits (f : BitVec 64 → BitVec 64 → BitVec 64) : Prop :=
  ∀ (size : OpSize) a a' b b', size.zeroExtended a = size.zeroExtended a' →
    size.zeroExtended b = size.zeroExtended b' → size.zeroExtended (f a b) = size.zeroExtended (f a' b')

theorem lowBits_of_setWidth {f : BitVec 64 → BitVec 64 → BitVec 64}
    (h : ∀ n ≤ 64, ∃ f' : BitVec n → BitVec n → BitVec n, ∀ a b,
      (f a b).setWidth n = f' (a.setWidth n) (b.setWidth n)) : LowBits f := by
  intro size a a' b b' ha hb
  have hle : 8 * size.bytes ≤ 64 := by
    cases size <;> decide
  obtain ⟨f', hf⟩ := h _ hle
  rw [zeroExtended_eq_iff] at ha hb ⊢
  rw [hf, hf, ha, hb]

theorem lowBits_add : LowBits (· + ·) :=
  lowBits_of_setWidth fun _ hn => ⟨(· + ·), fun a b => BitVec.setWidth_add a b hn⟩

theorem lowBits_mul : LowBits (· * ·) :=
  lowBits_of_setWidth fun _ hn => ⟨(· * ·), fun a b => BitVec.setWidth_mul a b hn⟩

theorem lowBits_and : LowBits (· &&& ·) :=
  lowBits_of_setWidth fun _ _ => ⟨(· &&& ·), fun _ _ => BitVec.setWidth_and⟩

theorem lowBits_or : LowBits (· ||| ·) :=
  lowBits_of_setWidth fun _ _ => ⟨(· ||| ·), fun _ _ => BitVec.setWidth_or⟩

theorem lowBits_xor : LowBits (· ^^^ ·) :=
  lowBits_of_setWidth fun _ _ => ⟨(· ^^^ ·), fun _ _ => BitVec.setWidth_xor⟩

theorem lowBits_sub : LowBits (· - ·) := by
  refine lowBits_of_setWidth fun n hn => ⟨(· - ·), fun a b => ?_⟩
  rw [BitVec.sub_eq_add_neg, BitVec.setWidth_add _ _ hn, BitVec.setWidth_neg_of_le hn, ← BitVec.sub_eq_add_neg]

theorem lowBits_not : LowBits fun a _ => ~~~a :=
  lowBits_of_setWidth fun _ hn => ⟨fun a _ => ~~~a, fun _ _ => BitVec.setWidth_not hn⟩

namespace LowBits

variable {f : BitVec 64 → BitVec 64 → BitVec 64} {c : BitVec 64}

/-- A fixed second operand. -/
theorem withRight (h : LowBits f) : LowBits fun a _ => f a c :=
  fun size a a' _ _ ha _ => h size a a' c c ha rfl

/-- A fixed first operand. -/
theorem withLeft (h : LowBits f) : LowBits fun a _ => f c a :=
  fun size a a' _ _ ha _ => h size c c a a' rfl ha

end LowBits

/-! ### Code that assigns -/

/-- The code writes a value to an operand, and keeps the rest of the guest and the host's pointers. -/
def Assigns (inst : Inst) (dst : Operand) (v : State → BitVec 64) : List (Option Insn) → Prop :=
  Does fun s s' => guestOf s' = (guestOf s).assign inst dst (v s) ∧ hostPointers s' = hostPointers s

section Assigns

variable {inst : Inst} {dst : Operand} {v w : State → BitVec 64} {is js : List (Option Insn)} {r : GpReg}
  {size : OpSize}

theorem OpSize.into_congr {a b : BitVec 64} (old : BitVec 64)
    (h : size.zeroExtended a = size.zeroExtended b) : size.into old a = size.into old b := by
  apply BitVec.eq_of_getLsbD_eq
  intro i hi
  have hbit := congrArg (fun x => x.getLsbD i) h
  simp only [OpSize.getLsbD_zeroExtended] at hbit
  rw [OpSize.getLsbD_into, OpSize.getLsbD_into]
  by_cases hlow : i < 8 * size.bytes
  · simpa [hlow] using hbit
  · rw [if_neg hlow, if_neg hlow]

theorem write_congr {m : ByteMem} {c a b : BitVec 64} (h : size.zeroExtended a = size.zeroExtended b) :
    m.write size.bytes c a = m.write size.bytes c b := by
  funext d
  unfold ByteMem.write
  split
  · rename_i hd
    apply BitVec.eq_of_getLsbD_eq
    intro i hi
    have hbit := congrArg (fun x => x.getLsbD (8 * (d - c).toNat + i)) h
    simp only [OpSize.getLsbD_zeroExtended] at hbit
    rw [BitVec.getLsbD_extractLsb', BitVec.getLsbD_extractLsb']
    rw [decide_eq_true (show 8 * (d - c).toNat + i < 8 * size.bytes by omega)] at hbit
    simpa [hi] using hbit
  · rfl

/-- Only the low bits of the operand's size count. -/
theorem GuestMachine.assign_congr (g : GuestMachine) {a b : BitVec 64}
    (h : dst.memSize.zeroExtended a = dst.memSize.zeroExtended b) :
    g.assign inst dst a = g.assign inst dst b := by
  cases dst with
  | reg r size => exact congrArg (g.setReg r) (OpSize.into_congr _ h)
  | mem m =>
    show ({ g with mem := _ } : GuestMachine) = { g with mem := _ }
    rw [write_congr h]
  | ripRel d size =>
    show ({ g with mem := _ } : GuestMachine) = { g with mem := _ }
    rw [write_congr h]
  | imm v size => rfl
  | xmmReg n size => rfl

theorem Assigns.congr (h : Assigns inst dst v is)
    (hvw : ∀ s, dst.memSize.zeroExtended (v s) = dst.memSize.zeroExtended (w s)) : Assigns inst dst w is :=
  h.mono fun s _ hs => ⟨hs.1.trans ((guestOf s).assign_congr (hvw s)), hs.2⟩

/-- Code that keeps the guest, before code that assigns. -/
theorem Assigns.after {f : State → State} (hf : ∀ env pc s, runSeq env pc is s = some (f s))
    (hguest : ∀ s, guestOf (f s) = guestOf s) (hptr : ∀ s, hostPointers (f s) = hostPointers s)
    (h : Assigns inst dst v js) : Assigns inst dst (fun s => v (f s)) (is ++ js) := by
  intro env pc s
  obtain ⟨s', hrun, hassign, hctx⟩ := h env (pc + is.length) (f s)
  refine ⟨s', ?_, ?_, hctx.trans (hptr s)⟩
  · rw [runSeq_append, hf, Option.bind_some, hrun]
  · rw [hassign, hguest]

theorem Sets.assigns (h : Sets (hostReg r) v is) (hv : ∀ s, v s = size.into (guest s r) (w s)) :
    Assigns inst (.reg r size) w is := by
  intro env pc s
  refine ⟨_, h env pc s, ?_, hostPointers_writeX_hostReg _ _ _⟩
  rw [guestOf_writeX_hostReg, hv]
  rfl

theorem SetsVia17.assigns (h : SetsVia17 (hostReg r) v is) (hv : ∀ s, v s = size.into (guest s r) (w s)) :
    Assigns inst (.reg r size) w is := by
  intro env pc s
  obtain ⟨t, ht⟩ := h env pc s
  refine ⟨_, ht, ?_, (hostPointers_writeX_hostReg _ _ _).trans (hostPointers_writeX_17 s t)⟩
  rw [guestOf_writeX_hostReg, guestOf_writeX_17, hv]
  rfl

/-- Combining into a register. -/
theorem Combines.assigns {alu : Alu} {ra rb : Reg} (hsize : size.IsWide)
    (h : Combines alu size (hostReg r) ra rb is) :
    Assigns inst (.reg r size) (fun s => alu.result s.nzcv (s.x ra) (s.x rb)) is := by
  intro env pc s
  refine ⟨_, h env pc s, ?_, ?_⟩
  · rw [Alu.write, guestOf_nzcv, guestOf_writeX_hostReg, maskVal_eq_into hsize (guest s r)]
    rfl
  · exact hostPointers_writeX_hostReg s r _

theorem zeroExtended_maskVal (size : OpSize) (v : BitVec 64) :
    size.zeroExtended (maskVal size v) = size.zeroExtended v := by
  by_cases hb4 : size = .b4
  · subst hb4
    rw [maskVal_b4, OpSize.zeroExtended_idem]
  · rw [maskVal, if_neg hb4]

theorem assign_of_isMem (hmem : dst.isMem = true) (g : GuestMachine) (v : BitVec 64) :
    g.assign inst dst v = { g with mem := g.mem.write dst.memSize.bytes (g.address inst dst) v } := by
  cases dst with
  | mem m => rfl
  | ripRel d size => rfl
  | _ => cases hmem

/-- The store of a register at the address in `X16`. -/
theorem does_storeInsn {rt : Reg} (hrt : rt ≠ 31#5) (hfit : Fits dst.memSize.bytes dst.leftover) :
    Does (fun s s' => s' = { s with
        mem := s.mem.write dst.memSize.bytes (s.x 16#5 + dst.leftover.setWidth 64) (s.x rt) })
      [some (storeInsn dst.memSize rt 16 dst.leftover)] := by
  intro env pc s
  rw [runSeq_storeInsn hfit, runSeq_nil, s.readX_of_ne _ hrt]
  exact ⟨_, rfl, rfl⟩

/-- A store to a memory operand, behind code that leaves its address in `X16`. -/
theorem assigns_store {rt : Reg} (hrt : rt ≠ 31#5) (hmem : dst.isMem = true)
    (hfit : Fits dst.memSize.bytes dst.leftover)
    (h : Does (fun s s' => s'.x 16#5 = effectiveAddress inst s dst - dst.leftover.setWidth 64 ∧
      s'.x rt = v s ∧ guestOf s' = guestOf s ∧ hostPointers s' = hostPointers s) is) :
    Assigns inst dst v (is ++ [some (storeInsn dst.memSize rt 16 dst.leftover)]) := by
  refine (h.append (does_storeInsn hrt hfit)).mono ?_
  rintro s _ ⟨t, ⟨haddr, hv, hguest, hctx⟩, rfl⟩
  refine ⟨?_, hctx⟩
  rw [assign_of_isMem hmem, ← hguest, address_guestOf, haddr, hv, BitVec.sub_add_cancel]
  have hsame : effectiveAddress inst s dst = effectiveAddress inst t dst := by
    rw [← address_guestOf, ← address_guestOf, hguest]
  rw [hsame]
  rfl

/-! ### Code that does what the instruction means -/

def Simulates (inst : Inst) : List (Option Insn) → Prop :=
  Does fun s s' => inst.exec (guestOf s) = some (guestOf s') ∧ hostPointers s' = hostPointers s

theorem Assigns.simulates (h : Assigns inst dst v is)
    (hexec : ∀ s, inst.exec (guestOf s) = some ((guestOf s).assign inst dst (v s))) : Simulates inst is :=
  h.mono fun s _ hs => ⟨(hexec s).trans (congrArg some hs.1.symm), hs.2⟩

end Assigns

end Quantum.Jit
