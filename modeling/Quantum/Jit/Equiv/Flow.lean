import Quantum.A64.Equiv.Footprint
import Quantum.Jit.Equiv.Emit

/-!
# What the emitted code may touch

An annotation (`Ann`) says, at a point of the code of a guest instruction, which registers and flags
have values that are determined by the guest's state, and what has been pushed on the host stack.
`transfer` follows one instruction.  It also checks that the instruction keeps the context pointer
and the host frame (`Ann.safe`), and that everything it uses is determined (`Ann.exact`).

Two facts about execution follow from a safe annotation:

* `Inv.step`: the context pointer, the stack pointer and the saved host frame stay as they are;
* `Agree.step`: from states that agree on what is determined, exact code goes to such states.
-/

namespace Quantum.Jit

open A64

/-! ### Annotations -/

/-- The registers that carry the guest's state from one instruction to the next: the guest registers,
the segment bases and the context pointer.  Number 31 stands for zero. -/
def isShared (r : Reg) : Bool :=
  (r < 16#5 && r != 4#5) || r == 19#5 || r == 24#5 || r == 25#5 || r == 28#5 || r == 31#5

/-- The same registers as a list. -/
def sharedRegs : List Reg :=
  [0, 1, 2, 3, 5, 6, 7, 8, 9, 10, 11, 12, 13, 14, 15, 19, 24, 25, 28, 31]

theorem isShared_eq : ∀ r, isShared r = sharedRegs.contains r := by
  decide

@[simp] theorem isShared_hostReg (g : GpReg) : isShared (hostReg g) = true := by cases g <;> rfl
@[simp] theorem isShared_segReg (sg : Seg) : isShared (segReg sg) = true := by cases sg <;> rfl

/-- What is known at a point of the code. -/
structure Ann where
  /-- The general and vector registers whose value is determined. -/
  x : Reg → Bool
  v : Reg → Bool
  /-- Are the flags determined? -/
  nzcv : Bool
  /-- The pairs on the host stack, and which of their words are determined. -/
  stack : List (Bool × Bool)
  /-- Has only determined data been used so far? -/
  exact : Bool
  /-- Are the context pointer and the host frame kept? -/
  safe : Bool

namespace Ann

/-- The annotation at the start of a guest instruction. -/
def start (nzcv : Bool) : Ann :=
  { x := isShared, v := fun _ => false, nzcv := nzcv, stack := [], exact := true, safe := true }

/-- After an instruction without access to memory. -/
def plain (k : Ann) (i : Insn) : Ann :=
  { k with
    x := learn k.x i.writesX
    v := learn k.v i.writesV
    nzcv := i.writesNzcv || k.nzcv
    exact := k.exact && i.readsX.all k.x && i.readsV.all k.v && (!i.readsNzcv || k.nzcv)
    safe := k.safe && !i.usesSp && i.writesX != some 28 }

/-- The part of the guest context that the code of an instruction may use: the XMM registers. -/
def inWindow (offset n : Nat) : Bool :=
  decide (160 ≤ offset) && decide (offset + n ≤ 416)

/-- After a load or store of `n` bytes at an unsigned offset. -/
def accessBytes (k : Ann) (n : Nat) (v store : Bool) (imm12 : BitVec 12) (rn rt : Reg) : Ann :=
  { k with
    x := if store || v then k.x else learn k.x (some rt)
    v := if store || !v then k.v else learn k.v (some rt)
    exact := k.exact && k.x rn && (!store || if v then k.v rt else k.x rt)
    safe := k.safe && rn != 31 && (rn != 28 || inWindow (imm12.toNat * n) n)
      && (store || v || rt != 28) }

/-- After a load or store; one that is not allocated does not get here. -/
def access (k : Ann) (size : BitVec 2) (v : Bool) (opc : BitVec 2) (imm12 : BitVec 12)
    (rn rt : Reg) : Ann :=
  match ldstBytes size v opc with
  | none => k
  | some n => k.accessBytes n v (ldstIsStore v opc) imm12 rn rt

/-- After a push of two registers. -/
def push (k : Ann) (rt rt2 : Reg) : Ann :=
  { k with
    stack := (k.x rt, k.x rt2) :: k.stack
    safe := k.safe && decide (k.stack.length < 5) }

/-- After a pop into two registers. -/
def pop (k : Ann) (rt rt2 : Reg) : Ann :=
  match k.stack with
  | [] => { k with safe := false }
  | (a, b) :: st =>
    { k with
      x := fun r => r == 31 || if r = rt2 then b else if r = rt then a else k.x r
      stack := st
      safe := k.safe && rt != 28 && rt2 != 28 }

/-- After a host function has returned. -/
def call (k : Ann) (rn : Reg) : Ann :=
  { k with
    x := isShared
    v := fun _ => false
    nzcv := false
    exact := k.exact && k.x rn && sharedRegs.all k.x }

end Ann

/-- The annotation after an instruction.  Branches have no place in straight code. -/
def transfer (k : Ann) : Option Insn → Ann
  | none => k
  | some (.ldst size v opc imm12 rn rt) => k.access size v opc imm12 rn rt
  | some (.ldstPair load mode imm7 rt2 rn rt) =>
    if .ldstPair load mode imm7 rt2 rn rt = pushInsn rt rt2 then k.push rt rt2
    else if .ldstPair load mode imm7 rt2 rn rt = popInsn rt rt2 then k.pop rt rt2
    else { k with safe := false }
  | some (.blr rn) => k.call rn
  | some (.simdScalar w) => { k with v := learn k.v (some (Word.rd w)), exact := false }
  | some (.brk _) => k
  | some i => if i.isLinear then k.plain i else { k with safe := false }

theorem transfer_ldstPair (k : Ann) (load : Bool) (mode : PairMode) (imm7 : BitVec 7)
    (rt2 rn rt : Reg) : transfer k (some (.ldstPair load mode imm7 rt2 rn rt))
      = if .ldstPair load mode imm7 rt2 rn rt = pushInsn rt rt2 then k.push rt rt2
        else if .ldstPair load mode imm7 rt2 rn rt = popInsn rt rt2 then k.pop rt rt2
        else { k with safe := false } := rfl

@[simp]
theorem transfer_pushInsn (k : Ann) (rt rt2 : Reg) :
    transfer k (some (pushInsn rt rt2)) = k.push rt rt2 := by
  unfold pushInsn
  rw [transfer_ldstPair, pushInsn, if_pos rfl]

@[simp]
theorem transfer_popInsn (k : Ann) (rt rt2 : Reg) :
    transfer k (some (popInsn rt rt2)) = k.pop rt rt2 := by
  unfold popInsn
  rw [transfer_ldstPair, pushInsn, popInsn, if_neg (by simp), if_pos rfl]

/-- The annotation after straight code. -/
def flow (k : Ann) (is : List (Option Insn)) : Ann :=
  is.foldl transfer k

@[simp] theorem flow_nil (k : Ann) : flow k [] = k := rfl

@[simp]
theorem flow_cons (k : Ann) (o : Option Insn) (is : List (Option Insn)) :
    flow k (o :: is) = flow (transfer k o) is := rfl

/-! ### Weakening -/

/-- `k` claims no more than `k'`. -/
structure Ann.Weaker (k k' : Ann) : Prop where
  x : ∀ r, k.x r = true → k'.x r = true
  v : ∀ r, k.v r = true → k'.v r = true
  nzcv : k.nzcv = true → k'.nzcv = true
  stack : k.stack = k'.stack
  exact : k.exact = true → k'.exact = true
  safe : k'.safe = true

theorem Ann.Weaker.refl {k : Ann} (h : k.safe = true) : k.Weaker k :=
  ⟨fun _ h => h, fun _ h => h, fun h => h, rfl, fun h => h, h⟩

/-! ### The host frame -/

/-- Where the guest context and the host frame of a block are: the frame is the 48 bytes from `sp` up,
with the contents `frame`. -/
structure Layout where
  ctx : BitVec 64
  sp : BitVec 64
  frame : ByteMem

/-- The context is not where the block's frame is or where its code pushes. -/
def Layout.Apart (L : Layout) : Prop :=
  Disjoint64 L.ctx 416 (L.sp - 80#64) 128

/-- The bytes that an instruction stores through an address of the guest. -/
def guestStores (i : Insn) (s : State) (b : BitVec 64) : Prop :=
  match i with
  | .ldst size v opc imm12 rn _ => rn ≠ 28#5 ∧ rn ≠ 31#5 ∧ ldstIsStore v opc = true ∧
    ∃ n, ldstBytes size v opc = some n ∧ InRange (ldstAddr s n imm12 rn) n b
  | _ => False

/-- The context pointer, the stack pointer and the saved host registers are in place. -/
structure Inv (L : Layout) (k : Ann) (s : State) : Prop where
  ctx : s.x 28#5 = L.ctx
  sp : s.x 31#5 = L.sp - BitVec.ofNat 64 (16 * k.stack.length)
  depth : k.stack.length ≤ 5
  frame : ∀ b, InRange L.sp 48 b → s.mem b = L.frame b

namespace Inv

variable {L : Layout} {k : Ann} {s s' : State} {env : Env} {pc : Nat}

/-- Less knowledge. -/
theorem weaken {k' : Ann} (h : Inv L k' s) (hw : k.Weaker k') : Inv L k s := by
  have hst := hw.stack
  exact ⟨h.ctx, by rw [hst]; exact h.sp, by rw [hst]; exact h.depth, h.frame⟩

/-- A change of registers and memory that keeps what matters. -/
theorem of_frame {k' : Ann} (h : Inv L k s) (hst : k'.stack = k.stack) (h28 : s'.x 28#5 = s.x 28#5)
    (h31 : s'.x 31#5 = s.x 31#5) (hm : ∀ b, InRange L.sp 48 b → s'.mem b = s.mem b) :
    Inv L k' s' := by
  refine ⟨h28.trans h.ctx, ?_, by rw [hst]; exact h.depth, fun b hb => ?_⟩
  · rw [h31, hst]
    exact h.sp
  · rw [hm b hb]
    exact h.frame b hb

/-- An instruction without access to memory. -/
theorem plain {i : Insn} (h : Inv L k s) (hi : i.isPlain = true) (hk : (k.plain i).safe = true)
    (hex : execData env i s = some s') : Inv L (k.plain i) s' := by
  simp only [Ann.plain, Bool.and_eq_true, Bool.not_eq_true', bne_iff_ne, ne_eq] at hk
  obtain ⟨hm, hx⟩ := execData_frame hi hk.1.2 hex
  exact h.of_frame rfl (hx _ (.inl hk.2)) (hx _ (.inr rfl)) fun b _ => by rw [hm]

/-- A store of `n` bytes in the window of the context does not reach the frame. -/
theorem window_apart (hL : L.Apart) {offset n : Nat} (hw : Ann.inWindow offset n = true)
    {b : BitVec 64} (hb : InRange (L.ctx + BitVec.ofNat 64 offset) n b) :
    InRange L.ctx 416 b ∧ ¬ InRange (L.sp - 80#64) 128 b := by
  have hin : InRange L.ctx 416 b := by
    simp only [Ann.inWindow, Bool.and_eq_true, decide_eq_true_eq] at hw
    have hoff : (BitVec.ofNat 64 offset).toNat = offset := by
      rw [BitVec.toNat_ofNat]
      omega
    have hsub := ByteMem.toNat_sub_add b L.ctx (BitVec.ofNat 64 offset)
    rw [hoff] at hsub
    rw [InRange] at hb ⊢
    omega
  exact ⟨hin, hL b hin⟩

/-- A load or store. -/
theorem access {size opc : BitVec 2} {v : Bool} {imm12 : BitVec 12} {rn rt : Reg} (hL : L.Apart)
    (h : Inv L k s) (hk : (k.access size v opc imm12 rn rt).safe = true)
    (hst : ∀ b, guestStores (.ldst size v opc imm12 rn rt) s b → ¬ InRange L.sp 48 b)
    (hex : execLdst size v opc imm12 rn rt s = some s') :
    Inv L (k.access size v opc imm12 rn rt) s' := by
  unfold Ann.access at hk ⊢
  unfold execLdst at hex
  cases hn : ldstBytes size v opc with
  | none =>
    -- no access: a prefetch hint, or a word that is not allocated
    rw [hn] at hex
    dsimp only at hex
    split at hex
    · cases hex
      exact h
    · cases hex
  | some n =>
    rw [hn] at hk hex
    dsimp only at hex
    simp only [Ann.accessBytes, Bool.and_eq_true, bne_iff_ne, ne_eq, Bool.or_eq_true] at hk
    obtain ⟨⟨⟨-, h31⟩, h28⟩, hrt⟩ := hk
    split at hex
    · -- a store: neither the guest's addresses nor the window reach the frame
      rename_i hstore
      have hmem : ∀ b, InRange L.sp 48 b → ¬ InRange (ldstAddr s n imm12 rn) n b := by
        intro b hb hin
        by_cases hrn : rn = 28#5
        · rw [ldstAddr, hrn, h.ctx] at hin
          refine (window_apart hL (h28.resolve_left fun hne => hne hrn) hin).2 ?_
          rw [InRange, ByteMem.toNat_sub_sub _ _ (by decide)]
          rw [InRange] at hb
          omega
        · exact hst b ⟨hrn, h31, hstore, n, hn, hin⟩ hb
      split at hex
      · cases hex
        exact h.of_frame rfl rfl rfl fun b hb => ByteMem.write_of_not_inRange (hmem b hb)
      · cases hex
        exact h.of_frame rfl rfl rfl fun b hb => ByteMem.write_of_not_inRange (hmem b hb)
    · rename_i hload
      split at hex
      · cases hex
        exact h.of_frame rfl rfl rfl fun b hb => rfl
      · rename_i hv
        cases hex
        have hne : rt ≠ 28#5 := hrt.resolve_left fun hc => hc.elim hload hv
        refine h.of_frame rfl ?_ ?_ fun b hb => by simp
        · rw [State.x_writeX, if_neg fun hc => hne hc.1.symm]
        · rw [State.x_writeX, if_neg fun hc => hc.2 hc.1.symm]

/-- A push stays below the frame. -/
theorem push {rt rt2 : Reg} (h : Inv L k s) (hk : (k.push rt rt2).safe = true) :
    Inv L (k.push rt rt2) (s.pushPair rt rt2) := by
  simp only [Ann.push, Bool.and_eq_true, decide_eq_true_eq] at hk
  have hd := hk.2
  refine ⟨?_, ?_, by simp only [Ann.push, List.length_cons]; omega, fun b hb => ?_⟩
  · simpa using h.ctx
  · rw [State.pushPair_x, if_pos rfl, h.sp, BitVec.sub_sub]
    congr 1
    refine BitVec.eq_of_toNat_eq ?_
    simp only [Ann.push, List.length_cons, BitVec.toNat_add, BitVec.toNat_ofNat]
    omega
  · rw [State.pushPair_mem, ByteMem.push2_of_not_inRange]
    · exact h.frame b hb
    · rw [h.sp, show (16#64 : BitVec 64) = BitVec.ofNat 64 16 from rfl, InRange,
        ByteMem.toNat_sub_sub _ _ (by decide), ByteMem.toNat_sub_sub _ _ (by omega)]
      rw [InRange] at hb
      omega

/-- A pop. -/
theorem pop {rt rt2 : Reg} (h : Inv L k s) (hk : (k.pop rt rt2).safe = true) :
    Inv L (k.pop rt rt2) (s.popPair rt rt2) := by
  unfold Ann.pop at hk ⊢
  split at hk
  · cases hk
  · rename_i a b st hst
    have hsp := h.sp
    have hd := h.depth
    simp only [Bool.and_eq_true, bne_iff_ne, ne_eq] at hk
    rw [hst, List.length_cons] at hsp hd
    refine ⟨?_, ?_, by simp only; omega, fun b hb => ?_⟩
    · rw [State.popPair_x, if_neg (by decide), if_neg fun hc => hk.2 hc.symm,
        if_neg fun hc => hk.1.2 hc.symm]
      exact h.ctx
    · rw [State.popPair_x, if_pos rfl, hsp]
      simp only
      rw [show 16 * (st.length + 1) = 16 * st.length + 16 by omega, BitVec.ofNat_add, ← BitVec.sub_sub]
      exact BitVec.sub_add_cancel _ _
    · rw [State.popPair_mem]
      exact h.frame b hb

/-- A host function that keeps to the call standard. -/
theorem call {rn : Reg} (henv : Aapcs64 env 128) (h : Inv L k s)
    (hex : execCall env pc rn s = some s') : Inv L (k.call rn) s' := by
  obtain ⟨sr, hsr, rfl⟩ := Option.map_eq_some_iff.mp hex
  obtain ⟨hx, hsp, hm⟩ := henv _ _ _ _ hsr
  have h31 : (s.writeX 30 (env.addrOf (pc + 1))).x 31#5 = s.x 31#5 := by
    rw [State.x_writeX, if_neg (by decide)]
  refine h.of_frame rfl ?_ (hsp.trans h31) fun b hb => ?_
  · rw [show (_ : State).x 28#5 = sr.x 28#5 from rfl, hx _ (by decide) (by decide),
      State.x_writeX, if_neg (by decide)]
  · have hd := h.depth
    rw [show (_ : State).mem b = sr.mem b from rfl, hm, State.writeX_mem]
    rw [h31, h.sp, InRange, ByteMem.toNat_sub_sub _ _ (by omega)]
    rw [InRange] at hb
    omega

/-- **Safe code keeps the host frame.** -/
theorem step {i : Insn} (hL : L.Apart) (henv : Aapcs64 env 128) (h : Inv L k s)
    (hk : (transfer k (some i)).safe = true)
    (hst : ∀ b, guestStores i s b → ¬ InRange L.sp 48 b)
    (hex : execOne env pc i s = some s') : Inv L (transfer k (some i)) s' := by
  cases i with
  | ldst size v opc imm12 rn rt => exact h.access hL hk hst hex
  | ldstPair load mode imm7 rt2 rn rt =>
    rw [transfer_ldstPair] at hk ⊢
    split at hk
    · rename_i hpush
      rw [hpush, execOne_pushInsn] at hex
      rw [if_pos hpush]
      cases hex
      exact h.push hk
    · rename_i hpush
      rw [if_neg hpush]
      split at hk
      · rename_i hpop
        rw [hpop, execOne_popInsn] at hex
        rw [if_pos hpop]
        cases hex
        exact h.pop hk
      · cases hk
  | blr rn => exact h.call henv hex
  | simdScalar w =>
    obtain ⟨r, -, rfl⟩ := Option.map_eq_some_iff.mp hex
    exact h.of_frame rfl rfl rfl fun b _ => rfl
  | brk | b | bCond | cbz | tbz | br | ret => cases hex
  | _ => exact h.plain rfl hk (show execData env _ s = some s' from hex)

end Inv

/-! ### Two runs of the same code -/

/-- The words on two host stacks agree where they are determined. -/
def StackAgree (m₁ m₂ : ByteMem) : BitVec 64 → BitVec 64 → List (Bool × Bool) → Prop
  | _, _, [] => True
  | a₁, a₂, (u, v) :: st =>
    (u = true → m₁.read 64 8 a₁ = m₂.read 64 8 a₂) ∧
    (v = true → m₁.read 64 8 (a₁ + 8#64) = m₂.read 64 8 (a₂ + 8#64)) ∧
    StackAgree m₁ m₂ (a₁ + 16#64) (a₂ + 16#64) st

theorem StackAgree.congr {m₁ m₂ m₁' m₂' : ByteMem} {a₁ a₂ : BitVec 64} {st : List (Bool × Bool)}
    (hlen : 16 * st.length < 2 ^ 64)
    (h₁ : ∀ b, InRange a₁ (16 * st.length) b → m₁' b = m₁ b)
    (h₂ : ∀ b, InRange a₂ (16 * st.length) b → m₂' b = m₂ b) (h : StackAgree m₁ m₂ a₁ a₂ st) :
    StackAgree m₁' m₂' a₁ a₂ st := by
  induction st generalizing a₁ a₂ with
  | nil => trivial
  | cons e st ih =>
    obtain ⟨u, v⟩ := e
    rw [List.length_cons] at hlen h₁ h₂
    have hread : ∀ (m m' : ByteMem) (a : BitVec 64),
        (∀ b, InRange a (16 * (st.length + 1)) b → m' b = m b) →
        m'.read 64 8 a = m.read 64 8 a ∧ m'.read 64 8 (a + 8#64) = m.read 64 8 (a + 8#64) ∧
        ∀ b, InRange (a + 16#64) (16 * st.length) b → m' b = m b := by
      intro m m' a hm
      have h8 := fun b => ByteMem.toNat_sub_add b a 8#64
      have h16 := fun b => ByteMem.toNat_sub_add b a 16#64
      simp only [BitVec.toNat_ofNat] at h8 h16
      refine ⟨ByteMem.read_congr 64 fun b hb => hm b ?_, ByteMem.read_congr 64 fun b hb => hm b ?_,
        fun b hb => hm b ?_⟩
      · rw [InRange] at hb ⊢
        omega
      · have := h8 b
        rw [InRange] at hb ⊢
        omega
      · have := h16 b
        rw [InRange] at hb ⊢
        omega
    obtain ⟨r₁, r₁', hm₁⟩ := hread m₁ m₁' a₁ h₁
    obtain ⟨r₂, r₂', hm₂⟩ := hread m₂ m₂' a₂ h₂
    refine ⟨fun hu => ?_, fun hv => ?_, ih (by omega) hm₁ hm₂ h.2.2⟩
    · rw [r₁, r₂]
      exact h.1 hu
    · rw [r₁', r₂']
      exact h.2.1 hv

/-- Two states agree on everything that is determined and on memory that is not private to the
host. -/
structure Agree (priv : BitVec 64 → Prop) (k : Ann) (s₁ s₂ : State) : Prop where
  on : AgreeOn k.x k.v k.nzcv s₁ s₂
  mem : ∀ b, ¬ priv b → s₁.mem b = s₂.mem b
  stack : StackAgree s₁.mem s₂.mem (s₁.x 31#5) (s₂.x 31#5) k.stack

/-- The bytes that an instruction accesses through an address of the guest. -/
def guestTouches (i : Insn) (s : State) (b : BitVec 64) : Prop :=
  match i with
  | .ldst size v opc imm12 rn _ => rn ≠ 28#5 ∧ rn ≠ 31#5 ∧
    ∃ n, ldstBytes size v opc = some n ∧ InRange (ldstAddr s n imm12 rn) n b
  | _ => False

/-- The private memory of the host holds the place where a block pushes, and not the XMM registers
of the context. -/
structure Layout.Private (priv : BitVec 64 → Prop) (L : Layout) : Prop where
  stack : ∀ b, InRange (L.sp - 80#64) 80 b → priv b
  window : ∀ b, InRange (L.ctx + 160#64) 256 b → ¬ priv b

/-- What host functions do with the guest's registers and with memory does not depend on what the
call standard leaves undefined: scratch registers, flags and the host's private memory. -/
def CallsAgree (env : Env) (priv : BitVec 64 → Prop) : Prop :=
  ∀ n a s₁ s₂ s₁', AgreeOn isShared (fun _ => false) false s₁ s₂ →
    (∀ b, ¬ priv b → s₁.mem b = s₂.mem b) → env.call n a s₁ = some s₁' →
    ∃ s₂', env.call n a s₂ = some s₂' ∧ (∀ r, isShared r = true → s₁'.readX r = s₂'.readX r) ∧
      ∀ b, ¬ priv b → s₁'.mem b = s₂'.mem b

namespace Agree

variable {priv : BitVec 64 → Prop} {L₁ L₂ : Layout} {k : Ann} {s₁ s₂ s₁' s₂' : State} {env : Env}
  {pc : Nat}

/-- Less knowledge. -/
theorem weaken {k' : Ann} (h : Agree priv k' s₁ s₂) (hw : k.Weaker k') : Agree priv k s₁ s₂ :=
  ⟨h.on.mono hw.x hw.v hw.nzcv, h.mem, by rw [hw.stack]; exact h.stack⟩

/-- The bytes under the pushed pairs are private. -/
theorem stack_private {L : Layout} {s : State} (hp : L.Private priv) (hi : Inv L k s)
    {b : BitVec 64} (hb : InRange (s.x 31#5) (16 * k.stack.length) b) : priv b := by
  refine hp.stack b ?_
  have hd := hi.depth
  rw [hi.sp, InRange, ByteMem.toNat_sub_sub _ _ (by omega)] at hb
  rw [InRange, show (80#64 : BitVec 64) = BitVec.ofNat 64 80 from rfl,
    ByteMem.toNat_sub_sub _ _ (by omega)]
  omega

/-- An instruction without access to memory. -/
theorem plain {i : Insn} (h : Agree priv k s₁ s₂) (hi : i.isPlain = true)
    (hk : (k.plain i).safe = true) (he : (k.plain i).exact = true)
    (hex : execData env i s₁ = some s₁') :
    ∃ s₂', execData env i s₂ = some s₂' ∧ Agree priv (k.plain i) s₁' s₂' := by
  simp only [Ann.plain, Bool.and_eq_true, Bool.not_eq_true', bne_iff_ne, ne_eq, Bool.or_eq_true,
    List.all_eq_true] at hk he
  obtain ⟨t₁, t₂, h₁, h₂, hon⟩ := execData_agree hi hk.1.2 h.on he.1.1.2 he.1.2
    (fun hr => he.2.resolve_left (by simp [hr]))
  obtain rfl : t₁ = s₁' := Option.some.inj (h₁.symm.trans hex)
  obtain ⟨hm₁, hx₁⟩ := execData_frame hi hk.1.2 h₁
  obtain ⟨hm₂, hx₂⟩ := execData_frame hi hk.1.2 h₂
  refine ⟨t₂, h₂, hon, fun b hb => ?_, ?_⟩
  · rw [hm₁, hm₂]
    exact h.mem b hb
  · rw [hm₁, hm₂, hx₁ _ (.inr rfl), hx₂ _ (.inr rfl)]
    exact h.stack

/-- A store of the same value at the same place, which is not private. -/
theorem store {w n : Nat} {a : BitVec 64} (val : BitVec w) (hp₁ : L₁.Private priv)
    (hp₂ : L₂.Private priv) (hi₁ : Inv L₁ k s₁) (hi₂ : Inv L₂ k s₂) (h : Agree priv k s₁ s₂)
    (ha : ∀ b, InRange a n b → ¬ priv b) :
    Agree priv k { s₁ with mem := s₁.mem.write n a val } { s₂ with mem := s₂.mem.write n a val } := by
  have hd := hi₁.depth
  refine ⟨⟨h.on.x, h.on.v, h.on.nzcv, h.on.ext⟩, fun b hb => ?_, ?_⟩
  · show s₁.mem.write n a val b = s₂.mem.write n a val b
    by_cases hin : InRange a n b
    · rw [ByteMem.write_of_inRange hin, ByteMem.write_of_inRange hin]
    · rw [ByteMem.write_of_not_inRange hin, ByteMem.write_of_not_inRange hin]
      exact h.mem b hb
  · refine h.stack.congr (by omega) (fun b hb => ?_) fun b hb => ?_
    · exact ByteMem.write_of_not_inRange fun hin => ha b hin (stack_private hp₁ hi₁ hb)
    · exact ByteMem.write_of_not_inRange fun hin => ha b hin (stack_private hp₂ hi₂ hb)

/-- The same value is loaded from a place that is not private. -/
theorem read_eq {n : Nat} {a : BitVec 64} (w : Nat) (h : Agree priv k s₁ s₂)
    (ha : ∀ b, InRange a n b → ¬ priv b) : s₁.mem.read w n a = s₂.mem.read w n a :=
  ByteMem.read_congr w fun b hb => h.mem b (ha b hb)

/-- A load or store. -/
theorem access {size opc : BitVec 2} {v : Bool} {imm12 : BitVec 12} {rn rt : Reg}
    (hp₁ : L₁.Private priv) (hp₂ : L₂.Private priv) (hi₁ : Inv L₁ k s₁) (hi₂ : Inv L₂ k s₂)
    (h : Agree priv k s₁ s₂) (hk : (k.access size v opc imm12 rn rt).safe = true)
    (he : (k.access size v opc imm12 rn rt).exact = true)
    (hst : ∀ b, guestTouches (.ldst size v opc imm12 rn rt) s₁ b → ¬ priv b)
    (hex : execLdst size v opc imm12 rn rt s₁ = some s₁') :
    ∃ s₂', execLdst size v opc imm12 rn rt s₂ = some s₂' ∧
      Agree priv (k.access size v opc imm12 rn rt) s₁' s₂' := by
  unfold Ann.access at hk he ⊢
  unfold execLdst at hex ⊢
  cases hn : ldstBytes size v opc with
  | none =>
    simp only [hn] at hex ⊢
    split at hex
    · cases hex
      exact ⟨s₂, by rename_i hc; rw [if_pos hc], h⟩
    · cases hex
  | some n =>
    simp only [hn] at hex hk he ⊢
    simp only [Ann.accessBytes, Bool.and_eq_true, bne_iff_ne, ne_eq, Bool.or_eq_true,
      Bool.not_eq_true'] at hk he
    obtain ⟨⟨⟨-, h31⟩, h28⟩, -⟩ := hk
    obtain ⟨⟨-, hrn⟩, hrt⟩ := he
    -- both runs access the same place
    have hbase : s₁.x rn = s₂.x rn := by
      have := h.on.x rn hrn
      rwa [s₁.readX_of_ne _ h31, s₂.readX_of_ne _ h31] at this
    have haddr : ldstAddr s₂ n imm12 rn = ldstAddr s₁ n imm12 rn := by
      rw [ldstAddr, ldstAddr, hbase]
    have hplace : ∀ b, InRange (ldstAddr s₁ n imm12 rn) n b → ¬ priv b := by
      intro b hb
      by_cases hc : rn = 28#5
      · have hw := h28.resolve_left fun hne => hne hc
        simp only [Ann.inWindow, Bool.and_eq_true, decide_eq_true_eq] at hw
        refine hp₁.window b ?_
        rw [ldstAddr, hc, hi₁.ctx] at hb
        have e₁ := ByteMem.toNat_sub_add b L₁.ctx (BitVec.ofNat 64 (imm12.toNat * n))
        have e₂ := ByteMem.toNat_sub_add b L₁.ctx 160#64
        have hoff : (BitVec.ofNat 64 (imm12.toNat * n)).toNat = imm12.toNat * n := by
          rw [BitVec.toNat_ofNat]
          omega
        rw [hoff] at e₁
        simp only [BitVec.toNat_ofNat] at e₂
        rw [InRange] at hb ⊢
        omega
      · exact hst b ⟨hc, h31, n, hn, hb⟩
    rw [haddr]
    cases hs : ldstIsStore v opc with
    | true =>
      simp only [hs, if_true] at hex ⊢
      have hrt' := hrt.resolve_left (by simp [hs])
      cases v with
      | true =>
        simp only [if_true] at hex hrt' ⊢
        cases hex
        rw [← h.on.v rt hrt']
        have hs := h.store (s₁.v rt) hp₁ hp₂ hi₁ hi₂ hplace
        exact ⟨_, rfl, hs.on, hs.mem, hs.stack⟩
      | false =>
        simp only [Bool.false_eq_true, if_false] at hex hrt' ⊢
        cases hex
        rw [← h.on.x rt hrt']
        have hs := h.store (s₁.readX rt) hp₁ hp₂ hi₁ hi₂ hplace
        exact ⟨_, rfl, hs.on, hs.mem, hs.stack⟩
    | false =>
      simp only [hs, Bool.false_eq_true, if_false] at hex ⊢
      cases v with
      | true =>
        simp only [if_true] at hex ⊢
        cases hex
        refine ⟨_, rfl, h.on.writeV rt (h.read_eq 128 hplace), h.mem, h.stack⟩
      | false =>
        simp only [Bool.false_eq_true, if_false] at hex ⊢
        cases hex
        have hval : loadValue n opc s₁.mem (ldstAddr s₁ n imm12 rn)
            = loadValue n opc s₂.mem (ldstAddr s₁ n imm12 rn) := by
          rw [loadValue, loadValue, h.read_eq 64 hplace]
        refine ⟨_, rfl, h.on.writeX rt hval, fun b hb => ?_, ?_⟩
        · rw [State.writeX_mem, State.writeX_mem]
          exact h.mem b hb
        · rw [State.writeX_mem, State.writeX_mem, State.x_writeX, State.x_writeX,
            if_neg fun hc => hc.2 hc.1.symm, if_neg fun hc => hc.2 hc.1.symm]
          exact h.stack

/-- What a push leaves on the stack. -/
theorem push_read (s : State) (rt rt2 : Reg) :
    (s.pushPair rt rt2).mem.read 64 8 ((s.pushPair rt rt2).x 31#5) = s.readX rt ∧
    (s.pushPair rt rt2).mem.read 64 8 ((s.pushPair rt rt2).x 31#5 + 8#64) = s.readX rt2 := by
  have hw : s.mem.WordsAt (s.x 31#5) [] := trivial
  have h := hw.push2 (u := s.readX rt) (v := s.readX rt2) (by simp)
  rw [State.pushPair_x, if_pos rfl, State.pushPair_mem]
  exact ⟨h.1, h.2.1⟩

theorem push {rt rt2 : Reg} (hp₁ : L₁.Private priv) (hp₂ : L₂.Private priv) (hi₁ : Inv L₁ k s₁)
    (hi₂ : Inv L₂ k s₂) (h : Agree priv k s₁ s₂) (hk : (k.push rt rt2).safe = true) :
    Agree priv (k.push rt rt2) (s₁.pushPair rt rt2) (s₂.pushPair rt rt2) := by
  simp only [Ann.push, Bool.and_eq_true, decide_eq_true_eq] at hk
  have hd := hk.2
  -- what is pushed goes to private memory, below the pairs that are there
  have hbelow : ∀ {L : Layout} {s : State}, L.Private priv → Inv L k s → ∀ b,
      ¬ priv b ∨ InRange (s.x 31#5) (16 * k.stack.length) b →
      (s.pushPair rt rt2).mem b = s.mem b := by
    intro L s hp hi b hb
    rw [State.pushPair_mem, ByteMem.push2_of_not_inRange]
    intro hin
    rw [InRange, show (16#64 : BitVec 64) = BitVec.ofNat 64 16 from rfl,
      ByteMem.toNat_sub_sub _ _ (by decide)] at hin
    rcases hb with hb | hb
    · refine hb (hp.stack b ?_)
      rw [hi.sp, ByteMem.toNat_sub_sub _ _ (by omega)] at hin
      rw [InRange, show (80#64 : BitVec 64) = BitVec.ofNat 64 80 from rfl,
        ByteMem.toNat_sub_sub _ _ (by omega)]
      omega
    · rw [InRange] at hb
      omega
  have hup : ∀ s : State, (s.pushPair rt rt2).x 31#5 + 16#64 = s.x 31#5 := by
    intro s
    rw [State.pushPair_x, if_pos rfl]
    exact BitVec.sub_add_cancel _ _
  refine ⟨⟨fun r hr => ?_, h.on.v, h.on.nzcv, h.on.ext⟩, fun b hb => ?_, ?_⟩
  · rw [State.pushPair_readX, State.pushPair_readX]
    exact h.on.x r hr
  · rw [hbelow hp₁ hi₁ b (.inl hb), hbelow hp₂ hi₂ b (.inl hb)]
    exact h.mem b hb
  · refine ⟨fun hu => ?_, fun hv => ?_, ?_⟩
    · rw [(push_read s₁ rt rt2).1, (push_read s₂ rt rt2).1]
      exact h.on.x rt hu
    · rw [(push_read s₁ rt rt2).2, (push_read s₂ rt rt2).2]
      exact h.on.x rt2 hv
    · rw [hup, hup]
      exact h.stack.congr (by omega) (fun b hb => hbelow hp₁ hi₁ b (.inr hb))
        fun b hb => hbelow hp₂ hi₂ b (.inr hb)

theorem pop {rt rt2 : Reg} (h : Agree priv k s₁ s₂) (hk : (k.pop rt rt2).safe = true) :
    Agree priv (k.pop rt rt2) (s₁.popPair rt rt2) (s₂.popPair rt rt2) := by
  unfold Ann.pop at hk ⊢
  have hstack := h.stack
  split at hk
  · cases hk
  · rename_i u v st hst
    rw [hst] at hstack
    obtain ⟨hu, hv, hrest⟩ := hstack
    refine ⟨⟨fun r hr => ?_, ?_, ?_, ?_⟩, fun b hb => ?_, ?_⟩
    · simp only [Bool.or_eq_true, beq_iff_eq] at hr
      rw [State.popPair_readX, State.popPair_readX]
      by_cases h31 : r = 31#5
      · rw [if_pos h31, if_pos h31]
      · rw [if_neg h31, if_neg h31]
        have hr := hr.resolve_left h31
        by_cases h2 : r = rt2
        · rw [if_pos h2] at hr ⊢
          rw [if_pos h2]
          exact hv hr
        · rw [if_neg h2] at hr ⊢
          rw [if_neg h2]
          by_cases h1 : r = rt
          · rw [if_pos h1] at hr ⊢
            rw [if_pos h1]
            exact hu hr
          · rw [if_neg h1] at hr ⊢
            rw [if_neg h1]
            exact h.on.x r hr
    · simpa using h.on.v
    · simpa using h.on.nzcv
    · simpa using h.on.ext
    · simpa using h.mem b hb
    · simpa using hrest

theorem call {rn : Reg} (henv : Aapcs64 env 128) (hcalls : CallsAgree env priv)
    (hi₁ : Inv L₁ k s₁) (h : Agree priv k s₁ s₂)
    (he : (k.call rn).exact = true) (hex : execCall env pc rn s₁ = some s₁') :
    ∃ s₂', execCall env pc rn s₂ = some s₂' ∧ Agree priv (k.call rn) s₁' s₂' := by
  simp only [Ann.call, Bool.and_eq_true, List.all_eq_true] at he
  obtain ⟨⟨-, hrn⟩, hsh⟩ := he
  obtain ⟨t₁, ht₁, rfl⟩ := Option.map_eq_some_iff.mp hex
  have hon : AgreeOn isShared (fun _ => false) false (s₁.writeX 30 (env.addrOf (pc + 1)))
      (s₂.writeX 30 (env.addrOf (pc + 1))) := by
    refine (h.on.writeX 30 rfl).mono (fun r hr => ?_) (fun r hr => (nomatch hr)) fun hf => (nomatch hf)
    rw [isShared_eq, List.contains_iff_mem] at hr
    rw [learn_some, hsh r hr, Bool.or_true]
  obtain ⟨t₂, ht₂, hx, hm⟩ := hcalls _ _ _ _ _ hon (by simpa using h.mem) ht₁
  obtain ⟨-, hsp₁, hf₁⟩ := henv _ _ _ _ ht₁
  obtain ⟨-, hsp₂, hf₂⟩ := henv _ _ _ _ ht₂
  have h31 : ∀ s : State, (s.writeX 30 (env.addrOf (pc + 1))).x 31#5 = s.x 31#5 := by
    intro s
    rw [State.x_writeX, if_neg (by decide)]
  have hd := hi₁.depth
  refine ⟨{ t₂ with ext := s₂.ext + 1 }, ?_, ⟨hx, fun r hr => (nomatch hr), fun hf => (nomatch hf), ?_⟩,
    hm, ?_⟩
  · rw [execCall, ← h.on.ext, ← h.on.x rn hrn, ht₂]
    rfl
  · exact congrArg (· + 1) h.on.ext
  · show StackAgree t₁.mem t₂.mem (t₁.x 31#5) (t₂.x 31#5) k.stack
    rw [hsp₁, hsp₂, h31, h31]
    rw [h31] at hf₁ hf₂
    refine h.stack.congr (by omega) (fun b hb => ?_) fun b hb => ?_
    · rw [hf₁ b (lt_of_lt_of_le hb (by omega)), State.writeX_mem]
    · rw [hf₂ b (lt_of_lt_of_le hb (by omega)), State.writeX_mem]

/-- **Exact code takes agreeing states to agreeing states.** -/
theorem step {i : Insn} (henv : Aapcs64 env 128) (hcalls : CallsAgree env priv)
    (hp₁ : L₁.Private priv) (hp₂ : L₂.Private priv) (hi₁ : Inv L₁ k s₁) (hi₂ : Inv L₂ k s₂)
    (h : Agree priv k s₁ s₂) (hk : (transfer k (some i)).safe = true)
    (he : (transfer k (some i)).exact = true) (hst : ∀ b, guestTouches i s₁ b → ¬ priv b)
    (hex : execOne env pc i s₁ = some s₁') :
    ∃ s₂', execOne env pc i s₂ = some s₂' ∧ Agree priv (transfer k (some i)) s₁' s₂' := by
  cases i with
  | ldst size v opc imm12 rn rt => exact h.access hp₁ hp₂ hi₁ hi₂ hk he hst hex
  | ldstPair load mode imm7 rt2 rn rt =>
    rw [transfer_ldstPair] at hk ⊢
    split at hk
    · rename_i hpush
      rw [if_pos hpush]
      rw [hpush, execOne_pushInsn] at hex ⊢
      cases hex
      exact ⟨_, rfl, h.push hp₁ hp₂ hi₁ hi₂ hk⟩
    · rename_i hpush
      rw [if_neg hpush]
      split at hk
      · rename_i hpop
        rw [if_pos hpop]
        rw [hpop, execOne_popInsn] at hex ⊢
        cases hex
        exact ⟨_, rfl, h.pop hk⟩
      · cases hk
  | blr rn => exact h.call henv hcalls hi₁ he hex
  | simdScalar w => cases he
  | brk | b | bCond | cbz | tbz | br | ret => cases hex
  | _ => exact h.plain rfl hk he (show execData env _ s₁ = some s₁' from hex)

end Agree

end Quantum.Jit
