import Quantum.Jit.Equiv.Certify

/-!
# Labels and fixups

A sequence of emitter calls is laid out in two ways.  The emitter writes words, patches a branch back at
once and keeps a fixup for a branch forward.  `CodeLayout` keeps the branches symbolic, with the place of every
label.  The two agree after every call (`agrees_emitAll`), and when the emitter finishes, each branch word
decodes to its branch, leading to the place of its label (`finish_resolves`).
-/

namespace Quantum.Jit

open A64

/-! ### The branches -/

/-- The branches that the emitter knows, without their labels. -/
inductive Branch where
  | b
  | bl
  | bCond (cond : A64.Cond)
  | cbz64 (rt : Reg)
  | cbnz64 (rt : Reg)
  | tbz (rt : Reg) (bit : Fin 64)
  | tbnz (rt : Reg) (bit : Fin 64)

/-- The number of bits of the offset. -/
def FixupKind.width : FixupKind → Nat
  | .branch26 => 26
  | .branch19 => 19
  | .branch14 => 14

/-- A distance in words that the offset can express. -/
def FixupKind.Fits (kind : FixupKind) (delta : Int) : Prop :=
  -2 ^ (kind.width - 1) ≤ delta ∧ delta < 2 ^ (kind.width - 1)

instance (kind : FixupKind) (delta : Int) : Decidable (kind.Fits delta) :=
  inferInstanceAs (Decidable (_ ∧ _))

namespace Branch

def kind : Branch → FixupKind
  | .b | .bl => .branch26
  | .bCond _ | .cbz64 _ | .cbnz64 _ => .branch19
  | .tbz _ _ | .tbnz _ _ => .branch14

/-- The call of the emitter. -/
def emit {ε : Type} (l : Label) : Branch → EmitM ε Unit
  | .b => Jit.b l
  | .bl => Jit.bl l
  | .bCond cond => Jit.bCond cond l
  | .cbz64 rt => Jit.cbz64 rt l
  | .cbnz64 rt => Jit.cbnz64 rt l
  | .tbz rt bit => Jit.tbz rt bit l
  | .tbnz rt bit => Jit.tbnz rt bit l

/-- The host instruction with a given offset. -/
def insn : (br : Branch) → BitVec br.kind.width → Insn
  | .b, imm => .b false imm
  | .bl, imm => .b true imm
  | .bCond cond, imm => .bCond cond imm
  | .cbz64 rt, imm => .cbz false imm rt
  | .cbnz64 rt, imm => .cbz true imm rt
  | .tbz rt bit, imm => .tbz false (.ofFin bit) imm rt
  | .tbnz rt bit, imm => .tbz true (.ofFin bit) imm rt

/-- The word `w` at the index `i` is the branch, with its fields intact, to the index `n`. -/
def LeadsTo (br : Branch) (w : Word) (i n : Nat) : Prop :=
  ∃ imm, decode w = some (br.insn imm) ∧ (i : Int) + imm.toInt = n

/-- The word before it is patched. -/
def base : Branch → Word
  | .b => 0x14000000#32
  | .bl => 0x94000000#32
  | .bCond cond => 0x54000000#32 ||| bitField 0 cond.code
  | .cbz64 rt => 0xB4000000#32 ||| bitField 0 rt
  | .cbnz64 rt => 0xB5000000#32 ||| bitField 0 rt
  | .tbz rt bit => testBitWord 0 rt bit
  | .tbnz rt bit => testBitWord 1 rt bit

theorem emit_eq {ε : Type} (br : Branch) (l : Label) (p : Profile) (e : Emitter) :
    (br.emit l : EmitM ε Unit) p e = EmitM.emitBranch br.base br.kind l p e := by
  have hassert : ∀ bit : Fin 64, ¬ (p.debugAssertions = true ∧ ¬ bit.val < 64) :=
    fun bit h => h.2 bit.isLt
  cases br with
  | tbz rt bit | tbnz rt bit =>
    simp only [emit, Jit.tbz, Jit.tbnz, bind, EmitM.debugAssert, if_neg (hassert bit)]
    rfl
  | _ => rfl

end Branch

theorem patchBranch_of_not_fits {kind : FixupKind} {delta : Int} (w : Word)
    (h : ¬ kind.Fits delta) : Emitter.patchBranch w kind delta = .error .branchOutOfRange := by
  cases kind with
  | branch26 | branch19 | branch14 => exact if_neg h

theorem patchBranch_of_fits {kind : FixupKind} {delta : Int} (w : Word) (h : kind.Fits delta) :
    ∃ w', Emitter.patchBranch w kind delta = .ok w' := by
  cases kind with
  | branch26 | branch19 | branch14 => exact ⟨_, if_pos h⟩

/-- A patched branch leads to where the distance says. -/
theorem Branch.leadsTo_of_patched {br : Branch} {i n : Nat} {w : Word}
    (h : Emitter.patchBranch br.base br.kind ((n : Int) - i) = .ok w) : br.LeadsTo w i n := by
  by_cases hfits : br.kind.Fits ((n : Int) - i)
  · refine ⟨BitVec.ofInt _ ((n : Int) - i), ?_, ?_⟩
    · cases br with
      | b =>
        rw [base, kind, patchBranch_b _ hfits, Except.ok.injEq] at h
        rw [← h]
        exact decode_b _
      | bl =>
        rw [base, kind, patchBranch_bl _ hfits, Except.ok.injEq] at h
        rw [← h]
        exact decode_bl _
      | bCond cond =>
        rw [base, kind, patchBranch_bCond cond _ hfits, Except.ok.injEq] at h
        rw [← h]
        exact decode_bCond cond _
      | cbz64 rt =>
        rw [base, kind, patchBranch_cbz rt _ hfits, Except.ok.injEq] at h
        rw [← h]
        exact decode_cbz rt _
      | cbnz64 rt =>
        rw [base, kind, patchBranch_cbnz rt _ hfits, Except.ok.injEq] at h
        rw [← h]
        exact decode_cbnz rt _
      | tbz rt bit =>
        rw [base, kind, patchBranch_testBit rt 0 bit _ hfits, Except.ok.injEq] at h
        rw [← h]
        exact decode_testBit rt 0 bit _
      | tbnz rt bit =>
        rw [base, kind, patchBranch_testBit rt 1 bit _ hfits, Except.ok.injEq] at h
        rw [← h]
        exact decode_testBit rt 1 bit _
    · have hpos : 0 < br.kind.width := by cases br <;> exact Nat.zero_lt_succ _
      rw [toInt_ofInt_of_range hpos hfits]
      omega
  · rw [patchBranch_of_not_fits _ hfits] at h
    cases h

/-! ### Calls of the emitter, and what they lay out -/

/-- A call on an emitter: a label, a branch, or any other word. -/
inductive EmitOp where
  | makeLabel
  | bindLabel (l : Label)
  | branch (br : Branch) (l : Label)
  | word (w : Word)

def EmitOp.emit {ε : Type} : EmitOp → EmitM ε Unit
  | .makeLabel => do
    let _ ← EmitM.makeLabel
    pure ()
  | .bindLabel l => EmitM.bindLabel l
  | .branch br l => br.emit l
  | .word w => EmitM.push w

def emitAll {ε : Type} : List EmitOp → EmitM ε Unit
  | [] => pure ()
  | op :: ops => do
    op.emit
    emitAll ops

/-- A word of the code, with the branches still symbolic. -/
inductive Item where
  | word (w : Word)
  | branch (br : Branch) (l : Label)

structure CodeLayout where
  items : List Item
  /-- For each label the word index where it is bound. -/
  labels : List (Option Nat)

namespace CodeLayout

def new : CodeLayout := ⟨[], []⟩

def bound (L : CodeLayout) (l : Label) : Option Nat := (L.labels[l.id]?).join

/-- A branch at the index `i` is ahead of its label: the label is bound behind it, or not at all. -/
def Forward (L : CodeLayout) (i : Nat) (l : Label) : Prop :=
  ∀ n, L.bound l = some n → i < n

def place (L : CodeLayout) : EmitOp → CodeLayout
  | .makeLabel => { L with labels := L.labels ++ [none] }
  | .bindLabel l => { L with labels := L.labels.set l.id (some L.items.length) }
  | .branch br l => { L with items := L.items ++ [.branch br l] }
  | .word w => { L with items := L.items ++ [.word w] }

/-- A call may come next: its label is there, it is bound at most once, and a branch back reaches it. -/
def Allows (L : CodeLayout) : EmitOp → Prop
  | .makeLabel | .word _ => True
  | .bindLabel l => L.labels[l.id]? = some none
  | .branch br l => l.id < L.labels.length ∧
      ∀ n, L.bound l = some n → br.kind.Fits ((n : Int) - L.items.length)

def AllowsAll : CodeLayout → List EmitOp → Prop
  | _, [] => True
  | L, op :: ops => L.Allows op ∧ (L.place op).AllowsAll ops

end CodeLayout

/-- The layout of a sequence of calls. -/
def codeLayout (ops : List EmitOp) : CodeLayout := ops.foldl CodeLayout.place .new

/-! ### The emitter follows the layout -/

/-- The emitter against the layout: branches back are patched, branches forward have a fixup. -/
structure CodeLayout.Agrees (L : CodeLayout) (e : Emitter) : Prop where
  labels : e.labels = L.labels
  length : e.code.length = L.items.length
  bound_le : ∀ l n, L.bound l = some n → n ≤ L.items.length
  word : ∀ (i : Nat) (w : Word), L.items[i]? = some (Item.word w) → e.code[i]? = some w
  back : ∀ (i : Nat) br l n, L.items[i]? = some (Item.branch br l) → L.bound l = some n → n ≤ i →
    ∃ w, e.code[i]? = some w ∧ br.LeadsTo w i n
  forward : ∀ (i : Nat) br l, L.items[i]? = some (Item.branch br l) → L.Forward i l →
    ⟨i, br.kind, l.id⟩ ∈ e.fixups
  fixup : ∀ f ∈ e.fixups, ∃ br l, L.items[f.wordIndex]? = some (Item.branch br l) ∧
    L.Forward f.wordIndex l ∧ f.kind = br.kind ∧ f.label = l.id ∧
    e.code[f.wordIndex]? = some br.base
  distinct : (e.fixups.map Fixup.wordIndex).Nodup

theorem agrees_new : CodeLayout.new.Agrees Emitter.new where
  labels := rfl
  length := rfl
  bound_le l n h := by simp [CodeLayout.new, CodeLayout.bound] at h
  word i w h := by simp [CodeLayout.new] at h
  back i br l n h := by simp [CodeLayout.new] at h
  forward i br l h := by simp [CodeLayout.new] at h
  fixup f h := by simp [Emitter.new] at h
  distinct := List.nodup_nil

namespace CodeLayout

variable {L : CodeLayout} {e : Emitter} {ε : Type}

/-- A new label is bound nowhere. -/
theorem bound_makeLabel (L : CodeLayout) (l : Label) : (L.place .makeLabel).bound l = L.bound l := by
  simp only [bound, place, List.getElem?_append, List.getElem?_singleton]
  split_ifs with h₁ h₂
  · rfl
  · rw [List.getElem?_eq_none (Nat.le_of_not_lt h₁)]
    rfl
  · rw [List.getElem?_eq_none (Nat.le_of_not_lt h₁)]

theorem bound_bindLabel_self {l : Label} (h : L.labels[l.id]? = some none) :
    (L.place (.bindLabel l)).bound l = some L.items.length := by
  have hlt : l.id < L.labels.length := (List.getElem?_eq_some_iff.mp h).1
  simp only [bound, place, List.getElem?_set_self hlt]
  rfl

theorem bound_bindLabel_of_ne {l l' : Label} (h : l.id ≠ l'.id) :
    (L.place (.bindLabel l)).bound l' = L.bound l' := by
  simp only [bound, place, List.getElem?_set_ne h]

/-- What is bound stays bound where it is. -/
theorem bound_bindLabel {l l' : Label} {n : Nat} (hl : L.labels[l.id]? = some none)
    (h : (L.place (.bindLabel l)).bound l' = some n) : L.bound l' = some n ∨ n = L.items.length := by
  by_cases heq : l.id = l'.id
  · have hl' : L.labels[l'.id]? = some none := heq ▸ hl
    have hself := bound_bindLabel_self hl'
    rw [CodeLayout.place, heq] at h
    rw [CodeLayout.place] at hself
    exact .inr (Option.some.inj (h.symm.trans hself))
  · rw [bound_bindLabel_of_ne heq] at h
    exact .inl h

theorem forward_bindLabel {l l' : Label} {i : Nat} (hl : L.labels[l.id]? = some none)
    (hi : i < L.items.length) : (L.place (.bindLabel l)).Forward i l' ↔ L.Forward i l' := by
  constructor
  · intro h n hn
    by_cases heq : l.id = l'.id
    · -- The label was not bound before.
      rw [bound, ← heq, hl] at hn
      cases hn
    · exact h n (by rw [bound_bindLabel_of_ne heq]; exact hn)
  · intro h n hn
    rcases bound_bindLabel hl hn with hold | rfl
    · exact h n hold
    · exact hi

theorem Agrees.index_lt {i : Nat} {item : Item} (h : L.items[i]? = some item) :
    i < L.items.length :=
  (List.getElem?_eq_some_iff.mp h).1

theorem Agrees.makeLabel (h : L.Agrees e) :
    (L.place .makeLabel).Agrees { e with labels := e.labels ++ [none] } := by
  have hfwd : ∀ i l, (L.place .makeLabel).Forward i l ↔ L.Forward i l := by
    intro i l
    rw [Forward, bound_makeLabel]
    rfl
  constructor
  case labels => exact congrArg (· ++ [none]) h.labels
  case length => exact h.length
  case bound_le =>
    intro l n hn
    rw [bound_makeLabel] at hn
    exact h.bound_le l n hn
  case word => exact h.word
  case back =>
    intro i br l n hi hn
    rw [bound_makeLabel] at hn
    exact h.back i br l n hi hn
  case forward => exact fun i br l hi hf => h.forward i br l hi ((hfwd i l).mp hf)
  case fixup =>
    intro f hf
    obtain ⟨br, l, hi, hfw, hrest⟩ := h.fixup f hf
    exact ⟨br, l, hi, (hfwd _ l).mpr hfw, hrest⟩
  case distinct => exact h.distinct

theorem Agrees.bindLabel {l : Label} (h : L.Agrees e) (hl : L.labels[l.id]? = some none) :
    (L.place (.bindLabel l)).Agrees { e with labels := e.labels.set l.id (some e.code.length) } := by
  constructor
  case labels =>
    rw [h.length, h.labels]
    rfl
  case length => exact h.length
  case bound_le =>
    intro l' n hn
    rcases bound_bindLabel hl hn with hold | rfl
    · exact h.bound_le l' n hold
    · exact Nat.le_refl _
  case word => exact h.word
  case back =>
    intro i br l' n hi hn hle
    rcases bound_bindLabel hl hn with hold | rfl
    · exact h.back i br l' n hi hold hle
    · have hlt := index_lt hi
      simp only [place] at hlt
      omega
  case forward =>
    intro i br l' hi hf
    exact h.forward i br l' hi ((forward_bindLabel hl (index_lt hi)).mp hf)
  case fixup =>
    intro f hf
    obtain ⟨br, l', hi, hfw, hrest⟩ := h.fixup f hf
    exact ⟨br, l', hi, (forward_bindLabel hl (index_lt hi)).mpr hfw, hrest⟩
  case distinct => exact h.distinct

/-- An item of the longer code is an old one or the new one. -/
theorem getElem?_snoc {items : List Item} {x y : Item} {i : Nat}
    (h : (items ++ [x])[i]? = some y) : items[i]? = some y ∨ (i = items.length ∧ y = x) := by
  rw [List.getElem?_append] at h
  split_ifs at h with hlt
  · exact .inl h
  · rw [List.getElem?_singleton] at h
    split_ifs at h with heq
    · exact .inr ⟨by omega, (Option.some.inj h).symm⟩

theorem getElem?_code_snoc {code : List Word} {i : Nat} {w v : Word} (h : code[i]? = some w) :
    (code ++ [v])[i]? = some w := by
  rw [List.getElem?_append_left (List.getElem?_eq_some_iff.mp h).1]
  exact h

theorem Agrees.word_snoc {w : Word} (h : L.Agrees e) :
    (L.place (.word w)).Agrees { e with code := e.code ++ [w] } := by
  constructor
  case labels => exact h.labels
  case length => simp only [place, List.length_append, h.length, List.length_singleton]
  case bound_le =>
    intro l n hn
    have := h.bound_le l n hn
    simp only [place, List.length_append]
    omega
  case word =>
    intro i w' hi
    rcases getElem?_snoc hi with hold | ⟨rfl, heq⟩
    · exact getElem?_code_snoc (h.word i w' hold)
    · cases heq
      rw [← h.length, List.getElem?_concat_length]
  case back =>
    intro i br l n hi hn hle
    rcases getElem?_snoc hi with hold | ⟨-, heq⟩
    · obtain ⟨w', hw', hlead⟩ := h.back i br l n hold hn hle
      exact ⟨w', getElem?_code_snoc hw', hlead⟩
    · cases heq
  case forward =>
    intro i br l hi hf
    rcases getElem?_snoc hi with hold | ⟨-, heq⟩
    · exact h.forward i br l hold hf
    · cases heq
  case fixup =>
    intro f hf
    obtain ⟨br, l, hi, hfw, hk, hl, hw⟩ := h.fixup f hf
    have hi' : (L.items ++ [.word w])[f.wordIndex]? = some (Item.branch br l) := by
      rw [List.getElem?_append_left (index_lt hi)]
      exact hi
    exact ⟨br, l, hi', hfw, hk, hl, getElem?_code_snoc hw⟩
  case distinct => exact h.distinct

/-- A branch to a label that is bound is patched at once. -/
theorem Agrees.branch_back {br : Branch} {l : Label} {n : Nat} {w : Word} (h : L.Agrees e)
    (hn : L.bound l = some n) (hw : br.LeadsTo w e.code.length n) :
    (L.place (.branch br l)).Agrees { e with code := e.code ++ [w] } := by
  constructor
  case labels => exact h.labels
  case length => simp only [place, List.length_append, h.length, List.length_singleton]
  case bound_le =>
    intro l' n' hn'
    have := h.bound_le l' n' hn'
    simp only [place, List.length_append]
    omega
  case word =>
    intro i w' hi
    rcases getElem?_snoc hi with hold | ⟨-, heq⟩
    · exact getElem?_code_snoc (h.word i w' hold)
    · cases heq
  case back =>
    intro i br' l' n' hi hn' hle
    rcases getElem?_snoc hi with hold | ⟨rfl, heq⟩
    · obtain ⟨w', hw', hlead⟩ := h.back i br' l' n' hold hn' hle
      exact ⟨w', getElem?_code_snoc hw', hlead⟩
    · cases heq
      obtain rfl : n = n' := Option.some.inj (hn.symm.trans hn')
      refine ⟨w, ?_, h.length ▸ hw⟩
      rw [← h.length, List.getElem?_concat_length]
  case forward =>
    intro i br' l' hi hf
    rcases getElem?_snoc hi with hold | ⟨rfl, heq⟩
    · exact h.forward i br' l' hold hf
    · cases heq
      have hlt : L.items.length < n := hf n hn
      have hle := h.bound_le l n hn
      omega
  case fixup =>
    intro f hf
    obtain ⟨br', l', hi, hfw, hk, hl, hw'⟩ := h.fixup f hf
    have hi' : (L.items ++ [.branch br l])[f.wordIndex]? = some (.branch br' l') := by
      rw [List.getElem?_append_left (index_lt hi)]
      exact hi
    exact ⟨br', l', hi', hfw, hk, hl, getElem?_code_snoc hw'⟩
  case distinct => exact h.distinct

/-- A branch to a label that is not bound yet leaves a fixup. -/
theorem Agrees.branch_forward {br : Branch} {l : Label} (h : L.Agrees e) (hn : L.bound l = none) :
    (L.place (.branch br l)).Agrees
      { e with
        code := e.code ++ [br.base]
        fixups := e.fixups ++ [⟨e.code.length, br.kind, l.id⟩] } := by
  have hnone : ∀ i, L.Forward i l := by
    intro i n hn'
    rw [hn] at hn'
    cases hn'
  constructor
  case labels => exact h.labels
  case length => simp only [place, List.length_append, h.length, List.length_singleton]
  case bound_le =>
    intro l' n' hn'
    have := h.bound_le l' n' hn'
    simp only [place, List.length_append]
    omega
  case word =>
    intro i w' hi
    rcases getElem?_snoc hi with hold | ⟨-, heq⟩
    · exact getElem?_code_snoc (h.word i w' hold)
    · cases heq
  case back =>
    intro i br' l' n' hi hn' hle
    rcases getElem?_snoc hi with hold | ⟨-, heq⟩
    · obtain ⟨w', hw', hlead⟩ := h.back i br' l' n' hold hn' hle
      exact ⟨w', getElem?_code_snoc hw', hlead⟩
    · cases heq
      have hbound : L.bound l = some n' := hn'
      rw [hn] at hbound
      cases hbound
  case forward =>
    intro i br' l' hi hf
    rcases getElem?_snoc hi with hold | ⟨rfl, heq⟩
    · exact List.mem_append_left _ (h.forward i br' l' hold hf)
    · cases heq
      rw [← h.length]
      exact List.mem_append_right _ List.mem_cons_self
  case fixup =>
    intro f hf
    rcases List.mem_append.mp hf with hold | hnew
    · obtain ⟨br', l', hi, hfw, hk, hl, hw'⟩ := h.fixup f hold
      have hi' : (L.items ++ [.branch br l])[f.wordIndex]? = some (.branch br' l') := by
        rw [List.getElem?_append_left (index_lt hi)]
        exact hi
      exact ⟨br', l', hi', hfw, hk, hl, getElem?_code_snoc hw'⟩
    · obtain rfl := List.mem_singleton.mp hnew
      refine ⟨br, l, ?_, hnone _, rfl, rfl, ?_⟩
      · simp only [place, h.length]
        exact List.getElem?_concat_length
      · exact List.getElem?_concat_length
  case distinct =>
    rw [List.map_append, List.nodup_append]
    refine ⟨h.distinct, List.nodup_singleton _, ?_⟩
    intro i hi j hj
    obtain ⟨f, hf, rfl⟩ := List.mem_map.mp hi
    obtain rfl := List.mem_singleton.mp hj
    obtain ⟨br', l', hitem, -⟩ := h.fixup f hf
    have hlt := index_lt hitem
    rw [← h.length] at hlt
    exact Nat.ne_of_lt hlt

/-- One call. -/
theorem Agrees.step {op : EmitOp} (h : L.Agrees e) (hop : L.Allows op) (p : Profile) :
    ∃ e', (op.emit : EmitM ε Unit) p e = .ok ((), e') ∧ (L.place op).Agrees e' := by
  cases op with
  | makeLabel => exact ⟨_, rfl, h.makeLabel⟩
  | word w => exact ⟨_, rfl, h.word_snoc⟩
  | bindLabel l =>
    refine ⟨_, ?_, h.bindLabel hop⟩
    have hl : e.labels[l.id]? = some none := by
      rw [h.labels]
      exact hop
    simp only [EmitOp.emit, EmitM.bindLabel, hl]
  | branch br l =>
    obtain ⟨hlt, hreach⟩ := hop
    have hget : e.labels[l.id]? = some L.labels[l.id] := by
      rw [h.labels]
      exact List.getElem?_eq_getElem hlt
    have hbound : L.bound l = L.labels[l.id] := by
      rw [bound, List.getElem?_eq_getElem hlt]
      rfl
    simp only [EmitOp.emit, br.emit_eq, EmitM.emitBranch, hget]
    cases hn : L.labels[l.id] with
    | none => exact ⟨_, rfl, h.branch_forward (hbound.trans hn)⟩
    | some n =>
      have hfits := hreach n (hbound.trans hn)
      rw [← h.length] at hfits
      obtain ⟨w, hw⟩ := patchBranch_of_fits br.base hfits
      simp only [hw]
      exact ⟨_, rfl, h.branch_back (hbound.trans hn) (br.leadsTo_of_patched hw)⟩

theorem Agrees.emitAll {ops : List EmitOp} (h : L.Agrees e) (hops : L.AllowsAll ops) (p : Profile) :
    ∃ e', (Jit.emitAll ops : EmitM ε Unit) p e = .ok ((), e') ∧
      (ops.foldl place L).Agrees e' := by
  induction ops generalizing L e with
  | nil => exact ⟨e, rfl, h⟩
  | cons op ops ih =>
    obtain ⟨hop, hrest⟩ := hops
    obtain ⟨e₁, he₁, h₁⟩ := @Agrees.step _ _ ε op h hop p
    obtain ⟨e', he', h'⟩ := ih h₁ hrest
    refine ⟨e', ?_, h'⟩
    simp only [Jit.emitAll, bind, he₁]
    exact he'

end CodeLayout

/-! ### Finishing -/

/-- Finishing is successful when every fixup has a label that is bound within its reach. -/
theorem finishLoop_ok_iff (labels : List (Option Nat)) (fs : List Fixup) (code : List Word) :
    (Emitter.finishLoop labels fs code).1 = .ok () ↔
      ∀ f ∈ fs, ∃ n, (labels[f.label]?).join = some n ∧ f.kind.Fits ((n : Int) - f.wordIndex) := by
  induction fs generalizing code with
  | nil => simp [Emitter.finishLoop]
  | cons f fs ih =>
    rw [List.forall_mem_cons, Emitter.finishLoop]
    cases hl : (labels[f.label]?).join with
    | none => simp
    | some n =>
      by_cases hfits : f.kind.Fits ((n : Int) - f.wordIndex)
      · obtain ⟨w, hw⟩ := patchBranch_of_fits (code.getD f.wordIndex 0) hfits
        simp only [hw, ih, Option.some.injEq, exists_eq_left', hfits, true_and]
      · simp only [patchBranch_of_not_fits _ hfits, reduceCtorEq, Option.some.injEq,
          exists_eq_left', hfits, false_and]

/-- The words without a fixup stay, also when finishing fails. -/
theorem finishLoop_stay (labels : List (Option Nat)) (fs : List Fixup) (code : List Word) :
    (Emitter.finishLoop labels fs code).2.length = code.length ∧
      ∀ i, i ∉ fs.map Fixup.wordIndex → (Emitter.finishLoop labels fs code).2[i]? = code[i]? := by
  induction fs generalizing code with
  | nil => exact ⟨rfl, fun _ _ => rfl⟩
  | cons f fs ih =>
    cases hn : (labels[f.label]?).join with
    | none =>
      have hloop : Emitter.finishLoop labels (f :: fs) code = (.error (.unboundLabel f.label), code) := by
        simp only [Emitter.finishLoop, hn]
      rw [hloop]
      exact ⟨rfl, fun _ _ => rfl⟩
    | some n =>
      cases hw : Emitter.patchBranch (code.getD f.wordIndex 0) f.kind ((n : Int) - f.wordIndex) with
      | error x =>
        have hloop : Emitter.finishLoop labels (f :: fs) code = (.error x, code) := by
          simp only [Emitter.finishLoop, hn, hw]
        rw [hloop]
        exact ⟨rfl, fun _ _ => rfl⟩
      | ok w =>
        have hloop : Emitter.finishLoop labels (f :: fs) code =
            Emitter.finishLoop labels fs (code.set f.wordIndex w) := by
          simp only [Emitter.finishLoop, hn, hw]
        obtain ⟨hlen, hstay⟩ := ih (code.set f.wordIndex w)
        rw [hloop]
        refine ⟨by rw [hlen, List.length_set], fun i hi => ?_⟩
        rw [List.map_cons, List.mem_cons, not_or] at hi
        rw [hstay i hi.2, List.getElem?_set_ne (Ne.symm hi.1)]

/-- The words of the fixups are patched. -/
theorem finishLoop_patches {labels : List (Option Nat)} {fs : List Fixup} {code : List Word}
    (hlt : ∀ f ∈ fs, f.wordIndex < code.length) (hnodup : (fs.map Fixup.wordIndex).Nodup)
    (hok : (Emitter.finishLoop labels fs code).1 = .ok ()) :
    ∀ f ∈ fs, ∃ n w, (labels[f.label]?).join = some n ∧
      Emitter.patchBranch (code.getD f.wordIndex 0) f.kind ((n : Int) - f.wordIndex) = .ok w ∧
      (Emitter.finishLoop labels fs code).2[f.wordIndex]? = some w := by
  induction fs generalizing code with
  | nil =>
    intro f hf
    cases hf
  | cons f fs ih =>
    rw [List.forall_mem_cons] at hlt
    rw [List.map_cons, List.nodup_cons] at hnodup
    obtain ⟨n, hn, hfits⟩ := (finishLoop_ok_iff labels (f :: fs) code).mp hok f List.mem_cons_self
    obtain ⟨w, hw⟩ := patchBranch_of_fits (code.getD f.wordIndex 0) hfits
    have hloop : Emitter.finishLoop labels (f :: fs) code
        = Emitter.finishLoop labels fs (code.set f.wordIndex w) := by
      simp only [Emitter.finishLoop, hn, hw]
    rw [hloop] at hok ⊢
    have hlt' : ∀ g ∈ fs, g.wordIndex < (code.set f.wordIndex w).length := by
      intro g hg
      rw [List.length_set]
      exact hlt.2 g hg
    refine List.forall_mem_cons.mpr ⟨⟨n, w, hn, hw, ?_⟩, fun g hg => ?_⟩
    · -- no later fixup is at this word
      rw [(finishLoop_stay labels fs _).2 _ hnodup.1, List.getElem?_set_self hlt.1]
    · obtain ⟨m, v, hm, hv, hget⟩ := ih hlt' hnodup.2 hok g hg
      have hne : f.wordIndex ≠ g.wordIndex := fun heq =>
        hnodup.1 (heq ▸ List.mem_map_of_mem hg)
      rw [List.getD_eq_getElem?_getD, List.getElem?_set_ne hne,
        ← List.getD_eq_getElem?_getD] at hv
      exact ⟨m, v, hm, hv, hget⟩

namespace CodeLayout

variable {L : CodeLayout} {e : Emitter}

theorem Agrees.finish_ok_iff (h : L.Agrees e) : e.finish.1 = .ok () ↔
    ∀ (i : Nat) br l, L.items[i]? = some (Item.branch br l) → L.Forward i l →
      ∃ n, L.bound l = some n ∧ br.kind.Fits ((n : Int) - i) := by
  have hiff := finishLoop_ok_iff e.labels e.fixups e.code
  rw [h.labels] at hiff
  rw [Emitter.finish, h.labels]
  refine hiff.trans ⟨fun hall i br l hi hf => ?_, fun hall f hf => ?_⟩
  · exact hall _ (h.forward i br l hi hf)
  · obtain ⟨br, l, hi, hfw, hk, hl, -⟩ := h.fixup f hf
    rw [hk, hl]
    exact hall f.wordIndex br l hi hfw

/-- The finished code, word by word. -/
structure Resolved (L : CodeLayout) (code : List Word) : Prop where
  length : code.length = L.items.length
  word : ∀ (i : Nat) (w : Word), L.items[i]? = some (Item.word w) → code[i]? = some w
  branch : ∀ (i : Nat) br l, L.items[i]? = some (Item.branch br l) →
    ∃ n w, L.bound l = some n ∧ code[i]? = some w ∧ br.LeadsTo w i n

theorem Agrees.resolved (h : L.Agrees e) (hok : e.finish.1 = .ok ()) :
    L.Resolved e.finish.2.code := by
  have hlt : ∀ f ∈ e.fixups, f.wordIndex < e.code.length := by
    intro f hf
    obtain ⟨br, l, hi, -⟩ := h.fixup f hf
    rw [h.length]
    exact Agrees.index_lt hi
  obtain ⟨hlen, hstay⟩ := finishLoop_stay e.labels e.fixups e.code
  have hpatch := finishLoop_patches hlt h.distinct hok
  constructor
  case length => exact hlen.trans h.length
  case word =>
    intro i w hi
    refine (hstay i fun hmem => ?_).trans (h.word i w hi)
    obtain ⟨f, hf, rfl⟩ := List.mem_map.mp hmem
    obtain ⟨br, l, hi', -⟩ := h.fixup f hf
    rw [hi] at hi'
    cases hi'
  case branch =>
    intro i br l hi
    by_cases hfw : L.Forward i l
    · obtain ⟨n, w, hn, hw, hget⟩ := hpatch _ (h.forward i br l hi hfw)
      obtain ⟨br', l', hi', -, -, -, hbase⟩ := h.fixup _ (h.forward i br l hi hfw)
      rw [hi] at hi'
      cases hi'
      rw [h.labels] at hn
      rw [List.getD_eq_getElem?_getD, hbase] at hw
      exact ⟨n, w, hn, hget, br.leadsTo_of_patched hw⟩
    · obtain ⟨n, hn, hle⟩ : ∃ n, L.bound l = some n ∧ n ≤ i := by
        rw [Forward] at hfw
        push Not at hfw
        exact hfw
      obtain ⟨w, hw, hlead⟩ := h.back i br l n hi hn hle
      refine ⟨n, w, hn, (hstay i fun hmem => ?_).trans hw, hlead⟩
      obtain ⟨f, hf, rfl⟩ := List.mem_map.mp hmem
      obtain ⟨br', l', hi', hfw', -⟩ := h.fixup f hf
      rw [hi] at hi'
      cases hi'
      exact hfw hfw'

end CodeLayout

/-- **Labels and fixups.**  A sequence of calls on a new emitter that uses its labels as it may is emitted
without a panic.  Finishing then succeeds exactly when every label that a branch leads forward to is bound
within reach, and every branch of the finished code leads to its label with its fields intact, while
the other words are as they were emitted. -/
theorem finish_resolves {ε : Type} (p : Profile) (ops : List EmitOp)
    (hops : CodeLayout.new.AllowsAll ops) :
    ∃ e, (emitAll ops : EmitM ε Unit) p .new = .ok ((), e) ∧
      (e.finish.1 = .ok () ↔
        ∀ (i : Nat) br l, (codeLayout ops).items[i]? = some (Item.branch br l) → (codeLayout ops).Forward i l →
          ∃ n, (codeLayout ops).bound l = some n ∧ br.kind.Fits ((n : Int) - i)) ∧
      (e.finish.1 = .ok () → (codeLayout ops).Resolved e.finish.2.code) := by
  obtain ⟨e, he, hagrees⟩ := @CodeLayout.Agrees.emitAll _ _ ε ops agrees_new hops p
  exact ⟨e, he, hagrees.finish_ok_iff, hagrees.resolved⟩

/-- A loop with one exit: the exit branch leads forward, the last one back. -/
def loopOps : List EmitOp :=
  [.makeLabel, .makeLabel, .bindLabel ⟨0⟩, .branch (.cbz64 1) ⟨1⟩, .word 0xD503201F, .branch .b ⟨0⟩,
    .bindLabel ⟨1⟩]

theorem finish_resolves_loop :
    ∃ e, (emitAll loopOps : EmitM Empty Unit) ⟨true⟩ .new = .ok ((), e) ∧ e.finish.1 = .ok () ∧
      e.finish.2.code = [0xB4000061, 0xD503201F, 0x17FFFFFE] ∧
      (codeLayout loopOps).Resolved e.finish.2.code := by
  have hallows : CodeLayout.new.AllowsAll loopOps := by
    refine ⟨trivial, trivial, rfl, ⟨by decide, fun n hn => by cases hn⟩, trivial,
      ⟨by decide, fun n hn => ?_⟩, rfl, trivial⟩
    obtain rfl : 0 = n := Option.some.inj hn
    decide
  obtain ⟨e, he, -, hres⟩ := @finish_resolves Empty ⟨true⟩ loopOps hallows
  obtain ⟨e', he', hok, hcode⟩ : ∃ e', (emitAll loopOps : EmitM Empty Unit) ⟨true⟩ .new = .ok ((), e') ∧
      e'.finish.1 = .ok () ∧ e'.finish.2.code = [0xB4000061, 0xD503201F, 0x17FFFFFE] :=
    ⟨_, rfl, rfl, by decide⟩
  obtain rfl : e = e' := congrArg Prod.snd (Except.ok.inj (he.symm.trans he'))
  exact ⟨e, he, hok, hcode, hres hok⟩

end Quantum.Jit
