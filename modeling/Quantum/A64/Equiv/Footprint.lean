import Quantum.A64.Equiv.Stack

/-!
# Footprints of A64 instructions

What a data-processing instruction reads and writes (`readsX`, `writesX`, …), and that execution
respects it: registers outside the footprint are unchanged (`execData_frame`), and two states that
agree on what is read end in states that agree on what is written (`execData_agree`).  Loads, stores
and pairs have their own lemmas, because they also depend on memory.
-/

namespace Quantum.A64

open Word

/-! ### Reads and writes -/

/-- The general registers whose value an instruction uses; number 31 stands for zero. -/
def Insn.readsX : Insn → List Reg
  | .movWide _ op _ _ rd => if op = .movk then [rd] else []
  | .addSubImm _ _ _ _ rn _ => [rn]
  | .addSubShift _ _ rm _ rn _ => [rm, rn]
  | .addSubCarry _ rm rn _ => [rm, rn]
  | .logicShift _ rm _ rn _ => [rm, rn]
  | .andImm _ rn _ | .sbfm _ _ rn _ | .ubfm _ _ rn _ | .dp1 _ rn _ => [rn]
  | .bfm32 _ _ rn rd => [rn, rd]
  | .dp2 _ rm rn _ => [rm, rn]
  | .dp3 _ rm ra rn _ => [rm, ra, rn]
  | .csel _ rm _ rn _ => [rm, rn]
  | .cbz _ _ rt | .tbz _ _ _ rt | .msrNzcv rt => [rt]
  | .blr rn | .insD _ rn _ | .intToFp _ _ rn _ => [rn]
  | _ => []

/-- The general register an instruction writes. -/
def Insn.writesX : Insn → Option Reg
  | .movWide _ _ _ _ rd | .addSubImm _ _ _ _ _ rd | .addSubShift _ _ _ _ _ rd
  | .addSubCarry _ _ _ rd | .logicShift _ _ _ _ rd | .andImm _ _ rd | .sbfm _ _ _ rd
  | .ubfm _ _ _ rd | .bfm32 _ _ _ rd | .dp1 _ _ rd | .dp2 _ _ _ rd | .dp3 _ _ _ _ rd
  | .csel _ _ _ _ rd | .mrsNzcv rd | .mrsTpidr rd | .mrsCntvct rd | .umovB _ _ rd
  | .fpToInt _ _ _ rd => some rd
  | _ => none

/-- The vector registers whose value an instruction uses. -/
def Insn.readsV : Insn → List Reg
  | .vec _ vm vn _ | .fp2 _ vm vn _ | .fcmp _ vm vn => [vm, vn]
  | .vecShift _ _ vn _ | .addvB vn _ | .umovB _ vn _ | .fp1 _ vn _ | .fpToInt _ _ vn _ => [vn]
  | .insS _ _ vn vd => [vn, vd]
  | .insD _ _ vd => [vd]
  | _ => []

/-- The vector register an instruction writes. -/
def Insn.writesV : Insn → Option Reg
  | .vec _ _ _ vd | .vecShift _ _ _ vd | .insS _ _ _ vd | .insD _ _ vd | .addvB _ vd
  | .fp2 _ _ _ vd | .fp1 _ _ vd | .intToFp _ _ _ vd => some vd
  | .simdScalar w => some (rd w)
  | _ => none

def Insn.readsNzcv : Insn → Bool
  | .addSubCarry .. | .csel .. | .bCond .. | .mrsNzcv _ => true
  | _ => false

def Insn.writesNzcv : Insn → Bool
  | .addSubImm _ setFlags _ _ _ _ | .addSubShift _ setFlags _ _ _ _ => setFlags
  | .logicShift op _ _ _ _ => op = .ands
  | .addSubCarry .. | .msrNzcv _ | .fcmp .. => true
  | _ => false

/-- Does an instruction use register 31 as the stack pointer? -/
def Insn.usesSp : Insn → Bool
  | .addSubImm _ setFlags _ _ rn rd => rn = 31 || (!setFlags && decide (rd = 31))
  | .andImm _ _ rd => rd = 31
  | _ => false

/-- The instructions that these footprints describe: no access to memory, no branch, no call, and no
word whose effect is not known. -/
def Insn.isPlain : Insn → Bool
  | .ldst .. | .ldstPair .. | .b .. | .bCond .. | .cbz .. | .tbz .. | .br .. | .blr .. | .ret ..
  | .brk .. | .simdScalar .. => false
  | _ => true

/-! ### Agreement -/

/-- Two states agree on the registers and flags that are known. -/
structure AgreeOn (kx kv : Reg → Bool) (kf : Bool) (s₁ s₂ : State) : Prop where
  x : ∀ r, kx r = true → s₁.readX r = s₂.readX r
  v : ∀ r, kv r = true → s₁.v r = s₂.v r
  nzcv : kf = true → s₁.nzcv = s₂.nzcv
  ext : s₁.ext = s₂.ext

/-- Knowledge after a write. -/
def learn (k : Reg → Bool) : Option Reg → Reg → Bool
  | none => k
  | some w => fun r => w == r || k r

@[simp]
theorem learn_none (k : Reg → Bool) : learn k none = k := rfl

@[simp]
theorem learn_some (k : Reg → Bool) (w r : Reg) : learn k (some w) r = (w == r || k r) := rfl

namespace AgreeOn

variable {kx kv : Reg → Bool} {kf : Bool} {s₁ s₂ : State}

theorem writeX (h : AgreeOn kx kv kf s₁ s₂) (rd : Reg) {a b : BitVec 64} (hab : a = b) :
    AgreeOn (learn kx (some rd)) kv kf (s₁.writeX rd a) (s₂.writeX rd b) := by
  subst hab
  refine ⟨fun r hr => ?_, fun r hr => ?_, fun hf => ?_, ?_⟩
  · rw [learn_some, Bool.or_eq_true, beq_iff_eq] at hr
    by_cases hrd : r = rd ∧ rd ≠ 31#5
    · simp [hrd]
    · rw [State.readX_writeX, State.readX_writeX, if_neg hrd, if_neg hrd]
      rcases hr with rfl | hr
      · have h31 : rd = 31#5 := by
          by_contra hne
          exact hrd ⟨rfl, hne⟩
        simp [h31]
      · exact h.x r hr
  · simpa using h.v r hr
  · simpa using h.nzcv hf
  · simpa using h.ext

theorem writeV (h : AgreeOn kx kv kf s₁ s₂) (vd : Reg) {a b : BitVec 128} (hab : a = b) :
    AgreeOn kx (learn kv (some vd)) kf (s₁.writeV vd a) (s₂.writeV vd b) := by
  subst hab
  refine ⟨fun r hr => ?_, fun r hr => ?_, fun hf => ?_, ?_⟩
  · simpa using h.x r hr
  · rw [learn_some, Bool.or_eq_true, beq_iff_eq] at hr
    by_cases hrd : r = vd
    · simp [hrd]
    · rw [State.v_writeV, State.v_writeV, if_neg hrd, if_neg hrd]
      exact h.v r (hr.resolve_left (Ne.symm hrd))
  · simpa using h.nzcv hf
  · simpa using h.ext

theorem setNzcv (h : AgreeOn kx kv kf s₁ s₂) {f g : Flags} (hfg : f = g) :
    AgreeOn kx kv true { s₁ with nzcv := f } { s₂ with nzcv := g } :=
  ⟨fun r hr => by simpa using h.x r hr, h.v, fun _ => hfg, h.ext⟩

/-- Less knowledge. -/
theorem mono {kx' kv' : Reg → Bool} {kf' : Bool} (h : AgreeOn kx kv kf s₁ s₂)
    (hx : ∀ r, kx' r = true → kx r = true) (hv : ∀ r, kv' r = true → kv r = true)
    (hf : kf' = true → kf = true) : AgreeOn kx' kv' kf' s₁ s₂ :=
  ⟨fun r hr => h.x r (hx r hr), fun r hr => h.v r (hv r hr), fun hk => h.nzcv (hf hk), h.ext⟩

end AgreeOn

/-! ### Execution respects footprints -/

/-- What a plain instruction leaves alone: memory, the stack pointer, and every register it does not
write. -/
theorem execData_frame {env : Env} {i : Insn} {s s' : State} (hi : i.isPlain = true)
    (hsp : i.usesSp = false) (h : execData env i s = some s') :
    s'.mem = s.mem ∧ ∀ r, i.writesX ≠ some r ∨ r = 31#5 → s'.x r = s.x r := by
  have hX : ∀ (rd : Reg) (a : BitVec 64) (r : Reg), some rd ≠ some r ∨ r = 31#5 →
      (s.writeX rd a).x r = s.x r := by
    intro rd a r hr
    rw [State.x_writeX, if_neg]
    rintro ⟨rfl, hne⟩
    exact hr.elim (fun h => h rfl) hne
  have hXsp : ∀ (rd : Reg) (a : BitVec 64) (r : Reg), rd ≠ 31#5 → some rd ≠ some r ∨ r = 31#5 →
      (s.writeXsp rd a).x r = s.x r := by
    intro rd a r hne hr
    rw [← hX rd a r hr, s.writeX_of_ne _ _ hne]
    rfl
  cases i <;> first
    | exact absurd hi Bool.false_ne_true
    | (simp only [Insn.usesSp, Bool.or_eq_false_iff, Bool.and_eq_false_iff,
        Bool.not_eq_false', decide_eq_false_iff_not] at hsp
       cases h
       refine ⟨?_, fun r hr => ?_⟩ <;> try simp only [execAddSub]
       all_goals repeat' split
       all_goals first
         | rfl
         | exact hX _ _ _ hr
         | exact hXsp _ _ _ (by grind) hr
         | simp only [State.writeX_mem])

section Agree

variable {env : Env} {kx kv : Reg → Bool} {kf : Bool} {s₁ s₂ : State}

/-- The adder takes agreeing operands to agreeing states, whichever way it writes its result. -/
theorem agree_execAddSub {kx' : Reg → Bool} {sub setFlags : Bool} {a₁ a₂ b₁ b₂ : BitVec 64}
    {c₁ c₂ : Bool} {w₁ w₂ : BitVec 64 → State} (ha : a₁ = a₂) (hb : b₁ = b₂) (hc : c₁ = c₂)
    (hw : ∀ r, AgreeOn kx' kv kf (w₁ r) (w₂ r)) :
    AgreeOn kx' kv (setFlags || kf) (execAddSub sub setFlags a₁ b₁ c₁ w₁)
      (execAddSub sub setFlags a₂ b₂ c₂ w₂) := by
  subst ha hb hc
  cases setFlags with
  | true => exact (hw _).setNzcv rfl
  | false => exact hw _

/-- A plain instruction takes agreeing states to agreeing states. -/
theorem execData_agree {i : Insn} (hi : i.isPlain = true) (hsp : i.usesSp = false)
    (h : AgreeOn kx kv kf s₁ s₂) (hx : ∀ r ∈ i.readsX, kx r = true)
    (hv : ∀ r ∈ i.readsV, kv r = true) (hf : i.readsNzcv = true → kf = true) :
    ∃ s₁' s₂', execData env i s₁ = some s₁' ∧ execData env i s₂ = some s₂' ∧
      AgreeOn (learn kx i.writesX) (learn kv i.writesV) (i.writesNzcv || kf) s₁' s₂' := by
  have hX : ∀ r ∈ i.readsX, s₁.readX r = s₂.readX r := fun r hr => h.x r (hx r hr)
  have hV : ∀ r ∈ i.readsV, s₁.v r = s₂.v r := fun r hr => h.v r (hv r hr)
  have hN : i.readsNzcv = true → s₁.nzcv = s₂.nzcv := fun hr => h.nzcv (hf hr)
  cases i with
  | movWide is64 op hw imm rd =>
    refine ⟨_, _, rfl, rfl, h.writeX rd ?_⟩
    cases op with
    | movk => rw [hX rd (by simp [Insn.readsX])]
    | movz => rfl
    | movn => rfl
  | addSubImm sub setFlags sh imm rn rd =>
    have hne : rn ≠ 31#5 ∧ (setFlags = false → rd ≠ 31#5) := by
      simpa [Insn.usesSp] using hsp
    have hrn : s₁.x rn = s₂.x rn := by
      rw [← s₁.readX_of_ne rn hne.1, ← s₂.readX_of_ne rn hne.1, hX rn (by simp [Insn.readsX])]
    refine ⟨_, _, rfl, rfl, agree_execAddSub hrn rfl rfl fun r => ?_⟩
    cases setFlags with
    | true => exact h.writeX rd rfl
    | false =>
      have hw := h.writeX rd (rfl : r = r)
      rw [s₁.writeX_of_ne _ _ (hne.2 rfl), s₂.writeX_of_ne _ _ (hne.2 rfl)] at hw
      exact hw
  | addSubShift sub setFlags rm lsl rn rd =>
    refine ⟨_, _, rfl, rfl, agree_execAddSub (hX rn ?_) ?_ rfl fun r => h.writeX rd rfl⟩
    · simp [Insn.readsX]
    · rw [hX rm (by simp [Insn.readsX])]
  | addSubCarry sub rm rn rd =>
    refine ⟨_, _, rfl, rfl, agree_execAddSub (hX rn ?_) (hX rm ?_) ?_ fun r => h.writeX rd rfl⟩
    · simp [Insn.readsX]
    · simp [Insn.readsX]
    · rw [hN rfl]
  | logicShift op rm lsl rn rd =>
    have hr : execLogic op (s₁.readX rn) (s₁.readX rm <<< lsl.toNat)
        = execLogic op (s₂.readX rn) (s₂.readX rm <<< lsl.toNat) := by
      rw [hX rn (by simp [Insn.readsX]), hX rm (by simp [Insn.readsX])]
    refine ⟨_, _, rfl, rfl, ?_⟩
    simp only [hr]
    cases op with
    | ands => exact (h.writeX rd rfl).setNzcv rfl
    | and => exact h.writeX rd rfl
    | orr => exact h.writeX rd rfl
    | eor => exact h.writeX rd rfl
    | orn => exact h.writeX rd rfl
  | andImm imms rn rd =>
    have hne : rd ≠ 31#5 := by simpa [Insn.usesSp] using hsp
    refine ⟨_, _, rfl, rfl, ?_⟩
    rw [hX rn (by simp [Insn.readsX])]
    have hw := h.writeX rd (rfl : s₂.readX rn &&& BitVec.ofNat 64 (2 ^ (imms.toNat + 1) - 1) = _)
    rw [s₁.writeX_of_ne _ _ hne, s₂.writeX_of_ne _ _ hne] at hw
    exact hw
  | sbfm immr imms rn rd =>
    exact ⟨_, _, rfl, rfl, h.writeX rd (by rw [hX rn (by simp [Insn.readsX])])⟩
  | ubfm immr imms rn rd =>
    exact ⟨_, _, rfl, rfl, h.writeX rd (by rw [hX rn (by simp [Insn.readsX])])⟩
  | bfm32 immr imms rn rd =>
    exact ⟨_, _, rfl, rfl, h.writeX rd
      (by rw [hX rn (by simp [Insn.readsX]), hX rd (by simp [Insn.readsX])])⟩
  | dp1 op rn rd => exact ⟨_, _, rfl, rfl, h.writeX rd (by rw [hX rn (by simp [Insn.readsX])])⟩
  | dp2 op rm rn rd =>
    exact ⟨_, _, rfl, rfl, h.writeX rd
      (by rw [hX rn (by simp [Insn.readsX]), hX rm (by simp [Insn.readsX])])⟩
  | dp3 op rm ra rn rd =>
    exact ⟨_, _, rfl, rfl, h.writeX rd (by rw [hX rn (by simp [Insn.readsX]),
      hX rm (by simp [Insn.readsX]), hX ra (by simp [Insn.readsX])])⟩
  | csel op rm cond rn rd =>
    exact ⟨_, _, rfl, rfl, h.writeX rd (by rw [hN rfl, hX rn (by simp [Insn.readsX]),
      hX rm (by simp [Insn.readsX])])⟩
  | hint => exact ⟨_, _, rfl, rfl, h⟩
  | mrsNzcv rt => exact ⟨_, _, rfl, rfl, h.writeX rt (by rw [hN rfl])⟩
  | msrNzcv rt =>
    exact ⟨_, _, rfl, rfl, h.setNzcv (by rw [hX rt (by simp [Insn.readsX])])⟩
  | mrsTpidr rt => exact ⟨_, _, rfl, rfl, h.writeX rt rfl⟩
  | mrsCntvct rt =>
    have hw := h.writeX rt (congrArg env.counter h.ext)
    exact ⟨_, _, rfl, rfl, hw.x, hw.v, hw.nzcv, congrArg (· + 1) h.ext⟩
  | vec op vm vn vd =>
    exact ⟨_, _, rfl, rfl, h.writeV vd
      (by rw [hV vn (by simp [Insn.readsV]), hV vm (by simp [Insn.readsV])])⟩
  | vecShift op immhb vn vd =>
    exact ⟨_, _, rfl, rfl, h.writeV vd (by rw [hV vn (by simp [Insn.readsV])])⟩
  | insS dst src vn vd =>
    exact ⟨_, _, rfl, rfl, h.writeV vd
      (by rw [hV vn (by simp [Insn.readsV]), hV vd (by simp [Insn.readsV])])⟩
  | insD lane rn vd =>
    exact ⟨_, _, rfl, rfl, h.writeV vd
      (by rw [hX rn (by simp [Insn.readsX]), hV vd (by simp [Insn.readsV])])⟩
  | addvB vn vd => exact ⟨_, _, rfl, rfl, h.writeV vd (by rw [hV vn (by simp [Insn.readsV])])⟩
  | umovB lane vn rd =>
    exact ⟨_, _, rfl, rfl, h.writeX rd (by rw [hV vn (by simp [Insn.readsV])])⟩
  | fp2 op vm vn vd =>
    exact ⟨_, _, rfl, rfl, h.writeV vd
      (by rw [hV vn (by simp [Insn.readsV]), hV vm (by simp [Insn.readsV])])⟩
  | fp1 op vn vd => exact ⟨_, _, rfl, rfl, h.writeV vd (by rw [hV vn (by simp [Insn.readsV])])⟩
  | fpToInt is64 op vn rd =>
    exact ⟨_, _, rfl, rfl, h.writeX rd (by rw [hV vn (by simp [Insn.readsV])])⟩
  | intToFp is64 op rn vd =>
    exact ⟨_, _, rfl, rfl, h.writeV vd (by rw [hX rn (by simp [Insn.readsX])])⟩
  | fcmp op vm vn =>
    exact ⟨_, _, rfl, rfl, h.setNzcv
      (by rw [hV vn (by simp [Insn.readsV]), hV vm (by simp [Insn.readsV])])⟩
  | ldst | ldstPair | b | bCond | cbz | tbz | br | blr | ret | brk | simdScalar =>
    exact absurd hi Bool.false_ne_true

end Agree

end Quantum.A64
