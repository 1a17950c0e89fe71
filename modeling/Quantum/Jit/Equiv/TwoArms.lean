import Quantum.Jit.Equiv.Labels
import Quantum.Jit.Equiv.BlockParts

/-!
# Code with two arms

A block, a conditional branch over the first arm, a jump over the second: the shape of an instruction that
does one of two things.  `compile_twoArms` says what the finished code is, and `exec_twoArms_iff` that it
runs the block and then the arm that the flags choose, also when a part of it cannot run.
-/

namespace Quantum.Jit

open A64 StateTransition
open EmitM

variable {ε α : Type} {p : Profile}

/-- The first arm when the condition fails, the second when it holds. -/
def emitTwoArms (c : A64.Cond) (first second : EmitM ε Unit) : EmitM ε Unit := do
  let other ← makeLabel
  bCond c other
  first
  let fin ← makeLabel
  b fin
  bindLabel other
  second
  bindLabel fin

/-- The code of a block and two arms; the distances are in words, from the branch. -/
def TwoArms (c : A64.Cond) (is js ks : List (Option Insn)) (ws : List Word) : Prop :=
  ∃ i₁ i₂, ws.map decode = is ++ some (.bCond c i₁) :: (js ++ some (.b false i₂) :: ks) ∧
    i₁.toInt = (js.length + 2 : Nat) ∧ i₂.toInt = (ks.length + 1 : Nat)

/-! ### The finished code -/

theorem emitBranch_of_unbound {w : Word} {kind : FixupKind} {l : Label} {e : Emitter}
    (h : e.labels[l.id]? = some none) : (emitBranch w kind l : EmitM ε Unit) p e
      = .ok ((), { e with
          code := e.code ++ [w]
          fixups := e.fixups ++ [⟨e.code.length, kind, l.id⟩] }) := by
  unfold emitBranch
  rw [h]

theorem bindLabel_of_unbound {l : Label} {e : Emitter} (h : e.labels[l.id]? = some none) :
    (bindLabel l : EmitM ε Unit) p e
      = .ok ((), { e with labels := e.labels.set l.id (some e.code.length) }) := by
  unfold bindLabel
  rw [h]

/-- The emitter after the two arms: both branches wait for their labels. -/
theorem emitTwoArms_eq {c : A64.Cond} {first second : EmitM ε Unit} {B C : List (Option Insn) → Prop}
    (hB : Emits p first fun _ is => B is) (hC : Emits p second fun _ is => C is) {ws₀ : List Word}
    {e' : Emitter} (h : emitTwoArms c first second p ⟨ws₀, [], []⟩ = .ok ((), e')) :
    ∃ ws₁ ws₂, B (ws₁.map decode) ∧ C (ws₂.map decode) ∧
      e' = ⟨ws₀ ++ (Branch.bCond c).base :: (ws₁ ++ Branch.b.base :: ws₂),
        [some (ws₀.length + 1 + ws₁.length + 1), some (ws₀.length + 1 + ws₁.length + 1 + ws₂.length)],
        [⟨ws₀.length, .branch19, 0⟩, ⟨ws₀.length + 1 + ws₁.length, .branch26, 1⟩]⟩ := by
  unfold emitTwoArms at h
  have hlabel : ∀ (code : List Word), (makeLabel : EmitM ε Label) p ⟨code, [], []⟩
      = .ok (⟨0⟩, ⟨code, [none], []⟩) := fun _ => rfl
  have hlabel' : ∀ (code : List Word) fs, (makeLabel : EmitM ε Label) p ⟨code, [none], fs⟩
      = .ok (⟨1⟩, ⟨code, [none, none], fs⟩) := fun _ _ => rfl
  have hbranch : ∀ (code : List Word), (bCond c ⟨0⟩ : EmitM ε Unit) p ⟨code, [none], []⟩
      = .ok ((), ⟨code ++ [(Branch.bCond c).base], [none], [⟨code.length, .branch19, 0⟩]⟩) :=
    fun code => emitBranch_of_unbound rfl
  have hjump : ∀ (code : List Word) fs, (b ⟨1⟩ : EmitM ε Unit) p ⟨code, [none, none], fs⟩
      = .ok ((), ⟨code ++ [Branch.b.base], [none, none], fs ++ [⟨code.length, .branch26, 1⟩]⟩) :=
    fun code fs => emitBranch_of_unbound rfl
  have hother : ∀ (code : List Word) fs, (bindLabel ⟨0⟩ : EmitM ε Unit) p ⟨code, [none, none], fs⟩
      = .ok ((), ⟨code, [some code.length, none], fs⟩) := fun code fs => bindLabel_of_unbound rfl
  have hfin : ∀ (code : List Word) n fs, (bindLabel ⟨1⟩ : EmitM ε Unit) p ⟨code, [n, none], fs⟩
      = .ok ((), ⟨code, [n, some code.length], fs⟩) := fun code n fs => bindLabel_of_unbound rfl
  -- the arms are emitted between the calls whose effect is known
  rw [bind_of_ok (hlabel _), bind_of_ok (hbranch _)] at h
  obtain ⟨_, e₁, h₁, h⟩ := bind_eq_ok h
  obtain ⟨ws₁, rfl, hB⟩ := hB _ _ _ h₁
  dsimp only [Emitter.append] at h
  rw [bind_of_ok (hlabel' _ _), bind_of_ok (hjump _ _), bind_of_ok (hother _ _)] at h
  obtain ⟨_, e₂, h₂, h⟩ := bind_eq_ok h
  obtain ⟨ws₂, rfl, hC⟩ := hC _ _ _ h₂
  dsimp only [Emitter.append] at h
  rw [hfin] at h
  obtain rfl := (Prod.mk.inj (Except.ok.inj h)).2
  refine ⟨ws₁, ws₂, hB, hC, ?_⟩
  simp only [List.append_assoc, List.cons_append, List.nil_append, List.length_append, List.length_nil,
    List.length_cons, Emitter.mk.injEq, List.cons.injEq, Fixup.mk.injEq, Option.some.injEq, and_true,
    true_and]
  omega

/-- The branches of two arms, patched. -/
theorem finish_twoArms {c : A64.Cond} {ws₀ ws₁ ws₂ : List Word} {n₁ n₂ : Nat} {u : Unit} {e' : Emitter}
    (h : Emitter.finish ⟨ws₀ ++ (Branch.bCond c).base :: (ws₁ ++ Branch.b.base :: ws₂), [some n₁, some n₂],
      [⟨ws₀.length, .branch19, 0⟩, ⟨ws₀.length + 1 + ws₁.length, .branch26, 1⟩]⟩ = (.ok u, e')) :
    ∃ w₁ w₂, e'.code = ws₀ ++ w₁ :: (ws₁ ++ w₂ :: ws₂) ∧ (Branch.bCond c).LeadsTo w₁ ws₀.length n₁ ∧
      Branch.b.LeadsTo w₂ (ws₀.length + 1 + ws₁.length) n₂ := by
  have hloop := congrArg Prod.fst h
  have hcode := congrArg (fun q => q.2.code) h
  dsimp only [Emitter.finish] at hloop hcode
  simp only [Emitter.finishLoop, List.getElem?_cons_zero, List.getElem?_cons_succ, Option.join_some]
    at hloop hcode
  have hfirst : (ws₀ ++ (Branch.bCond c).base :: (ws₁ ++ Branch.b.base :: ws₂)).getD ws₀.length 0
      = (Branch.bCond c).base := by
    simp
  rw [hfirst] at hloop hcode
  split at hloop
  · cases hloop
  · -- the first branch is patched, and the words behind it stay where they are
    rename_i w₁ hw₁
    rw [hw₁] at hcode
    dsimp only at hcode
    have hset : (ws₀ ++ (Branch.bCond c).base :: (ws₁ ++ Branch.b.base :: ws₂)).set ws₀.length w₁
        = ws₀ ++ w₁ :: (ws₁ ++ Branch.b.base :: ws₂) := by
      simp
    have hsecond : (ws₀ ++ w₁ :: (ws₁ ++ Branch.b.base :: ws₂)).getD (ws₀.length + 1 + ws₁.length) 0
        = Branch.b.base := by
      rw [List.getD_eq_getElem?_getD, Nat.add_assoc, List.getElem?_append_right (by omega),
        Nat.add_sub_cancel_left, Nat.add_comm 1]
      simp
    rw [hset, hsecond] at hloop hcode
    split at hloop
    · cases hloop
    · rename_i w₂ hw₂
      rw [hw₂] at hcode
      dsimp only at hcode
      refine ⟨w₁, w₂, ?_, Branch.leadsTo_of_patched hw₁, Branch.leadsTo_of_patched hw₂⟩
      rw [← hcode, List.set_append_right _ _ (by omega), Nat.add_assoc, Nat.add_sub_cancel_left,
        Nat.add_comm 1, List.set_cons_succ]
      simp

/-- The code of a block and two arms, with the branches patched. -/
theorem compile_twoArms {m : EmitM ε α} {c : A64.Cond} {first second : α → EmitM ε Unit}
    {A B C : α → List (Option Insn) → Prop} (hA : Emits p m A)
    (hB : ∀ a, Emits p (first a) fun _ is => B a is) (hC : ∀ a, Emits p (second a) fun _ is => C a is)
    {ws : List Word} (hws : compile p (do let a ← m; emitTwoArms c (first a) (second a)) = some ws) :
    ∃ a is js ks, A a is ∧ B a js ∧ C a ks ∧ TwoArms c is js ks ws := by
  unfold compile at hws
  split at hws
  · rename_i u e hm
    obtain ⟨a, e₀, h₀, h⟩ := bind_eq_ok hm
    obtain ⟨ws₀, rfl, hA⟩ := hA _ _ _ h₀
    obtain ⟨ws₁, ws₂, hB, hC, rfl⟩ := emitTwoArms_eq (hB a) (hC a) h
    split at hws
    · rename_i e' hfin
      obtain rfl := Option.some.inj hws
      obtain ⟨w₁, w₂, hcode, ⟨i₁, hw₁, hi₁⟩, i₂, hw₂, hi₂⟩ := finish_twoArms hfin
      refine ⟨a, _, _, _, hA, hB, hC, i₁, i₂, ?_, ?_, ?_⟩
      · rw [hcode]
        simp only [List.map_append, List.map_cons, hw₁, hw₂]
        rfl
      · rw [List.length_map]
        change i₁.toInt = _
        omega
      · rw [List.length_map]
        change i₂.toInt = _
        omega
    · cases hws
  · cases hws

/-! ### Runs -/

section Runs

variable {env : Env} {c : A64.Cond} {is js ks : List (Option Insn)} {ws : List Word} {s s' t : State}

/-- The places of the three parts, and of the two branches. -/
theorem TwoArms.places (h : TwoArms c is js ks ws) : ∃ i₁ i₂,
    CodeAt ws 0 is ∧ (ws[is.length]?).map decode = some (some (.bCond c i₁)) ∧
    CodeAt ws (is.length + 1) js ∧ (ws[is.length + 1 + js.length]?).map decode = some (some (.b false i₂)) ∧
    CodeAt ws (is.length + 1 + js.length + 1) ks ∧
    ws.length = is.length + 1 + js.length + 1 + ks.length ∧
    i₁.toInt = (js.length + 2 : Nat) ∧ i₂.toInt = (ks.length + 1 : Nat) := by
  obtain ⟨i₁, i₂, hws, hi₁, hi₂⟩ := h
  have hcode : CodeAt ws 0 (ws.map decode) := ⟨[], ws, [], by simp, rfl, rfl⟩
  have hlen := congrArg List.length hws
  rw [hws] at hcode
  obtain ⟨his, hrest⟩ := hcode.append
  obtain ⟨hb₁, hrest⟩ := hrest.cons
  obtain ⟨hjs, hrest⟩ := hrest.append
  obtain ⟨hb₂, hks⟩ := hrest.cons
  rw [Nat.zero_add] at hb₁ hjs hb₂ hks
  refine ⟨i₁, i₂, his, hb₁, hjs, hb₂, hks, ?_, hi₁, hi₂⟩
  simp only [List.length_map, List.length_append, List.length_cons] at hlen
  omega

/-- A branch forward. -/
theorem branchTo_natCast (pc n : Nat) : branchTo pc (n : Int) t = some (.at (pc + n) t) := by
  rw [branchTo, if_pos (by omega)]
  rfl

/-- The step at the branch that chooses. -/
theorem step_choose {pc n : Nat} {i : BitVec 19} (h : (ws[pc]?).map decode = some (some (.bCond c i)))
    (hi : i.toInt = (n : Int)) :
    step env ws (.at pc t) = some (.at (if c.holds t.nzcv then pc + n else pc + 1) t) := by
  rw [step_of_some h]
  show branchTo pc (if c.holds t.nzcv then i.toInt else 1) t = _
  split
  · rw [hi, branchTo_natCast]
  · exact branchTo_natCast pc 1

/-- The step at the jump over the second arm. -/
theorem step_over {pc n : Nat} {i : BitVec 26} (h : (ws[pc]?).map decode = some (some (.b false i)))
    (hi : i.toInt = (n : Int)) : step env ws (.at pc t) = some (.at (pc + n) t) := by
  rw [step_of_some h]
  show branchTo pc i.toInt t = _
  rw [hi, branchTo_natCast]

/-- A run that is not at its end takes a step. -/
theorem reaches_of_step {c₀ c₁ c₂ : Config} (hstep : step env ws c₀ = some c₁) (hne : c₀ ≠ c₂)
    (h : Reaches (step env ws) c₀ c₂) : Reaches (step env ws) c₁ c₂ := by
  rcases Relation.ReflTransGen.cases_head h with heq | ⟨c, hc, hrest⟩
  · exact absurd heq hne
  · rw [Option.mem_def, hstep, Option.some.injEq] at hc
    rwa [hc]

/-- **A block and two arms.**  The code runs the block, and then the arm that the flags choose. -/
theorem exec_twoArms_iff (h : TwoArms c is js ks ws) (his : ∀ i, some i ∈ is → i.isLinear = true)
    (hjs : ∀ i, some i ∈ js → i.isLinear = true) (hks : ∀ i, some i ∈ ks → i.isLinear = true) :
    Exec env ws s s' ↔ ∃ t, runSeq env 0 is s = some t ∧
      if c.holds t.nzcv then runSeq env (is.length + 1 + js.length + 1) ks t = some s'
      else runSeq env (is.length + 1) js t = some s' := by
  obtain ⟨i₁, i₂, hat₀, hb₁, hat₁, hb₂, hat₂, hlen, hi₁, hi₂⟩ := h.places
  have hjump : is.length + (js.length + 2) = is.length + 1 + js.length + 1 := by omega
  have hover : is.length + 1 + js.length + (ks.length + 1) = ws.length := by omega
  constructor
  · -- no part is at the end of the code, so a run to the end passes the end of each
    intro hexec
    obtain ⟨t, ht, hrest⟩ := runSeq_of_reaches hat₀ his (fun i t heq => by injection heq; omega) hexec
    rw [Nat.zero_add] at hrest
    refine ⟨t, ht, ?_⟩
    have hnext := reaches_of_step (step_choose hb₁ hi₁) (fun heq => by injection heq; omega) hrest
    split
    · rename_i hc
      rw [if_pos hc, hjump] at hnext
      exact runSeq_of_reaches_end hat₂ hlen.symm hks hnext
    · rename_i hc
      rw [if_neg hc] at hnext
      obtain ⟨u, hu, hlast⟩ := runSeq_of_reaches hat₁ hjs (fun i t heq => by injection heq; omega) hnext
      have hend := reaches_of_step (step_over hb₂ hi₂) (fun heq => by injection heq; omega) hlast
      rw [hover] at hend
      rw [hu, eq_of_reaches_end hend]
  · rintro ⟨t, ht, harm⟩
    have hblock := reaches_of_runSeq hat₀ ht
    rw [Nat.zero_add] at hblock
    have hchoose := hblock.tail (step_choose hb₁ hi₁)
    split at harm
    · rename_i hc
      rw [if_pos hc, hjump] at hchoose
      have harm' := reaches_of_runSeq hat₂ harm
      rw [← hlen] at harm'
      exact hchoose.trans harm'
    · rename_i hc
      rw [if_neg hc] at hchoose
      have harm' := (reaches_of_runSeq hat₁ harm).tail (step_over hb₂ hi₂)
      rw [hover] at harm'
      exact hchoose.trans harm'

end Runs

end Quantum.Jit
