import Quantum.A64.Exec
import Mathlib.Computability.StateTransition

/-!
# Runs of A64 code

A stretch of code without branches is a list of decoded words, and `runSeq` is its effect on the
state.  The words of such a stretch stand at a place of the whole code (`CodeAt`), and there the
machine's own steps do what `runSeq` says:

* `reaches_of_runSeq`: if `runSeq` gives a state, the machine reaches it at the end of the stretch;
* `runSeq_of_returned`: a run from the start of the stretch that gets back to the caller passes its
  end, in the state `runSeq` gives.

The file also has the small facts about register reads and writes that symbolic execution uses.
-/

namespace Quantum.A64

open StateTransition

/-! ### Registers -/

namespace State

variable (s : State) (r q : Reg) (a b : BitVec 64)

@[simp]
theorem x_writeX : (s.writeX r a).x q = if q = r ∧ r ≠ 31#5 then a else s.x q := by
  by_cases hr : r = 31#5
  · simp [writeX, hr]
  · simp [writeX, hr, Function.update_apply]

@[simp]
theorem readX_writeX : (s.writeX r a).readX q = if q = r ∧ r ≠ 31#5 then a else s.readX q := by
  by_cases hq : q = 31#5
  · have hr : ¬ (q = r ∧ r ≠ 31#5) := fun h => h.2 (h.1 ▸ hq)
    rw [if_neg hr, hq]
    rfl
  · simp [readX, hq]

@[simp] theorem writeX_v : (s.writeX r a).v = s.v := by unfold writeX; split <;> rfl
@[simp] theorem writeX_nzcv : (s.writeX r a).nzcv = s.nzcv := by unfold writeX; split <;> rfl
@[simp] theorem writeX_mem : (s.writeX r a).mem = s.mem := by unfold writeX; split <;> rfl
@[simp] theorem writeX_ext : (s.writeX r a).ext = s.ext := by unfold writeX; split <;> rfl

@[simp]
theorem x_writeXsp : (s.writeXsp r a).x q = if q = r then a else s.x q := by
  simp [writeXsp, Function.update_apply]

@[simp]
theorem readX_writeXsp :
    (s.writeXsp r a).readX q = if q = r ∧ q ≠ 31#5 then a else s.readX q := by
  by_cases hq : q = 31#5 <;> simp [readX, hq]

@[simp] theorem writeXsp_v : (s.writeXsp r a).v = s.v := rfl
@[simp] theorem writeXsp_nzcv : (s.writeXsp r a).nzcv = s.nzcv := rfl
@[simp] theorem writeXsp_mem : (s.writeXsp r a).mem = s.mem := rfl
@[simp] theorem writeXsp_ext : (s.writeXsp r a).ext = s.ext := rfl

@[simp] theorem writeV_x (c : BitVec 128) : (s.writeV r c).x = s.x := rfl
@[simp] theorem writeV_readX (c : BitVec 128) : (s.writeV r c).readX q = s.readX q := rfl
@[simp] theorem writeV_nzcv (c : BitVec 128) : (s.writeV r c).nzcv = s.nzcv := rfl
@[simp] theorem writeV_mem (c : BitVec 128) : (s.writeV r c).mem = s.mem := rfl
@[simp] theorem writeV_ext (c : BitVec 128) : (s.writeV r c).ext = s.ext := rfl

@[simp]
theorem v_writeV (c : BitVec 128) : (s.writeV r c).v q = if q = r then c else s.v q := by
  simp [writeV, Function.update_apply]

@[simp] theorem readX_zr : s.readX 31#5 = 0#64 := rfl

theorem readX_of_ne (h : r ≠ 31#5) : s.readX r = s.x r := if_neg h

@[simp] theorem readX_nzcv (f : Flags) : readX { s with nzcv := f } r = s.readX r := rfl
@[simp] theorem readX_mem (m : ByteMem) : readX { s with mem := m } r = s.readX r := rfl

/-- Writing back what a register holds changes nothing. -/
theorem writeX_x_self : s.writeX r (s.x r) = s := by
  unfold writeX
  split
  · rfl
  · rw [Function.update_eq_self]

theorem writeX_of_ne (h : r ≠ 31#5) :
    s.writeX r a = { s with x := Function.update s.x r a } := if_neg h

end State

/-! ### Stretches without branches -/

/-- One instruction of a stretch: data processing, a load or store, or a call. -/
def execOne (env : Env) (pc : Nat) (i : Insn) (s : State) : Option State :=
  match i with
  | .blr rn => execCall env pc rn s
  | i => execData env i s

/-- The effect of the decoded words of a stretch that starts at index `pc`. -/
def runSeq (env : Env) : Nat → List (Option Insn) → State → Option State
  | _, [], s => some s
  | _, none :: _, _ => none
  | pc, some i :: is, s => (execOne env pc i s).bind (runSeq env (pc + 1) is)

variable {env : Env} {code : List Word} {pc : Nat} {s s' : State}

@[simp]
theorem runSeq_nil : runSeq env pc [] s = some s := rfl

@[simp]
theorem runSeq_none (is : List (Option Insn)) : runSeq env pc (none :: is) s = none := rfl

@[simp]
theorem runSeq_cons (i : Insn) (is : List (Option Insn)) :
    runSeq env pc (some i :: is) s = (execOne env pc i s).bind (runSeq env (pc + 1) is) := rfl

theorem runSeq_append (is js : List (Option Insn)) (pc : Nat) (s : State) :
    runSeq env pc (is ++ js) s
      = (runSeq env pc is s).bind (runSeq env (pc + is.length) js) := by
  induction is generalizing pc s with
  | nil => rfl
  | cons o is ih =>
    cases o with
    | none => rfl
    | some i =>
      simp only [List.cons_append, runSeq_cons, Option.bind_assoc, List.length_cons]
      refine Option.bind_congr fun s₁ _ => ?_
      rw [ih, show pc + 1 + is.length = pc + (is.length + 1) by omega]

/-- From every state the stretch runs to its end, in a state that `R` relates to the first. -/
def Does (R : State → State → Prop) (is : List (Option Insn)) : Prop :=
  ∀ env pc s, ∃ s', runSeq env pc is s = some s' ∧ R s s'

theorem Does.append {R S : State → State → Prop} {is js : List (Option Insn)} (hR : Does R is)
    (hS : Does S js) : Does (fun s s' => ∃ t, R s t ∧ S t s') (is ++ js) := by
  intro env pc s
  obtain ⟨t, ht, hst⟩ := hR env pc s
  obtain ⟨s', hs', hts'⟩ := hS env (pc + is.length) t
  refine ⟨s', ?_, t, hst, hts'⟩
  rw [runSeq_append, ht, Option.bind_some, hs']

theorem Does.mono {R S : State → State → Prop} {is : List (Option Insn)} (h : Does R is)
    (hRS : ∀ s s', R s s' → S s s') : Does S is := by
  intro env pc s
  obtain ⟨s', hs', hR⟩ := h env pc s
  exact ⟨s', hs', hRS s s' hR⟩

/-! ### A stretch in the code -/

/-- The words of `code` from index `pc` on decode to `is`. -/
def CodeAt (code : List Word) (pc : Nat) (is : List (Option Insn)) : Prop :=
  ∃ pre ws suf, code = pre ++ ws ++ suf ∧ pre.length = pc ∧ ws.map decode = is

theorem CodeAt.cons {o : Option Insn} {is : List (Option Insn)} (h : CodeAt code pc (o :: is)) :
    (code[pc]?).map decode = some o ∧ CodeAt code (pc + 1) is := by
  obtain ⟨pre, ws, suf, rfl, rfl, hws⟩ := h
  cases ws with
  | nil => simp at hws
  | cons w ws =>
    rw [List.map_cons, List.cons.injEq] at hws
    refine ⟨by simp [hws.1], pre ++ [w], ws, suf, by simp, by simp, hws.2⟩

theorem CodeAt.append {is js : List (Option Insn)} (h : CodeAt code pc (is ++ js)) :
    CodeAt code pc is ∧ CodeAt code (pc + is.length) js := by
  obtain ⟨pre, ws, suf, rfl, rfl, hws⟩ := h
  obtain ⟨ws₁, ws₂, rfl, h₁, h₂⟩ := List.map_eq_append_iff.mp hws
  refine ⟨⟨pre, ws₁, ws₂ ++ suf, by simp, rfl, h₁⟩, pre ++ ws₁, ws₂, suf, by simp, ?_, h₂⟩
  rw [List.length_append, ← h₁, List.length_map]

/-- The step at a word that is not allocated. -/
theorem step_of_none (h : (code[pc]?).map decode = some none) :
    step env code (.at pc s) = none := by
  obtain ⟨w, hw, hd⟩ := Option.map_eq_some_iff.mp h
  simp [step, hw, hd]

/-- The step at a decoded word. -/
theorem step_of_some {i : Insn} (h : (code[pc]?).map decode = some (some i)) :
    step env code (.at pc s) = execAt env pc i s := by
  obtain ⟨w, hw, hd⟩ := Option.map_eq_some_iff.mp h
  simp [step, hw, hd]

/-- The instructions that a stretch may hold: those that go on to the next word. -/
def Insn.isLinear : Insn → Bool
  | .b .. | .bCond .. | .cbz .. | .tbz .. | .br .. | .ret .. => false
  | _ => true

theorem execAt_of_isLinear {i : Insn} (h : i.isLinear = true) :
    execAt env pc i s = (execOne env pc i s).map (.at (pc + 1)) := by
  cases i <;> first | rfl | cases h

theorem execOne_isLinear {i : Insn} (h : execOne env pc i s = some s') : i.isLinear = true := by
  cases i <;> first | rfl | cases h

/-- A stretch that runs to its end has no branches. -/
theorem isLinear_of_runSeq {is : List (Option Insn)} (h : runSeq env pc is s = some s') :
    ∀ i, some i ∈ is → i.isLinear = true := by
  induction is generalizing pc s with
  | nil => simp
  | cons o is ih =>
    cases o with
    | none => cases h
    | some j =>
      obtain ⟨s₁, hs₁, hrest⟩ := Option.bind_eq_some_iff.mp h
      intro i hi
      rcases List.mem_cons.mp hi with heq | hi
      · rw [Option.some.inj heq]
        exact execOne_isLinear hs₁
      · exact ih hrest i hi

theorem reaches_of_runSeq {is : List (Option Insn)} (hc : CodeAt code pc is)
    (h : runSeq env pc is s = some s') :
    Reaches (step env code) (.at pc s) (.at (pc + is.length) s') := by
  induction is generalizing pc s with
  | nil =>
    rw [runSeq_nil, Option.some.injEq] at h
    rw [h]
    exact .refl
  | cons o is ih =>
    obtain ⟨h₁, h₂⟩ := hc.cons
    cases o with
    | none => cases h
    | some i =>
      obtain ⟨s₁, hs₁, hrest⟩ := Option.bind_eq_some_iff.mp h
      have hstep : step env code (.at pc s) = some (.at (pc + 1) s₁) := by
        rw [step_of_some h₁, execAt_of_isLinear (execOne_isLinear hs₁), hs₁]
        rfl
      rw [List.length_cons, show pc + (is.length + 1) = pc + 1 + is.length by omega]
      exact .head hstep (ih h₂ hrest)

/-- A run from the start of a stretch to a place outside it passes its end. -/
theorem runSeq_of_reaches {is : List (Option Insn)} {c : Config} (hc : CodeAt code pc is)
    (hlin : ∀ i, some i ∈ is → i.isLinear = true) (hout : ∀ i t, c = .at i t → pc + is.length ≤ i)
    (h : Reaches (step env code) (.at pc s) c) :
    ∃ s', runSeq env pc is s = some s' ∧
      Reaches (step env code) (.at (pc + is.length) s') c := by
  induction is generalizing pc s with
  | nil => exact ⟨s, rfl, h⟩
  | cons o is ih =>
    obtain ⟨h₁, h₂⟩ := hc.cons
    have hlen : pc + (o :: is).length = pc + 1 + is.length := by
      rw [List.length_cons]
      omega
    rw [hlen] at hout ⊢
    rcases Relation.ReflTransGen.cases_head h with heq | ⟨c', hstep, hrest⟩
    · have hle := hout pc s heq.symm
      omega
    cases o with
    | none => rw [step_of_none h₁] at hstep; cases hstep
    | some i =>
      rw [step_of_some h₁, execAt_of_isLinear (hlin i (by simp))] at hstep
      obtain ⟨s₁, hs₁, rfl⟩ := Option.map_eq_some_iff.mp hstep
      obtain ⟨s₂, hs₂, hlast⟩ := ih h₂ (fun j hj => hlin j (by simp [hj])) hout hrest
      refine ⟨s₂, ?_, hlast⟩
      rw [runSeq_cons, hs₁]
      exact hs₂

/-- From the end of the code nothing runs. -/
theorem eq_of_reaches_end {s' : State} (h : Reaches (step env code) (.at code.length s) (.at code.length s')) :
    s = s' := by
  rcases Relation.ReflTransGen.cases_head h with heq | ⟨c, hstep, -⟩
  · injection heq
  · rw [Option.mem_def, step, List.getElem?_length] at hstep
    cases hstep

/-- A run from the start of the last stretch of the code to its end is the run of the stretch. -/
theorem runSeq_of_reaches_end {is : List (Option Insn)} (hc : CodeAt code pc is)
    (hend : pc + is.length = code.length) (hlin : ∀ i, some i ∈ is → i.isLinear = true)
    (h : Reaches (step env code) (.at pc s) (.at code.length s')) :
    runSeq env pc is s = some s' := by
  have hout : ∀ i t, Config.at code.length s' = .at i t → pc + is.length ≤ i := by
    intro i t heq
    injection heq with hi
    omega
  obtain ⟨s₁, hs₁, hrest⟩ := runSeq_of_reaches hc hlin hout h
  rw [hend] at hrest
  rw [hs₁, eq_of_reaches_end hrest]

/-- A run from the start of a stretch back to the caller passes the end of the stretch. -/
theorem runSeq_of_returned {is : List (Option Insn)} {r : State} (hc : CodeAt code pc is)
    (hlin : ∀ i, some i ∈ is → i.isLinear = true)
    (h : Reaches (step env code) (.at pc s) (.returned r)) :
    ∃ s', runSeq env pc is s = some s' ∧
      Reaches (step env code) (.at (pc + is.length) s') (.returned r) := by
  refine runSeq_of_reaches hc hlin (fun i t heq => ?_) h
  cases heq

end Quantum.A64
