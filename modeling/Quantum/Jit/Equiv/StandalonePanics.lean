import Quantum.Jit.Equiv.Panics
import Quantum.Jit.Equiv.Standalone

/-!
# When the translation of standalone code panics

Every instruction of standalone code gets a label that is bound where its code starts, so a branch to an
instruction before it is encoded at once.  This panics when the distance does not fit; a distance to an
instruction that comes later is checked at the end, and gives an error.  With the hazards of the lifts this is
the condition for `translateWithStack` (`endsInPanic_translateWithStack`).
-/

namespace Quantum.Jit

open A64 (Word Reg)
open EmitM

variable {ε α : Type} {p : Profile} {insts : List Inst}

/-! ### Where the code of an instruction starts -/

namespace Inst

/-- The words of the code of an instruction. -/
def words (p : Profile) (inst : Inst) : Nat :=
  match inst.op with
  | .jcc _ | .jmp => 1
  | _ =>
    match outcome p (lift false inst) with
    | .ok (_, n) => n
    | .error _ => 0

/-- The index of the instruction that a branch goes to. -/
def target (insts : List Inst) (inst : Inst) : Option Nat :=
  match inst.operand0 with
  | some (.imm rel _) => insts.findIdx? fun x => x.guestRip == inst.nextRip + rel
  | _ => none

end Inst

/-- The number of words before the code of an instruction. -/
def hostIndex (p : Profile) (insts : List Inst) (i : Nat) : Nat :=
  ((insts.take i).map (Inst.words p)).sum

theorem hostIndex_succ {i : Nat} {inst : Inst} (h : insts[i]? = some inst) :
    hostIndex p insts (i + 1) = hostIndex p insts i + inst.words p := by
  unfold hostIndex
  rw [List.take_add_one, h, List.map_append, List.sum_append]
  rfl

namespace Inst

/-- The branch of kind `kind` goes back further than it reaches. -/
def TooFar (p : Profile) (insts : List Inst) (i : Nat) (kind : FixupKind) (inst : Inst) : Prop :=
  ∃ j ≤ i, inst.target insts = some j ∧
    ¬ kind.Fits ((hostIndex p insts j : Int) - hostIndex p insts i)

/-- The instruction is emitted, unless it is a branch that goes too far back. -/
def Emitted (p : Profile) (insts : List Inst) (inst : Inst) : Prop :=
  match inst.op with
  | .jcc cond => (inst.target insts).isSome ∧ (condX86ToA64 cond).isSome
  | .jmp => (inst.target insts).isSome
  | _ => inst.Lifts p false

/-- The hazard of the instruction strikes, or it is a branch that goes too far back. -/
def StruckAt (p : Profile) (insts : List Inst) (i : Nat) (inst : Inst) : Prop :=
  match inst.op with
  | .jcc cond => inst.TooFar p insts i .branch19 ∧ (condX86ToA64 cond).isSome
  | .jmp => inst.TooFar p insts i .branch26
  | _ => inst.Struck p false

end Inst

/-! ### Labels -/

/-- The labels of the instructions, numbered from `m`. -/
def numbered (insts : List Inst) (m : Nat) : List (BitVec 64 × Label) :=
  (insts.zipIdx m).map fun q => (q.1.guestRip, ⟨q.2⟩)

theorem numbered_cons (inst : Inst) (insts : List Inst) (m : Nat) :
    numbered (inst :: insts) m = (inst.guestRip, ⟨m⟩) :: numbered insts (m + 1) :=
  rfl

theorem run_makeLabels (insts : List Inst) (e : Emitter) :
    (makeLabels insts : EmitM ε _) p e = .ok (numbered insts e.labels.length,
      { e with labels := e.labels ++ List.replicate insts.length none }) := by
  induction insts generalizing e with
  | nil =>
    rw [List.length_nil, List.replicate_zero, List.append_nil]
    rfl
  | cons inst insts ih =>
    have hlabel : (makeLabel : EmitM ε Label) p e
        = .ok (⟨e.labels.length⟩, { e with labels := e.labels ++ [none] }) := rfl
    unfold makeLabels
    rw [bind_of_ok hlabel, bind_of_ok (ih _)]
    simp only [List.length_append, List.append_assoc, List.length_cons]
    rfl

theorem findLabel_numbered (insts : List Inst) (m : Nat) (rip : BitVec 64) :
    findLabel (numbered insts m) rip
      = (insts.findIdx? fun x => x.guestRip == rip).map fun j => ⟨m + j⟩ := by
  induction insts generalizing m with
  | nil => rfl
  | cons inst insts ih =>
    rw [numbered_cons, List.findIdx?_cons]
    unfold findLabel
    rw [List.find?_cons]
    by_cases h : (inst.guestRip == rip) = true
    · simp only [h, if_true, Option.map_some, Nat.add_zero]
    · have hrest := ih (m + 1)
      unfold findLabel at hrest
      simp only [h, hrest, Option.map_map, Bool.false_eq_true, if_false]
      congr 1
      funext j
      simp only [Function.comp_apply, Nat.add_assoc, Nat.add_comm 1 j]

/-- The emitter after the first `i` instructions, behind `B` words: the labels of the first `n` instructions
are bound, the others are not. -/
structure Placed (p : Profile) (insts : List Inst) (B i n : Nat) (e : Emitter) : Prop where
  length : e.code.length = B + hostIndex p insts i
  bound : ∀ j < n, e.labels[j]? = some (some (B + hostIndex p insts j))
  unbound : ∀ j, n ≤ j → j < insts.length → e.labels[j]? = some none

namespace Placed

variable {B i n : Nat} {e : Emitter}

theorem run_bindLabel (h : Placed p insts B i i e) (hi : i < insts.length) :
    ∃ e', (bindLabel ⟨i⟩ : EmitM ε Unit) p e = .ok ((), e') ∧ Placed p insts B i (i + 1) e' := by
  have hunbound := h.unbound i (Nat.le_refl i) hi
  have hlt : i < e.labels.length := (List.getElem?_eq_some_iff.mp hunbound).1
  refine ⟨_, bindLabel_of_unbound hunbound, h.length, fun j hj => ?_, fun j hj hlen => ?_⟩
  · dsimp only
    rw [List.getElem?_set]
    split_ifs with heq
    · rw [← heq, h.length]
    · exact h.bound j (by omega)
  · dsimp only
    rw [List.getElem?_set_ne (by omega)]
    exact h.unbound j (by omega) hlen

/-- After one more instruction. -/
theorem next (h : Placed p insts B i n e) {inst : Inst} (hi : insts[i]? = some inst) {e' : Emitter}
    (hf : e.Follows e' (inst.words p)) : Placed p insts B (i + 1) n e' where
  length := by
    rw [hf.length, h.length, hostIndex_succ hi, Nat.add_assoc]
  bound j hj := getElem?_mono hf.labels (h.bound j hj)
  unbound j hj hlen := getElem?_mono hf.labels (h.unbound j hj hlen)

/-- A branch to the label of an instruction. -/
theorem run_emitBranch (h : Placed p insts B i (i + 1) e) {w : Word} {kind : FixupKind} {j : Nat}
    (hj : j < insts.length)
    (hfits : j ≤ i → kind.Fits ((hostIndex p insts j : Int) - hostIndex p insts i)) :
    ∃ e', (emitBranch w kind ⟨j⟩ : EmitM ε Unit) p e = .ok ((), e') ∧ e.Follows e' 1 := by
  by_cases hji : j ≤ i
  · have hl := h.bound j (by omega)
    have hdelta : (((B + hostIndex p insts j : Nat) : Int) - e.code.length)
        = (hostIndex p insts j : Int) - hostIndex p insts i := by
      rw [h.length]
      omega
    obtain ⟨w', hw'⟩ := patchBranch_of_fits w (hfits hji)
    rw [← hdelta] at hw'
    refine ⟨{ e with code := e.code ++ [w'] }, ?_, List.length_append, List.prefix_rfl⟩
    unfold emitBranch
    rw [hl]
    dsimp only
    rw [hw']
  · have hl := h.unbound j (by omega) hj
    exact ⟨_, emitBranch_of_unbound hl, List.length_append, List.prefix_rfl⟩

/-- A branch that goes too far back. -/
theorem panic_emitBranch (h : Placed p insts B i (i + 1) e) {w : Word} {kind : FixupKind} {j : Nat}
    (hji : j ≤ i) (hfar : ¬ kind.Fits ((hostIndex p insts j : Int) - hostIndex p insts i)) :
    EndsInPanic ((emitBranch w kind ⟨j⟩ : EmitM ε Unit) p e) := by
  have hl := h.bound j (by omega)
  have hdelta : (((B + hostIndex p insts j : Nat) : Int) - e.code.length)
      = (hostIndex p insts j : Int) - hostIndex p insts i := by
    rw [h.length]
    omega
  have hpatch := patchBranch_of_not_fits w hfar
  rw [← hdelta] at hpatch
  refine ⟨"backward branch out of range", ?_⟩
  unfold emitBranch
  rw [hl]
  dsimp only
  rw [hpatch]

end Placed

/-! ### One instruction -/

/-- What the code of an instruction ends in: a panic if `struck`, otherwise `n` words if `emitted` and an error
if not. -/
structure Step (r : Except (Fault BlockError) (Unit × Emitter)) (e : Emitter) (n : Nat)
    (struck emitted : Prop) : Prop where
  panics : struck → EndsInPanic r
  runs : ¬ struck → emitted → ∃ e', r = .ok ((), e') ∧ e.Follows e' n
  stops : ¬ struck → ¬ emitted → ∃ x, r = .error (.err x)

namespace Step

variable {e : Emitter} {n : Nat} {struck emitted : Prop}

/-- An instruction that gives an error. -/
theorem error {x : BlockError} (hs : ¬ struck) (he : ¬ emitted) :
    Step (.error (.err x)) e n struck emitted where
  panics h := absurd h hs
  runs _ h := absurd h he
  stops _ _ := ⟨x, rfl⟩

end Step

section Branch

variable {B i : Nat} {e : Emitter}

/-- A branch to the instruction at `j`. -/
theorem step_emitBranch (h : Placed p insts B i (i + 1) e) {w : Word} {kind : FixupKind} {j : Nat}
    (hj : j < insts.length) {struck emitted : Prop}
    (hs : struck ↔ j ≤ i ∧ ¬ kind.Fits ((hostIndex p insts j : Int) - hostIndex p insts i))
    (he : emitted) : Step (emitBranch w kind ⟨j⟩ p e) e 1 struck emitted where
  panics hstruck := h.panic_emitBranch (hs.mp hstruck).1 (hs.mp hstruck).2
  runs hstruck _ := h.run_emitBranch hj fun hji => by
    by_contra hfar
    exact hstruck (hs.mpr ⟨hji, hfar⟩)
  stops _ hne := absurd he hne

theorem tooFar_iff {kind : FixupKind} {inst : Inst} {j : Nat} (h : inst.target insts = some j) :
    inst.TooFar p insts i kind ↔
      j ≤ i ∧ ¬ kind.Fits ((hostIndex p insts j : Int) - hostIndex p insts i) := by
  unfold Inst.TooFar
  constructor
  · rintro ⟨k, hki, hk, hfar⟩
    obtain rfl := Option.some.inj (h.symm.trans hk)
    exact ⟨hki, hfar⟩
  · exact fun hj => ⟨j, hj.1, h, hj.2⟩

theorem not_tooFar {kind : FixupKind} {inst : Inst} (h : inst.target insts = none) :
    ¬ inst.TooFar p insts i kind := by
  rintro ⟨k, -, hk, -⟩
  rw [h] at hk
  cases hk

/-- A branch whose operand is no displacement has no target. -/
theorem branchRel_or (insts : List Inst) (inst : Inst) (p : Profile) (e : Emitter) :
    (∃ rel size, inst.operand0 = some (.imm rel size) ∧ branchRel inst p e = .ok (rel, e)) ∨
      inst.target insts = none ∧ ∃ x, branchRel inst p e = .error (.err x) := by
  unfold branchRel Inst.target
  match inst.operand0 with
  | some (.imm rel size) => exact .inl ⟨rel, size, rfl, rfl⟩
  | some (.reg _ _) | some (.mem _) | some (.ripRel _ _) | some (.xmmReg _ _) | none =>
    exact .inr ⟨rfl, _, rfl⟩

theorem target_of_imm {inst : Inst} {rel : BitVec 64} {size : OpSize}
    (h : inst.operand0 = some (.imm rel size)) :
    inst.target insts = insts.findIdx? fun x => x.guestRip == inst.nextRip + rel := by
  unfold Inst.target
  rw [h]

theorem findLabel_of_target {inst : Inst} {rel : BitVec 64} {size : OpSize}
    (h : inst.operand0 = some (.imm rel size)) :
    findLabel (numbered insts 0) (inst.nextRip + rel) = (inst.target insts).map Label.mk := by
  rw [findLabel_numbered, target_of_imm h]
  simp only [Nat.zero_add]

theorem target_lt {inst : Inst} {j : Nat} (h : inst.target insts = some j) : j < insts.length := by
  unfold Inst.target at h
  split at h
  · exact (List.findIdx?_eq_some_iff_findIdx_eq.mp h).1
  · cases h

/-- The code of a jump. -/
theorem step_jmp (h : Placed p insts B i (i + 1) e) {inst : Inst} (hop : inst.op = .jmp) :
    Step (emitStandaloneInst (numbered insts 0) inst p e) e 1 (inst.TooFar p insts i .branch26)
      (inst.target insts).isSome := by
  unfold emitStandaloneInst
  rw [hop]
  dsimp only
  rcases branchRel_or insts inst p e with ⟨rel, size, hrel, hrun⟩ | ⟨hnone, x, hrun⟩
  · rw [bind_of_ok hrun, findLabel_of_target hrel]
    match ht : inst.target insts with
    | some j => exact step_emitBranch h (target_lt ht) (tooFar_iff ht) rfl
    | none => exact .error (not_tooFar ht) Bool.false_ne_true
  · rw [bind_of_error hrun, hnone]
    exact .error (not_tooFar hnone) Bool.false_ne_true

/-- The code of a conditional jump. -/
theorem step_jcc (h : Placed p insts B i (i + 1) e) {inst : Inst} {cond : Cond} (hop : inst.op = .jcc cond) :
    Step (emitStandaloneInst (numbered insts 0) inst p e) e 1
      (inst.TooFar p insts i .branch19 ∧ (condX86ToA64 cond).isSome)
      ((inst.target insts).isSome ∧ (condX86ToA64 cond).isSome) := by
  unfold emitStandaloneInst
  rw [hop]
  dsimp only
  rcases branchRel_or insts inst p e with ⟨rel, size, hrel, hrun⟩ | ⟨hnone, x, hrun⟩
  · rw [bind_of_ok hrun, findLabel_of_target hrel]
    match ht : inst.target insts, hc : condX86ToA64 cond with
    | some j, some c =>
      have hs : (inst.TooFar p insts i .branch19 ∧ (some c).isSome = true) ↔
          j ≤ i ∧ ¬ FixupKind.branch19.Fits ((hostIndex p insts j : Int) - hostIndex p insts i) :=
        (and_iff_left rfl).trans (tooFar_iff ht)
      exact step_emitBranch h (target_lt ht) hs ⟨rfl, rfl⟩
    | some j, none => exact .error (fun hs => Bool.false_ne_true hs.2) fun he => Bool.false_ne_true he.2
    | none, _ => exact .error (fun hs => not_tooFar ht hs.1) fun he => Bool.false_ne_true he.1
  · rw [bind_of_error hrun, hnone]
    exact .error (fun hs => not_tooFar hnone hs.1) fun he => Bool.false_ne_true he.1

/-- The code of any other instruction. -/
theorem step_lift {inst : Inst} [hx : inst.XmmOk] (e : Emitter) {n : Nat}
    (hn : ∀ k, outcome p (lift false inst) = .ok ((), k) → n = k) :
    Step (mapErr BlockError.lift (lift false inst) p e) e n (inst.Struck p false) (inst.Lifts p false) := by
  have hpanics := panicsAt_lift inst false
  have := hpanics.toUniform
  have hstruck := hpanics.panics_iff p
  have hverdict : verdict p (mapErr BlockError.lift (lift false inst)) = verdict p (lift false inst) :=
    verdict_mapErr _ _
  unfold Inst.Struck Inst.Lifts
  rw [← hstruck]
  match hv : verdict p (lift false inst) with
  | .ok () =>
    obtain ⟨e', k, hrun, hfollows, houtcome⟩ := ok_of_verdict (hverdict.trans hv) e
    rw [outcome_mapErr] at houtcome
    rw [hrun]
    refine ⟨fun h => ?_, fun _ _ => ⟨e', rfl, (hn k houtcome).symm ▸ hfollows⟩, fun _ h => absurd rfl h⟩
    cases h
  | .error .err =>
    obtain ⟨x, hrun, hx⟩ := error_of_verdict (hverdict.trans hv) e
    rw [hrun]
    cases x with
    | err x => exact .error nofun nofun
    | panic msg => cases hx
  | .error .panic =>
    obtain ⟨x, hrun, hx⟩ := error_of_verdict (hverdict.trans hv) e
    rw [hrun]
    cases x with
    | err x => cases hx
    | panic msg => exact ⟨fun _ => ⟨msg, rfl⟩, fun h => absurd rfl h, fun h => absurd rfl h⟩

/-- An instruction that is no direct branch. -/
structure Inst.Straight (inst : Inst) : Prop where
  jcc : ∀ cond, inst.op ≠ .jcc cond
  jmp : inst.op ≠ .jmp

theorem Inst.Straight.emitStandaloneInst_eq {inst : Inst} (h : inst.Straight)
    (labels : List (BitVec 64 × Label)) :
    emitStandaloneInst labels inst = mapErr .lift (lift false inst) := by
  unfold emitStandaloneInst
  split
  · rename_i cond hop
    exact absurd hop (h.jcc cond)
  · rename_i hop
    exact absurd hop h.jmp
  · rfl

theorem Inst.Straight.words_eq {inst : Inst} (h : inst.Straight) {k : Nat}
    (hk : outcome p (lift false inst) = .ok ((), k)) : inst.words p = k := by
  unfold Inst.words
  split
  · rename_i cond hop
    exact absurd hop (h.jcc cond)
  · rename_i hop
    exact absurd hop h.jmp
  · rw [hk]

theorem Inst.Straight.struckAt_eq {inst : Inst} (h : inst.Straight) :
    inst.StruckAt p insts i = inst.Struck p false := by
  unfold Inst.StruckAt
  split
  · rename_i cond hop
    exact absurd hop (h.jcc cond)
  · rename_i hop
    exact absurd hop h.jmp
  · rfl

theorem Inst.Straight.emitted_eq {inst : Inst} (h : inst.Straight) :
    inst.Emitted p insts = inst.Lifts p false := by
  unfold Inst.Emitted
  split
  · rename_i cond hop
    exact absurd hop (h.jcc cond)
  · rename_i hop
    exact absurd hop h.jmp
  · rfl

/-- The code of an instruction, behind that of those before it. -/
theorem step_emitStandaloneInst (h : Placed p insts B i (i + 1) e) (inst : Inst) [hx : inst.XmmOk] :
    Step (emitStandaloneInst (numbered insts 0) inst p e) e (inst.words p) (inst.StruckAt p insts i)
      (inst.Emitted p insts) := by
  by_cases hjcc : ∃ cond, inst.op = .jcc cond
  · obtain ⟨cond, hop⟩ := hjcc
    unfold Inst.words Inst.StruckAt Inst.Emitted
    rw [hop]
    exact step_jcc h hop
  by_cases hjmp : inst.op = .jmp
  · unfold Inst.words Inst.StruckAt Inst.Emitted
    rw [hjmp]
    exact step_jmp h hjmp
  have hs : inst.Straight := ⟨fun cond hop => hjcc ⟨cond, hop⟩, hjmp⟩
  rw [hs.emitStandaloneInst_eq, hs.struckAt_eq, hs.emitted_eq]
  exact step_lift e fun k => hs.words_eq

end Branch

/-! ### The instructions one after another -/

/-- The first instruction from index `i` on that is not emitted is struck. -/
def StruckFrom (p : Profile) (insts : List Inst) : Nat → List Inst → Prop
  | _, [] => False
  | i, inst :: rest => inst.StruckAt p insts i ∨
      ¬ inst.StruckAt p insts i ∧ inst.Emitted p insts ∧ StruckFrom p insts (i + 1) rest

theorem endsInPanic_emitStandaloneBody {B : Nat} (hx : ∀ inst ∈ insts, inst.XmmOk) (rest : List Inst) (i : Nat)
    (hrest : insts.drop i = rest) {e : Emitter} (h : Placed p insts B i i e) :
    EndsInPanic (emitStandaloneBody (numbered insts 0) rest (numbered rest i) p e) ↔
      StruckFrom p insts i rest := by
  induction rest generalizing i e with
  | nil => exact iff_of_false (not_endsInPanic_ok _) id
  | cons inst rest ih =>
    have hi : insts[i]? = some inst := by
      have hhead := congrArg List.head? hrest
      rwa [List.head?_drop] at hhead
    have htail : insts.drop (i + 1) = rest := by
      have htail := congrArg List.tail hrest
      rwa [List.tail_drop] at htail
    have hlt : i < insts.length := (List.getElem?_eq_some_iff.mp hi).1
    have := hx inst (List.mem_of_getElem? hi)
    obtain ⟨e₁, hbind, h₁⟩ := h.run_bindLabel (ε := BlockError) hlt
    have hstep := step_emitStandaloneInst h₁ inst
    rw [numbered_cons]
    unfold emitStandaloneBody StruckFrom
    rw [endsInPanic_bind_ok hbind]
    by_cases hs : inst.StruckAt p insts i
    · obtain ⟨msg, hmsg⟩ := hstep.panics hs
      rw [endsInPanic_bind_error hmsg]
      exact iff_of_true ⟨msg, hmsg⟩ (.inl hs)
    by_cases he : inst.Emitted p insts
    · obtain ⟨e₂, hrun, hfollows⟩ := hstep.runs hs he
      rw [endsInPanic_bind_ok hrun, ih (i + 1) htail (h₁.next hi hfollows)]
      exact ⟨fun hr => .inr ⟨hs, he, hr⟩, fun hr => (hr.resolve_left hs).2.2⟩
    · obtain ⟨x, hrun⟩ := hstep.stops hs he
      rw [bind_of_error hrun]
      exact iff_of_false (not_endsInPanic_err x) fun hr => he (hr.resolve_left hs).2.1

/-- Behind the prologue no instruction has a place yet. -/
theorem placed_start {e : Emitter} (hlabels : e.labels = List.replicate insts.length none) :
    Placed p insts e.code.length 0 0 e where
  length := rfl
  bound j hj := absurd hj (Nat.not_lt_zero j)
  unbound j _ hj := by rw [hlabels, List.getElem?_replicate, if_pos hj]

instance (stackTop : Option (BitVec 64)) : Passes (emitGuestStack stackTop : EmitM ε Unit) := by
  unfold emitGuestStack
  cases stackTop <;> infer_instance

theorem endsInPanic_bind_pure {α β : Type} {m : EmitM ε α} {b : β} {e : Emitter} :
    EndsInPanic ((m >>= fun _ => pure b) p e) ↔ EndsInPanic (m p e) := by
  match h : m p e with
  | .ok (a, e') =>
    rw [endsInPanic_bind_ok h]
    exact iff_of_false (not_endsInPanic_ok _) (not_endsInPanic_ok _)
  | .error x => rw [endsInPanic_bind_error h, h]

theorem endsInPanic_emitStandalone (stackTop : Option (BitVec 64)) (hx : ∀ inst ∈ insts, inst.XmmOk) :
    EndsInPanic (emitStandalone stackTop insts p Emitter.new) ↔ StruckFrom p insts 0 insts := by
  obtain ⟨n, ws, hguest, -⟩ := Passes.straight (m := (emitGuestStack stackTop : EmitM BlockError Unit)) p
  have hbody := endsInPanic_emitStandaloneBody (p := p) hx insts 0 rfl
    (placed_start (e := { Emitter.new.append ws with labels := List.replicate insts.length none }) rfl)
  unfold emitStandalone
  rw [endsInPanic_bind_ok (hguest .new), endsInPanic_bind_ok (run_makeLabels insts _), ← hbody]
  exact endsInPanic_bind_pure

/-- **The translation of standalone code panics exactly when an instruction is struck**, all before it being
emitted. -/
theorem endsInPanic_translateWithStack (p : Profile) (bytes : List Byte) (startRip : BitVec 64)
    (stackTop : Option (BitVec 64)) (isTerminator : Op → Bool) :
    EndsInPanic (translateWithStack p bytes startRip stackTop isTerminator) ↔
      ∃ insts rest, decodeUntil isTerminator (bytes.length + 1) startRip bytes = .ok (insts, rest) ∧
        StruckFrom p insts 0 insts := by
  unfold translateWithStack
  match hdec : decodeUntil isTerminator (bytes.length + 1) startRip bytes with
  | .error (.err x) => exact iff_of_false (not_endsInPanic_err _) fun ⟨_, _, heq, _⟩ => by cases heq
  | .error (.panic msg) =>
    exact absurd hdec (decodeUntil_ne_panic _ _ startRip bytes (Nat.lt_succ_self _) msg)
  | .ok (insts, rest) =>
    dsimp only
    rw [endsInPanic_finishBlock, endsInPanic_emitStandalone stackTop (decodeUntil_xmmOk hdec)]
    constructor
    · exact fun h => ⟨insts, rest, rfl, h⟩
    · rintro ⟨insts', rest', heq, h⟩
      cases heq
      exact h

end Quantum.Jit
