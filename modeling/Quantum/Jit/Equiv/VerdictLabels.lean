import Quantum.Jit.Equiv.VerdictLifts

/-!
# Code with labels of its own

`CMPXCHG`, the string loops and `CPUID` make labels, branch to them and bind them.  They are uniform too:
the places of their labels, counted from where the code starts, do not depend on what has been emitted
before (`Emitter.At`).
-/

namespace Quantum.Jit

open A64 (Word Reg)
open EmitM

variable {ε α β : Type} {p : Profile}

/-- The emitter holds `k` words behind the first `B`, and behind the labels `L` those of `xs`, whose places
are counted from `B`. -/
structure Emitter.At (B : Nat) (L : List (Option Nat)) (k : Nat) (xs : List (Option Nat)) (e : Emitter) :
    Prop where
  length : e.code.length = B + k
  labels : e.labels = L ++ xs.map (Option.map (B + ·))

/-- The computation ends in a value, and `Q` holds of the value and the emitter. -/
def Goes (p : Profile) (e : Emitter) (m : EmitM ε α) (Q : α → Emitter → Prop) : Prop :=
  ∃ a e', m p e = .ok (a, e') ∧ Q a e'

section Rules

variable {e : Emitter} {B k i : Nat} {L xs : List (Option Nat)} {Q : β → Emitter → Prop}

theorem Goes.bind {m : EmitM ε α} {f : α → EmitM ε β} {a : α} {e' : Emitter}
    (hm : m p e = .ok (a, e')) (h : Goes p e' (f a) Q) : Goes p e (m >>= f) Q := by
  obtain ⟨b, e₂, hf, hQ⟩ := h
  exact ⟨b, e₂, (bind_of_ok hm).trans hf, hQ⟩

theorem goes_straight {m : EmitM ε Unit} {f : Unit → EmitM ε β} {n : Nat} (he : e.At B L k xs)
    (hm : Straight p m n) (h : ∀ e' : Emitter, e'.At B L (k + n) xs → Goes p e' (f ()) Q) :
    Goes p e (m >>= f) Q := by
  obtain ⟨ws, hw, rfl⟩ := hm
  refine .bind (hw e) (h _ ⟨?_, he.labels⟩)
  rw [← Nat.add_assoc, ← he.length]
  exact List.length_append

theorem goes_makeLabel {f : Label → EmitM ε β} (he : e.At B L k xs)
    (h : ∀ e' : Emitter, e'.At B L k (xs ++ [none]) → Goes p e' (f ⟨L.length + xs.length⟩) Q) :
    Goes p e (makeLabel >>= f) Q := by
  have hid : e.labels.length = L.length + xs.length := by
    rw [he.labels, List.length_append, List.length_map]
  rw [← hid] at h
  refine .bind rfl (h _ ⟨he.length, ?_⟩)
  dsimp only
  rw [he.labels, List.append_assoc, List.map_append]
  rfl

/-- What the emitter knows of a label. -/
theorem Emitter.At.getElem? (he : e.At B L k xs) (i : Nat) :
    e.labels[L.length + i]? = (xs[i]?).map (Option.map (B + ·)) := by
  rw [he.labels, List.getElem?_append_right (Nat.le_add_right _ _), Nat.add_sub_cancel_left, List.getElem?_map]

/-- A branch to a label that is not bound yet. -/
theorem goes_branch {w : Word} {kind : FixupKind} {f : Unit → EmitM ε β} (he : e.At B L k xs)
    (hi : xs[i]? = some none) (h : ∀ e' : Emitter, e'.At B L (k + 1) xs → Goes p e' (f ()) Q) :
    Goes p e (emitBranch w kind ⟨L.length + i⟩ >>= f) Q := by
  have hl : e.labels[L.length + i]? = some none := by
    rw [he.getElem?, hi]
    rfl
  refine .bind (emitBranch_of_unbound hl) (h _ ⟨?_, he.labels⟩)
  rw [← Nat.add_assoc, ← he.length]
  exact List.length_append

/-- A short jump back to a label that is bound. -/
theorem goes_jumpBack {w : Word} {j : Nat} {f : Unit → EmitM ε β} (he : e.At B L k xs)
    (hi : xs[i]? = some (some j)) (hj : j ≤ k ∧ k ≤ j + 2 ^ 25)
    (h : ∀ e' : Emitter, e'.At B L (k + 1) xs → Goes p e' (f ()) Q) :
    Goes p e (emitBranch w .branch26 ⟨L.length + i⟩ >>= f) Q := by
  have hl : e.labels[L.length + i]? = some (some (B + j)) := by
    rw [he.getElem?, hi]
    rfl
  have hrange : -2 ^ 25 ≤ (((B + j : Nat) : Int) - e.code.length) ∧
      (((B + j : Nat) : Int) - e.code.length) < 2 ^ 25 := by
    rw [he.length]
    omega
  have hrun : ∃ w', (emitBranch w .branch26 ⟨L.length + i⟩ : EmitM ε Unit) p e
      = .ok ((), { e with code := e.code ++ [w'] }) := by
    unfold emitBranch Emitter.patchBranch
    rw [hl]
    dsimp only
    rw [if_pos hrange]
    exact ⟨_, rfl⟩
  obtain ⟨w', hrun⟩ := hrun
  refine .bind hrun (h _ ⟨?_, he.labels⟩)
  rw [← Nat.add_assoc, ← he.length]
  exact List.length_append

theorem Emitter.At.run_bindLabel (he : e.At B L k xs) (hi : xs[i]? = some none) :
    ∃ e' : Emitter, (bindLabel ⟨L.length + i⟩ : EmitM ε Unit) p e = .ok ((), e') ∧
      e'.At B L k (xs.set i (some k)) := by
  have hl : e.labels[L.length + i]? = some none := by
    rw [he.getElem?, hi]
    rfl
  refine ⟨_, bindLabel_of_unbound hl, he.length, ?_⟩
  dsimp only
  rw [he.labels, he.length, List.set_append_right _ _ (Nat.le_add_right _ _), Nat.add_sub_cancel_left,
    List.map_set]
  rfl

theorem goes_bindLabel {f : Unit → EmitM ε β} (he : e.At B L k xs) (hi : xs[i]? = some none)
    (h : ∀ e' : Emitter, e'.At B L k (xs.set i (some k)) → Goes p e' (f ()) Q) :
    Goes p e (bindLabel ⟨L.length + i⟩ >>= f) Q := by
  obtain ⟨e', hrun, he'⟩ := he.run_bindLabel hi
  exact .bind hrun (h e' he')

theorem goes_end (he : e.At B L k xs) (hi : xs[i]? = some none) :
    Goes p e (bindLabel ⟨L.length + i⟩ : EmitM ε Unit) fun _ e' => ∃ xs', e'.At B L k xs' := by
  obtain ⟨e', hrun, he'⟩ := he.run_bindLabel hi
  exact ⟨(), e', hrun, _, he'⟩

end Rules

/-- Code whose labels and words are counted from where it starts. -/
theorem results_of_goes {m : EmitM ε Unit} {n : Nat}
    (h : ∀ B L (e : Emitter), e.At B L 0 [] → Goes p e m fun _ e' => ∃ xs, e'.At B L n xs) :
    Results p m (.ok ((), n)) := by
  intro e
  have hat : e.At e.code.length e.labels 0 [] := ⟨rfl, by simp⟩
  obtain ⟨u, e', hm, xs, he'⟩ := h _ _ e hat
  refine ⟨e', hm, he'.length, ?_⟩
  rw [he'.labels]
  exact List.prefix_append _ _

/-! ### `CMPXCHG` -/

section Cmpxchg

variable {size : OpSize} {store : LiftM Unit}

theorem results_cmpxchgTail {n : Nat} (hstore : Straight p store n) :
    ∃ k, Results p (cmpxchgTail size store) (.ok ((), k)) := by
  obtain ⟨n₁, hmask⟩ := Passes.straight (m := maskB4 size (hostReg .rax)) p
  refine ⟨0 + 1 + 1 + n + 1 + 1 + n₁, results_of_goes fun B L e he => ?_⟩
  refine goes_straight he (.push _) fun e he => goes_makeLabel he fun e he => ?_
  refine goes_branch he rfl fun e he => goes_straight he hstore fun e he => ?_
  refine goes_makeLabel he fun e he => goes_branch he rfl fun e he => goes_bindLabel he rfl fun e he => ?_
  exact goes_straight he (.push _) fun e he => goes_straight he hmask fun e he => goes_end he rfl

theorem results_cmpxchgTail_error {s : Stop} (hstore : Results p store (.error s)) :
    Results p (cmpxchgTail size store) (.error s) := by
  intro e
  have hlabel : ((e.labels ++ [none])[e.labels.length]?) = some none := by simp
  obtain ⟨x, hx, hs⟩ := hstore _
  exact ⟨x, (bind_of_ok rfl).trans ((bind_of_ok rfl).trans
    ((bind_of_ok (emitBranch_of_unbound hlabel)).trans (bind_of_error hx))), hs⟩

/-- The store of an exchange is the only part that may panic. -/
theorem accesses_cmpxchgTail (x : Access) (rt rn : Reg) (offset : BitVec 32) :
    Accesses (cmpxchgTail size (x.emit rt rn offset)) x.bytes offset () := by
  have hresults : ∀ p, ∃ k, Results p (cmpxchgTail size (x.emit rt rn offset))
      ((tryAccess p x.bytes offset).map fun _ => ((), k)) := fun p => by
    match htry : tryAccess p x.bytes offset with
    | .ok () => exact results_cmpxchgTail (straight_access (fits_of_tryAccess htry))
    | .error s =>
      have hstore := (Accesses.emit (ε := LifterError) x rt rn offset).results_error htry
      exact ⟨0, results_cmpxchgTail_error hstore⟩
  have hu : Uniform (cmpxchgTail size (x.emit rt rn offset)) :=
    ⟨fun p => (hresults p).imp' _ fun _ => id⟩
  refine ⟨fun p => ?_⟩
  obtain ⟨k, hk⟩ := hresults p
  rw [hk.verdict_eq]
  match tryAccess p x.bytes offset with
  | .ok () => rfl
  | .error s => rfl

instance (rt rn : Reg) (offset : BitVec 32) (stored : OpSize) :
    Accesses (cmpxchgTail size (storeSized rt rn offset stored)) stored.bytes offset () := by
  cases stored with
  | b8 => exact accesses_cmpxchgTail .str64 rt rn offset
  | b4 => exact accesses_cmpxchgTail .str32 rt rn offset
  | b2 => exact accesses_cmpxchgTail .strh rt rn offset
  | b1 => exact accesses_cmpxchgTail .strb rt rn offset

instance [h : Passes store] : Calm (cmpxchgTail size store) := by
  have hresults : ∀ p, ∃ k, Results p (cmpxchgTail size store) (.ok ((), k)) := fun p => by
    obtain ⟨n, hn⟩ := h.straight p
    exact results_cmpxchgTail hn
  exact .of_results hresults

variable (inst : Inst)

instance (m : Operand) (rs : GpReg) [HasAddress m] :
    Accesses (cmpxchgMem inst m rs size) m.memSize.bytes m.leftover () := by
  unfold cmpxchgMem
  infer_instance

theorem panicsAt_liftCmpxchg : PanicsAt (liftCmpxchg inst)
    (inst.operand0.bind fun a => inst.operand1.bind (toMemAccess a)) := by
  refine .binary fun a b => ?_
  cases b <;> cases a <;> first | exact .mem | exact .ripRel | exact .never

end Cmpxchg

/-! ### String loops -/

section Strings

/-- The sizes of an element. -/
def elementSizes : List (BitVec 32) := [1, 2, 4, 8]

theorem known_elementSize {size : BitVec 32} (h : size ∈ elementSizes) :
    ¬ (size ≠ 1 ∧ size ≠ 2 ∧ size ≠ 4 ∧ size ≠ 8) := by
  simp only [elementSizes, List.mem_cons, List.not_mem_nil, or_false] at h
  tauto

theorem encodable_elementSize {size : BitVec 32} (h : size ∈ elementSizes) :
    imm12Encodable size = true := by
  simp only [elementSizes, List.mem_cons, List.not_mem_nil, or_false] at h
  obtain rfl | rfl | rfl | rfl := h <;> decide

theorem straight_emitRepElement {size : BitVec 32} (hsize : size ∈ elementSizes) (isStos : Bool) :
    ∃ n ≤ 2, Straight p (emitRepElement size isStos) n := by
  have one : ∀ (x : Access) (rt rn : Reg), Straight p (x.emit rt rn 0 : LiftM Unit) 1 := fun x rt rn =>
    straight_access fun _ => by cases x <;> decide
  have two : ∀ (x y : Access), Straight p (do x.emit 16 6 0; y.emit 16 7 0 : LiftM Unit) 2 := fun x y =>
    (one x 16 6).bind (k := 1) (one y 16 7)
  simp only [elementSizes, List.mem_cons, List.not_mem_nil, or_false] at hsize
  cases isStos with
  | true =>
    refine ⟨1, by decide, ?_⟩
    obtain rfl | rfl | rfl | rfl := hsize
    · exact one .strb 0 7
    · exact one .strh 0 7
    · exact one .str32 0 7
    · exact one .str64 0 7
  | false =>
    refine ⟨2, le_refl 2, ?_⟩
    obtain rfl | rfl | rfl | rfl := hsize
    · exact two .ldrb .strb
    · exact two .ldrh .strh
    · exact two .ldr32 .str32
    · exact two .ldr64 .str64

/-- The loop is a few words long, so that the jump back to its top always reaches. -/
theorem results_emitRepLoop {size : BitVec 32} (hsize : size ∈ elementSizes) (rep isStos : Bool) :
    ∃ k, Results p (emitRepLoop size rep isStos) (.ok ((), k)) := by
  obtain ⟨n, hn, helement⟩ := straight_emitRepElement (p := p) hsize isStos
  have henc : imm12Encodable size = true := encodable_elementSize hsize
  have hadd : ∀ r : Reg, Straight p (add64Imm r r size : LiftM Unit) 1 := fun r =>
    straight_addsub64Imm r r 0 0 henc
  have hcount : Straight p (sub64Imm 1 1 1 : LiftM Unit) 1 := straight_addsub64Imm 1 1 1 0 (by decide)
  unfold emitRepLoop
  rw [if_neg (known_elementSize hsize)]
  cases rep with
  | true =>
    -- what comes after the element, from the adding to `RDI`
    have htail : ∀ (B : Nat) (L : List (Option Nat)) (k : Nat) (e : Emitter), k ≤ 4 →
        e.At B L k [some 0, none] → Goes p e (do
          add64Imm 7 7 size
          sub64Imm 1 1 1
          b ⟨L.length + 0⟩
          bindLabel ⟨L.length + 1⟩ : LiftM Unit) fun _ e' => ∃ xs, e'.At B L (k + 1 + 1 + 1) xs := by
      intro B L k e hk he
      refine goes_straight he (hadd 7) fun e he => goes_straight he hcount fun e he => ?_
      exact goes_jumpBack (i := 0) he rfl (by omega) fun e he => goes_end (i := 1) he rfl
    simp only [if_true]
    cases isStos with
    | true =>
      refine ⟨0 + 1 + n + 1 + 1 + 1, results_of_goes fun B L e he => ?_⟩
      refine goes_makeLabel he fun e he => goes_makeLabel he fun e he => ?_
      refine goes_bindLabel (i := 0) he rfl fun e he => goes_branch (i := 1) he rfl fun e he => ?_
      exact goes_straight he helement fun e he => htail B L _ e (by omega) he
    | false =>
      refine ⟨0 + 1 + n + 1 + 1 + 1 + 1, results_of_goes fun B L e he => ?_⟩
      refine goes_makeLabel he fun e he => goes_makeLabel he fun e he => ?_
      refine goes_bindLabel (i := 0) he rfl fun e he => goes_branch (i := 1) he rfl fun e he => ?_
      refine goes_straight he helement fun e he => goes_straight he (hadd 6) fun e he => ?_
      exact htail B L _ e (by omega) he
  | false =>
    simp only [Bool.false_eq_true, if_false]
    cases isStos with
    | true =>
      refine ⟨0 + n + 1, results_of_goes fun B L e he => ?_⟩
      refine goes_makeLabel he fun e he => goes_makeLabel he fun e he => ?_
      refine goes_bindLabel (i := 0) he rfl fun e he => goes_straight he helement fun e he => ?_
      exact goes_straight he (hadd 7) fun e he => ⟨(), e, rfl, _, he⟩
    | false =>
      refine ⟨0 + n + 1 + 1, results_of_goes fun B L e he => ?_⟩
      refine goes_makeLabel he fun e he => goes_makeLabel he fun e he => ?_
      refine goes_bindLabel (i := 0) he rfl fun e he => goes_straight he helement fun e he => ?_
      refine goes_straight he (hadd 6) fun e he => ?_
      exact goes_straight he (hadd 7) fun e he => ⟨(), e, rfl, _, he⟩

instance (size : BitVec 32) (rep isStos : Bool) : Calm (emitRepLoop size rep isStos) := by
  by_cases hknown : size ≠ 1 ∧ size ≠ 2 ∧ size ≠ 4 ∧ size ≠ 8
  · unfold emitRepLoop
    rw [if_pos hknown]
    infer_instance
  · have hsize : size ∈ elementSizes := by
      simp only [elementSizes, List.mem_cons, List.not_mem_nil, or_false]
      tauto
    exact .of_results fun p => results_emitRepLoop hsize rep isStos

instance (inst : Inst) (isStos : Bool) : Calm (liftString inst isStos) := by
  unfold liftString
  dsimp only
  split <;> infer_instance

end Strings

/-! ### `CPUID` -/

theorem results_liftCpuid : ∃ k, Results p liftCpuid (.ok ((), k)) := by
  have hconst : ∀ r v, ∃ n, Straight p (loadConst64 r v : LiftM Unit) n := fun r v => Passes.straight p
  have hcmp : ∀ imm, imm12Encodable imm = true → Straight p (cmp64Imm (hostReg .rax) imm : LiftM Unit) 1 :=
    fun imm h => straight_addsub64Imm 31 _ 1 1 h
  have hzero : ∀ r, Straight p (movz64 r 0 0 : LiftM Unit) 1 := fun r => .assert (fun _ => by decide) (.push _)
  obtain ⟨a₀, ha₀⟩ := hconst (hostReg .rax) 7
  obtain ⟨b₀, hb₀⟩ := hconst (hostReg .rbx) 0x756e6547
  obtain ⟨d₀, hd₀⟩ := hconst (hostReg .rdx) 0x49656e69
  obtain ⟨c₀, hc₀⟩ := hconst (hostReg .rcx) 0x6c65746e
  obtain ⟨a₁, ha₁⟩ := hconst (hostReg .rax) 0x000106A9
  obtain ⟨b₁, hb₁⟩ := hconst (hostReg .rbx) 0x00010800
  obtain ⟨c₁, hc₁⟩ := hconst (hostReg .rcx) 0x00982201
  obtain ⟨d₁, hd₁⟩ := hconst (hostReg .rdx) 0x07808111
  refine ⟨0 + 1 + 1 + a₀ + b₀ + d₀ + c₀ + 1 + 1 + 1 + a₁ + b₁ + c₁ + d₁ + 1 + 1 + 1 + 1 + 1,
    results_of_goes fun B L e he => ?_⟩
  refine goes_makeLabel he fun e he => goes_makeLabel he fun e he => goes_makeLabel he fun e he => ?_
  -- leaf 0
  refine goes_straight he (hcmp 0 (by decide)) fun e he => goes_branch (i := 0) he rfl fun e he => ?_
  refine goes_straight he ha₀ fun e he => goes_straight he hb₀ fun e he => ?_
  refine goes_straight he hd₀ fun e he => goes_straight he hc₀ fun e he => ?_
  refine goes_branch (i := 2) he rfl fun e he => goes_bindLabel (i := 0) he rfl fun e he => ?_
  -- leaf 1
  refine goes_straight he (hcmp 1 (by decide)) fun e he => goes_branch (i := 1) he rfl fun e he => ?_
  refine goes_straight he ha₁ fun e he => goes_straight he hb₁ fun e he => ?_
  refine goes_straight he hc₁ fun e he => goes_straight he hd₁ fun e he => ?_
  refine goes_branch (i := 2) he rfl fun e he => goes_bindLabel (i := 1) he rfl fun e he => ?_
  -- every other leaf
  refine goes_straight he (hzero _) fun e he => goes_straight he (hzero _) fun e he => ?_
  refine goes_straight he (hzero _) fun e he => goes_straight he (hzero _) fun e he => ?_
  exact goes_end (i := 2) he rfl

instance : Calm liftCpuid :=
  .of_results fun _ => results_liftCpuid

end Quantum.Jit
