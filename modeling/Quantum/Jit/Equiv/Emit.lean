import Quantum.A64.Equiv.Run
import Quantum.Jit.Equiv.Encode

/-!
# What a computation of the emitter writes

`Emits p m Q` says that, under profile `p`, every successful run of `m` only appends words to the
code, and that its value and the instructions of these words satisfy `Q`.  There is a rule for each
way to build a computation (`Emits.bind`, `Emits.debugAssert`, …) and one for each encoder, which
gives the instruction it writes.

`compile p m` is the finished code of `m` on an empty emitter, and `Exec env ws s s'` says that this
code runs from its first word to its end.
-/

namespace Quantum.Jit

open A64 StateTransition
open EmitM

variable {ε α β : Type} {p : Profile}

/-- The emitter with more words. -/
def Emitter.append (e : Emitter) (ws : List Word) : Emitter :=
  { e with code := e.code ++ ws }

@[simp]
theorem Emitter.append_nil (e : Emitter) : e.append [] = e := by
  simp [Emitter.append]

@[simp]
theorem Emitter.append_append (e : Emitter) (ws ws' : List Word) :
    (e.append ws).append ws' = e.append (ws ++ ws') := by
  simp [Emitter.append]

/-- Every successful run of `m` appends words; its value and their instructions satisfy `Q`. -/
def Emits (p : Profile) (m : EmitM ε α) (Q : α → List (Option Insn) → Prop) : Prop :=
  ∀ e a e', m p e = .ok (a, e') → ∃ ws, e' = e.append ws ∧ Q a (ws.map decode)

/-! ### Composition -/

theorem Emits.mono {m : EmitM ε α} {Q R : α → List (Option Insn) → Prop} (h : Emits p m Q)
    (hQR : ∀ a is, Q a is → R a is) : Emits p m R := by
  intro e a e' hm
  obtain ⟨ws, he, hQ⟩ := h e a e' hm
  exact ⟨ws, he, hQR _ _ hQ⟩

theorem Emits.pure {a : α} {Q : α → List (Option Insn) → Prop} (h : Q a []) :
    Emits p (Pure.pure a : EmitM ε α) Q := by
  intro e a' e' hm
  cases hm
  exact ⟨[], by simp, h⟩

/-- The value and the state of a sequence that succeeds. -/
theorem bind_eq_ok {m : EmitM ε α} {f : α → EmitM ε β} {e e' : Emitter} {b : β}
    (h : (m >>= f) p e = .ok (b, e')) :
    ∃ a e₁, m p e = .ok (a, e₁) ∧ f a p e₁ = .ok (b, e') := by
  cases hm : m p e with
  | error x =>
    have hbind : (m >>= f) p e = .error x := by
      simp only [bind, hm]
    rw [hbind] at h
    cases h
  | ok r =>
    have hbind : (m >>= f) p e = f r.1 p r.2 := by
      simp only [bind, hm]
    rw [hbind] at h
    exact ⟨r.1, r.2, rfl, h⟩

theorem emit_bind_assoc {γ : Type} (m : EmitM ε α) (f : α → EmitM ε β) (g : β → EmitM ε γ) :
    (m >>= f) >>= g = m >>= fun a => f a >>= g := by
  funext p e
  simp only [bind]
  cases m p e <;> rfl

theorem Emits.bind {m : EmitM ε α} {f : α → EmitM ε β} {R : β → List (Option Insn) → Prop}
    (h : Emits p m fun a is => Emits p (f a) fun b js => R b (is ++ js)) :
    Emits p (m >>= f) R := by
  intro e b e' hm
  obtain ⟨a, e₁, h₁, h₂⟩ := bind_eq_ok hm
  obtain ⟨ws, rfl, hf⟩ := h e a e₁ h₁
  obtain ⟨ws', rfl, hR⟩ := hf _ _ _ h₂
  refine ⟨ws ++ ws', by rw [Emitter.append_append], ?_⟩
  rw [List.map_append]
  exact hR

theorem Emits.fail {x : ε} {Q : α → List (Option Insn) → Prop} : Emits p (EmitM.fail x) Q := by
  intro e a e' hm
  cases hm

theorem Emits.panic {msg : String} {Q : α → List (Option Insn) → Prop} :
    Emits p (EmitM.panic msg : EmitM ε α) Q := by
  intro e a e' hm
  cases hm

theorem Emits.okOr {o : Option α} {x : ε} {Q : α → List (Option Insn) → Prop}
    (h : ∀ a, o = some a → Q a []) : Emits p (EmitM.okOr o x) Q := by
  cases o with
  | none => exact Emits.fail
  | some a => exact Emits.pure (h a rfl)

theorem Emits.debugAssert {c : Prop} [Decidable c] {msg : String}
    {Q : Unit → List (Option Insn) → Prop} (h : (p.debugAssertions = true → c) → Q () []) :
    Emits p (EmitM.debugAssert c msg : EmitM ε Unit) Q := by
  intro e a e' hm
  by_cases hc : p.debugAssertions = true ∧ ¬ c
  · rw [EmitM.debugAssert, if_pos hc] at hm
    cases hm
  · rw [EmitM.debugAssert, if_neg hc] at hm
    cases hm
    refine ⟨[], by simp, h fun hp => ?_⟩
    by_contra hcn
    exact hc ⟨hp, hcn⟩

theorem Emits.push {w : Word} {Q : Unit → List (Option Insn) → Prop} (h : Q () [decode w]) :
    Emits p (EmitM.push w : EmitM ε Unit) Q := by
  intro e a e' hm
  cases hm
  exact ⟨[w], rfl, h⟩

/-! ### The finished code -/

/-- The code of `m` on its own: emitted into an empty emitter and finished. -/
def compile (p : Profile) (m : EmitM ε α) : Option (List Word) :=
  match m p Emitter.new with
  | .ok (_, e) =>
    match e.finish with
    | (.ok _, e') => some e'.code
    | (.error _, _) => none
  | .error _ => none

/-- The code `ws` runs from its first word in state `s` to its end in state `s'`. -/
def Exec (env : Env) (ws : List Word) (s s' : State) : Prop :=
  Reaches (step env ws) (.at 0 s) (.at ws.length s')

theorem Emits.of_compile {m : EmitM ε α} {Q : α → List (Option Insn) → Prop} {ws : List Word}
    (h : Emits p m Q) (hc : compile p m = some ws) : ∃ a, Q a (ws.map decode) := by
  unfold compile at hc
  split at hc
  · rename_i a e hm
    obtain ⟨ws', rfl, hQ⟩ := h _ _ _ hm
    have hws : ws' = ws := Option.some.inj hc
    exact ⟨a, hws ▸ hQ⟩
  · cases hc

theorem exec_of_runSeq {env : Env} {ws : List Word} {s s' : State}
    (h : runSeq env 0 (ws.map decode) s = some s') : Exec env ws s s' := by
  have hc : CodeAt ws 0 (ws.map decode) := ⟨[], ws, [], by simp, rfl, rfl⟩
  have hr := reaches_of_runSeq hc h
  rwa [List.length_map, Nat.zero_add] at hr

theorem runSeq_of_exec {env : Env} {ws : List Word} {s s' : State}
    (hlin : ∀ i, some i ∈ ws.map decode → i.isLinear = true) (h : Exec env ws s s') :
    runSeq env 0 (ws.map decode) s = some s' :=
  runSeq_of_reaches_end ⟨[], ws, [], by simp, rfl, rfl⟩ (by simp) hlin h

/-- Execution is deterministic, and the end of the code is outside it. -/
theorem Exec.unique {env : Env} {ws : List Word} {s s₁ s₂ : State} (h₁ : Exec env ws s s₁)
    (h₂ : Exec env ws s s₂) : s₁ = s₂ := by
  have hend : ∀ s, step env ws (.at ws.length s) = none := by
    intro s
    simp [step]
  have hm₁ := mem_eval.mpr ⟨h₁, hend s₁⟩
  have hm₂ := mem_eval.mpr ⟨h₂, hend s₂⟩
  have heq := Part.mem_unique hm₁ hm₂
  injection heq

/-- What holds of the end of an execution. -/
theorem Exec.exists_iff {env : Env} {ws : List Word} {s s₁ : State} (h : Exec env ws s s₁)
    {P : State → Prop} : (∃ s', Exec env ws s s' ∧ P s') ↔ P s₁ := by
  constructor
  · rintro ⟨s', hs', hP⟩
    rwa [h.unique hs']
  · exact fun hP => ⟨s₁, h, hP⟩

/-! ### Code that is emitted -/

/-- `m` ends in a value, from every emitter, and the value satisfies `Q`. -/
def Yields (p : Profile) (m : EmitM ε α) (Q : α → Prop) : Prop :=
  ∀ e, ∃ a e', m p e = .ok (a, e') ∧ Q a

theorem Yields.pure {a : α} {Q : α → Prop} (h : Q a) : Yields p (Pure.pure a : EmitM ε α) Q :=
  fun e => ⟨a, e, rfl, h⟩

theorem Yields.bind {m : EmitM ε α} {f : α → EmitM ε β} {Q : α → Prop} {R : β → Prop}
    (hm : Yields p m Q) (hf : ∀ a, Q a → Yields p (f a) R) : Yields p (m >>= f) R := by
  intro e
  obtain ⟨a, e₁, h₁, hQ⟩ := hm e
  obtain ⟨b, e₂, h₂, hR⟩ := hf a hQ e₁
  refine ⟨b, e₂, ?_, hR⟩
  change (match m p e with | .ok (a, e₁) => f a p e₁ | .error x => .error x) = _
  rw [h₁]
  exact h₂

/-- A sequence in which the value of the first part does not matter. -/
theorem Yields.seq {m : EmitM ε α} {f : α → EmitM ε β} {R : β → Prop}
    (hm : Yields p m fun _ => True) (hf : ∀ a, Yields p (f a) R) : Yields p (m >>= f) R :=
  hm.bind fun a _ => hf a

theorem Yields.push (w : Word) : Yields p (EmitM.push w : EmitM ε Unit) fun _ => True :=
  fun _ => ⟨(), _, rfl, trivial⟩

theorem Yields.debugAssert {c : Prop} [Decidable c] (hc : c) (msg : String) :
    Yields p (EmitM.debugAssert c msg : EmitM ε Unit) fun _ => True := by
  intro e
  refine ⟨(), e, ?_, trivial⟩
  rw [EmitM.debugAssert, if_neg fun h => h.2 hc]

/-- What is emitted without branches compiles. -/
theorem Yields.exists_compile {m : EmitM ε α} {Q : α → Prop} {R : α → List (Option Insn) → Prop}
    (hm : Yields p m Q) (hR : Emits p m R) : ∃ ws, compile p m = some ws := by
  obtain ⟨a, e', h, -⟩ := hm Emitter.new
  obtain ⟨ws, rfl, -⟩ := hR _ _ _ h
  refine ⟨ws, ?_⟩
  unfold compile
  rw [h]
  rfl

theorem yields_movz64 (rd : Reg) (imm : BitVec 16) {lsl : Nat} (h : lsl / 16 < 4) :
    Yields p (movz64 rd imm lsl : EmitM ε Unit) fun _ => True :=
  (Yields.debugAssert h _).seq fun _ => .push _

theorem yields_movk64 (rd : Reg) (imm : BitVec 16) {lsl : Nat} (h : lsl / 16 < 4) :
    Yields p (movk64 rd imm lsl : EmitM ε Unit) fun _ => True :=
  (Yields.debugAssert h _).seq fun _ => .push _

theorem yields_loadConst64Lanes (rd : Reg) (value : BitVec 64) {lanes : List Nat}
    (hlanes : ∀ lane ∈ lanes, lane < 4) (emitted : Bool) :
    Yields p (loadConst64Lanes rd value lanes emitted : EmitM ε Unit) fun _ => True := by
  induction lanes generalizing emitted with
  | nil =>
    unfold loadConst64Lanes
    split
    · exact .pure trivial
    · exact yields_movz64 rd 0 (by decide)
  | cons lane lanes ih =>
    have hlane : lane * 16 / 16 < 4 := by
      rw [Nat.mul_div_cancel _ (by decide)]
      exact hlanes lane List.mem_cons_self
    have hrest := ih fun l hl => hlanes l (List.mem_cons_of_mem _ hl)
    unfold loadConst64Lanes
    dsimp only
    split_ifs
    · exact hrest emitted
    · exact hrest emitted
    · exact (yields_movz64 rd _ hlane).seq fun _ => hrest true
    · exact (yields_movk64 rd _ hlane).seq fun _ => hrest emitted

theorem yields_loadConst64 (rd : Reg) (value : BitVec 64) :
    Yields p (loadConst64 rd value : EmitM ε Unit) fun _ => True := by
  unfold loadConst64
  split
  · exact yields_movz64 rd _ (by decide)
  · exact yields_loadConst64Lanes rd value (by decide) false

/-! ### Constants -/

theorem emits_movz64 {Q : Unit → List (Option Insn) → Prop} {rd : Reg} {imm : BitVec 16} {lsl : Nat}
    (h : Q () [some (.movWide true .movz (BitVec.ofNat 2 (lsl / 16)) imm rd)]) :
    Emits p (movz64 rd imm lsl : EmitM ε Unit) Q := by
  refine Emits.bind (Emits.debugAssert fun _ => Emits.push ?_)
  rw [decode_movz64]
  exact h

theorem emits_movk64 {Q : Unit → List (Option Insn) → Prop} {rd : Reg} {imm : BitVec 16} {lsl : Nat}
    (h : Q () [some (.movWide true .movk (BitVec.ofNat 2 (lsl / 16)) imm rd)]) :
    Emits p (movk64 rd imm lsl : EmitM ε Unit) Q := by
  refine Emits.bind (Emits.debugAssert fun _ => Emits.push ?_)
  rw [decode_movk64]
  exact h

/-- The low `k` lanes of 16 bits of a value. -/
def lowLanes (k : Nat) (value : BitVec 64) : BitVec 64 :=
  (value.setWidth (16 * k)).setWidth 64

theorem getLsbD_lowLanes (k : Nat) (value : BitVec 64) (i : Nat) :
    (lowLanes k value).getLsbD i = (decide (i < 64) && decide (i < 16 * k) && value.getLsbD i) := by
  rw [lowLanes, BitVec.getLsbD_setWidth, BitVec.getLsbD_setWidth, Bool.and_assoc]

theorem lowLanes_four (value : BitVec 64) : lowLanes 4 value = value := by
  simp [lowLanes]

theorem lowLanes_zero (value : BitVec 64) : lowLanes 0 value = 0 := by
  refine BitVec.eq_of_getLsbD_eq fun i hi => ?_
  rw [getLsbD_lowLanes]
  simp

/-- Lane `k` as a 64-bit value at its place. -/
theorem getLsbD_lane (k : Nat) (value : BitVec 64) (i : Nat) :
    ((value.extractLsb' (16 * k) 16).setWidth 64 <<< (16 * k)).getLsbD i
      = (decide (i < 64) && decide (16 * k ≤ i) && decide (i < 16 * (k + 1)) && value.getLsbD i) := by
  rw [BitVec.getLsbD_shiftLeft, BitVec.getLsbD_setWidth, BitVec.getLsbD_extractLsb']
  by_cases h : 16 * k ≤ i
  · have h1 : (i - 16 * k < 16) = (i < 16 * (k + 1)) := by apply propext; omega
    have h2 : 16 * k + (i - 16 * k) = i := by omega
    by_cases h64 : i < 64
    · simp [h, h1, h2, h64, show i - 16 * k < 64 by omega]
    · simp [h64]
  · simp [h, Nat.not_le.mp h]

/-- `MOVK` of lane `k` over the lower lanes. -/
theorem movk_lowLanes (k : Nat) (value : BitVec 64) :
    execMovWide .movk k (value.extractLsb' (16 * k) 16) (lowLanes k value)
      = lowLanes (k + 1) value := by
  refine BitVec.eq_of_getLsbD_eq fun i hi => ?_
  rw [execMovWide, BitVec.getLsbD_or, BitVec.getLsbD_and, getLsbD_lane, getLsbD_lowLanes,
    getLsbD_lowLanes, BitVec.getLsbD_not, BitVec.getLsbD_shiftLeft]
  by_cases h : i < 16 * k
  · simp [h, hi, Nat.not_le.mpr h, show i < 16 * (k + 1) by omega]
  · simp [h, hi, Nat.not_lt.mp h]

/-- `MOVZ` of lane `k` when the lower lanes are zero. -/
theorem movz_lowLanes (k : Nat) (value old : BitVec 64) (h : lowLanes k value = 0) :
    execMovWide .movz k (value.extractLsb' (16 * k) 16) old = lowLanes (k + 1) value := by
  refine BitVec.eq_of_getLsbD_eq fun i hi => ?_
  rw [execMovWide, getLsbD_lane, getLsbD_lowLanes]
  by_cases hk : i < 16 * k
  · have hbit := congrArg (fun b => b.getLsbD i) h
    simp only [getLsbD_lowLanes, hi, hk, decide_true, Bool.true_and] at hbit
    simp [hbit]
  · simp [hi, Nat.not_lt.mp hk]

theorem lowLanes_succ_of_zero (k : Nat) (value : BitVec 64)
    (h : value.extractLsb' (16 * k) 16 = 0) : lowLanes (k + 1) value = lowLanes k value := by
  rw [← movk_lowLanes, h, execMovWide]
  refine BitVec.eq_of_getLsbD_eq fun i hi => ?_
  rw [BitVec.getLsbD_or, BitVec.getLsbD_and, getLsbD_lowLanes]
  by_cases hk : i < 16 * k
  · simp [hk, hi]
  · simp [hk]

/-- The instructions `is` put the constant `value` in `rd`, with moves to `rd` only. -/
structure LoadsConst (rd : Reg) (value : BitVec 64) (is : List (Option Insn)) : Prop where
  moves : ∀ o ∈ is, ∃ op hw imm, o = some (.movWide true op hw imm rd)
  run : ∀ env pc s, runSeq env pc is s = some (s.writeX rd value)

theorem LoadsConst.cons {rd : Reg} {op : MovOp} {hw : BitVec 2}
    {imm : BitVec 16} {is : List (Option Insn)}
    (h : ∀ o ∈ is, ∃ op hw imm, o = some (.movWide true op hw imm rd)) :
    ∀ o ∈ some (.movWide true op hw imm rd) :: is,
      ∃ op hw imm, o = some (.movWide true op hw imm rd) := by
  intro o ho
  rcases List.mem_cons.mp ho with rfl | ho
  · exact ⟨op, hw, imm, rfl⟩
  · exact h o ho

/-- The lanes from `k` on, once the lower ones are in `rd` (or are all zero and nothing has been
emitted). -/
theorem emits_loadConst64Lanes {rd : Reg} (hrd : rd ≠ 31#5) (value : BitVec 64) (n : Nat) :
    ∀ (k : Nat) (emitted : Bool), k + n = 4 →
    Emits p (loadConst64Lanes rd value (List.range' k n) emitted : EmitM ε Unit) fun _ is =>
      (∀ o ∈ is, ∃ op hw imm, o = some (.movWide true op hw imm rd)) ∧
      ∀ env pc s, (emitted = true → s.x rd = lowLanes k value) →
        (emitted = false → lowLanes k value = 0) →
        runSeq env pc is s = some (s.writeX rd value) := by
  have hread : ∀ s : State, s.readX rd = s.x rd := fun s => s.readX_of_ne rd hrd
  have hww : ∀ (s : State) (a b : BitVec 64), (s.writeX rd a).writeX rd b = s.writeX rd b := by
    intro s a b
    rw [State.writeX_of_ne _ _ _ hrd, State.writeX_of_ne _ _ _ hrd, State.writeX_of_ne _ _ _ hrd,
      Function.update_idem]
  induction n with
  | zero =>
    intro k emitted hk
    obtain rfl : k = 4 := by omega
    rw [List.range'_zero, loadConst64Lanes]
    cases emitted with
    | true =>
      refine Emits.pure ⟨by simp, fun env pc s hs _ => ?_⟩
      rw [runSeq_nil, ← lowLanes_four value, ← hs rfl, State.writeX_x_self]
    | false =>
      refine emits_movz64 ⟨LoadsConst.cons (by simp), fun env pc s _ h0 => ?_⟩
      rw [← lowLanes_four value, h0 rfl]
      rfl
  | succ n ih =>
    intro k emitted hk
    have hhw : (BitVec.ofNat 2 (k * 16 / 16)).toNat = k := by
      rw [Nat.mul_div_cancel _ (by decide), BitVec.toNat_ofNat, Nat.mod_eq_of_lt (by omega)]
    rw [List.range'_succ, loadConst64Lanes]
    cases emitted with
    | true =>
      by_cases hpart : value.extractLsb' (16 * k) 16 = 0
      · rw [if_pos (by simp [hpart])]
        refine (ih (k + 1) true (by omega)).mono fun _ is h => ⟨h.1, fun env pc s hs h0 => ?_⟩
        exact h.2 env pc s (fun _ => by rw [lowLanes_succ_of_zero k value hpart, hs rfl])
          (by simp)
      · rw [if_neg (by simpa using hpart), if_neg (by simp), if_neg (by simp)]
        refine Emits.bind (emits_movk64 ((ih (k + 1) true (by omega)).mono fun _ is h =>
          ⟨LoadsConst.cons h.1, fun env pc s hs _ => ?_⟩))
        have hval : execMovWide .movk (BitVec.ofNat 2 (k * 16 / 16)).toNat
            (value.extractLsb' (16 * k) 16) (s.readX rd) = lowLanes (k + 1) value := by
          rw [hhw, hread, hs rfl, movk_lowLanes]
        rw [List.singleton_append, runSeq_cons]
        show runSeq env (pc + 1) is (s.writeX rd _) = _
        rw [if_pos rfl, hval, h.2 env (pc + 1) _ (fun _ => by simp [hrd]) (by simp), hww]
    | false =>
      by_cases hskip : value.extractLsb' (16 * k) 16 = 0 ∧ k ≠ 3
      · rw [if_neg (by simp), if_pos (by simpa using hskip)]
        refine (ih (k + 1) false (by omega)).mono fun _ is h => ⟨h.1, fun env pc s _ h0 => ?_⟩
        exact h.2 env pc s (by simp)
          (fun _ => by rw [lowLanes_succ_of_zero k value hskip.1, h0 rfl])
      · rw [if_neg (by simp), if_neg (by simpa using hskip),
          if_pos (show (!false) = true from rfl)]
        refine Emits.bind (emits_movz64 ((ih (k + 1) true (by omega)).mono fun _ is h =>
          ⟨LoadsConst.cons h.1, fun env pc s _ h0 => ?_⟩))
        have hval : execMovWide .movz (BitVec.ofNat 2 (k * 16 / 16)).toNat
            (value.extractLsb' (16 * k) 16) (s.readX rd) = lowLanes (k + 1) value := by
          rw [hhw, movz_lowLanes k value _ (h0 rfl)]
        rw [List.singleton_append, runSeq_cons]
        show runSeq env (pc + 1) is (s.writeX rd _) = _
        rw [if_pos rfl, hval, h.2 env (pc + 1) _ (fun _ => by simp [hrd]) (by simp), hww]

theorem emits_loadConst64 {rd : Reg} (hrd : rd ≠ 31#5) (value : BitVec 64)
    {Q : Unit → List (Option Insn) → Prop} (h : ∀ is, LoadsConst rd value is → Q () is) :
    Emits p (loadConst64 rd value : EmitM ε Unit) Q := by
  unfold loadConst64
  split
  · rename_i hsmall
    have hval : (value.setWidth 16).setWidth 64 = value := by
      refine BitVec.eq_of_getLsbD_eq fun i hi => ?_
      rw [BitVec.getLsbD_setWidth, BitVec.getLsbD_setWidth]
      by_cases h16 : i < 16
      · simp [h16, hi]
      · have hbit := congrArg (·.getLsbD i) hsmall
        have hmask : ∀ j : Fin 64, 16 ≤ j.val → (~~~0xFFFF#64).getLsbD j = true := by decide
        rw [BitVec.getLsbD_and, hmask ⟨i, hi⟩ (Nat.not_lt.mp h16), Bool.and_true] at hbit
        rw [hbit]
        simp [h16]
    refine emits_movz64 (h _ ⟨LoadsConst.cons (by simp), fun env pc s => ?_⟩)
    rw [runSeq_cons]
    show some (s.writeX rd ((value.setWidth 16).setWidth 64 <<< 0)) = _
    rw [BitVec.shiftLeft_zero, hval]
  · refine (emits_loadConst64Lanes hrd value 4 0 false rfl).mono fun _ is hs => h is ⟨hs.1, ?_⟩
    exact fun env pc s => hs.2 env pc s (by simp) (fun _ => lowLanes_zero value)

/-- **Constants.**  On every emitter `loadConst64` appends wide moves to `rd`.  Wherever they stand in the
code, they run from any state to one that has the constant in `rd` and is otherwise the same. -/
theorem loadConst64_sets {rd : Reg} (hrd : rd ≠ 31#5) (value : BitVec 64) (p : Profile) (e : Emitter) :
    ∃ ws, (loadConst64 rd value : EmitM ε Unit) p e = .ok ((), e.append ws) ∧
      (∀ w ∈ ws, ∃ op hw imm, decode w = some (.movWide true op hw imm rd)) ∧
      ∀ env front back s, ∃ s',
        Reaches (step env (front ++ ws ++ back)) (.at front.length s)
          (.at (front.length + ws.length) s') ∧
        s'.readX rd = value ∧ (∀ r, r ≠ rd → s'.x r = s.x r) ∧
        s'.v = s.v ∧ s'.nzcv = s.nzcv ∧ s'.mem = s.mem ∧ s'.ext = s.ext := by
  have hemits : Emits p (loadConst64 rd value : EmitM ε Unit) fun _ is => LoadsConst rd value is :=
    emits_loadConst64 hrd value fun _ h => h
  have hyields : Yields p (loadConst64 rd value : EmitM ε Unit) fun _ => True :=
    yields_loadConst64 rd value
  obtain ⟨u, e', hm, -⟩ := hyields e
  obtain ⟨ws, rfl, hloads⟩ := hemits e u e' hm
  refine ⟨ws, hm, fun w hw => hloads.moves _ (List.mem_map_of_mem hw), fun env front back s => ?_⟩
  have hcode : CodeAt (front ++ ws ++ back) front.length (ws.map decode) :=
    ⟨front, ws, back, rfl, rfl, rfl⟩
  have hreach := reaches_of_runSeq hcode (hloads.run env front.length s)
  rw [List.length_map] at hreach
  refine ⟨s.writeX rd value, hreach, ?_, fun r hr => ?_, by simp, by simp, by simp, by simp⟩
  · rw [State.readX_writeX, if_pos ⟨rfl, hrd⟩]
  · unfold State.writeX
    split
    · rfl
    · exact Function.update_of_ne hr _ _

/-- A value whose lowest and third lane are zero, into X9. -/
theorem loadConst64_sets_two_lanes :
    ∃ ws, (loadConst64 9 0x1234000056780000#64 : EmitM Empty Unit) ⟨true⟩ .new =
        .ok ((), Emitter.new.append ws) ∧
      ∀ env s, ∃ s', Exec env ws s s' ∧ s'.readX 9 = 0x1234000056780000#64 := by
  have h9 : (9 : Reg) ≠ 31#5 := by decide
  obtain ⟨ws, hm, -, hrun⟩ := @loadConst64_sets Empty 9 h9 0x1234000056780000#64 ⟨true⟩ .new
  refine ⟨ws, hm, fun env s => ?_⟩
  obtain ⟨s', hreach, hval, -⟩ := hrun env [] [] s
  rw [List.nil_append, List.append_nil, List.length_nil, Nat.zero_add] at hreach
  exact ⟨s', hreach, hval⟩

/-! ### Add and subtract -/

/-- The second operand of an add or subtract immediate. -/
def immValue (sh : Bool) (imm : BitVec 12) : BitVec 64 :=
  if sh then imm.setWidth 64 <<< 12 else imm.setWidth 64

theorem encodeAddsubImm_spec {imm imm12 : BitVec 32} {shift : BitVec 1}
    (h : encodeAddsubImm imm = some (shift, imm12)) :
    imm12.toNat < 2 ^ 12 ∧ immValue (shift == 1#1) (imm12.setWidth 12) = imm.setWidth 64 := by
  have himm := imm.isLt
  unfold encodeAddsubImm at h
  split at h
  · rename_i hlt
    cases h
    refine ⟨hlt, BitVec.eq_of_toNat_eq ?_⟩
    show ((imm.setWidth 12).setWidth 64).toNat = (imm.setWidth 64).toNat
    simp only [BitVec.toNat_setWidth]
    omega
  · split at h
    · rename_i hsh
      cases h
      have hlow : imm.toNat % 2 ^ 12 = 0 := by
        have hand := congrArg BitVec.toNat hsh.1
        rwa [BitVec.toNat_and, show (0xFFF#32).toNat = 2 ^ 12 - 1 from rfl,
          Nat.and_two_pow_sub_one_eq_mod] at hand
      refine ⟨hsh.2, BitVec.eq_of_toNat_eq ?_⟩
      show (((imm >>> 12).setWidth 12).setWidth 64 <<< 12).toNat = (imm.setWidth 64).toNat
      have hsmall := hsh.2
      simp only [BitVec.toNat_setWidth, BitVec.toNat_shiftLeft, BitVec.toNat_ushiftRight,
        Nat.shiftLeft_eq, Nat.shiftRight_eq_div_pow] at hsmall ⊢
      omega
    · cases h

section Encoders

variable {Q : Unit → List (Option Insn) → Prop} {rd rn rm ra rt rt2 : Reg}

theorem emits_addsub64Imm {op s : BitVec 1} {imm : BitVec 32}
    (h : ∀ sh i, immValue sh i = imm.setWidth 64 →
      Q () [some (.addSubImm (op == 1#1) (s == 1#1) sh i rn rd)]) :
    Emits p (addsub64Imm op s rd rn imm : EmitM ε Unit) Q := by
  unfold addsub64Imm
  split
  · rename_i shift imm12 henc
    obtain ⟨hlt, hval⟩ := encodeAddsubImm_spec henc
    refine Emits.bind (Emits.debugAssert fun _ => Emits.push ?_)
    rw [decode_addsubImmWord _ _ _ _ _ _ hlt]
    exact h _ _ hval
  · exact Emits.panic

/-- An immediate that has an encoding. -/
theorem yields_addsub64Imm (op s : BitVec 1) (rd rn : Reg) {imm : BitVec 32}
    (h : (encodeAddsubImm imm).isSome = true) :
    Yields p (addsub64Imm op s rd rn imm : EmitM ε Unit) fun _ => True := by
  obtain ⟨⟨shift, imm12⟩, henc⟩ := Option.isSome_iff_exists.mp h
  unfold addsub64Imm
  rw [henc]
  exact (Yields.debugAssert (encodeAddsubImm_spec henc).1 _).seq fun _ => .push _

/-- An immediate that is emitted has an encoding. -/
theorem emits_addsub64Imm_encodable (op s : BitVec 1) (rd rn : Reg) (imm : BitVec 32) :
    Emits p (addsub64Imm op s rd rn imm : EmitM ε Unit)
      fun _ _ => (encodeAddsubImm imm).isSome = true := by
  unfold addsub64Imm
  split
  · rename_i henc
    refine Emits.bind (Emits.debugAssert fun _ => Emits.push ?_)
    rw [henc]
    rfl
  · exact Emits.panic

theorem emits_add64Imm {imm : BitVec 32} (h : ∀ sh i, immValue sh i = imm.setWidth 64 →
    Q () [some (.addSubImm false false sh i rn rd)]) :
    Emits p (add64Imm rd rn imm : EmitM ε Unit) Q :=
  emits_addsub64Imm h

theorem emits_adds64Imm {imm : BitVec 32} (h : ∀ sh i, immValue sh i = imm.setWidth 64 →
    Q () [some (.addSubImm false true sh i rn rd)]) :
    Emits p (adds64Imm rd rn imm : EmitM ε Unit) Q :=
  emits_addsub64Imm h

theorem emits_sub64Imm {imm : BitVec 32} (h : ∀ sh i, immValue sh i = imm.setWidth 64 →
    Q () [some (.addSubImm true false sh i rn rd)]) :
    Emits p (sub64Imm rd rn imm : EmitM ε Unit) Q :=
  emits_addsub64Imm h

theorem emits_subs64Imm {imm : BitVec 32} (h : ∀ sh i, immValue sh i = imm.setWidth 64 →
    Q () [some (.addSubImm true true sh i rn rd)]) :
    Emits p (subs64Imm rd rn imm : EmitM ε Unit) Q :=
  emits_addsub64Imm h

theorem emits_add64 (h : Q () [some (.addSubShift false false rm 0 rn rd)]) :
    Emits p (add64 rd rn rm : EmitM ε Unit) Q :=
  Emits.push (by rw [decode_addsubShiftedWord]; exact h)

theorem emits_adds64 (h : Q () [some (.addSubShift false true rm 0 rn rd)]) :
    Emits p (adds64 rd rn rm : EmitM ε Unit) Q :=
  Emits.push (by rw [decode_addsubShiftedWord]; exact h)

theorem emits_sub64 (h : Q () [some (.addSubShift true false rm 0 rn rd)]) :
    Emits p (sub64 rd rn rm : EmitM ε Unit) Q :=
  Emits.push (by rw [decode_addsubShiftedWord]; exact h)

theorem emits_subs64 (h : Q () [some (.addSubShift true true rm 0 rn rd)]) :
    Emits p (subs64 rd rn rm : EmitM ε Unit) Q :=
  Emits.push (by rw [decode_addsubShiftedWord]; exact h)

/-! ### Logic and data processing -/

theorem emits_and64 (h : Q () [some (.logicShift .and rm 0 rn rd)]) :
    Emits p (and64 rd rn rm : EmitM ε Unit) Q :=
  Emits.push (by rw [decode_and64]; exact h)

theorem emits_orr64 (h : Q () [some (.logicShift .orr rm 0 rn rd)]) :
    Emits p (orr64 rd rn rm : EmitM ε Unit) Q :=
  Emits.push (by rw [decode_orr64]; exact h)

theorem emits_eor64 (h : Q () [some (.logicShift .eor rm 0 rn rd)]) :
    Emits p (eor64 rd rn rm : EmitM ε Unit) Q :=
  Emits.push (by rw [decode_eor64]; exact h)

theorem emits_ands64 (h : Q () [some (.logicShift .ands rm 0 rn rd)]) :
    Emits p (ands64 rd rn rm : EmitM ε Unit) Q :=
  Emits.push (by rw [decode_ands64]; exact h)

theorem emits_mov64 (h : Q () [some (.logicShift .orr rm 0 31 rd)]) :
    Emits p (mov64 rd rm : EmitM ε Unit) Q :=
  emits_orr64 h

theorem emits_udiv64 (h : Q () [some (.dp2 .udiv rm rn rd)]) :
    Emits p (udiv64 rd rn rm : EmitM ε Unit) Q :=
  Emits.push (by rw [decode_udiv64]; exact h)

theorem emits_sdiv64 (h : Q () [some (.dp2 .sdiv rm rn rd)]) :
    Emits p (sdiv64 rd rn rm : EmitM ε Unit) Q :=
  Emits.push (by rw [decode_sdiv64]; exact h)

theorem emits_mul64 (h : Q () [some (.dp3 .madd rm 31 rn rd)]) :
    Emits p (mul64 rd rn rm : EmitM ε Unit) Q :=
  Emits.push (by rw [decode_madd64]; exact h)

theorem emits_msub64 (h : Q () [some (.dp3 .msub rm ra rn rd)]) :
    Emits p (msub64 rd rn rm ra : EmitM ε Unit) Q :=
  Emits.push (by rw [decode_msub64]; exact h)

theorem emits_umulh64 (h : Q () [some (.dp3 .umulh rm 31 rn rd)]) :
    Emits p (umulh64 rd rn rm : EmitM ε Unit) Q :=
  Emits.push (by rw [decode_umulh64]; exact h)

theorem emits_smulh64 (h : Q () [some (.dp3 .smulh rm 31 rn rd)]) :
    Emits p (smulh64 rd rn rm : EmitM ε Unit) Q :=
  Emits.push (by rw [decode_smulh64]; exact h)

theorem emits_csel64 {c : A64.Cond} (h : Q () [some (.csel .csel rm c rn rd)]) :
    Emits p (csel64 rd rn rm c : EmitM ε Unit) Q :=
  Emits.push (by rw [decode_csel64]; exact h)

theorem emits_cset64 {c : A64.Cond} (h : Q () [some (.csel .csinc 31 (invert c) 31 rd)]) :
    Emits p (cset64 rd c : EmitM ε Unit) Q :=
  Emits.push (by rw [decode_csinc64]; exact h)

theorem emits_movz32 {imm : BitVec 16} (h : Q () [some (.movWide false .movz 0 imm rd)]) :
    Emits p (movz32 rd imm 0 : EmitM ε Unit) Q := by
  refine Emits.bind (Emits.debugAssert fun _ => Emits.push ?_)
  rw [show BitVec.ofNat 2 (0 / 16) = 0 from rfl, decode_movz32]
  exact h

theorem emits_movk32 {imm : BitVec 16} (h : Q () [some (.movWide false .movk 1 imm rd)]) :
    Emits p (movk32 rd imm 16 : EmitM ε Unit) Q := by
  refine Emits.bind (Emits.debugAssert fun _ => Emits.push ?_)
  rw [show BitVec.ofNat 2 (16 / 16) = 1 from rfl, decode_movk32]
  exact h

/-! ### Loads and stores -/

/-- The offset is a multiple of the access size and fits the offset field. -/
def Fits (n : Nat) (offset : BitVec 32) : Prop :=
  offset.toNat % n = 0 ∧ offset.toNat / n < 2 ^ 12

instance (n : Nat) (offset : BitVec 32) : Decidable (Fits n offset) :=
  inferInstanceAs (Decidable (_ ∧ _))

/-- A load or store of `n` bytes, whose offset field holds `offset / n`. -/
theorem emits_ldstScaled {n : Nat} (hn : n < 2 ^ 32) {size opc : BitVec 2} {v : BitVec 1}
    {offset : BitVec 32}
    (h : (p.debugAssertions = true → Fits n offset) →
      Q () [decode (ldstUoffWord size v opc (offset / BitVec.ofNat 32 n) rn rt)]) :
    Emits p (ldstScaled n size v opc offset rn rt : EmitM ε Unit) Q := by
  refine Emits.bind (Emits.debugAssert fun h₁ =>
    Emits.bind (Emits.debugAssert fun h₂ => Emits.push ?_))
  refine h fun hp => ⟨h₁ hp, ?_⟩
  have := h₂ hp
  rwa [BitVec.toNat_udiv, BitVec.toNat_ofNat, Nat.mod_eq_of_lt hn] at this

theorem decode_ldstScaled {n : Nat} (hn : n < 2 ^ 32) {size opc : BitVec 2} {v : BitVec 1}
    {offset : BitVec 32} (hfit : Fits n offset) :
    decode (ldstUoffWord size v opc (offset / BitVec.ofNat 32 n) rn rt)
      = some (.ldst size (v == 1#1) opc (BitVec.ofNat 12 (offset.toNat / n)) rn rt) := by
  have hdiv : (offset / BitVec.ofNat 32 n).toNat = offset.toNat / n := by
    rw [BitVec.toNat_udiv, BitVec.toNat_ofNat, Nat.mod_eq_of_lt hn]
  rw [decode_ldstUoffWord _ _ _ _ _ _ (by rw [hdiv]; exact hfit.2)]
  congr 2
  refine BitVec.eq_of_toNat_eq ?_
  rw [BitVec.toNat_setWidth, hdiv, BitVec.toNat_ofNat]

theorem emits_ldstScaled_of_fits {n : Nat} (hn : n < 2 ^ 32) {size opc : BitVec 2} {v : BitVec 1}
    {offset : BitVec 32} (hok : p.debugAssertions = true ∨ Fits n offset)
    (h : Fits n offset →
      Q () [some (.ldst size (v == 1#1) opc (BitVec.ofNat 12 (offset.toNat / n)) rn rt)]) :
    Emits p (ldstScaled n size v opc offset rn rt : EmitM ε Unit) Q := by
  refine emits_ldstScaled hn fun hdbg => ?_
  have hfit : Fits n offset := hok.elim hdbg id
  rw [decode_ldstScaled hn hfit]
  exact h hfit

/-- The byte offset of an access whose field holds `offset / n`. -/
theorem ldstAddr_ofNat {n : Nat} {offset : BitVec 32} (hfit : Fits n offset) (s : State) :
    ldstAddr s n (BitVec.ofNat 12 (offset.toNat / n)) rn = s.x rn + offset.setWidth 64 := by
  rw [ldstAddr]
  congr 1
  refine BitVec.eq_of_toNat_eq ?_
  rw [BitVec.toNat_ofNat, BitVec.toNat_ofNat, BitVec.toNat_setWidth, Nat.mod_eq_of_lt hfit.2,
    Nat.div_mul_cancel (Nat.dvd_of_mod_eq_zero hfit.1)]

theorem emits_stp64Pre {imm : Int}
    (h : Q () [some (.ldstPair false .preIndex (BitVec.ofInt 7 (imm.tdiv 8)) rt2 rn rt)]) :
    Emits p (stp64Pre rt rt2 rn imm : EmitM ε Unit) Q := by
  refine Emits.bind (Emits.debugAssert fun _ =>
    Emits.bind (Emits.debugAssert fun _ => Emits.push ?_))
  rw [decode_stp64Pre]
  exact h

theorem emits_ldp64Post {imm : Int}
    (h : Q () [some (.ldstPair true .postIndex (BitVec.ofInt 7 (imm.tdiv 8)) rt2 rn rt)]) :
    Emits p (ldp64Post rt rt2 rn imm : EmitM ε Unit) Q := by
  refine Emits.bind (Emits.debugAssert fun _ =>
    Emits.bind (Emits.debugAssert fun _ => Emits.push ?_))
  rw [decode_ldp64Post]
  exact h

theorem emits_blr (h : Q () [some (.blr rn)]) : Emits p (blr rn : EmitM ε Unit) Q :=
  Emits.push (by rw [decode_blr]; exact h)

end Encoders

end Quantum.Jit
