import Quantum.Jit.Equiv.Certify

/-!
# Straight code in certificates

The annotations of `Domain.ofPred` are predicates on states.  In this domain code that goes on to the next
word and calls nothing is annotated by its own runs (`After`): whatever a run of the words so far leads to
may hold behind them.  `Cert.appendStraight` is the rule for an emitter, `Certifies.straight` the one for a
computation.
-/

namespace Quantum.A64

/-! ### Predicates as annotations -/

namespace Domain

/-- The domain whose annotations are predicates on states, with what holds at a return. -/
def ofPred (env : Env) (Ok : Insn → State → Prop) (Post : State → Prop) : Domain (State → Prop) where
  le a b := ∀ s, a s → b s
  next a o b := ∀ i pc s s', o = some i → a s → Ok i s → execOne env pc i s = some s' → b s'
  ret a := ∀ s, a s → Post s
  le_refl _ _ := id
  le_trans h₁ h₂ s := h₂ s ∘ h₁ s
  next_le h hle i pc s s' ho ha hok hex := hle s' (h i pc s s' ho ha hok hex)

variable {env : Env} {Ok : Insn → State → Prop} {Post : State → Prop}

theorem ofPred_sound : (ofPred env Ok Post).Sound env Ok fun a s => a s where
  le h := h _
  next hnext ha hok hex := hnext _ _ _ _ rfl ha hok hex

end Domain

/-- Only a call depends on where the instruction is. -/
theorem execOne_pc {env : Env} {i : Insn} (h : ∀ rn, i ≠ .blr rn) (pc pc' : Nat) (s : State) :
    execOne env pc i s = execOne env pc' i s := by
  cases i with
  | blr rn => exact absurd rfl (h rn)
  | _ => rfl

/-- Instructions that go on to the next one, without a call. -/
def IsStraight (is : List (Option Insn)) : Prop :=
  ∀ i, some i ∈ is → i.isLinear = true ∧ ∀ rn, i ≠ .blr rn

theorem IsStraight.append {is js : List (Option Insn)} (h₁ : IsStraight is) (h₂ : IsStraight js) :
    IsStraight (is ++ js) := by
  intro i hi
  rcases List.mem_append.mp hi with hi | hi
  · exact h₁ i hi
  · exact h₂ i hi

/-- What runs without host functions is straight. -/
theorem isStraight_of_runSeq {is : List (Option Insn)} {pc : Nat} {s s' : State}
    (h : runSeq default pc is s = some s') : IsStraight is := by
  induction is generalizing pc s with
  | nil => exact fun i hi => absurd hi (List.not_mem_nil)
  | cons o is ih =>
    cases o with
    | none => cases h
    | some j =>
      obtain ⟨s₁, hs₁, hrest⟩ := Option.bind_eq_some_iff.mp h
      intro i hi
      rcases List.mem_cons.mp hi with heq | hi
      · obtain rfl := Option.some.inj heq
        refine ⟨execOne_isLinear hs₁, ?_⟩
        rintro rn rfl
        cases hs₁
      · exact ih hrest i hi

/-- The state is the end of a run of `is` from a state that satisfies `a`, and was there when the run
began. -/
def After (env : Env) (Here : State → Prop) (a : State → Prop) (is : List (Option Insn)) (s : State) : Prop :=
  ∃ s₁, a s₁ ∧ (is ≠ [] → Here s₁) ∧ ∃ pc, runSeq env pc is s₁ = some s

theorem After.start {env : Env} {Here a : State → Prop} {s : State} (h : a s) : After env Here a [] s :=
  ⟨s, h, fun hne => absurd rfl hne, 0, rfl⟩

end Quantum.A64

namespace Quantum.Jit

open A64
open EmitM

variable {env : Env} {Ok : Insn → State → Prop} {Post Here a : State → Prop} {ε α : Type} {p : Profile}
  {Γ : List (Label × (State → Prop))} {is₀ : List (Option Insn)}

/-- The domain for straight code: an instruction meets `Ok`, and is executed where `Here` holds. -/
abbrev straightDomain (env : Env) (Ok : Insn → State → Prop) (Here Post : State → Prop) :
    Domain (State → Prop) :=
  Domain.ofPred env (fun i s => Ok i s ∧ Here s) Post

theorem After.next {w : Word} (hw : IsStraight [decode w]) :
    (straightDomain env Ok Here Post).next (After env Here a is₀) (decode w)
      (After env Here a (is₀ ++ [decode w])) := by
  rintro i pc s s' hi ⟨s₁, ha, hhere, pc₁, hrun⟩ hok hex
  rw [hi] at hw ⊢
  refine ⟨s₁, ha, fun _ => ?_, pc₁, ?_⟩
  · by_cases hnil : is₀ = []
    · rw [hnil, runSeq_nil, Option.some.injEq] at hrun
      rw [hrun]
      exact hok.2
    · exact hhere hnil
  · have hpc : execOne env pc i s = execOne env (pc₁ + is₀.length) i s :=
      execOne_pc (hw i (List.mem_singleton.mpr rfl)).2 _ _ s
    rw [hpc] at hex
    rw [runSeq_append, hrun, Option.bind_some, runSeq_cons, hex]
    rfl

/-- Straight code that is appended to certified code. -/
theorem Cert.appendStraight {e : Emitter} {lab pts : List (State → Prop)} (ws : List Word)
    (h : Cert (straightDomain env Ok Here Post) e lab pts (After env Here a is₀))
    (hws : IsStraight (ws.map decode)) :
    ∃ pts', Cert (straightDomain env Ok Here Post) (e.append ws) lab pts'
        (After env Here a (is₀ ++ ws.map decode)) ∧ pts <+: pts' ∧
      (straightDomain env Ok Here Post).le (ptAt pts (After env Here a is₀) 0)
        (ptAt pts' (After env Here a (is₀ ++ ws.map decode)) 0) := by
  induction ws generalizing e pts is₀ with
  | nil =>
    refine ⟨pts, ?_, List.prefix_rfl, ?_⟩
    · simpa using h
    · simpa using Domain.le_refl _ _
  | cons w ws ih =>
    have hw : IsStraight [decode w] := fun i hi => hws i (by simp [List.mem_singleton.mp hi])
    have hrest : IsStraight (ws.map decode) := fun i hi => hws i (List.mem_cons_of_mem _ hi)
    have hc := h.appendNext (fun i hi => (hw i (by simp [hi])).1) (After.next hw)
    obtain ⟨pts', h', hpre, hent⟩ := ih hc hrest
    rw [Emitter.append_append, List.singleton_append, List.append_assoc, List.singleton_append] at h'
    rw [List.append_assoc, List.singleton_append] at hent
    exact ⟨pts', h', (List.prefix_append _ _).trans hpre, Domain.le_trans _ Certifies.entry_concat hent⟩

namespace Certifies

/-- Straight code. -/
theorem straight {m : EmitM ε α} {Q : α → List (Option Insn) → Prop} (h : Emits p m Q)
    {R : α → List (Label × (State → Prop)) → (State → Prop) → Prop}
    (hQ : ∀ v is, Q v is → IsStraight is ∧ R v Γ (After env Here a (is₀ ++ is))) :
    Certifies (straightDomain env Ok Here Post) p Γ (After env Here a is₀) m R := by
  intro e lab pts v e' hc hk hm
  obtain ⟨ws, rfl, hq⟩ := h e v e' hm
  obtain ⟨hstraight, hR⟩ := hQ v _ hq
  obtain ⟨pts', hc', -, hent⟩ := hc.appendStraight ws hstraight
  exact ⟨lab, pts', _, Γ, hc', List.prefix_rfl, hk, hent, .append e ws, hR⟩

/-- Straight code begins anywhere. -/
theorem enter {m : EmitM ε α} {R : α → List (Label × (State → Prop)) → (State → Prop) → Prop}
    (h : Certifies (straightDomain env Ok Here Post) p Γ (After env Here a []) m R) :
    Certifies (straightDomain env Ok Here Post) p Γ a m R := by
  have hle : (straightDomain env Ok Here Post).le a (After env Here a []) := fun s ha => .start ha
  intro e lab pts v e' hc hk hm
  obtain ⟨lab', pts', b, Γ', hc', hpre, hk', hent, hg, hq⟩ := h e lab pts v e' (hc.weaken hle) hk hm
  exact ⟨lab', pts', b, Γ', hc', hpre, hk', Domain.le_trans _ (le_ptAt hle 0) hent, hg, hq⟩

end Certifies

end Quantum.Jit
