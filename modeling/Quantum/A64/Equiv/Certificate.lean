import Quantum.A64.Equiv.Run

/-!
# Certificates for code with branches

An annotation of every index of the code is a certificate when it is consistent along every edge of
the control flow (`Certified`): at a word that falls through the domain's own rule relates the two
annotations, and at a branch the target claims no more than the branch.  What annotations mean is a
predicate on states that the rule keeps (`Domain.Sound`), for instructions that meet an assumption
`Ok`; and then every state that a run under this assumption reaches satisfies the annotation of its
index (`Certified.reaches`).
-/

namespace Quantum.A64

open StateTransition

/-- A domain of annotations. -/
structure Domain (A : Type) where
  /-- `le a b`: `b` claims no more than `a`. -/
  le : A → A → Prop
  /-- A word that decodes to the instruction may stand at the first annotation, with the second one
  behind it. -/
  next : A → Option Insn → A → Prop
  /-- The code may return here. -/
  ret : A → Prop
  le_refl : ∀ a, le a a
  le_trans : ∀ {a b c}, le a b → le b c → le a c
  next_le : ∀ {a o b c}, next a o b → le b c → next a o c

namespace Domain

variable {A : Type} (D : Domain A)

/-- A branch by `offset` from index `pc` stays in the code, of `n` words, or goes to its end, and the
annotation there claims no more. -/
def Target (pt : Nat → A) (n pc : Nat) (offset : Int) : Prop :=
  ∃ t : Nat, (t : Int) = pc + offset ∧ t ≤ n ∧ D.le (pt pc) (pt t)

/-- The annotations around a word are consistent. -/
def PointOk (pt : Nat → A) (n pc : Nat) : Option Insn → Prop
  | some (.b false imm) => D.Target pt n pc imm.toInt
  | some (.bCond _ imm) | some (.cbz _ imm _) =>
    D.Target pt n pc imm.toInt ∧ D.le (pt pc) (pt (pc + 1))
  | some (.ret rn) => rn = 30 ∧ D.ret (pt pc)
  | some (.b true _) | some (.tbz ..) | some (.br _) => False
  | o => D.next (pt pc) o (pt (pc + 1))

/-- The annotation is consistent everywhere. -/
def Certified (code : List Word) (pt : Nat → A) : Prop :=
  ∀ pc w, code[pc]? = some w → D.PointOk pt code.length pc (decode w)

/-- The meaning of annotations that the rule keeps, for instructions that meet the assumption. -/
structure Sound (env : Env) (Ok : Insn → State → Prop) (Sem : A → State → Prop) : Prop where
  le : ∀ {a b s}, D.le a b → Sem a s → Sem b s
  next : ∀ {a i b pc s s'}, D.next a (some i) b → Sem a s → Ok i s →
    execOne env pc i s = some s' → Sem b s'

/-- Every instruction that a run from `s` executes meets the assumption. -/
def RunOk (env : Env) (code : List Word) (Ok : Insn → State → Prop) (s : State) : Prop :=
  ∀ pc s' i, Reaches (step env code) (.at 0 s) (.at pc s') → (code[pc]?).bind decode = some i →
    Ok i s'

variable {D} {env : Env} {Ok : Insn → State → Prop} {Sem : A → State → Prop} {pt pt' : Nat → A}
  {n n' pc : Nat}

/-- What holds of a point that a run reaches. -/
def Holds (D : Domain A) (Sem : A → State → Prop) (pt : Nat → A) (n : Nat) : Config → Prop
  | .at pc s => pc ≤ n ∧ Sem (pt pc) s
  | .returned s => ∃ a, D.ret a ∧ Sem a s

theorem Target.holds (hs : D.Sound env Ok Sem) {offset : Int} {s : State} {c : Config}
    (h : D.Target pt n pc offset) (hsem : Sem (pt pc) s) (hc : branchTo pc offset s = some c) :
    Holds D Sem pt n c := by
  obtain ⟨t, ht, hn, hle⟩ := h
  have hpos : 0 ≤ (pc : Int) + offset := by omega
  rw [branchTo, if_pos hpos] at hc
  obtain rfl := Option.some.inj hc
  have heq : ((pc : Int) + offset).toNat = t := by omega
  rw [heq]
  exact ⟨hn, hs.le hle hsem⟩

/-- The branch that is not taken. -/
theorem holds_fallthrough (hs : D.Sound env Ok Sem) {s : State} {c : Config} (hn : pc + 1 ≤ n)
    (hle : D.le (pt pc) (pt (pc + 1))) (hsem : Sem (pt pc) s)
    (hc : branchTo pc 1 s = some c) : Holds D Sem pt n c :=
  Target.holds hs ⟨pc + 1, by omega, hn, hle⟩ hsem hc

/-- One step. -/
theorem PointOk.step (hs : D.Sound env Ok Sem) {i : Insn} {s : State} {c : Config}
    (hn : pc + 1 ≤ n) (h : D.PointOk pt n pc (some i)) (hsem : Sem (pt pc) s) (hok : Ok i s)
    (hc : execAt env pc i s = some c) : Holds D Sem pt n c := by
  have hlinear : i.isLinear = true → D.next (pt pc) (some i) (pt (pc + 1)) →
      Holds D Sem pt n c := by
    intro hi hnext
    rw [execAt_of_isLinear hi, Option.map_eq_some_iff] at hc
    obtain ⟨s', hs', rfl⟩ := hc
    exact ⟨hn, hs.next hnext hsem hok hs'⟩
  cases i with
  | b link imm =>
    cases link with
    | false => exact Target.holds hs h hsem hc
    | true => exact h.elim
  | bCond cond imm =>
    change branchTo pc (if cond.holds s.nzcv then imm.toInt else 1) s = some c at hc
    split at hc
    · exact Target.holds hs h.1 hsem hc
    · exact holds_fallthrough hs hn h.2 hsem hc
  | cbz nonzero imm rt =>
    change branchTo pc (if (s.readX rt != 0) = nonzero then imm.toInt else 1) s = some c at hc
    split at hc
    · exact Target.holds hs h.1 hsem hc
    · exact holds_fallthrough hs hn h.2 hsem hc
  | ret rn =>
    obtain ⟨rfl, hret⟩ := h
    obtain rfl := Option.some.inj hc
    exact ⟨pt pc, hret, hsem⟩
  | tbz | br => exact h.elim
  | _ => exact hlinear rfl h

/-- **Runs of certified code**, from any of its points. -/
theorem Certified.reaches_from {code : List Word} (hs : D.Sound env Ok Sem) (h : D.Certified code pt)
    {k : Nat} (hk : k ≤ code.length) {s : State} (hsem : Sem (pt k) s)
    (hok : ∀ pc s' i, Reaches (step env code) (.at k s) (.at pc s') → (code[pc]?).bind decode = some i →
      Ok i s') {c : Config} (hc : Reaches (step env code) (.at k s) c) : Holds D Sem pt code.length c := by
  induction hc with
  | refl => exact ⟨hk, hsem⟩
  | tail hreach hstep ih =>
    rename_i c₁ c₂
    cases c₁ with
    | returned r => cases hstep
    | «at» pc s₁ =>
      obtain ⟨w, hw, hstep⟩ := Option.bind_eq_some_iff.mp hstep
      obtain ⟨i, hi, hstep⟩ := Option.bind_eq_some_iff.mp hstep
      have hpt := h pc w hw
      rw [hi] at hpt
      have hlt : pc < code.length := (List.getElem?_eq_some_iff.mp hw).1
      refine hpt.step hs hlt ih.2 (hok pc s₁ i hreach ?_) hstep
      rw [hw, Option.bind_some, hi]

theorem Certified.reaches {code : List Word} (hs : D.Sound env Ok Sem) (h : D.Certified code pt)
    {s : State} (hsem : Sem (pt 0) s) (hok : RunOk env code Ok s) {c : Config}
    (hc : Reaches (step env code) (.at 0 s) c) : Holds D Sem pt code.length c :=
  h.reaches_from hs (Nat.zero_le _) hsem hok hc

/-- A run that ends in the code, when nothing is assumed of the instructions. -/
theorem Certified.reaches_at {code : List Word} (h : D.Certified code pt) (hs : D.Sound env Ok Sem)
    (hok : ∀ i s, Ok i s) {k k' : Nat} {s s' : State} (hsem : Sem (pt k) s)
    (hrun : Reaches (step env code) (.at k s) (.at k' s')) : Sem (pt k') s' := by
  by_cases hk : k ≤ code.length
  · exact (h.reaches_from hs hk hsem (fun _ _ _ _ _ => hok _ _) hrun).2
  · -- behind the code nothing is executed
    rcases hrun.cases_head with heq | ⟨c, hstep, -⟩
    · cases heq
      exact hsem
    · obtain ⟨w, hw, -⟩ := Option.bind_eq_some_iff.mp hstep
      rw [List.getElem?_eq_none (Nat.le_of_not_le hk)] at hw
      cases hw

/-! ### Changing the annotation -/

/-- A point only looks at its own annotation, at the next one and at the targets of its branch. -/
theorem PointOk.congr {o : Option Insn} (h : D.PointOk pt n pc o) (hpc : pc < n) (hnn : n ≤ n')
    (hself : pt' pc = pt pc) (hle : ∀ t, t ≤ n → D.le (pt t) (pt' t)) :
    D.PointOk pt' n' pc o := by
  have htarget : ∀ offset, D.Target pt n pc offset → D.Target pt' n' pc offset := by
    rintro offset ⟨t, ht, htn, hl⟩
    refine ⟨t, ht, Nat.le_trans htn hnn, ?_⟩
    rw [hself]
    exact D.le_trans hl (hle t htn)
  have hfall : D.le (pt pc) (pt (pc + 1)) → D.le (pt' pc) (pt' (pc + 1)) := by
    intro hl
    rw [hself]
    exact D.le_trans hl (hle _ hpc)
  have hnext : D.next (pt pc) o (pt (pc + 1)) → D.next (pt' pc) o (pt' (pc + 1)) := by
    intro hn
    rw [hself]
    exact D.next_le hn (hle _ hpc)
  cases o with
  | none => exact hnext h
  | some i =>
    cases i with
    | b link imm =>
      cases link with
      | false => exact htarget _ h
      | true => exact h.elim
    | bCond cond imm => exact ⟨htarget _ h.1, hfall h.2⟩
    | cbz nonzero imm rt => exact ⟨htarget _ h.1, hfall h.2⟩
    | ret rn => exact ⟨h.1, by rw [hself]; exact h.2⟩
    | tbz | br => exact h.elim
    | _ => exact hnext h

end Domain

end Quantum.A64
