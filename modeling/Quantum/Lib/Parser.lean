import Mathlib.Data.List.Infix

/-!
# Parsers that read no further than they consume

A parser takes tokens from the front of a list, or ends with an error.  One error, `short`, says that the
tokens have run out.  `Reads short m used r` says that `m` decides on exactly the tokens `used`: whatever
follows them it ends with `r`, and on every shorter list that agrees with them it runs short.  A parser is
`Local` if on every input it either decides on some prefix or runs short, on this input and on every prefix
of it.  Sequencing keeps this (`Local.bind`).
-/

namespace Quantum.Parser

variable {τ ε α β : Type} {short : ε}

/-- The error for an input that ends too early is `short`. -/
structure Reads (short : ε) (m : List τ → Except ε (α × List τ)) (used : List τ) (r : Except ε α) :
    Prop where
  result : ∀ rest, m (used ++ rest) = r.map fun a => (a, rest)
  runsShort : ∀ pre, pre <+: used → pre ≠ used → m pre = .error short

/-- On this input the parser decides on a prefix, or runs short on all of them. -/
def LocalAt (short : ε) (m : List τ → Except ε (α × List τ)) (ts : List τ) : Prop :=
  (∃ used rest r, ts = used ++ rest ∧ Reads short m used r) ∨
    ∀ pre, pre <+: ts → m pre = .error short

def Local (short : ε) (m : List τ → Except ε (α × List τ)) : Prop :=
  ∀ ts, LocalAt short m ts

/-- One parser after another. -/
def bind (m : List τ → Except ε (α × List τ)) (f : α → List τ → Except ε (β × List τ)) :
    List τ → Except ε (β × List τ) := fun ts =>
  match m ts with
  | .ok (a, ts') => f a ts'
  | .error x => .error x

/-- A prefix of an append ends in the first part or goes through it. -/
theorem prefix_append_cases {pre l₁ l₂ : List τ} (h : pre <+: l₁ ++ l₂) :
    (pre <+: l₁ ∧ pre ≠ l₁) ∨ ∃ pre', pre = l₁ ++ pre' ∧ pre' <+: l₂ := by
  induction l₁ generalizing pre with
  | nil => exact .inr ⟨pre, rfl, h⟩
  | cons x l₁ ih =>
    cases pre with
    | nil => exact .inl ⟨List.nil_prefix, nofun⟩
    | cons y pre =>
      obtain ⟨rfl, htail⟩ := List.cons_prefix_cons.mp h
      obtain ⟨hp, hne⟩ | ⟨pre', rfl, hp⟩ := ih htail
      · exact .inl ⟨List.cons_prefix_cons.mpr ⟨rfl, hp⟩, fun heq => hne (List.cons.inj heq).2⟩
      · exact .inr ⟨pre', rfl, hp⟩

theorem Reads.pure (a : α) :
    Reads short (fun ts : List τ => Except.ok (a, ts)) [] (.ok a) where
  result _ := rfl
  runsShort _ hp hne := absurd (List.prefix_nil.mp hp) hne

theorem Reads.error (x : ε) :
    Reads short (fun _ : List τ => (Except.error x : Except ε (α × List τ))) [] (.error x) where
  result _ := rfl
  runsShort _ hp hne := absurd (List.prefix_nil.mp hp) hne

variable {m : List τ → Except ε (α × List τ)} {f : α → List τ → Except ε (β × List τ)}

theorem Reads.bind_ok {used₁ used₂ : List τ} {a : α} {r : Except ε β}
    (hm : Reads short m used₁ (.ok a)) (hf : Reads short (f a) used₂ r) :
    Reads short (bind m f) (used₁ ++ used₂) r where
  result rest := by
    unfold bind
    rw [List.append_assoc, hm.result]
    exact hf.result rest
  runsShort pre hp hne := by
    unfold bind
    obtain ⟨hp₁, hne₁⟩ | ⟨pre', rfl, hp₂⟩ := prefix_append_cases hp
    · rw [hm.runsShort pre hp₁ hne₁]
    · rw [hm.result]
      exact hf.runsShort pre' hp₂ fun heq => hne (by rw [heq])

theorem Reads.bind_error {used : List τ} {x : ε} (hm : Reads short m used (.error x)) :
    Reads short (bind m f) used (.error x) where
  result rest := by
    unfold bind
    rw [hm.result]
    rfl
  runsShort pre hp hne := by
    unfold bind
    rw [hm.runsShort pre hp hne]

theorem Local.pure (a : α) : Local short fun ts : List τ => Except.ok (a, ts) :=
  fun ts => .inl ⟨[], ts, .ok a, rfl, .pure a⟩

theorem Local.error (x : ε) :
    Local short fun _ : List τ => (Except.error x : Except ε (α × List τ)) :=
  fun ts => .inl ⟨[], ts, .error x, rfl, .error x⟩

/-- A parser that runs short at once needs a token. -/
theorem LocalAt.nil (h : m [] = .error short) : LocalAt short m [] := by
  refine .inr fun pre hp => ?_
  obtain rfl := List.prefix_nil.mp hp
  exact h

/-- A parser that consumes a token and goes on as `m'`. -/
theorem LocalAt.cons {m' : List τ → Except ε (α × List τ)} {t : τ} {ts : List τ}
    (hnil : m [] = .error short) (hcons : ∀ ts, m (t :: ts) = m' ts) (h : LocalAt short m' ts) :
    LocalAt short m (t :: ts) := by
  obtain ⟨used, rest, r, rfl, hr⟩ | hshort := h
  · refine .inl ⟨t :: used, rest, r, rfl, fun rest => ?_, fun pre hp hne => ?_⟩
    · rw [List.cons_append, hcons]
      exact hr.result rest
    · cases pre with
      | nil => exact hnil
      | cons t' pre =>
        obtain ⟨rfl, hp'⟩ := List.cons_prefix_cons.mp hp
        rw [hcons]
        exact hr.runsShort pre hp' fun heq => hne (by rw [heq])
  · refine .inr fun pre hp => ?_
    cases pre with
    | nil => exact hnil
    | cons t' pre =>
      obtain ⟨rfl, hp'⟩ := List.cons_prefix_cons.mp hp
      rw [hcons]
      exact hshort pre hp'

theorem Local.bind (hm : Local short m) (hf : ∀ a, Local short (f a)) :
    Local short (bind m f) := by
  intro ts
  obtain ⟨used₁, rest₁, r, rfl, hr⟩ | hshort := hm ts
  · cases r with
    | error x => exact .inl ⟨used₁, rest₁, .error x, rfl, hr.bind_error⟩
    | ok a =>
      obtain ⟨used₂, rest₂, r, rfl, hr₂⟩ | hshort := hf a rest₁
      · exact .inl ⟨used₁ ++ used₂, rest₂, r, by rw [List.append_assoc], hr.bind_ok hr₂⟩
      · refine .inr fun pre hp => ?_
        unfold Parser.bind
        obtain ⟨hp₁, hne⟩ | ⟨pre', rfl, hp₂⟩ := prefix_append_cases hp
        · rw [hr.runsShort pre hp₁ hne]
        · rw [hr.result]
          exact hshort pre' hp₂
  · refine .inr fun pre hp => ?_
    unfold Parser.bind
    rw [hshort pre hp]

/-- A local parser that succeeds decides on the tokens it consumes. -/
theorem Local.reads {ts rest : List τ} {a : α} (hm : Local short m) (h : m ts = .ok (a, rest)) :
    ∃ used, ts = used ++ rest ∧ Reads short m used (.ok a) := by
  obtain ⟨used, rest', r, rfl, hr⟩ | hshort := hm ts
  · rw [hr.result] at h
    cases r with
    | error x => cases h
    | ok a' =>
      obtain ⟨rfl, rfl⟩ := Prod.mk.inj (Except.ok.inj h)
      exact ⟨used, rfl, hr⟩
  · rw [hshort ts List.prefix_rfl] at h
    cases h

/-- A local parser that runs short runs short on every prefix. -/
theorem Local.short_of_short {ts pre : List τ} (hm : Local short m) (h : m ts = .error short)
    (hp : pre <+: ts) : m pre = .error short := by
  obtain ⟨used, rest, r, rfl, hr⟩ | hshort := hm ts
  · obtain ⟨hp₁, hne⟩ | ⟨pre', rfl, -⟩ := prefix_append_cases hp
    · exact hr.runsShort pre hp₁ hne
    · rw [hr.result] at h ⊢
      cases r with
      | error x =>
        obtain rfl := Except.error.inj h
        rfl
      | ok a => cases h
  · exact hshort pre hp

end Quantum.Parser
