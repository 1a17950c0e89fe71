import Quantum.Kernel32.Process

/-!
# Nesting of the exit traps

A thread's `ExitState` is one slot, saved and restored by every `run_with_exit_trap`.  `Nested` says
that the slot fits the frames on the stack; every operation keeps it, so that raising a code always
lands in the innermost trap (`raise_eq`).
-/

namespace Quantum.Kernel32

/-- The state that the innermost frames run under, traced through the frames below: guest frames keep
it, a trap frame has armed it at its own depth and holds the state of its caller. -/
def Nested {β : Type} (st : ExitState) : List (Frame β) → Prop
  | [] => st.armed = false
  | .guest :: rest => Nested st rest
  | .trap saved _ :: rest => st.armed = true ∧ st.env = rest.length + 1 ∧ Nested saved rest

def Thread.WellNested {β : Type} (t : Thread β) : Prop :=
  Nested t.exit t.stack

section Nesting

variable {β : Type} {st saved : ExitState} {fs rest : List (Frame β)} {b : β} {f : Frame β}
  {t t' : Thread β}

theorem Thread.wellNested_new : (Thread.new : Thread β).WellNested :=
  rfl

theorem Thread.WellNested.enterTrap (h : t.WellNested) (b : β) : (t.enterTrap b).WellNested :=
  ⟨rfl, rfl, h⟩

theorem Thread.WellNested.leaveTrap (h : t.WellNested) (ht : t.leaveTrap = some t') :
    t'.WellNested := by
  obtain ⟨st, fs⟩ := t
  match fs with
  | .trap saved b :: rest =>
    obtain rfl := Option.some.inj ht
    exact h.2.2
  | [] => cases ht
  | .guest :: rest => cases ht

/-- Under an armed state `longjmp` cuts the stack down to the innermost trap. -/
theorem Nested.drop_eq (h : Nested st fs) (ha : st.armed = true) :
    fs.drop (fs.length - st.env) = fs.dropWhile Frame.isGuest := by
  induction fs with
  | nil => exact List.drop_nil
  | cons f fs ih =>
    cases f with
    | trap saved b =>
      obtain ⟨-, henv, -⟩ := h
      have hzero : (Frame.trap saved b :: fs).length - st.env = 0 := by
        rw [henv, List.length_cons]
        omega
      rw [hzero]
      rfl
    | guest =>
      have hle : st.env ≤ fs.length := by
        clear ih
        induction fs with
        | nil => rw [Nested, Nested] at h; rw [h] at ha; cases ha
        | cons f fs ih =>
          cases f with
          | trap saved b => rw [h.2.1, List.length_cons]
          | guest => exact Nat.le_succ_of_le (ih h)
      have hlen : (Frame.guest :: fs).length - st.env = fs.length - st.env + 1 := by
        rw [List.length_cons]
        omega
      rw [hlen, List.drop_succ_cons, ih h]
      rfl

theorem Nested.dropWhile (h : Nested st fs) : Nested st (fs.dropWhile Frame.isGuest) := by
  induction fs with
  | nil => exact h
  | cons f fs ih =>
    cases f with
    | trap saved b => exact h
    | guest => exact ih h

/-- An armed state comes from a trap on the stack. -/
theorem Nested.exists_trap (h : Nested st fs) (ha : st.armed = true) :
    ∃ saved b rest, fs.dropWhile Frame.isGuest = .trap saved b :: rest := by
  induction fs with
  | nil => rw [Nested] at h; rw [h] at ha; cases ha
  | cons f fs ih =>
    cases f with
    | trap saved b => exact ⟨saved, b, fs, rfl⟩
    | guest => exact ih h

/-- What raising a code does on a well-nested thread: the innermost trap returns the code, or, with
no trap, the process ends. -/
theorem raise_eq (h : t.WellNested) (code status : BitVec 32) :
    raise t code status =
      if t.exit.armed then
        match t.stack.dropWhile Frame.isGuest with
        | .trap saved _ :: rest => some (.caught code ⟨saved, rest⟩)
        | _ => none
      else some (.terminated status) := by
  unfold raise
  cases ha : t.exit.armed with
  | false =>
    simp only [ha, Bool.false_eq_true, if_false]
  | true =>
    have hdrop := Nested.drop_eq h ha
    obtain ⟨saved, b, rest, htrap⟩ := Nested.exists_trap h ha
    simp only [Thread.longjmp, Thread.leaveTrap, ha, if_true]
    rw [hdrop, htrap]
    rfl

theorem raise_caught {code status r : BitVec 32} (h : t.WellNested)
    (hr : raise t code status = some (.caught r t')) :
    r = code ∧ t'.WellNested ∧ t'.stack = (t.stack.dropWhile Frame.isGuest).tail := by
  rw [raise_eq h] at hr
  cases ha : t.exit.armed with
  | false =>
    rw [ha] at hr
    cases hr
  | true =>
    obtain ⟨saved, b, rest, htrap⟩ := Nested.exists_trap h ha
    have hn := Nested.dropWhile h
    rw [htrap] at hn
    rw [ha, htrap] at hr
    cases hr
    rw [htrap]
    exact ⟨rfl, hn.2.2, rfl⟩

/-- The outermost frame is a trap: guest code on the thread always runs under one. -/
def Based (fs : List (Frame β)) : Prop :=
  ∀ f, fs.getLast? = some f → f.isGuest = false

theorem based_nil : Based ([] : List (Frame β)) := by
  intro f hf
  cases hf

theorem based_trap (h : Based fs) : Based (.trap saved b :: fs) := by
  intro f hf
  cases fs with
  | nil =>
    obtain rfl := Option.some.inj hf
    rfl
  | cons f' fs => exact h f (by rwa [List.getLast?_cons_cons] at hf)

theorem based_guest (h : Based (f :: fs)) : Based (.guest :: f :: fs) := by
  intro f' hf'
  exact h f' (by rwa [List.getLast?_cons_cons] at hf')

theorem Based.tail (h : Based (f :: fs)) : Based fs := by
  cases fs with
  | nil => exact based_nil
  | cons f' fs =>
    intro f₁ hf₁
    exact h f₁ (by rwa [List.getLast?_cons_cons])

theorem Based.dropWhile (h : Based fs) : Based (fs.dropWhile Frame.isGuest) := by
  induction fs with
  | nil => exact based_nil
  | cons f fs ih =>
    cases f with
    | trap saved b => exact h
    | guest => exact ih h.tail

/-- Guest code above a trap runs under an armed state. -/
theorem Nested.armed_of_based (h : Nested st (.guest :: fs)) (hb : Based (.guest :: fs)) :
    st.armed = true := by
  induction fs with
  | nil => cases hb .guest rfl
  | cons f fs ih =>
    cases f with
    | trap saved b => exact h.1
    | guest => exact ih h hb.tail

end Nesting

end Quantum.Kernel32
