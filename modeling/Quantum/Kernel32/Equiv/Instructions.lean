import Mathlib.Data.List.Basic
import Quantum.Kernel32.Instructions

/-!
# Records of a shader

The iterator advances past a record that it returns and stays where it is after an error, so it returns the
same error for ever.  `iteratesRight_iff`: iteration ends exactly on the streams that are made of whole
records, and there its items are the records.
-/

namespace Quantum.Kernel32.Dxbc

/-! ### What iteration promises -/

/-- Iteration ends, and if there is no error among its items, they are the records of the stream. -/
structure IteratesRight (tokens : List (BitVec 32)) : Prop where
  ends : ∃ fuel items, (InstructionIter.new tokens).items fuel = some items
  partition : ∀ fuel (instructions : List Instruction),
    (InstructionIter.new tokens).items fuel = some (instructions.map .ok) →
    (∀ i ∈ instructions, i.tokens.head?.map (fun header => (lengthField header).toNat) =
      some i.tokens.length) ∧
      (instructions.map (·.tokens)).flatten = tokens.drop 2

/-- The stream is made of whole records. -/
inductive WellFramed : List (BitVec 32) → Prop
  | nil : WellFramed []
  | record {header : BitVec 32} {stream : List (BitVec 32)} (hpos : lengthField header ≠ 0)
      (hlen : (lengthField header).toNat ≤ (header :: stream).length)
      (hrest : WellFramed ((header :: stream).drop (lengthField header).toNat)) :
      WellFramed (header :: stream)

/-! ### Items -/

namespace InstructionIter

variable {body : List (BitVec 32)} {cursor : ℕ}

theorem next_none (h : body.drop cursor = []) : (next ⟨body, cursor⟩).1 = none := by
  have hnone : body[cursor]? = none := by
    rw [List.getElem?_eq_none_iff]
    exact List.drop_eq_nil_iff.mp h
  simp only [next, hnone]

/-- A whole record is returned, and the iterator advances past it. -/
theorem next_ok {header : BitVec 32} {stream : List (BitVec 32)} (h : body.drop cursor = header :: stream)
    (hpos : lengthField header ≠ 0) (hlen : (lengthField header).toNat ≤ (header :: stream).length) :
    ∃ i, next ⟨body, cursor⟩ = (some (.ok i), ⟨body, cursor + (lengthField header).toNat⟩) ∧
      i.tokens = (header :: stream).take (lengthField header).toNat := by
  have hhead : body[cursor]? = some header := by
    rw [← List.head?_drop, h, List.head?_cons]
  have hlt : cursor + (lengthField header).toNat ≤ body.length := by
    have hdrop := congrArg List.length h
    rw [List.length_drop] at hdrop
    have hcons : 0 < (header :: stream).length := Nat.succ_pos _
    omega
  simp only [next, hhead, if_neg hpos, if_pos hlt, h]
  exact ⟨_, rfl, rfl⟩

/-- On any other record the iterator returns an error and stays where it is. -/
theorem next_error {header : BitVec 32} {stream : List (BitVec 32)} (h : body.drop cursor = header :: stream)
    (hbad : lengthField header = 0 ∨ (header :: stream).length < (lengthField header).toNat) :
    ∃ e, next ⟨body, cursor⟩ = (some (.error e), ⟨body, cursor⟩) := by
  have hhead : body[cursor]? = some header := by
    rw [← List.head?_drop, h, List.head?_cons]
  by_cases hzero : lengthField header = 0
  · simp only [next, hhead, if_pos hzero]
    exact ⟨_, rfl⟩
  · have hlong := hbad.resolve_left hzero
    have hout : ¬ cursor + (lengthField header).toNat ≤ body.length := by
      have hdrop := congrArg List.length h
      rw [List.length_drop] at hdrop
      omega
    simp only [next, hhead, if_neg hzero, if_neg hout]
    exact ⟨_, rfl⟩

/-- An iterator that an item leaves where it is never ends. -/
theorem items_of_stuck {it : InstructionIter} {item : Except DecodeError Instruction}
    (h : it.next = (some item, it)) (fuel : ℕ) : it.items fuel = none := by
  induction fuel with
  | zero => rfl
  | succ fuel ih => simp only [items, h, ih, Option.map_none]

/-- Iteration that ends has found whole records only. -/
theorem wellFramed_of_items {fuel : ℕ} {found : List (Except DecodeError Instruction)}
    (h : items fuel ⟨body, cursor⟩ = some found) : WellFramed (body.drop cursor) := by
  induction fuel generalizing cursor found with
  | zero => cases h
  | succ fuel ih =>
    cases hdrop : body.drop cursor with
    | nil => exact .nil
    | cons header stream =>
      by_cases hbad : lengthField header = 0 ∨ (header :: stream).length < (lengthField header).toNat
      · obtain ⟨e, hnext⟩ := next_error hdrop hbad
        rw [items_of_stuck hnext] at h
        cases h
      · obtain ⟨hpos, hlen⟩ := not_or.mp hbad
        obtain ⟨i, hnext, -⟩ := next_ok hdrop hpos (Nat.le_of_not_lt hlen)
        simp only [items, hnext, Option.map_eq_some_iff] at h
        obtain ⟨rest, hrest, -⟩ := h
        refine .record hpos (Nat.le_of_not_lt hlen) ?_
        rw [← hdrop, List.drop_drop]
        exact ih hrest

/-- On whole records iteration ends, and its items are the records. -/
theorem items_of_wellFramed {stream : List (BitVec 32)} (hw : WellFramed stream)
    (h : body.drop cursor = stream) :
    ∃ fuel, ∃ instructions : List Instruction,
      items fuel ⟨body, cursor⟩ = some (instructions.map .ok) := by
  induction hw generalizing cursor with
  | nil =>
    refine ⟨1, [], ?_⟩
    have hnone := next_none h
    simp only [items]
    split
    · rfl
    case h_2 hnext =>
      rw [hnext] at hnone
      cases hnone
  | @record header stream hpos hlen hrest ih =>
    obtain ⟨i, hnext, -⟩ := next_ok h hpos hlen
    obtain ⟨fuel, instructions, hitems⟩ := @ih (cursor + (lengthField header).toNat) (by
      rw [← List.drop_drop, h])
    exact ⟨fuel + 1, i :: instructions, by simp only [items, hnext, hitems, Option.map_some, List.map_cons]⟩

/-- Items without an error are the records of the stream, each as long as it says. -/
theorem partition_of_items {fuel : ℕ} {instructions : List Instruction}
    (h : items fuel ⟨body, cursor⟩ = some (instructions.map .ok)) :
    (∀ i ∈ instructions, i.tokens.head?.map (fun header => (lengthField header).toNat) =
      some i.tokens.length) ∧ (instructions.map (·.tokens)).flatten = body.drop cursor := by
  induction fuel generalizing cursor instructions with
  | zero => cases h
  | succ fuel ih =>
    cases hdrop : body.drop cursor with
    | nil =>
      have hnone := next_none hdrop
      simp only [items] at h
      split at h
      case h_1 =>
        obtain rfl : instructions = [] := by simpa using h
        exact ⟨nofun, rfl⟩
      case h_2 hnext =>
        rw [hnext] at hnone
        cases hnone
    | cons header stream =>
      by_cases hbad : lengthField header = 0 ∨ (header :: stream).length < (lengthField header).toNat
      · obtain ⟨e, hnext⟩ := next_error hdrop hbad
        rw [items_of_stuck hnext] at h
        cases h
      · obtain ⟨hpos, hlen⟩ := not_or.mp hbad
        obtain ⟨i, hnext, htokens⟩ := next_ok hdrop hpos (Nat.le_of_not_lt hlen)
        simp only [items, hnext, Option.map_eq_some_iff] at h
        obtain ⟨rest, hrest, hcons⟩ := h
        cases instructions with
        | nil => cases hcons
        | cons i' instructions =>
          obtain ⟨hi, rfl⟩ := List.cons.inj hcons
          obtain rfl := Except.ok.inj hi
          obtain ⟨hlengths, hflatten⟩ := ih hrest
          rw [List.forall_mem_cons, List.map_cons, List.flatten_cons, hflatten, ← List.drop_drop, hdrop,
            htokens]
          refine ⟨⟨?_, hlengths⟩, List.take_append_drop _ _⟩
          -- the record starts with its header, since it is not empty
          have hsucc : (lengthField header).toNat ≠ 0 := fun h0 => hpos (BitVec.eq_of_toNat_eq h0)
          rw [List.length_take_of_le (Nat.le_of_not_lt hlen), List.head?_take, if_neg hsucc, List.head?_cons,
            Option.map_some]

end InstructionIter

/-- **Shader instructions.**  Iteration ends exactly when the stream after the header is made of whole
records. -/
theorem iteratesRight_iff (tokens : List (BitVec 32)) :
    IteratesRight tokens ↔ WellFramed (tokens.drop 2) := by
  have hstart : tokens.drop (min tokens.length 2) = tokens.drop 2 := by
    rcases Nat.le_total tokens.length 2 with hle | hle
    · rw [Nat.min_eq_left hle, List.drop_length, List.drop_eq_nil_of_le hle]
    · rw [Nat.min_eq_right hle]
  constructor
  · intro h
    obtain ⟨fuel, items, hitems⟩ := h.ends
    rw [← hstart]
    exact InstructionIter.wellFramed_of_items hitems
  · intro hw
    obtain ⟨fuel, instructions, hitems⟩ := InstructionIter.items_of_wellFramed hw hstart
    refine ⟨⟨fuel, _, hitems⟩, fun fuel instructions hitems => ?_⟩
    rw [← hstart]
    exact InstructionIter.partition_of_items hitems

/-- A record of no tokens after the header. -/
def zeroLength : List (BitVec 32) := [0x10040, 3, 0]

theorem not_iteratesRight_zeroLength : ¬ ∀ tokens, IteratesRight tokens := by
  intro h
  obtain ⟨fuel, items, hitems⟩ := (h zeroLength).ends
  have hstuck : (InstructionIter.new zeroLength).next =
      (some (.error (.zeroLengthOpcode 2)), InstructionIter.new zeroLength) := rfl
  rw [InstructionIter.items_of_stuck hstuck] at hitems
  cases hitems

end Quantum.Kernel32.Dxbc
