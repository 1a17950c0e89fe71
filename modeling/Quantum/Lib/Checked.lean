import Mathlib.Data.BitVec

/-!
# Computations that may panic

A computation returns a value, returns an error, or panics: on an addition or a multiplication that
overflows, and on an index out of bounds.  `Total` says that it does not panic.  `total_bind` and
`total_collect` reduce this to the steps of a computation and of a loop, under what the steps before
have returned.
-/

namespace Quantum

/-- What ends a computation early. -/
inductive Fault (ε : Type) where
  | panicked
  | err (e : ε)
  deriving DecidableEq

abbrev Checked (ε α : Type) := Except (Fault ε) α

namespace Checked

variable {ε α β : Type} {w : Nat}

/-- Return an error. -/
def fail (e : ε) : Checked ε α :=
  .error (.err e)

/-- `ok_or`. -/
def okOr (o : Option α) (e : ε) : Checked ε α :=
  match o with
  | some a => .ok a
  | none => fail e

/-- Return an error unless a condition holds. -/
def ensure (c : Prop) [Decidable c] (e : ε) : Checked ε Unit :=
  if c then .ok () else fail e

def add (x y : BitVec w) : Checked ε (BitVec w) :=
  if x.toNat + y.toNat < 2 ^ w then .ok (x + y) else .error .panicked

def mul (x y : BitVec w) : Checked ε (BitVec w) :=
  if x.toNat * y.toNat < 2 ^ w then .ok (x * y) else .error .panicked

/-- The elements of `l` from `i` to `i + n`. -/
def slice (l : List α) (i n : Nat) : Checked ε (List α) :=
  if i + n ≤ l.length then .ok ((l.drop i).take n) else .error .panicked

/-- The element of `l` at `i`. -/
def index (l : List α) (i : Nat) : Checked ε α :=
  match l[i]? with
  | some a => .ok a
  | none => .error .panicked

/-- The results of `f` for the `n` indices from `i` on. -/
def collect (f : Nat → Checked ε α) : Nat → Nat → Checked ε (List α)
  | _, 0 => .ok []
  | i, n + 1 => do
    let a ← f i
    let rest ← collect f (i + 1) n
    return a :: rest

/-- The computation does not panic. -/
def Total (m : Checked ε α) : Prop :=
  m ≠ .error .panicked

/-- The computation returns a value. -/
def Returns (m : Checked ε α) : Prop :=
  ∃ a, m = .ok a

/-! ### Values -/

@[simp]
theorem ok_bind (a : α) (f : α → Checked ε β) : (Except.ok a >>= f : Checked ε β) = f a :=
  rfl

theorem bind_eq_ok {m : Checked ε α} {f : α → Checked ε β} {b : β} :
    (m >>= f) = .ok b ↔ ∃ a, m = .ok a ∧ f a = .ok b := by
  cases m with
  | error x => exact ⟨nofun, nofun⟩
  | ok a => exact ⟨fun h => ⟨a, rfl, h⟩, fun ⟨_, ha, h⟩ => Except.ok.inj ha ▸ h⟩

theorem okOr_eq_ok {o : Option α} {e : ε} {a : α} : okOr o e = .ok a ↔ o = some a := by
  cases o with
  | none => exact ⟨nofun, nofun⟩
  | some b => simp [okOr]

theorem ensure_eq_ok {c : Prop} [Decidable c] {e : ε} {u : Unit} : ensure c e = .ok u ↔ c := by
  unfold ensure
  split <;> simp_all [fail]

theorem add_eq_ok {x y z : BitVec w} : (add x y : Checked ε _) = .ok z ↔
    z.toNat = x.toNat + y.toNat := by
  unfold add
  split
  · rename_i h
    have hadd : (x + y).toNat = x.toNat + y.toNat := by
      rw [BitVec.toNat_add, Nat.mod_eq_of_lt h]
    constructor
    · rintro ⟨⟩
      exact hadd
    · intro hz
      rw [BitVec.eq_of_toNat_eq (hadd.trans hz.symm)]
  · rename_i h
    have hz := z.isLt
    refine ⟨nofun, fun heq => absurd ?_ h⟩
    omega

theorem add_of_lt {x y : BitVec w} (h : x.toNat + y.toNat < 2 ^ w) :
    (add x y : Checked ε _) = .ok (x + y) :=
  if_pos h

theorem mul_of_lt {x y : BitVec w} (h : x.toNat * y.toNat < 2 ^ w) :
    (mul x y : Checked ε _) = .ok (x * y) :=
  if_pos h

theorem mul_eq_ok {x y z : BitVec w} : (mul x y : Checked ε _) = .ok z ↔
    z.toNat = x.toNat * y.toNat := by
  unfold mul
  split
  · rename_i h
    have hmul : (x * y).toNat = x.toNat * y.toNat := by
      rw [BitVec.toNat_mul, Nat.mod_eq_of_lt h]
    constructor
    · rintro ⟨⟩
      exact hmul
    · intro hz
      rw [BitVec.eq_of_toNat_eq (hmul.trans hz.symm)]
  · rename_i h
    have hz := z.isLt
    refine ⟨nofun, fun heq => absurd ?_ h⟩
    omega

/-! ### Totality -/

theorem total_ok (a : α) : Total (.ok a : Checked ε α) :=
  nofun

theorem total_fail (e : ε) : Total (fail e : Checked ε α) :=
  nofun

theorem total_okOr (o : Option α) (e : ε) : Total (okOr o e) := by
  cases o with
  | none => exact total_fail e
  | some a => exact total_ok a

theorem total_ensure (c : Prop) [Decidable c] (e : ε) : Total (ensure c e) := by
  unfold ensure
  split
  · exact total_ok ()
  · exact total_fail e

theorem total_add_iff {x y : BitVec w} : Total (add x y : Checked ε _) ↔
    x.toNat + y.toNat < 2 ^ w := by
  unfold add Total
  split <;> simp_all

theorem total_mul_iff {x y : BitVec w} : Total (mul x y : Checked ε _) ↔
    x.toNat * y.toNat < 2 ^ w := by
  unfold mul Total
  split <;> simp_all

theorem total_slice_iff {l : List α} {i n : Nat} : Total (slice l i n : Checked ε _) ↔
    i + n ≤ l.length := by
  unfold slice Total
  split <;> simp_all

theorem total_index_iff {l : List α} {i : Nat} : Total (index l i : Checked ε _) ↔ i < l.length := by
  unfold index Total
  split
  · rename_i a ha
    simp [(List.getElem?_eq_some_iff.mp ha).1]
  · rename_i hnone
    simp [List.getElem?_eq_none_iff.mp hnone]

/-- A computation panics in its first step, or in the rest after what the first step returned. -/
theorem total_bind_iff {m : Checked ε α} {f : α → Checked ε β} :
    Total (m >>= f) ↔ Total m ∧ ∀ a, m = .ok a → Total (f a) := by
  cases m with
  | ok a =>
    refine ⟨fun h => ⟨total_ok a, ?_⟩, fun h => h.2 a rfl⟩
    rintro b ⟨⟩
    exact h
  | error x =>
    refine ⟨fun h => ⟨?_, nofun⟩, fun h => ?_⟩
    · rintro ⟨⟩
      exact h rfl
    · rintro ⟨⟩
      exact h.1 rfl

theorem total_bind {m : Checked ε α} {f : α → Checked ε β} (hm : Total m)
    (hf : ∀ a, m = .ok a → Total (f a)) : Total (m >>= f) :=
  total_bind_iff.mpr ⟨hm, hf⟩

theorem total_index_bind {l : List α} {i : Nat} {f : α → Checked ε β} (hi : i < l.length)
    (hf : ∀ a, Total (f a)) : Total (index l i >>= f) :=
  total_bind (total_index_iff.mpr hi) fun a _ => hf a

/-- To add and go on with the sum. -/
theorem total_add_bind {x y : BitVec w} {f : BitVec w → Checked ε β}
    (hlt : x.toNat + y.toNat < 2 ^ w) (hf : ∀ z, z.toNat = x.toNat + y.toNat → Total (f z)) :
    Total (add x y >>= f) :=
  total_bind (total_add_iff.mpr hlt) fun z hz => hf z (add_eq_ok.mp hz)

theorem total_mul_bind {x y : BitVec w} {f : BitVec w → Checked ε β}
    (hlt : x.toNat * y.toNat < 2 ^ w) (hf : ∀ z, z.toNat = x.toNat * y.toNat → Total (f z)) :
    Total (mul x y >>= f) :=
  total_bind (total_mul_iff.mpr hlt) fun z hz => hf z (mul_eq_ok.mp hz)

/-- To return something with the sum. -/
theorem total_add_ok_iff {x y : BitVec w} {f : BitVec w → β} :
    Total (add x y >>= fun z => .ok (f z) : Checked ε β) ↔ x.toNat + y.toNat < 2 ^ w := by
  rw [total_bind_iff, total_add_iff]
  exact ⟨And.left, fun h => ⟨h, fun _ _ => total_ok _⟩⟩

theorem returns_add_ok {x y : BitVec w} {f : BitVec w → β} (h : x.toNat + y.toNat < 2 ^ w) :
    Returns (add x y >>= fun z => .ok (f z) : Checked ε β) := by
  rw [add_of_lt h]
  exact ⟨_, rfl⟩

theorem total_map_iff {m : Checked ε α} {f : α → β} : Total (m.map f) ↔ Total m := by
  cases m with
  | ok a => exact ⟨fun _ => total_ok a, fun _ => total_ok (f a)⟩
  | error x => simp [Total, Except.map]

/-- A loop panics in the first iteration that panics, if all before it return. -/
theorem total_collect_iff {f : Nat → Checked ε α} {i n : Nat} : Total (collect f i n) ↔
    ∀ j < n, (∀ k < j, Returns (f (i + k))) → Total (f (i + j)) := by
  induction n generalizing i with
  | zero => exact ⟨fun _ j hj => absurd hj (Nat.not_lt_zero j), fun _ => total_ok []⟩
  | succ n ih =>
    rw [collect, total_bind_iff]
    constructor
    · rintro ⟨hhead, htail⟩ j hj hprev
      cases j with
      | zero => exact hhead
      | succ j =>
        obtain ⟨a, ha⟩ := hprev 0 (Nat.succ_pos j)
        have hrest := (total_bind_iff.mp (htail a ha)).1
        rw [show i + (j + 1) = i + 1 + j by omega]
        refine ih.mp hrest j (by omega) fun k hk => ?_
        rw [show i + 1 + k = i + (k + 1) by omega]
        exact hprev (k + 1) (by omega)
    · intro h
      refine ⟨h 0 (Nat.succ_pos n) (fun k hk => absurd hk (Nat.not_lt_zero k)), fun a ha => ?_⟩
      refine total_bind (ih.mpr fun j hj hprev => ?_) fun _ _ => total_ok _
      rw [show i + 1 + j = i + (j + 1) by omega]
      refine h (j + 1) (by omega) fun k hk => ?_
      cases k with
      | zero => exact ⟨a, ha⟩
      | succ k =>
        have := hprev k (by omega)
        rwa [show i + 1 + k = i + (k + 1) by omega] at this

/-- A loop returns if all its iterations do. -/
theorem returns_collect_iff {f : Nat → Checked ε α} {i n : Nat} : Returns (collect f i n) ↔
    ∀ j < n, Returns (f (i + j)) := by
  induction n generalizing i with
  | zero => exact ⟨fun _ j hj => absurd hj (Nat.not_lt_zero j), fun _ => ⟨[], rfl⟩⟩
  | succ n ih =>
    rw [collect]
    constructor
    · rintro ⟨l, hl⟩ j hj
      obtain ⟨a, ha, hrest⟩ := bind_eq_ok.mp hl
      obtain ⟨l', hl', -⟩ := bind_eq_ok.mp hrest
      cases j with
      | zero => exact ⟨a, ha⟩
      | succ j =>
        have := ih.mp ⟨l', hl'⟩ j (by omega)
        rwa [show i + 1 + j = i + (j + 1) by omega] at this
    · intro h
      obtain ⟨a, ha⟩ := h 0 (Nat.succ_pos n)
      have hrest : Returns (collect f (i + 1) n) := ih.mpr fun j hj => by
        have := h (j + 1) (by omega)
        rwa [show i + (j + 1) = i + 1 + j by omega] at this
      obtain ⟨l, hl⟩ := hrest
      refine ⟨a :: l, bind_eq_ok.mpr ⟨a, ha, bind_eq_ok.mpr ⟨l, hl, rfl⟩⟩⟩

/-- What a loop returns, iteration by iteration. -/
theorem collect_eq_ok_iff {f : Nat → Checked ε α} {i n : Nat} {l : List α} : collect f i n = .ok l ↔
    l.length = n ∧ ∀ j a, l[j]? = some a → f (i + j) = .ok a := by
  induction n generalizing i l with
  | zero =>
    constructor
    · rintro ⟨⟩
      exact ⟨rfl, nofun⟩
    · rintro ⟨hl, -⟩
      rw [List.length_eq_zero_iff.mp hl]
      rfl
  | succ n ih =>
    rw [collect, bind_eq_ok]
    constructor
    · rintro ⟨a, ha, hrest⟩
      obtain ⟨l', hl', hcons⟩ := bind_eq_ok.mp hrest
      obtain rfl := Except.ok.inj hcons
      obtain ⟨hlen, hget⟩ := ih.mp hl'
      refine ⟨by rw [List.length_cons, hlen], fun j b hb => ?_⟩
      cases j with
      | zero => rw [← Option.some.inj hb]; exact ha
      | succ j =>
        have := hget j b hb
        rwa [show i + 1 + j = i + (j + 1) by omega] at this
    · rintro ⟨hlen, hget⟩
      cases l with
      | nil => cases hlen
      | cons a l' =>
        refine ⟨a, hget 0 a rfl, bind_eq_ok.mpr ⟨l', ih.mpr ⟨Nat.succ.inj hlen, ?_⟩, rfl⟩⟩
        intro j b hb
        rw [show i + 1 + j = i + (j + 1) by omega]
        exact hget (j + 1) b hb

/-- A loop whose iterations end with a step that panics or returns.  If nothing else panics, the loop is
total when the last step is, in every iteration that is reached. -/
theorem total_collect_bind_iff {g : Nat → Checked ε α} {f : Nat → α → Checked ε β} {i n : Nat}
    (hg : ∀ j < n, (∀ k < j, Returns (g (i + k))) → Total (g (i + j)))
    (hf : ∀ j a, Total (f j a) → Returns (f j a)) :
    Total (collect (fun j => g j >>= f j) i n) ↔
      ∀ j < n, (∀ k < j, Returns (g (i + k))) → ∀ a, g (i + j) = .ok a → Total (f (i + j) a) := by
  rw [total_collect_iff]
  constructor
  · intro h
    -- the iterations before `j` return, by induction on `j`
    have hprev : ∀ j ≤ n, (∀ k < j, Returns (g (i + k))) →
        ∀ k < j, Returns (g (i + k) >>= f (i + k)) := by
      intro j
      induction j with
      | zero => exact fun _ _ k hk => absurd hk (Nat.not_lt_zero k)
      | succ j ih =>
        intro hj hret k hk
        have hbefore := ih (by omega) fun k hk => hret k (by omega)
        rcases Nat.lt_succ_iff_lt_or_eq.mp hk with hlt | rfl
        · exact hbefore k hlt
        · obtain ⟨a, ha⟩ := hret k (Nat.lt_succ_self k)
          have hlast := (total_bind_iff.mp (h k (by omega) hbefore)).2 a ha
          obtain ⟨b, hb⟩ := hf _ _ hlast
          exact ⟨b, bind_eq_ok.mpr ⟨a, ha, hb⟩⟩
    intro j hj hret a ha
    exact (total_bind_iff.mp (h j hj (hprev j (by omega) hret))).2 a ha
  · intro h j hj hret
    have hret' : ∀ k < j, Returns (g (i + k)) := fun k hk => by
      obtain ⟨b, hb⟩ := hret k hk
      obtain ⟨a, ha, -⟩ := bind_eq_ok.mp hb
      exact ⟨a, ha⟩
    exact total_bind (hg j hj hret') (h j hj hret')

end Checked

end Quantum
