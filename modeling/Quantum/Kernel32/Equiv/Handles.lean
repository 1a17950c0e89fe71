import Quantum.Kernel32.Threads
import Quantum.Lib.Machine

/-!
# Stale handles

A run of the handle table is recorded in a ledger: which handles are live, and with which object they
were inserted, and which have been removed.  The generation of a slot is lost when the slot is freed,
so a new object in the slot has the handle of the old one.  The ledger stays safe exactly as long as no
object goes into a freed slot (`ledger_safe_iff`).
-/

namespace Quantum.Kernel32

open Machine

variable {O : Type}

/-! ### Packing -/

/-- The number of slots whose index fits the low half of a handle. -/
def maxSlots : Nat := 2 ^ 32 - 0x1000

theorem toNat_pack {i : Nat} (hi : i < maxSlots) (g : BitVec 32) :
    (pack i g).toNat = g.toNat * 2 ^ 32 + (i + 0x1000) := by
  have hlt : i + 0x1000 < 2 ^ 32 := by
    unfold maxSlots at hi
    omega
  have hg := g.isLt
  have hlow : (BitVec.ofNat 64 (i + 0x1000)).toNat = i + 0x1000 := by
    rw [BitVec.toNat_ofNat]
    omega
  have hhigh : (g.setWidth 64 <<< 32).toNat = g.toNat * 2 ^ 32 := by
    rw [BitVec.toNat_shiftLeft, BitVec.toNat_setWidth, Nat.shiftLeft_eq]
    omega
  rw [pack, BitVec.toNat_or, hlow, hhigh, Nat.mul_comm, ← Nat.two_pow_add_eq_or_of_lt hlt]

theorem unpack_pack (c : Bool) {i : Nat} (hi : i < maxSlots) (g : BitVec 32) :
    unpack c (pack i g) = .ok (some (i, g)) := by
  have hn := toNat_pack hi g
  have hlt : i + 0x1000 < 2 ^ 32 := by
    unfold maxSlots at hi
    omega
  have hg := g.isLt
  have hge : ¬ pack i g < 0x1000#64 := by
    rw [BitVec.lt_def, hn]
    show ¬ _ < 0x1000
    omega
  have hlow : (pack i g &&& 0xFFFFFFFF#64).toNat = i + 0x1000 := by
    rw [BitVec.toNat_and, hn, show (0xFFFFFFFF#64).toNat = 2 ^ 32 - 1 from rfl,
      Nat.and_two_pow_sub_one_eq_mod]
    omega
  have hnot : ¬ (pack i g &&& 0xFFFFFFFF#64) < 0x1000#64 := by
    rw [BitVec.lt_def, hlow]
    show ¬ _ < 0x1000
    omega
  have hidx : ((pack i g &&& 0xFFFFFFFF#64) - 0x1000#64).toNat = i := by
    rw [BitVec.toNat_sub, hlow]
    show (2 ^ 64 - 0x1000 + (i + 0x1000)) % 2 ^ 64 = i
    omega
  have hgen : (pack i g >>> 32).setWidth 32 = g := by
    refine BitVec.eq_of_toNat_eq ?_
    rw [BitVec.toNat_setWidth, BitVec.toNat_ushiftRight, hn, Nat.shiftRight_eq_div_pow]
    omega
  rw [unpack, if_neg hge]
  simp only [decide_eq_false hnot, Bool.and_false, Bool.false_eq_true, if_false, hidx, hgen]

/-- A handle that unpacks to an index that fits is the packed one. -/
theorem eq_pack_of_unpack {c : Bool} {h : Handle} {i : Nat} {g : BitVec 32}
    (hu : unpack c h = .ok (some (i, g))) (hi : i < maxSlots) : h = pack i g := by
  unfold unpack at hu
  split at hu
  · cases hu
  · dsimp only at hu
    split at hu
    · cases hu
    · injection hu with hu
      injection hu with hu
      injection hu with hidx hgen
      have hlow : (h &&& 0xFFFFFFFF#64).toNat = h.toNat % 2 ^ 32 := by
        rw [BitVec.toNat_and, show (0xFFFFFFFF#64).toNat = 2 ^ 32 - 1 from rfl,
          Nat.and_two_pow_sub_one_eq_mod]
      have hhigh : g.toNat = h.toNat / 2 ^ 32 % 2 ^ 32 := by
        rw [← hgen, BitVec.toNat_setWidth, BitVec.toNat_ushiftRight, Nat.shiftRight_eq_div_pow]
      rw [BitVec.toNat_sub, hlow, show (0x1000#64).toNat = 0x1000 from rfl] at hidx
      have hh := h.isLt
      refine BitVec.eq_of_toNat_eq ?_
      rw [toNat_pack hi, hhigh]
      unfold maxSlots at hi
      omega

theorem pack_injective {i j : Nat} {g g' : BitVec 32} (hi : i < maxSlots) (hj : j < maxSlots)
    (h : pack i g = pack j g') : i = j ∧ g = g' := by
  have hu := unpack_pack false hi g
  rw [h, unpack_pack false hj g'] at hu
  injection hu with hu
  injection hu with hu
  injection hu with h₁ h₂
  exact ⟨h₁.symm, h₂.symm⟩

/-- The first index that does not fit: the handle does not lead back to it. -/
theorem unpack_pack_maxSlots (c : Bool) :
    unpack c (pack maxSlots 1) = if c then .error () else .ok (some (2 ^ 64 - 0x1000, 1)) := by
  cases c with
  | true => rfl
  | false => rfl

namespace HandleTable

variable {t : HandleTable O} {c : Bool} {i : Nat} {o : O}

/-! ### The table through its slots -/

theorem get_pack (hi : i < maxSlots) (g : BitVec 32) :
    t.get c (pack i g) = .ok (t.lookup i g) := by
  rw [get, unpack_pack c hi]

theorem lookup_eq_some {g : BitVec 32} :
    t.lookup i g = some o ↔ t.slots[i]? = some (some (g, o)) := by
  unfold lookup
  cases h : t.slots[i]? with
  | none => simp
  | some s =>
    cases s with
    | none => simp
    | some q =>
      obtain ⟨g', o'⟩ := q
      by_cases hg : g' = g
      · subst hg
        simp [Option.filter]
      · simp [Option.filter, hg]

/-- No slot is free. -/
def Full (t : HandleTable O) : Prop :=
  ∀ s ∈ t.slots, s ≠ none

theorem insert_of_full (h : t.Full) (o : O) :
    t.insert o = (⟨t.slots ++ [some (1, o)]⟩, pack t.slots.length 1) := by
  have hnone : t.slots.findIdx? Option.isNone = none := by
    rw [List.findIdx?_eq_none_iff]
    intro s hs
    have := h s hs
    cases s with
    | none => exact absurd rfl this
    | some q => rfl
  rw [insert, hnone]

/-- In a table with a free slot an object gets the generation 1. -/
theorem insert_of_not_full (h : ¬ t.Full) (o : O) :
    ∃ i, t.slots[i]? = some none ∧ t.insert o = (⟨t.slots.set i (some (1, o))⟩, pack i 1) := by
  cases hf : t.slots.findIdx? Option.isNone with
  | none =>
    rw [List.findIdx?_eq_none_iff] at hf
    refine absurd (fun s hs => ?_) h
    rintro rfl
    exact Bool.noConfusion (hf none hs)
  | some i =>
    obtain ⟨hlt, hi, -⟩ := List.findIdx?_eq_some_iff_getElem.mp hf
    have hslot : t.slots[i]? = some none := by
      rw [List.getElem?_eq_getElem hlt, Option.isNone_iff_eq_none.mp hi]
    refine ⟨i, hslot, ?_⟩
    rw [insert, hf]
    simp only [hslot, Option.join_some, Option.map_none, Option.getD_none]

end HandleTable

/-! ### The ledger of a run -/

/-- A call on the table. -/
inductive TableCall (O : Type) where
  | insert (obj : O)
  | get (handle : Handle)
  | remove (handle : Handle)

/-- The table with the history of its handles. -/
structure Ledger (O : Type) where
  table : HandleTable O
  /-- The handles that have been inserted and not removed since, with their objects. -/
  live : List (Handle × O)
  /-- The handles that have been removed. -/
  removed : List Handle

namespace Ledger

def new : Ledger O := ⟨HandleTable.new, [], []⟩

/-- A call, with its entry in the ledger; `none` when it panics. -/
def step (c : Bool) (s : Ledger O) : TableCall O → Option (Ledger O)
  | .insert o =>
    let (table, h) := s.table.insert o
    some ⟨table, (h, o) :: s.live, s.removed⟩
  | .get h => (s.table.get c h).toOption.map fun _ => s
  | .remove h =>
    match s.table.remove c h with
    | .error _ => none
    | .ok none => some s
    | .ok (some (table, _)) => some ⟨table, s.live.filter (·.1 ≠ h), h :: s.removed⟩

/-- Live handles are distinct and lead to their objects, and removed ones lead nowhere. -/
structure Safe (c : Bool) (s : Ledger O) : Prop where
  distinct : (s.live.map (·.1)).Nodup
  resolves : ∀ h o, (h, o) ∈ s.live → s.table.get c h = .ok (some o)
  stale : ∀ h ∈ s.removed, ∀ o, s.table.get c h ≠ .ok (some o)

/-- An object is only inserted in a table without free slots, and while its index fits. -/
def Fresh (s : Ledger O) : TableCall O → Prop
  | .insert _ => s.table.Full ∧ s.table.slots.length < maxSlots
  | _ => True

/-- What holds as long as every insertion is fresh. -/
structure Inv (s : Ledger O) : Prop where
  fits : s.table.slots.length ≤ maxSlots
  generation : ∀ (i : Nat) (g : BitVec 32) (o : O), s.table.slots[i]? = some (some (g, o)) → g = 1
  distinct : (s.live.map (·.1)).Nodup
  live : ∀ (h : Handle) (o : O), (h, o) ∈ s.live →
    ∃ i, s.table.slots[i]? = some (some (1, o)) ∧ h = pack i 1
  removed : ∀ h ∈ s.removed, ∃ i, s.table.slots[i]? = some none ∧ h = pack i 1
  free : ∀ i : Nat, s.table.slots[i]? = some none → pack i 1 ∈ s.removed

variable {s s' : Ledger O} {c : Bool}

theorem inv_new : (new : Ledger O).Inv where
  fits := Nat.zero_le _
  generation := by simp [new, HandleTable.new]
  distinct := List.nodup_nil
  live := by simp [new]
  removed := by simp [new]
  free := by simp [new, HandleTable.new]

theorem Inv.lt_maxSlots (h : s.Inv) {i : Nat} {x : Option (BitVec 32 × O)}
    (hi : s.table.slots[i]? = some x) : i < maxSlots :=
  lt_of_lt_of_le (List.getElem?_eq_some_iff.mp hi).1 h.fits

theorem Inv.safe (h : s.Inv) : s.Safe c where
  distinct := h.distinct
  resolves := fun hd o hl => by
    obtain ⟨i, hi, rfl⟩ := h.live hd o hl
    rw [HandleTable.get_pack (h.lt_maxSlots hi), HandleTable.lookup_eq_some.mpr hi]
  stale := fun hd hr o => by
    obtain ⟨i, hi, rfl⟩ := h.removed hd hr
    rw [HandleTable.get_pack (h.lt_maxSlots hi)]
    intro hc
    have hsome : s.table.lookup i 1 = some o := by injection hc
    rw [HandleTable.lookup_eq_some, hi] at hsome
    cases hsome

/-- An element of a list with one more at its end. -/
theorem getElem?_concat_cases {α : Type} {l : List α} {a x : α} {i : Nat}
    (h : (l ++ [a])[i]? = some x) : l[i]? = some x ∨ x = a := by
  rcases Nat.lt_or_ge i l.length with hlt | hge
  · rw [List.getElem?_append_left hlt] at h
    exact .inl h
  · rw [List.getElem?_append_right hge] at h
    exact .inr (List.mem_singleton.mp (List.mem_of_getElem? h))

/-- A fresh insertion. -/
theorem Inv.insert (h : s.Inv) (o : O) (hlt : s.table.slots.length < maxSlots) :
    (⟨⟨s.table.slots ++ [some (1, o)]⟩, (pack s.table.slots.length 1, o) :: s.live, s.removed⟩ :
      Ledger O).Inv where
  fits := by
    rw [List.length_append]
    exact hlt
  generation := fun i g o' hi => by
    rcases getElem?_concat_cases hi with hold | hnew
    · exact h.generation i g o' hold
    · cases hnew
      rfl
  distinct := by
    rw [List.map_cons, List.nodup_cons]
    refine ⟨fun hm => ?_, h.distinct⟩
    obtain ⟨⟨h', o'⟩, hmem, heq⟩ := List.mem_map.mp hm
    obtain ⟨i, hi, rfl⟩ := h.live h' o' hmem
    obtain ⟨rfl, -⟩ := pack_injective (h.lt_maxSlots hi) hlt heq
    exact lt_irrefl _ (List.getElem?_eq_some_iff.mp hi).1
  live := fun h' o' hm => by
    rcases List.mem_cons.mp hm with heq | hold
    · obtain ⟨rfl, rfl⟩ := Prod.mk.inj heq
      exact ⟨_, List.getElem?_concat_length .., rfl⟩
    · obtain ⟨i, hi, rfl⟩ := h.live h' o' hold
      have hl := (List.getElem?_eq_some_iff.mp hi).1
      exact ⟨i, by rw [List.getElem?_append_left hl]; exact hi, rfl⟩
  removed := fun h' hm => by
    obtain ⟨i, hi, rfl⟩ := h.removed h' hm
    have hl := (List.getElem?_eq_some_iff.mp hi).1
    exact ⟨i, by rw [List.getElem?_append_left hl]; exact hi, rfl⟩
  free := fun i hi => by
    rcases getElem?_concat_cases hi with hold | hnew
    · exact h.free i hold
    · cases hnew

/-- A removal frees the slot of the handle. -/
theorem Inv.remove (h : s.Inv) {i : Nat} {o : O} (hi : s.table.slots[i]? = some (some (1, o))) :
    (⟨⟨s.table.slots.set i none⟩, s.live.filter (·.1 ≠ pack i 1), pack i 1 :: s.removed⟩ :
      Ledger O).Inv where
  fits := by simpa using h.fits
  generation := fun j g o' hj => by
    by_cases hij : i = j
    · subst hij
      rw [List.getElem?_set_self (List.getElem?_eq_some_iff.mp hi).1] at hj
      cases hj
    · rw [List.getElem?_set_ne hij] at hj
      exact h.generation j g o' hj
  distinct := h.distinct.sublist ((List.filter_sublist ..).map _)
  live := fun h' o' hm => by
    obtain ⟨hmem, hne⟩ := List.mem_filter.mp hm
    obtain ⟨j, hj, rfl⟩ := h.live h' o' hmem
    refine ⟨j, ?_, rfl⟩
    rw [List.getElem?_set_ne]
    · exact hj
    · rintro rfl
      simp at hne
  removed := fun h' hm => by
    rcases List.mem_cons.mp hm with rfl | hold
    · exact ⟨i, List.getElem?_set_self (List.getElem?_eq_some_iff.mp hi).1, rfl⟩
    · obtain ⟨j, hj, rfl⟩ := h.removed h' hold
      refine ⟨j, ?_, rfl⟩
      rw [List.getElem?_set_ne]
      · exact hj
      · rintro rfl
        rw [hi] at hj
        cases hj
  free := fun j hj => by
    by_cases hij : i = j
    · subst hij
      exact List.mem_cons_self ..
    · rw [List.getElem?_set_ne hij] at hj
      exact List.mem_cons_of_mem _ (h.free j hj)

/-! ### Steps -/

/-- A handle that resolves names an occupied slot. -/
theorem Inv.slot_of_remove (h : s.Inv) {hd : Handle} {table : HandleTable O} {o : O}
    (hr : s.table.remove c hd = .ok (some (table, o))) :
    ∃ i, s.table.slots[i]? = some (some (1, o)) ∧ hd = pack i 1 ∧
      table = ⟨s.table.slots.set i none⟩ := by
  unfold HandleTable.remove at hr
  split at hr
  · cases hr
  · cases hr
  · rename_i i g hu
    injection hr with hr
    obtain ⟨o', ho, heq⟩ := Option.map_eq_some_iff.mp hr
    obtain ⟨rfl, rfl⟩ := Prod.mk.inj heq
    have hi := HandleTable.lookup_eq_some.mp ho
    obtain rfl := h.generation i g o' hi
    exact ⟨i, hi, eq_pack_of_unpack hu (h.lt_maxSlots hi), rfl⟩

/-- An insertion that is not fresh breaks the ledger. -/
theorem Inv.not_safe_of_insert (h : s.Inv) {o : O} (hfresh : ¬ s.Fresh (.insert o))
    (hstep : step c s (.insert o) = some s') : ¬ s'.Safe c := by
  intro hsafe
  by_cases hfull : s.table.Full
  · -- the index does not fit, and the new handle does not lead to its object
    have hlen : s.table.slots.length = maxSlots := by
      by_contra hne
      exact hfresh ⟨hfull, lt_of_le_of_ne h.fits hne⟩
    simp only [step, HandleTable.insert_of_full hfull, Option.some.injEq] at hstep
    subst hstep
    have hget := hsafe.resolves _ o (List.mem_cons_self ..)
    rw [hlen, HandleTable.get, unpack_pack_maxSlots] at hget
    cases c with
    | true => cases hget
    | false =>
      have hlook := HandleTable.lookup_eq_some.mp (Except.ok.inj hget)
      have hlt := (List.getElem?_eq_some_iff.mp hlook).1
      rw [List.length_append, List.length_singleton, hlen] at hlt
      exact absurd hlt (by decide)
  · -- the object gets the handle of the one that was removed from its slot
    obtain ⟨i, hi, hins⟩ := HandleTable.insert_of_not_full hfull o
    simp only [step, hins, Option.some.injEq] at hstep
    subst hstep
    refine hsafe.stale _ (h.free i hi) o ?_
    rw [HandleTable.get_pack (h.lt_maxSlots hi), HandleTable.lookup_eq_some.mpr]
    exact List.getElem?_set_self (List.getElem?_eq_some_iff.mp hi).1

theorem Inv.step (h : s.Inv) {e : TableCall O} (hfresh : s.Fresh e) (hstep : step c s e = some s') :
    s'.Inv := by
  cases e with
  | insert o =>
    simp only [Ledger.step, HandleTable.insert_of_full hfresh.1, Option.some.injEq] at hstep
    subst hstep
    exact h.insert o hfresh.2
  | get hd =>
    obtain ⟨-, -, rfl⟩ := Option.map_eq_some_iff.mp hstep
    exact h
  | remove hd =>
    cases hr : s.table.remove c hd with
    | error x => simp [Ledger.step, hr] at hstep
    | ok r =>
      cases r with
      | none =>
        simp only [Ledger.step, hr, Option.some.injEq] at hstep
        rw [← hstep]
        exact h
      | some q =>
        simp only [Ledger.step, hr, Option.some.injEq] at hstep
        obtain ⟨i, hi, rfl, hq⟩ := h.slot_of_remove hr
        rw [← hstep, hq]
        exact h.remove hi

end Ledger

/-- **Handle table safety.**  In a run of the table live handles are distinct and lead to their
objects, and removed handles lead nowhere, exactly when no object is inserted while a slot is free
and the indices fit. -/
theorem ledger_safe_iff (c : Bool) {es : List (TableCall O)} {s : Ledger O}
    (hr : run (Ledger.step c) Ledger.new es = some s) :
    (∀ es₁ es₂ s₁, es = es₁ ++ es₂ → run (Ledger.step c) Ledger.new es₁ = some s₁ → s₁.Safe c) ↔
      Meets (Ledger.step c) Ledger.Fresh Ledger.new es := by
  refine run_all_iff_of_invariant (I := Ledger.Inv) (fun s h => h.safe) (fun s e s' h hstep => ?_)
    Ledger.inv_new hr
  refine ⟨fun hsafe => ?_, fun hfresh => h.step hfresh hstep⟩
  cases e with
  | insert o =>
    by_contra hfresh
    exact h.not_safe_of_insert hfresh hstep hsafe
  | get hd => trivial
  | remove hd => trivial

/-- Two objects one after the other. -/
theorem ledger_safe_iff_two_inserts :
    run (Ledger.step true) Ledger.new [.insert 7, .insert 8, .get (pack 1 1)]
      = some ⟨⟨[some (1, 7), some (1, 8)]⟩, [(pack 1 1, 8), (pack 0 1, 7)], []⟩ ∧
    ∀ es₁ es₂ (s₁ : Ledger Nat), [.insert 7, .insert 8, .get (pack 1 1)] = es₁ ++ es₂ →
      run (Ledger.step true) Ledger.new es₁ = some s₁ → s₁.Safe true := by
  have hr : run (Ledger.step true) (Ledger.new : Ledger Nat)
      [.insert 7, .insert 8, .get (pack 1 1)]
      = some ⟨⟨[some (1, 7), some (1, 8)]⟩, [(pack 1 1, 8), (pack 0 1, 7)], []⟩ := rfl
  refine ⟨hr, (ledger_safe_iff true hr).mpr ⟨⟨?_, by decide⟩, ?_⟩⟩
  · simp [HandleTable.Full, Ledger.new, HandleTable.new]
  · intro s₁ h₁
    obtain rfl := Option.some.inj h₁
    refine ⟨⟨?_, ?_⟩, fun _ _ => ⟨trivial, fun _ _ => trivial⟩⟩
    · show HandleTable.Full ⟨[some (1, 7)]⟩
      simp [HandleTable.Full]
    · show 1 < maxSlots
      decide

/-- Insert 7, remove it, insert 8: the handle of 7 leads to 8. -/
theorem stale_handle_resolves :
    ¬ ∀ (c : Bool) (es : List (TableCall Nat)) (s : Ledger Nat),
      run (Ledger.step c) Ledger.new es = some s → s.Safe c := by
  intro h
  have hs := h true [.insert 7, .remove (pack 0 1), .insert 8]
    ⟨⟨[some (1, 8)]⟩, [(pack 0 1, 8)], [pack 0 1]⟩ rfl
  exact hs.stale (pack 0 1) (by simp) 8 rfl

/-! ### Duplicates -/

/-- After `closed` is closed, `other` is still valid and leads to the object it led to. -/
def LeavesValid (c : Bool) (k : Kernel) (closed other : Handle) : Prop :=
  ∃ k' r id, k.closeHandle c closed = .ok (k', r) ∧ k.table.get c other = .ok (some id) ∧
    k'.table.get c other = .ok (some id)

/-- A handle that is closed leads nowhere. -/
theorem not_leavesValid_self (c : Bool) (k : Kernel) (h : Handle) : ¬ LeavesValid c k h h := by
  rintro ⟨k', r, id, hclose, hbefore, hafter⟩
  unfold HandleTable.get at hbefore hafter
  unfold Kernel.closeHandle HandleTable.remove at hclose
  cases hu : unpack c h with
  | error x =>
    rw [hu] at hbefore
    cases hbefore
  | ok q =>
    cases q with
    | none =>
      rw [hu] at hbefore
      cases hbefore
    | some q =>
      obtain ⟨i, g⟩ := q
      simp only [hu, Except.ok.injEq] at hbefore hafter
      simp only [hu, hbefore, Option.map_some, Except.ok.injEq, Prod.mk.injEq] at hclose
      obtain ⟨rfl, -⟩ := hclose
      have hlt := (List.getElem?_eq_some_iff.mp (HandleTable.lookup_eq_some.mp hbefore)).1
      rw [HandleTable.lookup_eq_some, List.getElem?_set_self hlt] at hafter
      cases hafter

/-- **Duplicated handles.**  Whatever calls came before, closing a handle or its duplicate leaves the
other one invalid. -/
theorem duplicate_not_independent (c : Bool) (k : Kernel) {h h2 : Handle}
    {dstHandleOut : Option (BitVec 64)} (hdup : duplicateHandle h dstHandleOut = some h2) :
    ¬ LeavesValid c k h h2 ∧ ¬ LeavesValid c k h2 h := by
  obtain ⟨a, -, rfl⟩ := Option.map_eq_some_iff.mp hdup
  exact ⟨not_leavesValid_self c k h, not_leavesValid_self c k h⟩

/-- The first event and its duplicate. -/
theorem duplicate_not_independent_event :
    duplicateHandle (pack 0 1) (some 0x2000) = some (pack 0 1) ∧
    ¬ LeavesValid true (Kernel.new.createEvent 1 1).1 (pack 0 1) (pack 0 1) := by
  have hdup : duplicateHandle (pack 0 1) (some 0x2000) = some (pack 0 1) := rfl
  exact ⟨hdup, (duplicate_not_independent true _ hdup).1⟩

/-- Create an event, duplicate its handle and close the original. -/
theorem close_duplicated_event :
    ¬ ∀ (c : Bool) (k : Kernel) (h h2 : Handle) (dstHandleOut : Option (BitVec 64)) (id : ObjId),
      k.table.get c h = .ok (some id) → duplicateHandle h dstHandleOut = some h2 →
        LeavesValid c k h h2 ∧ LeavesValid c k h2 h := by
  intro hall
  have h := hall true (Kernel.new.createEvent 1 1).1 (pack 0 1) (pack 0 1) (some 0x2000) 0 rfl rfl
  exact not_leavesValid_self _ _ _ h.1

end Quantum.Kernel32
