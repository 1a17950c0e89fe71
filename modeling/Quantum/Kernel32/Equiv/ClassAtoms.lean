import Mathlib.Data.List.Dedup
import Quantum.Kernel32.WindowsState

/-!
# Class atoms

`register_class` hands out atoms from a 16-bit counter that never falls under 0xC000, so the atoms repeat
after 0x4000 classes.  `atomsRight_iff`: in a run of registrations the atoms tell the names apart exactly
when the run has no more than 0x4000 different names.

The invariant `Known` orders the names by their first registration: the entry of a name holds the atom at
its index, and the counter the atom at the number of names.
-/

namespace Quantum.Kernel32.Windows

/-- A run of `register_class` calls, with the atoms that they return. -/
def State.registerAll (s : State) : List (String × BitVec 64) → State × List (BitVec 16)
  | [] => (s, [])
  | (name, wndProc) :: calls =>
    let (s, atom) := s.registerClass name wndProc
    let (s, atoms) := s.registerAll calls
    (s, atom :: atoms)

/-- The window procedure that the table has recorded for a class. -/
def State.recorded (s : State) (name : String) : Option (BitVec 64) :=
  (s.classes.lookup name).map (·.wndProc)

/-- What a run of registrations on new tables should do. -/
structure AtomsRight (calls : List (String × BitVec 64)) : Prop where
  unique : ∀ x ∈ calls.zip (State.new.registerAll calls).2, ∀ y ∈ calls.zip (State.new.registerAll calls).2,
    x.2 = y.2 ↔ x.1.1 = y.1.1
  floor : ∀ atom ∈ (State.new.registerAll calls).2, 0xC000 ≤ atom
  keeps : ∀ before name wndProc after, calls = before ++ (name, wndProc) :: after →
    name ∈ before.map Prod.fst →
    ∃ first, (State.new.registerAll before).1.recorded name = some first ∧
      (State.new.registerAll (before ++ [(name, wndProc)])).1.recorded name = some first ∧
      (State.new.registerAll calls).1.recorded name = some first

/-! ### The counter -/

/-- The atom of the class with this index. -/
def atomAt (i : ℕ) : BitVec 16 :=
  BitVec.ofNat 16 (0xC000 + i % 0x4000)

theorem toNat_atomAt (i : ℕ) : (atomAt i).toNat = 0xC000 + i % 0x4000 := by
  have hlt : i % 0x4000 < 0x4000 := Nat.mod_lt _ (by decide)
  rw [atomAt, BitVec.toNat_ofNat]
  omega

theorem atomAt_inj {i j : ℕ} : atomAt i = atomAt j ↔ i % 0x4000 = j % 0x4000 := by
  rw [← BitVec.toNat_inj, toNat_atomAt, toNat_atomAt]
  omega

theorem floor_le_atomAt (i : ℕ) : 0xC000 ≤ atomAt i := by
  rw [BitVec.le_def, toNat_atomAt]
  exact Nat.le_add_right _ _

/-- The counter wraps to its floor. -/
theorem atomAt_succ (i : ℕ) :
    (if atomAt i + 1 < 0xC000 then 0xC000 else atomAt i + 1) = atomAt (i + 1) := by
  have hlt : i % 0x4000 < 0x4000 := Nat.mod_lt _ (by decide)
  have hnext : (atomAt i + 1).toNat = (0xC000 + i % 0x4000 + 1) % 2 ^ 16 := by
    rw [BitVec.toNat_add, toNat_atomAt]
    rfl
  apply BitVec.eq_of_toNat_eq
  by_cases hwrap : i % 0x4000 = 0x3FFF
  · have hsmall : atomAt i + 1 < 0xC000 := by
      rw [BitVec.lt_def, hnext, hwrap]
      decide
    rw [if_pos hsmall, toNat_atomAt]
    change 0xC000 = _
    omega
  · have hlarge : ¬ atomAt i + 1 < 0xC000 := by
      rw [BitVec.lt_def, hnext]
      change ¬ _ < 0xC000
      omega
    rw [if_neg hlarge, hnext, toNat_atomAt]
    omega

/-! ### The invariant -/

/-- The tables know exactly these classes, in the order of their first registration. -/
structure Known (s : State) (names : List String) : Prop where
  nodup : names.Nodup
  next : s.nextAtom = atomAt names.length
  entry : ∀ name ∈ names, ∃ wndProc, s.classes.lookup name = some ⟨atomAt (names.idxOf name), wndProc⟩
  fresh : ∀ name ∉ names, s.classes.lookup name = none

theorem known_new : Known .new [] where
  nodup := List.nodup_nil
  next := by
    rw [List.length_nil]
    decide
  entry := by simp
  fresh := by
    intro name _
    exact AList.lookup_empty name

/-- What is recorded stays. -/
theorem State.lookup_registerClass {s : State} {name : String} {e : ClassEntry}
    (he : s.classes.lookup name = some e) (name' : String) (wndProc : BitVec 64) :
    (s.registerClass name' wndProc).1.classes.lookup name = some e := by
  unfold State.registerClass
  cases hl : s.classes.lookup name' with
  | some e' => exact he
  | none =>
    have hne : name ≠ name' := by
      rintro rfl
      rw [hl] at he
      cases he
    rw [AList.lookup_insert_ne hne]
    exact he

/-- One registration: a known class gives its atom, and a new one comes last. -/
theorem Known.register {s : State} {names : List String} (hk : Known s names) (name : String)
    (wndProc : BitVec 64) :
    ∃ names', names <+: names' ∧ (∀ x, x ∈ names' ↔ x ∈ names ∨ x = name) ∧
      Known (s.registerClass name wndProc).1 names' ∧
      (s.registerClass name wndProc).2 = atomAt (names'.idxOf name) := by
  by_cases hmem : name ∈ names
  · obtain ⟨first, hl⟩ := hk.entry name hmem
    have hsame : s.registerClass name wndProc = (s, atomAt (names.idxOf name)) := by
      rw [State.registerClass, hl]
    refine ⟨names, List.prefix_rfl, fun x => ⟨.inl, ?_⟩, ?_, ?_⟩
    · rintro (hx | rfl)
      · exact hx
      · exact hmem
    · rw [hsame]
      exact hk
    · rw [hsame]
  · have hl := hk.fresh name hmem
    have hnew : s.registerClass name wndProc =
        ({ s with
            nextAtom := if s.nextAtom + 1 < 0xC000 then 0xC000 else s.nextAtom + 1
            classes := s.classes.insert name ⟨s.nextAtom, wndProc⟩ }, s.nextAtom) := by
      rw [State.registerClass, hl]
    have hlast : (names ++ [name]).idxOf name = names.length := by
      rw [List.idxOf_append_of_notMem hmem, List.idxOf_cons_self]
      rfl
    refine ⟨names ++ [name], List.prefix_append _ _, fun x => by simp, ?_, ?_⟩
    · rw [hnew]
      refine ⟨?_, ?_, ?_, ?_⟩
      · exact List.nodup_append.mpr ⟨hk.nodup, List.nodup_singleton _, by
          intro a ha b hb heq
          rw [List.mem_singleton.mp hb] at heq
          exact hmem (heq ▸ ha)⟩
      · rw [List.length_append, List.length_singleton, ← atomAt_succ, ← hk.next]
      · intro x hx
        by_cases heq : x = name
        · subst heq
          exact ⟨wndProc, by rw [AList.lookup_insert, hlast, hk.next]⟩
        · -- an older class keeps its index
          have hold : x ∈ names := by simpa [heq] using hx
          obtain ⟨first, hx'⟩ := hk.entry x hold
          exact ⟨first, by rw [AList.lookup_insert_ne heq, hx', List.idxOf_append_of_mem hold]⟩
      · intro x hx
        have hne : x ≠ name := fun heq => hx (by simp [heq])
        have hold : x ∉ names := fun h => hx (by simp [h])
        rw [AList.lookup_insert_ne hne]
        exact hk.fresh x hold
    · rw [hnew, hlast]
      exact hk.next

/-- A run of registrations: the atoms are those of the indices in the end. -/
theorem Known.registerAll {s : State} {names : List String} (hk : Known s names)
    (calls : List (String × BitVec 64)) :
    ∃ names', names <+: names' ∧ (∀ x, x ∈ names' ↔ x ∈ names ∨ x ∈ calls.map Prod.fst) ∧
      Known (s.registerAll calls).1 names' ∧
      (s.registerAll calls).2 = calls.map fun c => atomAt (names'.idxOf c.1) := by
  induction calls generalizing s names with
  | nil => exact ⟨names, List.prefix_rfl, by simp, hk, rfl⟩
  | cons c calls ih =>
    obtain ⟨name, wndProc⟩ := c
    obtain ⟨names₁, hp₁, hmem₁, hk₁, hatom⟩ := hk.register name wndProc
    obtain ⟨names₂, hp₂, hmem₂, hk₂, hatoms⟩ := ih hk₁
    refine ⟨names₂, hp₁.trans hp₂, fun x => ?_, hk₂, ?_⟩
    · rw [hmem₂, hmem₁, List.map_cons, List.mem_cons, or_assoc]
    · obtain ⟨rest, rfl⟩ := hp₂
      have hin : name ∈ names₁ := (hmem₁ name).mpr (.inr rfl)
      have hidx : (names₁ ++ rest).idxOf name = names₁.idxOf name := List.idxOf_append_of_mem hin
      rw [List.map_cons, hidx, ← hatom, ← hatoms]
      rfl

theorem State.registerAll_append (s : State) (calls calls' : List (String × BitVec 64)) :
    (s.registerAll (calls ++ calls')).1 = ((s.registerAll calls).1.registerAll calls').1 := by
  induction calls generalizing s with
  | nil => rfl
  | cons c calls ih => exact ih _

theorem State.lookup_registerAll {s : State} {name : String} {e : ClassEntry}
    (he : s.classes.lookup name = some e) (calls : List (String × BitVec 64)) :
    (s.registerAll calls).1.classes.lookup name = some e := by
  induction calls generalizing s with
  | nil => exact he
  | cons c calls ih => exact ih (State.lookup_registerClass he c.1 c.2)

/-! ### Runs on new tables -/

/-- The names of a run in the order of their first registration, and its atoms. -/
theorem exists_names (calls : List (String × BitVec 64)) :
    ∃ names : List String, (calls.map Prod.fst).dedup.length = names.length ∧ names.Nodup ∧
      (∀ x, x ∈ names ↔ x ∈ calls.map Prod.fst) ∧
      (State.new.registerAll calls).2 = calls.map fun c => atomAt (names.idxOf c.1) := by
  obtain ⟨names, -, hmem, hk, hatoms⟩ := known_new.registerAll calls
  have hmem' : ∀ x, x ∈ names ↔ x ∈ calls.map Prod.fst := by
    intro x
    rw [hmem]
    simp
  have hperm : (calls.map Prod.fst).dedup.Perm names := by
    rw [List.perm_ext_iff_of_nodup (List.nodup_dedup _) hk.nodup]
    intro x
    rw [List.mem_dedup, hmem']
  exact ⟨names, hperm.length_eq, hk.nodup, hmem', hatoms⟩

theorem mem_zip_map {α β : Type*} {l : List α} {f : α → β} {x : α × β} :
    x ∈ l.zip (l.map f) ↔ x.1 ∈ l ∧ x.2 = f x.1 := by
  rw [← List.map_prod_left_eq_zip, List.mem_map]
  constructor
  · rintro ⟨a, ha, rfl⟩
    exact ⟨ha, rfl⟩
  · rintro ⟨ha, h⟩
    exact ⟨x.1, ha, by rw [← h]⟩

/-- With more names than atoms, the first and the one 0x4000 names later share an atom. -/
theorem AtomsRight.length_le {calls : List (String × BitVec 64)} (h : AtomsRight calls) :
    (calls.map Prod.fst).dedup.length ≤ 0x4000 := by
  obtain ⟨names, hlen, hnodup, hmem, hatoms⟩ := exists_names calls
  by_contra hmany
  have hlt : 0x4000 < names.length := by omega
  have hpos : 0 < names.length := by omega
  obtain ⟨c, hc, hcname⟩ := List.mem_map.mp ((hmem _).mp (List.getElem_mem hpos))
  obtain ⟨d, hd, hdname⟩ := List.mem_map.mp ((hmem _).mp (List.getElem_mem hlt))
  have hunique := h.unique
  rw [hatoms] at hunique
  -- the atoms of the indices 0 and 0x4000
  have hatom : atomAt (names.idxOf c.1) = atomAt (names.idxOf d.1) := by
    rw [hcname, hdname, hnodup.idxOf_getElem, hnodup.idxOf_getElem]
    exact atomAt_inj.mpr rfl
  have hsame : c.1 = d.1 :=
    (hunique (c, _) (mem_zip_map.mpr ⟨hc, rfl⟩) (d, _) (mem_zip_map.mpr ⟨hd, rfl⟩)).mp hatom
  rw [hcname, hdname, hnodup.getElem_inj_iff] at hsame
  omega

/-- **Class atoms.**  A run gets different atoms for different names, one atom for each name, exactly when it
has no more than 0x4000 names. -/
theorem atomsRight_iff (calls : List (String × BitVec 64)) :
    AtomsRight calls ↔ (calls.map Prod.fst).dedup.length ≤ 0x4000 := by
  refine ⟨AtomsRight.length_le, fun hle => ?_⟩
  obtain ⟨names, hlen, hnodup, hmem, hatoms⟩ := exists_names calls
  constructor
  · rw [hatoms]
    intro x hx y hy
    obtain ⟨hx, hxa⟩ := mem_zip_map.mp hx
    obtain ⟨hy, hya⟩ := mem_zip_map.mp hy
    have hxin : x.1.1 ∈ names := (hmem _).mpr (List.mem_map_of_mem hx)
    have hyin : y.1.1 ∈ names := (hmem _).mpr (List.mem_map_of_mem hy)
    have hxlt := List.idxOf_lt_length_of_mem hxin
    have hylt := List.idxOf_lt_length_of_mem hyin
    rw [hxa, hya, atomAt_inj, Nat.mod_eq_of_lt (by omega), Nat.mod_eq_of_lt (by omega)]
    exact List.idxOf_inj hxin
  · rw [hatoms]
    intro atom ha
    obtain ⟨c, -, rfl⟩ := List.mem_map.mp ha
    exact floor_le_atomAt _
  · rintro before name wndProc after rfl hname
    obtain ⟨known, -, hknown, hk, -⟩ := known_new.registerAll before
    obtain ⟨first, hfirst⟩ := hk.entry name ((hknown name).mpr (.inr hname))
    refine ⟨first, ?_, ?_, ?_⟩
    · rw [State.recorded, hfirst]
      rfl
    · rw [State.recorded, State.registerAll_append, State.lookup_registerAll hfirst]
      rfl
    · rw [State.recorded, State.registerAll_append, State.lookup_registerAll hfirst]
      rfl

/-- A program that registers a class for each of 0x4001 windows. -/
def manyClasses : List (String × BitVec 64) :=
  (List.range 0x4001).map fun i => (String.ofList (List.replicate i 'a'), 0)

theorem not_atomsRight_manyClasses : ¬ AtomsRight manyClasses := by
  intro h
  have hle := h.length_le
  have hnodup : (manyClasses.map Prod.fst).Nodup := by
    rw [manyClasses, List.map_map]
    refine List.nodup_range.map fun i j hij => ?_
    have hlists : List.replicate i 'a' = List.replicate j 'a' := String.ofList_injective hij
    simpa using congrArg List.length hlists
  rw [hnodup.dedup, List.length_map, manyClasses, List.length_map, List.length_range] at hle
  omega

end Quantum.Kernel32.Windows
