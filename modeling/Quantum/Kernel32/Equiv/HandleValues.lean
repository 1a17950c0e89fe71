import Quantum.Kernel32.Equiv.Handles
import Quantum.Kernel32.Schedule

/-!
# Any value as a handle

A guest may pass any 64-bit value where a handle belongs.  `unpack` takes the bias of the index off the low
half of a value after it has compared the whole value with the bias, so a value with a small low half under a
large high half underflows.  `accepts_iff` says for which values and tables the calls on handles are safe:
these values are the exception, and so is a mutex whose recursion counter is full.
-/

namespace Quantum.Kernel32

/-! ### What the calls promise -/

/-- The value is a handle of an object in the table. -/
def Kernel.IsLive (k : Kernel) (h : Handle) : Prop :=
  ∃ i g id, k.table.slots[i]? = some (some (g, id)) ∧ h = pack i g

/-- What the calls do with a value that is no live handle. -/
structure Kernel.Refuses (k : Kernel) (tid : ThreadId) (c : Bool) (h : Handle) : Prop where
  get : k.table.get c h = .ok none
  remove : k.table.remove c h = .ok none
  closeHandle : k.closeHandle c h = .ok (k, false)
  setEvent : k.setEvent c h = .ok (k, false)
  wait : ∀ timeout objects turns,
    waitForSingleObject k.table c tid timeout h objects turns = some ⟨WAIT_FAILED, objects, turns, []⟩

/-- The calls accept the value, whether overflow is checked or not; a wait may block, but not beyond its
timeout. -/
structure Kernel.Accepts (k : Kernel) (tid : ThreadId) (h : Handle) : Prop where
  get : ∀ c, ∃ r, k.table.get c h = .ok r
  remove : ∀ c, ∃ r, k.table.remove c h = .ok r
  closeHandle : ∀ c, ∃ r, k.closeHandle c h = .ok r
  setEvent : ∀ c, ∃ r, k.setEvent c h = .ok r
  wait : ∀ c timeout, timeout ≠ INFINITE →
    ∃ w, waitForSingleObject k.table c tid timeout h k.objects [.run id, .timedOut] = some w
  counter : ∀ o, k.table.get true h = .ok (some o) → (k.objects o).acquireOverflows tid = false
  refuses : ¬ k.IsLive h → ∀ c, k.Refuses tid c h
  unpack : ∀ c i g o, k.table.slots[i]? = some (some (g, o)) → h = pack i g →
    Kernel32.unpack c h = .ok (some (i, g))

/-- The bias can be taken off the low half of the value. -/
def Unbiased (h : Handle) : Prop :=
  h < 0x1000#64 ∨ 0x1000#64 ≤ h &&& 0xFFFFFFFF#64

instance (h : Handle) : Decidable (Unbiased h) :=
  inferInstanceAs (Decidable (_ ∨ _))

/-- The value is no trap: nothing underflows, the index of a live handle fits its half, and if the value is
the handle of a mutex of the calling thread, the recursion counter is not full. -/
structure Kernel.Harmless (k : Kernel) (tid : ThreadId) (h : Handle) : Prop where
  unbiased : Unbiased h
  fits : ∀ i g o, k.table.slots[i]? = some (some (g, o)) → h = pack i g → i < maxSlots
  counter : ∀ i g o, k.table.slots[i]? = some (some (g, o)) → h = pack i g →
    (k.objects o).acquireOverflows tid = false

/-! ### Unpacking -/

theorem toNat_low (h : Handle) : (h &&& 0xFFFFFFFF#64).toNat = h.toNat % 2 ^ 32 := by
  rw [BitVec.toNat_and, show (0xFFFFFFFF#64).toNat = 2 ^ 32 - 1 from rfl, Nat.and_two_pow_sub_one_eq_mod]

/-- With overflow checks a value unpacks unless the bias underflows. -/
theorem exists_unpack_iff {h : Handle} : (∃ r, unpack true h = .ok r) ↔ Unbiased h := by
  unfold unpack Unbiased
  by_cases hsmall : h < 0x1000#64
  · simp [hsmall]
  · by_cases hlow : h &&& 0xFFFFFFFF#64 < 0x1000#64
    · have hnot : ¬ 0x1000#64 ≤ h &&& 0xFFFFFFFF#64 := BitVec.not_le.mpr hlow
      simp [hsmall, hlow, hnot]
    · have hle : 0x1000#64 ≤ h &&& 0xFFFFFFFF#64 := BitVec.not_lt.mp hlow
      simp [hsmall, hlow, hle]

/-- What a value unpacks to when nothing underflows: an index that fits. -/
theorem Unbiased.unpack {h : Handle} (hh : Unbiased h) (c : Bool) :
    Kernel32.unpack c h = .ok none ∨ ∃ i g, Kernel32.unpack c h = .ok (some (i, g)) ∧ i < maxSlots := by
  unfold Kernel32.unpack
  by_cases hsmall : h < 0x1000#64
  · rw [if_pos hsmall]
    exact .inl rfl
  · have hlow := hh.resolve_left hsmall
    have hnot : ¬ h &&& 0xFFFFFFFF#64 < 0x1000#64 := BitVec.not_lt.mpr hlow
    right
    simp only [hsmall, if_false, decide_eq_false hnot, Bool.and_false, Bool.false_eq_true, Except.ok.injEq,
      Option.some.injEq, Prod.mk.injEq]
    refine ⟨_, _, ⟨rfl, rfl⟩, ?_⟩
    rw [BitVec.toNat_sub_of_le hlow, toNat_low, maxSlots]
    have hlt : h.toNat % 2 ^ 32 < 2 ^ 32 := Nat.mod_lt _ (by decide)
    have hge : 0x1000 ≤ h.toNat % 2 ^ 32 := by
      rw [← toNat_low]
      exact hlow
    have hbias : (0x1000#64).toNat = 0x1000 := rfl
    omega

/-- The index that a checked `unpack` gives fits. -/
theorem lt_maxSlots_of_unpack {h : Handle} {i : Nat} {g : BitVec 32}
    (hu : unpack true h = .ok (some (i, g))) : i < maxSlots := by
  rcases (exists_unpack_iff.mp ⟨_, hu⟩).unpack true with hnone | ⟨j, g', hj, hlt⟩
  · rw [hu] at hnone
    cases hnone
  · rw [hu] at hj
    cases hj
    exact hlt

/-! ### The calls -/

section

variable {k : Kernel} {tid : ThreadId} {h : Handle} {c : Bool}

theorem Unbiased.get (hh : Unbiased h) (c : Bool) (t : HandleTable ObjId) :
    t.get c h = .ok none ∨ ∃ i g, i < maxSlots ∧ h = pack i g ∧ t.get c h = .ok (t.lookup i g) := by
  rcases hh.unpack c with hu | ⟨i, g, hu, hi⟩
  · left
    rw [HandleTable.get, hu]
  · obtain rfl := eq_pack_of_unpack hu hi
    exact .inr ⟨i, g, hi, rfl, HandleTable.get_pack hi g⟩

/-- A value that leads to an object is its handle. -/
theorem Unbiased.slot_of_get (hh : Unbiased h) {o : ObjId} (hget : k.table.get c h = .ok (some o)) :
    ∃ i g, k.table.slots[i]? = some (some (g, o)) ∧ h = pack i g := by
  rcases hh.get c k.table with hnone | ⟨i, g, -, rfl, hlook⟩
  · rw [hget] at hnone
    cases hnone
  · rw [hget, Except.ok.injEq] at hlook
    exact ⟨i, g, HandleTable.lookup_eq_some.mp hlook.symm, rfl⟩

theorem exists_remove_of_get {t : HandleTable ObjId} {r : Option ObjId} (hget : t.get c h = .ok r) :
    (∃ r', t.remove c h = .ok r') ∧ (r = none → t.remove c h = .ok none) := by
  unfold HandleTable.get at hget
  unfold HandleTable.remove
  cases hu : unpack c h with
  | error x =>
    rw [hu] at hget
    cases hget
  | ok q =>
    cases q with
    | none => exact ⟨⟨_, rfl⟩, fun _ => rfl⟩
    | some q =>
      obtain ⟨i, g⟩ := q
      simp only [hu, Except.ok.injEq] at hget
      refine ⟨⟨_, rfl⟩, ?_⟩
      rintro rfl
      simp only [hget, Option.map_none]

/-- What the calls do with a value that leads nowhere. -/
theorem Kernel.refuses_of_get (hget : k.table.get c h = .ok none) : k.Refuses tid c h := by
  have hremove := (exists_remove_of_get hget).2 rfl
  refine ⟨hget, hremove, ?_, ?_, fun timeout objects turns => ?_⟩
  · rw [Kernel.closeHandle, hremove]
  · rw [Kernel.setEvent, Kernel.withObject, Kernel.get, hget]
    rfl
  · rw [waitForSingleObject, hget]

/-- A wait that times out returns, unless the counter is full. -/
theorem exists_waitSingle {timeout : BitVec 32} (ht : timeout ≠ INFINITE) {o : ObjId} {objects : Objects}
    (hcounter : (objects o).acquireOverflows tid = false) :
    ∃ w, waitSingle c tid timeout o objects [.run id, .timedOut] = some w := by
  unfold waitSingle
  simp only [id_eq, hcounter, Bool.and_false, Bool.false_eq_true, if_false, if_neg ht]
  cases (objects o).acquire tid with
  | some obj => exact ⟨_, rfl⟩
  | none =>
    by_cases hz : (!(objects o).isWaitable || timeout == 0) = true
    · exact ⟨_, if_pos hz⟩
    · exact ⟨_, if_neg hz⟩

/-- The calls return when the lookup does, and the counter of the object is not full. -/
theorem Kernel.returns_of_get {r : Option ObjId} (hget : k.table.get c h = .ok r)
    (hcounter : ∀ o, r = some o → (k.objects o).acquireOverflows tid = false) :
    (∃ r, k.closeHandle c h = .ok r) ∧ (∃ r, k.setEvent c h = .ok r) ∧ ∀ timeout, timeout ≠ INFINITE →
      ∃ w, waitForSingleObject k.table c tid timeout h k.objects [.run id, .timedOut] = some w := by
  obtain ⟨⟨removed, hremove⟩, -⟩ := exists_remove_of_get hget
  refine ⟨?_, ?_, fun timeout ht => ?_⟩
  · rw [Kernel.closeHandle, hremove]
    cases removed with
    | none => exact ⟨_, rfl⟩
    | some q => exact ⟨_, rfl⟩
  · rw [Kernel.setEvent, Kernel.withObject, Kernel.get, hget]
    cases r with
    | none => exact ⟨_, rfl⟩
    | some o =>
      simp only [Except.map, Option.map_some]
      split
      · exact ⟨_, rfl⟩
      · exact ⟨_, rfl⟩
  · rw [waitForSingleObject, hget]
    cases r with
    | none => exact ⟨_, rfl⟩
    | some o => exact exists_waitSingle ht (hcounter o rfl)

end

/-- **Values as handles.**  The calls accept a value exactly when its low half does not underflow under the
bias, and the handle of a live object is one that `pack` has room for and no mutex with a full counter. -/
theorem accepts_iff (k : Kernel) (tid : ThreadId) (h : Handle) : k.Accepts tid h ↔ k.Harmless tid h := by
  constructor
  · intro ha
    have hunbiased : Unbiased h := by
      obtain ⟨r, hr⟩ := ha.get true
      refine exists_unpack_iff.mp ?_
      unfold HandleTable.get at hr
      cases hu : unpack true h with
      | ok q => exact ⟨q, rfl⟩
      | error x =>
        rw [hu] at hr
        cases hr
    have hfits : ∀ i g o, k.table.slots[i]? = some (some (g, o)) → h = pack i g → i < maxSlots :=
      fun i g o hi hh => lt_maxSlots_of_unpack (ha.unpack true i g o hi hh)
    refine ⟨hunbiased, hfits, fun i g o hi hh => ha.counter o ?_⟩
    rw [hh, HandleTable.get_pack (hfits i g o hi hh), HandleTable.lookup_eq_some.mpr hi]
  · intro hh
    have hget : ∀ c, ∃ r, k.table.get c h = .ok r := by
      intro c
      rcases hh.unbiased.get c k.table with hnone | ⟨i, g, -, -, hlook⟩
      · exact ⟨_, hnone⟩
      · exact ⟨_, hlook⟩
    have hcounter : ∀ c o, k.table.get c h = .ok (some o) → (k.objects o).acquireOverflows tid = false := by
      intro c o ho
      obtain ⟨i, g, hi, heq⟩ := hh.unbiased.slot_of_get ho
      exact hh.counter i g o hi heq
    have hreturns := fun c => (hget c).elim fun r hr =>
      @Kernel.returns_of_get k tid h c r hr fun o ho => hcounter c o (ho ▸ hr)
    refine ⟨hget, fun c => ?_, fun c => (hreturns c).1, fun c => (hreturns c).2.1, fun c => (hreturns c).2.2,
      hcounter true, fun hdead c => ?_, fun c i g o hi heq => ?_⟩
    · obtain ⟨r, hr⟩ := hget c
      exact (exists_remove_of_get hr).1
    · obtain ⟨r, hr⟩ := hget c
      cases r with
      | none => exact Kernel.refuses_of_get hr
      | some o =>
        obtain ⟨i, g, hi, heq⟩ := hh.unbiased.slot_of_get hr
        exact absurd ⟨i, g, o, hi, heq⟩ hdead
    · rw [heq]
      exact unpack_pack c (hh.fits i g o hi heq) g

/-- The value `2 ^ 32` is not small, but its low half is. -/
theorem not_accepts_two_pow : ¬ ∀ (k : Kernel) (tid : ThreadId) (h : Handle), k.Accepts tid h := by
  intro hall
  obtain ⟨r, hr⟩ := (hall .new 1 0x100000000).get true
  cases hr

end Quantum.Kernel32
