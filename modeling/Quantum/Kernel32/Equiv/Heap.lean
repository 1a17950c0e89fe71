import Mathlib.Order.CompletePartialOrder
import Mathlib.Order.Interval.Set.Disjoint
import Quantum.Kernel32.Heap
import Quantum.Lib.Machine

/-!
# Blocks of the process heap

Over a run of calls on the heap, every block lies in the arena, is 16-byte aligned, and has an address
and a range of its own, exactly when no request is so large that the rounding wraps around and none is
granted right after one for zero bytes (`heap_sound_iff`): a block of zero bytes does not move the bump
pointer, so the next block gets its address.
-/

namespace Quantum.Kernel32

open Machine

/-! ### The rounding -/

theorem and_not_add_and (x m : BitVec 64) : (x &&& ~~~m) + (x &&& m) = x := by
  have hdisj : (x &&& ~~~m) &&& (x &&& m) = 0 := by
    ext i hi
    cases hm : m[i] <;> simp [hm]
  rw [BitVec.add_eq_or_of_and_eq_zero _ _ hdisj]
  ext i hi
  cases hm : m[i] <;> simp [hm]

theorem toNat_and_not_fifteen (x : BitVec 64) : (x &&& ~~~15).toNat = x.toNat / 16 * 16 := by
  have hlow : (x &&& 15).toNat = x.toNat % 16 := by
    rw [BitVec.toNat_and]
    exact Nat.and_two_pow_sub_one_eq_mod _ 4
  have hle : (x &&& ~~~15).toNat ≤ x.toNat := by
    rw [BitVec.toNat_and]
    exact Nat.and_le_left
  have hadd := congrArg BitVec.toNat (and_not_add_and x 15)
  rw [BitVec.toNat_add, hlow] at hadd
  have hx := x.isLt
  omega

namespace Heap

variable {h : Heap} {size : BitVec 64}

theorem toNat_aligned (hs : size.toNat + 15 < 2 ^ 64) :
    (aligned size).toNat = (size.toNat + 15) / 16 * 16 := by
  rw [aligned, toNat_and_not_fifteen, BitVec.toNat_add_of_lt (by simpa using hs)]
  rfl

/-- The rounding of a request that is too large wraps around to nothing. -/
theorem aligned_eq_zero (hs : 2 ^ 64 ≤ size.toNat + 15) : (aligned size).toNat = 0 := by
  have hlt := size.isLt
  rw [aligned, toNat_and_not_fifteen, BitVec.toNat_add]
  simp only [BitVec.ofNat_eq_ofNat, BitVec.toNat_ofNat]
  omega

theorem fits_iff : h.fits size = true ↔
    h.next.toNat + (aligned size).toNat ≤ h.region.len.toNat := by
  have hlen := h.region.len.isLt
  unfold fits checkedAdd
  split_ifs with hlt
  · simp only [Bool.not_eq_true', decide_eq_false_iff_not, BitVec.not_lt, BitVec.le_def,
      BitVec.toNat_add_of_lt hlt]
  · simp only [false_iff]
    omega

/-- A request that does not panic is refused or gets the bytes at the bump pointer. -/
theorem alloc_cases {c zero : Bool} {h' : Heap} {mem mem' : ByteMem} {ptr : BitVec 64}
    (ha : h.alloc c mem size zero = some (h', mem', ptr)) :
    (h.fits size = false ∧ h' = h ∧ ptr = 0) ∨
    (h.fits size = true ∧ h' = { h with next := h.next + aligned size } ∧
      ptr = h.region.base + h.next) := by
  unfold alloc at ha
  split at ha
  · cases ha
  · split at ha
    all_goals
      simp only [Option.some.injEq, Prod.mk.injEq] at ha
      obtain ⟨rfl, -, rfl⟩ := ha
    · exact .inr ⟨‹_›, rfl, rfl⟩
    · exact .inl ⟨Bool.eq_false_iff.mpr ‹_›, rfl, rfl⟩

end Heap

/-! ### What a call can do -/

/-- The size of the block that a call asks for, if it asks the default heap for one. -/
def HeapCall.request : HeapCall → Option (BitVec 64)
  | .heapAlloc handle _ size | .heapReAlloc handle _ _ size =>
    if handle = DEFAULT_HEAP_HANDLE then some size else none
  | .heapFree _ _ _ => none

namespace HeapState

variable {c : Bool} {s s' : HeapState} {e : HeapCall}

/-- A call hands out nothing, or the block at the bump pointer. -/
def Effect (s : HeapState) (request : Option (BitVec 64)) (s' : HeapState) : Prop :=
  (s'.heap = s.heap ∧ s'.blocks = s.blocks ∧
    ∀ size, request = some size → s.heap.fits size = false) ∨
  ∃ size, request = some size ∧ s.heap.fits size = true ∧
    s'.heap = { s.heap with next := s.heap.next + Heap.aligned size } ∧
    s'.blocks = record s.blocks (s.heap.region.base + s.heap.next) size

theorem effect_of_alloc {size ptr : BitVec 64} {zero : Bool} {heap : Heap} {mem mem' : ByteMem}
    (ha : s.heap.alloc c s.mem size zero = some (heap, mem, ptr)) :
    s.Effect (some size) ⟨heap, mem', record s.blocks ptr size⟩ := by
  rcases Heap.alloc_cases ha with ⟨hfits, rfl, rfl⟩ | ⟨hfits, rfl, rfl⟩
  · exact .inl ⟨rfl, by simp [record], fun size' h => Option.some.inj h ▸ hfits⟩
  · exact .inr ⟨size, rfl, hfits, rfl, rfl⟩

theorem effect_refl : s.Effect none s := .inl ⟨rfl, rfl, fun _ h => by cases h⟩

theorem effect_of_step (h : s.step c e = some s') : s.Effect e.request s' := by
  cases e with
  | heapAlloc handle flags size =>
    simp only [step, heapAlloc, HeapCall.request] at h ⊢
    by_cases hh : handle = DEFAULT_HEAP_HANDLE
    · rw [if_neg (not_not.mpr hh)] at h
      rw [if_pos hh]
      cases ha : s.heap.alloc c s.mem size (flags &&& HEAP_ZERO_MEMORY != 0) with
      | none => simp only [ha, Option.map_none, reduceCtorEq] at h
      | some r =>
        simp only [ha, Option.map_some, Option.some.injEq] at h
        exact h ▸ effect_of_alloc ha
    · rw [if_pos hh] at h
      rw [if_neg hh]
      exact Option.some.inj h ▸ effect_refl
  | heapReAlloc handle flags ptr size =>
    simp only [step, heapReAlloc, HeapCall.request] at h ⊢
    by_cases hh : handle = DEFAULT_HEAP_HANDLE
    · rw [if_neg (not_not.mpr hh)] at h
      rw [if_pos hh]
      cases ha : s.heap.alloc c s.mem size (flags &&& HEAP_ZERO_MEMORY != 0) with
      | none => simp only [ha, Option.map_none, reduceCtorEq] at h
      | some r =>
        simp only [ha, Option.map_some, Option.some.injEq] at h
        exact h ▸ effect_of_alloc ha
    · rw [if_pos hh] at h
      rw [if_neg hh]
      exact Option.some.inj h ▸ effect_refl
  | heapFree handle flags ptr =>
    have hs : s' = s := by
      simp only [step, heapFree, Option.some.injEq] at h
      split_ifs at h <;> exact h.symm
    exact hs ▸ effect_refl

/-! ### Soundness of the blocks -/

/-- The addresses of a block. -/
def range (b : BitVec 64 × BitVec 64) : Set ℕ := Set.Ico b.1.toNat (b.1.toNat + b.2.toNat)

structure Sound (s : HeapState) : Prop where
  inside : ∀ b ∈ s.blocks, s.heap.region.base.toNat ≤ b.1.toNat ∧
    b.1.toNat + b.2.toNat ≤ s.heap.region.base.toNat + s.heap.region.len.toNat
  aligned : ∀ b ∈ s.blocks, 16 ∣ b.1.toNat
  distinct : s.blocks.Pairwise fun b b' => b.1 ≠ b'.1
  disjoint : s.blocks.Pairwise fun b b' => Disjoint (range b) (range b')

/-- The rounding of the request does not wrap, and if the request is granted, the block before it is not
empty. -/
def Proper (s : HeapState) (e : HeapCall) : Prop :=
  ∀ size, e.request = some size → size.toNat + 15 < 2 ^ 64 ∧
    (s.heap.fits size = true → ∀ b ∈ s.blocks.head?, b.2 ≠ 0)

/-- The blocks against the bump pointer. -/
structure Packed (s : HeapState) : Prop where
  sound : s.Sound
  next_le : s.heap.next.toNat ≤ s.heap.region.len.toNat
  next_aligned : 16 ∣ s.heap.next.toNat
  below : ∀ b ∈ s.blocks,
    b.1.toNat + b.2.toNat ≤ s.heap.region.base.toNat + s.heap.next.toNat
  /-- Only the newest block may be at the bump pointer, and only if it is empty. -/
  lt_of_newest : (∀ b ∈ s.blocks.head?, b.2 ≠ 0) →
    ∀ b ∈ s.blocks, b.1.toNat < s.heap.region.base.toNat + s.heap.next.toNat
  eq_of_newest : ∀ b ∈ s.blocks.head?, b.2 = 0 →
    b.1.toNat = s.heap.region.base.toNat + s.heap.next.toNat

theorem packed_new (region : Region) (mem : ByteMem) : (new region mem).Packed where
  sound := ⟨by simp [new], by simp [new], .nil, .nil⟩
  next_le := Nat.zero_le _
  next_aligned := dvd_zero 16
  below := by simp [new]
  lt_of_newest := by simp [new]
  eq_of_newest := by simp [new]

theorem Packed.congr (hp : s.Packed) (hheap : s'.heap = s.heap) (hblocks : s'.blocks = s.blocks) :
    s'.Packed := by
  obtain ⟨heap, mem, blocks⟩ := s
  obtain ⟨heap', mem', blocks'⟩ := s'
  obtain rfl : heap' = heap := hheap
  obtain rfl : blocks' = blocks := hblocks
  obtain ⟨⟨h₁, h₂, h₃, h₄⟩, h₅, h₆, h₇, h₈, h₉⟩ := hp
  exact ⟨⟨h₁, h₂, h₃, h₄⟩, h₅, h₆, h₇, h₈, h₉⟩

theorem Packed.toNat_ptr (hp : s.Packed) : (s.heap.region.base + s.heap.next).toNat =
    s.heap.region.base.toNat + s.heap.next.toNat := by
  have hspace := s.heap.region.in_space
  have hnext := hp.next_le
  exact BitVec.toNat_add_of_lt (by omega)

theorem Packed.base_pos (s : HeapState) : 4096 ≤ s.heap.region.base.toNat := by
  have hne : s.heap.region.base.toNat ≠ 0 := fun h =>
    s.heap.region.base_ne_zero (BitVec.eq_of_toNat_eq h)
  exact Nat.le_of_dvd (Nat.pos_of_ne_zero hne) s.heap.region.pageAligned

theorem Packed.record_eq (hp : s.Packed) (size : BitVec 64) :
    record s.blocks (s.heap.region.base + s.heap.next) size =
      (s.heap.region.base + s.heap.next, size) :: s.blocks := by
  refine if_neg fun h => ?_
  have hptr := hp.toNat_ptr
  have hbase := Packed.base_pos s
  rw [h] at hptr
  simp only [BitVec.ofNat_eq_ofNat, BitVec.toNat_ofNat, Nat.zero_mod] at hptr
  omega

/-- A block at the bump pointer is sound when the ones before it end there and start before it. -/
theorem Packed.sound_cons {size : BitVec 64} (hp : s.Packed)
    (hnew : ∀ b ∈ s.blocks.head?, b.2 ≠ 0)
    (hsize : s.heap.next.toNat + size.toNat ≤ s.heap.region.len.toNat)
    (hregion : s'.heap.region = s.heap.region)
    (hblocks : s'.blocks = (s.heap.region.base + s.heap.next, size) :: s.blocks) : s'.Sound := by
  have hptr := hp.toNat_ptr
  obtain ⟨hin, hal, hdist, hdisj⟩ := hp.sound
  constructor
  · rw [hblocks, hregion]
    refine List.forall_mem_cons.mpr ⟨⟨?_, ?_⟩, hin⟩
    · simp only [hptr]
      omega
    · simp only [hptr]
      omega
  · rw [hblocks]
    refine List.forall_mem_cons.mpr ⟨?_, hal⟩
    rw [hptr]
    have hbase : 16 ∣ s.heap.region.base.toNat :=
      Nat.dvd_trans (by decide) s.heap.region.pageAligned
    exact Nat.dvd_add hbase hp.next_aligned
  · rw [hblocks]
    refine List.pairwise_cons.mpr ⟨fun b hb heq => ?_, hdist⟩
    have hlt := hp.lt_of_newest hnew b hb
    rw [← heq, hptr] at hlt
    exact Nat.lt_irrefl _ hlt
  · rw [hblocks]
    refine List.pairwise_cons.mpr ⟨fun b hb => ?_, hdisj⟩
    refine Set.Ico_disjoint_Ico.mpr ?_ |>.symm
    have hbelow := hp.below b hb
    simp only
    omega

theorem Packed.grant {size : BitVec 64} (hp : s.Packed) (hwrap : size.toNat + 15 < 2 ^ 64)
    (hfits : s.heap.fits size = true) (hnew : ∀ b ∈ s.blocks.head?, b.2 ≠ 0)
    (hheap : s'.heap = { s.heap with next := s.heap.next + Heap.aligned size })
    (hblocks : s'.blocks = (s.heap.region.base + s.heap.next, size) :: s.blocks) :
    s'.Packed := by
  have hptr := hp.toNat_ptr
  have hroom := Heap.fits_iff.mp hfits
  have haligned := Heap.toNat_aligned hwrap
  have hlen := s.heap.region.len.isLt
  have hnext : s'.heap.next.toNat = s.heap.next.toNat + (Heap.aligned size).toNat := by
    rw [hheap]
    exact BitVec.toNat_add_of_lt (by omega)
  have hregion : s'.heap.region = s.heap.region := by rw [hheap]
  constructor
  case sound => exact hp.sound_cons hnew (by omega) hregion hblocks
  case next_le => rw [hnext, hregion]; exact hroom
  case next_aligned =>
    rw [hnext, haligned]
    exact Nat.dvd_add hp.next_aligned (Nat.dvd_mul_left 16 _)
  case below =>
    rw [hblocks, hnext, hregion]
    refine List.forall_mem_cons.mpr ⟨by simp only [hptr]; omega, fun b hb => ?_⟩
    have := hp.below b hb
    omega
  case lt_of_newest =>
    intro hsize
    rw [hblocks] at hsize ⊢
    rw [hnext, hregion]
    have hpos : size.toNat ≠ 0 := fun h => hsize _ rfl (BitVec.eq_of_toNat_eq h)
    refine List.forall_mem_cons.mpr ⟨by simp only [hptr]; omega, fun b hb => ?_⟩
    have := hp.lt_of_newest hnew b hb
    omega
  case eq_of_newest =>
    intro b hb hsize
    rw [hblocks] at hb
    obtain rfl := Option.some.inj hb
    obtain rfl : size = 0 := hsize
    rw [hnext, hregion, hptr]
    rfl

/-- A request whose rounding wraps is always granted. -/
theorem Packed.fits_of_wraps {size : BitVec 64} (hp : s.Packed)
    (hwrap : ¬ size.toNat + 15 < 2 ^ 64) : s.heap.fits size = true := by
  rw [Heap.fits_iff, Heap.aligned_eq_zero (Nat.le_of_not_lt hwrap)]
  exact hp.next_le

/-- A call that leaves the blocks sound is proper. -/
theorem Packed.proper_of_sound (hp : s.Packed) (h : s.step c e = some s') (hs : s'.Sound) :
    s.Proper e := by
  intro size hreq
  rcases effect_of_step h with ⟨-, -, hrefused⟩ | ⟨size', hreq', hfits, hheap, hblocks⟩
  · have hfits := hrefused size hreq
    refine ⟨?_, fun hf => absurd hf (by simp [hfits])⟩
    by_contra hwrap
    exact absurd (hp.fits_of_wraps hwrap) (by simp [hfits])
  · obtain rfl : size = size' := Option.some.inj (hreq.symm.trans hreq')
    rw [hp.record_eq] at hblocks
    have hptr := hp.toNat_ptr
    constructor
    · -- A block this large does not fit into any arena.
      have hin := (hs.inside (s.heap.region.base + s.heap.next, size) (by simp [hblocks])).2
      have hspace := s'.heap.region.in_space
      have hbase := base_pos s
      simp only [hptr] at hin
      omega
    · intro _ b hb hempty
      have heq := hp.eq_of_newest b hb hempty
      have hdist := hs.distinct
      rw [hblocks] at hdist
      have hmem : b ∈ s.blocks := List.mem_of_mem_head? hb
      refine List.rel_of_pairwise_cons hdist hmem (BitVec.eq_of_toNat_eq ?_)
      rw [hptr, heq]

theorem Packed.step (hp : s.Packed) (h : s.step c e = some s') (hc : s.Proper e) : s'.Packed := by
  rcases effect_of_step h with ⟨hheap, hblocks, -⟩ | ⟨size, hreq, hfits, hheap, hblocks⟩
  · exact hp.congr hheap hblocks
  · obtain ⟨hwrap, hnew⟩ := hc size hreq
    rw [hp.record_eq] at hblocks
    exact hp.grant hwrap hfits (hnew hfits) hheap hblocks

end HeapState

/-- **Blocks of the heap.**  In every run of calls on the heap, the blocks handed out are sound at every
point exactly when no request wraps around in the rounding and no request is granted right after one
for zero bytes. -/
theorem heap_sound_iff (c : Bool) (region : Region) (mem : ByteMem) {es : List HeapCall}
    {s : HeapState} (hr : run (HeapState.step c) (.new region mem) es = some s) :
    (∀ es₁ es₂ s₁, es = es₁ ++ es₂ →
      run (HeapState.step c) (.new region mem) es₁ = some s₁ → s₁.Sound) ↔
      Meets (HeapState.step c) HeapState.Proper (.new region mem) es :=
  run_all_iff_of_invariant (fun _ hp => hp.sound)
    (fun _ _ _ hp h => ⟨hp.proper_of_sound h, hp.step h⟩) (HeapState.packed_new region mem) hr

/-- An arena of the default size at 4 GiB. -/
def arenaAt4GiB : Region where
  base := 0x100000000
  len := DEFAULT_HEAP_BYTES
  base_ne_zero := by decide
  pageAligned := by decide
  in_space := by decide

/-- A block of 100 zeroed bytes, and a larger one in its place. -/
theorem heap_sound_iff_grow :
    ∃ s, run (HeapState.step false) (.new arenaAt4GiB fun _ => 0)
        [.heapAlloc DEFAULT_HEAP_HANDLE HEAP_ZERO_MEMORY 100,
          .heapReAlloc DEFAULT_HEAP_HANDLE 0 0x100000000 200] = some s ∧
      s.blocks = [(0x100000070, 200), (0x100000000, 100)] ∧ s.Sound := by
  have hmeets : Meets (HeapState.step false) HeapState.Proper (.new arenaAt4GiB fun _ => 0)
      [.heapAlloc DEFAULT_HEAP_HANDLE HEAP_ZERO_MEMORY 100,
        .heapReAlloc DEFAULT_HEAP_HANDLE 0 0x100000000 200] := by
    refine (meets_cons_some rfl).mpr ⟨fun size hreq => ?_, (meets_cons_some rfl).mpr ⟨?_, trivial⟩⟩
    · obtain rfl := Option.some.inj hreq
      exact ⟨by decide, fun _ b hb => by cases hb⟩
    · intro size hreq
      obtain rfl := Option.some.inj hreq
      refine ⟨by decide, fun _ b hb => ?_⟩
      obtain rfl := Option.some.inj hb
      decide
  obtain ⟨s, hs, hb⟩ : ∃ s, run (HeapState.step false) (.new arenaAt4GiB fun _ => 0)
      [.heapAlloc DEFAULT_HEAP_HANDLE HEAP_ZERO_MEMORY 100,
        .heapReAlloc DEFAULT_HEAP_HANDLE 0 0x100000000 200] = some s ∧
      s.blocks = [(0x100000070, 200), (0x100000000, 100)] := ⟨_, rfl, rfl⟩
  exact ⟨s, hs, hb, (heap_sound_iff false arenaAt4GiB _ hs).mpr hmeets _ [] s rfl hs⟩

/-- Two requests for zero bytes get the same pointer. -/
theorem two_empty_blocks :
    ¬ ∀ (c : Bool) (region : Region) (mem : ByteMem) (es : List HeapCall) (s : HeapState),
      run (HeapState.step c) (.new region mem) es = some s → s.Sound := by
  intro h
  have hs := h true arenaAt4GiB (fun _ => 0)
    [.heapAlloc DEFAULT_HEAP_HANDLE 0 0, .heapAlloc DEFAULT_HEAP_HANDLE 0 0] _ rfl
  exact (List.pairwise_cons.mp hs.distinct).1 _ List.mem_cons_self rfl

end Quantum.Kernel32
