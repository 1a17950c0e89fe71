import Quantum.Kernel32.Equiv.Heap

/-!
# The contents of a reallocated block

The heap keeps no sizes, so `HeapReAlloc` copies as many bytes as the new block has.  `reallocRight_iff` says
when that is right, after any run of calls and with anything in memory: the new block may not be larger than
the old one, and its bytes must lie below the bump pointer in the old one.  They do unless the old request
was so large that its rounding wrapped around.
-/

namespace Quantum.Kernel32

open Machine

/-! ### The copy -/

structure HeapCopy where
  src : BitVec 64
  dst : BitVec 64
  len : BitVec 64

namespace HeapState

/-- The copy that a call of `HeapReAlloc` makes, if it gets that far. -/
def reallocCopy (c : Bool) (s : HeapState) (handle : BitVec 64) (flags : BitVec 32) (ptr size : BitVec 64) :
    Option HeapCopy :=
  if handle ≠ DEFAULT_HEAP_HANDLE then none
  else
    match s.heap.alloc c s.mem size (flags &&& HEAP_ZERO_MEMORY != 0) with
    | none => none
    | some (_, _, newPtr) => if ptr ≠ 0 ∧ newPtr ≠ 0 then some ⟨ptr, newPtr, size⟩ else none

/-- The guest has written to memory. -/
def written (s : HeapState) (mem : ByteMem) : HeapState :=
  { s with mem }

/-- `HeapReAlloc` of a block of `m` bytes at `p` to `n` bytes at `q`, from `s` to `s'`, keeps the contents. -/
structure ReallocRight (c : Bool) (s s' : HeapState) (handle : BitVec 64) (flags : BitVec 32)
    (p m n q : BitVec 64) : Prop where
  kept : ∀ i : BitVec 64, i.toNat < min m.toNat n.toNat → s'.mem (q + i) = s.mem (p + i)
  /-- The copy reads bytes of the old block only. -/
  reads : ∀ cp, s.reallocCopy c handle flags p n = some cp →
    ∀ a, InRange cp.src cp.len.toNat a → InRange p m.toNat a
  disjoint : ∀ cp, s.reallocCopy c handle flags p n = some cp →
    Disjoint64 cp.src cp.len.toNat cp.dst cp.len.toNat
  zeroed : flags &&& HEAP_ZERO_MEMORY ≠ 0 →
    ∀ i : BitVec 64, m.toNat ≤ i.toNat → i.toNat < n.toNat → s'.mem (q + i) = 0

/-! ### Blocks and the bump pointer -/

/-- Blocks start in the arena, not above the bump pointer.  Every call keeps this, even one that wraps. -/
structure Bumped (s : HeapState) : Prop where
  next_le : s.heap.next.toNat ≤ s.heap.region.len.toNat
  base_le : ∀ b ∈ s.blocks, s.heap.region.base.toNat ≤ b.1.toNat
  le_next : ∀ b ∈ s.blocks, b.1.toNat ≤ s.heap.region.base.toNat + s.heap.next.toNat

variable {c : Bool} {s s' : HeapState}

theorem bumped_new (region : Region) (mem : ByteMem) : (new region mem).Bumped where
  next_le := Nat.zero_le _
  base_le := by simp [new]
  le_next := by simp [new]

theorem Bumped.toNat_ptr (hb : s.Bumped) : (s.heap.region.base + s.heap.next).toNat =
    s.heap.region.base.toNat + s.heap.next.toNat := by
  have hspace := s.heap.region.in_space
  have hnext := hb.next_le
  exact BitVec.toNat_add_of_lt (by omega)

theorem Bumped.step {e : HeapCall} (hb : s.Bumped) (h : s.step c e = some s') : s'.Bumped := by
  rcases effect_of_step h with ⟨hheap, hblocks, -⟩ | ⟨size, -, hfits, hheap, hblocks⟩
  · refine ⟨?_, ?_, ?_⟩
    · rw [hheap]
      exact hb.next_le
    · rw [hheap, hblocks]
      exact hb.base_le
    · rw [hheap, hblocks]
      exact hb.le_next
  · have hptr := hb.toNat_ptr
    have hroom := Heap.fits_iff.mp hfits
    have hlen := s.heap.region.len.isLt
    have hregion : s'.heap.region = s.heap.region := by rw [hheap]
    have hnext : s'.heap.next.toNat = s.heap.next.toNat + (Heap.aligned size).toNat := by
      rw [hheap]
      exact BitVec.toNat_add_of_lt (by omega)
    have hmem : ∀ b ∈ s'.blocks, b = (s.heap.region.base + s.heap.next, size) ∨ b ∈ s.blocks := by
      intro b hmem
      rw [hblocks, record] at hmem
      split at hmem
      · exact .inr hmem
      · exact List.mem_cons.mp hmem
    refine ⟨?_, fun b hmem' => ?_, fun b hmem' => ?_⟩
    · rw [hnext, hregion]
      exact hroom
    · rw [hregion]
      rcases hmem b hmem' with rfl | hold
      · dsimp only
        omega
      · exact hb.base_le b hold
    · rw [hnext, hregion]
      rcases hmem b hmem' with rfl | hold
      · dsimp only
        omega
      · have := hb.le_next b hold
        omega

theorem bumped_of_run {region : Region} {mem : ByteMem} {es : List HeapCall}
    (hr : run (HeapState.step c) (.new region mem) es = some s) : s.Bumped :=
  run_invariant (fun _ _ _ hb h => hb.step h) (bumped_new region mem) hr

/-! ### One call -/

theorem mem_of_alloc {zero : Bool} {h h' : Heap} {mem mem' : ByteMem} {size ptr : BitVec 64}
    (ha : h.alloc c mem size zero = some (h', mem', ptr)) (hptr : ptr ≠ 0) :
    h.fits size = true ∧ ptr = h.region.base + h.next ∧
      mem' = if zero then zeroBytes mem ptr (Heap.aligned size) else mem := by
  rcases Heap.alloc_cases ha with ⟨-, -, hnull⟩ | ⟨hfits, -, rfl⟩
  · exact absurd hnull hptr
  · unfold Heap.alloc at ha
    split at ha
    · cases ha
    · simp only [Option.some.injEq, Prod.mk.injEq] at ha
      exact ⟨hfits, rfl, ha.2.1.symm⟩

/-- A call that hands out a block: what it has left in memory, and the copy. -/
theorem heapReAlloc_ok {handle p n q : BitVec 64} {flags : BitVec 32} (hp : p ≠ 0) (hq : q ≠ 0)
    (h : s.heapReAlloc c handle flags p n = some (s', q)) :
    s.heap.fits n = true ∧ q = s.heap.region.base + s.heap.next ∧
      s.reallocCopy c handle flags p n = some ⟨p, q, n⟩ ∧
      s'.mem = copyBytes (if flags &&& HEAP_ZERO_MEMORY != 0 then zeroBytes s.mem q (Heap.aligned n) else s.mem)
        p q n := by
  unfold heapReAlloc at h
  by_cases hh : handle = DEFAULT_HEAP_HANDLE
  · rw [if_neg (not_not.mpr hh)] at h
    rw [reallocCopy, if_neg (not_not.mpr hh)]
    cases ha : s.heap.alloc c s.mem n (flags &&& HEAP_ZERO_MEMORY != 0) with
    | none =>
      rw [ha] at h
      cases h
    | some r =>
      obtain ⟨heap, mem, newPtr⟩ := r
      simp only [ha, Option.some.injEq, Prod.mk.injEq] at h
      obtain ⟨rfl, rfl⟩ := h
      obtain ⟨hfits, hptr, rfl⟩ := mem_of_alloc ha hq
      exact ⟨hfits, hptr, if_pos ⟨hp, hq⟩, if_pos ⟨hp, hq⟩⟩
  · rw [if_pos hh, Option.some.injEq, Prod.mk.injEq] at h
    exact absurd h.2.symm hq

/-- What a call does when the source ends below the bump pointer. -/
theorem Bumped.reallocRight {handle p m n q : BitVec 64} {flags : BitVec 32} (hb : s.Bumped)
    (hbase : s.heap.region.base.toNat ≤ p.toNat) (hq : q ≠ 0)
    (h : s.heapReAlloc c handle flags p n = some (s', q)) (hle : n.toNat ≤ m.toNat)
    (hbelow : p.toNat + n.toNat ≤ s.heap.region.base.toNat + s.heap.next.toNat) :
    ReallocRight c s s' handle flags p m n q := by
  have hpos := Packed.base_pos s
  have hspace := s.heap.region.in_space
  have hnext := hb.next_le
  have hp : p ≠ 0 := by
    rintro rfl
    simp only [BitVec.ofNat_eq_ofNat, BitVec.toNat_ofNat, Nat.zero_mod] at hbase
    omega
  obtain ⟨hfits, hqeq, hcopy, hmem⟩ := heapReAlloc_ok hp hq h
  have hroom := Heap.fits_iff.mp hfits
  have hqn : q.toNat = s.heap.region.base.toNat + s.heap.next.toNat := hqeq ▸ hb.toNat_ptr
  have hwrap : n.toNat + 15 < 2 ^ 64 := by omega
  have haligned := Heap.toNat_aligned hwrap
  refine ⟨fun i hi => ?_, fun cp hcp a ha => ?_, fun cp hcp a ha => ?_, fun _ i hmi hin => ?_⟩
  · have hoff : q + i - q = i := by rw [BitVec.add_comm, BitVec.add_sub_cancel]
    have hin : InRange q n.toNat (q + i) := by
      rw [InRange, hoff]
      omega
    rw [hmem, copyBytes, if_pos hin, hoff]
    -- the source lies below the bytes that are zeroed
    have hout : ¬ InRange q (Heap.aligned n).toNat (p + i) := by
      rw [InRange, BitVec.toNat_sub, BitVec.toNat_add, hqn]
      have := p.isLt
      omega
    split_ifs
    · rw [zeroBytes, if_neg hout]
    · rfl
  · rw [hcopy] at hcp
    cases hcp
    exact lt_of_lt_of_le ha hle
  · rw [hcopy] at hcp
    cases hcp
    intro hdst
    dsimp only at ha hdst
    rw [InRange, BitVec.toNat_sub] at ha hdst
    have := a.isLt
    omega
  · omega

end HeapState

/-- **Contents of a reallocated block.**  After any run of heap calls, and whatever the guest has written,
`HeapReAlloc` of a block keeps its contents exactly when the new size is at most the old one and that many
bytes of the old block lie below the bump pointer. -/
theorem reallocRight_iff (c : Bool) (region : Region) (mem mem' : ByteMem) {es : List HeapCall}
    {s₀ s' : HeapState} (hr : run (HeapState.step c) (.new region mem) es = some s₀) {p m : BitVec 64}
    (hlive : (p, m) ∈ s₀.blocks) {handle n q : BitVec 64} {flags : BitVec 32} (hq : q ≠ 0)
    (h : (s₀.written mem').heapReAlloc c handle flags p n = some (s', q)) :
    HeapState.ReallocRight c (s₀.written mem') s' handle flags p m n q ↔
      n.toNat ≤ m.toNat ∧ p.toNat + n.toNat ≤ s₀.heap.region.base.toNat + s₀.heap.next.toNat := by
  obtain ⟨hnext, hbase, hbelow⟩ := HeapState.bumped_of_run hr
  have hb : (s₀.written mem').Bumped := ⟨hnext, hbase, hbelow⟩
  constructor
  · intro hright
    have hpos := HeapState.Packed.base_pos s₀
    have hpbase := hbase _ hlive
    have hpnext := hbelow _ hlive
    have hp : p ≠ 0 := by
      rintro rfl
      simp only [BitVec.ofNat_eq_ofNat, BitVec.toNat_ofNat, Nat.zero_mod] at hpbase
      omega
    obtain ⟨-, hqeq, hcopy, -⟩ := HeapState.heapReAlloc_ok hp hq h
    have hqn : q.toNat = s₀.heap.region.base.toNat + s₀.heap.next.toNat := hqeq ▸ hb.toNat_ptr
    have hm := m.isLt
    constructor
    · -- the byte behind the old block is not read
      by_contra hlt
      have hsub : p + m - p = m := by rw [BitVec.add_comm, BitVec.add_sub_cancel]
      have hread := hright.reads _ hcopy (p + m) (by
        show (p + m - p).toNat < n.toNat
        rw [hsub]
        omega)
      rw [InRange, hsub] at hread
      omega
    · -- the first byte of the new block is not read
      by_contra hlt
      dsimp only at hpnext
      refine hright.disjoint _ hcopy q ?_ ?_
      · show (q - p).toNat < n.toNat
        rw [BitVec.toNat_sub]
        have := q.isLt
        omega
      · show (q - q).toNat < n.toNat
        rw [BitVec.sub_self]
        show 0 < n.toNat
        omega
  · rintro ⟨hle, hend⟩
    exact hb.reallocRight (hbase _ hlive) hq h hle hend

/-- A block of 100 bytes cut to 40. -/
theorem reallocRight_iff_shrink :
    ∃ s₀ s', run (HeapState.step true) (.new arenaAt4GiB fun _ => 0)
        [.heapAlloc DEFAULT_HEAP_HANDLE 0 100] = some s₀ ∧
      (s₀.written fun a => a.setWidth 8).heapReAlloc true DEFAULT_HEAP_HANDLE 0 0x100000000 40
        = some (s', 0x100000070) ∧
      HeapState.ReallocRight true (s₀.written fun a => a.setWidth 8) s' DEFAULT_HEAP_HANDLE 0 0x100000000 100 40
        0x100000070 := by
  obtain ⟨s₀, hrun, hblocks, hheap⟩ : ∃ s₀, run (HeapState.step true) (.new arenaAt4GiB fun _ => 0)
      [.heapAlloc DEFAULT_HEAP_HANDLE 0 100] = some s₀ ∧ s₀.blocks = [(0x100000000, 100)] ∧
      s₀.heap = ⟨arenaAt4GiB, 112⟩ := ⟨_, rfl, rfl, rfl⟩
  obtain ⟨s', hcall⟩ : ∃ s', (s₀.written fun a => a.setWidth 8).heapReAlloc true DEFAULT_HEAP_HANDLE 0
      0x100000000 40 = some (s', 0x100000070) := by
    obtain rfl := Option.some.inj hrun
    exact ⟨_, rfl⟩
  have hlive : (0x100000000#64, 100#64) ∈ s₀.blocks := by
    rw [hblocks]
    exact List.mem_singleton.mpr rfl
  refine ⟨s₀, s', hrun, hcall, (reallocRight_iff true arenaAt4GiB _ _ hrun hlive (by decide) hcall).mpr ?_⟩
  rw [hheap]
  decide

/-- A block of 100 bytes grown to 200, without overflow checks: the copy reads the 100 bytes behind it. -/
theorem grown_block_reads_past :
    ∃ s₀ s', run (HeapState.step false) (.new arenaAt4GiB fun _ => 0)
        [.heapAlloc DEFAULT_HEAP_HANDLE 0 100] = some s₀ ∧ (0x100000000, 100) ∈ s₀.blocks ∧
      s₀.heapReAlloc false DEFAULT_HEAP_HANDLE 0 0x100000000 200 = some (s', 0x100000070) ∧
      ¬ HeapState.ReallocRight false s₀ s' DEFAULT_HEAP_HANDLE 0 0x100000000 100 200 0x100000070 := by
  refine ⟨_, _, rfl, List.mem_singleton.mpr rfl, rfl, fun hright => ?_⟩
  have hread := hright.reads _ rfl 0x100000064 (by decide)
  exact absurd hread (by decide)

end Quantum.Kernel32
