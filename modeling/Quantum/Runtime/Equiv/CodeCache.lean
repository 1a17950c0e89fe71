import Mathlib.Order.CompletePartialOrder
import Mathlib.Order.Interval.Set.Disjoint
import Quantum.Runtime.CodeCache

/-!
# Installed code stays where it is

Over every sequence of installs, the blocks lie in the cache, one after the other, on instruction
boundaries; nothing that is installed later touches their bytes; and the block map knows the newest
block of every guest address (`install_integrity`).  An install that does not fit changes nothing.
-/

namespace Quantum.Runtime

open ByteMem

/-! ### The bump offset -/

theorem toNat_and_three (x : BitVec 64) : (x &&& 3).toNat = x.toNat % 4 := by
  rw [BitVec.toNat_and]
  exact Nat.and_two_pow_sub_one_eq_mod _ 2

theorem CodeCache.toNat_pad (x : BitVec 64) : (pad x).toNat = (4 - x.toNat % 4) % 4 := by
  have hlow := toNat_and_three x
  have hlt : (x &&& 3).toNat < 4 := by omega
  have hle : x &&& 3 ≤ (4 : BitVec 64) := by
    rw [BitVec.le_def]
    exact hlt.le
  rw [pad, toNat_and_three, BitVec.toNat_sub_of_le hle, hlow]
  rfl

/-- With the padding, the offset is rounded up to a multiple of four. -/
theorem CodeCache.toNat_add_pad {x : BitVec 64} (hx : x.toNat < 2 ^ 63) :
    (x + pad x).toNat = (x.toNat + 3) / 4 * 4 := by
  have hpad := toNat_pad x
  rw [BitVec.toNat_add_of_lt (by omega)]
  omega

namespace CodeCache

variable {c : CodeCache} {s : Slice}

/-- The end of an install does not wrap around. -/
theorem toNat_used_add_len (hused : c.used.toNat ≤ c.region.len.toNat) :
    (c.used + s.len).toNat = c.used.toNat + s.bytes.length := by
  have hregion := c.region.len_lt
  have hslice := s.length_lt
  have hlen : s.len.toNat = s.bytes.length := by
    rw [Slice.len, BitVec.toNat_ofNat]
    exact Nat.mod_eq_of_lt (by omega)
  rw [BitVec.toNat_add_of_lt (by omega), hlen]

theorem toNat_ptr (hused : c.used.toNat ≤ c.region.len.toNat) :
    (c.region.base + c.used).toNat = c.region.base.toNat + c.used.toNat := by
  have hspace := c.region.in_space
  exact BitVec.toNat_add_of_lt (by omega)

/-- An install is refused when it does not fit, and changes nothing then. -/
theorem install_of_oversize (mem : ByteMem) (hused : c.used.toNat ≤ c.region.len.toNat)
    (h : c.region.len.toNat < c.used.toNat + s.bytes.length) :
    c.install mem s = (.error (.host "codecache:install (oversize)" 0), c, mem) := by
  apply if_pos
  rw [gt_iff_lt, BitVec.lt_def, toNat_used_add_len hused]
  exact h

/-- Otherwise the bytes go to the bump offset. -/
theorem install_of_fits (mem : ByteMem) (hused : c.used.toNat ≤ c.region.len.toNat)
    (h : c.used.toNat + s.bytes.length ≤ c.region.len.toNat) :
    c.install mem s =
      (.ok (c.region.base + c.used),
        { c with used := c.used + s.len + pad (c.used + s.len) },
        mem.storeBytes (c.region.base + c.used) s.bytes) := by
  apply if_neg
  rw [gt_iff_lt, BitVec.lt_def, toNat_used_add_len hused]
  omega

end CodeCache

/-! ### The history of a cache -/

/-- A block that was installed. -/
structure Installed where
  rip : BitVec 64
  ptr : BitVec 64
  code : Slice

/-- The addresses of a block. -/
def Installed.range (b : Installed) : Set ℕ :=
  Set.Ico b.ptr.toNat (b.ptr.toNat + b.code.bytes.length)

/-- A dispatcher, and the blocks whose install was successful, the newest first. -/
structure History where
  dispatcher : Dispatcher
  blocks : List Installed

namespace History

/-- One call of `install`. -/
def step (s : History) (call : BitVec 64 × Slice) : History :=
  match s.dispatcher.install call.1 call.2 with
  | (.ok ptr, d) => ⟨d, ⟨call.1, ptr, call.2⟩ :: s.blocks⟩
  | (.error _, d) => ⟨d, s.blocks⟩

/-- A sequence of calls on a new dispatcher. -/
def installAll (region : JitRegion) (mem : ByteMem) (calls : List (BitVec 64 × Slice)) : History :=
  calls.foldl step ⟨.new region mem, []⟩

structure Integrity (region : JitRegion) (s : History) : Prop where
  inside : ∀ b ∈ s.blocks, region.base.toNat ≤ b.ptr.toNat ∧
    b.ptr.toNat + b.code.bytes.length ≤ region.base.toNat + region.len.toNat
  aligned : ∀ b ∈ s.blocks, 4 ∣ b.ptr.toNat
  disjoint : s.blocks.Pairwise fun b b' => Disjoint b.range b'.range
  intact : ∀ b ∈ s.blocks, BytesAt s.dispatcher.mem b.ptr b.code.bytes
  /-- The newest block of an address counts; an address without one is not in the map. -/
  lookup : ∀ rip, s.dispatcher.lookup rip = (s.blocks.find? fun b => b.rip == rip).map Installed.ptr

/-- The blocks against the bump offset. -/
structure Packed (region : JitRegion) (s : History) : Prop where
  integrity : s.Integrity region
  region_eq : s.dispatcher.codeCache.region = region
  used_le : s.dispatcher.codeCache.used.toNat ≤ region.len.toNat
  used_aligned : 4 ∣ s.dispatcher.codeCache.used.toNat
  below : ∀ b ∈ s.blocks, b.ptr.toNat + b.code.bytes.length ≤
    region.base.toNat + s.dispatcher.codeCache.used.toNat

variable {region : JitRegion} {s : History} {mem : ByteMem} {rip : BitVec 64} {code : Slice}

theorem packed_new (region : JitRegion) (mem : ByteMem) : Packed region ⟨.new region mem, []⟩ where
  integrity := ⟨by simp, by simp, .nil, by simp, fun _ => rfl⟩
  region_eq := rfl
  used_le := Nat.zero_le _
  used_aligned := dvd_zero 4
  below := by simp

/-- Nothing changes when there is no room. -/
theorem Packed.install_error (hp : s.Packed region)
    (h : region.len.toNat < s.dispatcher.codeCache.used.toNat + code.bytes.length) :
    s.dispatcher.install rip code =
      (.error (.host "codecache:install (oversize)" 0), s.dispatcher) := by
  have hused := hp.used_le
  rw [← hp.region_eq] at hused h
  rw [Dispatcher.install, CodeCache.install_of_oversize _ hused h]

/-- The dispatcher after an install at the bump offset. -/
def installed (d : Dispatcher) (rip : BitVec 64) (code : Slice) : Dispatcher where
  codeCache :=
    { d.codeCache with
      used := d.codeCache.used + code.len + CodeCache.pad (d.codeCache.used + code.len) }
  blockMap := Function.update d.blockMap rip (some (d.codeCache.region.base + d.codeCache.used))
  mem := d.mem.storeBytes (d.codeCache.region.base + d.codeCache.used) code.bytes

theorem Packed.install_ok (hp : s.Packed region)
    (h : s.dispatcher.codeCache.used.toNat + code.bytes.length ≤ region.len.toNat) :
    s.dispatcher.install rip code =
      (.ok (region.base + s.dispatcher.codeCache.used), installed s.dispatcher rip code) := by
  have hused := hp.used_le
  rw [← hp.region_eq] at hused h ⊢
  rw [Dispatcher.install, CodeCache.install_of_fits _ hused h]
  rfl

theorem Packed.toNat_ptr (hp : s.Packed region) :
    (region.base + s.dispatcher.codeCache.used).toNat =
      region.base.toNat + s.dispatcher.codeCache.used.toNat := by
  have hused := hp.used_le
  rw [← hp.region_eq] at hused ⊢
  exact CodeCache.toNat_ptr hused

/-- Ranges of naturals that are disjoint are so as ranges of addresses. -/
theorem disjoint64_of_le {a b : BitVec 64} {n k : ℕ} (h : a.toNat + n ≤ b.toNat)
    (hb : b.toNat + k < 2 ^ 64) : Disjoint64 a n b k := by
  intro c ha hc
  have h₁ := toNat_sub_add c a (b - a)
  have hsub : (b - a).toNat = b.toNat - a.toNat := by
    apply BitVec.toNat_sub_of_le
    rw [BitVec.le_def]
    omega
  rw [BitVec.add_comm, BitVec.sub_add_cancel, hsub] at h₁
  rw [InRange] at ha hc
  omega

theorem Packed.integrity_cons (hp : s.Packed region)
    (hroom : s.dispatcher.codeCache.used.toNat + code.bytes.length ≤ region.len.toNat) :
    Integrity region ⟨installed s.dispatcher rip code,
      ⟨rip, region.base + s.dispatcher.codeCache.used, code⟩ :: s.blocks⟩ := by
  have hptr := hp.toNat_ptr
  have hspace := region.in_space
  obtain ⟨hin, hal, hdisj, hintact, hlookup⟩ := hp.integrity
  constructor
  case inside =>
    refine List.forall_mem_cons.mpr ⟨⟨?_, ?_⟩, hin⟩
    · simp only [hptr]
      omega
    · simp only [hptr]
      omega
  case aligned =>
    refine List.forall_mem_cons.mpr ⟨?_, hal⟩
    have hbase : 4 ∣ region.base.toNat := Nat.dvd_trans (by decide) region.pageAligned
    rw [hptr]
    exact Nat.dvd_add hbase hp.used_aligned
  case disjoint =>
    refine List.pairwise_cons.mpr ⟨fun b hb => ?_, hdisj⟩
    have hbelow := hp.below b hb
    apply Disjoint.symm
    apply Set.Ico_disjoint_Ico.mpr
    simp only [hptr]
    omega
  case intact =>
    simp only [installed, hp.region_eq]
    refine List.forall_mem_cons.mpr ⟨bytesAt_storeBytes _ _ _, fun b hb => ?_⟩
    -- Every earlier block ends at the bump offset or before it.
    apply (hintact b hb).storeBytes
    apply disjoint64_of_le
    · rw [hptr]
      exact hp.below b hb
    · rw [hptr]
      omega
  case lookup =>
    intro rip'
    have hold := hlookup rip'
    rw [Dispatcher.lookup] at hold
    simp only [Dispatcher.lookup, installed, hp.region_eq, List.find?_cons]
    by_cases h : rip = rip'
    · subst h
      simp
    · have hne : (rip == rip') = false := beq_eq_false_iff_ne.mpr h
      rw [Function.update_of_ne (Ne.symm h), hold, hne]

theorem Packed.step (hregion : 4 ∣ region.len.toNat) (hp : s.Packed region) (rip : BitVec 64)
    (code : Slice) : (s.step (rip, code)).Packed region := by
  rcases Nat.lt_or_ge region.len.toNat
    (s.dispatcher.codeCache.used.toNat + code.bytes.length) with hlt | hroom
  · rw [History.step, hp.install_error hlt]
    exact hp
  · rw [History.step, hp.install_ok hroom]
    have hlen := region.len_lt
    have hptr := hp.toNat_ptr
    have hused := hp.used_le
    rw [← hp.region_eq] at hused
    have hend := CodeCache.toNat_used_add_len (s := code) hused
    have hnew : (installed s.dispatcher rip code).codeCache.used.toNat =
        (s.dispatcher.codeCache.used.toNat + code.bytes.length + 3) / 4 * 4 := by
      rw [installed, CodeCache.toNat_add_pad (by omega), hend]
    constructor
    case integrity => exact hp.integrity_cons hroom
    case region_eq => exact hp.region_eq
    case used_le =>
      -- The region ends on an instruction boundary, so the padding stays inside it.
      rw [hnew]
      omega
    case used_aligned =>
      rw [hnew]
      exact Nat.dvd_mul_left 4 _
    case below =>
      simp only [hnew]
      refine List.forall_mem_cons.mpr ⟨by simp only [hptr]; omega, fun b hb => ?_⟩
      have hbelow := hp.below b hb
      omega

theorem packed_installAll (hregion : 4 ∣ region.len.toNat) (mem : ByteMem)
    (calls : List (BitVec 64 × Slice)) : (installAll region mem calls).Packed region :=
  List.foldlRecOn calls step (packed_new region mem)
    fun _ hp call _ => hp.step hregion call.1 call.2

/-- An install that fails leaves the dispatcher as it was. -/
theorem Packed.install_of_error (hp : s.Packed region) {e : HostError}
    (h : (s.dispatcher.install rip code).1 = .error e) :
    (s.dispatcher.install rip code).2 = s.dispatcher := by
  rcases Nat.lt_or_ge region.len.toNat
    (s.dispatcher.codeCache.used.toNat + code.bytes.length) with hlt | hroom
  · rw [hp.install_error hlt]
  · rw [hp.install_ok hroom] at h
    cases h

end History

open History

/-- **Integrity of the code cache.**  After any sequence of installs on a cache whose length is a
multiple of four, the installed blocks lie in the region, on instruction boundaries, disjoint from one
another and with the bytes they were installed with; the map leads to the newest block of each address;
and a further install that fails changes nothing. -/
theorem install_integrity (region : JitRegion) (hregion : 4 ∣ region.len.toNat) (mem : ByteMem)
    (calls : List (BitVec 64 × Slice)) :
    (installAll region mem calls).Integrity region ∧
      ∀ rip code e, ((installAll region mem calls).dispatcher.install rip code).1 = .error e →
        ((installAll region mem calls).dispatcher.install rip code).2 =
          (installAll region mem calls).dispatcher := by
  have hp := packed_installAll hregion mem calls
  constructor
  · exact hp.integrity
  · intro rip code e h
    exact hp.install_of_error h

theorem threeWords_ne_zero : 0x100000000#64 ≠ 0 := by
  decide

theorem dvd_threeWords : 4096 ∣ (0x100000000#64).toNat := by
  decide

/-- A region of three words at 4 GiB. -/
def threeWords : JitRegion where
  base := 0x100000000
  len := 12
  base_ne_zero := threeWords_ne_zero
  pageAligned := dvd_threeWords
  in_space := by decide
  len_lt := by decide

/-- Five bytes, a block that is too large by one byte, an empty block, and a word at the address of the
first. -/
def threeWordsCalls : List (BitVec 64 × Slice) :=
  [(0x1000, ⟨[1, 2, 3, 4, 5], by decide⟩), (0x2000, ⟨[1, 2, 3, 4, 5], by decide⟩),
    (0x3000, ⟨[], by decide⟩), (0x1000, ⟨[6, 7, 8, 9], by decide⟩)]

/-- The cache is full to its last byte after them. -/
theorem install_integrity_threeWords :
    (installAll threeWords (fun _ => 0) threeWordsCalls).Integrity threeWords ∧
      (installAll threeWords (fun _ => 0) threeWordsCalls).blocks.map
        (fun b => (b.rip, b.ptr, b.code.bytes)) =
        [(0x1000, 0x100000008, [6, 7, 8, 9]), (0x3000, 0x100000008, []),
          (0x1000, 0x100000000, [1, 2, 3, 4, 5])] ∧
      (installAll threeWords (fun _ => 0) threeWordsCalls).dispatcher.codeCache.used = 12 :=
  ⟨(install_integrity threeWords (by decide) _ _).1, by decide, by decide⟩

end Quantum.Runtime
