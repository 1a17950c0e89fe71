import Mathlib.Data.List.Perm.Basic
import Quantum.Kernel32.Equiv.Heap
import Quantum.Kernel32.Vm
import Quantum.Lib.Machine

/-!
# Reserving and committing

A reservation already maps its pages, and a commit asks the kernel for the same pages at a fixed address.
`commit_refused`: in every run, no page range inside a region that is still reserved can be committed.

The invariant `Inv`: the pages of what is reserved are mapped, and only the release of a region unmaps them,
because the regions in the table have pages of their own.
-/

namespace Quantum.Kernel32.Vm

open Machine
open Loader (Protection hostPageSize)

/-! ### What a commit promises -/

/-- The range is what a `VirtualAlloc` with `MEM_RESERVE` has returned, and it has not been released since. -/
def Reserved (r : Range) : List Outcome → Prop
  | [] => False
  | .allocated size allocType base :: log =>
    (allocType &&& MEM_RESERVE ≠ 0 ∧ base ≠ 0 ∧ r = (base, size)) ∨ Reserved r log
  | .freed address freeType ret :: log =>
    ¬ (address = r.1 ∧ freeType &&& MEM_RELEASE ≠ 0 ∧ ret ≠ 0) ∧ Reserved r log

/-- The bytes from `address` up lie on the pages of the range. -/
def Inside (r : Range) (address size : BitVec 64) : Prop :=
  size ≠ 0 ∧ r.1.toNat ≤ address.toNat ∧
    address.toNat + size.toNat ≤ (r.1.toNat + r.2.toNat + hostPageSize - 1) / hostPageSize * hostPageSize

/-- The page of an address, by the page size of the guest. -/
def pageOf (address : BitVec 64) : BitVec 64 :=
  address &&& ~~~0xFFF

/-- The kernel can answer so that the call returns the page of the address, and what is on the mapped pages
stays there. -/
def VmState.Commits (v : VmState) (address size : BitVec 64) (allocType protect : BitVec 32) : Prop :=
  ∃ host v', v.virtualAlloc address size allocType protect host = some (v', pageOf address) ∧
    ∀ a : BitVec 64, v.space.mapped (a.toNat / hostPageSize) → v'.space.mem a = v.space.mem a

/-! ### Pages -/

theorem mem_pages {r : Range} {n : ℕ} :
    n ∈ pages r ↔ r.1.toNat / hostPageSize ≤ n ∧
      n < (r.1.toNat + r.2.toNat + hostPageSize - 1) / hostPageSize := by
  have hle : r.1.toNat / hostPageSize ≤ (r.1.toNat + r.2.toNat + hostPageSize - 1) / hostPageSize := by
    apply Nat.div_le_div_right
    have hpage : hostPageSize = 16384 := rfl
    omega
  rw [pages, List.mem_range'_1]
  omega

/-- An address behind the first page is not on it. -/
theorem pageOf_ne_zero {address : BitVec 64} (ha : hostPageSize ≤ address.toNat) : pageOf address ≠ 0 := by
  intro hzero
  have hsum : pageOf address + (address &&& 0xFFF) = address := and_not_add_and address 0xFFF
  rw [hzero] at hsum
  change 0#64 + _ = _ at hsum
  rw [BitVec.zero_add] at hsum
  have hlow : (address &&& 0xFFF).toNat ≤ 0xFFF := by
    rw [BitVec.toNat_and]
    exact Nat.and_le_right
  have hpage : hostPageSize = 16384 := rfl
  rw [hsum] at hlow
  omega

/-! ### The calls -/

section

variable {s s' : AddressSpace} {v v' : VmState} {address size base : BitVec 64}
  {allocType protect : BitVec 32} {host : HostAnswers} {r r' : Range} {n : ℕ}

theorem AddressSpace.mapped_map : (s.map r).mapped n = (decide (n ∈ pages r) || s.mapped n) :=
  rfl

theorem AddressSpace.mapped_unmap {rc : BitVec 32} (hn : s.mapped n) (hout : n ∉ pages r) :
    (s.unmap r rc).mapped n := by
  unfold AddressSpace.unmap
  split
  · simp [hn, hout]
  · exact hn

theorem AddressSpace.mapped_machVmProtect (prot : Protection) (kr : BitVec 32) :
    (s.machVmProtect r prot kr).mapped = s.mapped := by
  unfold AddressSpace.machVmProtect
  split
  · rfl
  · rfl

/-- What an allocation does to the mapped pages: it takes new ones, all of them if it succeeds. -/
theorem AddressSpace.allocate_spec {hint : Option (BitVec 64)} {prot : Protection}
    {res : Except HostError Range} (h : s.allocate hint size prot host = some (s', res)) :
    (∀ n, s.mapped n → s'.mapped n) ∧
      ∀ r, res = .ok r → r.1 ≠ 0 ∧ r.2 = size ∧ s.CanPlace r hint ∧ ∀ n ∈ pages r, s'.mapped n := by
  unfold AddressSpace.allocate AddressSpace.machVmAllocate at h
  cases ha : host.allocate with
  | error kr =>
    simp only [ha] at h
    by_cases hkr : kr = KERN_SUCCESS
    · rw [if_pos hkr] at h
      cases h
    · rw [if_neg hkr] at h
      cases h
      exact ⟨fun _ hn => hn, nofun⟩
  | ok addr =>
    simp only [ha] at h
    by_cases hplace : s.CanPlace (addr, size) hint
    · rw [if_pos hplace] at h
      dsimp only at h
      by_cases hprot : prot ≠ .RW ∧ host.protect ≠ KERN_SUCCESS
      · -- the new pages go away again, and only they
        rw [if_pos hprot] at h
        cases h
        refine ⟨fun n hn => ?_, nofun⟩
        have hfresh : n ∉ pages (addr, size) := by
          intro hin
          rw [hplace.2.2.1 n hin] at hn
          cases hn
        refine AddressSpace.mapped_unmap ?_ hfresh
        rw [AddressSpace.mapped_map, hn, Bool.or_true]
      · rw [if_neg hprot] at h
        have hmapped : (if prot ≠ .RW then
            (s.map (addr, size)).machVmProtect (addr, size) prot host.protect
            else s.map (addr, size)).mapped = (s.map (addr, size)).mapped := by
          split
          · exact AddressSpace.mapped_machVmProtect prot _
          · rfl
        have hmono : ∀ n, s.mapped n → (s.map (addr, size)).mapped n := by
          intro n hn
          rw [AddressSpace.mapped_map, hn, Bool.or_true]
        by_cases hnull : addr = 0
        · rw [if_pos hnull] at h
          cases h
          exact ⟨hmapped ▸ hmono, nofun⟩
        · rw [if_neg hnull] at h
          cases h
          refine ⟨hmapped ▸ hmono, ?_⟩
          rintro r ⟨⟩
          refine ⟨hnull, rfl, hplace, fun n hn => ?_⟩
          rw [hmapped, AddressSpace.mapped_map, decide_eq_true hn, Bool.true_or]
    · rw [if_neg hplace] at h
      cases h

/-- A call that allocates returns null and keeps the table, or it enters a new region on new pages. -/
theorem VmState.virtualAlloc_cases
    (h : v.virtualAlloc address size allocType protect host = some (v', base)) :
    (∀ n, v.space.mapped n → v'.space.mapped n) ∧
      ((base = 0 ∧ v'.regions = v.regions) ∨
        (base ≠ 0 ∧ v'.regions = v.regions ++ [(base, size)] ∧
          v.space.CanPlace (base, size) (if address = 0 then none else some address) ∧
          ∀ n ∈ pages (base, size), v'.space.mapped n)) := by
  unfold VmState.virtualAlloc at h
  by_cases hsize : size = 0
  · rw [if_pos hsize] at h
    cases h
    exact ⟨fun _ hn => hn, .inl ⟨rfl, rfl⟩⟩
  · by_cases htype : allocType &&& (MEM_RESERVE ||| MEM_COMMIT) = 0
    · rw [if_neg hsize, if_pos htype] at h
      cases h
      exact ⟨fun _ hn => hn, .inl ⟨rfl, rfl⟩⟩
    · rw [if_neg hsize, if_neg htype] at h
      cases ha : v.space.allocate (if address = 0 then none else some address) size
          (translateProtect protect) host with
      | none =>
        simp only [ha] at h
        cases h
      | some q =>
        obtain ⟨s', res⟩ := q
        obtain ⟨hmono, hok⟩ := AddressSpace.allocate_spec ha
        simp only [ha] at h
        cases res with
        | error e =>
          cases h
          exact ⟨hmono, .inl ⟨rfl, rfl⟩⟩
        | ok r =>
          cases h
          obtain ⟨hnull, rfl, hplace, hpages⟩ := hok r rfl
          exact ⟨hmono, .inr ⟨hnull, rfl, hplace, hpages⟩⟩

/-- Where the page of the address is mapped, the kernel refuses the allocation and the call returns null. -/
theorem VmState.virtualAlloc_of_mapped (hnull : address ≠ 0) (hsize : size ≠ 0)
    (hmapped : v.space.mapped (address.toNat / hostPageSize))
    (h : v.virtualAlloc address size allocType protect host = some (v', base)) : base = 0 := by
  rcases (VmState.virtualAlloc_cases h).2 with ⟨hbase, -⟩ | ⟨-, -, hplace, -⟩
  · exact hbase
  · rw [if_neg hnull] at hplace
    obtain ⟨-, -, hfresh, hfixed⟩ := hplace
    have hfirst : base.toNat = address.toNat / hostPageSize * hostPageSize := hfixed address rfl
    have hin : address.toNat / hostPageSize ∈ pages (base, size) := by
      have hpos : size.toNat ≠ 0 := fun h0 => hsize (BitVec.eq_of_toNat_eq h0)
      rw [mem_pages]
      dsimp only
      rw [hfirst]
      have hpage : hostPageSize = 16384 := rfl
      rw [hpage]
      omega
    rw [hfresh _ hin] at hmapped
    cases hmapped

theorem swapRemove_perm {α : Type} {l : List α} {i : ℕ} (hi : i < l.length) :
    (swapRemove l i).Perm (l.eraseIdx i) := by
  obtain ⟨init, last, rfl⟩ := List.eq_nil_or_concat' l |>.resolve_left (by
    rintro rfl
    cases hi)
  rw [List.length_append, List.length_singleton] at hi
  unfold swapRemove
  rw [List.getLast?_concat]
  dsimp only
  by_cases hlt : i < init.length
  · rw [List.set_append_left _ _ hlt, List.dropLast_concat, List.eraseIdx_append_of_lt_length hlt]
    exact (List.set_perm_cons_eraseIdx hlt last).trans (List.perm_append_singleton last _).symm
  · obtain rfl : i = init.length := by omega
    rw [List.set_append_right _ _ (Nat.le_refl _), List.eraseIdx_append_of_length_le (Nat.le_refl _)]
    simp

/-- A call that frees changes nothing, or it takes one region with the address out of the table and unmaps
its pages, if it returns 1. -/
theorem VmState.virtualFree_cases {freeType rc ret : BitVec 32}
    (h : v.virtualFree address size freeType rc = (v', ret)) :
    v' = v ∨ ∃ r, r.1 = address ∧ v.regions.Perm (r :: v'.regions) ∧ freeType &&& MEM_RELEASE ≠ 0 ∧
      ((rc = 0 ∧ ret = 1 ∧ ∀ n, v.space.mapped n → n ∉ pages r → v'.space.mapped n) ∨
        (ret = 0 ∧ v'.space = v.space)) := by
  unfold VmState.virtualFree at h
  by_cases hnull : address = 0
  · rw [if_pos hnull] at h
    cases h
    exact .inl rfl
  · by_cases htype : freeType &&& MEM_RELEASE = 0
    · rw [if_neg hnull, if_pos htype] at h
      cases h
      exact .inl rfl
    · rw [if_neg hnull, if_neg htype] at h
      cases hi : v.regions.findIdx? (·.1 == address) with
      | none =>
        simp only [hi] at h
        cases h
        exact .inl rfl
      | some i =>
        simp only [hi] at h
        cases h
        obtain ⟨hlt, hbase, -⟩ := List.findIdx?_eq_some_iff_getElem.mp hi
        have hbase : v.regions[i].1 = address := by simpa using hbase
        have hlen : (v.regions.getD i (0, 0)).2 = v.regions[i].2 := by
          rw [List.getD_eq_getElem?_getD, List.getElem?_eq_getElem hlt, Option.getD_some]
        refine .inr ⟨v.regions[i], hbase, ?_, htype, ?_⟩
        · exact (List.getElem_cons_eraseIdx_perm hlt).symm.trans
            (List.Perm.cons _ (swapRemove_perm hlt).symm)
        · have hrange : (address, v.regions[i].2) = v.regions[i] := by
            rw [← hbase]
          rw [hlen, hrange]
          by_cases hrc : rc = 0
          · exact .inl ⟨hrc, if_pos hrc, fun n hn hout => AddressSpace.mapped_unmap hn hout⟩
          · exact .inr ⟨if_neg hrc, if_neg hrc⟩

end

/-! ### Runs -/

section

variable {t t' : Traced} {r : Range}

/-- The pages of the regions and of what is reserved are mapped, and no two regions share a page. -/
structure Inv (t : Traced) : Prop where
  mapped : ∀ r ∈ t.vm.regions, ∀ n ∈ pages r, t.vm.space.mapped n
  disjoint : t.vm.regions.Pairwise fun r r' => (pages r).Disjoint (pages r')
  based : ∀ r, Reserved r t.log → r.1 ≠ 0 ∧ hostPageSize ∣ r.1.toNat
  held : ∀ r, Reserved r t.log → ∀ n ∈ pages r, t.vm.space.mapped n
  owned : ∀ r, Reserved r t.log →
    r ∈ t.vm.regions ∨ ∀ r' ∈ t.vm.regions, (pages r).Disjoint (pages r')

theorem inv_new (s : AddressSpace) : Inv (.new s) where
  mapped := nofun
  disjoint := .nil
  based := nofun
  held := nofun
  owned := nofun

/-- A region on new pages has no page of what was there. -/
theorem disjoint_of_canPlace {s : AddressSpace} {r r' : Range} {fixed : Option (BitVec 64)}
    (hplace : s.CanPlace r' fixed) (hmapped : ∀ n ∈ pages r, s.mapped n) :
    (pages r).Disjoint (pages r') := by
  intro n hn hn'
  have hold := hmapped n hn
  rw [hplace.2.2.1 n hn'] at hold
  cases hold

theorem Inv.allocated (hi : Inv t) {vm : VmState} {address size base : BitVec 64}
    {allocType protect : BitVec 32} {host : HostAnswers}
    (h : t.vm.virtualAlloc address size allocType protect host = some (vm, base)) :
    Inv ⟨vm, .allocated size allocType base :: t.log⟩ := by
  obtain ⟨hmono, hcases⟩ := VmState.virtualAlloc_cases h
  rcases hcases with ⟨hbase, hregions⟩ | ⟨hbase, hregions, hplace, hpages⟩
  · -- a refused call reserves nothing
    have hlog : ∀ r, Reserved r (.allocated size allocType base :: t.log) → Reserved r t.log := by
      rintro r (⟨-, hne, -⟩ | hr)
      · exact absurd hbase hne
      · exact hr
    constructor
    · intro r hr n hn
      exact hmono n (hi.mapped r (hregions ▸ hr) n hn)
    · dsimp only
      rw [hregions]
      exact hi.disjoint
    · exact fun r hr => hi.based r (hlog r hr)
    · exact fun r hr n hn => hmono n (hi.held r (hlog r hr) n hn)
    · dsimp only
      rw [hregions]
      exact fun r hr => hi.owned r (hlog r hr)
  · constructor
    · intro r hr n hn
      dsimp only at hr
      rw [hregions] at hr
      rcases List.mem_append.mp hr with hold | hnew
      · exact hmono n (hi.mapped r hold n hn)
      · rw [List.mem_singleton.mp hnew] at hn
        exact hpages n hn
    · dsimp only
      rw [hregions, List.pairwise_append]
      refine ⟨hi.disjoint, List.pairwise_singleton _ _, fun r hr r' hr' => ?_⟩
      rw [List.mem_singleton.mp hr']
      exact disjoint_of_canPlace hplace (hi.mapped r hr)
    · rintro r (⟨-, -, rfl⟩ | hr)
      · exact ⟨hbase, hplace.1⟩
      · exact hi.based r hr
    · rintro r (⟨-, -, rfl⟩ | hr)
      · exact hpages
      · exact fun n hn => hmono n (hi.held r hr n hn)
    · dsimp only
      rw [hregions]
      rintro r (⟨-, -, rfl⟩ | hr)
      · exact .inl (List.mem_append_right _ (List.mem_singleton_self _))
      · rcases hi.owned r hr with hin | hout
        · exact .inl (List.mem_append_left _ hin)
        · right
          intro r' hr'
          rcases List.mem_append.mp hr' with hold | hnew
          · exact hout r' hold
          · rw [List.mem_singleton.mp hnew]
            exact disjoint_of_canPlace hplace (hi.held r hr)

theorem Inv.freed (hi : Inv t) {vm : VmState} {address size : BitVec 64} {freeType rc ret : BitVec 32}
    (h : t.vm.virtualFree address size freeType rc = (vm, ret)) :
    Inv ⟨vm, .freed address freeType ret :: t.log⟩ := by
  rcases VmState.virtualFree_cases h with rfl | ⟨r₀, rfl, hperm, htype, hspace⟩
  · exact ⟨hi.mapped, hi.disjoint, fun r hr => hi.based r hr.2, fun r hr => hi.held r hr.2,
      fun r hr => hi.owned r hr.2⟩
  · have hpair : (r₀ :: vm.regions).Pairwise fun r r' => (pages r).Disjoint (pages r') :=
      (hperm.pairwise_iff fun h => h.symm).mp hi.disjoint
    obtain ⟨hfirst, hrest⟩ := List.pairwise_cons.mp hpair
    have hsub : ∀ r ∈ vm.regions, r ∈ t.vm.regions :=
      fun r hr => hperm.mem_iff.mpr (List.mem_cons_of_mem _ hr)
    -- what is mapped off the region stays mapped
    have hstays : ∀ r, (pages r).Disjoint (pages r₀) → (∀ n ∈ pages r, t.vm.space.mapped n) →
        ∀ n ∈ pages r, vm.space.mapped n := by
      intro r hdisj hmapped n hn
      rcases hspace with ⟨-, -, hkeeps⟩ | ⟨-, hsame⟩
      · exact hkeeps n (hmapped n hn) (hdisj hn)
      · rw [hsame]
        exact hmapped n hn
    -- what is still reserved is not the region, unless `munmap` has failed
    have hother : ∀ r, Reserved r (.freed r₀.1 freeType ret :: t.log) →
        (pages r).Disjoint (pages r₀) ∨ (r = r₀ ∧ vm.space = t.vm.space) := by
      rintro r ⟨hkept, hr⟩
      rcases hi.owned r hr with hin | hout
      · rcases List.mem_cons.mp (hperm.mem_iff.mp hin) with rfl | hmem
        · right
          rcases hspace with ⟨-, hret, -⟩ | ⟨-, hsame⟩
          · exact absurd ⟨rfl, htype, by rw [hret]; decide⟩ hkept
          · exact ⟨rfl, hsame⟩
        · exact .inl (hfirst r hmem).symm
      · exact .inl (hout r₀ (hperm.mem_iff.mpr List.mem_cons_self))
    constructor
    · exact fun r hr => hstays r (hfirst r hr).symm (hi.mapped r (hsub r hr))
    · exact hrest
    · exact fun r hr => hi.based r hr.2
    · intro r hr
      rcases hother r hr with hdisj | ⟨-, hsame⟩
      · exact hstays r hdisj (hi.held r hr.2)
      · dsimp only
        rw [hsame]
        exact hi.held r hr.2
    · intro r hr
      rcases hother r hr with hdisj | ⟨rfl, -⟩
      · rcases hi.owned r hr.2 with hin | hout
        · rcases List.mem_cons.mp (hperm.mem_iff.mp hin) with rfl | hmem
          · exact .inr hfirst
          · exact .inl hmem
        · exact .inr fun r' hr' => hout r' (hsub r' hr')
      · exact .inr hfirst

theorem Inv.step (hi : Inv t) {c : Call} (h : t.step c = some t') : Inv t' := by
  cases c with
  | virtualAlloc address size allocType protect host =>
    obtain ⟨⟨vm, base⟩, ha, rfl⟩ := Option.map_eq_some_iff.mp h
    exact hi.allocated ha
  | virtualFree address size freeType rc =>
    obtain rfl := Option.some.inj h
    exact @Inv.freed t hi _ address size freeType rc _ rfl

theorem inv_of_run {s : AddressSpace} {cs : List Call} (hr : run Traced.step (.new s) cs = some t) : Inv t :=
  run_induction (C := fun _ _ => True) (fun _ _ _ hi _ h => hi.step h) (inv_new s) (meets_true _ _) hr

end

/-- **Reserving and committing.**  In every run, the commit of a page range inside a region that is still
reserved is refused. -/
theorem commit_refused {s : AddressSpace} {cs : List Call} {t : Traced}
    (hr : run Traced.step (.new s) cs = some t) {r : Range} (hreserved : Reserved r t.log)
    {address size : BitVec 64} (hinside : Inside r address size) (allocType protect : BitVec 32) :
    ¬ t.vm.Commits address size allocType protect := by
  have hi := inv_of_run hr
  obtain ⟨hne, hdvd⟩ := hi.based r hreserved
  obtain ⟨hsize, hlow, hhigh⟩ := hinside
  have hpage : hostPageSize = 16384 := rfl
  have hbase : hostPageSize ≤ r.1.toNat := by
    have hpos : r.1.toNat ≠ 0 := fun h0 => hne (BitVec.eq_of_toNat_eq h0)
    exact Nat.le_of_dvd (Nat.pos_of_ne_zero hpos) hdvd
  have hnull : address ≠ 0 := by
    rintro rfl
    have hle := hbase.trans hlow
    cases hle
  have hin : address.toNat / hostPageSize ∈ pages r := by
    have hpos : size.toNat ≠ 0 := fun h0 => hsize (BitVec.eq_of_toNat_eq h0)
    refine mem_pages.mpr ⟨Nat.div_le_div_right hlow, ?_⟩
    rw [Nat.div_lt_iff_lt_mul (by decide)]
    omega
  rintro ⟨host, v', hcall, -⟩
  have hzero := VmState.virtualAlloc_of_mapped hnull hsize (hi.held r hreserved _ hin) hcall
  exact pageOf_ne_zero (hbase.trans hlow) hzero

/-- An allocation that the kernel grants. -/
theorem AddressSpace.allocate_of_canPlace {s : AddressSpace} {hint : Option (BitVec 64)}
    {addr size : BitVec 64} (hplace : s.CanPlace (addr, size) hint) (hnull : addr ≠ 0) (p d : BitVec 32) :
    s.allocate hint size .RW ⟨.ok addr, p, d⟩ = some (s.map (addr, size), .ok (addr, size)) := by
  simp only [AddressSpace.allocate, AddressSpace.machVmAllocate, if_pos hplace, ne_eq, not_true, false_and,
    if_false, if_neg hnull]

theorem VmState.virtualAlloc_of_canPlace {v : VmState} {addr size : BitVec 64} {allocType protect : BitVec 32}
    (hsize : size ≠ 0) (htype : allocType &&& (MEM_RESERVE ||| MEM_COMMIT) ≠ 0)
    (hprot : translateProtect protect = .RW) (hplace : v.space.CanPlace (addr, size) none) (hnull : addr ≠ 0)
    (p d : BitVec 32) :
    v.virtualAlloc 0 size allocType protect ⟨.ok addr, p, d⟩ =
      some (⟨v.space.map (addr, size), v.regions ++ [(addr, size)]⟩, addr) := by
  simp only [VmState.virtualAlloc, if_neg hsize, if_neg htype, hprot,
    AddressSpace.allocate_of_canPlace hplace hnull, if_true]

/-- An address space without pages. -/
def emptySpace : AddressSpace := ⟨fun _ => false, fun _ => .NONE, fun _ => 0⟩

/-- 64 KiB, where the kernel places them. -/
def arena : Range := (0x10000000, 0x10000)

theorem canPlace_arena : emptySpace.CanPlace arena none :=
  ⟨by decide, by decide, fun _ _ => rfl, nofun⟩

def reserveArena : List Call :=
  [.virtualAlloc 0 arena.2 MEM_RESERVE PAGE_READWRITE ⟨.ok arena.1, KERN_SUCCESS, KERN_SUCCESS⟩]

def arenaReserved : Traced :=
  ⟨⟨emptySpace.map arena, [] ++ [arena]⟩, [.allocated arena.2 MEM_RESERVE arena.1]⟩

theorem run_reserveArena : run Traced.step (.new emptySpace) reserveArena = some arenaReserved := by
  refine run_cons.mpr ⟨arenaReserved, ?_, rfl⟩
  rw [Traced.step, Traced.new]
  rw [VmState.virtualAlloc_of_canPlace (by decide) (by decide) (by decide) canPlace_arena (by decide)]
  rfl

theorem reserved_arena : Reserved arena arenaReserved.log :=
  .inl ⟨by decide, by decide, rfl⟩

theorem inside_arena : Inside arena 0x10004000 0x1000 := by
  unfold Inside
  decide

theorem commit_refused_arena : ¬ arenaReserved.vm.Commits 0x10004000 0x1000 MEM_COMMIT PAGE_READWRITE :=
  commit_refused run_reserveArena reserved_arena inside_arena _ _

theorem arena_not_committed : ¬ ∀ s cs t r address size protect,
    run Traced.step (.new s) cs = some t → Reserved r t.log → Inside r address size →
    t.vm.Commits address size MEM_COMMIT protect := by
  intro h
  obtain ⟨host, v', hcall, -⟩ := h emptySpace reserveArena arenaReserved arena 0x10004000 0x1000
    PAGE_READWRITE run_reserveArena reserved_arena inside_arena
  have hzero := VmState.virtualAlloc_of_mapped (by decide) (by decide) (by decide) hcall
  revert hzero
  decide

end Quantum.Kernel32.Vm
