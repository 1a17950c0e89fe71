import Quantum.Kernel32.Sockaddr

/-!
# The guest's socket addresses

The two layouts keep the family in different bytes, so the translation must not be made twice: after the
first call the guest's buffer has the host's layout, and the next call takes its length for the family.
`addressKept_iff`: the buffer survives exactly when no call of a sequence translates at all.
-/

namespace Quantum.Kernel32.Socket

/-! ### What the calls promise -/

/-- The host's layout of a Windows address: the length, the low byte of the family, and the rest. -/
def bsdLayout (mem : ByteMem) (addr : BitVec 64) (len : BitVec 32) : ByteMem := fun a =>
  if a = addr then BitVec.ofNat 8 (min len.toNat 255) else if a = addr + 1 then mem addr else mem a

/-- Every call of the sequence passes the address in the host's layout, the guest has its memory back in the
end, and a translation there and back changes nothing. -/
structure AddressKept (s : State) (addr : BitVec 64) (cs : List (Call × HostResult)) : Prop where
  passes : ∀ call ∈ (s.calls cs).2, 2 ≤ call.len → call.mem = bsdLayout s.mem addr call.len
  restores : (s.calls cs).1.mem = s.mem
  roundTrip : ∀ len, rewriteBsdSaForWin addr len (rewriteWinSaForBsd addr len s.mem) = s.mem

/-! ### Translations -/

section

variable {mem : ByteMem} {addr : BitVec 64} {len : BitVec 32}

theorem succ_ne (addr : BitVec 64) : addr + 1 ≠ addr := by
  intro h
  have hzero : (1 : BitVec 64) = 0 := by
    rw [← BitVec.add_right_inj addr, h]
    exact (BitVec.add_zero addr).symm
  cases hzero

theorem rewriteWinSaForBsd_of_lt (hlen : len < 2) : rewriteWinSaForBsd addr len mem = mem :=
  if_pos (.inr hlen)

theorem rewriteWinSaForBsd_eq (haddr : addr ≠ 0) (hlen : 2 ≤ len) :
    rewriteWinSaForBsd addr len mem = bsdLayout mem addr len := by
  have hskip : ¬ (addr = 0 ∨ len < 2) := by
    rintro (h | h)
    · exact haddr h
    · exact absurd hlen (BitVec.not_le.mpr h)
  rw [rewriteWinSaForBsd, if_neg hskip]
  funext a
  unfold bsdLayout
  by_cases hfam : a = addr + 1
  · subst hfam
    rw [Function.update_self, if_neg (succ_ne addr), if_pos rfl]
  · rw [Function.update_of_ne hfam, if_neg hfam]
    by_cases haddr : a = addr
    · rw [haddr, Function.update_self, if_pos rfl]
    · rw [Function.update_of_ne haddr, if_neg haddr]

/-- There and back: the family is in its place again, and the byte above it is zero. -/
theorem rewriteBsdSaForWin_rewriteWinSaForBsd (hfam : mem (addr + 1) = 0) (len : BitVec 32) :
    rewriteBsdSaForWin addr len (rewriteWinSaForBsd addr len mem) = mem := by
  by_cases hskip : addr = 0 ∨ len < 2
  · rw [rewriteBsdSaForWin, if_pos hskip, rewriteWinSaForBsd, if_pos hskip]
  · obtain ⟨haddr, hlen⟩ := not_or.mp hskip
    rw [rewriteWinSaForBsd_eq haddr (BitVec.not_lt.mp hlen), rewriteBsdSaForWin, if_neg hskip]
    funext a
    by_cases hhigh : a = addr + 1
    · rw [hhigh, Function.update_self, hfam]
    · rw [Function.update_of_ne hhigh]
      by_cases hlow : a = addr
      · rw [hlow, Function.update_self, bsdLayout, if_neg (succ_ne addr), if_pos rfl]
      · rw [Function.update_of_ne hlow, bsdLayout, if_neg hlow, if_neg hhigh]

end

/-! ### Sequences of calls -/

section

variable {s : State} {addr : BitVec 64}

/-- A call shows the host the memory that it leaves behind: the translated one. -/
theorem call_mem (s : State) (host : HostResult) (c : Call) :
    (s.call host c).1.mem = rewriteWinSaForBsd c.addr c.len s.mem ∧
      (s.call host c).2.1.mem = rewriteWinSaForBsd c.addr c.len s.mem ∧ (s.call host c).2.1.len = c.len := by
  have hnamed : ∀ (s : State) (call : HostCall), (s.named call host).1.mem = s.mem ∧
      (s.named call host).2.1 = call := by
    intro s call
    unfold State.named
    split
    · exact ⟨rfl, rfl⟩
    · exact ⟨rfl, rfl⟩
  cases c with
  | bind sock addr len =>
    obtain ⟨hmem, hcall⟩ := hnamed { s with mem := rewriteWinSaForBsd addr len s.mem }
      ⟨"bind", sock.setWidth 32, none, addr, len, rewriteWinSaForBsd addr len s.mem⟩
    exact ⟨hmem, congrArg HostCall.mem hcall, congrArg HostCall.len hcall⟩
  | connect sock addr len =>
    obtain ⟨hmem, hcall⟩ := hnamed { s with mem := rewriteWinSaForBsd addr len s.mem }
      ⟨"connect", sock.setWidth 32, none, addr, len, rewriteWinSaForBsd addr len s.mem⟩
    exact ⟨hmem, congrArg HostCall.mem hcall, congrArg HostCall.len hcall⟩
  | sendto sock buf len flags dest tolen =>
    simp only [State.call, Call.addr, Call.len]
    split
    · exact ⟨rfl, rfl, rfl⟩
    · exact ⟨rfl, rfl, rfl⟩

/-- Calls with short addresses translate nothing. -/
theorem calls_mem_of_lt {cs : List (Call × HostResult)} (hcs : ∀ c ∈ cs, c.1.len < 2) :
    (s.calls cs).1.mem = s.mem ∧ ∀ call ∈ (s.calls cs).2, call.len < 2 := by
  induction cs generalizing s with
  | nil => exact ⟨rfl, nofun⟩
  | cons c cs ih =>
    obtain ⟨c, host⟩ := c
    rw [List.forall_mem_cons] at hcs
    obtain ⟨hstate, -, hlen⟩ := call_mem s host c
    obtain ⟨hmem, hcalls⟩ := @ih (s.call host c).1 hcs.2
    constructor
    · change ((s.call host c).1.calls cs).1.mem = s.mem
      rw [hmem, hstate, rewriteWinSaForBsd_of_lt hcs.1]
    · change ∀ call ∈ (s.call host c).2.1 :: ((s.call host c).1.calls cs).2, call.len < 2
      rw [List.forall_mem_cons, hlen]
      exact ⟨hcs.1, hcalls⟩

/-- The buffer has been translated, once or more often: it starts with a length, and the family of the guest
or an earlier length is behind it. -/
def Translated (fam : BitVec 8) (addr : BitVec 64) (mem : ByteMem) : Prop :=
  mem addr ≠ 0 ∧ (mem (addr + 1) = fam ∨ mem (addr + 1) ≠ 0)

/-- One translation, of the guest's layout or of a translated one. -/
theorem translated_rewrite {mem : ByteMem} {fam : BitVec 8} {len : BitVec 32} (haddr : addr ≠ 0)
    (hlen : 2 ≤ len) (h : mem addr = fam ∨ Translated fam addr mem) :
    Translated fam addr (rewriteWinSaForBsd addr len mem) := by
  rw [rewriteWinSaForBsd_eq haddr hlen]
  unfold Translated bsdLayout
  rw [if_pos rfl, if_neg (succ_ne addr), if_pos rfl]
  constructor
  · intro hzero
    have hnat := congrArg BitVec.toNat hzero
    rw [BitVec.toNat_ofNat] at hnat
    have hle : 2 ≤ len.toNat := hlen
    have hsmall : min len.toNat 255 < 2 ^ 8 := by omega
    rw [Nat.mod_eq_of_lt hsmall] at hnat
    change min len.toNat 255 = 0 at hnat
    omega
  · rcases h with hfam | h
    · exact .inl hfam
    · exact .inr h.1

theorem translated_call {fam : BitVec 8} {c : Call} (haddr : addr ≠ 0) (hc : c.addr = addr)
    (host : HostResult) (h : Translated fam addr s.mem ∨ (s.mem addr = fam ∧ 2 ≤ c.len)) :
    Translated fam addr (s.call host c).1.mem := by
  rw [(call_mem s host c).1, hc]
  by_cases hlen : c.len < 2
  · rw [rewriteWinSaForBsd_of_lt hlen]
    exact h.resolve_right fun h => absurd h.2 (BitVec.not_le.mpr hlen)
  · refine translated_rewrite haddr (BitVec.not_lt.mp hlen) ?_
    rcases h with h | h
    · exact .inr h
    · exact .inl h.1

theorem translated_calls {fam : BitVec 8} {cs : List (Call × HostResult)} (haddr : addr ≠ 0)
    (hcs : ∀ c ∈ cs, c.1.addr = addr)
    (h : Translated fam addr s.mem ∨ (s.mem addr = fam ∧ ∃ c ∈ cs, 2 ≤ c.1.len)) :
    Translated fam addr (s.calls cs).1.mem := by
  induction cs generalizing s with
  | nil => exact h.resolve_right (by simp)
  | cons c cs ih =>
    obtain ⟨c, host⟩ := c
    rw [List.forall_mem_cons] at hcs
    change Translated fam addr ((s.call host c).1.calls cs).1.mem
    refine ih hcs.2 ?_
    rcases h with h | ⟨hfam, d, hd, hlen⟩
    · exact .inl (translated_call haddr hcs.1 host (.inl h))
    · by_cases hfirst : 2 ≤ c.len
      · exact .inl (translated_call haddr hcs.1 host (.inr ⟨hfam, hfirst⟩))
      · -- a short address: the first translation is still to come
        have hd : d ∈ cs := by
          rcases List.mem_cons.mp hd with rfl | hd
          · exact absurd hlen hfirst
          · exact hd
        rw [(call_mem s host c).1, rewriteWinSaForBsd_of_lt (BitVec.not_le.mp hfirst)]
        exact .inr ⟨hfam, d, hd, hlen⟩

/-- A translated buffer is not what the guest had. -/
theorem Translated.ne {mem mem' : ByteMem} (h : Translated (mem addr) addr mem') (hfam : mem (addr + 1) = 0) :
    mem' ≠ mem := by
  rintro rfl
  rcases h with ⟨hlow, hhigh | hhigh⟩
  · exact hlow (hhigh.symm.trans hfam)
  · exact hhigh hfam

/-- The second of two calls takes the length of the first for the family. -/
theorem family_of_second {c d : Call} (haddr : addr ≠ 0) (hc : c.addr = addr) (hd : d.addr = addr)
    (hclen : 2 ≤ c.len) (hdlen : 2 ≤ d.len) (host host' : HostResult) :
    ((s.call host c).1.call host' d).2.1.mem (addr + 1) = BitVec.ofNat 8 (min c.len.toNat 255) := by
  rw [(call_mem _ host' d).2.1, (call_mem s host c).1, hc, hd, rewriteWinSaForBsd_eq haddr hclen,
    rewriteWinSaForBsd_eq haddr hdlen, bsdLayout, if_neg (succ_ne addr), if_pos rfl, bsdLayout, if_pos rfl]

end

/-- **Socket addresses.**  A sequence of calls with one buffer keeps the buffer, and passes it rightly, exactly
when none of the calls translates it: all lengths are 0 or 1. -/
theorem addressKept_iff {s : State} {addr : BitVec 64} {cs : List (Call × HostResult)} (haddr : addr ≠ 0)
    (hfam : s.mem (addr + 1) = 0) (hcs : ∀ c ∈ cs, c.1.addr = addr) :
    AddressKept s addr cs ↔ ∀ c ∈ cs, c.1.len < 2 := by
  constructor
  · intro h
    by_contra hlong
    push Not at hlong
    obtain ⟨c, hc, hlen⟩ := hlong
    have hone : ∃ c ∈ cs, 2 ≤ c.1.len := ⟨c, hc, BitVec.not_lt.mp hlen⟩
    exact (translated_calls haddr hcs (.inr ⟨rfl, hone⟩)).ne hfam h.restores
  · intro hshort
    obtain ⟨hmem, hcalls⟩ := @calls_mem_of_lt s cs hshort
    refine ⟨fun call hcall hlen => ?_, hmem, rewriteBsdSaForWin_rewriteWinSaForBsd hfam⟩
    exact absurd hlen (BitVec.not_le.mpr (hcalls call hcall))

/-- A `sockaddr_in` at 0x1000 in a memory of zeros. -/
def inetAt0x1000 : State := ⟨Function.update (fun _ => 0) 0x1000 2, 0⟩

def connectTwice : List (Call × HostResult) :=
  [(.connect 3 0x1000 16, ⟨0, 0⟩), (.connect 4 0x1000 16, ⟨0, 0⟩)]

theorem addressKept_iff_connectTwice :
    AddressKept inetAt0x1000 0x1000 connectTwice ↔ ∀ c ∈ connectTwice, c.1.len < 2 :=
  addressKept_iff (by decide) (by decide) (by decide)

theorem not_addressKept_connectTwice : ¬ ∀ s addr cs, addr ≠ 0 → State.mem s (addr + 1) = 0 →
    (∀ c ∈ cs, Call.addr (Prod.fst c) = addr) → AddressKept s addr cs := by
  intro h
  have hlow := congrFun (h inetAt0x1000 0x1000 connectTwice (by decide) (by decide) (by decide)).restores 0x1000
  revert hlow
  decide

end Quantum.Kernel32.Socket
