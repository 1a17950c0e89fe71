import Quantum.Loader.Protect

/-!
# Correctness of the protections

The ranges of two sections may meet in a page, and the later one wins: after `finalize_protections` a byte
has the protection of the last section whose rounded range has it (`finalizeProtections_at`).
`protections_iff` says when that is enough for every section.
-/

namespace Quantum.Loader

variable {protect : Nat → Nat → Protection → Protections → Except LoadError Protections}
  {base h a : Nat} {sections : List MappedSection} {prots prots' : Protections} {s : MappedSection}

/-- The kernel applies a protection to the whole pages of `h` bytes that the range touches. -/
def PageWise (h : Nat)
    (protect : Nat → Nat → Protection → Protections → Except LoadError Protections) : Prop :=
  ∀ addr len prot prots prots', 0 < len → protect addr len prot prots = .ok prots' →
    ∀ b, prots' b =
      if addr / h ≤ b / h ∧ b / h ≤ (addr + len - 1) / h then prot else prots b

/-- One protection has the rights of another. -/
def Protection.Allows (p q : Protection) : Prop :=
  q.bits &&& p.bits = q.bits

instance {p q : Protection} : Decidable (p.Allows q) :=
  inferInstanceAs (Decidable (_ = _))

/-- The bytes of a section. -/
def MappedSection.Contains (s : MappedSection) (a : Nat) : Prop :=
  s.rva.toNat ≤ a ∧ a < s.rva.toNat + max s.vsize.toNat s.rawSize.toNat

/-- The section has a byte on the page. -/
def MappedSection.Touches (s : MappedSection) (page : Nat) : Prop :=
  ∃ a, s.Contains a ∧ a / hostPageSize = page

/-- The page is in the rounded range of the section. -/
def MappedSection.Covers (s : MappedSection) (page : Nat) : Prop :=
  s.startRva / hostPageSize ≤ page ∧ page < s.endRva / hostPageSize

instance {page : Nat} : Decidable (s.Covers page) :=
  inferInstanceAs (Decidable (_ ∧ _))

/-- The last section whose rounded range has the page. -/
def lastCovering (sections : List MappedSection) (page : Nat) : Option MappedSection :=
  sections.reverse.find? fun s => s.Covers page

theorem hostPageSize_pos : 0 < hostPageSize := by
  decide

theorem startRva_eq (s : MappedSection) : s.startRva / hostPageSize * hostPageSize = s.startRva := by
  rw [MappedSection.startRva, Nat.mul_div_cancel _ hostPageSize_pos]

theorem endRva_eq (s : MappedSection) : s.endRva / hostPageSize * hostPageSize = s.endRva := by
  rw [MappedSection.endRva, alignUp, Nat.mul_div_cancel _ hostPageSize_pos]

/-- A page is covered if its bytes are in the rounded range. -/
theorem covers_iff : s.Covers (a / hostPageSize) ↔ s.startRva ≤ a ∧ a < s.endRva := by
  have hstart := startRva_eq s
  have hend := endRva_eq s
  rw [MappedSection.Covers, Nat.le_div_iff_mul_le hostPageSize_pos, hstart,
    Nat.div_lt_iff_lt_mul hostPageSize_pos, hend]

/-- The bytes of a section are in its rounded range. -/
theorem covers_of_contains (hc : s.Contains a) : s.Covers (a / hostPageSize) := by
  obtain ⟨hlow, hhigh⟩ := hc
  rw [covers_iff, MappedSection.startRva, MappedSection.endRva, alignUp, hostPageSize]
  omega

/-- Pages of the host's size are whole in a range that is aligned to them. -/
theorem page_in_range_iff {start stop b : Nat} (hpos : 0 < h) (hstart : h ∣ start) (hstop : h ∣ stop)
    (hlt : start < stop) :
    start / h ≤ b / h ∧ b / h ≤ (start + (stop - start) - 1) / h ↔ start ≤ b ∧ b < stop := by
  obtain ⟨k, rfl⟩ := hstart
  obtain ⟨l, rfl⟩ := hstop
  have hlast : (h * k + (h * l - h * k) - 1) / h = l - 1 := by
    rw [Nat.add_sub_of_le hlt.le]
    have hl : 0 < l := by
      by_contra hzero
      rw [Nat.eq_zero_of_not_pos hzero, Nat.mul_zero] at hlt
      omega
    obtain ⟨l, rfl⟩ : ∃ j, l = j + 1 := ⟨l - 1, by omega⟩
    rw [Nat.mul_add, Nat.mul_one, Nat.add_sub_assoc hpos, Nat.mul_add_div hpos,
      Nat.div_eq_of_lt (by omega), Nat.add_zero, Nat.add_sub_cancel]
  have hl : 0 < l := by
    by_contra hzero
    rw [Nat.eq_zero_of_not_pos hzero, Nat.mul_zero] at hlt
    omega
  rw [hlast, Nat.mul_div_cancel_left k hpos, Nat.le_div_iff_mul_le hpos, Nat.mul_comm k h]
  have hupper : b / h ≤ l - 1 ↔ b < h * l := by
    rw [Nat.le_sub_one_iff_lt hl, Nat.div_lt_iff_lt_mul hpos, Nat.mul_comm l h]
  rw [hupper]

/-- What one call of the kernel does to the bytes of the image. -/
theorem protect_at (hkernel : PageWise h protect) (hpos : 0 < h) (hbase : h ∣ base)
    (hpage : h ∣ hostPageSize) (hlen : s.startRva < s.endRva)
    (hok : protect (base + s.startRva) (s.endRva - s.startRva) s.protection prots = .ok prots')
    (a : Nat) :
    prots' (base + a) = if s.Covers (a / hostPageSize) then s.protection else prots (base + a) := by
  have hstart : h ∣ base + s.startRva :=
    Nat.dvd_add hbase (dvd_mul_of_dvd_right hpage _)
  have hend : h ∣ base + s.endRva :=
    Nat.dvd_add hbase (dvd_mul_of_dvd_right hpage _)
  have hrange := page_in_range_iff (b := base + a) hpos hstart hend (by omega)
  rw [show base + s.endRva - (base + s.startRva) = s.endRva - s.startRva by omega] at hrange
  have hcover : s.Covers (a / hostPageSize) ↔
      base + s.startRva ≤ base + a ∧ base + a < base + s.endRva := by
    rw [covers_iff]
    omega
  rw [hkernel _ _ _ _ _ (by omega) hok]
  simp only [hrange, hcover]

theorem lastCovering_cons (s : MappedSection) (sections : List MappedSection) (page : Nat) :
    lastCovering (s :: sections) page =
      (lastCovering sections page).or (if s.Covers page then some s else none) := by
  rw [lastCovering, List.reverse_cons, List.find?_append, lastCovering]
  by_cases hc : s.Covers page
  · rw [if_pos hc]
    simp only [List.find?_cons, decide_eq_true hc]
  · rw [if_neg hc]
    simp only [List.find?_cons, decide_eq_false hc, List.find?_nil]

/-- The protection of each byte afterwards. -/
theorem finalizeProtections_at (hkernel : PageWise h protect) (hpos : 0 < h) (hbase : h ∣ base)
    (hpage : h ∣ hostPageSize) :
    ∀ {sections : List MappedSection} {prots : Protections},
      finalizeProtections protect base sections prots = .ok prots' → ∀ a,
        prots' (base + a) = ((lastCovering sections (a / hostPageSize)).map MappedSection.protection).getD
          (prots (base + a)) := by
  intro sections
  induction sections with
  | nil =>
    intro prots hok a
    cases hok
    rfl
  | cons s sections ih =>
    intro prots hok a
    rw [finalizeProtections] at hok
    rw [lastCovering_cons]
    by_cases hlen : s.endRva - s.startRva = 0
    · rw [if_pos hlen] at hok
      have hnot : ¬ s.Covers (a / hostPageSize) := by
        rw [covers_iff]
        omega
      rw [if_neg hnot, Option.or_none]
      exact ih hok a
    · rw [if_neg hlen] at hok
      cases hstep : protect (base + s.startRva) (s.endRva - s.startRva) s.protection prots with
      | error e =>
        rw [hstep] at hok
        cases hok
      | ok prots₁ =>
        rw [hstep] at hok
        have hone := protect_at hkernel hpos hbase hpage (by omega) hstep a
        rw [ih hok a, hone]
        cases lastCovering sections (a / hostPageSize) with
        | some last => rfl
        | none =>
          by_cases hc : s.Covers (a / hostPageSize)
          · rw [if_pos hc, if_pos hc]
            rfl
          · rw [if_neg hc, if_neg hc]
            rfl

theorem exists_lastCovering (hs : s ∈ sections) {page : Nat} (hc : s.Covers page) :
    ∃ last, lastCovering sections page = some last := by
  cases hfind : lastCovering sections page with
  | some last => exact ⟨last, rfl⟩
  | none =>
    have hno := List.find?_eq_none.mp hfind s (List.mem_reverse.mpr hs)
    exact absurd (decide_eq_true hc) hno

/-- **Section protections.**  After `finalize_protections` every byte of every section has the rights that
the section demands, exactly if on every page that a section touches the last section whose rounded range
has the page demands them too. -/
theorem protections_iff (hkernel : PageWise h protect) (hpos : 0 < h) (hbase : h ∣ base)
    (hpage : h ∣ hostPageSize) (hok : finalizeProtections protect base sections prots = .ok prots') :
    (∀ s ∈ sections, ∀ a, s.Contains a → (prots' (base + a)).Allows s.protection) ↔
      ∀ s ∈ sections, ∀ page, s.Touches page → ∀ last, lastCovering sections page = some last →
        last.protection.Allows s.protection := by
  have hat := finalizeProtections_at hkernel hpos hbase hpage hok
  constructor
  · rintro hall s hs _ ⟨a, hc, rfl⟩ last hlast
    have hbyte := hall s hs a hc
    rw [hat a, hlast] at hbyte
    exact hbyte
  · intro hpages s hs a hc
    obtain ⟨last, hlast⟩ := exists_lastCovering hs (covers_of_contains hc)
    rw [hat a, hlast]
    exact hpages s hs _ ⟨a, hc, rfl⟩ last hlast

/-- A kernel with pages of `h` bytes. -/
def pageProtect (h addr len : Nat) (prot : Protection) (prots : Protections) :
    Except LoadError Protections :=
  .ok fun b => if addr / h ≤ b / h ∧ b / h ≤ (addr + len - 1) / h then prot else prots b

theorem pageWise_pageProtect (h : Nat) : PageWise h (pageProtect h) := by
  intro addr len prot prots prots' _ hok b
  rw [← Except.ok.inj hok]

/-- It never fails. -/
theorem exists_finalizeProtections (h base : Nat) (sections : List MappedSection) (prots : Protections) :
    ∃ prots', finalizeProtections (pageProtect h) base sections prots = .ok prots' := by
  induction sections generalizing prots with
  | nil => exact ⟨prots, rfl⟩
  | cons s sections ih =>
    rw [finalizeProtections]
    split
    · exact ih prots
    · exact ih _

/-- Code at 0x1000 and data at 0x2000, in one host page. -/
def codeSection : MappedSection :=
  ⟨[], 0x1000, 0x1000, 0x1000, 0x60000020⟩

def dataSection : MappedSection :=
  ⟨[], 0x2000, 0x1000, 0x1000, 0xC0000040⟩

theorem protections_iff_codeSection :
    ∃ prots', finalizeProtections (pageProtect hostPageSize) 0x140000000 [codeSection, dataSection]
        (fun _ => .RW) = .ok prots' ∧
      ((∀ s ∈ [codeSection, dataSection], ∀ a, s.Contains a →
          (prots' (0x140000000 + a)).Allows s.protection) ↔
        ∀ s ∈ [codeSection, dataSection], ∀ page, s.Touches page → ∀ last,
          lastCovering [codeSection, dataSection] page = some last →
            last.protection.Allows s.protection) := by
  obtain ⟨prots', hok⟩ := exists_finalizeProtections hostPageSize 0x140000000
    [codeSection, dataSection] fun _ => .RW
  have hbase : hostPageSize ∣ 0x140000000 := by decide
  exact ⟨prots', hok, protections_iff (pageWise_pageProtect hostPageSize) hostPageSize_pos hbase
    (dvd_refl hostPageSize) hok⟩

/-- The code can no longer be executed. -/
theorem codeSection_loses_execute :
    ∃ prots', finalizeProtections (pageProtect hostPageSize) 0x140000000 [codeSection, dataSection]
        (fun _ => .RW) = .ok prots' ∧
      codeSection.Contains 0x1000 ∧ codeSection.protection = .RX ∧
      prots' (0x140000000 + 0x1000) = .RW ∧
      ¬ (prots' (0x140000000 + 0x1000)).Allows codeSection.protection := by
  obtain ⟨prots', hok⟩ := exists_finalizeProtections hostPageSize 0x140000000
    [codeSection, dataSection] fun _ => .RW
  have hbase : hostPageSize ∣ 0x140000000 := by decide
  have hat := finalizeProtections_at (pageWise_pageProtect hostPageSize) hostPageSize_pos hbase
    (dvd_refl hostPageSize) hok 0x1000
  have hlast : lastCovering [codeSection, dataSection] (0x1000 / hostPageSize) = some dataSection := by
    decide
  have hprot : prots' (0x140000000 + 0x1000) = .RW := by
    rw [hat, hlast]
    decide
  refine ⟨prots', hok, ⟨by decide, by decide⟩, by decide, hprot, ?_⟩
  rw [hprot]
  decide

end Quantum.Loader
