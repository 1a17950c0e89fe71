import Quantum.Loader.Load

/-!
# Correctness of `load`

The memory of an image that `load` has mapped: the headers, the sections and zeros elsewhere
(`load_spec`).  Every copy is described by the byte it leaves at an offset of the region
(`copyNonoverlapping_apply`, `writeBytes_apply`), so a section is a function of the offset, and the
loop over the sections changes an offset only in the section that covers it.
-/

namespace Quantum.Loader

/-! ### Offsets -/

/-- The distance of two offsets from the same base. -/
theorem toNat_offset_sub (base : BitVec 64) {i d : Nat} (hi : i < 2 ^ 63) (hd : d < 2 ^ 63) :
    ((base + BitVec.ofNat 64 i) - (base + BitVec.ofNat 64 d)).toNat =
      if d ≤ i then i - d else 2 ^ 64 - (d - i) := by
  have hsub : (base + BitVec.ofNat 64 i) - (base + BitVec.ofNat 64 d) =
      BitVec.ofNat 64 i - BitVec.ofNat 64 d := by ring
  rw [hsub, BitVec.toNat_sub, BitVec.toNat_ofNat, BitVec.toNat_ofNat]
  split <;> omega

theorem copyNonoverlapping_apply (mem : ByteMem) (src : Bytes) (base : BitVec 64) {i d : Nat}
    (hi : i < 2 ^ 63) (hd : d < 2 ^ 63) (hs : src.length < 2 ^ 63) :
    copyNonoverlapping mem src (base + BitVec.ofNat 64 d) (base + BitVec.ofNat 64 i) =
      if d ≤ i ∧ i < d + src.length then src.getD (i - d) 0 else mem (base + BitVec.ofNat 64 i) := by
  rw [copyNonoverlapping, toNat_offset_sub base hi hd]
  by_cases hdi : d ≤ i
  · simp only [hdi, if_true, true_and]
    by_cases hlt : i < d + src.length
    · rw [if_pos hlt, if_pos (by omega)]
    · rw [if_neg hlt, if_neg (by omega)]
  · simp only [hdi, if_false, false_and]
    rw [if_neg (by omega)]

theorem writeBytes_apply (mem : ByteMem) (val : BitVec 8) {count : Nat} (base : BitVec 64)
    {i d : Nat} (hi : i < 2 ^ 63) (hd : d < 2 ^ 63) (hc : count < 2 ^ 63) :
    writeBytes mem (base + BitVec.ofNat 64 d) val count (base + BitVec.ofNat 64 i) =
      if d ≤ i ∧ i < d + count then val else mem (base + BitVec.ofNat 64 i) := by
  rw [writeBytes, toNat_offset_sub base hi hd]
  by_cases hdi : d ≤ i
  · simp only [hdi, if_true, true_and]
    by_cases hlt : i < d + count
    · rw [if_pos hlt, if_pos (by omega)]
    · rw [if_neg hlt, if_neg (by omega)]
  · simp only [hdi, if_false, false_and]
    rw [if_neg (by omega)]

/-- Part of a region lies in it. -/
theorem inRange_of_part {base a : BitVec 64} {d n len : Nat} (hlen : len < 2 ^ 63)
    (hd : d + n ≤ len) (h : (a - (base + BitVec.ofNat 64 d)).toNat < n) : InRange base len a := by
  have hsub := ByteMem.toNat_sub_add a base (BitVec.ofNat 64 d)
  rw [BitVec.toNat_ofNat, Nat.mod_eq_of_lt (show d < 2 ^ 64 by omega)] at hsub
  rw [InRange, hsub]
  omega

/-- A memory that is like `mem` outside a region. -/
def OnlyWrites (base : BitVec 64) (len : Nat) (mem mem' : ByteMem) : Prop :=
  ∀ a, ¬ InRange base len a → mem' a = mem a

theorem OnlyWrites.refl (base : BitVec 64) (len : Nat) (mem : ByteMem) :
    OnlyWrites base len mem mem :=
  fun _ _ => rfl

theorem OnlyWrites.trans {base : BitVec 64} {len : Nat} {m₁ m₂ m₃ : ByteMem}
    (h : OnlyWrites base len m₁ m₂) (h' : OnlyWrites base len m₂ m₃) : OnlyWrites base len m₁ m₃ :=
  fun a ha => (h' a ha).trans (h a ha)

theorem onlyWrites_copyNonoverlapping (mem : ByteMem) (src : Bytes) (base : BitVec 64) (d : Nat)
    {len : Nat} (hlen : len < 2 ^ 63) (hd : d + src.length ≤ len) :
    OnlyWrites base len mem (copyNonoverlapping mem src (base + BitVec.ofNat 64 d)) := by
  intro a ha
  rw [copyNonoverlapping, if_neg]
  exact fun hlt => ha (inRange_of_part hlen hd hlt)

theorem onlyWrites_writeBytes (mem : ByteMem) (val : BitVec 8) {count : Nat} (base : BitVec 64)
    (d : Nat) {len : Nat} (hlen : len < 2 ^ 63) (hd : d + count ≤ len) :
    OnlyWrites base len mem (writeBytes mem (base + BitVec.ofNat 64 d) val count) := by
  intro a ha
  rw [writeBytes, if_neg]
  exact fun hlt => ha (inRange_of_part hlen hd hlt)

/-! ### Headers -/

theorem copyHeaders_apply (mem : ByteMem) (raw : Bytes) {headersLen : Nat} (region : Region)
    {i : Nat} (hi : i < 2 ^ 63) (hh : headersLen < 2 ^ 63) :
    copyHeaders mem raw headersLen region (region.base + BitVec.ofNat 64 i) =
      if i < headersLen then raw.getD i 0 else mem (region.base + BitVec.ofNat 64 i) := by
  have hlen : (raw.take (min headersLen raw.length)).length = min headersLen raw.length := by
    rw [List.length_take]
    omega
  have hcopy : copyNonoverlapping mem (raw.take (min headersLen raw.length)) region.base
      (region.base + BitVec.ofNat 64 i) =
      if i < min headersLen raw.length then raw.getD i 0
      else mem (region.base + BitVec.ofNat 64 i) := by
    have h := copyNonoverlapping_apply mem (raw.take (min headersLen raw.length)) region.base
      hi (show 0 < 2 ^ 63 by decide) (by omega)
    rw [BitVec.add_zero] at h
    rw [h, hlen]
    simp only [Nat.zero_le, true_and, Nat.zero_add, Nat.sub_zero]
    split
    · rename_i hlt
      rw [List.getD_eq_getElem?_getD, List.getElem?_take_of_lt hlt, ← List.getD_eq_getElem?_getD]
    · rfl
  unfold copyHeaders
  split
  · rw [writeBytes_apply _ _ _ hi (by omega) (by omega), hcopy]
    split
    · rename_i hin
      rw [if_pos (by omega), List.getD_eq_getElem?_getD, List.getElem?_eq_none (by omega)]
      rfl
    · split
      · rw [if_pos (by omega)]
      · rw [if_neg (by omega)]
  · rw [hcopy]
    split
    · rw [if_pos (by omega)]
    · rw [if_neg (by omega)]

theorem onlyWrites_copyHeaders (mem : ByteMem) (raw : Bytes) {headersLen : Nat} (region : Region)
    (hlen : region.len < 2 ^ 63) (hh : headersLen ≤ region.len) :
    OnlyWrites region.base region.len mem (copyHeaders mem raw headersLen region) := by
  have hcopy : OnlyWrites region.base region.len mem
      (copyNonoverlapping mem (raw.take (min headersLen raw.length)) region.base) := by
    have h := onlyWrites_copyNonoverlapping mem (raw.take (min headersLen raw.length)) region.base 0
      hlen (by rw [List.length_take]; omega)
    rwa [BitVec.add_zero] at h
  unfold copyHeaders
  dsimp only
  split
  · exact hcopy.trans (onlyWrites_writeBytes _ _ _ _ hlen (by omega))
  · exact hcopy

/-! ### Sections -/

namespace SectionHeader

variable (sh : SectionHeader)

/-- The length of a section in memory. -/
def vsize : Nat :=
  max sh.virtualSize.toNat sh.sizeOfRawData.toNat

/-- The section covers the offset. -/
def Covers (i : Nat) : Prop :=
  sh.virtualAddress.toNat ≤ i ∧ i < sh.virtualAddress.toNat + sh.vsize

instance (i : Nat) : Decidable (sh.Covers i) :=
  inferInstanceAs (Decidable (_ ∧ _))

/-- The section lies in the region, and its raw data, if it has any, in the file. -/
def Fits (raw : Bytes) (region : Region) : Prop :=
  sh.virtualAddress.toNat + sh.vsize ≤ region.len ∧
    (0 < sh.sizeOfRawData.toNat →
      sh.pointerToRawData.toNat + sh.sizeOfRawData.toNat ≤ raw.length)

/-- The byte of a section at a relative offset: raw data, and zeros after it. -/
def byteAt (raw : Bytes) (k : Nat) : BitVec 8 :=
  if k < sh.sizeOfRawData.toNat then raw.getD (sh.pointerToRawData.toNat + k) 0 else 0

end SectionHeader

variable {raw : Bytes} {region : Region} {sh : SectionHeader} {mem mem' : ByteMem}

/-- The memory after a section that fits. -/
def afterSection (mem : ByteMem) (sh : SectionHeader) (raw : Bytes) (base : BitVec 64) : ByteMem :=
  let dst := base + BitVec.ofNat 64 sh.virtualAddress.toNat
  let copied :=
    if 0 < sh.sizeOfRawData.toNat then
      copyNonoverlapping mem ((raw.drop sh.pointerToRawData.toNat).take sh.sizeOfRawData.toNat) dst
    else mem
  if sh.sizeOfRawData.toNat < sh.vsize then
    writeBytes copied (dst + BitVec.ofNat 64 sh.sizeOfRawData.toNat) 0
      (sh.vsize - sh.sizeOfRawData.toNat)
  else copied

theorem copySection_of_fits (mem : ByteMem) (h : sh.Fits raw region) :
    copySection mem sh raw region = (.ok (), afterSection mem sh raw region.base) := by
  obtain ⟨hv, hr⟩ := h
  have hv' : ¬ region.len < sh.virtualAddress.toNat +
      max sh.virtualSize.toNat sh.sizeOfRawData.toNat := not_lt.mpr hv
  have hr' : ¬ (0 < sh.sizeOfRawData.toNat ∧
      raw.length < sh.pointerToRawData.toNat + sh.sizeOfRawData.toNat) :=
    fun hc => absurd (hr hc.1) (by omega)
  unfold copySection
  simp only [hv', hr', if_false]
  rfl

theorem copySection_of_not_fits (mem : ByteMem) (h : ¬ sh.Fits raw region) :
    ∃ e, copySection mem sh raw region = (.error e, mem) := by
  unfold copySection
  dsimp only
  split
  · exact ⟨_, rfl⟩
  · rename_i hv
    rw [if_pos]
    · exact ⟨_, rfl⟩
    · by_contra hc
      refine h ⟨not_lt.mp hv, fun hpos => ?_⟩
      by_contra hle
      exact hc ⟨hpos, by omega⟩

/-- A section leaves its bytes where it lies, and nothing else changes. -/
theorem afterSection_apply (base : BitVec 64) (hfits : sh.Fits raw region) {i : Nat}
    (hi : i < 2 ^ 63) :
    afterSection mem sh raw base (base + BitVec.ofNat 64 i) =
      if sh.Covers i then sh.byteAt raw (i - sh.virtualAddress.toNat)
      else mem (base + BitVec.ofNat 64 i) := by
  have hva := sh.virtualAddress.isLt
  have hrs := sh.sizeOfRawData.isLt
  have hvs := sh.virtualSize.isLt
  have hvsize : sh.vsize = max sh.virtualSize.toNat sh.sizeOfRawData.toNat := rfl
  have hcopied : (if 0 < sh.sizeOfRawData.toNat then
        copyNonoverlapping mem ((raw.drop sh.pointerToRawData.toNat).take sh.sizeOfRawData.toNat)
          (base + BitVec.ofNat 64 sh.virtualAddress.toNat)
      else mem) (base + BitVec.ofNat 64 i) =
      if sh.virtualAddress.toNat ≤ i ∧ i < sh.virtualAddress.toNat + sh.sizeOfRawData.toNat then
        sh.byteAt raw (i - sh.virtualAddress.toNat)
      else mem (base + BitVec.ofNat 64 i) := by
    split
    · rename_i hpos
      have hlen : ((raw.drop sh.pointerToRawData.toNat).take sh.sizeOfRawData.toNat).length =
          sh.sizeOfRawData.toNat := by
        have := hfits.2 hpos
        rw [List.length_take, List.length_drop]
        omega
      rw [copyNonoverlapping_apply _ _ _ hi (by omega) (by omega), hlen]
      split
      · rename_i hin
        have hk : i - sh.virtualAddress.toNat < sh.sizeOfRawData.toNat := by omega
        rw [SectionHeader.byteAt, if_pos hk, List.getD_eq_getElem?_getD,
          List.getElem?_take_of_lt hk, List.getElem?_drop, ← List.getD_eq_getElem?_getD]
      · rfl
    · rw [if_neg (by omega)]
  have hcov : sh.Covers i ↔
      sh.virtualAddress.toNat ≤ i ∧ i < sh.virtualAddress.toNat + sh.vsize := Iff.rfl
  unfold afterSection
  split
  · rename_i hlt
    rw [show base + BitVec.ofNat 64 sh.virtualAddress.toNat + BitVec.ofNat 64 sh.sizeOfRawData.toNat
        = base + BitVec.ofNat 64 (sh.virtualAddress.toNat + sh.sizeOfRawData.toNat) by
      rw [BitVec.ofNat_add, BitVec.add_assoc]]
    rw [writeBytes_apply _ _ _ hi (by omega) (by omega), hcopied]
    split
    · rename_i hin
      rw [if_pos (hcov.mpr (by omega)), SectionHeader.byteAt, if_neg (by omega)]
    · split
      · rw [if_pos (hcov.mpr (by omega))]
      · rw [if_neg (fun hc => by have := hcov.mp hc; omega)]
  · rw [hcopied]
    split
    · rw [if_pos (hcov.mpr (by omega))]
    · rw [if_neg (fun hc => by have := hcov.mp hc; omega)]

theorem onlyWrites_afterSection (hfits : sh.Fits raw region) (hlen : region.len < 2 ^ 63) :
    OnlyWrites region.base region.len mem (afterSection mem sh raw region.base) := by
  have hvsize : sh.vsize = max sh.virtualSize.toNat sh.sizeOfRawData.toNat := rfl
  have hv := hfits.1
  have hcopied : OnlyWrites region.base region.len mem (if 0 < sh.sizeOfRawData.toNat then
        copyNonoverlapping mem ((raw.drop sh.pointerToRawData.toNat).take sh.sizeOfRawData.toNat)
          (region.base + BitVec.ofNat 64 sh.virtualAddress.toNat)
      else mem) := by
    split
    · exact onlyWrites_copyNonoverlapping _ _ _ _ hlen (by rw [List.length_take]; omega)
    · exact fun _ _ => rfl
  unfold afterSection
  dsimp only
  split
  · rw [show region.base + BitVec.ofNat 64 sh.virtualAddress.toNat +
        BitVec.ofNat 64 sh.sizeOfRawData.toNat = region.base +
          BitVec.ofNat 64 (sh.virtualAddress.toNat + sh.sizeOfRawData.toNat) by
      rw [BitVec.ofNat_add, BitVec.add_assoc]]
    exact hcopied.trans (onlyWrites_writeBytes _ _ _ _ hlen (by omega))
  · exact hcopied

/-! ### All sections -/

/-- The memory after all sections. -/
def afterSections (mem : ByteMem) (shs : List SectionHeader) (raw : Bytes) (base : BitVec 64) :
    ByteMem :=
  shs.foldl (fun mem sh => afterSection mem sh raw base) mem

theorem copySections_of_fits {shs : List SectionHeader} (h : ∀ sh ∈ shs, sh.Fits raw region)
    (mem : ByteMem) : copySections raw region shs mem =
      (.ok (shs.map SectionHeader.mapped), afterSections mem shs raw region.base) := by
  induction shs generalizing mem with
  | nil => rfl
  | cons sh shs ih =>
    rw [copySections, copySection_of_fits mem (h sh List.mem_cons_self)]
    dsimp only
    rw [ih fun x hx => h x (List.mem_cons_of_mem _ hx)]
    rfl

theorem copySections_of_not_fits {shs : List SectionHeader} (h : ¬ ∀ sh ∈ shs, sh.Fits raw region)
    (mem : ByteMem) : ∃ e mem', copySections raw region shs mem = (.error e, mem') := by
  induction shs generalizing mem with
  | nil => exact absurd (fun _ => nofun) h
  | cons sh shs ih =>
    rw [copySections]
    by_cases hsh : sh.Fits raw region
    · have hrest : ¬ ∀ x ∈ shs, x.Fits raw region := fun hc => h (List.forall_mem_cons.mpr ⟨hsh, hc⟩)
      rw [copySection_of_fits mem hsh]
      dsimp only
      obtain ⟨e, mem', he⟩ := ih hrest (afterSection mem sh raw region.base)
      rw [he]
      exact ⟨e, mem', rfl⟩
    · obtain ⟨e, he⟩ := copySection_of_not_fits mem hsh
      rw [he]
      exact ⟨e, mem, rfl⟩

theorem onlyWrites_copySections (hlen : region.len < 2 ^ 63) (shs : List SectionHeader)
    (mem : ByteMem) : OnlyWrites region.base region.len mem (copySections raw region shs mem).2 := by
  induction shs generalizing mem with
  | nil => exact .refl _ _ _
  | cons sh shs ih =>
    rw [copySections]
    by_cases hsh : sh.Fits raw region
    · rw [copySection_of_fits mem hsh]
      exact (onlyWrites_afterSection hsh hlen).trans (ih _)
    · obtain ⟨e, he⟩ := copySection_of_not_fits mem hsh
      rw [he]
      exact .refl _ _ _

/-- The sections do not overlap. -/
def SeparateSections (shs : List SectionHeader) : Prop :=
  shs.Pairwise fun a b => ∀ i, a.Covers i → ¬ b.Covers i

theorem afterSections_of_not_covers {shs : List SectionHeader} (base : BitVec 64) {i : Nat}
    (hfits : ∀ sh ∈ shs, sh.Fits raw region) (hi : i < 2 ^ 63) (h : ∀ sh ∈ shs, ¬ sh.Covers i)
    (mem : ByteMem) : afterSections mem shs raw base (base + BitVec.ofNat 64 i) =
      mem (base + BitVec.ofNat 64 i) := by
  induction shs generalizing mem with
  | nil => rfl
  | cons sh shs ih =>
    rw [List.forall_mem_cons] at hfits h
    rw [afterSections, List.foldl_cons, ← afterSections, ih hfits.2 h.2,
      afterSection_apply base hfits.1 hi, if_neg h.1]

/-- Where a section lies, it has left its bytes, and no later section has changed them. -/
theorem afterSections_of_covers {shs : List SectionHeader} (base : BitVec 64) {i : Nat}
    (hsep : SeparateSections shs) (hfits : ∀ sh ∈ shs, sh.Fits raw region) (hi : i < 2 ^ 63)
    (hmem : sh ∈ shs) (h : sh.Covers i) (mem : ByteMem) :
    afterSections mem shs raw base (base + BitVec.ofNat 64 i) =
      sh.byteAt raw (i - sh.virtualAddress.toNat) := by
  induction shs generalizing mem with
  | nil => cases hmem
  | cons sh₀ shs ih =>
    rw [List.forall_mem_cons] at hfits
    obtain ⟨hhead, htail⟩ := List.pairwise_cons.mp hsep
    rw [afterSections, List.foldl_cons, ← afterSections]
    rcases List.mem_cons.mp hmem with rfl | hmem
    · rw [afterSections_of_not_covers base hfits.2 hi (fun x hx => hhead x hx i h),
        afterSection_apply base hfits.1 hi, if_pos h]
    · exact ih htail hfits.2 hmem _

/-! ### The section table -/

theorem length_sectionIter {bytes : Bytes} {off n : Nat} (h : off + 40 * n ≤ bytes.length) :
    (sectionIter bytes off n).length = n := by
  induction n generalizing off with
  | zero => rfl
  | succ n ih =>
    rw [sectionIter, SectionHeader.read, if_pos (by omega)]
    dsimp only
    rw [List.length_cons, ih (by omega)]

theorem getElem?_sectionIter {bytes : Bytes} {off n i : Nat} (h : off + 40 * n ≤ bytes.length)
    (hi : i < n) : (sectionIter bytes off n)[i]? = SectionHeader.read bytes (off + 40 * i) := by
  induction n generalizing off i with
  | zero => exact absurd hi (Nat.not_lt_zero i)
  | succ n ih =>
    rw [sectionIter]
    cases hr : SectionHeader.read bytes off with
    | none =>
      rw [SectionHeader.read, if_pos (by omega)] at hr
      cases hr
    | some sh =>
      cases i with
      | zero => exact hr.symm
      | succ i =>
        dsimp only
        rw [List.getElem?_cons_succ, ih (by omega) (by omega),
          show off + 40 + 40 * i = off + 40 * (i + 1) by omega]

/-- In a file that `parse` accepts the section table lies in the file. -/
theorem PeFile.sections_of_parse {bytes : Bytes} {pe : PeFile} (h : PeFile.parse bytes = .ok pe) :
    pe.bytes = bytes ∧
      pe.sectionsOffset.toNat + 40 * pe.coff.numberOfSections.toNat ≤ bytes.length := by
  unfold PeFile.parse at h
  obtain ⟨dosSig, -, h⟩ := Checked.bind_eq_ok.mp h
  obtain ⟨-, -, h⟩ := Checked.bind_eq_ok.mp h
  obtain ⟨lfanew, -, h⟩ := Checked.bind_eq_ok.mp h
  obtain ⟨peSig, -, h⟩ := Checked.bind_eq_ok.mp h
  obtain ⟨-, -, h⟩ := Checked.bind_eq_ok.mp h
  obtain ⟨coffOff, -, h⟩ := Checked.bind_eq_ok.mp h
  obtain ⟨coff, -, h⟩ := Checked.bind_eq_ok.mp h
  obtain ⟨optOff, -, h⟩ := Checked.bind_eq_ok.mp h
  obtain ⟨magic, -, h⟩ := Checked.bind_eq_ok.mp h
  obtain ⟨kind, -, h⟩ := Checked.bind_eq_ok.mp h
  obtain ⟨opt, -, h⟩ := Checked.bind_eq_ok.mp h
  obtain ⟨sectionsOffset, -, h⟩ := Checked.bind_eq_ok.mp h
  obtain ⟨tableSize, htable, h⟩ := Checked.bind_eq_ok.mp h
  obtain ⟨sectionsEnd, hend, h⟩ := Checked.bind_eq_ok.mp h
  obtain ⟨u, hle, h⟩ := Checked.bind_eq_ok.mp h
  obtain rfl := Except.ok.inj h
  rw [Checked.mul_eq_ok] at htable
  rw [Checked.add_eq_ok] at hend
  rw [Checked.ensure_eq_ok] at hle
  have hn : (coff.numberOfSections.setWidth 64).toNat = coff.numberOfSections.toNat := by
    rw [BitVec.toNat_setWidth]
    have := coff.numberOfSections.isLt
    omega
  rw [hn, show (40 : BitVec 64).toNat = 40 from rfl] at htable
  refine ⟨rfl, ?_⟩
  dsimp only
  omega

/-! ### The image -/

/-- The memory manager returns regions that are filled with zeros. -/
def MemoryManager.Fresh (mm : MemoryManager) : Prop :=
  ∀ hint size mem base mem', mm.allocate hint size mem = .ok (base, mem') →
    ∀ i < size, mem' (base + BitVec.ofNat 64 i) = 0

/-- The header area and the sections do not overlap. -/
def PeFile.Separate (pe : PeFile) : Prop :=
  (∀ sh ∈ pe.sections, ∀ i < pe.opt.sizeOfHeaders.toNat, ¬ sh.Covers i) ∧
    SeparateSections pe.sections

/-- What an image should look like: the headers, the raw data of the sections with zeros after it, and
zeros elsewhere. -/
structure Mapped (pe : PeFile) (image : PeImage) : Prop where
  headers : ∀ i < pe.opt.sizeOfHeaders.toNat, image.byte i = pe.bytes.getD i 0
  rawData : ∀ sh ∈ pe.sections, ∀ k < sh.sizeOfRawData.toNat,
    pe.bytes[sh.pointerToRawData.toNat + k]? = some (image.byte (sh.virtualAddress.toNat + k))
  padding : ∀ sh ∈ pe.sections, ∀ k, sh.sizeOfRawData.toNat ≤ k → k < sh.vsize →
    image.byte (sh.virtualAddress.toNat + k) = 0
  elsewhere : ∀ i < image.len, pe.opt.sizeOfHeaders.toNat ≤ i →
    (∀ sh ∈ pe.sections, ¬ sh.Covers i) → image.byte i = 0

/-- The sections of an image are those of the section table, in order. -/
def SameTable (pe : PeFile) (image : PeImage) : Prop :=
  image.sections.length = pe.coff.numberOfSections.toNat ∧
    ∀ i < pe.coff.numberOfSections.toNat,
      ∃ sh, SectionHeader.read pe.bytes (pe.sectionsOffset.toNat + 40 * i) = some sh ∧
        image.sections[i]? = some sh.mapped

/-- The sections, and the region that `load` has asked for. -/
def PeFile.AllFit (pe : PeFile) (base : BitVec 64) : Prop :=
  ∀ sh ∈ pe.sections, sh.Fits pe.bytes ⟨base, pe.opt.sizeOfImage.toNat⟩

variable {pe : PeFile} {base : BitVec 64} {hsize : pe.opt.sizeOfImage.toNat ≤ 2 ^ 31}

theorem sameTable_of_parse {bytes : Bytes} (h : PeFile.parse bytes = .ok pe) {image : PeImage}
    (hs : image.sections = pe.sections.map SectionHeader.mapped) : SameTable pe image := by
  obtain ⟨rfl, hle⟩ := PeFile.sections_of_parse h
  have hlen : pe.sections.length = pe.coff.numberOfSections.toNat := length_sectionIter hle
  refine ⟨by rw [hs, List.length_map, hlen], fun i hi => ?_⟩
  have hget : pe.sections[i]? = SectionHeader.read pe.bytes (pe.sectionsOffset.toNat + 40 * i) :=
    getElem?_sectionIter hle hi
  cases hr : SectionHeader.read pe.bytes (pe.sectionsOffset.toNat + 40 * i) with
  | none =>
    rw [hr, List.getElem?_eq_none_iff] at hget
    omega
  | some sh => exact ⟨sh, rfl, by rw [hs, List.getElem?_map, hget, hr]; rfl⟩

/-- The image that `mapImage` returns. -/
theorem mapImage_ok {image : PeImage} (h : (mapImage pe base hsize mem).1 = .ok image) :
    pe.opt.sizeOfHeaders.toNat ≤ pe.opt.sizeOfImage.toNat ∧ pe.AllFit base ∧
      image.len = pe.opt.sizeOfImage.toNat ∧
      image.sections = pe.sections.map SectionHeader.mapped ∧
      image.byte = fun i => afterSections
        (copyHeaders mem pe.bytes pe.opt.sizeOfHeaders.toNat ⟨base, pe.opt.sizeOfImage.toNat⟩)
        pe.sections pe.bytes base (base + BitVec.ofNat 64 i) := by
  unfold mapImage at h
  dsimp only at h
  split at h
  · cases h
  · rename_i hheaders
    by_cases hfits : pe.AllFit base
    · rw [copySections_of_fits hfits] at h
      obtain rfl := Except.ok.inj h
      exact ⟨not_lt.mp hheaders, hfits, rfl, rfl, rfl⟩
    · obtain ⟨e, mem', he⟩ := copySections_of_not_fits hfits
        (copyHeaders mem pe.bytes pe.opt.sizeOfHeaders.toNat ⟨base, pe.opt.sizeOfImage.toNat⟩)
      rw [he] at h
      cases h

theorem mapImage_of_not_allFit (h : ¬ pe.AllFit base) :
    ∃ e, (mapImage pe base hsize mem).1 = .error e := by
  cases hr : (mapImage pe base hsize mem).1 with
  | error e => exact ⟨e, rfl⟩
  | ok image => exact absurd (mapImage_ok hr).2.1 h

theorem onlyWrites_mapImage : OnlyWrites base pe.opt.sizeOfImage.toNat mem
    (mapImage pe base hsize mem).2 := by
  have hlt : pe.opt.sizeOfImage.toNat < 2 ^ 63 := by omega
  unfold mapImage
  dsimp only
  split
  · exact .refl _ _ _
  · rename_i hheaders
    have hh : OnlyWrites base pe.opt.sizeOfImage.toNat mem
        (copyHeaders mem pe.bytes pe.opt.sizeOfHeaders.toNat ⟨base, pe.opt.sizeOfImage.toNat⟩) :=
      onlyWrites_copyHeaders mem pe.bytes ⟨base, _⟩ hlt (not_lt.mp hheaders)
    have hlen : (⟨base, pe.opt.sizeOfImage.toNat⟩ : Region).len < 2 ^ 63 := hlt
    exact hh.trans (onlyWrites_copySections hlen pe.sections _)

theorem mapped_of_mapImage {image : PeImage} (h : (mapImage pe base hsize mem).1 = .ok image)
    (hzero : ∀ i < pe.opt.sizeOfImage.toNat, mem (base + BitVec.ofNat 64 i) = 0)
    (hsep : pe.Separate) : Mapped pe image := by
  obtain ⟨hheaders, hfits, hlen, -, hbyte⟩ := mapImage_ok h
  have hh := pe.opt.sizeOfHeaders.isLt
  have hcover : ∀ sh ∈ pe.sections, ∀ k < sh.vsize, sh.Covers (sh.virtualAddress.toNat + k) ∧
      sh.virtualAddress.toNat + k < 2 ^ 63 := by
    intro sh hsh k hk
    have hin : sh.virtualAddress.toNat + sh.vsize ≤ pe.opt.sizeOfImage.toNat := (hfits sh hsh).1
    exact ⟨⟨by omega, by omega⟩, by omega⟩
  have hsection : ∀ sh ∈ pe.sections, ∀ k < sh.vsize,
      image.byte (sh.virtualAddress.toNat + k) = sh.byteAt pe.bytes k := by
    intro sh hsh k hk
    obtain ⟨hc, hlt⟩ := hcover sh hsh k hk
    rw [hbyte]
    dsimp only
    rw [afterSections_of_covers base hsep.2 hfits hlt hsh hc, Nat.add_sub_cancel_left]
  refine ⟨fun i hi => ?_, fun sh hsh k hk => ?_, fun sh hsh k hk hk' => ?_,
    fun i hi hout hcov => ?_⟩
  · rw [hbyte]
    dsimp only
    rw [afterSections_of_not_covers base hfits (by omega) (fun sh hsh => hsep.1 sh hsh i hi),
      copyHeaders_apply _ _ ⟨base, pe.opt.sizeOfImage.toNat⟩ (by omega) (by omega), if_pos hi]
  · have hv : k < sh.vsize := lt_of_lt_of_le hk (le_max_right _ _)
    have hraw := (hfits sh hsh).2 (by omega)
    have hin : sh.pointerToRawData.toNat + k < pe.bytes.length := by omega
    rw [hsection sh hsh k hv, SectionHeader.byteAt, if_pos hk, List.getD_eq_getElem?_getD,
      List.getElem?_eq_getElem hin]
    rfl
  · rw [hsection sh hsh k hk', SectionHeader.byteAt, if_neg (by omega)]
  · rw [hlen] at hi
    rw [hbyte]
    dsimp only
    rw [afterSections_of_not_covers base hfits (by omega) hcov,
      copyHeaders_apply _ _ ⟨base, pe.opt.sizeOfImage.toNat⟩ (by omega) (by omega),
      if_neg (by omega), hzero i hi]

/-- A section or its raw data lies outside. -/
def PeFile.OutOfBounds (pe : PeFile) : Prop :=
  ∃ sh ∈ pe.sections, pe.opt.sizeOfImage.toNat < sh.virtualAddress.toNat + sh.vsize ∨
    (0 < sh.sizeOfRawData.toNat ∧
      pe.bytes.length < sh.pointerToRawData.toNat + sh.sizeOfRawData.toNat)

theorem PeFile.OutOfBounds.not_allFit (h : pe.OutOfBounds) : ¬ pe.AllFit base := by
  intro hfits
  obtain ⟨sh, hsh, hout⟩ := h
  obtain ⟨hv, hr⟩ := hfits sh hsh
  rcases hout with hv' | ⟨hpos, hr'⟩
  · exact absurd hv (not_le.mpr hv')
  · exact absurd (hr hpos) (not_le.mpr hr')

/-- The region that an image gets comes from the memory manager. -/
theorem allocate_of_allocateImage {mm : MemoryManager} {mem' : ByteMem}
    (h : allocateImage mm pe mem = .ok (base, mem')) :
    ∃ hint, mm.allocate hint pe.opt.sizeOfImage.toNat mem = .ok (base, mem') := by
  unfold allocateImage at h
  cases hfirst : mm.allocate (some pe.opt.imageBase) pe.opt.sizeOfImage.toNat mem with
  | ok r =>
    rw [hfirst] at h
    obtain rfl := Except.ok.inj h
    exact ⟨_, hfirst⟩
  | error e =>
    rw [hfirst] at h
    exact ⟨none, h⟩

/-- **Image loading.**  If `load` maps a file whose areas do not overlap into a region of zeros, the
image has the headers, the raw data of the sections and zeros elsewhere, and its sections are those of
the section table.  A section outside the region or raw data outside the file is an error, and nothing
is written outside the region. -/
theorem load_spec {bytes : Bytes} {pe : PeFile} (hparse : PeFile.parse bytes = .ok pe)
    {mm : MemoryManager} (hfresh : mm.Fresh) (mem : ByteMem) :
    (∀ image, (load mm pe mem).1 = .ok image →
      SameTable pe image ∧ (pe.Separate → Mapped pe image)) ∧
    (pe.OutOfBounds → ∃ e, (load mm pe mem).1 = .error e) ∧
    ((load mm pe mem).2 = mem ∨
      ∃ hint base mem', mm.allocate hint pe.opt.sizeOfImage.toNat mem = .ok (base, mem') ∧
        OnlyWrites base pe.opt.sizeOfImage.toNat mem' (load mm pe mem).2) := by
  unfold load
  split
  · rename_i hsize
    cases halloc : allocateImage mm pe mem with
    | error e => exact ⟨nofun, fun _ => ⟨e, rfl⟩, .inl rfl⟩
    | ok r =>
      obtain ⟨base, mem'⟩ := r
      obtain ⟨hint, hint_eq⟩ := allocate_of_allocateImage halloc
      have hzero := hfresh hint _ mem base mem' hint_eq
      dsimp only
      refine ⟨fun image himage => ⟨?_, mapped_of_mapImage himage hzero⟩, fun hout => ?_, .inr ?_⟩
      · exact sameTable_of_parse hparse (mapImage_ok himage).2.2.2.1
      · exact mapImage_of_not_allFit hout.not_allFit
      · exact ⟨hint, base, mem', hint_eq, onlyWrites_mapImage⟩
  · exact ⟨nofun, fun _ => ⟨_, rfl⟩, .inl rfl⟩

/-- A file with one section of 4 bytes of raw data, which lies 8 bytes long at 0x1000. -/
def tinyFile : Bytes :=
  (List.range 0x100).map fun
    | 0x00 => 0x4D
    | 0x01 => 0x5A
    | 0x3C => 0x40
    | 0x40 => 0x50
    | 0x41 => 0x45
    -- one section, and an optional header of 0x70 bytes
    | 0x46 => 0x01
    | 0x54 => 0x70
    | 0x58 => 0x0B
    | 0x59 => 0x02
    -- the sizes of the image (0x2000) and of the headers (0xF0)
    | 0x91 => 0x20
    | 0x94 => 0xF0
    -- the section
    | 0xD0 => 0x08
    | 0xD5 => 0x10
    | 0xD8 => 0x04
    | 0xDC => 0xF8
    | 0xF8 => 0xC3
    | _ => 0

/-- A manager that puts every region at 0x10000. -/
def zeroManager : MemoryManager where
  allocate _ _ _ := .ok (0x10000, fun _ => 0)

theorem load_spec_tinyFile : ∃ pe image, PeFile.parse tinyFile = .ok pe ∧
    (load zeroManager pe fun _ => 0xFF).1 = .ok image ∧ SameTable pe image ∧ Mapped pe image := by
  have hcheck : (PeFile.parse tinyFile).toOption.any fun pe =>
      (load zeroManager pe fun _ => 0xFF).1.toOption.isSome && pe.sections.length == 1 &&
        pe.sections.all fun sh => decide (pe.opt.sizeOfHeaders.toNat ≤ sh.virtualAddress.toNat) := by
    decide +kernel
  obtain ⟨pe, hparse⟩ : ∃ pe, PeFile.parse tinyFile = .ok pe := by
    cases hp : PeFile.parse tinyFile with
    | ok pe => exact ⟨pe, rfl⟩
    | error e =>
      rw [hp] at hcheck
      cases hcheck
  rw [hparse] at hcheck
  obtain ⟨hcheck, hafter⟩ := Bool.and_eq_true_iff.mp hcheck
  obtain ⟨hload, hlen⟩ := Bool.and_eq_true_iff.mp hcheck
  obtain ⟨image, hok⟩ : ∃ image, (load zeroManager pe fun _ => 0xFF).1 = .ok image := by
    cases hl : (load zeroManager pe fun _ => 0xFF).1 with
    | ok image => exact ⟨image, rfl⟩
    | error e =>
      rw [hl] at hload
      cases hload
  have hfresh : zeroManager.Fresh := by
    rintro hint size mem base mem' ⟨⟩ i hi
    rfl
  have hsep : pe.Separate := by
    obtain ⟨sh, hsh⟩ := List.length_eq_one_iff.mp (beq_iff_eq.mp hlen)
    refine ⟨fun sh' hmem i hi hcov => ?_, ?_⟩
    · have hle := of_decide_eq_true (List.all_eq_true.mp hafter sh' hmem)
      have hva := hcov.1
      omega
    · rw [hsh]
      exact List.pairwise_singleton _ _
  have hspec := (load_spec hparse hfresh fun _ => 0xFF).1 image hok
  exact ⟨pe, image, hparse, hok, hspec.1, hspec.2 hsep⟩

end Quantum.Loader
