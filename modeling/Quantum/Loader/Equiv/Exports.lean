import Quantum.Loader.Equiv.Cstr

/-!
# Correctness of the export directory

`WellFormedExports` describes a directory by the words of the image: the table of functions, whose slots
may be empty or point back into the directory, and the table of names, each with the index of its slot.
`parse_of_wellFormed` says what `exports::parse` makes of it.
-/

namespace Quantum.Loader.Exports

open Checked LeWord

variable {image : PeImage} {dir : DataDirectory} {names : List (String × BitVec 16)}

/-! ### The directory in the image -/

/-- The fields of the directory at `a`. -/
def headerAt (image : LoadedImage) (a : Nat) : ExportHeader where
  nameRva := word 32 4 image.byte (a + 12)
  base := word 32 4 image.byte (a + 16)
  numFuncs := word 32 4 image.byte (a + 20)
  numNames := word 32 4 image.byte (a + 24)
  funcsRva := word 32 4 image.byte (a + 28)
  namesRva := word 32 4 image.byte (a + 32)
  ordinalsRva := word 32 4 image.byte (a + 36)

/-- The slot of the `i`-th function. -/
def slotAt (image : LoadedImage) (header : ExportHeader) (i : Nat) : BitVec 32 :=
  word 32 4 image.byte (header.funcsRva.toNat + 4 * i)

/-- The RVA lies in the directory: it is that of a forwarder. -/
def InDirectory (dir : DataDirectory) (rva : BitVec 32) : Prop :=
  dir.virtualAddress.toNat ≤ rva.toNat ∧ rva.toNat < dir.virtualAddress.toNat + dir.size.toNat

instance {rva : BitVec 32} : Decidable (InDirectory dir rva) :=
  inferInstanceAs (Decidable (_ ∧ _))

/-- A directory in the image.  `names` are the names with the indices of their slots. -/
structure WellFormedExports (image : PeImage) (dir : DataDirectory) (header : ExportHeader)
    (names : List (String × BitVec 16)) : Prop where
  dataDir : image.dataDir dirExport = some dir
  header_eq : header = headerAt image.toLoadedImage dir.virtualAddress.toNat
  header_inside : dir.virtualAddress.toNat + 40 ≤ image.len
  inside : dir.virtualAddress.toNat + dir.size.toNat ≤ image.len
  moduleName : header.nameRva ≠ 0 → ∃ s, CstrAt image.toLoadedImage header.nameRva.toNat s
  slot_inside : ∀ i < header.numFuncs.toNat, header.funcsRva.toNat + 4 * i + 4 ≤ image.len
  forwarder : ∀ i < header.numFuncs.toNat, InDirectory dir (slotAt image.toLoadedImage header i) →
    ∃ s, CstrAt image.toLoadedImage (slotAt image.toLoadedImage header i).toNat s
  ordinals_fit : header.base.toNat + header.numFuncs.toNat ≤ 2 ^ 32
  names_length : names.length = header.numNames.toNat
  name_inside : ∀ j < names.length, header.namesRva.toNat + 4 * j + 4 ≤ image.len ∧
    header.ordinalsRva.toNat + 2 * j + 2 ≤ image.len
  name : ∀ j named, names[j]? = some named →
    CstrAt image.toLoadedImage (word 32 4 image.byte (header.namesRva.toNat + 4 * j)).toNat named.1 ∧
      word 16 2 image.byte (header.ordinalsRva.toNat + 2 * j) = named.2
  name_ordinals_fit : ∀ named ∈ names, header.base.toNat + named.2.toNat < 2 ^ 32
  distinct : (names.map Prod.fst).Nodup

/-- What the table says about the slot `i`: a forwarder, or the RVA in it. -/
def TargetOf (image : LoadedImage) (dir : DataDirectory) (header : ExportHeader) (i : Nat) :
    ExportTarget → Prop
  | .rva rva => ¬ InDirectory dir (slotAt image header i) ∧ rva = slotAt image header i
  | .forwarded s => InDirectory dir (slotAt image header i) ∧
      CstrAt image (slotAt image header i).toNat s

/-- The table of a directory. -/
structure TableOf (image : LoadedImage) (dir : DataDirectory) (header : ExportHeader)
    (names : List (String × BitVec 16)) (t : ExportTable) : Prop where
  base : t.ordinalBase = header.base
  entries_length : t.entries.length = header.numFuncs.toNat
  entry : ∀ i e, t.entries[i]? = some e →
    e.ordinal.toNat = header.base.toNat + i ∧ TargetOf image dir header i e.target
  names_eq : t.names = names.map fun named => ⟨named.1, header.base + named.2.setWidth 32⟩

/-! ### Parsing -/

section Parse

variable {header : ExportHeader}

theorem exportHeader_of_le (h : dir.virtualAddress.toNat + 40 ≤ image.len) :
    exportHeader image dir = .ok (headerAt image.toLoadedImage dir.virtualAddress.toNat) := by
  rw [exportHeader, sliceOr_of_le h, ok_bind]
  rw [u32At_slice (by omega), ok_bind, u32At_slice (by omega), ok_bind, u32At_slice (by omega), ok_bind,
    u32At_slice (by omega), ok_bind, u32At_slice (by omega), ok_bind, u32At_slice (by omega), ok_bind,
    u32At_slice (by omega), ok_bind]
  rfl

theorem saturatingAdd_toNat_of_le {x y : BitVec 32} (h : x.toNat + y.toNat < 2 ^ 32) :
    (saturatingAdd x y).toNat = x.toNat + y.toNat := by
  rw [saturatingAdd, if_pos h, BitVec.toNat_add, Nat.mod_eq_of_lt h]

theorem exportTarget_of_wellFormed (h : WellFormedExports image dir header names) {i : Nat}
    (hi : i < header.numFuncs.toNat) :
    ∃ target, exportTarget image dir header i = .ok target ∧
      TargetOf image.toLoadedImage dir header i target := by
  have hlen := image.len_le
  have hin := h.slot_inside i hi
  have hdirIn := h.inside
  have h4 : (4 : BitVec 32).toNat = 4 := rfl
  have hidx : (BitVec.ofNat 32 i).toNat = i := by
    rw [BitVec.toNat_ofNat, Nat.mod_eq_of_lt (by omega)]
  have hrel : checkedMul (BitVec.ofNat 32 i) 4 = some (BitVec.ofNat 32 i * 4) :=
    if_pos (by rw [hidx, h4]; omega)
  have hrelNat : (BitVec.ofNat 32 i * 4).toNat = 4 * i := by
    rw [BitVec.toNat_mul, hidx, h4, Nat.mod_eq_of_lt (by omega), Nat.mul_comm]
  have hoff : checkedAdd header.funcsRva (BitVec.ofNat 32 i * 4) =
      some (header.funcsRva + BitVec.ofNat 32 i * 4) := if_pos (by rw [hrelNat]; omega)
  have hoffNat : (header.funcsRva + BitVec.ofNat 32 i * 4).toNat = header.funcsRva.toNat + 4 * i := by
    rw [BitVec.toNat_add, hrelNat, Nat.mod_eq_of_lt (by omega)]
  have hend : (saturatingAdd dir.virtualAddress dir.size).toNat =
      dir.virtualAddress.toNat + dir.size.toNat := saturatingAdd_toNat_of_le (by omega)
  have hinDir : dir.virtualAddress ≤ slotAt image.toLoadedImage header i ∧
      slotAt image.toLoadedImage header i < saturatingAdd dir.virtualAddress dir.size ↔
      InDirectory dir (slotAt image.toLoadedImage header i) := by
    rw [BitVec.le_def, BitVec.lt_def, hend]
    rfl
  rw [exportTarget, hrel, okOr, ok_bind, hoff, okOr, ok_bind, sliceOr_of_le (by rw [hoffNat]; exact hin),
    ok_bind, hoffNat, u32At_slice (by omega), ok_bind, Nat.add_zero]
  by_cases hfwd : InDirectory dir (slotAt image.toLoadedImage header i)
  · obtain ⟨s, hs⟩ := h.forwarder i hi hfwd
    refine ⟨.forwarded s, ?_, hfwd, hs⟩
    refine (if_pos (hinDir.mpr hfwd)).trans ?_
    rw [bind_eq_ok]
    exact ⟨s, readCstr_eq_ok_iff.mpr hs, rfl⟩
  · exact ⟨.rva (slotAt image.toLoadedImage header i), if_neg fun hc => hfwd (hinDir.mp hc), hfwd, rfl⟩

theorem exportEntry_of_wellFormed (h : WellFormedExports image dir header names) {i : Nat}
    (hi : i < header.numFuncs.toNat) :
    ∃ e, exportEntry image dir header i = .ok e ∧ e.ordinal.toNat = header.base.toNat + i ∧
      TargetOf image.toLoadedImage dir header i e.target := by
  obtain ⟨target, htarget, hof⟩ := exportTarget_of_wellFormed h hi
  have hfit := h.ordinals_fit
  have hidx : (BitVec.ofNat 32 i).toNat = i := by
    rw [BitVec.toNat_ofNat, Nat.mod_eq_of_lt (by omega)]
  have hadd : (Checked.add header.base (BitVec.ofNat 32 i) : Checked LoadError _) =
      .ok (header.base + BitVec.ofNat 32 i) := add_of_lt (by rw [hidx]; omega)
  refine ⟨⟨header.base + BitVec.ofNat 32 i, target⟩, ?_, ?_, hof⟩
  · rw [exportEntry, htarget, ok_bind, hadd]
    rfl
  · rw [add_eq_ok.mp hadd, hidx]

theorem namedExport_of_wellFormed (h : WellFormedExports image dir header names) {j : Nat}
    {named : String × BitVec 16} (hj : names[j]? = some named) :
    namedExport image header j = .ok ⟨named.1, header.base + named.2.setWidth 32⟩ := by
  have hlen := image.len_le
  have hlt : j < names.length := (List.getElem?_eq_some_iff.mp hj).1
  obtain ⟨hnameIn, hordIn⟩ := h.name_inside j hlt
  obtain ⟨hstr, hbiased⟩ := h.name j named hj
  have hfit := h.name_ordinals_fit named (List.mem_of_getElem? hj)
  have h4 : (4 : BitVec 32).toNat = 4 := rfl
  have h2 : (2 : BitVec 32).toNat = 2 := rfl
  have hidx : (BitVec.ofNat 32 j).toNat = j := by
    rw [BitVec.toNat_ofNat, Nat.mod_eq_of_lt (by omega)]
  have hmul4 : (Checked.mul (BitVec.ofNat 32 j) 4 : Checked LoadError _) =
      .ok (BitVec.ofNat 32 j * 4) := mul_of_lt (by rw [hidx, h4]; omega)
  have hmul2 : (Checked.mul (BitVec.ofNat 32 j) 2 : Checked LoadError _) =
      .ok (BitVec.ofNat 32 j * 2) := mul_of_lt (by rw [hidx, h2]; omega)
  have hrel4 : (BitVec.ofNat 32 j * 4).toNat = 4 * j := by
    rw [mul_eq_ok.mp hmul4, hidx, h4, Nat.mul_comm]
  have hrel2 : (BitVec.ofNat 32 j * 2).toNat = 2 * j := by
    rw [mul_eq_ok.mp hmul2, hidx, h2, Nat.mul_comm]
  have hname : (saturatingAdd header.namesRva (BitVec.ofNat 32 j * 4)).toNat =
      header.namesRva.toNat + 4 * j := by
    rw [saturatingAdd_toNat_of_le (by rw [hrel4]; omega), hrel4]
  have hord : (saturatingAdd header.ordinalsRva (BitVec.ofNat 32 j * 2)).toNat =
      header.ordinalsRva.toNat + 2 * j := by
    rw [saturatingAdd_toNat_of_le (by rw [hrel2]; omega), hrel2]
  have hwide : (named.2.setWidth 32).toNat = named.2.toNat := BitVec.toNat_setWidth_of_le (by decide)
  have hadd : (Checked.add header.base (named.2.setWidth 32) : Checked LoadError _) =
      .ok (header.base + named.2.setWidth 32) := add_of_lt (by rw [hwide]; exact hfit)
  have hentry : exportName image header j = .ok (named.1, named.2.setWidth 32) := by
    rw [exportName, hmul4, ok_bind, hmul2, ok_bind]
    dsimp only
    rw [sliceOr_of_le (by rw [hname]; exact hnameIn), ok_bind,
      sliceOr_of_le (by rw [hord]; exact hordIn), ok_bind, hname, hord, u32At_slice (by omega), ok_bind,
      u16At_slice (by omega), ok_bind, Nat.add_zero, Nat.add_zero, hbiased,
      readCstr_eq_ok_iff.mpr hstr, ok_bind]
    rfl
  rw [namedExport, hentry, ok_bind, hadd]
  rfl

/-- The table that is returned is the one of the directory. -/
theorem parse_of_wellFormed (h : WellFormedExports image dir header names) :
    ∃ t, parse image = .ok (some t) ∧ TableOf image.toLoadedImage dir header names t := by
  have hmodule : ∃ s, moduleName image header = .ok s := by
    rw [moduleName]
    by_cases hz : header.nameRva ≠ 0
    · obtain ⟨s, hs⟩ := h.moduleName hz
      rw [if_pos hz]
      exact ⟨s, readCstr_eq_ok_iff.mpr hs⟩
    · rw [if_neg hz]
      exact ⟨"", rfl⟩
  obtain ⟨s, hs⟩ := hmodule
  have hentries : Returns (collect (exportEntry image dir header) 0 header.numFuncs.toNat) := by
    rw [returns_collect_iff]
    intro i hi
    rw [Nat.zero_add]
    obtain ⟨e, he, -⟩ := exportEntry_of_wellFormed h hi
    exact ⟨e, he⟩
  obtain ⟨entries, hentries⟩ := hentries
  obtain ⟨hlen, hget⟩ := collect_eq_ok_iff.mp hentries
  have hnames : collect (namedExport image header) 0 header.numNames.toNat =
      .ok (names.map fun named => ⟨named.1, header.base + named.2.setWidth 32⟩) := by
    rw [collect_eq_ok_iff, List.length_map]
    refine ⟨h.names_length, ?_⟩
    intro j e he
    rw [List.getElem?_map] at he
    obtain ⟨named, hnamed, rfl⟩ := Option.map_eq_some_iff.mp he
    rw [Nat.zero_add]
    exact namedExport_of_wellFormed h hnamed
  refine ⟨⟨s, header.base, entries,
    names.map fun named => ⟨named.1, header.base + named.2.setWidth 32⟩⟩, ?_, rfl, hlen, ?_, rfl⟩
  · rw [parse, h.dataDir]
    dsimp only
    rw [exportHeader_of_le h.header_inside, ok_bind, ← h.header_eq, hs, ok_bind, hentries, ok_bind,
      hnames, ok_bind]
    rfl
  · intro i e he
    have hi : i < header.numFuncs.toNat := by
      rw [← hlen]
      exact (List.getElem?_eq_some_iff.mp he).1
    obtain ⟨e', he', hof⟩ := exportEntry_of_wellFormed h hi
    have hei := hget i e he
    rw [Nat.zero_add, he'] at hei
    rw [← Except.ok.inj hei]
    exact hof

end Parse

theorem gapImage_len_le : 0x100 ≤ 2 ^ 31 := by
  decide

/-- An image with an export directory at 0x20: the function with ordinal 5, named `f`, is at 0x90, and the
slot of ordinal 6 is empty. -/
def gapImage : PeImage where
  actualBase := 0x140000000
  len := 0x100
  byte i := ([(0x30, 5), (0x34, 2), (0x38, 1), (0x3C, 0x50), (0x40, 0x58), (0x44, 0x5C), (0x50, 0x90),
    (0x58, 0x60), (0x60, 0x66)].lookup i).getD 0
  preferredBase := 0x140000000
  sizeOfImage := 0x100
  sizeOfHeaders := 0x20
  entryRva := 0x90
  subsystem := 3
  bitness := .x86_64
  sections := []
  dataDirectories := [⟨0x20, 0x28⟩]
  len_le := gapImage_len_le

def gapHeader : ExportHeader where
  nameRva := 0
  base := 5
  numFuncs := 2
  numNames := 1
  funcsRva := 0x50
  namesRva := 0x58
  ordinalsRva := 0x5C

def gapTable : ExportTable where
  moduleName := ""
  ordinalBase := 5
  entries := [⟨5, .rva 0x90⟩, ⟨6, .rva 0⟩]
  names := [⟨"f", 5⟩]

theorem parse_gapImage : parse gapImage = .ok (some gapTable) :=
  rfl

theorem wellFormed_gapImage : WellFormedExports gapImage ⟨0x20, 0x28⟩ gapHeader [("f", 0)] := by
  have hname : CstrAt gapImage.toLoadedImage 0x60 "f" :=
    cstrAt_singleton (show utf8Bytes "f" = [0x66] by decide) (by decide) (by decide) (by decide)
      (by decide)
  have hslots : ∀ i < 2, ¬ InDirectory ⟨0x20, 0x28⟩ (slotAt gapImage.toLoadedImage gapHeader i) := by
    decide
  refine ⟨rfl, by decide, by decide, by decide, fun h => absurd rfl h, by decide, ?_, by decide, rfl,
    by decide, ?_, by decide, by decide⟩
  · intro i hi hin
    exact absurd hin (hslots i hi)
  · rintro (_ | j) named hj
    · obtain rfl := Option.some.inj hj
      exact ⟨hname, by decide⟩
    · cases hj

end Quantum.Loader.Exports
