import Quantum.Cli.Equiv.Resolve
import Quantum.Loader.Equiv.Exports

/-!
# Export resolution against the directory

`SideModule::resolve` on the table of a well-formed directory, compared with the directory itself.  It
reads the right slot (`slotAtOrdinal_of_tableOf`), but it does not look whether the slot is empty, and it
takes every name that begins with `#` for an ordinal string.
-/

namespace Quantum.Cli

open Quantum.Loader Quantum.Loader.Exports Checked

/-! ### The functions of a directory -/

section Directory

variable (image : LoadedImage) (dir : DataDirectory) (header : ExportHeader)

/-- The RVA in the slot of a function, which may be empty. -/
def rawSlot (i : Nat) : Option (BitVec 32) :=
  if i < header.numFuncs.toNat ∧ ¬ InDirectory dir (slotAt image header i) then
    some (slotAt image header i)
  else none

/-- The RVA of a function: its slot exists, is not empty and is no forwarder. -/
def functionRva (i : Nat) : Option (BitVec 32) :=
  if i < header.numFuncs.toNat ∧ slotAt image header i ≠ 0 ∧ ¬ InDirectory dir (slotAt image header i) then
    some (slotAt image header i)
  else none

/-- The slot of a function exists and is empty. -/
def EmptyFunction (i : Nat) : Prop :=
  i < header.numFuncs.toNat ∧ slotAt image header i = 0

/-- The index of an ordinal. -/
def indexOfOrdinal (ord : BitVec 32) : Option Nat :=
  if header.base ≤ ord then some (ord.toNat - header.base.toNat) else none

/-- The RVA of the function with an ordinal. -/
def functionByOrdinal (ord : BitVec 32) : Option (BitVec 32) :=
  (indexOfOrdinal header ord).bind (functionRva image dir header)

/-- The RVA of the function with a name. -/
def functionByName (names : List (String × BitVec 16)) (name : String) : Option (BitVec 32) :=
  (names.find? fun named : String × BitVec 16 => named.1 = name).bind fun named =>
    functionRva image dir header named.2.toNat

def EmptyOrdinal (ord : BitVec 32) : Prop :=
  ∃ i, indexOfOrdinal header ord = some i ∧ EmptyFunction image header i

/-- When a name resolves as the directory says.  An ordinary name: its slot is not empty.  A name that
begins with `#`: it has the function of the ordinal that it spells, or neither has one, and the slot of
the ordinal is not empty. -/
def NameResolves (names : List (String × BitVec 16)) (name : String) : Prop :=
  match stripHash name with
  | none => ∀ named ∈ names, named.1 = name → ¬ EmptyFunction image header named.2.toNat
  | some ordStr =>
    functionByName image dir header names name =
        (parseU32 ordStr).bind (functionByOrdinal image dir header) ∧
      ∀ ord, parseU32 ordStr = some ord → ¬ EmptyOrdinal image header ord

/-- When a name and its ordinal resolve alike: always, but for a name that spells the ordinal of another
slot. -/
def NameAgrees (named : String × BitVec 16) : Prop :=
  ∀ ordStr, stripHash named.1 = some ordStr →
    ((parseU32 ordStr).bind (indexOfOrdinal header)).bind (rawSlot image dir header) =
      rawSlot image dir header named.2.toNat

end Directory

/-! ### The table of a directory -/

variable {image : PeImage} {dir : DataDirectory} {header : ExportHeader}
  {names : List (String × BitVec 16)} {t : ExportTable}

theorem functionRva_eq (i : Nat) : functionRva image.toLoadedImage dir header i =
    (rawSlot image.toLoadedImage dir header i).filter (· ≠ 0) := by
  rw [functionRva, rawSlot]
  by_cases hraw : i < header.numFuncs.toNat ∧ ¬ InDirectory dir (slotAt image.toLoadedImage header i)
  · rw [if_pos hraw]
    by_cases hz : slotAt image.toLoadedImage header i = 0
    · rw [if_neg (fun h => h.2.1 hz), hz]
      rfl
    · rw [if_pos ⟨hraw.1, hz, hraw.2⟩, filter_ne_zero hz]
  · rw [if_neg hraw, if_neg (fun h => hraw ⟨h.1, h.2.2⟩)]
    rfl

/-- An empty slot is not in the directory, which is not at RVA 0. -/
theorem rawSlot_eq_zero_iff (hdir : image.dataDir dirExport = some dir) (i : Nat) :
    rawSlot image.toLoadedImage dir header i = some 0 ↔ EmptyFunction image.toLoadedImage header i := by
  have hva : dir.virtualAddress ≠ 0 := by
    have hfilter := (Option.filter_eq_some_iff.mp hdir).2
    exact (of_decide_eq_true hfilter).1
  have hpos : dir.virtualAddress.toNat ≠ 0 := fun h => hva (BitVec.eq_of_toNat_eq h)
  have hzero : ¬ InDirectory dir 0 := by
    rintro ⟨hle, -⟩
    have h0 : (0 : BitVec 32).toNat = 0 := rfl
    omega
  rw [rawSlot, EmptyFunction]
  by_cases hraw : i < header.numFuncs.toNat ∧ ¬ InDirectory dir (slotAt image.toLoadedImage header i)
  · rw [if_pos hraw]
    constructor
    · intro h
      exact ⟨hraw.1, Option.some.inj h⟩
    · rintro ⟨-, h⟩
      rw [h]
  · rw [if_neg hraw]
    refine ⟨nofun, ?_⟩
    rintro ⟨hi, h⟩
    exact absurd ⟨hi, by rw [h]; exact hzero⟩ hraw

/-- The slot that the table gives for an ordinal. -/
theorem slotAtOrdinal_of_tableOf (h : TableOf image.toLoadedImage dir header names t) (ord : BitVec 32) :
    slotAtOrdinal t ord = (indexOfOrdinal header ord).bind (rawSlot image.toLoadedImage dir header) := by
  rw [slotAtOrdinal, checkedSub, indexOfOrdinal, h.base]
  by_cases hle : header.base ≤ ord
  · rw [if_pos hle, if_pos hle, Option.bind_some, Option.bind_some, BitVec.toNat_sub_of_le hle]
    generalize ord.toNat - header.base.toNat = i
    rw [rawSlot]
    cases hget : t.entries[i]? with
    | none =>
      have hout : ¬ i < header.numFuncs.toNat := by
        rw [← h.entries_length]
        exact not_lt.mpr (List.getElem?_eq_none_iff.mp hget)
      rw [if_neg fun hc => hout hc.1]
      rfl
    | some e =>
      have hi : i < header.numFuncs.toNat := by
        rw [← h.entries_length]
        exact (List.getElem?_eq_some_iff.mp hget).1
      have htarget := (h.entry i e hget).2
      rw [Option.bind_some, rvaOf]
      cases hcase : e.target with
      | rva rva =>
        rw [hcase] at htarget
        rw [if_pos ⟨hi, htarget.1⟩, htarget.2]
      | forwarded s =>
        rw [hcase] at htarget
        rw [if_neg fun hc => hc.2 htarget.1]
  · rw [if_neg hle, if_neg hle]
    rfl

theorem indexOfOrdinal_name (h : WellFormedExports image dir header names)
    {named : String × BitVec 16} (hmem : named ∈ names) :
    indexOfOrdinal header (header.base + named.2.setWidth 32) = some named.2.toNat := by
  have hfit := h.name_ordinals_fit named hmem
  have hwide : (named.2.setWidth 32).toNat = named.2.toNat := BitVec.toNat_setWidth_of_le (by decide)
  have hsum : (header.base + named.2.setWidth 32).toNat = header.base.toNat + named.2.toNat := by
    rw [BitVec.toNat_add, hwide, Nat.mod_eq_of_lt hfit]
  have hle : header.base ≤ header.base + named.2.setWidth 32 := by
    rw [BitVec.le_def, hsum]
    omega
  rw [indexOfOrdinal, if_pos hle, hsum, Nat.add_sub_cancel_left]

/-- The slot that the table gives for an ordinary name. -/
theorem slotOf_name (h : WellFormedExports image dir header names)
    (ht : TableOf image.toLoadedImage dir header names t) {name : String} (hname : stripHash name = none) :
    slotOf t name = (names.find? fun named : String × BitVec 16 => named.1 = name).bind fun named =>
      rawSlot image.toLoadedImage dir header named.2.toNat := by
  have hfind : (t.names.find? fun n : NamedExport => n.name = name) =
      (names.find? fun named : String × BitVec 16 => named.1 = name).map fun named =>
        ⟨named.1, header.base + named.2.setWidth 32⟩ := by
    rw [ht.names_eq, List.find?_map]
    rfl
  rw [slotOf, ordinalOf, hname]
  dsimp only
  rw [hfind]
  cases hnamed : names.find? fun named : String × BitVec 16 => named.1 = name with
  | none => rfl
  | some named =>
    rw [Option.map_some, Option.map_some, Option.bind_some, Option.bind_some,
      slotAtOrdinal_of_tableOf ht, indexOfOrdinal_name h (List.mem_of_find?_eq_some hnamed),
      Option.bind_some]

theorem slotOf_hash (ht : TableOf image.toLoadedImage dir header names t) {name ordStr : String}
    (hname : stripHash name = some ordStr) :
    slotOf t name = ((parseU32 ordStr).bind (indexOfOrdinal header)).bind
      (rawSlot image.toLoadedImage dir header) := by
  rw [slotOf, ordinalOf, hname]
  dsimp only
  cases parseU32 ordStr with
  | none => rfl
  | some ord => exact slotAtOrdinal_of_tableOf ht ord

/-- A slot is the RVA of its function, if it is not empty. -/
theorem rawSlot_eq_functionRva_iff (hdir : image.dataDir dirExport = some dir) (i : Nat) :
    rawSlot image.toLoadedImage dir header i = functionRva image.toLoadedImage dir header i ↔
      ¬ EmptyFunction image.toLoadedImage header i := by
  rw [functionRva_eq, filter_eq_self_iff, ne_eq, rawSlot_eq_zero_iff hdir]

theorem find_name_eq_some_iff (hdistinct : (names.map Prod.fst).Nodup) {name : String}
    {named : String × BitVec 16} :
    (names.find? fun named : String × BitVec 16 => named.1 = name) = some named ↔
      named ∈ names ∧ named.1 = name := by
  constructor
  · intro h
    have hdecide := List.find?_some h
    exact ⟨List.mem_of_find?_eq_some h, of_decide_eq_true hdecide⟩
  · rintro ⟨hmem, rfl⟩
    cases hfind : names.find? fun n : String × BitVec 16 => n.1 = named.1 with
    | none =>
      have hno := List.find?_eq_none.mp hfind named hmem
      exact absurd (decide_eq_true rfl) hno
    | some other =>
      have hdecide := List.find?_some hfind
      have hsame : other.1 = named.1 := of_decide_eq_true hdecide
      rw [List.inj_on_of_nodup_map hdistinct (List.mem_of_find?_eq_some hfind) hmem hsame]

/-! ### Resolution -/

/-- The module with the table of a directory. -/
def moduleOf (name : String) (image : PeImage) (t : ExportTable) : LoadedModule :=
  ⟨name, image, t⟩

theorem resolve_ordinal_iff (h : WellFormedExports image dir header names)
    (ht : TableOf image.toLoadedImage dir header names t) (moduleName : String) (ord : BitVec 32) :
    (moduleOf moduleName image t).resolve (ordinalString ord) =
        (functionByOrdinal image.toLoadedImage dir header ord).map (addressOf image.actualBase) ↔
      ¬ EmptyOrdinal image.toLoadedImage header ord := by
  have hinj := Option.map_injective (addressOf_injective image.actualBase)
  have hslot := slotOf_hash ht (stripHash_ordinalString ord)
  rw [parseU32_toString, Option.bind_some] at hslot
  rw [resolve_eq_slot, moduleOf]
  dsimp only
  rw [hinj.eq_iff, hslot, functionByOrdinal, EmptyOrdinal]
  cases indexOfOrdinal header ord with
  | none =>
    constructor
    · rintro - ⟨i, ⟨⟩, -⟩
    · exact fun _ => rfl
  | some i =>
    rw [Option.bind_some, Option.bind_some, rawSlot_eq_functionRva_iff h.dataDir]
    constructor
    · rintro hne ⟨_, ⟨⟩, hempty⟩
      exact hne hempty
    · intro hne hempty
      exact hne ⟨i, rfl, hempty⟩

theorem resolve_name_iff (h : WellFormedExports image dir header names)
    (ht : TableOf image.toLoadedImage dir header names t) (moduleName name : String) :
    (moduleOf moduleName image t).resolve name =
        (functionByName image.toLoadedImage dir header names name).map (addressOf image.actualBase) ↔
      NameResolves image.toLoadedImage dir header names name := by
  have hinj := Option.map_injective (addressOf_injective image.actualBase)
  rw [resolve_eq_slot, moduleOf]
  dsimp only
  rw [hinj.eq_iff, NameResolves]
  cases hstrip : stripHash name with
  | none =>
    dsimp only
    rw [slotOf_name h ht hstrip, functionByName]
    cases hfind : names.find? fun named : String × BitVec 16 => named.1 = name with
    | none =>
      refine ⟨fun _ named hmem hname => ?_, fun _ => rfl⟩
      have hno := List.find?_eq_none.mp hfind named hmem
      exact absurd (decide_eq_true hname) hno
    | some named =>
      obtain ⟨hmem, hname⟩ := (find_name_eq_some_iff h.distinct).mp hfind
      rw [Option.bind_some, Option.bind_some, rawSlot_eq_functionRva_iff h.dataDir]
      constructor
      · intro hne other hother hsame
        have hfound := (find_name_eq_some_iff h.distinct).mpr ⟨hother, hsame⟩
        rw [hfind] at hfound
        rw [← Option.some.inj hfound]
        exact hne
      · intro hne
        exact hne named hmem hname
  | some ordStr =>
    dsimp only
    rw [slotOf_hash ht hstrip]
    cases parseU32 ordStr with
    | none =>
      rw [Option.bind_none, Option.bind_none, Option.bind_none]
      constructor
      · intro heq
        refine ⟨heq.symm, ?_⟩
        rintro ord ⟨⟩
      · rintro ⟨heq, -⟩
        exact heq.symm
    | some ord =>
      rw [Option.bind_some, Option.bind_some, functionByOrdinal]
      cases hidx : indexOfOrdinal header ord with
      | none =>
        rw [Option.bind_none, Option.bind_none]
        constructor
        · intro heq
          refine ⟨heq.symm, ?_⟩
          rintro _ ⟨⟩ ⟨i, hi, -⟩
          rw [hidx] at hi
          cases hi
        · rintro ⟨heq, -⟩
          exact heq.symm
      | some i =>
        rw [Option.bind_some, Option.bind_some]
        have hempty : EmptyOrdinal image.toLoadedImage header ord ↔
            EmptyFunction image.toLoadedImage header i := by
          rw [EmptyOrdinal, hidx]
          constructor
          · rintro ⟨_, ⟨⟩, hempty⟩
            exact hempty
          · intro hempty
            exact ⟨i, rfl, hempty⟩
        constructor
        · intro heq
          -- the function of a name is never at RVA 0
          have hne : ¬ EmptyFunction image.toLoadedImage header i := by
            intro hzero
            rw [(rawSlot_eq_zero_iff h.dataDir i).mpr hzero, functionByName] at heq
            obtain ⟨named, -, hrva⟩ := Option.bind_eq_some_iff.mp heq.symm
            rw [functionRva_eq] at hrva
            exact absurd rfl (of_decide_eq_true (Option.filter_eq_some_iff.mp hrva).2)
          refine ⟨?_, ?_⟩
          · rw [← heq]
            exact (rawSlot_eq_functionRva_iff h.dataDir i).mpr hne
          · rintro _ ⟨⟩ hzero
            exact hne (hempty.mp hzero)
        · rintro ⟨heq, hne⟩
          rw [heq]
          exact (rawSlot_eq_functionRva_iff h.dataDir i).mpr fun hzero => hne ord rfl (hempty.mpr hzero)

theorem resolve_agrees_iff (h : WellFormedExports image dir header names)
    (ht : TableOf image.toLoadedImage dir header names t) (moduleName : String)
    {named : String × BitVec 16} (hmem : named ∈ names) :
    (moduleOf moduleName image t).resolve named.1 =
        (moduleOf moduleName image t).resolve
          (ordinalString (header.base + named.2.setWidth 32)) ↔
      NameAgrees image.toLoadedImage dir header named := by
  have hinj := Option.map_injective (addressOf_injective image.actualBase)
  have hslot := slotOf_hash ht (stripHash_ordinalString (header.base + named.2.setWidth 32))
  rw [parseU32_toString, Option.bind_some, indexOfOrdinal_name h hmem, Option.bind_some] at hslot
  rw [resolve_eq_slot, resolve_eq_slot, moduleOf]
  dsimp only
  rw [hinj.eq_iff, hslot, NameAgrees]
  cases hstrip : stripHash named.1 with
  | none =>
    have hfind := (find_name_eq_some_iff h.distinct).mpr ⟨hmem, rfl⟩
    rw [slotOf_name h ht hstrip, hfind, Option.bind_some]
    exact ⟨fun _ _ hnone => (nomatch hnone), fun _ => rfl⟩
  | some ordStr =>
    rw [slotOf_hash ht hstrip]
    constructor
    · rintro heq _ ⟨⟩
      exact heq
    · intro heq
      exact heq ordStr rfl

/-- **Export resolution.**  For a well-formed directory the table is parsed.  An ordinal resolves to its
function exactly if its slot is not empty, and a name exactly if `NameResolves`, which for a name that
does not begin with `#` says the same.  A name and its ordinal always resolve alike, but for a name that
spells the ordinal of another slot. -/
theorem exportResolution_iff (h : WellFormedExports image dir header names) (moduleName : String) :
    ∃ t, Exports.parse image = .ok (some t) ∧
      (∀ ord, (moduleOf moduleName image t).resolve (ordinalString ord) =
          (functionByOrdinal image.toLoadedImage dir header ord).map (addressOf image.actualBase) ↔
        ¬ EmptyOrdinal image.toLoadedImage header ord) ∧
      (∀ name, (moduleOf moduleName image t).resolve name =
          (functionByName image.toLoadedImage dir header names name).map (addressOf image.actualBase) ↔
        NameResolves image.toLoadedImage dir header names name) ∧
      ∀ named ∈ names, ((moduleOf moduleName image t).resolve named.1 =
          (moduleOf moduleName image t).resolve
            (ordinalString (header.base + named.2.setWidth 32)) ↔
        NameAgrees image.toLoadedImage dir header named) := by
  obtain ⟨t, hparse, ht⟩ := parse_of_wellFormed h
  exact ⟨t, hparse, resolve_ordinal_iff h ht moduleName, resolve_name_iff h ht moduleName,
    fun named hmem => resolve_agrees_iff h ht moduleName hmem⟩

theorem exportResolution_gapImage :
    ∃ t, Exports.parse gapImage = .ok (some t) ∧
      ((moduleOf "k.dll" gapImage t).resolve "f" =
          (functionByName gapImage.toLoadedImage ⟨0x20, 0x28⟩ gapHeader [("f", 0)] "f").map
            (addressOf gapImage.actualBase) ↔
        NameResolves gapImage.toLoadedImage ⟨0x20, 0x28⟩ gapHeader [("f", 0)] "f") := by
  obtain ⟨t, hparse, -, hname, -⟩ := exportResolution_iff wellFormed_gapImage "k.dll"
  exact ⟨t, hparse, hname "f"⟩

/-- The empty slot of ordinal 6 resolves to the start of the image. -/
theorem resolve_empty_gapImage :
    WellFormedExports gapImage ⟨0x20, 0x28⟩ gapHeader [("f", 0)] ∧
      Exports.parse gapImage = .ok (some gapTable) ∧
      slotAt gapImage.toLoadedImage gapHeader 1 = 0 ∧
      (moduleOf "k.dll" gapImage gapTable).resolve (ordinalString 6) = some (addressOf gapImage.actualBase 0) ∧
      functionByOrdinal gapImage.toLoadedImage ⟨0x20, 0x28⟩ gapHeader 6 = none :=
  ⟨wellFormed_gapImage, parse_gapImage, by decide, by decide, by decide⟩

end Quantum.Cli
