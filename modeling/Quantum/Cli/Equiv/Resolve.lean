import Quantum.Cli.Resolve
import Quantum.Loader.Equiv.Exports
import Mathlib.Data.List.Nodup

/-!
# Symbols resolve alike on both paths

`SideModule.resolve` and the resolver of `wire_side_module_iats` read the same slot of the export table
(`resolve_eq_slot`, `resolveIn_eq_slot`), so that they agree on every symbol.  The slot may be empty; then
both take it for the start of the image.
-/

namespace Quantum.Cli

open Quantum.Loader Checked

variable {m : LoadedModule} {t : ExportTable} {function : String}

/-! ### Ordinal strings -/

/-- The string that asks for an ordinal. -/
def ordinalString (ord : BitVec 32) : String :=
  "#" ++ toString ord.toNat

theorem parseDigits_toDigits (n : Nat) (hn : n < 2 ^ 32) (cs : List Char) :
    parseDigits (Nat.toDigits 10 n ++ cs) 0 = parseDigits cs (BitVec.ofNat 32 n) := by
  induction n using Nat.strong_induction_on generalizing cs with
  | _ n ih =>
    -- one digit, after what the digits before it give
    have hdigit : ∀ (q d : Nat), d < 10 → q * 10 + d < 2 ^ 32 →
        parseDigits (d.digitChar :: cs) (BitVec.ofNat 32 q) =
          parseDigits cs (BitVec.ofNat 32 (q * 10 + d)) := by
      intro q d hd hlt
      have hisDigit : d.digitChar.isDigit = true :=
        Nat.isDigit_of_mem_toDigits (by decide) (le_refl 10)
          (by rw [Nat.toDigits_of_lt_base hd]; exact List.mem_cons_self)
      have hval : d.digitChar.toNat - '0'.toNat = d := Nat.toNat_digitChar_sub_48_of_lt_ten hd
      have hq : (BitVec.ofNat 32 q).toNat = q := by
        rw [BitVec.toNat_ofNat, Nat.mod_eq_of_lt (by omega)]
      rw [parseDigits, if_pos hisDigit, hval, hq]
      exact if_pos hlt
    by_cases hlt : n < 10
    · rw [Nat.toDigits_of_lt_base hlt]
      have h0 := hdigit 0 n hlt (by omega)
      rw [Nat.zero_mul, Nat.zero_add] at h0
      exact h0
    · rw [Nat.toDigits_of_base_le (by decide) (Nat.le_of_not_lt hlt), List.append_assoc,
        ih (n / 10) (by omega) (by omega), List.singleton_append,
        hdigit (n / 10) (n % 10) (Nat.mod_lt n (by decide)) (by omega),
        show n / 10 * 10 + n % 10 = n by omega]

theorem parseU32_toString (ord : BitVec 32) : parseU32 (toString ord.toNat) = some ord := by
  have hlist : (toString ord.toNat).toList = Nat.toDigits 10 ord.toNat := Nat.toList_repr
  have hdigits := parseDigits_toDigits ord.toNat ord.isLt []
  rw [List.append_nil, BitVec.ofNat_toNat, BitVec.setWidth_eq] at hdigits
  have hplus : ∀ c ∈ Nat.toDigits 10 ord.toNat, c ≠ '+' := by
    rintro c hc rfl
    have hisDigit := Nat.isDigit_of_mem_toDigits (by decide) (le_refl 10) hc
    exact absurd hisDigit (by decide)
  have hpos : Nat.toDigits 10 ord.toNat ≠ [] :=
    List.ne_nil_of_length_pos Nat.length_toDigits_pos
  rw [parseU32, hlist]
  split
  · rename_i hnil
    exact absurd hnil hpos
  · rename_i c cs hcons
    exact absurd rfl (hplus '+' (by rw [hcons]; exact List.mem_cons_self))
  · exact hdigits

theorem stripHash_ordinalString (ord : BitVec 32) :
    stripHash (ordinalString ord) = some (toString ord.toNat) := by
  have hlist : (ordinalString ord).toList = '#' :: (toString ord.toNat).toList := by
    rw [ordinalString, String.toList_append]
    rfl
  rw [stripHash, hlist]
  exact congrArg some String.ofList_toList

/-! ### Slots -/

/-- The ordinal that a symbol asks for. -/
def ordinalOf (t : ExportTable) (function : String) : Option (BitVec 32) :=
  match stripHash function with
  | some ordStr => parseU32 ordStr
  | none => (t.names.find? fun n : NamedExport => n.name = function).map NamedExport.ordinal

/-- The RVA in a slot that is no forwarder. -/
def rvaOf (entry : ExportEntry) : Option (BitVec 32) :=
  match entry.target with
  | .rva rva => some rva
  | .forwarded _ => none

/-- The RVA in the slot of an ordinal. -/
def slotAtOrdinal (t : ExportTable) (ord : BitVec 32) : Option (BitVec 32) :=
  (checkedSub ord t.ordinalBase).bind fun idx => t.entries[idx.toNat]?.bind rvaOf

/-- The RVA in the slot that a symbol asks for. -/
def slotOf (t : ExportTable) (function : String) : Option (BitVec 32) :=
  (ordinalOf t function).bind (slotAtOrdinal t)

/-- The address of an RVA. -/
def addressOf (base : BitVec 64) (rva : BitVec 32) : BitVec 64 :=
  base + rva.setWidth 64

theorem addressOf_injective (base : BitVec 64) : Function.Injective (addressOf base) := by
  intro r r' h
  have hwide : r.setWidth 64 = r'.setWidth 64 := (BitVec.add_right_inj base).mp h
  have hnat := congrArg BitVec.toNat hwide
  rw [BitVec.toNat_setWidth_of_le (by decide), BitVec.toNat_setWidth_of_le (by decide)] at hnat
  exact BitVec.eq_of_toNat_eq hnat

theorem entryAddress_eq (base : BitVec 64) (entry : ExportEntry) :
    entryAddress base entry = (rvaOf entry).map (addressOf base) := by
  rw [entryAddress, rvaOf]
  cases entry.target with
  | rva rva => rfl
  | forwarded target => rfl

/-- From an ordinal to the address of its entry. -/
theorem address_eq_slot (base : BitVec 64) (t : ExportTable) (ord : BitVec 32) :
    ((checkedSub ord t.ordinalBase).bind fun idx =>
        t.entries[idx.toNat]?.bind (entryAddress base)) =
      (slotAtOrdinal t ord).map (addressOf base) := by
  rw [slotAtOrdinal]
  cases checkedSub ord t.ordinalBase with
  | none => rfl
  | some idx =>
    rw [Option.bind_some, Option.bind_some]
    cases t.entries[idx.toNat]? with
    | none => rfl
    | some entry => exact entryAddress_eq base entry

theorem resolve_eq_slot (m : LoadedModule) (function : String) :
    m.resolve function = (slotOf m.exports function).map (addressOf m.image.actualBase) := by
  rw [SideModule.resolve, slotOf, ordinalOf]
  cases stripHash function with
  | some ordStr =>
    dsimp only
    cases parseU32 ordStr with
    | none => rfl
    | some ord => exact address_eq_slot m.image.actualBase m.exports ord
  | none =>
    dsimp only
    cases m.exports.names.find? fun n : NamedExport => n.name = function with
    | none => rfl
    | some named => exact address_eq_slot m.image.actualBase m.exports named.ordinal

theorem resolveIn_cons (name : String) (exports : ExportTable) (base : BitVec 64)
    (rest : List (String × ExportTable × BitVec 64)) (lc function : String) :
    resolveIn ((name, exports, base) :: rest) lc function =
      if name = lc then (slotOf exports function).map (addressOf base)
      else resolveIn rest lc function := by
  rw [resolveIn]
  by_cases hname : name = lc
  · rw [if_neg (not_not.mpr hname), if_pos hname, slotOf, ordinalOf]
    cases stripHash function with
    | some ordStr =>
      dsimp only
      cases parseU32 ordStr with
      | none => rfl
      | some ord => exact address_eq_slot base exports ord
    | none =>
      dsimp only
      cases exports.names.find? fun n : NamedExport => n.name = function with
      | none => rfl
      | some named => exact address_eq_slot base exports named.ordinal
  · rw [if_pos hname, if_neg hname]

/-! ### The resolver of the wiring -/

variable {modules : List LoadedModule} {lc : String}

/-- The copy has no module of the name. -/
theorem resolveIn_of_not_mem (h : ∀ m ∈ modules, m.name ≠ lc) :
    resolveIn (snapshot modules) lc function = none := by
  induction modules with
  | nil => rfl
  | cons m modules ih =>
    rw [snapshot, List.map_cons, resolveIn_cons, if_neg (h m List.mem_cons_self)]
    exact ih fun m' hm' => h m' (List.mem_cons_of_mem m hm')

/-- The module of the name answers as `SideModule::resolve` does. -/
theorem resolveIn_of_mem (hdistinct : (modules.map SideModule.name).Nodup) (hm : m ∈ modules)
    (hname : m.name = lc) : resolveIn (snapshot modules) lc function = m.resolve function := by
  induction modules with
  | nil => cases hm
  | cons m' modules ih =>
    rw [List.map_cons, List.nodup_cons] at hdistinct
    rw [snapshot, List.map_cons, resolveIn_cons]
    rcases List.mem_cons.mp hm with rfl | hm
    · rw [if_pos hname, resolve_eq_slot]
    · have hne : m'.name ≠ lc := by
        intro heq
        apply hdistinct.1
        rw [heq, ← hname]
        exact List.mem_map_of_mem hm
      rw [if_neg hne]
      exact ih hdistinct.2 hm

/-! ### What a module exports -/

/-- The entries are numbered from the base on. -/
def Numbered (t : ExportTable) : Prop :=
  ∀ (i : Nat) (e : ExportEntry), t.entries[i]? = some e → e.ordinal.toNat = t.ordinalBase.toNat + i

theorem numbered_of_parse {image : PeImage} (h : Exports.parse image = .ok (some t)) : Numbered t := by
  intro i e he
  rw [Exports.parse] at h
  cases hdir : image.dataDir dirExport with
  | none =>
    rw [hdir] at h
    cases h
  | some dir =>
    rw [hdir] at h
    obtain ⟨header, -, h⟩ := bind_eq_ok.mp h
    obtain ⟨name, -, h⟩ := bind_eq_ok.mp h
    obtain ⟨entries, hentries, h⟩ := bind_eq_ok.mp h
    obtain ⟨names, -, h⟩ := bind_eq_ok.mp h
    cases h
    obtain ⟨hlen, hget⟩ := collect_eq_ok_iff.mp hentries
    obtain ⟨target, -, hordinal⟩ := bind_eq_ok.mp (hget i e he)
    obtain ⟨ordinal, hadd, heq⟩ := bind_eq_ok.mp hordinal
    cases heq
    have hi : i < header.numFuncs.toNat := by
      rw [← hlen]
      exact (List.getElem?_eq_some_iff.mp he).1
    have hnum := header.numFuncs.isLt
    have hsum := add_eq_ok.mp hadd
    rw [Nat.zero_add, BitVec.toNat_ofNat, Nat.mod_eq_of_lt (by omega)] at hsum
    exact hsum

/-- The ordinal of a symbol: the number of an ordinal string, else the ordinal of the name. -/
def symbolOrdinal (t : ExportTable) (function : String) : Option (BitVec 32) :=
  match (stripHash function).bind parseU32 with
  | some ord => some ord
  | none => (t.names.find? fun n : NamedExport => n.name = function).map NamedExport.ordinal

/-- The RVA of the function with an ordinal, if there is one. -/
def exportedAt (t : ExportTable) (ord : BitVec 32) : Option (BitVec 32) :=
  ((t.entries.find? fun e : ExportEntry => e.ordinal = ord).bind rvaOf).filter (· ≠ 0)

/-- The RVA of the function that a module exports under a symbol. -/
def exported (t : ExportTable) (function : String) : Option (BitVec 32) :=
  (symbolOrdinal t function).bind (exportedAt t)

/-- An ordinal without a function: its slot is empty. -/
def EmptySlot (t : ExportTable) (ord : BitVec 32) : Prop :=
  ∃ e ∈ t.entries, e.ordinal = ord ∧ e.target = .rva 0

/-- A name that begins like an ordinal string and is none. -/
def HashName (function : String) : Prop :=
  stripHash function ≠ none ∧ (stripHash function).bind parseU32 = none

theorem checkedSub_eq_some_iff {x y z : BitVec 32} :
    checkedSub x y = some z ↔ x.toNat = y.toNat + z.toNat := by
  rw [checkedSub]
  split
  · rename_i hle
    have hsub := BitVec.toNat_sub_of_le hle
    rw [BitVec.le_def] at hle
    constructor
    · rintro ⟨⟩
      omega
    · intro h
      apply congrArg some
      apply BitVec.eq_of_toNat_eq
      omega
  · rename_i hle
    rw [BitVec.le_def] at hle
    refine ⟨nofun, fun h => ?_⟩
    omega

theorem ordinal_of_find {ord : BitVec 32} {e : ExportEntry}
    (h : (t.entries.find? fun e : ExportEntry => e.ordinal = ord) = some e) : e.ordinal = ord := by
  have hdecide := List.find?_some h
  exact of_decide_eq_true hdecide

/-- The entry at the index of an ordinal is the one with the ordinal. -/
theorem find_ordinal (hn : Numbered t) (ord : BitVec 32) :
    (t.entries.find? fun e : ExportEntry => e.ordinal = ord) =
      (checkedSub ord t.ordinalBase).bind fun idx => t.entries[idx.toNat]? := by
  cases hfind : t.entries.find? fun e : ExportEntry => e.ordinal = ord with
  | some e =>
    obtain ⟨i, hi⟩ := List.mem_iff_getElem?.mp (List.mem_of_find?_eq_some hfind)
    have hord : e.ordinal = ord := ordinal_of_find hfind
    have hnum := hn i e hi
    rw [hord] at hnum
    have hlt := ord.isLt
    have hidx : (BitVec.ofNat 32 i).toNat = i := by
      rw [BitVec.toNat_ofNat, Nat.mod_eq_of_lt (by omega)]
    have hsub : checkedSub ord t.ordinalBase = some (BitVec.ofNat 32 i) := by
      rw [checkedSub_eq_some_iff, hidx]
      exact hnum
    rw [hsub, Option.bind_some, hidx, hi]
  | none =>
    cases hsub : checkedSub ord t.ordinalBase with
    | none => rfl
    | some idx =>
      rw [Option.bind_some]
      cases hget : t.entries[idx.toNat]? with
      | none => rfl
      | some e =>
        have hnum := hn idx.toNat e hget
        have hord : e.ordinal = ord := by
          apply BitVec.eq_of_toNat_eq
          rw [hnum, checkedSub_eq_some_iff.mp hsub]
        have hno := List.find?_eq_none.mp hfind e (List.mem_of_getElem? hget)
        exact absurd (decide_eq_true hord) hno

theorem exportedAt_eq (hn : Numbered t) (ord : BitVec 32) :
    exportedAt t ord = (slotAtOrdinal t ord).filter (· ≠ 0) := by
  rw [exportedAt, slotAtOrdinal, find_ordinal hn, Option.bind_assoc]

theorem slotAtOrdinal_eq_zero_iff (hn : Numbered t) (ord : BitVec 32) :
    slotAtOrdinal t ord = some 0 ↔ EmptySlot t ord := by
  have hrva : ∀ e : ExportEntry, rvaOf e = some 0 ↔ e.target = .rva 0 := by
    intro e
    rw [rvaOf]
    cases e.target with
    | rva rva => simp only [Option.some.injEq, ExportTarget.rva.injEq]
    | forwarded target => exact ⟨nofun, nofun⟩
  have hslot : slotAtOrdinal t ord =
      (t.entries.find? fun e : ExportEntry => e.ordinal = ord).bind rvaOf := by
    rw [find_ordinal hn, slotAtOrdinal, Option.bind_assoc]
  rw [hslot]
  constructor
  · intro h
    obtain ⟨e, he, hzero⟩ := Option.bind_eq_some_iff.mp h
    exact ⟨e, List.mem_of_find?_eq_some he, ordinal_of_find he, (hrva e).mp hzero⟩
  · rintro ⟨e, hmem, rfl, htarget⟩
    -- the entries have different ordinals
    obtain ⟨i, hi⟩ := List.mem_iff_getElem?.mp hmem
    have hnum := hn i e hi
    have hlt := e.ordinal.isLt
    have hidx : (BitVec.ofNat 32 i).toNat = i := by
      rw [BitVec.toNat_ofNat, Nat.mod_eq_of_lt (by omega)]
    have hsub : checkedSub e.ordinal t.ordinalBase = some (BitVec.ofNat 32 i) := by
      rw [checkedSub_eq_some_iff, hidx]
      exact hnum
    rw [find_ordinal hn, hsub, Option.bind_some, hidx, hi]
    exact (hrva e).mpr htarget

theorem filter_ne_zero {r : BitVec 32} (h : r ≠ 0) : (some r).filter (· ≠ 0) = some r :=
  Option.filter_some_pos (decide_eq_true h)

/-- An answer without the empty slots is the answer, if the slot is not empty. -/
theorem filter_eq_self_iff (o : Option (BitVec 32)) : o = o.filter (· ≠ 0) ↔ o ≠ some 0 := by
  cases o with
  | none => exact ⟨fun _ => nofun, fun _ => rfl⟩
  | some r =>
    by_cases hr : r = 0
    · rw [hr]
      exact ⟨nofun, fun h => absurd rfl h⟩
    · rw [filter_ne_zero hr]
      refine ⟨fun _ h => hr (Option.some.inj h), fun _ => rfl⟩

/-- `resolve` gives the address of what the module exports, if the slot that it reads is not empty and a
symbol that only looks like an ordinal string is not exported. -/
theorem resolve_eq_exported_iff (hn : Numbered m.exports) :
    m.resolve function = (exported m.exports function).map (addressOf m.image.actualBase) ↔
      (∀ ord, ordinalOf m.exports function = some ord → ¬ EmptySlot m.exports ord) ∧
        (HashName function → exported m.exports function = none) := by
  have hinj := Option.map_injective (addressOf_injective m.image.actualBase)
  rw [resolve_eq_slot, hinj.eq_iff]
  -- with the same ordinal on both sides
  have hsame : ∀ o : Option (BitVec 32),
      (o.bind (slotAtOrdinal m.exports) = o.bind (exportedAt m.exports) ↔
        ∀ ord, o = some ord → ¬ EmptySlot m.exports ord) := by
    intro o
    cases o with
    | none =>
      constructor
      · rintro - ord ⟨⟩
      · exact fun _ => rfl
    | some ord =>
      rw [Option.bind_some, Option.bind_some, exportedAt_eq hn, filter_eq_self_iff, ne_eq,
        slotAtOrdinal_eq_zero_iff hn]
      constructor
      · rintro hne _ ⟨⟩
        exact hne
      · intro h
        exact h ord rfl
  rw [slotOf, exported, symbolOrdinal, HashName]
  cases hstrip : stripHash function with
  | none =>
    have hord : ordinalOf m.exports function =
        (m.exports.names.find? fun n : NamedExport => n.name = function).map NamedExport.ordinal := by
      rw [ordinalOf, hstrip]
    rw [hord, Option.bind_none]
    dsimp only
    rw [hsame]
    exact ⟨fun h => ⟨h, fun hname => absurd rfl hname.1⟩, And.left⟩
  | some ordStr =>
    have hord : ordinalOf m.exports function = parseU32 ordStr := by
      rw [ordinalOf, hstrip]
    rw [hord, Option.bind_some]
    cases hparse : parseU32 ordStr with
    | some ord =>
      dsimp only
      rw [hsame]
      exact ⟨fun h => ⟨h, fun hname => nomatch hname.2⟩, And.left⟩
    | none =>
      dsimp only
      rw [Option.bind_none]
      constructor
      · intro h
        exact ⟨fun _ hnone => (nomatch hnone), fun _ => h.symm⟩
      · rintro ⟨-, h⟩
        exact (h ⟨nofun, rfl⟩).symm

/-- **Side modules.**  For a symbol that the thunks do not resolve, the resolver of the wiring gives what
`SideModule::resolve` of the module with the name gives, and nothing if there is no such module.  That is
the address of what the module exports exactly if the slot that is read is not empty and no name that
only looks like an ordinal string is exported. -/
theorem wireResolver_agrees (resolve : String → String → Option (BitVec 64)) (dll : String)
    (hdistinct : (modules.map SideModule.name).Nodup)
    (hexports : ∀ m ∈ modules, Exports.parse m.image = .ok (some m.exports))
    (hthunks : resolve dll function = none) :
    (∀ m ∈ modules, m.name = dll.toLower →
      wireResolver resolve modules dll function = m.resolve function ∧
        (wireResolver resolve modules dll function =
            (exported m.exports function).map (addressOf m.image.actualBase) ↔
          (∀ ord, ordinalOf m.exports function = some ord → ¬ EmptySlot m.exports ord) ∧
            (HashName function → exported m.exports function = none))) ∧
      ((∀ m ∈ modules, m.name ≠ dll.toLower) →
        wireResolver resolve modules dll function = none) := by
  rw [wireResolver, hthunks]
  constructor
  · intro m hm hname
    have hagree : resolveIn (snapshot modules) dll.toLower function = m.resolve function :=
      resolveIn_of_mem hdistinct hm hname
    refine ⟨hagree, ?_⟩
    dsimp only
    rw [hagree]
    exact resolve_eq_exported_iff (numbered_of_parse (hexports m hm))
  · intro hnone
    exact resolveIn_of_not_mem hnone

/-- A module with a function at ordinal 5 and an empty slot at ordinal 6. -/
def gapModule : LoadedModule :=
  ⟨"k.dll", Exports.gapImage, Exports.gapTable⟩

theorem wireResolver_gapModule :
    wireResolver (fun _ _ => none) [gapModule] "K.DLL" "#5" = gapModule.resolve "#5" := by
  have hexports : ∀ m ∈ [gapModule], Exports.parse m.image = .ok (some m.exports) := by
    intro m hm
    rw [List.mem_singleton.mp hm]
    exact Exports.parse_gapImage
  have hdistinct : ([gapModule].map SideModule.name).Nodup := List.nodup_singleton "k.dll"
  exact ((wireResolver_agrees (fun _ _ => none) "K.DLL" hdistinct hexports rfl).1
    gapModule (List.mem_singleton_self _) (by decide +kernel)).1

/-- Ordinal 6 has no function, and gets the address of the image's headers. -/
theorem wireResolver_gapModule_empty :
    Exports.parse gapModule.image = .ok (some gapModule.exports) ∧
      wireResolver (fun _ _ => none) [gapModule] "k.dll" "#6" = some Exports.gapImage.actualBase ∧
      gapModule.resolve "#6" = some Exports.gapImage.actualBase ∧
      (exported gapModule.exports "#6").map (addressOf gapModule.image.actualBase) = none :=
  ⟨Exports.parse_gapImage, by decide +kernel, by decide, by decide⟩

end Quantum.Cli
