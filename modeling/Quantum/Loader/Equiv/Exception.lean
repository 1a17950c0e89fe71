import Quantum.Loader.Equiv.Unwind

/-!
# Correctness of the unwind lookup

* `lookupRuntimeFunction_iff`: the search returns an entry exactly if its range contains the RVA.  The
  search is right for every comparison by which the list is sorted (`binarySearchBy_isSome`).
* `resolveHandler_of_chain`: a chain of at most 16 records is followed to its last one.  The records and
  the links are read off the words of the image.
-/

namespace Quantum.Loader

open LeWord Checked

/-! ### `slice::binary_search_by` -/

section BinarySearch

variable {α : Type} {l : List α} {cmp : α → Ordering}

/-- The list is sorted as the comparison sees it: first what is less, then what is equal, then what is
greater. -/
def SortedBy (l : List α) (cmp : α → Ordering) : Prop :=
  l.Pairwise fun a b => (cmp b = .lt → cmp a = .lt) ∧ (cmp b = .eq → cmp a ≠ .gt)

/-- What the loop keeps of the range from `base` on with `size` elements: behind it all is greater, and
its first element is not, unless it is the first of all. -/
structure SearchInv (l : List α) (cmp : α → Ordering) (base size : Nat) : Prop where
  inside : base + size ≤ l.length
  above : ∀ i a, l[i]? = some a → base + size ≤ i → cmp a = .gt
  start : base = 0 ∨ ∀ a, l[base]? = some a → cmp a ≠ .gt

theorem searchInv_init : SearchInv l cmp 0 l.length := by
  refine ⟨by omega, ?_, .inl rfl⟩
  intro i a ha hi
  have hlt := (List.getElem?_eq_some_iff.mp ha).1
  omega

/-- The loop ends with a range of one element. -/
theorem binarySearchLoop_spec (hs : SortedBy l cmp) :
    ∀ fuel base size, 0 < size → size ≤ fuel + 1 → SearchInv l cmp base size →
      SearchInv l cmp (binarySearchLoop (fun i => (l[i]?.map cmp).getD .gt) fuel base size) 1 := by
  intro fuel
  induction fuel with
  | zero =>
    intro base size hpos hle hinv
    obtain rfl : size = 1 := by omega
    exact hinv
  | succ fuel ih =>
    intro base size hpos hle hinv
    rw [binarySearchLoop]
    by_cases hsize : size ≤ 1
    · obtain rfl : size = 1 := by omega
      rw [if_pos hsize]
      exact hinv
    · rw [if_neg hsize]
      dsimp only
      have hin := hinv.inside
      have hmid : base + size / 2 < l.length := by omega
      have hget : l[base + size / 2]? = some l[base + size / 2] := List.getElem?_eq_getElem hmid
      rw [hget, Option.map_some, Option.getD_some]
      apply ih _ _ (by omega) (by omega)
      by_cases hcmp : cmp l[base + size / 2] = .gt
      · -- from the middle on all is greater
        rw [if_pos hcmp]
        refine ⟨by omega, ?_, hinv.start⟩
        intro i a ha hi
        rcases Nat.lt_or_ge (base + size / 2) i with hlt | hge
        · have hsorted := List.pairwise_iff_getElem.mp hs (base + size / 2) i hmid
            (List.getElem?_eq_some_iff.mp ha).1 hlt
          rw [(List.getElem?_eq_some_iff.mp ha).2] at hsorted
          cases hcase : cmp a with
          | lt => rw [hsorted.1 hcase] at hcmp; cases hcmp
          | eq => exact absurd hcmp (hsorted.2 hcase)
          | gt => rfl
        · obtain rfl : i = base + size / 2 := by omega
          rw [hget] at ha
          rw [← Option.some.inj ha]
          exact hcmp
      · rw [if_neg hcmp]
        refine ⟨by omega, ?_, .inr ?_⟩
        · intro i a ha hi
          exact hinv.above i a ha (by omega)
        · intro a ha
          rw [hget] at ha
          rw [← Option.some.inj ha]
          exact hcmp

/-- What is found is equal. -/
theorem binarySearchBy_eq_some {a : α} (h : binarySearchBy l cmp = some a) : a ∈ l ∧ cmp a = .eq := by
  rw [binarySearchBy] at h
  obtain ⟨found, hfound, hif⟩ := Option.bind_eq_some_iff.mp h
  by_cases heq : cmp found = .eq
  · rw [if_pos heq] at hif
    rw [← Option.some.inj hif]
    exact ⟨List.mem_of_getElem? hfound, heq⟩
  · rw [if_neg heq] at hif
    cases hif

/-- In a sorted list something is found if anything is equal. -/
theorem binarySearchBy_isSome (hs : SortedBy l cmp) {a : α} (ha : a ∈ l) (heq : cmp a = .eq) :
    ∃ b, binarySearchBy l cmp = some b := by
  have hpos : 0 < l.length := List.length_pos_of_mem ha
  have hinv := binarySearchLoop_spec hs l.length 0 l.length hpos (by omega) searchInv_init
  rw [binarySearchBy]
  generalize binarySearchLoop (fun i => (l[i]?.map cmp).getD .gt) l.length 0 l.length = base at hinv
  have hbase : base < l.length := hinv.inside
  have hget : l[base]? = some l[base] := List.getElem?_eq_getElem hbase
  obtain ⟨i, hi, hai⟩ := List.mem_iff_getElem.mp ha
  have hle : i ≤ base := by
    by_contra hlt
    have hgt := hinv.above i a (by rw [List.getElem?_eq_getElem hi, hai]) (by omega)
    rw [heq] at hgt
    cases hgt
  have hfound : cmp l[base] = .eq := by
    rcases Nat.lt_or_eq_of_le hle with hlt | rfl
    · have hsorted := List.pairwise_iff_getElem.mp hs i base hi hbase hlt
      rw [hai, heq] at hsorted
      have hstart : cmp l[base] ≠ .gt := by
        rcases hinv.start with hzero | hne
        · omega
        · exact hne _ hget
      cases hcase : cmp l[base] with
      | lt => cases hsorted.1 hcase
      | eq => rfl
      | gt => exact absurd hcase hstart
    · rw [hai]
      exact heq
  refine ⟨l[base], ?_⟩
  rw [hget, Option.bind_eq_bind, Option.bind_some, if_pos hfound]

end BinarySearch

/-! ### `lookup_runtime_function` -/

/-- The half-open range of an entry contains an RVA. -/
def RuntimeFunction.Contains (f : RuntimeFunction) (rva : BitVec 32) : Prop :=
  f.beginRva ≤ rva ∧ rva < f.endRva

/-- The entries are sorted by their starts, and no entry starts in the range of an earlier one. -/
def SortedFunctions (funcs : List RuntimeFunction) : Prop :=
  funcs.Pairwise fun f g => f.beginRva ≤ g.beginRva ∧ ¬ f.Contains g.beginRva

variable {funcs : List RuntimeFunction} {f g : RuntimeFunction} {rva : BitVec 32}

theorem compare_eq_iff : f.compare rva = .eq ↔ f.Contains rva := by
  rw [RuntimeFunction.compare, RuntimeFunction.Contains]
  by_cases hb : rva < f.beginRva
  · rw [if_pos hb]
    have hnot : ¬ f.beginRva ≤ rva := by
      rw [BitVec.le_def]
      rw [BitVec.lt_def] at hb
      omega
    exact ⟨nofun, fun h => absurd h.1 hnot⟩
  · rw [if_neg hb]
    rw [BitVec.lt_def] at hb
    by_cases he : rva ≥ f.endRva
    · rw [if_pos he]
      rw [ge_iff_le, BitVec.le_def] at he
      refine ⟨nofun, fun h => ?_⟩
      have hlt := BitVec.lt_def.mp h.2
      omega
    · rw [if_neg he]
      rw [ge_iff_le, BitVec.le_def] at he
      refine ⟨fun _ => ⟨?_, ?_⟩, fun _ => rfl⟩
      · rw [BitVec.le_def]
        omega
      · rw [BitVec.lt_def]
        omega

/-- Below an entry that starts at or before the RVA, every entry ends before it. -/
theorem compare_lt_of_not_gt (hle : f.beginRva ≤ g.beginRva) (hnot : ¬ f.Contains g.beginRva)
    (hg : g.compare rva ≠ .gt) : f.compare rva = .lt := by
  have hgb : ¬ rva < g.beginRva := by
    intro hlt
    rw [RuntimeFunction.compare, if_pos hlt] at hg
    exact hg rfl
  rw [BitVec.le_def] at hle
  rw [BitVec.lt_def] at hgb
  rw [RuntimeFunction.Contains, BitVec.le_def, BitVec.lt_def] at hnot
  have hbegin : ¬ rva < f.beginRva := by
    rw [BitVec.lt_def]
    omega
  have hend : rva ≥ f.endRva := by
    rw [ge_iff_le, BitVec.le_def]
    omega
  rw [RuntimeFunction.compare, if_neg hbegin, if_pos hend]

theorem SortedFunctions.sortedBy (h : SortedFunctions funcs) (rva : BitVec 32) :
    SortedBy funcs (RuntimeFunction.compare rva) := by
  apply List.Pairwise.imp _ h
  rintro f g ⟨hle, hnot⟩
  constructor
  · intro hg
    apply compare_lt_of_not_gt hle hnot
    rw [hg]
    nofun
  · intro hg
    have hlt : f.compare rva = .lt := by
      apply compare_lt_of_not_gt hle hnot
      rw [hg]
      nofun
    rw [hlt]
    nofun

/-- At most one range contains an RVA. -/
theorem SortedFunctions.contains_unique (h : SortedFunctions funcs) (hf : f ∈ funcs) (hg : g ∈ funcs)
    (hfr : f.Contains rva) (hgr : g.Contains rva) : f = g := by
  obtain ⟨i, hi, rfl⟩ := List.mem_iff_getElem.mp hf
  obtain ⟨j, hj, rfl⟩ := List.mem_iff_getElem.mp hg
  have hne : ∀ {i j : Nat} (hi : i < funcs.length) (hj : j < funcs.length),
      funcs[i].Contains rva → funcs[j].Contains rva → ¬ i < j := by
    intro i j hi hj hir hjr hlt
    have hpair := List.pairwise_iff_getElem.mp h i j hi hj hlt
    have hgt : funcs[j].compare rva ≠ .gt := by
      rw [compare_eq_iff.mpr hjr]
      nofun
    have hcmp := compare_lt_of_not_gt hpair.1 hpair.2 hgt
    rw [compare_eq_iff.mpr hir] at hcmp
    cases hcmp
  have hij : i = j := by
    have h1 := hne hi hj hfr hgr
    have h2 := hne hj hi hgr hfr
    omega
  subst hij
  rfl

/-- The search returns the entry whose range contains the RVA. -/
theorem lookupRuntimeFunction_iff (h : SortedFunctions funcs) :
    lookupRuntimeFunction funcs rva = some f ↔ f ∈ funcs ∧ f.Contains rva := by
  constructor
  · intro hfound
    obtain ⟨hmem, heq⟩ := binarySearchBy_eq_some hfound
    exact ⟨hmem, compare_eq_iff.mp heq⟩
  · rintro ⟨hmem, hcontains⟩
    obtain ⟨g, hg⟩ := binarySearchBy_isSome (h.sortedBy rva) hmem (compare_eq_iff.mpr hcontains)
    obtain ⟨hgmem, hgeq⟩ := binarySearchBy_eq_some hg
    rw [h.contains_unique hmem hgmem hcontains (compare_eq_iff.mp hgeq)]
    exact hg

/-! ### Records of unwind information -/

namespace Exception

variable {image : PeImage} {unwindRva : BitVec 32} {rva : Nat}

def recordFlags (image : LoadedImage) (rva : Nat) : BitVec 8 :=
  (image.byte rva >>> 3) &&& 0x1F

/-- The size of the codes, which are padded to an even number of two bytes each. -/
def codesSize (image : LoadedImage) (rva : Nat) : Nat :=
  ((image.byte (rva + 2)).toNat + 1) / 2 * 2 * 2

/-- Where the link or the handler is, behind the codes. -/
def trailerAt (image : LoadedImage) (rva : Nat) : Nat :=
  rva + 4 + codesSize image rva

/-- The record links to another entry. -/
def HasLink (image : LoadedImage) (rva : Nat) : Prop :=
  recordFlags image rva &&& unwFlagChaininfo ≠ 0

def HasHandler (image : LoadedImage) (rva : Nat) : Prop :=
  recordFlags image rva &&& (unwFlagEhandler ||| unwFlagUhandler) ≠ 0

instance {image : LoadedImage} : Decidable (HasLink image rva) :=
  inferInstanceAs (Decidable (recordFlags image rva &&& unwFlagChaininfo ≠ 0))

instance {image : LoadedImage} : Decidable (HasHandler image rva) :=
  inferInstanceAs (Decidable (recordFlags image rva &&& (unwFlagEhandler ||| unwFlagUhandler) ≠ 0))

def trailerSize (image : LoadedImage) (rva : Nat) : Nat :=
  if HasLink image rva then 12 else if HasHandler image rva then 4 else 0

/-- A record of a known version that lies in the image, with its codes and what follows them. -/
structure WellFormedRecord (image : LoadedImage) (rva : Nat) : Prop where
  version : image.byte rva &&& 0x07 = 1 ∨ image.byte rva &&& 0x07 = 2
  inside : trailerAt image rva + trailerSize image rva ≤ image.len

/-- The entry in the image at `a`. -/
def functionAt (image : LoadedImage) (a : Nat) : RuntimeFunction :=
  ⟨word 32 4 image.byte a, word 32 4 image.byte (a + 4), word 32 4 image.byte (a + 8)⟩

/-- The record in the image at `rva`. -/
def recordAt (image : LoadedImage) (rva : Nat) : UnwindInfo where
  version := image.byte rva &&& 0x07
  flags := recordFlags image rva
  sizeOfProlog := image.byte (rva + 1)
  countOfCodes := image.byte (rva + 2)
  frameRegister := image.byte (rva + 3) &&& 0x0F
  frameOffset := (image.byte (rva + 3) >>> 4) &&& 0x0F
  unwindCodes := (List.range (codesSize image rva)).map fun i => image.byte (rva + 4 + i)
  handlerRva :=
    if HasLink image rva then none
    else if HasHandler image rva then some (word 32 4 image.byte (trailerAt image rva))
    else none
  chainedFunction :=
    if HasLink image rva then some (functionAt image (trailerAt image rva)) else none

theorem trailerOf_recordFlags {image : LoadedImage} {off : BitVec 32} :
    trailerOf image (recordFlags image rva) off =
      if HasLink image rva then
        (image.rvaToSlice off 12).map fun b => (none, some (RuntimeFunction.ofBytes b))
      else if HasHandler image rva then (image.rvaToSlice off 4).map fun b => (some (le32 b), none)
      else some (none, none) :=
  rfl

theorem trailerOf_of_wellFormed {image : LoadedImage} {off : BitVec 32}
    (hoff : off.toNat = trailerAt image rva)
    (hin : trailerAt image rva + trailerSize image rva ≤ image.len) :
    trailerOf image (recordFlags image rva) off =
      some ((recordAt image rva).handlerRva, (recordAt image rva).chainedFunction) := by
  rw [trailerSize] at hin
  by_cases hlink : HasLink image rva
  · rw [if_pos hlink] at hin
    have hslice := LoadedImage.rvaToSlice_of_le (show off.toNat + 12 ≤ image.len by omega)
    have hfunction : RuntimeFunction.ofBytes ((List.range 12).map fun i => image.byte (off.toNat + i)) =
        functionAt image (trailerAt image rva) := by
      have hfirst := @LoadedImage.le32_slice 12 0 (by decide) image.byte off.toNat
      rw [List.drop_zero] at hfirst
      rw [RuntimeFunction.ofBytes, hfirst, LoadedImage.le32_slice 4 (by decide),
        LoadedImage.le32_slice 8 (by decide), hoff]
      rfl
    rw [trailerOf_recordFlags, if_pos hlink, hslice, Option.map_some, hfunction, recordAt]
    simp only [if_pos hlink]
  · rw [if_neg hlink] at hin
    by_cases hhandler : HasHandler image rva
    · rw [if_pos hhandler] at hin
      have hword := LoadedImage.le32_rvaToSlice (show off.toNat + 4 ≤ image.len by omega)
      rw [trailerOf_recordFlags, if_neg hlink, if_pos hhandler, recordAt]
      simp only [if_neg hlink, if_pos hhandler]
      obtain ⟨b, hb, hle⟩ := Option.map_eq_some_iff.mp hword
      rw [hb, Option.map_some, hle, hoff]
    · rw [trailerOf_recordFlags, if_neg hlink, if_neg hhandler, recordAt]
      simp only [if_neg hlink, if_neg hhandler]

/-- A well-formed record is parsed. -/
theorem parseUnwindInfo_of_wellFormed (h : WellFormedRecord image.toLoadedImage unwindRva.toNat) :
    parseUnwindInfo image unwindRva = .ok (recordAt image.toLoadedImage unwindRva.toNat) := by
  have hlen := image.len_le
  have hin := h.inside
  have hat : trailerAt image.toLoadedImage unwindRva.toNat =
      unwindRva.toNat + 4 + codesSize image.toLoadedImage unwindRva.toNat := rfl
  have h4 : (unwindRva + 4).toNat = unwindRva.toNat + 4 := by
    rw [BitVec.toNat_add, Nat.mod_eq_of_lt (by have h4 : (4 : BitVec 32).toNat = 4 := rfl; omega)]
    rfl
  have hoff : (unwindRva + 4 + BitVec.ofNat 32 (codesSize image.toLoadedImage unwindRva.toNat)).toNat =
      trailerAt image.toLoadedImage unwindRva.toNat := by
    rw [BitVec.toNat_add, h4, BitVec.toNat_ofNat, hat]
    omega
  have hheader : image.rvaToSlice unwindRva 4 =
      some ((List.range 4).map fun i => image.byte (unwindRva.toNat + i)) :=
    LoadedImage.rvaToSlice_of_le (by omega)
  have hcodes : image.rvaToSlice (unwindRva + 4) (codesSize image.toLoadedImage unwindRva.toNat) =
      some ((List.range (codesSize image.toLoadedImage unwindRva.toNat)).map
        fun i => image.byte (unwindRva.toNat + 4 + i)) := by
    rw [LoadedImage.rvaToSlice_of_le (by rw [h4]; omega), h4]
  have hversion : ¬ (image.byte unwindRva.toNat &&& 0x07 ≠ 1 ∧
      image.byte unwindRva.toNat &&& 0x07 ≠ 2) := by
    rintro ⟨h1, h2⟩
    rcases h.version with hv | hv
    · exact h1 hv
    · exact h2 hv
  have hparse : Loader.parseUnwindInfo image.toLoadedImage unwindRva =
      some (recordAt image.toLoadedImage unwindRva.toNat) := by
    rw [parseUnwindInfo_eq, hheader, Option.bind_some]
    have hget : ∀ i < 4, ((List.range 4).map fun i => image.byte (unwindRva.toNat + i)).getD i 0 =
        image.byte (unwindRva.toNat + i) := by
      intro i hi
      rw [List.getD_eq_getElem?_getD, List.getElem?_map, List.getElem?_range hi]
      rfl
    rw [hget 0 (by decide), hget 2 (by decide), Nat.add_zero, if_neg hversion]
    have htrailer := trailerOf_of_wellFormed hoff hin
    rw [codesSize] at hcodes htrailer
    dsimp only
    rw [hcodes, Option.bind_some]
    rw [recordFlags] at htrailer
    rw [htrailer, Option.map_some]
    rfl
  have hoption := parseUnwindInfo_toOption image unwindRva
  rw [hparse] at hoption
  cases hres : parseUnwindInfo image unwindRva with
  | error e =>
    rw [hres] at hoption
    cases hoption
  | ok ui =>
    rw [hres] at hoption
    rw [Option.some.inj hoption]

/-! ### Chains -/

/-- `n` well-formed records lead from an entry to the entry of the last one, which has no link. -/
inductive Chain (image : LoadedImage) : Nat → RuntimeFunction → RuntimeFunction → Prop where
  | last {f : RuntimeFunction} (hf : WellFormedRecord image f.unwindInfoRva.toNat)
    (hlast : ¬ HasLink image f.unwindInfoRva.toNat) : Chain image 1 f f
  | link {n : Nat} {f g : RuntimeFunction} (hf : WellFormedRecord image f.unwindInfoRva.toNat)
    (hlink : HasLink image f.unwindInfoRva.toNat)
    (rest : Chain image n (functionAt image (trailerAt image f.unwindInfoRva.toNat)) g) :
    Chain image (n + 1) f g

theorem resolveHandlerLoop_of_chain {n : Nat} {f g : RuntimeFunction}
    (h : Chain image.toLoadedImage n f g) : ∀ left, n ≤ left →
      resolveHandlerLoop image left f =
        .ok (recordAt image.toLoadedImage g.unwindInfoRva.toNat, g) := by
  induction h with
  | last hf hlast =>
    intro left hleft
    obtain ⟨left, rfl⟩ : ∃ k, left = k + 1 := ⟨left - 1, by omega⟩
    rw [resolveHandlerLoop, parseUnwindInfo_of_wellFormed hf, ok_bind, recordAt]
    simp only [if_neg hlast]
    rfl
  | link hf hlink rest ih =>
    intro left hleft
    obtain ⟨left, rfl⟩ : ∃ k, left = k + 1 := ⟨left - 1, by omega⟩
    have hnext := ih left (by omega)
    rw [resolveHandlerLoop, parseUnwindInfo_of_wellFormed hf, ok_bind, recordAt]
    simp only [if_pos hlink]
    exact hnext

end Exception

/-- **Unwind lookup.**  In a sorted array the search returns an entry exactly if its range contains the
RVA.  `resolve_handler` ends without a panic on every image, and for a chain of at most 16 records it
returns the last one with its entry. -/
theorem unwindLookup (image : PeImage) (h : SortedFunctions funcs) :
    (∀ rva f, lookupRuntimeFunction funcs rva = some f ↔ f ∈ funcs ∧ f.Contains rva) ∧
      (∀ f, Total (Exception.resolveHandler image f)) ∧
      ∀ n f g, n ≤ 16 → Exception.Chain image.toLoadedImage n f g →
        Exception.resolveHandler image f =
          .ok (Exception.recordAt image.toLoadedImage g.unwindInfoRva.toNat, g) := by
  refine ⟨fun rva f => lookupRuntimeFunction_iff h, ?_, ?_⟩
  · intro f
    exact Exception.total_resolveHandlerLoop image 16 f
  · intro n f g hn hchain
    exact Exception.resolveHandlerLoop_of_chain hchain 16 hn

theorem chainedImage_len_le : 0x40 ≤ 2 ^ 31 := by
  decide

/-- A record at 0x10 that links to the entry of the record at 0x30, which has a handler. -/
def chainedImage : PeImage where
  actualBase := 0x140000000
  len := 0x40
  byte i := ([(0x10, 0x21), (0x15, 0x10), (0x18, 0x40), (0x19, 0x10), (0x1C, 0x30),
    (0x30, 0x09), (0x35, 0x20)].lookup i).getD 0
  preferredBase := 0x140000000
  sizeOfImage := 0x40
  sizeOfHeaders := 0x10
  entryRva := 0
  subsystem := 3
  bitness := .x86_64
  sections := []
  dataDirectories := []
  len_le := chainedImage_len_le

theorem chain_chainedImage (f : RuntimeFunction) (hf : f.unwindInfoRva = 0x10) :
    Exception.Chain chainedImage.toLoadedImage 2 f ⟨0x1000, 0x1040, 0x30⟩ := by
  apply Exception.Chain.link
  · rw [hf]
    exact ⟨by decide, by decide⟩
  · rw [hf]
    decide
  · rw [hf]
    have hnext : Exception.functionAt chainedImage.toLoadedImage
        (Exception.trailerAt chainedImage.toLoadedImage (0x10 : BitVec 32).toNat) =
        ⟨0x1000, 0x1040, 0x30⟩ := by decide
    rw [hnext]
    exact .last ⟨by decide, by decide⟩ (by decide)

/-- The last RVA of the first of two entries. -/
theorem unwindLookup_chainedImage :
    lookupRuntimeFunction [⟨0x1000, 0x1040, 0x10⟩, ⟨0x1050, 0x1080, 0x30⟩] 0x103F =
        some ⟨0x1000, 0x1040, 0x10⟩ ∧
      Exception.resolveHandler chainedImage ⟨0x1000, 0x1040, 0x10⟩ =
        .ok (Exception.recordAt chainedImage.toLoadedImage 0x30, ⟨0x1000, 0x1040, 0x30⟩) := by
  have hsorted : SortedFunctions [⟨0x1000, 0x1040, 0x10⟩, ⟨0x1050, 0x1080, 0x30⟩] := by
    rw [SortedFunctions, List.pairwise_pair, RuntimeFunction.Contains]
    decide
  obtain ⟨hlookup, -, hresolve⟩ := unwindLookup chainedImage hsorted
  refine ⟨(hlookup _ _).mpr ⟨List.mem_cons_self, ?_⟩, ?_⟩
  · rw [RuntimeFunction.Contains]
    decide
  · exact hresolve 2 _ _ (by decide) (chain_chainedImage _ rfl)

/-- An empty range in another one: the entries are sorted by their starts and no RVA is in both ranges, but
the search, which begins with the second, does not find the first. -/
theorem lookup_misses_around_empty :
    [(⟨0x1000, 0x1040, 0x10⟩ : RuntimeFunction), ⟨0x1010, 0x1010, 0x30⟩].Pairwise
        (fun f g => f.beginRva ≤ g.beginRva ∧ ∀ rva, ¬ (f.Contains rva ∧ g.Contains rva)) ∧
      RuntimeFunction.Contains ⟨0x1000, 0x1040, 0x10⟩ 0x1020 ∧
      lookupRuntimeFunction [⟨0x1000, 0x1040, 0x10⟩, ⟨0x1010, 0x1010, 0x30⟩] 0x1020 = none := by
  refine ⟨?_, ?_, rfl⟩
  · rw [List.pairwise_pair]
    refine ⟨by decide, ?_⟩
    rintro rva ⟨-, hbegin, hend⟩
    dsimp only at hbegin hend
    rw [BitVec.le_def] at hbegin
    rw [BitVec.lt_def] at hend
    omega
  · rw [RuntimeFunction.Contains]
    decide

end Quantum.Loader
