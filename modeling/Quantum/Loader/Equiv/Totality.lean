import Quantum.Loader.Resources
import Quantum.Loader.Unwind
import Quantum.Loader.Equiv.Image

/-!
# The parsers on hostile input

Every parser is a computation that may panic, on an addition or a multiplication that overflows or an
index out of bounds.  An image has at most 2 GiB, so an RVA at which something has been read is small,
and the sums that follow do not overflow.  The one exception is the ordinal of an export: the base of
the ordinals is any number of 32 bits, and nothing is read at it.  `parsers_total_iff` says that the
parsers are total exactly when the ordinals that `exports::parse` reaches fit in 32 bits.
-/

namespace Quantum.Loader

open Checked

variable {image : PeImage} {α : Type}

/-! ### Slices -/

/-- A slice that has been read lies in the image. -/
theorem sliceOr_eq_ok {rva : BitVec 32} {n : Nat} {e : LoadError} {s : Bytes}
    (h : image.sliceOr rva n e = .ok s) : rva.toNat + n ≤ image.len ∧ s.length = n := by
  obtain ⟨hle, rfl⟩ := LoadedImage.rvaToSlice_eq_some.mp (okOr_eq_ok.mp h)
  exact ⟨hle, by rw [List.length_map, List.length_range]⟩

/-- To read a slice and go on with it. -/
theorem total_sliceOr_bind {rva : BitVec 32} {n : Nat} {e : LoadError}
    {f : Bytes → Checked LoadError α}
    (hf : ∀ s, rva.toNat + n ≤ image.len → s.length = n → Total (f s)) :
    Total (image.sliceOr rva n e >>= f) :=
  total_bind (total_okOr _ _) fun s hs => hf s (sliceOr_eq_ok hs).1 (sliceOr_eq_ok hs).2

theorem total_u32At_bind {s : Bytes} {k : Nat} {f : BitVec 32 → Checked LoadError α}
    (hk : k + 4 ≤ s.length) (hf : ∀ v, Total (f v)) : Total (u32At s k >>= f) :=
  total_bind (total_bind (total_slice_iff.mpr hk) fun _ _ => total_ok _) fun v _ => hf v

theorem total_u16At {s : Bytes} {k : Nat} (hk : k + 2 ≤ s.length) : Total (u16At s k) := by
  refine total_bind (total_index_iff.mpr (by omega)) fun lo _ => ?_
  exact total_bind (total_index_iff.mpr (by omega)) fun hi _ => total_ok _

theorem total_u16At_bind {s : Bytes} {k : Nat} {f : BitVec 16 → Checked LoadError α}
    (hk : k + 2 ≤ s.length) (hf : ∀ v, Total (f v)) : Total (u16At s k >>= f) :=
  total_bind (total_u16At hk) fun v _ => hf v

/-! ### `PeFile::parse` -/

theorem total_readLe {n : Nat} {ofLe : Bytes → α} {what : String} {b : Bytes} {off : BitVec 64}
    (h : off.toNat + n < 2 ^ 64) : Total (readLe n ofLe what b off) := by
  have hn : (BitVec.ofNat 64 n).toNat = n := by
    rw [BitVec.toNat_ofNat, Nat.mod_eq_of_lt (by omega)]
  refine total_add_bind (by rw [hn]; exact h) fun stop hstop => ?_
  refine total_bind (total_okOr _ _) fun s hs => ?_
  refine total_bind (total_slice_iff.mpr ?_) fun _ _ => total_ok _
  have hget := okOr_eq_ok.mp hs
  unfold getRange at hget
  split at hget
  · rename_i hle
    obtain rfl := Option.some.inj hget
    have hstart := BitVec.le_def.mp hle.1
    have hend := hle.2
    rw [List.length_take, List.length_drop]
    omega
  · cases hget

section Headers

variable {b : Bytes} {off : BitVec 64}

theorem total_readU16 (h : off.toNat < 2 ^ 63) : Total (readU16 b off) :=
  total_readLe (by omega)

theorem total_readU32 (h : off.toNat < 2 ^ 63) : Total (readU32 b off) :=
  total_readLe (by omega)

theorem total_readU64 (h : off.toNat < 2 ^ 63) : Total (readU64 b off) :=
  total_readLe (by omega)

theorem total_readAt {read : Bytes → BitVec 64 → Checked LoadError α} {k : BitVec 64}
    (hread : ∀ {off : BitVec 64}, off.toNat < 2 ^ 63 → Total (read b off))
    (h : off.toNat + k.toNat < 2 ^ 63) : Total (readAt read b off k) :=
  total_add_bind (by omega) fun at' hat => hread (by omega)

theorem total_parseCoff (h : off.toNat < 2 ^ 62) : Total (parseCoff b off) := by
  have hk : ∀ k : BitVec 64, k.toNat < 2 ^ 62 → off.toNat + k.toNat < 2 ^ 63 := fun k hk => by omega
  refine total_bind (total_readU16 (by omega)) fun _ _ => ?_
  refine total_bind (total_readAt total_readU16 (hk 2 (by decide))) fun _ _ => ?_
  refine total_bind (total_readAt total_readU32 (hk 4 (by decide))) fun _ _ => ?_
  refine total_bind (total_readAt total_readU32 (hk 8 (by decide))) fun _ _ => ?_
  refine total_bind (total_readAt total_readU32 (hk 12 (by decide))) fun _ _ => ?_
  refine total_bind (total_readAt total_readU16 (hk 16 (by decide))) fun _ _ => ?_
  refine total_bind (total_readAt total_readU16 (hk 18 (by decide))) fun _ _ => ?_
  exact total_ok _

theorem total_parseDataDirectory (h : off.toNat < 2 ^ 61) {i : Nat} (hi : i < 16) :
    Total (parseDataDirectory b off i) := by
  have hofNat : (BitVec.ofNat 64 i).toNat = i := by
    rw [BitVec.toNat_ofNat, Nat.mod_eq_of_lt (by omega)]
  have hmul : (BitVec.ofNat 64 i).toNat * (8 : BitVec 64).toNat = i * 8 := by rw [hofNat]; rfl
  have h4 : (4 : BitVec 64).toNat = 4 := rfl
  refine total_mul_bind (by omega) fun rel hrel => ?_
  refine total_add_bind (by omega) fun entryOff hentry => ?_
  refine total_bind (total_readU32 (by omega)) fun _ _ => ?_
  exact total_bind (total_readAt total_readU32 (by omega)) fun _ _ => total_ok _

theorem total_parseImageBase (h : off.toNat < 2 ^ 61) (kind : PeKind) :
    Total (parseImageBase b off kind) := by
  have h28 : (28 : BitVec 64).toNat = 28 := rfl
  have h24 : (24 : BitVec 64).toNat = 24 := rfl
  cases kind with
  | pe32 => exact total_map_iff.mpr (total_readAt total_readU32 (by omega))
  | pe32Plus => exact total_readAt total_readU64 (by omega)

theorem total_parseOptional (h : off.toNat < 2 ^ 60) (kind : PeKind) :
    Total (parseOptional b off kind) := by
  have h32 : (32 : BitVec 64).toNat = 32 := rfl
  have hk : ∀ {x : BitVec 64} (k : BitVec 64), x.toNat < 2 ^ 60 + 2 ^ 59 → k.toNat < 2 ^ 59 →
      x.toNat + k.toNat < 2 ^ 61 := fun k _ _ => by omega
  have hread : ∀ {x k : BitVec 64}, x.toNat + k.toNat < 2 ^ 61 → x.toNat + k.toNat < 2 ^ 63 :=
    fun _ => by omega
  have hoff : off.toNat < 2 ^ 60 + 2 ^ 59 := by omega
  refine total_bind (total_readAt total_readU32 (hread (hk 16 hoff (by decide)))) fun _ _ => ?_
  refine total_bind (total_parseImageBase (by omega) kind) fun _ _ => ?_
  refine total_add_bind (by omega) fun fixedOff hfixed => ?_
  have hfix : fixedOff.toNat < 2 ^ 60 + 2 ^ 59 := by omega
  refine total_bind (total_readU32 (by omega)) fun _ _ => ?_
  refine total_bind (total_readAt total_readU32 (hread (hk 4 hfix (by decide)))) fun _ _ => ?_
  refine total_bind (total_readAt total_readU32 (hread (hk 24 hfix (by decide)))) fun _ _ => ?_
  refine total_bind (total_readAt total_readU32 (hread (hk 28 hfix (by decide)))) fun _ _ => ?_
  refine total_bind (total_readAt total_readU16 (hread (hk 36 hfix (by decide)))) fun _ _ => ?_
  have hnum := hk kind.numberOfRvaAndSizesOff hfix (by cases kind <;> decide)
  have hdir := hk kind.dataDirOff hfix (by cases kind <;> decide)
  refine total_add_bind (by omega) fun numOff hnumOff => ?_
  refine total_add_bind (by omega) fun dirOff hdirOff => ?_
  refine total_bind (total_readU32 (by omega)) fun num _ => ?_
  refine total_bind (total_collect_iff.mpr fun j hj _ => ?_) fun _ _ => total_ok _
  exact total_parseDataDirectory (by omega) (by omega)

end Headers

/-- Parsing the headers of a file never panics. -/
theorem total_parse (bytes : Bytes) : Total (PeFile.parse bytes) := by
  have h4 : (4 : BitVec 64).toNat = 4 := rfl
  have h20 : (20 : BitVec 64).toNat = 20 := rfl
  have h40 : (40 : BitVec 64).toNat = 40 := rfl
  have h16 : ∀ v : BitVec 16, (v.setWidth 64).toNat < 2 ^ 16 := fun v => by
    rw [BitVec.toNat_setWidth_of_le (by decide)]
    exact v.isLt
  refine total_bind (total_readU16 (by decide)) fun dosSig _ => ?_
  refine total_bind (total_ensure _ _) fun _ _ => ?_
  refine total_bind (total_readU32 (by decide)) fun lfanew _ => ?_
  have hlfanew : (lfanew.setWidth 64).toNat < 2 ^ 32 := by
    rw [BitVec.toNat_setWidth_of_le (by decide)]
    exact lfanew.isLt
  refine total_bind (total_readU32 (by omega)) fun peSig _ => ?_
  refine total_bind (total_ensure _ _) fun _ _ => ?_
  refine total_add_bind (by omega) fun coffOff hcoff => ?_
  refine total_bind (total_parseCoff (by omega)) fun coff _ => ?_
  refine total_add_bind (by omega) fun optOff hopt => ?_
  refine total_bind (total_readU16 (by omega)) fun magic _ => ?_
  refine total_bind (total_okOr _ _) fun kind _ => ?_
  refine total_bind (total_parseOptional (by omega) kind) fun opt _ => ?_
  have hsize := h16 coff.sizeOfOptionalHeader
  have hcount := h16 coff.numberOfSections
  have htable : (40 : BitVec 64).toNat * (coff.numberOfSections.setWidth 64).toNat =
      40 * (coff.numberOfSections.setWidth 64).toNat := rfl
  refine total_add_bind (by omega) fun sectionsOffset hsections => ?_
  refine total_mul_bind (by omega) fun tableSize htableSize => ?_
  refine total_add_bind (by omega) fun sectionsEnd _ => ?_
  exact total_bind (total_ensure _ _) fun _ _ => total_ok _

theorem toNat_ofNat_of_lt {i n : Nat} (h : i < n) (hn : n ≤ 2 ^ 32) :
    (BitVec.ofNat 32 i).toNat = i := by
  rw [BitVec.toNat_ofNat, Nat.mod_eq_of_lt (by omega)]

/-! ### Exception data -/

namespace Exception

theorem total_runtimeFunction {s : Bytes} (hs : s.length = 12) : Total (runtimeFunction s) := by
  refine total_u32At_bind (by omega) fun _ => ?_
  refine total_u32At_bind (by omega) fun _ => ?_
  exact total_u32At_bind (by omega) fun _ => total_ok _

/-- An entry that has been read lies in the image. -/
theorem parseEntry_returns {dir : DataDirectory} {i : Nat} (hi : i < 2 ^ 32)
    (h : Returns (parseEntry image dir i)) :
    dir.virtualAddress.toNat + i * 12 + 12 ≤ image.len := by
  obtain ⟨f, hf⟩ := h
  obtain ⟨rel, hrel, hf⟩ := bind_eq_ok.mp hf
  obtain ⟨off, hoff, hf⟩ := bind_eq_ok.mp hf
  obtain ⟨bytes, hbytes, -⟩ := bind_eq_ok.mp hf
  have hmul := mul_eq_ok.mp hrel
  rw [toNat_ofNat_of_lt hi le_rfl, show RUNTIME_FUNCTION_SIZE.toNat = 12 from rfl] at hmul
  have hadd := add_eq_ok.mp hoff
  have hin := (sliceOr_eq_ok hbytes).1
  rw [show RUNTIME_FUNCTION_SIZE.toNat = 12 from rfl] at hin
  omega

theorem total_parse (image : PeImage) : Total (parse image) := by
  unfold parse
  split
  · exact total_ok _
  · rename_i dir _
    refine total_bind (total_ensure _ _) fun _ _ => total_collect_iff.mpr fun j hj hret => ?_
    rw [Nat.zero_add]
    have h12 : RUNTIME_FUNCTION_SIZE.toNat = 12 := rfl
    rw [BitVec.toNat_udiv, h12] at hj
    have hsize := dir.size.isLt
    have hlen := image.len_le
    have hva := dir.virtualAddress.isLt
    have hi := toNat_ofNat_of_lt hj (by omega)
    -- the entry before this one lies in the image
    have hoff : dir.virtualAddress.toNat + j * 12 < 2 ^ 32 := by
      cases j with
      | zero => omega
      | succ j =>
        have hprev := hret j (Nat.lt_succ_self j)
        rw [Nat.zero_add] at hprev
        have := parseEntry_returns (by omega) hprev
        omega
    refine total_mul_bind (by rw [hi, h12]; omega) fun rel hrel => ?_
    rw [hi, h12] at hrel
    refine total_add_bind (by omega) fun off hoff => ?_
    exact total_sliceOr_bind fun s _ hs => total_runtimeFunction (hs.trans h12)

theorem total_parseTrailer (image : PeImage) (flags : BitVec 8) (off : BitVec 32) :
    Total (parseTrailer image flags off) := by
  unfold parseTrailer
  split
  · refine total_sliceOr_bind fun s _ hs => ?_
    exact total_bind (total_runtimeFunction hs) fun _ _ => total_ok _
  · split
    · refine total_sliceOr_bind fun s _ hs => ?_
      exact total_u32At_bind (by omega) fun _ => total_ok _
    · exact total_ok _

theorem total_parseUnwindInfo (image : PeImage) (unwindRva : BitVec 32) :
    Total (parseUnwindInfo image unwindRva) := by
  have hlen := image.len_le
  refine total_sliceOr_bind fun header hin hheader => ?_
  refine total_index_bind (by omega) fun verFlags => ?_
  refine total_index_bind (by omega) fun _ => ?_
  refine total_index_bind (by omega) fun countOfCodes => ?_
  refine total_index_bind (by omega) fun _ => ?_
  refine total_bind (total_ensure _ _) fun _ _ => ?_
  have hcount := countOfCodes.isLt
  have h2 : (2 : BitVec 32).toNat = 2 := rfl
  have h2' : (2 : BitVec 64).toNat = 2 := rfl
  have h4 : (4 : BitVec 32).toNat = 4 := rfl
  have hhalf := toNat_ofNat_of_lt (show (countOfCodes.toNat + 1) / 2 < 129 by omega) (by decide)
  refine total_mul_bind (by rw [hhalf, h2]; omega) fun padded hpadded => ?_
  rw [hhalf, h2] at hpadded
  have hwide : (padded.setWidth 64).toNat = padded.toNat :=
    BitVec.toNat_setWidth_of_le (by decide)
  refine total_mul_bind (by rw [hwide, h2']; omega) fun codesSize hsize => ?_
  rw [hwide, h2'] at hsize
  refine total_add_bind (by omega) fun codesOff hcodes => ?_
  refine total_sliceOr_bind fun unwindCodes hcodesIn _ => ?_
  have hnarrow : (codesSize.setWidth 32).toNat = codesSize.toNat := by
    rw [BitVec.toNat_setWidth, Nat.mod_eq_of_lt (by omega)]
  refine total_add_bind (by omega) fun trailerOff _ => ?_
  exact total_bind (total_parseTrailer image _ trailerOff) fun _ _ => total_ok _

theorem total_resolveHandlerLoop (image : PeImage) (left : Nat) (current : RuntimeFunction) :
    Total (resolveHandlerLoop image left current) := by
  induction left generalizing current with
  | zero => exact total_fail _
  | succ left ih =>
    refine total_bind (total_parseUnwindInfo image _) fun ui _ => ?_
    split
    · rename_i next _
      exact ih next
    · exact total_ok _

end Exception

/-! ### Resources -/

namespace Resources

theorem total_decodeName {s : Bytes} (heven : s.length % 2 = 0) : Total (decodeName s) := by
  refine total_bind (total_collect_iff.mpr fun j hj _ => ?_) fun _ _ => total_ok _
  exact total_u16At (by omega)

/-- An offset without its highest bit. -/
theorem toNat_and_offset (v : BitVec 32) : (v &&& 0x7FFFFFFF).toNat < 2 ^ 31 := by
  rw [BitVec.toNat_and]
  exact Nat.and_lt_two_pow _ (by decide)

theorem toNat_lt_of_and_eq_zero {v : BitVec 32} (h : ¬ v &&& 0x80000000 ≠ 0) : v.toNat < 2 ^ 31 := by
  have hbit : v.getLsbD 31 = false := by
    have := congrArg (BitVec.getLsbD · 31) (not_not.mp h)
    simpa using this
  exact BitVec.toNat_lt_of_msb_false hbit

variable {baseRva : BitVec 32}

theorem total_parseId (hbase : baseRva.toNat + 16 ≤ image.len) (idRaw : BitVec 32) :
    Total (parseId image baseRva idRaw) := by
  have hlen := image.len_le
  have hoff := toNat_and_offset idRaw
  have h2 : (2 : BitVec 32).toNat = 2 := rfl
  have h2' : (2 : BitVec 64).toNat = 2 := rfl
  unfold parseId
  split
  · refine total_add_bind (by omega) fun nameOff _ => ?_
    refine total_sliceOr_bind fun lenBytes hin hlenBytes => ?_
    refine total_u16At_bind (by omega) fun len => ?_
    refine total_add_bind (by omega) fun bodyOff _ => ?_
    have hwide : (len.setWidth 64).toNat < 2 ^ 16 := by
      rw [BitVec.toNat_setWidth_of_le (by decide)]
      exact len.isLt
    refine total_mul_bind (by rw [h2']; omega) fun bodyLen hbody => ?_
    refine total_sliceOr_bind fun chars _ hchars => ?_
    refine total_bind (total_decodeName ?_) fun _ _ => total_ok _
    rw [hchars, hbody, h2']
    exact Nat.mul_mod_left _ _
  · exact total_ok _

theorem total_parseData (hbase : baseRva.toNat + 16 ≤ image.len) {kindRaw : BitVec 32}
    (hkind : kindRaw.toNat < 2 ^ 31) : Total (parseData image baseRva kindRaw) := by
  have hlen := image.len_le
  have h16 : DATA_ENTRY_SIZE.toNat = 16 := rfl
  refine total_add_bind (by omega) fun dataOff _ => ?_
  refine total_sliceOr_bind fun s _ hs => ?_
  refine total_u32At_bind (by omega) fun _ => ?_
  refine total_u32At_bind (by omega) fun _ => ?_
  exact total_u32At_bind (by omega) fun _ => total_ok _

theorem total_parseEntry {dirRva : BitVec 32} {child : BitVec 32 → Checked LoadError ResourceDir}
    (hbase : baseRva.toNat + 16 ≤ image.len) (hdir : dirRva.toNat + 16 ≤ image.len)
    (hchild : ∀ rva, Total (child rva)) {i : Nat} (hi : i < 2 ^ 17) :
    Total (parseEntry image baseRva dirRva child i) := by
  have hlen := image.len_le
  have h16 : DIR_HEADER_SIZE.toNat = 16 := rfl
  have h8 : DIR_ENTRY_SIZE.toNat = 8 := rfl
  have hofNat := toNat_ofNat_of_lt hi (by decide)
  refine total_add_bind (by omega) fun first hfirst => ?_
  refine total_mul_bind (by rw [hofNat, h8]; omega) fun rel hrel => ?_
  rw [hofNat, h8] at hrel
  refine total_add_bind (by omega) fun off _ => ?_
  refine total_sliceOr_bind fun s _ hs => ?_
  refine total_u32At_bind (by omega) fun idRaw => ?_
  refine total_u32At_bind (by omega) fun kindRaw => ?_
  refine total_bind (total_parseId hbase idRaw) fun id _ => ?_
  split
  · have hoff := toNat_and_offset kindRaw
    refine total_add_bind (by omega) fun childRva _ => ?_
    exact total_bind (hchild childRva) fun _ _ => total_ok _
  · rename_i hdata
    exact total_bind (total_parseData hbase (toNat_lt_of_and_eq_zero hdata)) fun _ _ => total_ok _

/-- Below the root, the root has been read. -/
theorem total_parseDir (left : Nat) (dirRva : BitVec 32)
    (hbase : baseRva = dirRva ∨ baseRva.toNat + 16 ≤ image.len) :
    Total (parseDir image baseRva left dirRva) := by
  induction left generalizing dirRva with
  | zero => exact total_fail _
  | succ left ih =>
    have h16 : DIR_HEADER_SIZE.toNat = 16 := rfl
    refine total_sliceOr_bind fun s hdir hs => ?_
    rw [h16] at hdir hs
    have hroot : baseRva.toNat + 16 ≤ image.len := by
      rcases hbase with rfl | hbase
      · exact hdir
      · exact hbase
    refine total_u32At_bind (by omega) fun _ => ?_
    refine total_u32At_bind (by omega) fun _ => ?_
    refine total_u16At_bind (by omega) fun _ => ?_
    refine total_u16At_bind (by omega) fun _ => ?_
    refine total_u16At_bind (by omega) fun named => ?_
    refine total_u16At_bind (by omega) fun id => ?_
    have h16' : ∀ v : BitVec 16, (v.setWidth 32).toNat < 2 ^ 16 := fun v => by
      rw [BitVec.toNat_setWidth_of_le (by decide)]
      exact v.isLt
    have hnamed := h16' named
    have hid := h16' id
    refine total_add_bind (by omega) fun total htotal => ?_
    refine total_bind (total_collect_iff.mpr fun j hj _ => ?_) fun _ _ => total_ok _
    exact total_parseEntry hroot hdir (fun rva => ih rva (.inr hroot)) (by omega)

theorem total_parse (image : PeImage) : Total (parse image) := by
  unfold parse
  split
  · exact total_ok _
  · exact total_bind (total_parseDir 6 _ (.inl rfl)) fun _ _ => total_ok _

end Resources

/-! ### Exports -/

namespace Exports

theorem total_readCstrLoop (image : PeImage) (rva : BitVec 32) (left : Nat) (off : BitVec 32) :
    Total (readCstrLoop image rva left off) := by
  induction left generalizing off with
  | zero => exact total_fail _
  | succ left ih =>
    refine total_sliceOr_bind fun s _ hs => ?_
    refine total_index_bind (by omega) fun b => ?_
    split
    · exact total_ok _
    · refine total_bind (total_okOr _ _) fun next _ => ?_
      exact total_bind (ih next) fun _ _ => total_ok _

theorem total_readCstr (image : PeImage) (rva : BitVec 32) : Total (readCstr image rva) :=
  total_bind (total_readCstrLoop image rva 4097 rva) fun _ _ => total_okOr _ _

theorem total_exportHeader (image : PeImage) (dir : DataDirectory) :
    Total (exportHeader image dir) := by
  refine total_sliceOr_bind fun s _ hs => ?_
  refine total_u32At_bind (by omega) fun _ => ?_
  refine total_u32At_bind (by omega) fun _ => ?_
  refine total_u32At_bind (by omega) fun _ => ?_
  refine total_u32At_bind (by omega) fun _ => ?_
  refine total_u32At_bind (by omega) fun _ => ?_
  refine total_u32At_bind (by omega) fun _ => ?_
  exact total_u32At_bind (by omega) fun _ => total_ok _

theorem total_moduleName (image : PeImage) (header : ExportHeader) :
    Total (moduleName image header) := by
  unfold moduleName
  split
  · exact total_readCstr image _
  · exact total_ok _

theorem total_exportTarget (image : PeImage) (dir : DataDirectory) (header : ExportHeader) (i : Nat) :
    Total (exportTarget image dir header i) := by
  refine total_bind (total_okOr _ _) fun rel _ => ?_
  refine total_bind (total_okOr _ _) fun off _ => ?_
  refine total_sliceOr_bind fun s _ hs => ?_
  refine total_u32At_bind (by omega) fun target => ?_
  dsimp only
  split
  · exact total_bind (total_readCstr image target) fun _ _ => total_ok _
  · exact total_ok _

theorem saturatingAdd_of_le {x y : BitVec 32} {n : Nat} (h : (saturatingAdd x y).toNat + n ≤ 2 ^ 31) :
    y.toNat + n ≤ 2 ^ 31 := by
  unfold saturatingAdd at h
  split at h
  · rename_i hlt
    rw [BitVec.toNat_add, Nat.mod_eq_of_lt hlt] at h
    omega
  · rw [BitVec.toNat_allOnes] at h
    omega

/-- A name that has been read has an entry in the image. -/
theorem exportName_returns {header : ExportHeader} {i : Nat} (hi : i < 2 ^ 32)
    (h : Returns (exportName image header i)) : i * 4 + 4 ≤ 2 ^ 31 := by
  obtain ⟨r, hr⟩ := h
  obtain ⟨nameRel, hname, hr⟩ := bind_eq_ok.mp hr
  obtain ⟨ordRel, -, hr⟩ := bind_eq_ok.mp hr
  obtain ⟨bytes, hbytes, -⟩ := bind_eq_ok.mp hr
  have hmul := mul_eq_ok.mp hname
  rw [toNat_ofNat_of_lt hi le_rfl, show (4 : BitVec 32).toNat = 4 from rfl] at hmul
  have hin := (sliceOr_eq_ok hbytes).1
  have hlen := image.len_le
  have := saturatingAdd_of_le (show (saturatingAdd header.namesRva nameRel).toNat + 4 ≤ 2 ^ 31 by omega)
  omega

theorem total_exportName {header : ExportHeader} {j : Nat} (hj : j < header.numNames.toNat)
    (hret : ∀ k < j, Returns (exportName image header k)) : Total (exportName image header j) := by
  have hnum := header.numNames.isLt
  have hi := toNat_ofNat_of_lt hj (by omega)
  have hsmall : j * 4 ≤ 2 ^ 31 := by
    cases j with
    | zero => decide
    | succ j =>
      have := exportName_returns (by omega) (hret j (Nat.lt_succ_self j))
      omega
  have h4 : (4 : BitVec 32).toNat = 4 := rfl
  have h2 : (2 : BitVec 32).toNat = 2 := rfl
  refine total_mul_bind (by rw [hi, h4]; omega) fun nameRel _ => ?_
  refine total_mul_bind (by rw [hi, h2]; omega) fun ordRel _ => ?_
  refine total_sliceOr_bind fun s _ hs => ?_
  refine total_sliceOr_bind fun t _ ht => ?_
  refine total_u32At_bind (by omega) fun nameRva => ?_
  refine total_u16At_bind (by omega) fun biased => ?_
  exact total_bind (total_readCstr image nameRva) fun _ _ => total_ok _

/-- The ordinals of a directory with the header `header` fit in 32 bits: those of the functions up to
the first one that cannot be read, and, if all functions can be read, those of the names up to the first
one that cannot be read. -/
def Fit (image : PeImage) (dir : DataDirectory) (header : ExportHeader) : Prop :=
  (∀ i < header.numFuncs.toNat, (∀ j ≤ i, Returns (exportTarget image dir header j)) →
    header.base.toNat + i < 2 ^ 32) ∧
  ((∀ i < header.numFuncs.toNat, Returns (exportTarget image dir header i)) →
    ∀ i < header.numNames.toNat, (∀ j < i, Returns (exportName image header j)) →
      ∀ entry, exportName image header i = .ok entry →
        header.base.toNat + entry.2.toNat < 2 ^ 32)

/-- The ordinals that `parse` reaches fit in 32 bits. -/
def OrdinalsFit (image : PeImage) : Prop :=
  ∀ dir, image.dataDir dirExport = some dir → ∀ header, exportHeader image dir = .ok header →
    Returns (moduleName image header) → Fit image dir header

variable {dir : DataDirectory} {header : ExportHeader}

theorem toNat_funcIndex {i : Nat} (hi : i < header.numFuncs.toNat) : (BitVec.ofNat 32 i).toNat = i :=
  toNat_ofNat_of_lt hi header.numFuncs.isLt.le

theorem total_functions_iff :
    Total (collect (exportEntry image dir header) 0 header.numFuncs.toNat) ↔
      ∀ i < header.numFuncs.toNat, (∀ j ≤ i, Returns (exportTarget image dir header j)) →
        header.base.toNat + i < 2 ^ 32 := by
  have hiff := total_collect_bind_iff (g := exportTarget image dir header)
    (f := fun i target => Checked.add header.base (BitVec.ofNat 32 i) >>= fun ordinal =>
      .ok (ExportEntry.mk ordinal target)) (i := 0) (n := header.numFuncs.toNat)
    (fun j _ _ => total_exportTarget image dir header _)
    (fun j target h => returns_add_ok (total_add_ok_iff.mp h))
  refine hiff.trans (forall₂_congr fun i hi => ?_)
  simp only [Nat.zero_add]
  constructor
  · intro h hret
    obtain ⟨target, htarget⟩ := hret i le_rfl
    have := total_add_ok_iff.mp (h (fun k hk => hret k hk.le) target htarget)
    rwa [toNat_funcIndex hi] at this
  · intro h hret target htarget
    refine total_add_ok_iff.mpr ?_
    rw [toNat_funcIndex hi]
    refine h fun j hj => ?_
    rcases Nat.lt_or_eq_of_le hj with hlt | rfl
    · exact hret j hlt
    · exact ⟨target, htarget⟩

/-- The functions are all read if their ordinals fit. -/
theorem returns_functions (htotal : Total (collect (exportEntry image dir header) 0
      header.numFuncs.toNat))
    (hret : ∀ i < header.numFuncs.toNat, Returns (exportTarget image dir header i)) :
    Returns (collect (exportEntry image dir header) 0 header.numFuncs.toNat) := by
  refine returns_collect_iff.mpr fun i hi => ?_
  rw [Nat.zero_add]
  have hfit := total_functions_iff.mp htotal i hi fun j hj => hret j (by omega)
  obtain ⟨target, htarget⟩ := hret i hi
  have hordinal : Returns (Checked.add header.base (BitVec.ofNat 32 i) >>= fun ordinal =>
      (.ok (ExportEntry.mk ordinal target) : Checked LoadError ExportEntry)) :=
    returns_add_ok (by rw [toNat_funcIndex hi]; exact hfit)
  obtain ⟨entry, hentry⟩ := hordinal
  exact ⟨entry, bind_eq_ok.mpr ⟨target, htarget, hentry⟩⟩

theorem total_names_iff :
    Total (collect (namedExport image header) 0 header.numNames.toNat) ↔
      ∀ i < header.numNames.toNat, (∀ j < i, Returns (exportName image header j)) →
        ∀ entry, exportName image header i = .ok entry →
          header.base.toNat + entry.2.toNat < 2 ^ 32 := by
  have hiff := total_collect_bind_iff (g := exportName image header)
    (f := fun _ entry => Checked.add header.base entry.2 >>= fun ordinal =>
      .ok (NamedExport.mk entry.1 ordinal)) (i := 0) (n := header.numNames.toNat)
    (fun j hj hret => by
      simp only [Nat.zero_add] at hret ⊢
      exact total_exportName hj hret)
    (fun j entry h => returns_add_ok (total_add_ok_iff.mp h))
  refine hiff.trans (forall₂_congr fun i hi => ?_)
  simp only [Nat.zero_add]
  exact forall_congr' fun _ => forall₂_congr fun entry _ => total_add_ok_iff

theorem total_parse_iff (image : PeImage) : Total (parse image) ↔ OrdinalsFit image := by
  unfold parse OrdinalsFit
  cases hdir : image.dataDir dirExport with
  | none => exact ⟨fun _ => nofun, fun _ => total_ok _⟩
  | some dir =>
    dsimp only
    constructor
    · rintro h _ ⟨⟩ header hheader ⟨name, hname⟩
      have hheader' := (total_bind_iff.mp h).2 header hheader
      have hentries := total_bind_iff.mp ((total_bind_iff.mp hheader').2 name hname)
      refine ⟨total_functions_iff.mp hentries.1, fun hret => ?_⟩
      obtain ⟨entries, hok⟩ := returns_functions hentries.1 hret
      exact total_names_iff.mp (total_bind_iff.mp (hentries.2 entries hok)).1
    · intro h
      refine total_bind (total_exportHeader image dir) fun header hheader => ?_
      refine total_bind (total_moduleName image header) fun name hname => ?_
      obtain ⟨hfuncs, hnames⟩ := h dir rfl header hheader ⟨name, hname⟩
      refine total_bind (total_functions_iff.mpr hfuncs) fun entries hentries => ?_
      refine total_bind (total_names_iff.mpr (hnames fun i hi => ?_)) fun _ _ => total_ok _
      obtain ⟨entry, hentry⟩ := returns_collect_iff.mp ⟨entries, hentries⟩ i hi
      rw [Nat.zero_add] at hentry
      obtain ⟨target, htarget, -⟩ := bind_eq_ok.mp hentry
      exact ⟨target, htarget⟩

theorem total_parseWrapping (image : PeImage) : Total (parseWrapping image) := by
  unfold parseWrapping
  cases hdir : image.dataDir dirExport with
  | none => exact total_ok _
  | some dir =>
    refine total_bind (total_exportHeader image dir) fun header _ => ?_
    refine total_bind (total_moduleName image header) fun name _ => ?_
    refine total_bind (total_collect_iff.mpr fun i _ _ => ?_) fun entries _ => ?_
    · exact total_bind (total_exportTarget image dir header _) fun _ _ => total_ok _
    · refine total_bind (total_collect_iff.mpr fun i hi hret => ?_) fun _ _ => total_ok _
      simp only [Nat.zero_add] at hret ⊢
      refine total_bind (total_exportName hi fun k hk => ?_) fun _ _ => total_ok _
      obtain ⟨entry, hentry⟩ := hret k hk
      obtain ⟨r, hr, -⟩ := bind_eq_ok.mp hentry
      exact ⟨r, hr⟩

/-- In a release build nothing overflows that is checked. -/
theorem total_parseIn_iff (overflowChecks : Bool) (image : PeImage) :
    Total (parseIn overflowChecks image) ↔ (overflowChecks = true → OrdinalsFit image) := by
  cases overflowChecks with
  | true => exact (total_parse_iff image).trans ⟨fun h _ => h, fun h => h rfl⟩
  | false => exact iff_of_true (total_parseWrapping image) (by simp)

end Exports

/-- **The parsers on hostile input.**  They return a value or an error, without an overflow and without
an index out of bounds, exactly if the ordinals that `exports::parse` reaches fit in 32 bits. -/
theorem parsers_total_iff (bytes : Bytes) (image : PeImage) :
    (Total (PeFile.parse bytes) ∧ Total (Exports.parse image) ∧ Total (Exception.parse image) ∧
      (∀ rva, Total (Exception.parseUnwindInfo image rva)) ∧
      (∀ f, Total (Exception.resolveHandler image f)) ∧ Total (Resources.parse image)) ↔
      Exports.OrdinalsFit image := by
  constructor
  · rintro ⟨-, hexports, -⟩
    exact (Exports.total_parse_iff image).mp hexports
  · intro hfit
    refine ⟨total_parse bytes, (Exports.total_parse_iff image).mpr hfit, Exception.total_parse image,
      Exception.total_parseUnwindInfo image, ?_, Resources.total_parse image⟩
    exact fun f => Exception.total_resolveHandlerLoop image 16 f

/-- An image with an export directory at 0x20: two functions, with ordinals from 0xFFFFFFFF on. -/
def overflowImage : PeImage where
  actualBase := 0x140000000
  len := 0x100
  byte i := ([(0x30, 0xFF), (0x31, 0xFF), (0x32, 0xFF), (0x33, 0xFF), (0x34, 0x02),
    (0x3C, 0x80)].lookup i).getD 0
  preferredBase := 0x140000000
  sizeOfImage := 0x100
  sizeOfHeaders := 0x20
  entryRva := 0x90
  subsystem := 3
  bitness := .x86_64
  sections := []
  dataDirectories := [⟨0x20, 0x28⟩]
  len_le := by decide

/-- The ordinal of the second function overflows. -/
theorem not_total_overflowImage : Exports.parse overflowImage = .error .panicked ∧
    ¬ (Total (PeFile.parse []) ∧ Total (Exports.parse overflowImage) ∧
      Total (Exception.parse overflowImage) ∧
      (∀ rva, Total (Exception.parseUnwindInfo overflowImage rva)) ∧
      (∀ f, Total (Exception.resolveHandler overflowImage f)) ∧
      Total (Resources.parse overflowImage)) := by
  have hpanic : Exports.parse overflowImage = .error .panicked := rfl
  refine ⟨hpanic, ?_⟩
  rintro ⟨-, hexports, -⟩
  exact hexports hpanic

end Quantum.Loader
