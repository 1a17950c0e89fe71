import Quantum.Loader.Equiv.Cstr

/-!
# Correctness of the import directory

The directory is described by the words of the image, for thunks of `n` bytes: `DescriptorsAt` for the
descriptors and `ThunksAt` for the table of each.  `parse` returns what is described for thunks of 8 bytes
and nothing else (`parse_eq_ok_iff`).  `wireEntries_spec` says what wiring writes.
-/

namespace Quantum.Loader

namespace Imports

open Checked LeWord

variable {image : PeImage} {n : Nat}

/-! ### The directory in the image -/

/-- The entry that a thunk stands for, apart from its slot; `byOrdinal` is the flag of the thunk. -/
def Describes (image : LoadedImage) (thunk : BitVec 64) (byOrdinal : Bool) : ImportEntry → Prop
  | .ordinal number _ => byOrdinal = true ∧ number = thunk.setWidth 16
  | .name hint importName _ =>
    byOrdinal = false ∧ hint = word 16 2 image.byte (thunk &&& 0x7FFFFFFF).toNat ∧
      CstrAt image ((thunk &&& 0x7FFFFFFF).toNat + 2) importName

/-- A thunk of `n` bytes at `off`, whose highest bit is the flag, for the slot at `slot`. -/
structure ThunkAt (n : Nat) (image : LoadedImage) (off slot : Nat) (entry : ImportEntry) : Prop where
  ne_zero : word 64 n image.byte off ≠ 0
  describes :
    Describes image (word 64 n image.byte off) ((word 64 n image.byte off).getLsbD (8 * n - 1)) entry
  slot_eq : entry.iatSlotRva.toNat = slot

/-- A table of thunks with its null terminator. -/
structure ThunksAt (n : Nat) (image : LoadedImage) (table iat : Nat) (entries : List ImportEntry) :
    Prop where
  inside : table + n * (entries.length + 1) ≤ image.len
  entry : ∀ k e, entries[k]? = some e → ThunkAt n image (table + n * k) (iat + n * k) e
  terminated : word 64 n image.byte (table + n * entries.length) = 0

/-- The table of a descriptor: the lookup table if there is one, else the IAT. -/
def tableRva (d : DllImports) : BitVec 32 :=
  if d.iltRva ≠ 0 then d.iltRva else d.iatRva

/-- The descriptor of a DLL at `a`: its name, and at most 65536 thunks. -/
structure DllAt (n : Nat) (image : LoadedImage) (a : Nat) (d : DllImports) : Prop where
  present : ¬ (word 32 4 image.byte a = 0 ∧ word 32 4 image.byte (a + 12) = 0 ∧
    word 32 4 image.byte (a + 16) = 0)
  ilt : d.iltRva = word 32 4 image.byte a
  iat : d.iatRva = word 32 4 image.byte (a + 16)
  name : CstrAt image (word 32 4 image.byte (a + 12)).toNat d.name
  no_table : tableRva d = 0 → d.entries = []
  table : tableRva d ≠ 0 → ThunksAt n image (tableRva d).toNat d.iatRva.toNat d.entries
  length_le : d.entries.length ≤ 65536

/-- The descriptors from `a` on with the null descriptor, before `stop`. -/
structure DescriptorsAt (n : Nat) (image : LoadedImage) (a stop : Nat) (dlls : List DllImports) :
    Prop where
  inside : a + 20 * (dlls.length + 1) ≤ image.len
  room : a + 20 * (dlls.length + 1) ≤ stop
  dll : ∀ i d, dlls[i]? = some d → DllAt n image (a + 20 * i) d
  terminated : word 32 4 image.byte (a + 20 * dlls.length) = 0 ∧
    word 32 4 image.byte (a + 20 * dlls.length + 12) = 0 ∧
    word 32 4 image.byte (a + 20 * dlls.length + 16) = 0

theorem thunksAt_nil_iff {image : LoadedImage} {table iat : Nat} :
    ThunksAt n image table iat [] ↔ table + n ≤ image.len ∧ word 64 n image.byte table = 0 := by
  constructor
  · intro h
    refine ⟨?_, h.terminated⟩
    have hin := h.inside
    rw [List.length_nil, Nat.zero_add, Nat.mul_one] at hin
    exact hin
  · rintro ⟨hin, hz⟩
    refine ⟨?_, ?_, hz⟩
    · rw [List.length_nil, Nat.zero_add, Nat.mul_one]
      exact hin
    · intro k e he
      cases he

theorem thunksAt_cons_iff {image : LoadedImage} {table iat : Nat} {e : ImportEntry}
    {entries : List ImportEntry} :
    ThunksAt n image table iat (e :: entries) ↔
      ThunkAt n image table iat e ∧ ThunksAt n image (table + n) (iat + n) entries := by
  have hshift : ∀ k, n * (k + 1) = n + n * k := by
    intro k
    rw [Nat.mul_add, Nat.mul_one, Nat.add_comm]
  constructor
  · intro h
    refine ⟨h.entry 0 e rfl, ?_, ?_, ?_⟩
    · have hin := h.inside
      rw [List.length_cons, hshift] at hin
      omega
    · intro k e' he'
      rw [Nat.add_assoc, Nat.add_assoc, ← hshift]
      exact h.entry (k + 1) e' he'
    · have hz := h.terminated
      rw [List.length_cons, hshift] at hz
      rw [Nat.add_assoc]
      exact hz
  · rintro ⟨he, h⟩
    refine ⟨?_, ?_, ?_⟩
    · rw [List.length_cons, hshift]
      have hin := h.inside
      omega
    · intro k e' he'
      cases k with
      | zero =>
        rw [← Option.some.inj he']
        exact he
      | succ k =>
        rw [hshift, ← Nat.add_assoc, ← Nat.add_assoc]
        exact h.entry k e' he'
    · rw [List.length_cons, hshift, ← Nat.add_assoc]
      exact h.terminated

theorem descriptorsAt_cons_iff {image : LoadedImage} {a stop : Nat} {d : DllImports}
    {dlls : List DllImports} :
    DescriptorsAt n image a stop (d :: dlls) ↔
      DllAt n image a d ∧ DescriptorsAt n image (a + 20) stop dlls := by
  have hshift : ∀ k, a + 20 * (k + 1) = a + 20 + 20 * k := by
    intro k
    omega
  constructor
  · intro h
    refine ⟨h.dll 0 d rfl, ?_, ?_, ?_, ?_⟩
    · have hin := h.inside
      rw [List.length_cons] at hin
      omega
    · have hroom := h.room
      rw [List.length_cons] at hroom
      omega
    · intro i d' hd'
      rw [← hshift]
      exact h.dll (i + 1) d' hd'
    · have hz := h.terminated
      rw [List.length_cons, hshift] at hz
      exact hz
  · rintro ⟨hd, h⟩
    refine ⟨?_, ?_, ?_, ?_⟩
    · have hin := h.inside
      rw [List.length_cons]
      omega
    · have hroom := h.room
      rw [List.length_cons]
      omega
    · intro i d' hd'
      cases i with
      | zero =>
        rw [← Option.some.inj hd']
        exact hd
      | succ i =>
        rw [hshift]
        exact h.dll i d' hd'
    · rw [List.length_cons, hshift]
      exact h.terminated

/-! ### Thunks -/

theorem byOrdinal_iff (thunk : BitVec 64) :
    thunk &&& IMPORT_BY_ORDINAL_FLAG_64 ≠ 0 ↔ thunk.getLsbD 63 = true := by
  have hflag : IMPORT_BY_ORDINAL_FLAG_64 = BitVec.twoPow 64 63 := by decide
  rw [hflag]
  constructor
  · intro h
    by_contra hbit
    apply h
    apply BitVec.eq_of_getLsbD_eq
    intro i hi
    rw [BitVec.getLsbD_and]
    by_cases h63 : i = 63
    · rw [h63, Bool.eq_false_iff.mpr hbit]
      rfl
    · have hne : decide (63 = i) = false := decide_eq_false fun h => h63 h.symm
      rw [BitVec.getLsbD_twoPow, hne, Bool.and_false, Bool.and_false]
      exact BitVec.getLsbD_zero.symm
  · intro hbit h
    have hzero := congrArg (BitVec.getLsbD · 63) h
    rw [BitVec.getLsbD_and, hbit] at hzero
    exact absurd hzero (by decide)

theorem ordinalMask_eq (thunk : BitVec 64) :
    (thunk &&& IMPORT_ORDINAL_MASK_64).setWidth 16 = thunk.setWidth 16 := by
  apply BitVec.eq_of_toNat_eq
  rw [BitVec.toNat_setWidth, BitVec.toNat_setWidth, BitVec.toNat_and]
  have hmask : IMPORT_ORDINAL_MASK_64.toNat = 2 ^ 16 - 1 := rfl
  rw [hmask, Nat.and_two_pow_sub_one_eq_mod, Nat.mod_mod]

theorem byNameRva_toNat (thunk : BitVec 64) :
    ((thunk &&& 0x7FFFFFFF).setWidth 32).toNat = (thunk &&& 0x7FFFFFFF).toNat ∧
      (thunk &&& 0x7FFFFFFF).toNat < 2 ^ 31 := by
  have hlt : (thunk &&& 0x7FFFFFFF).toNat < 2 ^ 31 := by
    rw [BitVec.toNat_and]
    exact Nat.and_lt_two_pow _ (by decide)
  refine ⟨?_, hlt⟩
  rw [BitVec.toNat_setWidth, Nat.mod_eq_of_lt (by omega)]

theorem parseThunk_eq_ok_iff {thunk : BitVec 64} {slot : BitVec 32} {e : ImportEntry} :
    parseThunk image thunk slot = .ok e ↔
      Describes image.toLoadedImage thunk (thunk.getLsbD 63) e ∧ e.iatSlotRva = slot := by
  rw [parseThunk]
  by_cases hflag : thunk.getLsbD 63 = true
  · rw [if_pos ((byOrdinal_iff thunk).mpr hflag), ordinalMask_eq]
    cases e with
    | ordinal number slot' =>
      constructor
      · rintro ⟨⟩
        exact ⟨⟨hflag, rfl⟩, rfl⟩
      · rintro ⟨⟨-, rfl⟩, rfl⟩
        rfl
    | name hint importName slot' =>
      refine ⟨nofun, ?_⟩
      rintro ⟨⟨hfalse, -⟩, -⟩
      rw [hflag] at hfalse
      cases hfalse
  · have hfalse := Bool.eq_false_iff.mpr hflag
    obtain ⟨hrva, hlt⟩ := byNameRva_toNat thunk
    rw [if_neg (fun h => hflag ((byOrdinal_iff thunk).mp h))]
    generalize (thunk &&& 0x7FFFFFFF).setWidth 32 = byNameRva at hrva
    have h2 : (2 : BitVec 32).toNat = 2 := rfl
    have hadd : (Checked.add byNameRva 2 : Checked LoadError _) = .ok (byNameRva + 2) :=
      add_of_lt (by rw [h2]; omega)
    have haddNat : (byNameRva + 2).toNat = (thunk &&& 0x7FFFFFFF).toNat + 2 := by
      rw [add_eq_ok.mp hadd, hrva, h2]
    by_cases hin : byNameRva.toNat + 2 ≤ image.len
    · dsimp only
      rw [sliceOr_of_le hin, ok_bind, u16At_slice (by omega), ok_bind, hadd, ok_bind, bind_eq_ok,
        Nat.add_zero, hrva]
      cases e with
      | ordinal number slot' =>
        constructor
        · rintro ⟨_, _, h⟩
          cases h
        · rintro ⟨⟨htrue, -⟩, -⟩
          exact absurd htrue hflag
      | name hint importName slot' =>
        constructor
        · rintro ⟨s, hs, h⟩
          cases h
          have hat := cstrOf_eq_ok_iff.mp hs
          rw [haddNat] at hat
          exact ⟨⟨hfalse, rfl, hat⟩, rfl⟩
        · rintro ⟨⟨-, rfl, hat⟩, rfl⟩
          rw [← haddNat] at hat
          exact ⟨importName, cstrOf_eq_ok_iff.mpr hat, rfl⟩
    · dsimp only
      rw [sliceOr_of_not_le hin]
      refine ⟨nofun, ?_⟩
      rintro ⟨hdesc, -⟩
      cases e with
      | ordinal number slot' => exact absurd hdesc.1 hflag
      | name hint importName slot' =>
        have hinside := hdesc.2.2.bytesAt.inside
        omega

/-! ### Tables -/

/-- The word of 8 bytes in a slice of 8 bytes. -/
theorem le64_slice_self (a : Nat) :
    le64 ((List.range 8).map fun i => image.byte (a + i)) = word 64 8 image.byte a := by
  have h := LoadedImage.le64_slice 0 (le_refl 8) image.byte a
  rw [List.drop_zero, Nat.add_zero] at h
  exact h

/-- The loop returns the entries up to the null thunk, if they are not too many. -/
theorem parseThunkLoop_eq_ok_iff {arrayRva iatRva : BitVec 32} :
    ∀ {left : Nat} {idx : BitVec 32} {entries : List ImportEntry}, idx.toNat + left ≤ 65537 →
      (parseThunkLoop image arrayRva iatRva left idx = .ok entries ↔
        ThunksAt 8 image.toLoadedImage (arrayRva.toNat + 8 * idx.toNat) (iatRva.toNat + 8 * idx.toNat)
          entries ∧ entries.length < left) := by
  intro left
  induction left with
  | zero =>
    intro idx entries _
    refine ⟨fun h => ?_, fun h => absurd h.2 (Nat.not_lt_zero _)⟩
    cases h
  | succ left ih =>
    intro idx entries hidx
    have hlen := image.len_le
    have h8 : (8 : BitVec 32).toNat = 8 := rfl
    have h1 : (1 : BitVec 32).toNat = 1 := rfl
    have hmul : (Checked.mul idx 8 : Checked LoadError _) = .ok (idx * 8) :=
      mul_of_lt (by rw [h8]; omega)
    have hrel : (idx * 8).toNat = 8 * idx.toNat := by
      rw [mul_eq_ok.mp hmul, h8, Nat.mul_comm]
    have hchecked : checkedMul idx 8 = some (idx * 8) := if_pos (by rw [h8]; omega)
    have hone : (Checked.add idx 1 : Checked LoadError _) = .ok (idx + 1) :=
      add_of_lt (by rw [h1]; omega)
    have hnext : (idx + 1).toNat = idx.toNat + 1 := by
      rw [add_eq_ok.mp hone, h1]
    rw [parseThunkLoop, hchecked]
    rw [okOr, ok_bind]
    by_cases hin : arrayRva.toNat + 8 * idx.toNat + 8 ≤ image.len
    · have hoff : checkedAdd arrayRva (idx * 8) = some (arrayRva + idx * 8) :=
        if_pos (by rw [hrel]; omega)
      have hoffNat : (arrayRva + idx * 8).toNat = arrayRva.toNat + 8 * idx.toNat := by
        rw [BitVec.toNat_add, hrel, Nat.mod_eq_of_lt (by omega)]
      rw [hoff, okOr, ok_bind, sliceOr_of_le (by rw [hoffNat]; exact hin), ok_bind, hoffNat]
      dsimp only
      rw [le64_slice_self]
      by_cases hz : word 64 8 image.byte (arrayRva.toNat + 8 * idx.toNat) = 0
      · rw [if_pos hz]
        constructor
        · rintro ⟨⟩
          exact ⟨thunksAt_nil_iff.mpr ⟨hin, hz⟩, Nat.succ_pos left⟩
        · rintro ⟨hat, -⟩
          cases entries with
          | nil => rfl
          | cons e entries => exact absurd hz (thunksAt_cons_iff.mp hat).1.ne_zero
      · rw [if_neg hz, hmul, ok_bind]
        by_cases hslot : iatRva.toNat + 8 * idx.toNat < 2 ^ 32
        · have hadd : checkedAdd iatRva (idx * 8) = some (iatRva + idx * 8) :=
            if_pos (by rw [hrel]; exact hslot)
          have haddNat : (iatRva + idx * 8).toNat = iatRva.toNat + 8 * idx.toNat := by
            rw [BitVec.toNat_add, hrel, Nat.mod_eq_of_lt hslot]
          have hstep : ∀ a, a + 8 * (idx + 1).toNat = a + 8 * idx.toNat + 8 := by
            intro a
            rw [hnext]
            omega
          rw [hadd, okOr, ok_bind, bind_eq_ok]
          constructor
          · rintro ⟨e, he, hrest⟩
            rw [hone, ok_bind, bind_eq_ok] at hrest
            obtain ⟨rest, hrest, hcons⟩ := hrest
            obtain rfl := Except.ok.inj hcons
            obtain ⟨hat, hlt⟩ := (ih (by rw [hnext]; omega)).mp hrest
            rw [hstep, hstep] at hat
            obtain ⟨hdesc, hslotRva⟩ := parseThunk_eq_ok_iff.mp he
            have hthunk : ThunkAt 8 image.toLoadedImage (arrayRva.toNat + 8 * idx.toNat)
                (iatRva.toNat + 8 * idx.toNat) e := ⟨hz, hdesc, by rw [hslotRva, haddNat]⟩
            refine ⟨thunksAt_cons_iff.mpr ⟨hthunk, hat⟩, ?_⟩
            rw [List.length_cons]
            omega
          · rintro ⟨hat, hlt⟩
            cases entries with
            | nil => exact absurd (thunksAt_nil_iff.mp hat).2 hz
            | cons e entries =>
              obtain ⟨hthunk, hrest⟩ := thunksAt_cons_iff.mp hat
              rw [List.length_cons] at hlt
              rw [← hstep, ← hstep] at hrest
              have hslotRva : e.iatSlotRva = iatRva + idx * 8 := by
                apply BitVec.eq_of_toNat_eq
                rw [hthunk.slot_eq, haddNat]
              refine ⟨e, parseThunk_eq_ok_iff.mpr ⟨hthunk.describes, hslotRva⟩, ?_⟩
              rw [hone, ok_bind, bind_eq_ok]
              exact ⟨entries, (ih (by rw [hnext]; omega)).mpr ⟨hrest, by omega⟩, rfl⟩
        · -- a slot past 4 GiB
          have hnone : checkedAdd iatRva (idx * 8) = none := if_neg (by rw [hrel]; exact hslot)
          rw [hnone]
          refine ⟨fun h => ?_, ?_⟩
          · cases h
          rintro ⟨hat, -⟩
          cases entries with
          | nil => exact absurd (thunksAt_nil_iff.mp hat).2 hz
          | cons e entries =>
            have hslotNat := (thunksAt_cons_iff.mp hat).1.slot_eq
            have hbound := e.iatSlotRva.isLt
            omega
    · have hnot : ¬ ThunksAt 8 image.toLoadedImage (arrayRva.toNat + 8 * idx.toNat)
          (iatRva.toNat + 8 * idx.toNat) entries := by
        intro hat
        have hinside := hat.inside
        omega
      refine ⟨?_, fun h => absurd h.1 hnot⟩
      intro hok
      obtain ⟨off, hoff, hslice⟩ := bind_eq_ok.mp hok
      obtain ⟨s, hs, -⟩ := bind_eq_ok.mp hslice
      have hoffSome := okOr_eq_ok.mp hoff
      rw [checkedAdd] at hoffSome
      split at hoffSome
      · rename_i hlt
        obtain rfl := Option.some.inj hoffSome
        have hread := (sliceOr_eq_ok hs).1
        rw [BitVec.toNat_add, Nat.mod_eq_of_lt hlt, hrel] at hread
        exact absurd hread hin
      · cases hoffSome

theorem parseThunkArray_eq_ok_iff {ilt iat : BitVec 32} {entries : List ImportEntry} :
    parseThunkArray image ilt iat = .ok entries ↔
      ((if ilt ≠ 0 then ilt else iat) = 0 → entries = []) ∧
      ((if ilt ≠ 0 then ilt else iat) ≠ 0 → ThunksAt 8 image.toLoadedImage
        (if ilt ≠ 0 then ilt else iat).toNat iat.toNat entries) ∧ entries.length ≤ 65536 := by
  rw [parseThunkArray]
  generalize (if ilt ≠ 0 then ilt else iat) = table
  by_cases hz : table = 0
  · rw [if_pos hz]
    constructor
    · rintro ⟨⟩
      exact ⟨fun _ => rfl, fun hne => absurd hz hne, Nat.zero_le _⟩
    · rintro ⟨hnil, -, -⟩
      rw [hnil hz]
      rfl
  · have h0 : (0 : BitVec 32).toNat = 0 := rfl
    rw [if_neg hz, parseThunkLoop_eq_ok_iff (by rw [h0]), h0, Nat.mul_zero, Nat.add_zero,
      Nat.add_zero]
    constructor
    · rintro ⟨hat, hlt⟩
      exact ⟨fun h => absurd h hz, fun _ => hat, by omega⟩
    · rintro ⟨-, hat, hle⟩
      exact ⟨hat hz, by omega⟩

/-! ### Descriptors -/

/-- The loop returns the DLLs up to the null descriptor, if the rounds suffice. -/
theorem parseDescriptors_eq_ok_iff {stop : BitVec 32} :
    ∀ {left : Nat} {cursor : BitVec 32} {dlls : List DllImports},
      parseDescriptors image stop left cursor = .ok dlls ↔
        DescriptorsAt 8 image.toLoadedImage cursor.toNat stop.toNat dlls ∧ dlls.length < left := by
  intro left
  induction left with
  | zero =>
    intro cursor dlls
    exact ⟨nofun, fun h => absurd h.2 (Nat.not_lt_zero _)⟩
  | succ left ih =>
    intro cursor dlls
    have hlen := image.len_le
    have h20 : IMPORT_DESCRIPTOR_SIZE.toNat = 20 := rfl
    rw [parseDescriptors]
    by_cases hin : cursor.toNat + 20 ≤ image.len
    · have hsat : saturatingAdd cursor IMPORT_DESCRIPTOR_SIZE = cursor + IMPORT_DESCRIPTOR_SIZE :=
        if_pos (by rw [h20]; omega)
      have hnext : (cursor + IMPORT_DESCRIPTOR_SIZE).toNat = cursor.toNat + 20 := by
        rw [BitVec.toNat_add, h20, Nat.mod_eq_of_lt (by omega)]
      rw [hsat]
      by_cases hroom : cursor.toNat + 20 ≤ stop.toNat
      · have hnot : ¬ cursor + IMPORT_DESCRIPTOR_SIZE > stop := by
          rw [gt_iff_lt, BitVec.lt_def, hnext]
          omega
        rw [if_neg hnot, h20, sliceOr_of_le hin, ok_bind, u32At_slice (by omega), ok_bind,
          u32At_slice (by omega), ok_bind, u32At_slice (by omega), ok_bind, Nat.add_zero]
        by_cases hz : word 32 4 image.byte cursor.toNat = 0 ∧
            word 32 4 image.byte (cursor.toNat + 12) = 0 ∧
            word 32 4 image.byte (cursor.toNat + 16) = 0
        · rw [if_pos hz]
          constructor
          · rintro ⟨⟩
            refine ⟨⟨?_, ?_, ?_, hz⟩, Nat.succ_pos left⟩
            · rw [List.length_nil]
              omega
            · rw [List.length_nil]
              omega
            · intro i d hd
              cases hd
          · rintro ⟨hat, -⟩
            cases dlls with
            | nil => rfl
            | cons d dlls => exact absurd hz (descriptorsAt_cons_iff.mp hat).1.present
        · rw [if_neg hz, bind_eq_ok]
          constructor
          · rintro ⟨name, hname, htable⟩
            obtain ⟨entries, hentries, hafter⟩ := bind_eq_ok.mp htable
            obtain ⟨rest, hrest, hcons⟩ := bind_eq_ok.mp hafter
            obtain rfl := Except.ok.inj hcons
            obtain ⟨hat, hlt⟩ := ih.mp hrest
            obtain ⟨hnil, hthunks, hle⟩ := parseThunkArray_eq_ok_iff.mp hentries
            rw [hnext] at hat
            refine ⟨descriptorsAt_cons_iff.mpr ⟨?_, hat⟩, ?_⟩
            · exact ⟨hz, rfl, rfl, cstrOf_eq_ok_iff.mp hname, hnil, hthunks, hle⟩
            · rw [List.length_cons]
              omega
          · rintro ⟨hat, hlt⟩
            cases dlls with
            | nil => exact absurd hat.terminated hz
            | cons d dlls =>
              obtain ⟨hd, hrest⟩ := descriptorsAt_cons_iff.mp hat
              rw [List.length_cons] at hlt
              rw [← hnext] at hrest
              refine ⟨d.name, cstrOf_eq_ok_iff.mpr hd.name, bind_eq_ok.mpr ⟨d.entries, ?_, ?_⟩⟩
              · rw [← hd.ilt, ← hd.iat]
                exact parseThunkArray_eq_ok_iff.mpr ⟨hd.no_table, hd.table, hd.length_le⟩
              · rw [← hd.ilt, ← hd.iat]
                exact bind_eq_ok.mpr ⟨dlls, ih.mpr ⟨hrest, by omega⟩, rfl⟩
      · have hpast : cursor + IMPORT_DESCRIPTOR_SIZE > stop := by
          rw [gt_iff_lt, BitVec.lt_def, hnext]
          omega
        rw [if_pos hpast]
        refine ⟨nofun, ?_⟩
        rintro ⟨hat, -⟩
        have hstop := hat.room
        omega
    · have hnot : ¬ DescriptorsAt 8 image.toLoadedImage cursor.toNat stop.toNat dlls := by
        intro hat
        have hinside := hat.inside
        omega
      refine ⟨?_, fun h => absurd h.1 hnot⟩
      intro hok
      split at hok
      · cases hok
      · obtain ⟨bytes, hbytes, -⟩ := bind_eq_ok.mp hok
        have hread := (sliceOr_eq_ok hbytes).1
        rw [h20] at hread
        exact absurd hread hin

/-- What is returned is what the directory describes for thunks of 8 bytes. -/
theorem parse_eq_ok_iff {dir : DataDirectory} {dlls : List DllImports}
    (hdir : image.dataDir dirImport = some dir) :
    parse image = .ok ⟨dlls⟩ ↔ DescriptorsAt 8 image.toLoadedImage dir.virtualAddress.toNat
      (dir.virtualAddress.toNat + dir.size.toNat) dlls := by
  have hlen := image.len_le
  have hstop : (saturatingAdd dir.virtualAddress dir.size).toNat =
      min (dir.virtualAddress.toNat + dir.size.toNat) (2 ^ 32 - 1) := by
    rw [saturatingAdd]
    split
    · rename_i hlt
      rw [BitVec.toNat_add, Nat.mod_eq_of_lt hlt]
      omega
    · rw [BitVec.toNat_allOnes]
      omega
  have hparse : parse image = .ok ⟨dlls⟩ ↔
      parseDescriptors image (saturatingAdd dir.virtualAddress dir.size) (dir.size.toNat / 20 + 1)
        dir.virtualAddress = .ok dlls := by
    rw [parse, parseWithDirectory, hdir]
    dsimp only
    rw [bind_eq_ok]
    constructor
    · rintro ⟨dlls', hdlls, heq⟩
      obtain rfl := ImportTable.mk.inj (Except.ok.inj heq)
      exact hdlls
    · intro hdlls
      exact ⟨dlls, hdlls, rfl⟩
  rw [hparse, parseDescriptors_eq_ok_iff, hstop]
  constructor
  · rintro ⟨hat, -⟩
    have hroom := hat.room
    exact ⟨hat.inside, by omega, hat.dll, hat.terminated⟩
  · intro hat
    have hin := hat.inside
    have hroom := hat.room
    exact ⟨⟨hat.inside, by omega, hat.dll, hat.terminated⟩, by omega⟩

/-- A name that is returned has at most 4096 bytes. -/
theorem length_name_le {table : ImportTable} (h : parse image = .ok table) {d : DllImports}
    (hd : d ∈ table.dlls) : (utf8Bytes d.name).length ≤ 4096 := by
  cases hdir : image.dataDir dirImport with
  | none =>
    have hnone : parse image = .ok { dlls := [] } := by
      rw [parse, parseWithDirectory, hdir]
      rfl
    rw [hnone] at h
    cases h
    cases hd
  | some dir =>
    obtain ⟨i, hi⟩ := List.getElem?_of_mem hd
    exact (((parse_eq_ok_iff hdir).mp h).dll i d hi).name.length_le

/-! ### Totality -/

theorem total_cstrLoop (what : CstrErrors) (rva : BitVec 32) (left : Nat) (off : BitVec 32) :
    Total (cstrLoop what image rva left off) := by
  induction left generalizing off with
  | zero => exact total_fail _
  | succ left ih =>
    refine total_sliceOr_bind fun s _ hs => ?_
    refine total_index_bind (by omega) fun b => ?_
    split
    · exact total_ok _
    · refine total_bind (total_okOr _ _) fun next _ => ?_
      exact total_bind (ih next) fun _ _ => total_ok _

theorem total_readCstr (rva : BitVec 32) : Total (readCstr image rva) :=
  total_bind (total_cstrLoop _ rva 4097 rva) fun _ _ => total_okOr _ _

theorem total_parseThunk (thunk : BitVec 64) (slot : BitVec 32) : Total (parseThunk image thunk slot) := by
  unfold parseThunk
  split
  · exact total_ok _
  · have hlt : ((thunk &&& 0x7FFFFFFF).setWidth 32).toNat < 2 ^ 31 := by
      have hand : (thunk &&& 0x7FFFFFFF).toNat ≤ 0x7FFFFFFF := by
        rw [BitVec.toNat_and]
        exact Nat.and_le_right
      rw [BitVec.toNat_setWidth]
      omega
    have h2 : (2 : BitVec 32).toNat = 2 := rfl
    refine total_sliceOr_bind fun s _ hs => ?_
    refine total_u16At_bind (by omega) fun hint => ?_
    refine total_add_bind (by omega) fun nameRva _ => ?_
    exact total_bind (total_readCstr nameRva) fun _ _ => total_ok _

/-- The index times 8 fits in 32 bits, so the second product and the next index do too. -/
theorem total_parseThunkLoop (arrayRva iatRva : BitVec 32) (left : Nat) (idx : BitVec 32) :
    Total (parseThunkLoop image arrayRva iatRva left idx) := by
  induction left generalizing idx with
  | zero => exact total_fail _
  | succ left ih =>
    refine total_bind (total_okOr _ _) fun rel hrel => ?_
    have hsmall : idx.toNat * (8 : BitVec 32).toNat < 2 ^ 32 := by
      have hmul := okOr_eq_ok.mp hrel
      unfold checkedMul at hmul
      split at hmul
      · assumption
      · cases hmul
    have hidx : idx.toNat * 8 < 2 ^ 32 := hsmall
    have h1 : (1 : BitVec 32).toNat = 1 := rfl
    refine total_bind (total_okOr _ _) fun off _ => ?_
    refine total_sliceOr_bind fun slot _ _ => ?_
    dsimp only
    split
    · exact total_ok _
    · refine total_mul_bind hsmall fun slotRel _ => ?_
      refine total_bind (total_okOr _ _) fun iatSlotRva _ => ?_
      refine total_bind (total_parseThunk _ _) fun entry _ => ?_
      refine total_add_bind (by omega) fun next _ => ?_
      exact total_bind (ih next) fun _ _ => total_ok _

theorem total_parseThunkArray (iltRva iatRva : BitVec 32) : Total (parseThunkArray image iltRva iatRva) := by
  unfold parseThunkArray
  dsimp only
  generalize (if iltRva ≠ 0 then iltRva else iatRva) = arrayRva
  split
  · exact total_ok _
  · exact total_parseThunkLoop _ _ _ _

theorem total_parseDescriptors (stop : BitVec 32) (left : Nat) (cursor : BitVec 32) :
    Total (parseDescriptors image stop left cursor) := by
  induction left generalizing cursor with
  | zero => exact total_fail _
  | succ left ih =>
    unfold parseDescriptors
    split
    · exact total_fail _
    · refine total_sliceOr_bind fun s _ hs => ?_
      have h20 : IMPORT_DESCRIPTOR_SIZE.toNat = 20 := rfl
      refine total_u32At_bind (by omega) fun ilt => ?_
      refine total_u32At_bind (by omega) fun nameRva => ?_
      refine total_u32At_bind (by omega) fun iat => ?_
      split
      · exact total_ok _
      · refine total_bind (total_readCstr nameRva) fun name _ => ?_
        refine total_bind (total_parseThunkArray _ _) fun entries _ => ?_
        exact total_bind (ih _) fun _ _ => total_ok _

/-- `imports::parse` does not panic. -/
theorem total_parse (image : PeImage) : Total (parse image) := by
  unfold parse parseWithDirectory
  cases image.dataDir dirImport with
  | none => exact total_ok _
  | some dir => exact total_bind (total_parseDescriptors _ _ _) fun _ _ => total_ok _

/-! ### Wiring -/

section Wiring

variable {σ : Type} {image' : PeImage} {calls : List (String × ImportEntry)}

/-- The addresses that the resolver gives for a list of entries, 0 if it has none, and its state
afterwards. -/
def answers (resolver : σ → String → String → Option (BitVec 64) × σ) :
    List (String × ImportEntry) → σ → List (BitVec 64) × σ
  | [], s => ([], s)
  | (dll, entry) :: rest, s =>
    let (answer, s) := resolver s dll entry.lookupName
    let (addrs, s) := answers resolver rest s
    (answer.getD 0 :: addrs, s)

/-- The slot of a call. -/
def slotAt (call : String × ImportEntry) : Nat :=
  call.2.iatSlotRva.toNat

/-- Every slot of `n` bytes has its address, and the image is as before elsewhere. -/
structure Wired (n : Nat) (image image' : PeImage) (calls : List (String × ImportEntry))
    (addrs : List (BitVec 64)) : Prop where
  slot : ∀ (j : Nat) (call : String × ImportEntry) (addr : BitVec 64),
    calls[j]? = some call → addrs[j]? = some addr →
    word (8 * n) n image'.byte (slotAt call) = addr.setWidth (8 * n)
  frame : ∀ b, (∀ call ∈ calls, ¬ (slotAt call ≤ b ∧ b < slotAt call + n)) →
    image'.byte b = image.byte b
  rest : image' = { image with byte := image'.byte }

def SlotsDisjoint (n : Nat) (calls : List (String × ImportEntry)) : Prop :=
  calls.Pairwise fun c d => slotAt c + n ≤ slotAt d ∨ slotAt d + n ≤ slotAt c

/-- One write before the others, which do not touch its slot. -/
theorem Wired.cons {call : String × ImportEntry} {addr : BitVec 64} {addrs : List (BitVec 64)}
    (hdisj : ∀ d ∈ calls, slotAt call + n ≤ slotAt d ∨ slotAt d + n ≤ slotAt call)
    (h : Wired n (image.write n call.2.iatSlotRva addr) image' calls addrs) :
    Wired n image image' (call :: calls) (addr :: addrs) := by
  refine ⟨?_, ?_, ?_⟩
  · intro j c a hc ha
    cases j with
    | zero =>
      obtain rfl := Option.some.inj hc
      obtain rfl := Option.some.inj ha
      have hkeep : word (8 * n) n image'.byte (slotAt call) =
          word (8 * n) n (image.write n call.2.iatSlotRva addr).byte (slotAt call) := by
        apply word_congr
        intro i hi
        apply h.frame
        intro d hd hbetween
        rcases hdisj d hd with hle | hle <;> omega
      rw [hkeep, PeImage.write]
      dsimp only
      rw [slotAt, word_store_self, BitVec.setWidth_eq]
    | succ j => exact h.slot j c a hc ha
  · intro b hb
    rw [h.frame b fun d hd => hb d (List.mem_cons_of_mem _ hd)]
    exact store_of_not_mem _ _ (hb call List.mem_cons_self)
  · rw [h.rest]
    rfl

/-- Wiring slots that are in the image and do not overlap. -/
theorem wireEntries_spec (resolver : σ → String → String → Option (BitVec 64) × σ) :
    ∀ (calls : List (String × ImportEntry)) (image : PeImage) (s : σ),
      (∀ call ∈ calls, slotAt call + 8 ≤ image.len) → SlotsDisjoint 8 calls →
      ∃ image', wireEntries resolver calls image s = (.ok (), image', (answers resolver calls s).2) ∧
        Wired 8 image image' calls (answers resolver calls s).1 := by
  intro calls
  induction calls with
  | nil =>
    intro image s _ _
    refine ⟨image, rfl, ?_, fun b _ => rfl, rfl⟩
    intro j call addr hcall
    cases hcall
  | cons call calls ih =>
    intro image s hin hdisj
    obtain ⟨dll, entry⟩ := call
    obtain ⟨hhead, htail⟩ := List.pairwise_cons.mp hdisj
    have hslot : image.rvaToSlice entry.iatSlotRva 8 =
        some ((List.range 8).map fun i => image.byte (entry.iatSlotRva.toNat + i)) :=
      LoadedImage.rvaToSlice_of_le (hin (dll, entry) List.mem_cons_self)
    rw [wireEntries, answers]
    dsimp only
    rw [hslot]
    obtain ⟨image', hwire, hwired⟩ := ih
      (image.write 8 entry.iatSlotRva ((resolver s dll entry.lookupName).1.getD 0))
      (resolver s dll entry.lookupName).2 (fun c hc => hin c (List.mem_cons_of_mem _ hc)) htail
    exact ⟨image', hwire, Wired.cons hhead hwired⟩

end Wiring

/-! ### The directory of an image -/

end Imports

/-- The size of a pointer. -/
def Bitness.pointerSize : Bitness → Nat
  | .x86 => 4
  | .x86_64 => 8

namespace Imports

open Checked LeWord

/-- An import directory with thunks of the image's pointer size, whose slots in the IATs are in the image
and do not overlap. -/
structure WellFormedImports (image : PeImage) (dir : DataDirectory) (dlls : List DllImports) :
    Prop where
  dataDir : image.dataDir dirImport = some dir
  descriptors : DescriptorsAt image.bitness.pointerSize image.toLoadedImage dir.virtualAddress.toNat
    (dir.virtualAddress.toNat + dir.size.toNat) dlls
  slots_inside : ∀ call ∈ (ImportTable.mk dlls).entries,
    slotAt call + image.bitness.pointerSize ≤ image.len
  slots_disjoint : SlotsDisjoint image.bitness.pointerSize (ImportTable.mk dlls).entries

variable {dir : DataDirectory} {dlls : List DllImports}

/-- The slots of a DLL follow its IAT. -/
theorem WellFormedImports.slot_eq (h : WellFormedImports image dir dlls) {d : DllImports} (hd : d ∈ dlls)
    {k : Nat} {e : ImportEntry} (he : d.entries[k]? = some e) :
    e.iatSlotRva.toNat = d.iatRva.toNat + image.bitness.pointerSize * k := by
  obtain ⟨i, hi⟩ := List.mem_iff_getElem?.mp hd
  have hdll := h.descriptors.dll i d hi
  by_cases hz : tableRva d = 0
  · rw [hdll.no_table hz] at he
    cases he
  · exact ((hdll.table hz).entry k e he).slot_eq

/-- **Import parsing and wiring**, for PE32+ images.  Parsing returns the entries of the directory, and
wiring stores the answer for each entry in its slot, which is at the IAT plus 8 for each entry before it,
and changes nothing else. -/
theorem parse_wireIat {σ : Type} (hbit : image.bitness = .x86_64)
    (h : WellFormedImports image dir dlls)
    (resolver : σ → String → String → Option (BitVec 64) × σ) (s : σ) :
    parse image = .ok ⟨dlls⟩ ∧
      (∀ d ∈ dlls, ∀ k e, d.entries[k]? = some e →
        e.iatSlotRva.toNat = d.iatRva.toNat + 8 * k) ∧
      ∃ image', wireIat image ⟨dlls⟩ resolver s =
          (.ok (), image', (answers resolver (ImportTable.mk dlls).entries s).2) ∧
        Wired 8 image image' (ImportTable.mk dlls).entries
          (answers resolver (ImportTable.mk dlls).entries s).1 := by
  have hsize : image.bitness.pointerSize = 8 := by
    rw [hbit]
    rfl
  have hdescriptors := h.descriptors
  have hinside := h.slots_inside
  have hdisjoint := h.slots_disjoint
  rw [hsize] at hdescriptors hinside hdisjoint
  refine ⟨(parse_eq_ok_iff h.dataDir).mpr hdescriptors, ?_, ?_⟩
  · intro d hd k e he
    rw [h.slot_eq hd he, hsize]
  · exact wireEntries_spec resolver (ImportTable.mk dlls).entries image s hinside hdisjoint

/-- An image with the import directory of one DLL at 0x10: its lookup table is at 0x40, its IAT at 0x58
and the names at 0x70 and 0x76. -/
def importImage (bitness : Bitness) (thunks : List (Nat × BitVec 8)) : PeImage where
  actualBase := 0x140000000
  len := 0x80
  byte i := ((thunks ++ [(0x10, 0x40), (0x1C, 0x70), (0x20, 0x58), (0x70, 0x4B), (0x74, 0x01),
    (0x76, 0x66)]).lookup i).getD 0
  preferredBase := 0x140000000
  sizeOfImage := 0x80
  sizeOfHeaders := 0x10
  entryRva := 0
  subsystem := 3
  bitness := bitness
  sections := []
  dataDirectories := [⟨0, 0⟩, ⟨0x10, 0x28⟩]
  len_le := by decide

/-- An import by name and one by ordinal, whose slot is at `slot`. -/
def importDll (slot : BitVec 32) : DllImports where
  name := "K"
  iatRva := 0x58
  iltRva := 0x40
  entries := [.name 1 "f" 0x58, .ordinal 7 slot]

/-- The two imports with thunks of 8 bytes. -/
def wideImage : PeImage :=
  importImage .x86_64 [(0x40, 0x74), (0x48, 0x07), (0x4F, 0x80)]

theorem wellFormed_wideImage : WellFormedImports wideImage ⟨0x10, 0x28⟩ [importDll 0x60] := by
  have hdll : CstrAt wideImage.toLoadedImage 0x70 "K" :=
    cstrAt_singleton (show utf8Bytes "K" = [0x4B] by decide) (by decide) (by decide) (by decide)
      (by decide)
  have hname : CstrAt wideImage.toLoadedImage 0x76 "f" :=
    cstrAt_singleton (show utf8Bytes "f" = [0x66] by decide) (by decide) (by decide) (by decide)
      (by decide)
  have hfirst : ThunkAt 8 wideImage.toLoadedImage 0x40 0x58 (.name 1 "f" 0x58) :=
    ⟨by decide, ⟨by decide, by decide, hname⟩, rfl⟩
  have hsecond : ThunkAt 8 wideImage.toLoadedImage 0x48 0x60 (.ordinal 7 0x60) :=
    ⟨by decide, ⟨by decide, by decide⟩, rfl⟩
  have hnull : ThunksAt 8 wideImage.toLoadedImage 0x50 0x68 [] :=
    thunksAt_nil_iff.mpr ⟨by decide, by decide⟩
  have htable : ThunksAt 8 wideImage.toLoadedImage 0x40 0x58 (importDll 0x60).entries :=
    thunksAt_cons_iff.mpr ⟨hfirst, thunksAt_cons_iff.mpr ⟨hsecond, hnull⟩⟩
  have hdescriptor : DllAt 8 wideImage.toLoadedImage 0x10 (importDll 0x60) :=
    ⟨by decide, by decide, by decide, hdll, by decide, fun _ => htable, by decide⟩
  refine ⟨rfl, ?_, by decide, ?_⟩
  · refine descriptorsAt_cons_iff.mpr ⟨hdescriptor, ?_⟩
    exact ⟨by decide, by decide, nofun, by decide⟩
  · apply List.pairwise_pair.mpr
    decide

/-- A resolver that counts from 0x1000. -/
theorem parse_wireIat_wideImage :
    parse wideImage = .ok ⟨[importDll 0x60]⟩ ∧
      ∃ image', wireIat wideImage ⟨[importDll 0x60]⟩
          (fun (s : BitVec 64) _ _ => (some s, s + 1)) 0x1000 = (.ok (), image', 0x1002) ∧
        word 64 8 image'.byte 0x58 = 0x1000 ∧ word 64 8 image'.byte 0x60 = 0x1001 := by
  obtain ⟨hparse, -, image', hwire, hwired⟩ := parse_wireIat rfl wellFormed_wideImage
    (fun (s : BitVec 64) _ _ => (some s, s + 1)) 0x1000
  exact ⟨hparse, image', hwire, hwired.slot 0 _ _ rfl rfl, hwired.slot 1 _ _ rfl rfl⟩

end Imports

end Quantum.Loader
