import Quantum.Loader.Equiv.Imports
import Mathlib.Data.List.MinMax
import Mathlib.Data.List.Pairwise

/-!
# Import directories of 32-bit images

The loader maps PE32 images too, but their thunks are read and written with 8 bytes.  `parse_x86_iff` says
for which 32-bit directories that gives the entries, and `wireIat_x86_iff` when the slots are right as
well, whatever the resolver answers.
-/

namespace Quantum.Loader.Imports

open Checked LeWord

variable {image : PeImage} {dir : DataDirectory} {dlls : List DllImports}

/-! ### Thunks of 4 bytes read with 8 -/

/-- A thunk of 8 bytes whose upper half is zero. -/
theorem word_eight_of_upper {m : Nat → BitVec 8} {a : Nat} (h : word 64 4 m (a + 4) = 0) :
    word 64 8 m a = word 64 4 m a := by
  apply BitVec.eq_of_getLsbD_eq
  intro i hi
  rw [getLsbD_word, getLsbD_word]
  by_cases hlow : i < 32
  · rw [decide_eq_true (show i < 8 * 8 by omega), decide_eq_true (show i < 8 * 4 by omega)]
  · have hbit := congrArg (BitVec.getLsbD · (i - 32)) h
    rw [getLsbD_word, decide_eq_true (show i - 32 < 64 by omega),
      decide_eq_true (show i - 32 < 8 * 4 by omega), Bool.true_and, Bool.true_and,
      show a + 4 + (i - 32) / 8 = a + i / 8 by omega, show (i - 32) % 8 = i % 8 by omega] at hbit
    have hzero : (m (a + i / 8)).getLsbD (i % 8) = false := hbit.trans BitVec.getLsbD_zero
    rw [hzero, decide_eq_false (show ¬ i < 8 * 4 by omega), Bool.and_false, Bool.and_false]

theorem word_four_bit_eq_false {m : Nat → BitVec 8} {a : Nat} : (word 64 4 m a).getLsbD 63 = false := by
  rw [getLsbD_word]
  rfl

def ImportEntry.isName : ImportEntry → Bool
  | .name _ _ _ => true
  | .ordinal _ _ => false

/-- When 8 bytes at a time give the entries of a table with thunks of 4 bytes: it has no entry and what
follows its terminator is zero, or it has one entry by name and the 8 bytes behind the terminator's are
zero. -/
def ReadsWide (image : LoadedImage) (table : Nat) : List ImportEntry → Prop
  | [] => table + 8 ≤ image.len ∧ word 64 8 image.byte table = 0
  | [e] => e.isName = true ∧ table + 16 ≤ image.len ∧ word 64 8 image.byte (table + 8) = 0
  | _ :: _ :: _ => False

theorem thunksAt_eight_iff {image : LoadedImage} {table iat : Nat} {entries : List ImportEntry}
    (h : ThunksAt 4 image table iat entries) :
    ThunksAt 8 image table iat entries ↔ ReadsWide image table entries := by
  cases entries with
  | nil => exact thunksAt_nil_iff
  | cons e entries =>
    obtain ⟨hthunk, hrest⟩ := thunksAt_cons_iff.mp h
    cases entries with
    | nil =>
      have hword := word_eight_of_upper (thunksAt_nil_iff.mp hrest).2
      rw [thunksAt_cons_iff, thunksAt_nil_iff]
      constructor
      · rintro ⟨hwide, hin, hz⟩
        refine ⟨?_, by omega, hz⟩
        have hdesc := hwide.describes
        rw [hword, word_four_bit_eq_false] at hdesc
        cases e with
        | name hint importName slot => rfl
        | ordinal number slot => cases hdesc.1
      · rintro ⟨hname, hin, hz⟩
        refine ⟨⟨?_, ?_, hthunk.slot_eq⟩, by omega, hz⟩
        · rw [hword]
          exact hthunk.ne_zero
        · rw [hword, word_four_bit_eq_false]
          cases e with
          | name hint importName slot => exact ⟨rfl, hthunk.describes.2⟩
          | ordinal number slot => cases hname
    | cons e' entries =>
      refine ⟨?_, fun hfalse => hfalse.elim⟩
      -- the second slot is 4 bytes behind the first, not 8
      intro hwide
      have hfour := (thunksAt_cons_iff.mp hrest).1.slot_eq
      have height := (thunksAt_cons_iff.mp (thunksAt_cons_iff.mp hwide).2).1.slot_eq
      omega

/-- The table of a DLL can be read with 8 bytes at a time, if it has one. -/
def DllReadsWide (image : LoadedImage) (d : DllImports) : Prop :=
  tableRva d ≠ 0 → ReadsWide image (tableRva d).toNat d.entries

theorem dllAt_eight_iff {image : LoadedImage} {a : Nat} {d : DllImports} (h : DllAt 4 image a d) :
    DllAt 8 image a d ↔ DllReadsWide image d := by
  constructor
  · intro hwide hne
    exact (thunksAt_eight_iff (h.table hne)).mp (hwide.table hne)
  · intro hreads
    refine ⟨h.present, h.ilt, h.iat, h.name, h.no_table, ?_, h.length_le⟩
    intro hne
    exact (thunksAt_eight_iff (h.table hne)).mpr (hreads hne)

theorem pointerSize_x86 (hbit : image.bitness = .x86) : image.bitness.pointerSize = 4 := by
  rw [hbit]
  rfl

/-- Parsing gives the entries of a 32-bit directory exactly if every table can be read with 8 bytes at a
time. -/
theorem parse_x86_iff (hbit : image.bitness = .x86) (h : WellFormedImports image dir dlls) :
    parse image = .ok ⟨dlls⟩ ↔ ∀ d ∈ dlls, DllReadsWide image.toLoadedImage d := by
  have hfour := h.descriptors
  rw [pointerSize_x86 hbit] at hfour
  rw [parse_eq_ok_iff h.dataDir]
  constructor
  · intro hwide d hd
    obtain ⟨i, hi⟩ := List.mem_iff_getElem?.mp hd
    exact (dllAt_eight_iff (hfour.dll i d hi)).mp (hwide.dll i d hi)
  · intro hreads
    refine ⟨hfour.inside, hfour.room, ?_, hfour.terminated⟩
    intro i d hd
    exact (dllAt_eight_iff (hfour.dll i d hd)).mpr (hreads d (List.mem_of_getElem? hd))

/-! ### Slots of 4 bytes written with 8 -/

section Wiring

variable {calls : List (String × ImportEntry)} {image' : PeImage} {v : BitVec 64}

/-- A resolver with one answer. -/
def constant (v : BitVec 64) : Unit → String → String → Option (BitVec 64) × Unit :=
  fun s _ _ => (some v, s)

theorem wireEntries_constant_cons {call : String × ImportEntry}
    (h : wireEntries (constant v) (call :: calls) image () = (.ok (), image', ())) :
    wireEntries (constant v) calls (image.write 8 call.2.iatSlotRva v) () = (.ok (), image', ()) := by
  rw [wireEntries] at h
  dsimp only at h
  split at h
  · cases h
  · exact h

/-- Bytes that no write of 8 bytes covers. -/
theorem wireEntries_constant_frame {b : Nat} :
    ∀ {calls : List (String × ImportEntry)} {image : PeImage},
      wireEntries (constant v) calls image () = (.ok (), image', ()) →
      (∀ call ∈ calls, ¬ (slotAt call ≤ b ∧ b < slotAt call + 8)) → image'.byte b = image.byte b := by
  intro calls
  induction calls with
  | nil =>
    intro image h _
    cases h
    rfl
  | cons call calls ih =>
    intro image h hb
    rw [ih (wireEntries_constant_cons h) fun d hd => hb d (List.mem_cons_of_mem _ hd)]
    exact store_of_not_mem _ _ (hb call List.mem_cons_self)

/-- A byte that is covered by writes to one slot only. -/
theorem wireEntries_constant_byte {b slot : Nat} (hslot : slot ≤ b ∧ b < slot + 8) :
    ∀ {calls : List (String × ImportEntry)} {image : PeImage},
      wireEntries (constant v) calls image () = (.ok (), image', ()) →
      (∃ call ∈ calls, slotAt call = slot) →
      (∀ call ∈ calls, slotAt call ≤ b ∧ b < slotAt call + 8 → slotAt call = slot) →
      image'.byte b = v.extractLsb' (8 * (b - slot)) 8 := by
  intro calls
  induction calls with
  | nil =>
    rintro image h ⟨call, hcall, -⟩
    cases hcall
  | cons call calls ih =>
    intro image h hex honly
    have htail := wireEntries_constant_cons h
    by_cases hin : ∃ d ∈ calls, slotAt d = slot
    · exact ih htail hin fun d hd => honly d (List.mem_cons_of_mem _ hd)
    · -- the last write to the slot is this one
      have hhead : slotAt call = slot := by
        obtain ⟨d, hd, hds⟩ := hex
        rcases List.mem_cons.mp hd with rfl | hd
        · exact hds
        · exact absurd ⟨d, hd, hds⟩ hin
      have hframe : image'.byte b = (image.write 8 call.2.iatSlotRva v).byte b := by
        apply wireEntries_constant_frame htail
        intro d hd hcover
        exact hin ⟨d, hd, honly d (List.mem_cons_of_mem _ hd) hcover⟩
      have hstore : (image.write 8 call.2.iatSlotRva v).byte b = v.extractLsb' (8 * (b - slot)) 8 := by
        rw [← hhead] at hslot ⊢
        exact if_pos hslot
      rw [hframe, hstore]

/-- Slots that do not overlap are apart, in whatever order they are listed. -/
theorem SlotsDisjoint.apart {n : Nat} (h : SlotsDisjoint n calls) {c d : String × ImportEntry}
    (hc : c ∈ calls) (hd : d ∈ calls) (hne : slotAt c ≠ slotAt d) :
    slotAt c + n ≤ slotAt d ∨ slotAt d + n ≤ slotAt c := by
  have hsymm : Std.Symm fun c d : String × ImportEntry =>
      slotAt c + n ≤ slotAt d ∨ slotAt d + n ≤ slotAt c := ⟨fun _ _ hor => hor.symm⟩
  apply List.Pairwise.forall h hc hd
  intro heq
  exact hne (congrArg slotAt heq)

/-- The upper half of an address that differs from what is behind a slot of 4 bytes. -/
def spilled (image : LoadedImage) (slot : Nat) : BitVec 64 :=
  (~~~ (image.byte (slot + 4))).setWidth 64 <<< 32

theorem spilled_byte (image : LoadedImage) (slot : Nat) :
    (spilled image slot).extractLsb' (8 * 4) 8 ≠ image.byte (slot + 4) := by
  intro h
  have hbit := congrArg (BitVec.getLsbD · 0) h
  simp [spilled] at hbit

/-- A table with an entry is not wired with slots of 4 bytes for every resolver: above the highest slot
there is none, and 8 bytes written to it spill. -/
theorem exists_not_wired {call : String × ImportEntry} (hcall : call ∈ calls)
    (hdisj : SlotsDisjoint 4 calls) :
    ∃ v, ∀ image' addrs, wireEntries (constant v) calls image () = (.ok (), image', ()) →
      ¬ Wired 4 image image' calls addrs := by
  obtain ⟨top, htop⟩ : ∃ top, calls.argmax slotAt = some top := by
    cases hmax : calls.argmax slotAt with
    | none =>
      rw [List.argmax_eq_none.mp hmax] at hcall
      cases hcall
    | some top => exact ⟨top, rfl⟩
  have hmem : top ∈ calls := List.argmax_mem htop
  have hmax : ∀ d ∈ calls, slotAt d ≤ slotAt top := fun d hd => List.le_of_mem_argmax hd htop
  refine ⟨spilled image.toLoadedImage (slotAt top), ?_⟩
  intro image' addrs hwire hwired
  have hwritten : image'.byte (slotAt top + 4) =
      (spilled image.toLoadedImage (slotAt top)).extractLsb' (8 * 4) 8 := by
    have hbyte := wireEntries_constant_byte (show slotAt top ≤ slotAt top + 4 ∧
      slotAt top + 4 < slotAt top + 8 by omega) hwire ⟨top, hmem, rfl⟩
    rw [Nat.add_sub_cancel_left] at hbyte
    apply hbyte
    intro d hd hcover
    by_contra hne
    have hle := hmax d hd
    rcases hdisj.apart hd hmem hne with h | h <;> omega
  have hkept : image'.byte (slotAt top + 4) = image.byte (slotAt top + 4) := by
    apply hwired.frame
    intro d hd hcover
    have hle := hmax d hd
    by_cases hne : slotAt d = slotAt top
    · omega
    · rcases hdisj.apart hd hmem hne with h | h <;> omega
  exact spilled_byte image.toLoadedImage (slotAt top) (hwritten.symm.trans hkept)

end Wiring

/-- Every resolver's answers are wired with slots of the image's pointer size. -/
def WiresAll (image : PeImage) (dlls : List DllImports) : Prop :=
  ∀ (σ : Type) (resolver : σ → String → String → Option (BitVec 64) × σ) (s : σ),
    ∃ image', wireIat image ⟨dlls⟩ resolver s =
        (.ok (), image', (answers resolver (ImportTable.mk dlls).entries s).2) ∧
      Wired image.bitness.pointerSize image image' (ImportTable.mk dlls).entries
        (answers resolver (ImportTable.mk dlls).entries s).1

theorem wiresAll_x86_iff (hbit : image.bitness = .x86) (h : WellFormedImports image dir dlls) :
    WiresAll image dlls ↔ ∀ d ∈ dlls, d.entries = [] := by
  have hdisj := h.slots_disjoint
  rw [pointerSize_x86 hbit] at hdisj
  have hnil : (ImportTable.mk dlls).entries = [] ↔ ∀ d ∈ dlls, d.entries = [] := by
    rw [ImportTable.entries, List.flatMap_eq_nil_iff]
    refine forall₂_congr fun d _ => ?_
    rw [List.map_eq_nil_iff]
  rw [← hnil]
  constructor
  · intro hall
    by_contra hne
    obtain ⟨call, hcall⟩ := List.exists_mem_of_ne_nil _ hne
    obtain ⟨v, hv⟩ := @exists_not_wired image _ _ hcall hdisj
    obtain ⟨image', hwire, hwired⟩ := hall Unit (constant v) ()
    rw [pointerSize_x86 hbit] at hwired
    exact hv image' _ hwire hwired
  · intro hempty σ resolver s
    rw [wireIat, hempty]
    refine ⟨image, rfl, ?_, fun b _ => rfl, rfl⟩
    intro j call addr hcall
    cases hcall

/-- A table without entries that can be read with 8 bytes at a time. -/
def EmptyWide (image : LoadedImage) (d : DllImports) : Prop :=
  d.entries = [] ∧ (tableRva d ≠ 0 →
    (tableRva d).toNat + 8 ≤ image.len ∧ word 64 8 image.byte (tableRva d).toNat = 0)

/-- **Pointer width of 32-bit images.**  Parsing lists exactly the entries of a 32-bit directory if each
table can be read with 8 bytes at a time, and not else; and wiring is right as well, for every resolver,
if no table has an entry, and not else. -/
theorem importWidth_x86_iff (hbit : image.bitness = .x86) (h : WellFormedImports image dir dlls) :
    (parse image = .ok ⟨dlls⟩ ↔ ∀ d ∈ dlls, DllReadsWide image.toLoadedImage d) ∧
      (parse image = .ok ⟨dlls⟩ ∧ WiresAll image dlls ↔
        ∀ d ∈ dlls, EmptyWide image.toLoadedImage d) := by
  refine ⟨parse_x86_iff hbit h, ?_⟩
  rw [parse_x86_iff hbit h, wiresAll_x86_iff hbit h]
  constructor
  · rintro ⟨hreads, hempty⟩ d hd
    refine ⟨hempty d hd, fun hne => ?_⟩
    have hwide := hreads d hd hne
    rw [hempty d hd] at hwide
    exact hwide
  · intro hempty
    refine ⟨fun d hd hne => ?_, fun d hd => (hempty d hd).1⟩
    rw [(hempty d hd).1]
    exact (hempty d hd).2 hne

/-- The two imports with thunks of 4 bytes. -/
def narrowImage : PeImage :=
  importImage .x86 [(0x40, 0x74), (0x44, 0x07), (0x47, 0x80)]

theorem wellFormed_narrowImage : WellFormedImports narrowImage ⟨0x10, 0x28⟩ [importDll 0x5C] := by
  have hdll : CstrAt narrowImage.toLoadedImage 0x70 "K" :=
    cstrAt_singleton (show utf8Bytes "K" = [0x4B] by decide) (by decide) (by decide) (by decide)
      (by decide)
  have hname : CstrAt narrowImage.toLoadedImage 0x76 "f" :=
    cstrAt_singleton (show utf8Bytes "f" = [0x66] by decide) (by decide) (by decide) (by decide)
      (by decide)
  have hfirst : ThunkAt 4 narrowImage.toLoadedImage 0x40 0x58 (.name 1 "f" 0x58) :=
    ⟨by decide, ⟨by decide, by decide, hname⟩, rfl⟩
  have hsecond : ThunkAt 4 narrowImage.toLoadedImage 0x44 0x5C (.ordinal 7 0x5C) :=
    ⟨by decide, ⟨by decide, by decide⟩, rfl⟩
  have hnull : ThunksAt 4 narrowImage.toLoadedImage 0x48 0x60 [] :=
    thunksAt_nil_iff.mpr ⟨by decide, by decide⟩
  have htable : ThunksAt 4 narrowImage.toLoadedImage 0x40 0x58 (importDll 0x5C).entries :=
    thunksAt_cons_iff.mpr ⟨hfirst, thunksAt_cons_iff.mpr ⟨hsecond, hnull⟩⟩
  have hdescriptor : DllAt 4 narrowImage.toLoadedImage 0x10 (importDll 0x5C) :=
    ⟨by decide, by decide, by decide, hdll, by decide, fun _ => htable, by decide⟩
  refine ⟨rfl, ?_, by decide, ?_⟩
  · refine descriptorsAt_cons_iff.mpr ⟨hdescriptor, ?_⟩
    exact ⟨by decide, by decide, nofun, by decide⟩
  · apply List.pairwise_pair.mpr
    decide

theorem not_readsWide_narrowImage : ¬ DllReadsWide narrowImage.toLoadedImage (importDll 0x5C) := by
  intro hreads
  exact hreads (by decide)

theorem importWidth_x86_iff_narrowImage :
    (parse narrowImage = .ok ⟨[importDll 0x5C]⟩ ↔
        ∀ d ∈ [importDll 0x5C], DllReadsWide narrowImage.toLoadedImage d) ∧
      (parse narrowImage = .ok ⟨[importDll 0x5C]⟩ ∧ WiresAll narrowImage [importDll 0x5C] ↔
        ∀ d ∈ [importDll 0x5C], EmptyWide narrowImage.toLoadedImage d) :=
  importWidth_x86_iff rfl wellFormed_narrowImage

/-- The two thunks are taken for one of 8 bytes. -/
theorem parse_narrowImage_ne :
    narrowImage.bitness = .x86 ∧ WellFormedImports narrowImage ⟨0x10, 0x28⟩ [importDll 0x5C] ∧
      parse narrowImage ≠ .ok ⟨[importDll 0x5C]⟩ := by
  refine ⟨rfl, wellFormed_narrowImage, ?_⟩
  intro hparse
  have hreads := (parse_x86_iff rfl wellFormed_narrowImage).mp hparse
  exact not_readsWide_narrowImage (hreads _ List.mem_cons_self)

end Quantum.Loader.Imports
