import Quantum.Loader.Reloc
import Quantum.Loader.Equiv.Image

/-!
# Correctness of `reloc::apply`

A directory names fields of the image: words of 8 bytes (DIR64) or 4 bytes (HIGHLOW).  `relocate d fs`
adds `d` to the fields `fs`, one after another.  If they do not overlap, each of them ends up with `d`
added to it and nothing else changes (`word_relocate`, `relocate_of_not_covers`), so two passes add up
(`relocate_relocate`).

`apply` on a well-formed directory is `relocate` (`apply_eq`): the directory lies apart from the fields,
so its blocks are read as they were, however much has been written already.
-/

namespace Quantum.Loader

open LeWord

/-! ### Fields -/

/-- A word of the image that is relocated. -/
structure Field where
  rva : Nat
  width : Nat
  deriving DecidableEq

namespace Field

def Covers (f : Field) (i : Nat) : Prop :=
  f.rva ≤ i ∧ i < f.rva + f.width

def Apart (f g : Field) : Prop :=
  f.rva + f.width ≤ g.rva ∨ g.rva + g.width ≤ f.rva

instance (f g : Field) : Decidable (f.Apart g) :=
  inferInstanceAs (Decidable (f.rva + f.width ≤ g.rva ∨ g.rva + g.width ≤ f.rva))

/-- Add `d` to a field. -/
def add (d : BitVec 64) (m : Nat → BitVec 8) (f : Field) : Nat → BitVec 8 :=
  store f.width m f.rva (word 64 f.width m f.rva + d)

end Field

/-- Add `d` to all fields. -/
def relocate (d : BitVec 64) (fs : List Field) (m : Nat → BitVec 8) : Nat → BitVec 8 :=
  fs.foldl (fun m f => f.add d m) m

variable {d : BitVec 64} {fs : List Field} {f : Field} {m : Nat → BitVec 8}

theorem relocate_append (d : BitVec 64) (fs gs : List Field) (m : Nat → BitVec 8) :
    relocate d (fs ++ gs) m = relocate d gs (relocate d fs m) :=
  List.foldl_append

theorem relocate_of_not_covers {i : Nat} (h : ∀ f ∈ fs, ¬ f.Covers i) (m : Nat → BitVec 8) :
    relocate d fs m i = m i := by
  induction fs generalizing m with
  | nil => rfl
  | cons g fs ih =>
    rw [List.forall_mem_cons] at h
    rw [relocate, List.foldl_cons, ← relocate, ih h.2, Field.add, store_of_not_mem _ _ h.1]

theorem word_relocate_of_apart (w : Nat) (h : ∀ g ∈ fs, f.Apart g) (m : Nat → BitVec 8) :
    word w f.width (relocate d fs m) f.rva = word w f.width m f.rva := by
  refine word_congr w fun i hi => relocate_of_not_covers (fun g hg hcov => ?_) m
  have hap := h g hg
  unfold Field.Apart at hap
  unfold Field.Covers at hcov
  omega

/-- A field ends up with `d` added to it. -/
theorem word_relocate (hsep : fs.Pairwise Field.Apart) (hf : f ∈ fs) (m : Nat → BitVec 8) :
    word 64 f.width (relocate d fs m) f.rva =
      ((word 64 f.width m f.rva + d).setWidth (8 * f.width)).setWidth 64 := by
  induction fs generalizing m with
  | nil => cases hf
  | cons g fs ih =>
    obtain ⟨hhead, htail⟩ := List.pairwise_cons.mp hsep
    rw [relocate, List.foldl_cons, ← relocate]
    rcases List.mem_cons.mp hf with rfl | hf
    · rw [word_relocate_of_apart 64 hhead, Field.add, word_store_self]
    · have hap : g.Apart f := hhead f hf
      rw [ih htail hf, Field.add, word_store_of_disjoint 64 _ _ (by
        unfold Field.Apart at hap
        omega)]

/-- Two passes add up. -/
theorem relocate_relocate (hsep : fs.Pairwise Field.Apart) (hw : ∀ f ∈ fs, f.width ≤ 8)
    (d₁ d₂ : BitVec 64) (m : Nat → BitVec 8) :
    relocate d₂ fs (relocate d₁ fs m) = relocate (d₁ + d₂) fs m := by
  funext i
  by_cases hcov : ∃ f ∈ fs, f.Covers i
  · obtain ⟨f, hf, hlo, hhi⟩ := hcov
    have hwidth := hw f hf
    have h8 : 8 * f.width ≤ 64 := by omega
    have hword : word 64 f.width (relocate d₂ fs (relocate d₁ fs m)) f.rva =
        word 64 f.width (relocate (d₁ + d₂) fs m) f.rva := by
      rw [word_relocate hsep hf, word_relocate hsep hf, word_relocate hsep hf,
        BitVec.setWidth_add _ _ h8, BitVec.setWidth_setWidth_of_le _ h8, BitVec.setWidth_eq,
        ← BitVec.setWidth_add _ _ h8, BitVec.add_assoc]
    have hbyte : ∀ m : Nat → BitVec 8,
        m i = (word 64 f.width m f.rva).extractLsb' (8 * (i - f.rva)) 8 := fun m => by
      rw [byte_word h8 (show i - f.rva < f.width by omega), Nat.add_sub_cancel' hlo]
    rw [hbyte (relocate d₂ fs (relocate d₁ fs m)), hword, ← hbyte]
  · have hno : ∀ f ∈ fs, ¬ f.Covers i := fun f hf hc => hcov ⟨f, hf, hc⟩
    rw [relocate_of_not_covers hno, relocate_of_not_covers hno, relocate_of_not_covers hno]

theorem relocate_zero (hw : ∀ f ∈ fs, f.width ≤ 8) (m : Nat → BitVec 8) :
    relocate 0 fs m = m := by
  induction fs with
  | nil => rfl
  | cons f fs ih =>
    rw [List.forall_mem_cons] at hw
    have hadd : f.add 0 m = m := by
      funext i
      rw [Field.add, store]
      split
      · rename_i hi
        rw [add_zero, byte_word (by omega) (show i - f.rva < f.width by omega),
          Nat.add_sub_cancel' hi.1]
      · rfl
    rw [relocate, List.foldl_cons, ← relocate, hadd, ih hw.2]

/-! ### Entries -/

/-- The field of an entry; padding has none. -/
def relocField (pageRva : BitVec 32) (raw : BitVec 16) : Option Field :=
  if relocType raw = REL_DIR64 then some ⟨pageRva.toNat + (relocOffset raw).toNat, 8⟩
  else if relocType raw = REL_HIGHLOW then some ⟨pageRva.toNat + (relocOffset raw).toNat, 4⟩
  else none

/-- Padding, DIR64 or HIGHLOW. -/
def Supported (raw : BitVec 16) : Prop :=
  relocType raw = REL_ABSOLUTE ∨ relocType raw = REL_DIR64 ∨ relocType raw = REL_HIGHLOW

instance (raw : BitVec 16) : Decidable (Supported raw) :=
  inferInstanceAs (Decidable
    (relocType raw = REL_ABSOLUTE ∨ relocType raw = REL_DIR64 ∨ relocType raw = REL_HIGHLOW))

/-- The image with other bytes. -/
def PeImage.withBytes (image : PeImage) (m : Nat → BitVec 8) : PeImage :=
  { image with byte := m }

theorem width_of_relocField {pageRva : BitVec 32} {raw : BitVec 16}
    (h : relocField pageRva raw = some f) : f.width ≤ 8 := by
  unfold relocField at h
  split at h
  · obtain rfl := Option.some.inj h
    exact le_refl 8
  · split at h
    · obtain rfl := Option.some.inj h
      exact (by decide : 4 ≤ 8)
    · cases h

/-- A word of four bytes, in 64 bits. -/
theorem word_64_4 (m : Nat → BitVec 8) (a : Nat) : word 64 4 m a = (word 32 4 m a).setWidth 64 := by
  refine BitVec.eq_of_getLsbD_eq fun i hi => ?_
  rw [BitVec.getLsbD_setWidth, getLsbD_word, getLsbD_word]
  by_cases h : i < 32
  · simp [h]
  · simp [h]

/-- What `apply` writes to a HIGHLOW field. -/
theorem store_highlow (d : BitVec 64) (m : Nat → BitVec 8) (a : Nat) :
    store 4 m a (word 32 4 m a + d.setWidth 32) = Field.add d m ⟨a, 4⟩ := by
  rw [Field.add]
  refine store_congr ?_ m a
  rw [word_64_4, BitVec.setWidth_add _ _ (by decide : 8 * 4 ≤ 64),
    BitVec.setWidth_setWidth_of_le _ (by decide : 8 * 4 ≤ 64)]
  rfl

theorem saturatingAdd_eq {x y : BitVec 32} (h : x.toNat + y.toNat < 2 ^ 32) :
    (saturatingAdd x y).toNat = x.toNat + y.toNat := by
  rw [saturatingAdd, if_pos h, BitVec.toNat_add, Nat.mod_eq_of_lt h]

/-- One entry adds the delta to its field, if it has one. -/
theorem applyEntries_cons (delta : BitVec 64) (pageRva : BitVec 32) {raw : BitVec 16}
    {image : PeImage} (hty : Supported raw)
    (hin : ∀ f, relocField pageRva raw = some f → f.rva + f.width ≤ image.len)
    (entries : List (BitVec 16)) (stats : RelocStats) :
    ∃ stats', applyEntries delta pageRva (raw :: entries) image stats =
      applyEntries delta pageRva entries
        (image.withBytes (relocate delta (relocField pageRva raw).toList image.byte)) stats' := by
  have hlen := image.len_le
  rw [applyEntries]
  rcases hty with habs | hdir | hhigh
  · have hnone : relocField pageRva raw = none := by
      rw [relocField, habs]
      rfl
    rw [hnone, habs]
    exact ⟨_, rfl⟩
  · have hsome : relocField pageRva raw = some ⟨pageRva.toNat + (relocOffset raw).toNat, 8⟩ := by
      rw [relocField, if_pos hdir]
    have htarget := hin _ hsome
    dsimp only at htarget
    have hsat := saturatingAdd_eq (show pageRva.toNat + (relocOffset raw).toNat < 2 ^ 32 by omega)
    obtain ⟨slot, hslot, hle⟩ := Option.map_eq_some_iff.mp
      (LoadedImage.le64_rvaToSlice (show (saturatingAdd pageRva (relocOffset raw)).toNat + 8 ≤
        image.toLoadedImage.len by omega))
    simp only [hdir, show REL_DIR64 ≠ REL_ABSOLUTE by decide, if_false, if_true, hslot, hle, hsome]
    rw [PeImage.write, hsat]
    exact ⟨_, rfl⟩
  · have hne : relocType raw ≠ REL_DIR64 := by
      rw [hhigh]
      decide
    have hsome : relocField pageRva raw = some ⟨pageRva.toNat + (relocOffset raw).toNat, 4⟩ := by
      rw [relocField, if_neg hne, if_pos hhigh]
    have htarget := hin _ hsome
    dsimp only at htarget
    have hsat := saturatingAdd_eq (show pageRva.toNat + (relocOffset raw).toNat < 2 ^ 32 by omega)
    obtain ⟨slot, hslot, hle⟩ := Option.map_eq_some_iff.mp
      (LoadedImage.le32_rvaToSlice (show (saturatingAdd pageRva (relocOffset raw)).toNat + 4 ≤
        image.toLoadedImage.len by omega))
    simp only [hhigh, show REL_HIGHLOW ≠ REL_ABSOLUTE by decide,
      show REL_HIGHLOW ≠ REL_DIR64 by decide, if_false, if_true, hslot, hle, hsome]
    rw [PeImage.write, store_highlow, hsat]
    exact ⟨_, rfl⟩

/-- The entries of a block add the delta to its fields. -/
theorem applyEntries_eq (delta : BitVec 64) (pageRva : BitVec 32) {entries : List (BitVec 16)}
    {image : PeImage} (hty : ∀ raw ∈ entries, Supported raw)
    (hin : ∀ f ∈ entries.filterMap (relocField pageRva), f.rva + f.width ≤ image.len)
    (stats : RelocStats) : ∃ stats', applyEntries delta pageRva entries image stats =
      (image.withBytes (relocate delta (entries.filterMap (relocField pageRva)) image.byte),
        .ok stats') := by
  induction entries generalizing image stats with
  | nil => exact ⟨stats, rfl⟩
  | cons raw entries ih =>
    rw [List.forall_mem_cons] at hty
    have hsplit : (raw :: entries).filterMap (relocField pageRva) =
        (relocField pageRva raw).toList ++ entries.filterMap (relocField pageRva) := by
      cases hf : relocField pageRva raw with
      | none => rw [List.filterMap_cons_none hf, Option.toList_none, List.nil_append]
      | some f => rw [List.filterMap_cons_some hf, Option.toList_some, List.singleton_append]
    rw [hsplit] at hin ⊢
    have hhead : ∀ f, relocField pageRva raw = some f → f.rva + f.width ≤ image.len := fun f hf =>
      hin f (List.mem_append_left _ (Option.mem_toList.mpr hf))
    obtain ⟨stats₁, h₁⟩ := applyEntries_cons delta pageRva hty.1 hhead entries stats
    have htail : ∀ f ∈ entries.filterMap (relocField pageRva), f.rva + f.width ≤
        (image.withBytes (relocate delta (relocField pageRva raw).toList image.byte)).len :=
      fun f hf => hin f (List.mem_append_right _ hf)
    obtain ⟨stats₂, h₂⟩ := ih hty.2 htail stats₁
    exact ⟨stats₂, by rw [h₁, h₂, relocate_append]; rfl⟩

/-! ### Blocks -/

/-- A block of the directory. -/
structure RelocBlock where
  pageRva : BitVec 32
  entries : List (BitVec 16)

namespace RelocBlock

variable (b : RelocBlock)

def size : Nat :=
  8 + 2 * b.entries.length

def fields : List Field :=
  b.entries.filterMap (relocField b.pageRva)

/-- The bytes at `a` are those of the block. -/
structure At (m : Nat → BitVec 8) (a : Nat) : Prop where
  page : word 32 4 m a = b.pageRva
  blockSize : (word 32 4 m (a + 4)).toNat = b.size
  entry : ∀ i < b.entries.length, b.entries[i]? = some (word 16 2 m (a + 8 + 2 * i))

theorem At.congr {b : RelocBlock} {m m' : Nat → BitVec 8} {a : Nat} (h : b.At m a)
    (heq : ∀ i < b.size, m' (a + i) = m (a + i)) : b.At m' a := by
  have hsize : b.size = 8 + 2 * b.entries.length := rfl
  refine ⟨?_, ?_, fun i hi => ?_⟩
  · rw [← h.page]
    exact word_congr 32 fun i hi => heq i (by omega)
  · rw [← h.blockSize]
    refine congrArg BitVec.toNat (word_congr 32 fun i hi => ?_)
    rw [Nat.add_assoc]
    exact heq (4 + i) (by omega)
  · rw [h.entry i hi]
    refine congrArg some (word_congr 16 fun j hj => ?_)
    rw [show a + 8 + 2 * i + j = a + (8 + 2 * i + j) by omega]
    exact (heq _ (by omega)).symm

end RelocBlock

/-- The blocks lie one after another from `a` on. -/
def Tiles (m : Nat → BitVec 8) : Nat → List RelocBlock → Prop
  | _, [] => True
  | a, b :: bs => b.At m a ∧ Tiles m (a + b.size) bs

def totalSize (bs : List RelocBlock) : Nat :=
  (bs.map RelocBlock.size).sum

theorem Tiles.congr {m m' : Nat → BitVec 8} {a : Nat} {bs : List RelocBlock} (h : Tiles m a bs)
    (heq : ∀ i < totalSize bs, m' (a + i) = m (a + i)) : Tiles m' a bs := by
  induction bs generalizing a with
  | nil => trivial
  | cons b bs ih =>
    have htotal : totalSize (b :: bs) = b.size + totalSize bs := by
      rw [totalSize, List.map_cons, List.sum_cons]
      rfl
    refine ⟨h.1.congr fun i hi => heq i (by omega), ih h.2 fun i hi => ?_⟩
    rw [Nat.add_assoc]
    exact heq (b.size + i) (by omega)

/-- A block that lies in the directory and in the image is read as it is. -/
theorem readBlock_eq {image : PeImage} {cursor stop : BitVec 32} {b : RelocBlock}
    (hat : b.At image.byte cursor.toNat) (hcount : b.entries.length ≤ 2048)
    (hstop : cursor.toNat + b.size ≤ stop.toNat) (hin : stop.toNat ≤ image.len) :
    ∃ blockSize : BitVec 32, blockSize.toNat = b.size ∧
      readBlock image cursor stop = .ok (b.pageRva, blockSize, b.entries) := by
  have hsize : b.size = 8 + 2 * b.entries.length := rfl
  have hlen := image.len_le
  have hpage := LoadedImage.le32_slice 0 (show 0 + 4 ≤ 8 by decide) image.byte cursor.toNat
  have hsz := LoadedImage.le32_slice 4 (show 4 + 4 ≤ 8 by decide) image.byte cursor.toNat
  rw [List.drop_zero, Nat.add_zero, hat.page] at hpage
  refine ⟨word 32 4 image.byte (cursor.toNat + 4), hat.blockSize, ?_⟩
  have hentries : (cursor + 8).toNat = cursor.toNat + 8 := by
    rw [BitVec.toNat_add, show (8 : BitVec 32).toNat = 8 from rfl]
    omega
  have hcnt : ((word 32 4 image.byte (cursor.toNat + 4)).toNat - 8) / 2 = b.entries.length := by
    rw [hat.blockSize]
    omega
  have hsat : ¬ stop < saturatingAdd cursor (word 32 4 image.byte (cursor.toNat + 4)) := by
    have hs := saturatingAdd_eq (show cursor.toNat +
      (word 32 4 image.byte (cursor.toNat + 4)).toNat < 2 ^ 32 by rw [hat.blockSize]; omega)
    rw [BitVec.lt_def, hs, hat.blockSize]
    omega
  have h8 : ¬ word 32 4 image.byte (cursor.toNat + 4) < 8 := by
    rw [BitVec.lt_def, hat.blockSize, show (8 : BitVec 32).toNat = 8 from rfl]
    omega
  unfold readBlock
  rw [LoadedImage.rvaToSlice_of_le (show cursor.toNat + 8 ≤ image.toLoadedImage.len by omega)]
  simp only [hpage, hsz, h8, hsat, if_false, hcnt]
  rw [if_neg (by omega), LoadedImage.rvaToSlice_of_le
    (show (cursor + 8).toNat + b.entries.length * 2 ≤ image.toLoadedImage.len by omega)]
  dsimp only
  congr 3
  refine List.ext_getElem? fun i => ?_
  by_cases hi : i < b.entries.length
  · rw [hat.entry i hi, List.getElem?_map, List.getElem?_range hi, Option.map_some,
      LoadedImage.le16_slice (i * 2) (by omega), hentries, Nat.mul_comm i 2]
  · rw [List.getElem?_eq_none (by rw [List.length_map, List.length_range]; omega),
      List.getElem?_eq_none (by omega)]

/-- The fields of a directory. -/
def relocFields (bs : List RelocBlock) : List Field :=
  bs.flatMap RelocBlock.fields

theorem width_le_of_mem_relocFields {bs : List RelocBlock} (h : f ∈ relocFields bs) :
    f.width ≤ 8 := by
  obtain ⟨b, -, hb⟩ := List.mem_flatMap.mp h
  obtain ⟨raw, -, hraw⟩ := List.mem_filterMap.mp hb
  exact width_of_relocField hraw

/-- What lies apart from all fields stays as it is. -/
theorem Tiles.relocate {a : Nat} {bs : List RelocBlock} (h : Tiles m a bs)
    (hap : ∀ f ∈ fs, f.Apart ⟨a, totalSize bs⟩) : Tiles (relocate d fs m) a bs := by
  refine h.congr fun i hi => relocate_of_not_covers (fun f hf hcov => ?_) m
  have := hap f hf
  unfold Field.Apart at this
  unfold Field.Covers at hcov
  dsimp only at this
  omega

/-- The blocks of a directory add the delta to its fields. -/
theorem applyBlocks_eq (delta : BitVec 64) {bs : List RelocBlock} {image : PeImage}
    {cursor stop : BitVec 32} (hstop : cursor.toNat + totalSize bs = stop.toNat)
    (hin : stop.toNat ≤ image.len) (htiles : Tiles image.byte cursor.toNat bs)
    (hcount : ∀ b ∈ bs, b.entries.length ≤ 2048)
    (hty : ∀ b ∈ bs, ∀ raw ∈ b.entries, Supported raw)
    (htarget : ∀ f ∈ relocFields bs, f.rva + f.width ≤ image.len)
    (hap : ∀ f ∈ relocFields bs, f.Apart ⟨cursor.toNat, totalSize bs⟩) (stats : RelocStats) :
    ∃ stats', applyBlocks delta stop cursor image stats =
      (image.withBytes (relocate delta (relocFields bs) image.byte), .ok stats') := by
  induction bs generalizing cursor image stats with
  | nil =>
    have hend : ¬ cursor < stop := by
      rw [BitVec.lt_def, ← hstop]
      exact lt_irrefl _
    rw [applyBlocks, dif_neg hend]
    exact ⟨stats, rfl⟩
  | cons b bs ih =>
    rw [List.forall_mem_cons] at hcount hty
    have htotal : totalSize (b :: bs) = b.size + totalSize bs := by
      rw [totalSize, List.map_cons, List.sum_cons]
      rfl
    have hsize : b.size = 8 + 2 * b.entries.length := rfl
    have hfields : relocFields (b :: bs) = b.fields ++ relocFields bs := List.flatMap_cons
    rw [hfields] at htarget hap ⊢
    have hlt : cursor < stop := by
      rw [BitVec.lt_def]
      omega
    have hlen := image.len_le
    obtain ⟨blockSize, hbs, hread⟩ := readBlock_eq htiles.1 hcount.1 (by omega) hin
    have hnext := saturatingAdd_eq (show cursor.toNat + blockSize.toNat < 2 ^ 32 by omega)
    rw [hbs] at hnext
    obtain ⟨stats₁, h₁⟩ := applyEntries_eq delta b.pageRva hty.1
      (fun f hf => htarget f (List.mem_append_left _ hf)) { stats with blocks := stats.blocks + 1 }
    -- the rest of the directory is still there
    have hrest : Tiles (relocate delta b.fields image.byte)
        (saturatingAdd cursor blockSize).toNat bs := by
      rw [hnext]
      refine htiles.2.relocate fun f hf => ?_
      have := hap f (List.mem_append_left _ hf)
      unfold Field.Apart at this ⊢
      dsimp only at this ⊢
      omega
    have hap' : ∀ f ∈ relocFields bs,
        f.Apart ⟨(saturatingAdd cursor blockSize).toNat, totalSize bs⟩ := fun f hf => by
      have := hap f (List.mem_append_right _ hf)
      unfold Field.Apart at this ⊢
      dsimp only at this ⊢
      omega
    have htarget' : ∀ f ∈ relocFields bs, f.rva + f.width ≤
        (image.withBytes (relocate delta b.fields image.byte)).len :=
      fun f hf => htarget f (List.mem_append_right _ hf)
    have hin' : stop.toNat ≤ (image.withBytes (relocate delta b.fields image.byte)).len := hin
    obtain ⟨stats₂, h₂⟩ := ih (by omega) hin' hrest hcount.2 hty.2 htarget' hap' stats₁
    refine ⟨stats₂, ?_⟩
    rw [applyBlocks, dif_pos hlt]
    split
    · rename_i e he
      rw [hread] at he
      cases he
    · rename_i pageRva size entries hok
      rw [hread] at hok
      injection hok with hok
      obtain ⟨rfl, rfl, rfl⟩ := hok
      rw [h₁]
      dsimp only
      rw [relocate_append]
      exact h₂

/-! ### The directory -/

/-- A well-formed directory: its blocks tile it, the types of the entries are supported, and the fields
lie in the image, apart from each other and from the directory. -/
structure WellFormed (image : PeImage) (dir : DataDirectory) (bs : List RelocBlock) : Prop where
  present : image.dataDir dirBasereloc = some dir
  inImage : dir.virtualAddress.toNat + dir.size.toNat ≤ image.len
  tiles : Tiles image.byte dir.virtualAddress.toNat bs
  total : totalSize bs = dir.size.toNat
  count : ∀ b ∈ bs, b.entries.length ≤ 2048
  supported : ∀ b ∈ bs, ∀ raw ∈ b.entries, Supported raw
  target : ∀ f ∈ relocFields bs, f.rva + f.width ≤ image.len
  separate : (relocFields bs).Pairwise Field.Apart
  apart : ∀ f ∈ relocFields bs, f.Apart ⟨dir.virtualAddress.toNat, dir.size.toNat⟩

/-- The image at another distance from its preferred base. -/
def PeImage.rebase (image : PeImage) (d : BitVec 64) : PeImage :=
  { image with actualBase := image.preferredBase + d }

variable {image : PeImage} {dir : DataDirectory} {bs : List RelocBlock}

theorem apply_eq (h : WellFormed image dir bs) : ∃ stats, Reloc.apply image =
    (image.withBytes (relocate (image.actualBase - image.preferredBase) (relocFields bs) image.byte),
      .ok stats) := by
  unfold Reloc.apply
  dsimp only
  split
  · rename_i hzero
    refine ⟨{}, ?_⟩
    rw [hzero, relocate_zero fun f hf => width_le_of_mem_relocFields hf]
    rfl
  · rw [h.present]
    dsimp only
    have hlen := image.len_le
    have hin := h.inImage
    have hsat := saturatingAdd_eq (show dir.virtualAddress.toNat + dir.size.toNat < 2 ^ 32 by omega)
    refine applyBlocks_eq _ ?_ ?_ h.tiles h.count h.supported h.target ?_ {}
    · rw [h.total, hsat]
    · rw [hsat]
      exact hin
    · rw [h.total]
      exact h.apart

theorem WellFormed.rebase (h : WellFormed image dir bs) (d : BitVec 64) :
    WellFormed (image.rebase d) dir bs :=
  ⟨h.present, h.inImage, h.tiles, h.total, h.count, h.supported, h.target, h.separate, h.apart⟩

/-- The directory is still there after a pass. -/
theorem WellFormed.relocate (h : WellFormed image dir bs) (d : BitVec 64) :
    WellFormed (image.withBytes (Loader.relocate d (relocFields bs) image.byte)) dir bs where
  present := h.present
  inImage := h.inImage
  tiles := h.tiles.relocate (by
    rw [h.total]
    exact h.apart)
  total := h.total
  count := h.count
  supported := h.supported
  target := h.target
  separate := h.separate
  apart := h.apart

/-- A HIGHLOW field ends up with the low half of `d` added to it. -/
theorem word_relocate_highlow (hsep : fs.Pairwise Field.Apart) {rva : Nat} (hf : ⟨rva, 4⟩ ∈ fs)
    (m : Nat → BitVec 8) :
    word 32 4 (relocate d fs m) rva = word 32 4 m rva + d.setWidth 32 := by
  have hword : word 64 4 (relocate d fs m) rva = _ := word_relocate hsep hf m
  rw [word_64_4, word_64_4] at hword
  have hlow := congrArg (BitVec.setWidth 32) hword
  rw [BitVec.setWidth_setWidth_of_le _ (by decide), BitVec.setWidth_eq] at hlow
  rw [hlow]
  dsimp only
  rw [BitVec.setWidth_setWidth_of_le _ (by decide), BitVec.setWidth_eq,
    BitVec.setWidth_add _ _ (by decide), BitVec.setWidth_setWidth_of_le _ (by decide)]
  rfl

/-- A DIR64 field ends up with `d` added to it. -/
theorem word_relocate_dir64 (hsep : fs.Pairwise Field.Apart) {rva : Nat} (hf : ⟨rva, 8⟩ ∈ fs)
    (m : Nat → BitVec 8) : word 64 8 (relocate d fs m) rva = word 64 8 m rva + d := by
  have hword : word 64 8 (relocate d fs m) rva = _ := word_relocate hsep hf m
  rw [hword]
  dsimp only
  rw [BitVec.setWidth_setWidth_of_le _ (by decide), BitVec.setWidth_eq]

/-- **Relocation.**  On a well-formed directory `apply` succeeds, adds the delta to every DIR64 field and
its low half to every HIGHLOW field, and changes no other byte.  Applying one delta and then another is
the same as applying their sum. -/
theorem reloc_apply_spec (h : WellFormed image dir bs) :
    (∃ image' stats, Reloc.apply image = (image', .ok stats) ∧
      image' = image.withBytes image'.byte ∧
      (∀ rva, ⟨rva, 8⟩ ∈ relocFields bs → word 64 8 image'.byte rva =
        word 64 8 image.byte rva + (image.actualBase - image.preferredBase)) ∧
      (∀ rva, ⟨rva, 4⟩ ∈ relocFields bs → word 32 4 image'.byte rva =
        word 32 4 image.byte rva + (image.actualBase - image.preferredBase).setWidth 32) ∧
      ∀ i, (∀ f ∈ relocFields bs, ¬ f.Covers i) → image'.byte i = image.byte i) ∧
    ∀ d₁ d₂, ∃ image₁ image₂ image₁₂ stats₁ stats₂ stats₁₂,
      Reloc.apply (image.rebase d₁) = (image₁, .ok stats₁) ∧
      Reloc.apply (image₁.rebase d₂) = (image₂, .ok stats₂) ∧
      Reloc.apply (image.rebase (d₁ + d₂)) = (image₁₂, .ok stats₁₂) ∧
      image₂.byte = image₁₂.byte := by
  constructor
  · obtain ⟨stats, happly⟩ := apply_eq h
    exact ⟨_, stats, happly, rfl, fun rva hf => word_relocate_dir64 h.separate hf _,
      fun rva hf => word_relocate_highlow h.separate hf _,
      fun i hno => relocate_of_not_covers hno _⟩
  · intro d₁ d₂
    have hdelta : ∀ (image : PeImage) (d : BitVec 64),
        (image.rebase d).actualBase - (image.rebase d).preferredBase = d := fun image d => by
      show image.preferredBase + d - image.preferredBase = d
      rw [BitVec.add_comm, BitVec.add_sub_cancel]
    obtain ⟨stats₁, h₁⟩ := apply_eq (h.rebase d₁)
    obtain ⟨stats₂, h₂⟩ := apply_eq (((h.rebase d₁).relocate d₁).rebase d₂)
    obtain ⟨stats₁₂, h₁₂⟩ := apply_eq (h.rebase (d₁ + d₂))
    rw [hdelta] at h₁ h₂ h₁₂
    exact ⟨_, _, _, stats₁, stats₂, stats₁₂, h₁, h₂, h₁₂,
      relocate_relocate h.separate (fun f hf => width_le_of_mem_relocFields hf) d₁ d₂ image.byte⟩

/-- The bytes of a small image that are not zero: a relocation directory of one block at 0x20, a TLS
directory at 0x40 and its array of callbacks at 0x70. -/
def tinyBytes : List (Nat × BitVec 8) :=
  -- the block: its size, and five DIR64 entries
  [(0x24, 0x14), (0x28, 0x40), (0x29, 0xA0), (0x2A, 0x48), (0x2B, 0xA0), (0x2C, 0x50), (0x2D, 0xA0),
    (0x2E, 0x58), (0x2F, 0xA0), (0x30, 0x70), (0x31, 0xA0),
    -- the addresses of the data, of the index and of the callbacks
    (0x40, 0x80), (0x43, 0x40), (0x44, 0x01), (0x48, 0x90), (0x4B, 0x40), (0x4C, 0x01),
    (0x50, 0xA0), (0x53, 0x40), (0x54, 0x01), (0x58, 0x70), (0x5B, 0x40), (0x5C, 0x01),
    -- a callback
    (0x71, 0x01), (0x73, 0x40), (0x74, 0x01)]

def tinyImage (actualBase : BitVec 64) : PeImage where
  actualBase := actualBase
  len := 0x200
  byte i := (tinyBytes.lookup i).getD 0
  preferredBase := 0x140000000
  sizeOfImage := 0x200
  sizeOfHeaders := 0x20
  entryRva := 0x180
  subsystem := 3
  bitness := .x86_64
  sections := []
  dataDirectories := [⟨0, 0⟩, ⟨0, 0⟩, ⟨0, 0⟩, ⟨0, 0⟩, ⟨0, 0⟩, ⟨0x20, 0x14⟩, ⟨0, 0⟩, ⟨0, 0⟩, ⟨0, 0⟩,
    ⟨0x40, 0x28⟩]
  len_le := by decide

/-- Its relocation block. -/
def tinyBlock : RelocBlock where
  pageRva := 0
  entries := [0xA040, 0xA048, 0xA050, 0xA058, 0xA070, 0]

theorem wellFormed_tinyImage (actualBase : BitVec 64) :
    WellFormed (tinyImage actualBase) ⟨0x20, 0x14⟩ [tinyBlock] where
  present := rfl
  inImage := (by decide : 0x20 + 0x14 ≤ 0x200)
  tiles := by
    refine ⟨⟨?_, ?_, ?_⟩, trivial⟩
    · show word 32 4 (tinyImage 0).byte 0x20 = 0
      decide
    · show (word 32 4 (tinyImage 0).byte 0x24).toNat = 20
      decide
    · show ∀ i < 6, tinyBlock.entries[i]? = some (word 16 2 (tinyImage 0).byte (0x28 + 2 * i))
      decide
  total := rfl
  count := by decide
  supported := by
    rw [List.forall_mem_singleton]
    have hall : tinyBlock.entries.all fun raw => Supported raw := by decide
    exact fun raw hraw => of_decide_eq_true (List.all_eq_true.mp hall raw hraw)
  target := (by decide : ∀ f ∈ relocFields [tinyBlock], f.rva + f.width ≤ 0x200)
  separate := by decide
  apart := by decide

theorem reloc_apply_spec_tinyImage : ∃ image' stats,
    Reloc.apply (tinyImage 0x150000000) = (image', .ok stats) ∧
      word 64 8 image'.byte 0x70 = 0x150000100 := by
  obtain ⟨⟨image', stats, happly, -, hdir64, -⟩, -⟩ :=
    reloc_apply_spec (wellFormed_tinyImage 0x150000000)
  refine ⟨image', stats, happly, ?_⟩
  rw [hdir64 0x70 (by decide)]
  decide

end Quantum.Loader
