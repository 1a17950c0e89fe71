import Quantum.Loader.Tls
import Quantum.Loader.Equiv.Reloc

/-!
# The TLS directory and relocation

The TLS directory and its array of callbacks hold virtual addresses, to which relocation adds the delta.
`tls::parse` takes the preferred base off them, not the actual one, so the RVAs that it returns after
relocation are off by the delta.  `tls_stable_iff` says when they are still the same: when the low half
of the delta is zero, and no address becomes null.
-/

namespace Quantum.Loader

open LeWord

variable {image : PeImage} {d : BitVec 64}

/-! ### The array of callbacks -/

/-- The addresses `vas` lie one after another from `off` on, none of them null, with a null after
them. -/
structure SlotsAt (image : PeImage) (off : Nat) (vas : List (BitVec 64)) : Prop where
  slot : ∀ j < vas.length, vas[j]? = some (word 64 8 image.byte (off + 8 * j))
  nonNull : ∀ va ∈ vas, va ≠ 0
  terminator : word 64 8 image.byte (off + 8 * vas.length) = 0
  inImage : off + 8 * vas.length + 8 ≤ image.len

theorem SlotsAt.tail {off : Nat} {va : BitVec 64} {vas : List (BitVec 64)}
    (h : SlotsAt image off (va :: vas)) : SlotsAt image (off + 8) vas := by
  refine ⟨fun j hj => ?_, fun x hx => h.nonNull x (List.mem_cons_of_mem _ hx), ?_, ?_⟩
  · have := h.slot (j + 1) (by rw [List.length_cons]; omega)
    rw [List.getElem?_cons_succ] at this
    rw [this]
    congr 2
    omega
  · have := h.terminator
    rw [List.length_cons] at this
    rw [← this]
    congr 1
    omega
  · have := h.inImage
    rw [List.length_cons] at this
    omega

/-- The loop returns the RVAs of the callbacks. -/
theorem callbackLoop_eq (callbacksRva : BitVec 32) {vas : List (BitVec 64)} {off : BitVec 32}
    {left : Nat} (h : SlotsAt image off.toNat vas) (hleft : vas.length < left) :
    callbackLoop image callbacksRva left off = .ok (vas.map image.toRva) := by
  induction vas generalizing off left with
  | nil =>
    obtain ⟨left, rfl⟩ := Nat.exists_eq_succ_of_ne_zero (by omega : left ≠ 0)
    have hin : off.toNat + 8 ≤ image.toLoadedImage.len := h.inImage
    obtain ⟨slot, hslot, hle⟩ := Option.map_eq_some_iff.mp (LoadedImage.le64_rvaToSlice hin)
    have hzero : le64 slot = 0 := hle.trans h.terminator
    rw [callbackLoop, hslot]
    dsimp only
    rw [if_pos hzero]
    rfl
  | cons va vas ih =>
    obtain ⟨left, rfl⟩ := Nat.exists_eq_succ_of_ne_zero (by omega : left ≠ 0)
    rw [List.length_cons] at hleft
    have hin := h.inImage
    rw [List.length_cons] at hin
    have hlen := image.len_le
    obtain ⟨slot, hslot, hle⟩ := Option.map_eq_some_iff.mp
      (LoadedImage.le64_rvaToSlice (show off.toNat + 8 ≤ image.toLoadedImage.len by omega))
    have hva : le64 slot = va := by
      have := h.slot 0 (by rw [List.length_cons]; omega)
      rw [hle]
      exact (Option.some.inj this).symm
    have hoff : (off + 8).toNat = off.toNat + 8 := by
      rw [BitVec.toNat_add, show (8 : BitVec 32).toNat = 8 from rfl]
      omega
    rw [callbackLoop, hslot]
    dsimp only
    rw [hva, if_neg (h.nonNull va List.mem_cons_self), if_pos (by omega),
      ih (by rw [hoff]; exact h.tail) (by omega)]
    rfl

/-- What the loop has returned lies before a null. -/
theorem callbackLoop_ok {callbacksRva off : BitVec 32} {left : Nat} {l : List (BitVec 32)}
    (h : callbackLoop image callbacksRva left off = .ok l) :
    ∀ j < l.length, word 64 8 image.byte (off.toNat + 8 * j) ≠ 0 := by
  induction left generalizing off l with
  | zero => cases h
  | succ left ih =>
    rw [callbackLoop] at h
    cases hs : image.rvaToSlice off 8 with
    | none =>
      rw [hs] at h
      cases h
    | some slot =>
      rw [hs] at h
      dsimp only at h
      have hin := (LoadedImage.rvaToSlice_eq_some.mp hs).1
      have hle : le64 slot = word 64 8 image.byte off.toNat := by
        have := LoadedImage.le64_rvaToSlice hin
        rw [hs] at this
        exact Option.some.inj this
      split at h
      · obtain rfl := Except.ok.inj h
        exact fun j hj => absurd hj (Nat.not_lt_zero j)
      · rename_i hne
        split at h
        · rename_i hlt
          have hoff : (off + 8).toNat = off.toNat + 8 := by
            rw [BitVec.toNat_add, show (8 : BitVec 32).toNat = 8 from rfl]
            omega
          cases hr : callbackLoop image callbacksRva left (off + 8) with
          | error e =>
            rw [hr] at h
            cases h
          | ok rest =>
            rw [hr] at h
            obtain rfl := Except.ok.inj h
            intro j hj
            cases j with
            | zero =>
              rw [Nat.mul_zero, Nat.add_zero, ← hle]
              exact hne
            | succ j =>
              have := ih hr j (by rw [List.length_cons] at hj; omega)
              rwa [hoff, show off.toNat + 8 + 8 * j = off.toNat + 8 * (j + 1) by omega] at this
        · cases h

/-! ### The directory -/

/-- The callbacks that `parse` finds for the address of their array. -/
def callbacksOf (image : PeImage) (va : BitVec 64) : Except LoadError (List (BitVec 32)) :=
  if va ≠ 0 then callbackLoop image (image.toRva va) 257 (image.toRva va) else .ok []

/-- What `parse` returns for a directory at `a`. -/
def tlsInfo (image : PeImage) (a : Nat) (callbacks : List (BitVec 32)) : TlsInfo where
  rawStartRva := image.toRva (word 64 8 image.byte a)
  rawEndRva := image.toRva (word 64 8 image.byte (a + 8))
  indexRva := image.toRva (word 64 8 image.byte (a + 16))
  callbacksRva := image.toRva (word 64 8 image.byte (a + 24))
  sizeOfZeroFill := word 32 4 image.byte (a + 32)
  characteristics := word 32 4 image.byte (a + 36)
  callbacks := callbacks

/-- `parse` in terms of the words of the image. -/
theorem parse_eq {td : DataDirectory} (hdir : image.dataDir dirTls = some td)
    (hin : td.virtualAddress.toNat + 40 ≤ image.len) : Tls.parse image =
      (callbacksOf image (word 64 8 image.byte (td.virtualAddress.toNat + 24))).map fun callbacks =>
        some (tlsInfo image td.virtualAddress.toNat callbacks) := by
  have hle64 : ∀ k, k + 8 ≤ 40 → le64 (((List.range 40).map fun i =>
      image.byte (td.virtualAddress.toNat + i)).drop k) =
        word 64 8 image.byte (td.virtualAddress.toNat + k) := fun k hk =>
    LoadedImage.le64_slice k hk image.byte td.virtualAddress.toNat
  have hle32 : ∀ k, k + 4 ≤ 40 → le32 (((List.range 40).map fun i =>
      image.byte (td.virtualAddress.toNat + i)).drop k) =
        word 32 4 image.byte (td.virtualAddress.toNat + k) := fun k hk =>
    LoadedImage.le32_slice k hk image.byte td.virtualAddress.toNat
  have h0 := hle64 0 (by decide)
  rw [List.drop_zero, Nat.add_zero] at h0
  unfold Tls.parse
  rw [hdir]
  dsimp only
  rw [LoadedImage.rvaToSlice_of_le hin]
  dsimp only
  rw [h0, hle64 8 (by decide), hle64 16 (by decide), hle64 24 (by decide), hle32 32 (by decide),
    hle32 36 (by decide)]
  rfl

/-- The addresses of a TLS directory. -/
structure TlsData where
  startVa : BitVec 64
  endVa : BitVec 64
  indexVa : BitVec 64
  callbacksVa : BitVec 64
  callbacks : List (BitVec 64)

/-- The image has a TLS directory `td` with the addresses `x`.  The array of callbacks is there unless
its address is null, and has at most 256 of them. -/
structure TlsAt (image : PeImage) (td : DataDirectory) (x : TlsData) : Prop where
  present : image.dataDir dirTls = some td
  inImage : td.virtualAddress.toNat + 40 ≤ image.len
  startVa : word 64 8 image.byte td.virtualAddress.toNat = x.startVa
  endVa : word 64 8 image.byte (td.virtualAddress.toNat + 8) = x.endVa
  indexVa : word 64 8 image.byte (td.virtualAddress.toNat + 16) = x.indexVa
  callbacksVa : word 64 8 image.byte (td.virtualAddress.toNat + 24) = x.callbacksVa
  noCallbacks : x.callbacksVa = 0 → x.callbacks = []
  slots : x.callbacksVa ≠ 0 → SlotsAt image (image.toRva x.callbacksVa).toNat x.callbacks
  count : x.callbacks.length ≤ 256

/-- All addresses of the directory and of its array are among the fields; a null is not relocated. -/
structure Relocated (fs : List Field) (image : PeImage) (td : DataDirectory) (x : TlsData) : Prop where
  startVa : ⟨td.virtualAddress.toNat, 8⟩ ∈ fs
  endVa : ⟨td.virtualAddress.toNat + 8, 8⟩ ∈ fs
  indexVa : ⟨td.virtualAddress.toNat + 16, 8⟩ ∈ fs
  callbacksVa : x.callbacksVa ≠ 0 → ⟨td.virtualAddress.toNat + 24, 8⟩ ∈ fs
  nullVa : x.callbacksVa = 0 → ∀ f ∈ fs, Field.Apart ⟨td.virtualAddress.toNat + 24, 8⟩ f
  slots : ∀ j < x.callbacks.length, ⟨(image.toRva x.callbacksVa).toNat + 8 * j, 8⟩ ∈ fs
  terminator : x.callbacksVa ≠ 0 → ∀ f ∈ fs,
    Field.Apart ⟨(image.toRva x.callbacksVa).toNat + 8 * x.callbacks.length, 8⟩ f

/-- The data, the index and the callbacks are at the same RVAs. -/
structure SameTls (t t' : TlsInfo) : Prop where
  rawStartRva : t'.rawStartRva = t.rawStartRva
  rawEndRva : t'.rawEndRva = t.rawEndRva
  indexRva : t'.indexRva = t.indexRva
  callbacks : t'.callbacks = t.callbacks

/-- The RVA of an address that has been relocated is off by the delta. -/
theorem toRva_add (image : PeImage) (va d : BitVec 64) :
    image.toRva (va + d) = image.toRva va + d.setWidth 32 := by
  unfold PeImage.toRva
  rw [show va + d - image.preferredBase = va - image.preferredBase + d by
      rw [BitVec.sub_eq_add_neg, BitVec.sub_eq_add_neg, BitVec.add_assoc, BitVec.add_assoc,
        BitVec.add_comm d],
    BitVec.setWidth_add _ _ (by decide)]

theorem toRva_add_of_eq_zero (hd : d.setWidth 32 = 0#32) (image : PeImage) (va : BitVec 64) :
    image.toRva (va + d) = image.toRva va := by
  rw [toRva_add, hd, BitVec.add_zero]

/-- The parser accepts a directory as it should be. -/
theorem TlsAt.parse {td : DataDirectory} {x : TlsData} (h : TlsAt image td x) :
    Tls.parse image = .ok (some (tlsInfo image td.virtualAddress.toNat
      (x.callbacks.map image.toRva))) := by
  rw [parse_eq h.present h.inImage, h.callbacksVa, callbacksOf]
  by_cases hva : x.callbacksVa = 0
  · rw [if_neg (not_not.mpr hva), h.noCallbacks hva]
    rfl
  · have hcount := h.count
    rw [if_pos hva, callbackLoop_eq _ (h.slots hva) (by omega)]
    rfl

section Relocated

variable {fs : List Field} {td : DataDirectory} {x : TlsData}

/-- The addresses after relocation. -/
def TlsData.add (x : TlsData) (d : BitVec 64) : TlsData where
  startVa := x.startVa + d
  endVa := x.endVa + d
  indexVa := x.indexVa + d
  callbacksVa := if x.callbacksVa = 0 then 0 else x.callbacksVa + d
  callbacks := x.callbacks.map (· + d)

/-- The address of the array after relocation. -/
theorem Relocated.word_callbacksVa (hsep : fs.Pairwise Field.Apart) (h : TlsAt image td x)
    (hrel : Relocated fs image td x) (d : BitVec 64) :
    word 64 8 (relocate d fs image.byte) (td.virtualAddress.toNat + 24) =
      (x.add d).callbacksVa := by
  unfold TlsData.add
  dsimp only
  split
  · rename_i hva
    have hword : word 64 8 (relocate d fs image.byte) (td.virtualAddress.toNat + 24) = _ :=
      word_relocate_of_apart (f := ⟨td.virtualAddress.toNat + 24, 8⟩) 64 (hrel.nullVa hva) image.byte
    rw [hword]
    exact h.callbacksVa.trans hva
  · rename_i hva
    rw [word_relocate_dir64 hsep (hrel.callbacksVa hva), h.callbacksVa]

/-- The slots of the array after relocation. -/
theorem Relocated.word_slot (hsep : fs.Pairwise Field.Apart) (h : TlsAt image td x)
    (hrel : Relocated fs image td x) (hva : x.callbacksVa ≠ 0) (d : BitVec 64) {j : Nat}
    (hj : j < x.callbacks.length) : (x.add d).callbacks[j]? =
      some (word 64 8 (relocate d fs image.byte) ((image.toRva x.callbacksVa).toNat + 8 * j)) := by
  rw [word_relocate_dir64 hsep (hrel.slots j hj), TlsData.add]
  dsimp only
  rw [List.getElem?_map, (h.slots hva).slot j hj, Option.map_some]

/-- What relocation must not do for the directory to stay as it is: move the low halves of the
addresses, or turn an address into a null. -/
def Keeps (x : TlsData) (d : BitVec 64) : Prop :=
  d.setWidth 32 = 0#32 ∧ (x.callbacks ≠ [] → x.callbacksVa + d ≠ 0) ∧ ∀ va ∈ x.callbacks, va + d ≠ 0

/-- Then the relocated directory is as it should be. -/
theorem Relocated.tlsAt (hsep : fs.Pairwise Field.Apart) (h : TlsAt image td x)
    (hrel : Relocated fs image td x) (hkeeps : Keeps x d) :
    TlsAt (image.withBytes (relocate d fs image.byte)) td (x.add d) := by
  obtain ⟨hlow, harray, hnull⟩ := hkeeps
  have hlength : (x.add d).callbacks.length = x.callbacks.length := List.length_map ..
  have hstart := word_relocate_dir64 (d := d) hsep hrel.startVa image.byte
  have hend := word_relocate_dir64 (d := d) hsep hrel.endVa image.byte
  have hindex := word_relocate_dir64 (d := d) hsep hrel.indexVa image.byte
  rw [h.startVa] at hstart
  rw [h.endVa] at hend
  rw [h.indexVa] at hindex
  refine ⟨h.present, h.inImage, hstart, hend, hindex, hrel.word_callbacksVa hsep h d,
    fun hva => ?_, fun hva => ?_, hlength ▸ h.count⟩
  · have hempty : x.callbacks = [] := by
      by_contra hne
      have hzero : x.callbacksVa ≠ 0 := fun hz => hne (h.noCallbacks hz)
      rw [TlsData.add] at hva
      dsimp only at hva
      rw [if_neg hzero] at hva
      exact harray hne hva
    rw [TlsData.add, hempty]
    rfl
  · have hzero : x.callbacksVa ≠ 0 := fun hz => hva (if_pos hz)
    have hrva : (image.withBytes (relocate d fs image.byte)).toRva (x.add d).callbacksVa =
        image.toRva x.callbacksVa := by
      rw [TlsData.add]
      dsimp only
      rw [if_neg hzero]
      exact toRva_add_of_eq_zero hlow image x.callbacksVa
    have hslots := h.slots hzero
    rw [hrva]
    refine ⟨fun j hj => hrel.word_slot hsep h hzero d (hlength ▸ hj), ?_, ?_, ?_⟩
    · intro va hmem
      obtain ⟨old, hold, rfl⟩ := List.mem_map.mp hmem
      exact hnull old hold
    · rw [hlength]
      exact (word_relocate_of_apart
        (f := ⟨(image.toRva x.callbacksVa).toNat + 8 * x.callbacks.length, 8⟩) 64
        (hrel.terminator hzero) image.byte).trans hslots.terminator
    · rw [hlength]
      exact hslots.inImage

/-- If the relocated directory has the RVAs that it had before, nothing has moved. -/
theorem Relocated.keeps (hsep : fs.Pairwise Field.Apart) (h : TlsAt image td x)
    (hrel : Relocated fs image td x) {t : TlsInfo}
    (hparse : Tls.parse (image.withBytes (relocate d fs image.byte)) = .ok (some t))
    (hsame : SameTls (tlsInfo image td.virtualAddress.toNat (x.callbacks.map image.toRva)) t) :
    Keeps x d := by
  have hpresent : (image.withBytes (relocate d fs image.byte)).dataDir dirTls = some td := h.present
  have hin : td.virtualAddress.toNat + 40 ≤ (image.withBytes (relocate d fs image.byte)).len :=
    h.inImage
  have hcallbacksVa := hrel.word_callbacksVa hsep h d
  rw [parse_eq hpresent hin] at hparse
  change (callbacksOf _ (word 64 8 (relocate d fs image.byte) _)).map _ = _ at hparse
  rw [hcallbacksVa] at hparse
  cases hof : callbacksOf (image.withBytes (relocate d fs image.byte)) (x.add d).callbacksVa with
  | error e =>
    rw [hof] at hparse
    cases hparse
  | ok callbacks =>
    rw [hof] at hparse
    obtain rfl := Option.some.inj (Except.ok.inj hparse)
    have hlow : d.setWidth 32 = 0#32 := by
      have hstart : image.toRva (word 64 8 (relocate d fs image.byte) td.virtualAddress.toNat) =
          image.toRva (word 64 8 image.byte td.virtualAddress.toNat) := hsame.rawStartRva
      rw [word_relocate_dir64 hsep hrel.startVa, toRva_add] at hstart
      exact add_eq_left.mp hstart
    have hcb : callbacks = x.callbacks.map image.toRva := hsame.callbacks
    have hlen : callbacks.length = x.callbacks.length := by rw [hcb, List.length_map]
    have harray : x.callbacks ≠ [] → x.callbacksVa + d ≠ 0 := by
      intro hne hzero
      have hva : (x.add d).callbacksVa = 0 := by
        rw [TlsData.add]
        dsimp only
        rw [hzero, ite_self]
      rw [callbacksOf, if_neg (not_not.mpr hva)] at hof
      obtain rfl := Except.ok.inj hof
      exact hne (List.length_eq_zero_iff.mp hlen.symm)
    refine ⟨hlow, harray, fun va hmem => ?_⟩
    have hne : x.callbacks ≠ [] := List.ne_nil_of_mem hmem
    have hzero : x.callbacksVa ≠ 0 := fun hz => hne (h.noCallbacks hz)
    have hva : (x.add d).callbacksVa = x.callbacksVa + d := if_neg hzero
    rw [hva, callbacksOf, if_pos (harray hne)] at hof
    have hrva : (image.withBytes (relocate d fs image.byte)).toRva (x.callbacksVa + d) =
        image.toRva x.callbacksVa := toRva_add_of_eq_zero hlow image x.callbacksVa
    rw [hrva] at hof
    obtain ⟨j, hj, hget⟩ := List.mem_iff_getElem.mp hmem
    have hword := callbackLoop_ok hof j (hlen ▸ hj)
    have hslot := hrel.word_slot hsep h hzero d hj
    rw [TlsData.add] at hslot
    dsimp only at hslot
    rw [List.getElem?_map, List.getElem?_eq_getElem hj, hget, Option.map_some] at hslot
    rw [Option.some.inj hslot]
    exact hword

end Relocated

/-- **TLS after relocation.**  Parsing the relocated image gives the RVAs that parsing the image before
gives, exactly if the low half of the delta is zero and no address becomes null. -/
theorem tls_stable_iff {dir td : DataDirectory} {bs : List RelocBlock} {x : TlsData}
    (hwf : WellFormed image dir bs) (h : TlsAt image td x)
    (hrel : Relocated (relocFields bs) image td x) :
    (∃ t t', Tls.parse image = .ok (some t) ∧ Tls.parse (Reloc.apply image).1 = .ok (some t') ∧
      SameTls t t') ↔ Keeps x (image.actualBase - image.preferredBase) := by
  obtain ⟨stats, happly⟩ := apply_eq hwf
  rw [happly]
  constructor
  · rintro ⟨t, t', ht, ht', hsame⟩
    rw [h.parse] at ht
    obtain rfl := Option.some.inj (Except.ok.inj ht)
    exact hrel.keeps hwf.separate h ht' hsame
  · intro hkeeps
    have hat := hrel.tlsAt hwf.separate h hkeeps
    have hmap : (x.add (image.actualBase - image.preferredBase)).callbacks.map image.toRva =
        x.callbacks.map image.toRva := by
      rw [TlsData.add, List.map_map]
      exact List.map_congr_left fun va _ => toRva_add_of_eq_zero hkeeps.1 image va
    refine ⟨_, _, h.parse, hat.parse, ?_, ?_, ?_, hmap⟩
    · show image.toRva (word 64 8 _ _) = image.toRva (word 64 8 _ _)
      rw [hat.startVa, h.startVa]
      exact toRva_add_of_eq_zero hkeeps.1 image x.startVa
    · show image.toRva (word 64 8 _ _) = image.toRva (word 64 8 _ _)
      rw [hat.endVa, h.endVa]
      exact toRva_add_of_eq_zero hkeeps.1 image x.endVa
    · show image.toRva (word 64 8 _ _) = image.toRva (word 64 8 _ _)
      rw [hat.indexVa, h.indexVa]
      exact toRva_add_of_eq_zero hkeeps.1 image x.indexVa

/-- The addresses in `tinyImage`. -/
def tinyTls : TlsData where
  startVa := 0x140000080
  endVa := 0x140000090
  indexVa := 0x1400000A0
  callbacksVa := 0x140000070
  callbacks := [0x140000100]

theorem toRva_tinyImage (actualBase : BitVec 64) :
    ((tinyImage actualBase).toRva tinyTls.callbacksVa).toNat = 0x70 := by
  show ((0x140000070 - 0x140000000 : BitVec 64).setWidth 32).toNat = 0x70
  decide

theorem tlsAt_tinyImage (actualBase : BitVec 64) :
    TlsAt (tinyImage actualBase) ⟨0x40, 0x28⟩ tinyTls where
  present := rfl
  inImage := (by decide : 0x40 + 40 ≤ 0x200)
  startVa := (by decide : word 64 8 (tinyImage 0).byte 0x40 = 0x140000080)
  endVa := (by decide : word 64 8 (tinyImage 0).byte 0x48 = 0x140000090)
  indexVa := (by decide : word 64 8 (tinyImage 0).byte 0x50 = 0x1400000A0)
  callbacksVa := (by decide : word 64 8 (tinyImage 0).byte 0x58 = 0x140000070)
  noCallbacks := by decide
  slots _ := by
    rw [toRva_tinyImage]
    refine ⟨?_, ?_, ?_, ?_⟩
    · show ∀ j < 1, tinyTls.callbacks[j]? = some (word 64 8 (tinyImage 0).byte (0x70 + 8 * j))
      decide
    · rintro va hmem rfl
      exact absurd (List.mem_singleton.mp hmem) (by decide)
    · show word 64 8 (tinyImage 0).byte 0x78 = 0
      decide
    · show 0x70 + 8 * 1 + 8 ≤ 0x200
      decide
  count := by decide

theorem relocated_tinyImage (actualBase : BitVec 64) :
    Relocated (relocFields [tinyBlock]) (tinyImage actualBase) ⟨0x40, 0x28⟩ tinyTls where
  startVa := by decide
  endVa := by decide
  indexVa := by decide
  callbacksVa _ := by decide
  nullVa hzero := absurd hzero (by decide)
  slots := by
    rw [toRva_tinyImage]
    decide
  terminator _ := by
    rw [toRva_tinyImage]
    decide

/-- A delta of 4 GiB. -/
theorem tls_stable_iff_tinyImage : ∃ t t', Tls.parse (tinyImage 0x240000000) = .ok (some t) ∧
    Tls.parse (Reloc.apply (tinyImage 0x240000000)).1 = .ok (some t') ∧ SameTls t t' := by
  have hiff := tls_stable_iff (wellFormed_tinyImage 0x240000000) (tlsAt_tinyImage 0x240000000)
    (relocated_tinyImage 0x240000000)
  refine hiff.mpr ⟨by decide, fun _ => by decide, fun va hmem => ?_⟩
  rw [List.mem_singleton.mp hmem]
  decide

/-- A delta of 256 MiB: the RVAs have moved. -/
theorem not_tls_stable_tinyImage : WellFormed (tinyImage 0x150000000) ⟨0x20, 0x14⟩ [tinyBlock] ∧
    TlsAt (tinyImage 0x150000000) ⟨0x40, 0x28⟩ tinyTls ∧
    Relocated (relocFields [tinyBlock]) (tinyImage 0x150000000) ⟨0x40, 0x28⟩ tinyTls ∧
    ¬ ∃ t t', Tls.parse (tinyImage 0x150000000) = .ok (some t) ∧
      Tls.parse (Reloc.apply (tinyImage 0x150000000)).1 = .ok (some t') ∧ SameTls t t' := by
  have hwf := wellFormed_tinyImage 0x150000000
  have hat := tlsAt_tinyImage 0x150000000
  have hrel := relocated_tinyImage 0x150000000
  refine ⟨hwf, hat, hrel, ?_⟩
  rintro ⟨t, t', ht, ht', hsame⟩
  obtain ⟨stats, happly⟩ := apply_eq hwf
  rw [happly] at ht'
  rw [hat.parse] at ht
  obtain rfl := Option.some.inj (Except.ok.inj ht)
  exact absurd (hrel.keeps hwf.separate hat ht' hsame).1 (by decide)

end Quantum.Loader
