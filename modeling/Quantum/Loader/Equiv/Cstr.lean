import Quantum.Loader.Imports
import Quantum.Loader.Equiv.Totality

/-!
# Strings of an image

The two `read_cstr` are one loop with the texts of their errors (`readCstr_eq_cstrOf`).  It returns a
string exactly if that string is there (`cstrOf_eq_ok_iff`).
-/

namespace Quantum.Loader

open Checked LeWord

variable {image : PeImage} {what : CstrErrors} {rva off : BitVec 32} {s : String} {bytes : Bytes}

/-! ### Slices -/

theorem sliceOr_of_le {n : Nat} {e : LoadError} (h : rva.toNat + n ≤ image.len) :
    image.sliceOr rva n e = .ok ((List.range n).map fun i => image.byte (rva.toNat + i)) := by
  rw [PeImage.sliceOr, LoadedImage.rvaToSlice_of_le h]
  rfl

theorem sliceOr_of_not_le {n : Nat} {e : LoadError} (h : ¬ rva.toNat + n ≤ image.len) :
    image.sliceOr rva n e = Checked.fail e := by
  rw [PeImage.sliceOr, LoadedImage.rvaToSlice, if_neg h]
  rfl

/-- The four bytes from `k` on of a slice that lies in the image. -/
theorem u32At_slice {at' n k : Nat} (hk : k + 4 ≤ n) :
    u32At ((List.range n).map fun i => image.byte (at' + i)) k =
      .ok (word 32 4 image.byte (at' + k)) := by
  have hlen : ((List.range n).map fun i => image.byte (at' + i)).length = n := by
    rw [List.length_map, List.length_range]
  have hget : ∀ i < 4, ((((List.range n).map fun i => image.byte (at' + i)).drop k).take 4).getD i 0 =
      image.byte (at' + k + i) := by
    intro i hi
    rw [List.getD_eq_getElem?_getD, List.getElem?_take_of_lt hi, ← List.getD_eq_getElem?_getD,
      LoadedImage.getD_slice (fun i => image.byte (at' + i)) (show k + i < n by omega), Nat.add_assoc]
  rw [u32At, Checked.slice, if_pos (by rw [hlen]; exact hk), ok_bind, le32_eq_word hget]
  rfl

/-- The two bytes from `k` on of a slice that lies in the image. -/
theorem u16At_slice {at' n k : Nat} (hk : k + 2 ≤ n) :
    u16At ((List.range n).map fun i => image.byte (at' + i)) k =
      .ok (word 16 2 image.byte (at' + k)) := by
  have hlo : ((List.range n).map fun i => image.byte (at' + i))[k]? = some (image.byte (at' + k)) := by
    rw [List.getElem?_map, List.getElem?_range (by omega)]
    rfl
  have hhi : ((List.range n).map fun i => image.byte (at' + i))[k + 1]? =
      some (image.byte (at' + (k + 1))) := by
    rw [List.getElem?_map, List.getElem?_range (by omega)]
    rfl
  have hword : le16 [image.byte (at' + k), image.byte (at' + (k + 1))] =
      word 16 2 image.byte (at' + k) := by
    apply le16_eq_word
    intro i hi
    obtain rfl | rfl : i = 0 ∨ i = 1 := by omega
    · rfl
    · rfl
  rw [u16At, Checked.index, Checked.index, hlo, hhi, ok_bind, ok_bind, hword]
  rfl

/-! ### UTF-8 -/

def utf8Bytes (s : String) : Bytes :=
  s.toByteArray.data.toList.map UInt8.toBitVec

theorem fromUtf8_eq_some_iff : fromUtf8 bytes = some s ↔ bytes = utf8Bytes s := by
  have hcancel : ∀ l : Bytes, (l.map UInt8.ofBitVec).map UInt8.toBitVec = l := by
    intro l
    rw [List.map_map]
    exact List.map_id l
  rw [fromUtf8, String.fromUTF8?]
  constructor
  · intro h
    split at h
    · rename_i hvalid
      rw [← Option.some.inj h]
      exact (hcancel bytes).symm
    · cases h
  · rintro rfl
    have hdata : (utf8Bytes s).map UInt8.ofBitVec = s.toByteArray.data.toList := by
      rw [utf8Bytes, List.map_map]
      exact List.map_id _
    have harray : (⟨((utf8Bytes s).map UInt8.ofBitVec).toArray⟩ : ByteArray) = s.toByteArray := by
      rw [hdata]
    rw [harray, dif_pos s.isValidUTF8]
    rfl

/-! ### NUL-terminated strings -/

/-- The bytes are in the image at `a`, none of them NUL, and a NUL follows. -/
structure BytesAt (image : LoadedImage) (a : Nat) (bytes : Bytes) : Prop where
  inside : a + bytes.length < image.len
  bytes_eq : ∀ i b, bytes[i]? = some b → image.byte (a + i) = b
  ne_zero : ∀ b ∈ bytes, b ≠ 0
  terminated : image.byte (a + bytes.length) = 0

/-- A string of at most 4096 bytes is in the image at `a`. -/
structure CstrAt (image : LoadedImage) (a : Nat) (s : String) : Prop where
  bytesAt : BytesAt image a (utf8Bytes s)
  length_le : (utf8Bytes s).length ≤ 4096

theorem bytesAt_nil {image : LoadedImage} {a : Nat} (h : a < image.len) (hz : image.byte a = 0) :
    BytesAt image a [] := by
  refine ⟨h, ?_, ?_, hz⟩
  · intro i b hb
    cases hb
  · intro b hb
    cases hb

theorem bytesAt_cons_iff {image : LoadedImage} {a : Nat} {b : BitVec 8} :
    BytesAt image a (b :: bytes) ↔ image.byte a = b ∧ b ≠ 0 ∧ BytesAt image (a + 1) bytes := by
  constructor
  · intro h
    refine ⟨h.bytes_eq 0 b rfl, h.ne_zero b List.mem_cons_self, ?_, ?_, ?_, ?_⟩
    · have hin := h.inside
      rw [List.length_cons] at hin
      omega
    · intro i c hc
      rw [show a + 1 + i = a + (i + 1) by omega]
      exact h.bytes_eq (i + 1) c hc
    · intro c hc
      exact h.ne_zero c (List.mem_cons_of_mem b hc)
    · have hz := h.terminated
      rw [List.length_cons] at hz
      rw [show a + 1 + bytes.length = a + (bytes.length + 1) by omega]
      exact hz
  · rintro ⟨hb, hne, h⟩
    refine ⟨?_, ?_, ?_, ?_⟩
    · rw [List.length_cons]
      have hin := h.inside
      omega
    · intro i c hc
      cases i with
      | zero =>
        rw [← Option.some.inj hc]
        exact hb
      | succ i =>
        rw [show a + (i + 1) = a + 1 + i by omega]
        exact h.bytes_eq i c hc
    · intro c hc
      rcases List.mem_cons.mp hc with rfl | hc
      · exact hne
      · exact h.ne_zero c hc
    · rw [List.length_cons, show a + (bytes.length + 1) = a + 1 + bytes.length by omega]
      exact h.terminated

/-- A string of one byte. -/
theorem cstrAt_singleton {image : LoadedImage} {a : Nat} {b : BitVec 8} (hs : utf8Bytes s = [b])
    (hb : image.byte a = b) (hne : b ≠ 0) (hz : image.byte (a + 1) = 0) (hin : a + 1 < image.len) :
    CstrAt image a s := by
  refine ⟨?_, ?_⟩
  · rw [hs]
    exact bytesAt_cons_iff.mpr ⟨hb, hne, bytesAt_nil hin hz⟩
  · rw [hs]
    exact (by decide : 1 ≤ 4096)

/-- The loop returns the bytes up to the NUL, if they are not too many. -/
theorem cstrLoop_eq_ok_iff : ∀ {left : Nat} {off : BitVec 32} {bytes : Bytes},
    cstrLoop what image rva left off = .ok bytes ↔
      BytesAt image.toLoadedImage off.toNat bytes ∧ bytes.length < left := by
  intro left
  induction left with
  | zero =>
    intro off bytes
    exact ⟨nofun, fun h => absurd h.2 (Nat.not_lt_zero _)⟩
  | succ left ih =>
    intro off bytes
    have hlen := image.len_le
    rw [cstrLoop]
    by_cases hoff : off.toNat < image.len
    · have hindex : (Checked.index ((List.range 1).map fun i => image.byte (off.toNat + i)) 0 :
          Checked LoadError _) = .ok (image.byte off.toNat) := rfl
      rw [sliceOr_of_le (show off.toNat + 1 ≤ image.len by omega), ok_bind, hindex, ok_bind]
      by_cases hz : image.byte off.toNat = 0
      · rw [if_pos hz]
        constructor
        · rintro ⟨⟩
          exact ⟨bytesAt_nil hoff hz, Nat.succ_pos left⟩
        · rintro ⟨hat, -⟩
          cases bytes with
          | nil => rfl
          | cons b bytes =>
            obtain ⟨hb, hne, -⟩ := bytesAt_cons_iff.mp hat
            exact absurd (hb.symm.trans hz) hne
      · have h1 : (1 : BitVec 32).toNat = 1 := rfl
        have hnext : (Checked.okOr (checkedAdd off 1) (.malformed what.overflow off.toNat) :
            Checked LoadError _) = .ok (off + 1) := by
          rw [checkedAdd, if_pos (by rw [h1]; omega)]
          rfl
        have hnextNat : (off + 1).toNat = off.toNat + 1 := by
          rw [BitVec.toNat_add, h1, Nat.mod_eq_of_lt (by omega)]
        rw [if_neg hz, hnext, ok_bind, bind_eq_ok]
        constructor
        · rintro ⟨rest, hrest, hcons⟩
          obtain rfl := Except.ok.inj hcons
          obtain ⟨hat, hlt⟩ := ih.mp hrest
          rw [hnextNat] at hat
          refine ⟨bytesAt_cons_iff.mpr ⟨rfl, hz, hat⟩, ?_⟩
          rw [List.length_cons]
          omega
        · rintro ⟨hat, hlt⟩
          cases bytes with
          | nil => exact absurd hat.terminated hz
          | cons b bytes =>
            obtain ⟨rfl, -, hrest⟩ := bytesAt_cons_iff.mp hat
            rw [← hnextNat] at hrest
            rw [List.length_cons] at hlt
            exact ⟨bytes, ih.mpr ⟨hrest, by omega⟩, rfl⟩
    · rw [sliceOr_of_not_le (show ¬ off.toNat + 1 ≤ image.len by omega)]
      refine ⟨nofun, ?_⟩
      rintro ⟨hat, -⟩
      have hin := hat.inside
      omega

/-- The string that is returned is the one in the image. -/
theorem cstrOf_eq_ok_iff : cstrOf what image rva = .ok s ↔ CstrAt image.toLoadedImage rva.toNat s := by
  rw [cstrOf, bind_eq_ok]
  constructor
  · rintro ⟨bytes, hbytes, hs⟩
    obtain ⟨hat, hlt⟩ := cstrLoop_eq_ok_iff.mp hbytes
    obtain rfl := fromUtf8_eq_some_iff.mp (okOr_eq_ok.mp hs)
    exact ⟨hat, by omega⟩
  · intro h
    have hle := h.length_le
    exact ⟨utf8Bytes s, cstrLoop_eq_ok_iff.mpr ⟨h.bytesAt, by omega⟩,
      okOr_eq_ok.mpr (fromUtf8_eq_some_iff.mpr rfl)⟩

/-! ### The strings of the export directory -/

/-- The texts of `read_cstr` of `exports`. -/
def exportCstr : CstrErrors :=
  ⟨"export cstr", "export cstr overflow", "export cstr unbounded", "export cstr utf8"⟩

theorem readCstrLoop_eq_cstrLoop (left : Nat) (off : BitVec 32) :
    readCstrLoop image rva left off = cstrLoop exportCstr image rva left off := by
  induction left generalizing off with
  | zero => rfl
  | succ left ih =>
    rw [readCstrLoop, cstrLoop]
    simp only [ih]
    rfl

theorem readCstr_eq_cstrOf : readCstr image rva = cstrOf exportCstr image rva := by
  rw [readCstr, cstrOf, readCstrLoop_eq_cstrLoop]
  rfl

theorem readCstr_eq_ok_iff : readCstr image rva = .ok s ↔ CstrAt image.toLoadedImage rva.toNat s := by
  rw [readCstr_eq_cstrOf, cstrOf_eq_ok_iff]

end Quantum.Loader
