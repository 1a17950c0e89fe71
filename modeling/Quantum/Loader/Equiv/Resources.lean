import Quantum.Loader.Equiv.Cstr

/-!
# Names of resources

A name is stored in UTF-16: its number of units and the units.  `decodeName` takes each unit for a
character, so that what it returns is the name without the characters that need two units
(`parseId_eq`).
-/

namespace Quantum.Loader.Resources

open Checked LeWord

/-! ### UTF-16 -/

/-- The characters of the Basic Multilingual Plane. -/
def inBmp (c : Char) : Bool :=
  c.toNat < 0x10000

/-- The units of a character: itself, or the two halves of a surrogate pair. -/
def utf16Units (c : Char) : List (BitVec 16) :=
  if inBmp c then
    [BitVec.ofNat 16 c.toNat]
  else
    [BitVec.ofNat 16 (0xD800 + (c.toNat - 0x10000) / 0x400),
      BitVec.ofNat 16 (0xDC00 + (c.toNat - 0x10000) % 0x400)]

def utf16 (s : String) : List (BitVec 16) :=
  s.toList.flatMap utf16Units

theorem toNat_lt_of_char (c : Char) : c.toNat < 0x110000 := by
  rcases c.valid with h | h
  · exact lt_trans h (by decide)
  · exact h.2

theorem charFromU32_char (c : Char) : charFromU32 (BitVec.ofNat 32 c.toNat) = some c := by
  have hlt := toNat_lt_of_char c
  have hval : (BitVec.ofNat 32 c.toNat).toNat = c.toNat := by
    rw [BitVec.toNat_ofNat, Nat.mod_eq_of_lt (by omega)]
  have hvalid : (BitVec.ofNat 32 c.toNat).toNat.isValidChar := by
    rw [hval]
    exact c.valid
  rw [charFromU32, dif_pos hvalid]
  apply congrArg some
  apply Char.toNat_inj.mp
  exact hval

theorem charFromU32_surrogate {u : BitVec 32} (h : 0xD800 ≤ u.toNat) (h' : u.toNat < 0xE000) :
    charFromU32 u = none := by
  have hinvalid : ¬ u.toNat.isValidChar := by
    rintro (hlt | ⟨hlt, -⟩)
    · exact absurd hlt (by omega)
    · exact absurd hlt (by omega)
  rw [charFromU32, dif_neg hinvalid]

theorem inBmp_iff {c : Char} : inBmp c = true ↔ c.toNat < 0x10000 :=
  decide_eq_true_iff

/-- What the loop pushes for a unit. -/
def unitChar (u : BitVec 16) : Option Char :=
  charFromU32 (u.setWidth 32)

theorem unitChar_of_inBmp {c : Char} (hc : inBmp c = true) :
    unitChar (BitVec.ofNat 16 c.toNat) = some c := by
  have hsmall := inBmp_iff.mp hc
  have hwide : (BitVec.ofNat 16 c.toNat).setWidth 32 = BitVec.ofNat 32 c.toNat := by
    apply BitVec.eq_of_toNat_eq
    rw [BitVec.toNat_setWidth, BitVec.toNat_ofNat, BitVec.toNat_ofNat]
    omega
  rw [unitChar, hwide, charFromU32_char]

theorem unitChar_half {n : Nat} (h : 0xD800 ≤ n) (h' : n < 0xE000) :
    unitChar (BitVec.ofNat 16 n) = none := by
  have hnat : ((BitVec.ofNat 16 n).setWidth 32).toNat = n := by
    rw [BitVec.toNat_setWidth, BitVec.toNat_ofNat]
    omega
  apply charFromU32_surrogate
  · rw [hnat]
    exact h
  · rw [hnat]
    exact h'

/-- Both halves of a surrogate pair are left out. -/
theorem filterMap_pair {n : Nat} (h : n < 0x100000) :
    [BitVec.ofNat 16 (0xD800 + n / 0x400), BitVec.ofNat 16 (0xDC00 + n % 0x400)].filterMap unitChar =
      [] := by
  have hhigh : unitChar (BitVec.ofNat 16 (0xD800 + n / 0x400)) = none := by
    apply unitChar_half <;> omega
  have hlow : unitChar (BitVec.ofNat 16 (0xDC00 + n % 0x400)) = none := by
    apply unitChar_half <;> omega
  rw [List.filterMap_cons_none hhigh, List.filterMap_cons_none hlow, List.filterMap_nil]

/-- What the loop makes of the units of one character. -/
theorem filterMap_utf16Units (c : Char) : (utf16Units c).filterMap unitChar = [c].filter inBmp := by
  have hlt := toNat_lt_of_char c
  rw [utf16Units]
  by_cases hc : inBmp c = true
  · rw [if_pos hc, List.filterMap_cons_some (unitChar_of_inBmp hc), List.filterMap_nil,
      List.filter_cons_of_pos hc, List.filter_nil]
  · have hpair := @filterMap_pair (c.toNat - 0x10000) (by omega)
    rw [if_neg hc, hpair, List.filter_cons_of_neg hc, List.filter_nil]

theorem filterMap_utf16 (l : List Char) :
    (l.flatMap utf16Units).filterMap unitChar = l.filter inBmp := by
  induction l with
  | nil => rfl
  | cons c l ih =>
    rw [List.flatMap_cons, List.filterMap_append, filterMap_utf16Units, ih, ← List.filter_append]
    rfl

/-! ### Names of entries -/

variable {image : PeImage} {baseRva idRaw : BitVec 32} {s : String}

/-- Where the name of an entry is. -/
def nameAt (baseRva idRaw : BitVec 32) : Nat :=
  baseRva.toNat + (idRaw &&& 0x7FFFFFFF).toNat

/-- The entry with `idRaw` is named by `s`: its high bit says that it has a name, and the number of units
and the units of `s` are there, inside the image. -/
structure NamedBy (image : PeImage) (baseRva idRaw : BitVec 32) (s : String) : Prop where
  isNamed : idRaw &&& 0x80000000 ≠ 0
  length_lt : (utf16 s).length < 2 ^ 16
  length_eq : word 16 2 image.byte (nameAt baseRva idRaw) = BitVec.ofNat 16 (utf16 s).length
  units : ∀ i u, (utf16 s)[i]? = some u →
    word 16 2 image.byte (nameAt baseRva idRaw + 2 + 2 * i) = u
  inside : nameAt baseRva idRaw + 2 + 2 * (utf16 s).length ≤ image.len

/-- The name that is returned: the characters of one unit. -/
theorem parseId_eq (h : NamedBy image baseRva idRaw s) :
    parseId image baseRva idRaw = .ok (.name (String.ofList (s.toList.filter inBmp))) := by
  have hlen := image.len_le
  have hin := h.inside
  have hn := h.length_lt
  rw [nameAt] at hin
  have hoff : (Checked.add baseRva (idRaw &&& 0x7FFFFFFF) : Checked LoadError _) =
      .ok (baseRva + (idRaw &&& 0x7FFFFFFF)) := add_of_lt (by omega)
  have hoffNat : (baseRva + (idRaw &&& 0x7FFFFFFF)).toNat = nameAt baseRva idRaw := add_eq_ok.mp hoff
  have h2 : (2 : BitVec 32).toNat = 2 := rfl
  have hbody : (Checked.add (baseRva + (idRaw &&& 0x7FFFFFFF)) 2 : Checked LoadError _) =
      .ok (baseRva + (idRaw &&& 0x7FFFFFFF) + 2) := by
    apply add_of_lt
    rw [hoffNat, nameAt, h2]
    omega
  have hbodyNat : (baseRva + (idRaw &&& 0x7FFFFFFF) + 2).toNat = nameAt baseRva idRaw + 2 := by
    rw [add_eq_ok.mp hbody, hoffNat, h2]
  have hwide : ((BitVec.ofNat 16 (utf16 s).length).setWidth 64).toNat = (utf16 s).length := by
    rw [BitVec.toNat_setWidth, BitVec.toNat_ofNat]
    omega
  have h2' : (2 : BitVec 64).toNat = 2 := rfl
  have hmul : (Checked.mul ((BitVec.ofNat 16 (utf16 s).length).setWidth 64) 2 : Checked LoadError _) =
      .ok ((BitVec.ofNat 16 (utf16 s).length).setWidth 64 * 2) := by
    apply mul_of_lt
    rw [hwide, h2']
    omega
  have hmulNat : ((BitVec.ofNat 16 (utf16 s).length).setWidth 64 * 2).toNat =
      (utf16 s).length * 2 := by
    rw [mul_eq_ok.mp hmul, hwide, h2']
  -- the loop reads the units one by one
  have hunits : Checked.collect (fun i => u16At ((List.range ((utf16 s).length * 2)).map
      fun j => image.byte (nameAt baseRva idRaw + 2 + j)) (2 * i)) 0 (utf16 s).length =
      .ok (utf16 s) := by
    rw [collect_eq_ok_iff]
    refine ⟨rfl, ?_⟩
    intro j u hu
    have hj : j < (utf16 s).length := (List.getElem?_eq_some_iff.mp hu).1
    rw [Nat.zero_add, u16At_slice (by omega), h.units j u hu]
  have hname : decodeName ((List.range ((utf16 s).length * 2)).map
      fun j => image.byte (nameAt baseRva idRaw + 2 + j)) =
      .ok (String.ofList (s.toList.filter inBmp)) := by
    rw [decodeName, List.length_map, List.length_range,
      show ((utf16 s).length * 2 + 1) / 2 = (utf16 s).length by omega, hunits, ok_bind,
      ← filterMap_utf16]
    rfl
  rw [parseId, if_pos h.isNamed, hoff, ok_bind, PeImage.sliceOr,
    LoadedImage.rvaToSlice_of_le (by rw [hoffNat, nameAt]; omega), hoffNat]
  rw [okOr, ok_bind, u16At_slice (by omega), ok_bind, Nat.add_zero, h.length_eq, hbody, ok_bind, hmul,
    ok_bind, PeImage.sliceOr,
    LoadedImage.rvaToSlice_of_le (by rw [hbodyNat, hmulNat, nameAt]; omega), hbodyNat, hmulNat,
    okOr, ok_bind, hname, ok_bind]
  rfl

/-- **Resource names.**  An entry that is named by `s` gets the name `s` exactly if `s` has no character
outside the Basic Multilingual Plane, and two entries get the same name exactly if theirs differ in such
characters only. -/
theorem parseId_name_iff {image' : PeImage} {baseRva' idRaw' : BitVec 32} {s' : String}
    (h : NamedBy image baseRva idRaw s) (h' : NamedBy image' baseRva' idRaw' s') :
    (parseId image baseRva idRaw = .ok (.name s) ↔ ∀ c ∈ s.toList, inBmp c) ∧
      (parseId image baseRva idRaw = parseId image' baseRva' idRaw' ↔
        s.toList.filter inBmp = s'.toList.filter inBmp) := by
  rw [parseId_eq h, parseId_eq h']
  constructor
  · rw [← List.filter_eq_self]
    constructor
    · intro heq
      have hname : String.ofList (s.toList.filter inBmp) = s :=
        ResourceId.name.inj (Except.ok.inj heq)
      rw [← hname, String.toList_ofList, List.filter_filter]
      simp only [Bool.and_self]
    · intro heq
      rw [heq, String.ofList_toList]
  · constructor
    · intro heq
      exact String.ofList_injective (ResourceId.name.inj (Except.ok.inj heq))
    · intro heq
      rw [heq]

/-- An image with the names U+1F600 at 0x10 and U+1F601 at 0x20. -/
def surrogateImage : PeImage where
  actualBase := 0x140000000
  len := 0x40
  byte i := ([(0x10, 0x02), (0x12, 0x3D), (0x13, 0xD8), (0x14, 0x00), (0x15, 0xDE),
    (0x20, 0x02), (0x22, 0x3D), (0x23, 0xD8), (0x24, 0x01), (0x25, 0xDE)].lookup i).getD 0
  preferredBase := 0x140000000
  sizeOfImage := 0x40
  sizeOfHeaders := 0x10
  entryRva := 0
  subsystem := 3
  bitness := .x86_64
  sections := []
  dataDirectories := []
  len_le := by decide

theorem utf16_singleton (c : Char) : utf16 (String.ofList [c]) = utf16Units c := by
  rw [utf16, String.toList_ofList, List.flatMap_cons, List.flatMap_nil, List.append_nil]

theorem namedBy_grinning :
    NamedBy surrogateImage 0 0x80000010 (String.ofList [Char.ofNat 0x1F600]) := by
  have hunits : utf16 (String.ofList [Char.ofNat 0x1F600]) = [0xD83D, 0xDE00] := by
    rw [utf16_singleton]
    decide
  refine ⟨by decide, ?_, ?_, ?_, ?_⟩ <;> rw [hunits]
  · decide
  · decide
  · rintro (_ | _ | i) u hu <;> cases hu <;> decide
  · decide

theorem namedBy_beaming :
    NamedBy surrogateImage 0 0x80000020 (String.ofList [Char.ofNat 0x1F601]) := by
  have hunits : utf16 (String.ofList [Char.ofNat 0x1F601]) = [0xD83D, 0xDE01] := by
    rw [utf16_singleton]
    decide
  refine ⟨by decide, ?_, ?_, ?_, ?_⟩ <;> rw [hunits]
  · decide
  · decide
  · rintro (_ | _ | i) u hu <;> cases hu <;> decide
  · decide

/-- The two names both come out empty. -/
theorem surrogates_collide :
    parseId surrogateImage 0 0x80000010 ≠ .ok (.name (String.ofList [Char.ofNat 0x1F600])) ∧
      String.ofList [Char.ofNat 0x1F600] ≠ String.ofList [Char.ofNat 0x1F601] ∧
      parseId surrogateImage 0 0x80000010 = parseId surrogateImage 0 0x80000020 := by
  have hfirst := parseId_eq namedBy_grinning
  have hsecond := parseId_eq namedBy_beaming
  rw [String.toList_ofList] at hfirst hsecond
  have hdistinct : String.ofList [Char.ofNat 0x1F600] ≠ String.ofList [Char.ofNat 0x1F601] := by
    intro heq
    exact absurd (String.ofList_injective heq) (by decide)
  refine ⟨?_, hdistinct, ?_⟩
  · rw [hfirst]
    intro heq
    have hname := String.ofList_injective (ResourceId.name.inj (Except.ok.inj heq))
    exact absurd hname (by decide)
  · rw [hfirst, hsecond]
    rfl

/-- An image with the name `A` at 0x10. -/
def letterImage : PeImage :=
  { surrogateImage with byte := fun i => ([(0x10, 0x01), (0x12, 0x41)].lookup i).getD 0 }

theorem namedBy_letter : NamedBy letterImage 0 0x80000010 "A" := by
  have hunits : utf16 "A" = [0x41] := by
    rw [show "A" = String.ofList ['A'] by decide, utf16_singleton]
    decide
  refine ⟨by decide, ?_, ?_, ?_, ?_⟩ <;> rw [hunits]
  · decide
  · decide
  · rintro (_ | i) u hu <;> cases hu
    decide
  · decide

/-- A name in the Basic Multilingual Plane comes out as it is, and the names of two entries whose characters
need two units come out the same. -/
theorem parseId_name_iff_grinning :
    parseId letterImage 0 0x80000010 = .ok (.name "A") ∧
      parseId surrogateImage 0 0x80000010 = parseId surrogateImage 0 0x80000020 := by
  constructor
  · refine (parseId_name_iff namedBy_letter namedBy_letter).1.mpr fun c hc => ?_
    rw [show "A" = String.ofList ['A'] by decide, String.toList_ofList, List.mem_singleton] at hc
    subst hc
    decide
  · refine (parseId_name_iff namedBy_grinning namedBy_beaming).2.mpr ?_
    rw [String.toList_ofList, String.toList_ofList]
    decide

end Quantum.Loader.Resources
