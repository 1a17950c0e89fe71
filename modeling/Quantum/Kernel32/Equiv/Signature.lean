import Quantum.Kernel32.Equiv.Dxbc
import Quantum.Kernel32.Signature

/-!
# Signatures, parsed and laid out

`parseSignature_eq` says what `parseSignature` returns as a function of the bytes, so it does not panic.  A
signature that is laid out as header, records and names is read back as it is: the records and the names grow
together, and `records_append` keeps the two offsets in step.
-/

namespace Quantum.Kernel32.Dxbc

open Checked
open Loader (le32)

variable {payload : Bytes}

/-! ### What is read -/

/-- The name at an offset. -/
def nameAt (payload : Bytes) (off : ℕ) : List Char :=
  ((payload.drop off).takeWhile (· != 0)).map charOfByte

/-- The element whose record is at an offset. -/
def elementAt (payload : Bytes) (base : ℕ) : SignatureElement where
  semanticName := nameAt payload (wordAt payload base).toNat
  semanticIndex := wordAt payload (base + 4)
  systemValue := wordAt payload (base + 8)
  componentType := ComponentType.fromRaw (wordAt payload (base + 12))
  register := wordAt payload (base + 16)
  mask := (wordAt payload (base + 20) &&& 0x0F).setWidth 8
  usedMask := (wordAt payload (base + 20) >>> 8 &&& 0x0F).setWidth 8

theorem readU32_eq {base : BitVec 64} {b : ℕ} (hb : base.toNat = b) (off : BitVec 64)
    (h : b + off.toNat + 4 ≤ payload.length) (hlt : b + off.toNat + 4 < 2 ^ 64) :
    readU32 payload base off = .ok (wordAt payload (b + off.toNat)) := by
  have hfour : (4 : BitVec 64).toNat = 4 := rfl
  have hstart : (base + off).toNat = b + off.toNat := by
    rw [BitVec.toNat_add_of_lt (by rw [hb]; omega), hb]
  have hslice : (slice payload (b + off.toNat) 4 : Checked DecodeError _) =
      .ok (range payload (b + off.toNat) 4) :=
    if_pos h
  unfold readU32
  rw [add_of_lt (by rw [hb]; omega), ok_bind, add_of_lt (by rw [hstart, hfour]; omega), ok_bind, hstart,
    hslice]
  rfl

theorem readName_eq (payload : Bytes) (nameOff : BitVec 64) :
    readName payload nameOff = .ok (nameAt payload nameOff.toNat) := by
  unfold readName nameAt
  split
  case isTrue hlt =>
    have hslice : (slice payload nameOff.toNat (payload.length - nameOff.toNat) : Checked DecodeError _) =
        .ok ((payload.drop nameOff.toNat).take (payload.length - nameOff.toNat)) :=
      if_pos (by omega)
    rw [hslice, ok_bind, ← List.length_drop, List.take_length]
    rfl
  case isFalse hge =>
    rw [List.drop_eq_nil_of_le (Nat.le_of_not_lt hge)]
    rfl

/-- A record that lies in the bytes is read. -/
theorem parseElement_eq {elemStart : BitVec 64} {i : ℕ} (hstart : elemStart.toNat < 2 ^ 32)
    (hi : i < 2 ^ 32) (h : elemStart.toNat + i * 24 + 24 ≤ payload.length) :
    parseElement payload elemStart i = .ok (elementAt payload (elemStart.toNat + i * 24)) := by
  have hi' : (BitVec.ofNat 64 i).toNat = i := Nat.mod_eq_of_lt (by omega)
  have hstride : (24 : BitVec 64).toNat = 24 := rfl
  have hrel : (BitVec.ofNat 64 i * 24).toNat = i * 24 := by
    rw [BitVec.toNat_mul, hi', hstride]
    exact Nat.mod_eq_of_lt (by omega)
  have hbase : (elemStart + BitVec.ofNat 64 i * 24).toNat = elemStart.toNat + i * 24 := by
    rw [BitVec.toNat_add_of_lt (by rw [hrel]; omega), hrel]
  have hread : ∀ off : BitVec 64, off.toNat ≤ 20 →
      readU32 payload (elemStart + BitVec.ofNat 64 i * 24) off =
        .ok (wordAt payload (elemStart.toNat + i * 24 + off.toNat)) :=
    fun off hoff => readU32_eq hbase off (by omega) (by omega)
  unfold parseElement
  rw [mul_of_lt (by rw [hi', hstride]; omega), ok_bind, add_of_lt (by rw [hrel]; omega), ok_bind,
    hread 0 (by decide), ok_bind, hread 4 (by decide), ok_bind, hread 8 (by decide), ok_bind,
    hread 12 (by decide), ok_bind, hread 16 (by decide), ok_bind, hread 20 (by decide), ok_bind,
    readName_eq, ok_bind, toNat_setWidth_64]
  rfl

/-! ### The chunk -/

/-- The number of elements and the offset of the first, by the header. -/
def elementCount (payload : Bytes) : ℕ := (wordAt payload 0).toNat
def elementStart (payload : Bytes) : ℕ := (wordAt payload 4).toNat

/-- What `parseSignature` returns: the elements, or the error that there is no header or that the records
are out of range. -/
theorem parseSignature_eq (payload : Bytes) : parseSignature payload =
    if 8 ≤ payload.length then
      if elementStart payload + elementCount payload * 24 ≤ payload.length then
        .ok ((List.range (elementCount payload)).map fun i =>
          elementAt payload (elementStart payload + i * 24))
      else
        fail (.instructionOob (elementStart payload) (BitVec.ofNat 32 (elementCount payload * 24)))
    else fail .headerTooShort := by
  unfold parseSignature
  by_cases hhead : 8 ≤ payload.length
  · have hensure : (ensure (8 ≤ payload.length) .headerTooShort : Checked DecodeError Unit) = .ok () :=
      if_pos hhead
    have hcount : (slice payload 0 4 : Checked DecodeError _) = .ok (range payload 0 4) :=
      if_pos (by omega)
    have hstart : (slice payload 4 4 : Checked DecodeError _) = .ok (range payload 4 4) :=
      if_pos (by omega)
    rw [if_pos hhead, hensure, ok_bind, hcount, ok_bind, hstart, ok_bind]
    dsimp only
    have hstride : (24 : BitVec 64).toNat = 24 := rfl
    have hcountLt := (wordAt payload 0).isLt
    have hstartLt := (wordAt payload 4).isLt
    have hcount64 : ((le32 (range payload 0 4)).setWidth 64).toNat = elementCount payload :=
      toNat_setWidth_64 _
    have hstart64 : ((le32 (range payload 4 4)).setWidth 64).toNat = elementStart payload :=
      toNat_setWidth_64 _
    have hcountLt' : elementCount payload < 2 ^ 32 := hcountLt
    have hstartLt' : elementStart payload < 2 ^ 32 := hstartLt
    generalize (le32 (range payload 0 4)).setWidth 64 = count at hcount64
    generalize (le32 (range payload 4 4)).setWidth 64 = start at hstart64
    -- neither the product nor the sum reaches 2 ^ 64
    have hmul : (count * 24).toNat = elementCount payload * 24 := by
      rw [BitVec.toNat_mul, hcount64, hstride]
      exact Nat.mod_eq_of_lt (by omega)
    have hsum : (start + count * 24).toNat = elementStart payload + elementCount payload * 24 := by
      rw [BitVec.toNat_add_of_lt (by rw [hstart64, hmul]; omega), hstart64, hmul]
    rw [mul_of_lt (by rw [hcount64, hstride]; omega), ok_bind, add_of_lt (by rw [hstart64, hmul]; omega),
      ok_bind, hsum, hstart64, hcount64]
    by_cases hfits : elementStart payload + elementCount payload * 24 ≤ payload.length
    · rw [if_pos hfits, ensure, if_pos hfits, ok_bind, collect_eq_ok_iff]
      refine ⟨by rw [List.length_map, List.length_range], fun j e he => ?_⟩
      rw [List.getElem?_map, Option.map_eq_some_iff] at he
      obtain ⟨j', hj', rfl⟩ := he
      obtain ⟨hj, hget⟩ := List.getElem?_eq_some_iff.mp hj'
      rw [List.length_range] at hj
      rw [List.getElem_range] at hget
      rw [Nat.zero_add, ← hget, ← hstart64]
      exact parseElement_eq (by omega) (by omega) (by omega)
    · have hcut : (count * 24).setWidth 32 = BitVec.ofNat 32 (elementCount payload * 24) :=
        BitVec.eq_of_toNat_eq (by rw [BitVec.toNat_setWidth, hmul, BitVec.toNat_ofNat])
      rw [if_neg hfits, ensure, if_neg hfits, hcut]
      rfl
  · have hensure : (ensure (8 ≤ payload.length) .headerTooShort : Checked DecodeError Unit) =
        fail .headerTooShort :=
      if_neg hhead
    rw [if_neg hhead, hensure]
    rfl

theorem parseSignature_total (payload : Bytes) : Total (parseSignature payload) := by
  rw [parseSignature_eq]
  split_ifs
  · exact total_ok _
  · exact total_fail _
  · exact total_fail _

/-! ### Elements that can be laid out -/

/-- An element that a chunk can hold: an ASCII name without a zero, masks of four bits, and a component type
that is unknown only if its code is. -/
structure SignatureElement.Canonical (e : SignatureElement) : Prop where
  name : ∀ c ∈ e.semanticName, 0 < c.toNat ∧ c.toNat < 128
  mask : e.mask.toNat < 16
  usedMask : e.usedMask.toNat < 16
  component : ∀ raw, e.componentType = .unknown raw → raw ≠ 1 ∧ raw ≠ 2 ∧ raw ≠ 3

theorem fromRaw_raw {t : ComponentType} (h : ∀ raw, t = .unknown raw → raw ≠ 1 ∧ raw ≠ 2 ∧ raw ≠ 3) :
    ComponentType.fromRaw t.raw = t := by
  cases t with
  | uint32 | sint32 | float32 => rfl
  | unknown raw =>
    obtain ⟨h1, h2, h3⟩ := h raw rfl
    rw [ComponentType.raw, ComponentType.fromRaw]
    · exact h1
    · exact h2
    · exact h3

theorem getLsbD_of_lt_sixteen {m : BitVec 8} (hm : m.toNat < 16) {i : ℕ} (hi : 4 ≤ i) :
    m.getLsbD i = false := by
  have hpow : m.toNat < 2 ^ i := Nat.lt_of_lt_of_le hm (Nat.pow_le_pow_right (Nat.succ_pos 1) hi)
  exact Nat.testBit_lt_two_pow hpow

/-- Both masks are read back out of their word. -/
theorem maskDword_fields {e : SignatureElement} (hm : e.mask.toNat < 16) (hu : e.usedMask.toNat < 16) :
    (maskDword e &&& 0x0F).setWidth 8 = e.mask ∧ (maskDword e >>> 8 &&& 0x0F).setWidth 8 = e.usedMask := by
  have hnibble : ∀ i, (0x0F : BitVec 32).getLsbD i = decide (i < 4) := by
    intro i
    by_cases hi : i < 32
    · revert i
      decide
    · rw [BitVec.getLsbD_of_ge _ _ (Nat.le_of_not_lt hi)]
      simp
      omega
  constructor
  · refine BitVec.eq_of_getLsbD_eq fun i hi => ?_
    have hhigh : 4 ≤ i → e.mask.getLsbD i = false := getLsbD_of_lt_sixteen hm
    simp only [maskDword, BitVec.getLsbD_setWidth, BitVec.getLsbD_and, BitVec.getLsbD_or,
      BitVec.getLsbD_shiftLeft, hnibble]
    grind
  · refine BitVec.eq_of_getLsbD_eq fun i hi => ?_
    have hhigh : 4 ≤ i → e.usedMask.getLsbD i = false := getLsbD_of_lt_sixteen hu
    have hmask : e.mask.getLsbD (8 + i) = false := BitVec.getLsbD_of_ge _ _ (Nat.le_add_right 8 i)
    simp only [maskDword, BitVec.getLsbD_setWidth, BitVec.getLsbD_and, BitVec.getLsbD_or,
      BitVec.getLsbD_ushiftRight, BitVec.getLsbD_shiftLeft, hnibble, hmask]
    grind

theorem takeWhile_nameBytes {e : SignatureElement} (h : ∀ c ∈ e.semanticName, 0 < c.toNat ∧ c.toNat < 128)
    (back : Bytes) : ((nameBytes e ++ back).takeWhile (· != 0)).map charOfByte = e.semanticName := by
  unfold nameBytes
  generalize e.semanticName = name at h
  induction name with
  | nil => rfl
  | cons c name ih =>
    obtain ⟨⟨hpos, hlt⟩, hrest⟩ := List.forall_mem_cons.mp h
    have hbyte : (BitVec.ofNat 8 c.toNat).toNat = c.toNat := Nat.mod_eq_of_lt (by omega)
    have hne : BitVec.ofNat 8 c.toNat ≠ 0 := by
      intro h0
      rw [h0] at hbyte
      exact absurd hbyte (by simp; omega)
    have hchar : charOfByte (BitVec.ofNat 8 c.toNat) = c := by
      rw [charOfByte, hbyte, Char.ofNat_toNat]
    rw [List.map_cons, List.cons_append, List.cons_append, List.takeWhile_cons_of_pos (by simpa using hne),
      List.map_cons, hchar, ih hrest]

/-! ### Signatures laid out in order -/

theorem length_recordBytes (off : ℕ) (e : SignatureElement) : (recordBytes off e).length = 24 := rfl

theorem length_records (off : ℕ) (es : List SignatureElement) : (records off es).length = es.length * 24 := by
  induction es generalizing off with
  | nil => rfl
  | cons e es ih =>
    rw [records, List.length_append, length_recordBytes, ih, List.length_cons]
    omega

/-- The name of an element starts where the names before it end. -/
theorem records_append (off : ℕ) (pre post : List SignatureElement) : records off (pre ++ post) =
    records off pre ++ records (off + (pre.flatMap nameBytes).length) post := by
  induction pre generalizing off with
  | nil => rfl
  | cons e pre ih =>
    rw [List.cons_append, records, ih, records, List.flatMap_cons, List.length_append, List.append_assoc,
      Nat.add_assoc]

theorem length_buildSignaturePayload (es : List SignatureElement) :
    (buildSignaturePayload es).length = signatureSize es := by
  simp only [buildSignaturePayload, List.length_append, length_records, signatureSize]
  rfl

/-- A word behind some bytes. -/
theorem wordAt_right (front back : Bytes) (k : ℕ) :
    wordAt (front ++ back) (front.length + k) = wordAt back k := by
  rw [wordAt, wordAt, range, range, List.drop_length_add_append]

/-- An element is read back from its record and its name. -/
theorem elementAt_eq {front back nameFront nameBack : Bytes} {e : SignatureElement} (he : e.Canonical)
    (hrecord : payload = front ++ (recordBytes nameFront.length e ++ back))
    (hname : payload = nameFront ++ (nameBytes e ++ nameBack)) (hlt : nameFront.length < 2 ^ 32) :
    elementAt payload front.length = e := by
  have hword : ∀ k,
      wordAt payload (front.length + k) = wordAt (recordBytes nameFront.length e ++ back) k := by
    intro k
    rw [hrecord]
    exact wordAt_right front _ k
  have hle : ∀ v : BitVec 32, le32 (u32Bytes v.toNat) = v := by
    intro v
    rw [le32_u32Bytes, BitVec.ofNat_toNat, BitVec.setWidth_eq]
  have hoff : (wordAt payload front.length).toNat = nameFront.length := by
    have hfirst : wordAt payload front.length = le32 (u32Bytes nameFront.length) := hword 0
    rw [hfirst, le32_u32Bytes]
    exact Nat.mod_eq_of_lt hlt
  have hindex : wordAt payload (front.length + 4) = e.semanticIndex := (hword 4).trans (hle _)
  have hsystem : wordAt payload (front.length + 8) = e.systemValue := (hword 8).trans (hle _)
  have hcomponent : wordAt payload (front.length + 12) = e.componentType.raw := (hword 12).trans (hle _)
  have hregister : wordAt payload (front.length + 16) = e.register := (hword 16).trans (hle _)
  have hmask : wordAt payload (front.length + 20) = maskDword e := (hword 20).trans (hle _)
  have hnameAt : nameAt payload nameFront.length = e.semanticName := by
    rw [nameAt, hname, List.drop_left]
    exact takeWhile_nameBytes he.name nameBack
  -- the masks share a word with each other
  obtain ⟨hm, hu⟩ := maskDword_fields he.mask he.usedMask
  rw [elementAt, hoff, hnameAt, hindex, hsystem, hcomponent, hregister, hmask, hm, hu,
    fromRaw_raw he.component]

/-- Where the record and the name of an element are. -/
theorem split_buildSignaturePayload (pre post : List SignatureElement) (e : SignatureElement) :
    ∃ front back nameFront nameBack, front.length = 8 + pre.length * 24 ∧
      buildSignaturePayload (pre ++ e :: post) = front ++ (recordBytes nameFront.length e ++ back) ∧
      buildSignaturePayload (pre ++ e :: post) = nameFront ++ (nameBytes e ++ nameBack) := by
  generalize hes : pre ++ e :: post = es
  have hheader : (u32Bytes es.length ++ u32Bytes 8).length = 8 := rfl
  have hrecords : records (8 + es.length * 24) es = records (8 + es.length * 24) pre ++
      (recordBytes (8 + es.length * 24 + (pre.flatMap nameBytes).length) e ++
        records (8 + es.length * 24 + (pre.flatMap nameBytes).length + (nameBytes e).length) post) := by
    rw [← records, ← records_append, hes]
  have hnames : es.flatMap nameBytes =
      pre.flatMap nameBytes ++ (nameBytes e ++ post.flatMap nameBytes) := by
    rw [← hes, List.flatMap_append, List.flatMap_cons]
  have hnameFront : (u32Bytes es.length ++ u32Bytes 8 ++ records (8 + es.length * 24) es ++
      pre.flatMap nameBytes).length = 8 + es.length * 24 + (pre.flatMap nameBytes).length := by
    rw [List.length_append, List.length_append, hheader, length_records]
  refine ⟨u32Bytes es.length ++ u32Bytes 8 ++ records (8 + es.length * 24) pre,
    records (8 + es.length * 24 + (pre.flatMap nameBytes).length + (nameBytes e).length) post ++
      es.flatMap nameBytes,
    u32Bytes es.length ++ u32Bytes 8 ++ records (8 + es.length * 24) es ++ pre.flatMap nameBytes,
    post.flatMap nameBytes, ?_, ?_, ?_⟩
  · rw [List.length_append, hheader, length_records]
  · rw [hnameFront, buildSignaturePayload, hrecords]
    simp only [List.append_assoc]
  · rw [buildSignaturePayload, hnames]
    simp only [List.append_assoc]

theorem parseSignature_build {es : List SignatureElement} (hes : ∀ e ∈ es, e.Canonical)
    (hsize : signatureSize es < 2 ^ 32) : parseSignature (buildSignaturePayload es) = .ok es := by
  have hlength := length_buildSignaturePayload es
  have hsize' : signatureSize es = 8 + es.length * 24 + (es.flatMap nameBytes).length := rfl
  have hcount : elementCount (buildSignaturePayload es) = es.length := by
    have hword : wordAt (buildSignaturePayload es) 0 = le32 (u32Bytes es.length) := rfl
    rw [elementCount, hword, le32_u32Bytes]
    exact Nat.mod_eq_of_lt (by omega)
  have hstart : elementStart (buildSignaturePayload es) = 8 := by
    have hword : wordAt (buildSignaturePayload es) 4 = le32 (u32Bytes 8) := rfl
    rw [elementStart, hword, le32_u32Bytes]
    rfl
  rw [parseSignature_eq, hcount, hstart, if_pos (by omega), if_pos (by omega)]
  -- element by element
  refine congrArg Except.ok (List.ext_getElem (by simp) fun i hi hi' => ?_)
  rw [List.getElem_map, List.getElem_range]
  have hsplit : es = es.take i ++ es[i] :: es.drop (i + 1) := by
    rw [List.getElem_cons_drop, List.take_append_drop]
  obtain ⟨front, back, nameFront, nameBack, hfront, hrecord, hname⟩ :=
    split_buildSignaturePayload (es.take i) (es.drop (i + 1)) es[i]
  rw [← hsplit] at hrecord hname
  have hlt : nameFront.length < 2 ^ 32 := by
    have hle := congrArg List.length hname
    rw [List.length_append] at hle
    omega
  rw [List.length_take, Nat.min_eq_left (Nat.le_of_lt hi')] at hfront
  rw [← hfront]
  exact elementAt_eq (hes _ (List.getElem_mem hi')) hrecord hname hlt

/-- **Signatures.**  `parseSignature` does not panic on any bytes.  A signature that is laid out as count,
offset, records and names, in a chunk of less than `2 ^ 32` bytes, is parsed to its elements. -/
theorem signature_round_trip :
    (∀ payload, Total (parseSignature payload)) ∧
      ∀ es : List SignatureElement, (∀ e ∈ es, e.Canonical) → signatureSize es < 2 ^ 32 →
        parseSignature (buildSignaturePayload es) = .ok es :=
  ⟨parseSignature_total, fun _ => parseSignature_build⟩

/-- Two elements, the second without a name. -/
def twoElements : List SignatureElement :=
  [⟨['P', 'O', 'S'], 0, 1, .float32, 0, 0b1111, 0b0111⟩, ⟨[], 1, 0, .unknown 9, 1, 0b0011, 0⟩]

theorem signature_round_trip_two : parseSignature (buildSignaturePayload twoElements) = .ok twoElements := by
  have hname : ∀ c ∈ ['P', 'O', 'S'], 0 < c.toNat ∧ c.toNat < 128 := by simp
  refine signature_round_trip.2 twoElements (fun e he => ?_) (by decide)
  rcases List.mem_cons.mp he with rfl | he
  · exact ⟨hname, by decide, by decide, nofun⟩
  · obtain rfl := List.mem_singleton.mp he
    refine ⟨nofun, by decide, by decide, fun raw hraw => ?_⟩
    cases hraw
    decide

end Quantum.Kernel32.Dxbc
