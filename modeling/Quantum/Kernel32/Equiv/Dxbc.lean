import Mathlib.Algebra.BigOperators.Group.List.Basic
import Quantum.Kernel32.Dxbc

/-!
# DXBC containers, accepted and laid out

`parse` does not panic on any bytes, every chunk it returns lies in them (`parse_sound`), and a container
that is laid out as header, table and chunks is read back as it is (`parse_buildContainer`).

Both directions go through `parseChunk_eq`, which says what one iteration of the loop returns as a
function of the bytes.
-/

namespace Quantum.Kernel32.Dxbc

open Checked
open Loader (le32)

variable {bytes : Bytes}

/-! ### Slices and words -/

/-- The bytes from `a` on. -/
def range (bytes : Bytes) (a n : ℕ) : Bytes := (bytes.drop a).take n

/-- The little-endian word at `a`. -/
def wordAt (bytes : Bytes) (a : ℕ) : BitVec 32 := le32 (range bytes a 4)

theorem sliceAt_eq {start n : BitVec 64} (h : start.toNat + n.toNat ≤ bytes.length)
    (hlt : start.toNat + n.toNat < 2 ^ 64) :
    sliceAt bytes start n = .ok (range bytes start.toNat n.toNat) := by
  unfold sliceAt
  rw [add_of_lt hlt, ok_bind]
  exact if_pos h

theorem u32At_eq {start : BitVec 64} (h : start.toNat + 4 ≤ bytes.length)
    (hlt : start.toNat + 4 < 2 ^ 64) : u32At bytes start = .ok (wordAt bytes start.toNat) := by
  unfold u32At
  rw [sliceAt_eq (n := 4) h hlt, ok_bind]
  rfl

theorem ensure_pos {c : Prop} [Decidable c] (h : c) (e : DxbcError) :
    ensure c e = .ok () :=
  if_pos h

theorem ensure_neg {c : Prop} [Decidable c] (h : ¬ c) (e : DxbcError) :
    ensure c e = fail e :=
  if_neg h

/-! ### One chunk -/

/-- The chunk at an offset. -/
def chunkAt (bytes : Bytes) (off : ℕ) : Chunk where
  fourcc := Fourcc.ofBytes (range bytes off 4)
  payloadOffset := BitVec.ofNat 64 (off + 8)
  payloadSize := (wordAt bytes (off + 4)).setWidth 64

/-- Does the chunk at an offset lie in the bytes? -/
def Fits (bytes : Bytes) (off : ℕ) : Prop :=
  off + 8 ≤ bytes.length ∧ off + 8 + (wordAt bytes (off + 4)).toNat ≤ bytes.length

/-- The offset of a chunk, by the table. -/
def tableEntry (bytes : Bytes) (i : ℕ) : ℕ := (wordAt bytes (0x20 + i * 4)).toNat

theorem toNat_setWidth_64 (v : BitVec 32) : (v.setWidth 64).toNat = v.toNat := by
  rw [BitVec.toNat_setWidth]
  exact Nat.mod_eq_of_lt (Nat.lt_trans v.isLt (by decide))

/-- The end of a chunk's header. -/
theorem toNat_add_eight (v : BitVec 32) : (v.setWidth 64 + 8).toNat = v.toNat + 8 := by
  have hv := v.isLt
  rw [BitVec.toNat_add_of_lt (by rw [toNat_setWidth_64]; simp; omega), toNat_setWidth_64]
  rfl

/-- What an iteration returns: the chunk, or the error that its header or its payload is out of
bounds. -/
theorem parseChunk_eq {i : ℕ} (hi : 0x20 + i * 4 + 4 ≤ bytes.length) (hlen : bytes.length < 2 ^ 32) :
    parseChunk bytes i =
      if tableEntry bytes i + 8 ≤ bytes.length then
        if tableEntry bytes i + 8 + (wordAt bytes (tableEntry bytes i + 4)).toNat ≤ bytes.length then
          .ok (chunkAt bytes (tableEntry bytes i))
        else
          fail (.chunkOob i (wordAt bytes (0x20 + i * 4)) (wordAt bytes (tableEntry bytes i + 4)))
      else fail (.chunkOob i (wordAt bytes (0x20 + i * 4)) 0) := by
  have hi' : (BitVec.ofNat 64 i).toNat = i := Nat.mod_eq_of_lt (by omega)
  have hmul : (BitVec.ofNat 64 i * 4).toNat = i * 4 := by
    rw [BitVec.toNat_mul, hi']
    exact Nat.mod_eq_of_lt (by simp; omega)
  have hentry : (HEADER_FIXED_LEN + BitVec.ofNat 64 i * 4).toNat = 0x20 + i * 4 := by
    rw [BitVec.toNat_add, hmul]
    exact Nat.mod_eq_of_lt (by simp [HEADER_FIXED_LEN]; omega)
  unfold parseChunk
  rw [mul_of_lt (by rw [hi']; simp; omega), ok_bind,
    add_of_lt (by rw [hmul]; simp [HEADER_FIXED_LEN]; omega), ok_bind,
    u32At_eq (by omega) (by omega), ok_bind, hentry]
  -- the offset is one of 32 bits, so nothing overflows from here on
  unfold tableEntry
  generalize wordAt bytes (0x20 + i * 4) = off
  have hoff := off.isLt
  have hoff64 := toNat_setWidth_64 off
  have hend := toNat_add_eight off
  dsimp only
  rw [add_of_lt (by rw [hoff64]; simp; omega), ok_bind, hend]
  by_cases hhead : off.toNat + 8 ≤ bytes.length
  · have hfour : (off.setWidth 64 + 4).toNat = off.toNat + 4 := by
      rw [BitVec.toNat_add_of_lt (by rw [hoff64]; simp; omega), hoff64]
      rfl
    rw [if_pos hhead, ensure_pos hhead, ok_bind,
      sliceAt_eq (n := 4) (by rw [hoff64]; simp; omega) (by rw [hoff64]; simp; omega), ok_bind,
      add_of_lt (by rw [hoff64]; simp; omega), ok_bind,
      u32At_eq (by rw [hfour]; omega) (by rw [hfour]; omega), ok_bind, hfour, hoff64]
    generalize hsize : wordAt bytes (off.toNat + 4) = size
    have hsize' := size.isLt
    have hsize64 := toNat_setWidth_64 size
    have hsum : (off.setWidth 64 + 8 + size.setWidth 64).toNat = off.toNat + 8 + size.toNat := by
      rw [BitVec.toNat_add_of_lt (by rw [hend, hsize64]; omega), hend, hsize64]
    rw [add_of_lt (by rw [hend, hsize64]; omega), ok_bind, hsum]
    by_cases hpay : off.toNat + 8 + size.toNat ≤ bytes.length
    · rw [if_pos hpay, ensure_pos hpay, ok_bind]
      have hpo : BitVec.ofNat 64 (off.toNat + 8) = off.setWidth 64 + 8 :=
        BitVec.eq_of_toNat_eq (by rw [hend]; exact Nat.mod_eq_of_lt (by omega))
      simp only [chunkAt, hsize, hpo]
      rfl
    · rw [if_neg hpay, ensure_neg hpay]
      rfl
  · rw [if_neg hhead, ensure_neg hhead]
    rfl

/-! ### The container -/

/-- `parse` as a function of the bytes, once they hold a header. -/
theorem parse_eq (h : 0x20 ≤ bytes.length) : parse bytes = (do
    ensure (range bytes 0 4 = MAGIC) .badMagic
    ensure (wordAt bytes 0x14 = 1) .badVersion
    ensure ((wordAt bytes 0x18).toNat = bytes.length) .sizeMismatch
    ensure (0x20 + (wordAt bytes 0x1C).toNat * 4 ≤ bytes.length) (.tooManyChunks (wordAt bytes 0x1C))
    let chunks ← collect (parseChunk bytes) 0 (wordAt bytes 0x1C).toNat
    return { totalSize := (wordAt bytes 0x18).setWidth 64, chunks }) := by
  have hcount := (wordAt bytes 0x1C).isLt
  have hcount64 := toNat_setWidth_64 (wordAt bytes 0x1C)
  have hmul : ((wordAt bytes 0x1C).setWidth 64 * 4).toNat = (wordAt bytes 0x1C).toNat * 4 := by
    rw [BitVec.toNat_mul, hcount64]
    exact Nat.mod_eq_of_lt (by simp; omega)
  have hmagic : sliceAt bytes 0 4 = .ok (range bytes 0 4) :=
    sliceAt_eq (Nat.le_trans (by decide) h) (by decide)
  have hone : u32At bytes 0x14 = .ok (wordAt bytes 0x14) :=
    u32At_eq (Nat.le_trans (by decide) h) (by decide)
  have htotal : u32At bytes 0x18 = .ok (wordAt bytes 0x18) :=
    u32At_eq (Nat.le_trans (by decide) h) (by decide)
  have hcount' : u32At bytes 0x1C = .ok (wordAt bytes 0x1C) := u32At_eq h (by decide)
  have hhead : ensure (HEADER_FIXED_LEN.toNat ≤ bytes.length) DxbcError.tooShort = .ok () := ensure_pos h _
  have hmul' : (mul ((wordAt bytes 0x1C).setWidth 64) 4 : Checked DxbcError _) =
      .ok ((wordAt bytes 0x1C).setWidth 64 * 4) :=
    mul_of_lt (by rw [hcount64]; simp; omega)
  have hend : ensure (HEADER_FIXED_LEN.toNat + (wordAt bytes 0x1C).toNat * 4 < 2 ^ 64)
      (DxbcError.tooManyChunks (wordAt bytes 0x1C)) = .ok () :=
    ensure_pos (by simp [HEADER_FIXED_LEN]; omega) _
  unfold parse
  simp only [hhead, hmagic, hone, htotal, hcount', ok_bind, hmul', hmul, hend]
  rfl

theorem parse_short (h : ¬ 0x20 ≤ bytes.length) : parse bytes = fail .tooShort := by
  have hhead : ensure (HEADER_FIXED_LEN.toNat ≤ bytes.length) DxbcError.tooShort =
      fail DxbcError.tooShort := ensure_neg h _
  unfold parse
  rw [hhead]
  rfl

/-- An entry of the table that is read lies in the bytes. -/
theorem entry_le {count i : ℕ} (h : 0x20 + count * 4 ≤ bytes.length) (hi : i < count) :
    0x20 + i * 4 + 4 ≤ bytes.length := by
  omega

theorem parse_total (bytes : Bytes) : Total (parse bytes) := by
  by_cases h : 0x20 ≤ bytes.length
  · rw [parse_eq h]
    refine total_bind (total_ensure _ _) fun _ _ => ?_
    refine total_bind (total_ensure _ _) fun _ _ => ?_
    refine total_bind (total_ensure _ _) fun _ hsize => ?_
    refine total_bind (total_ensure _ _) fun _ htable => ?_
    refine total_bind (total_collect_iff.mpr fun j hj _ => ?_) fun _ _ => total_ok _
    have hlen : bytes.length < 2 ^ 32 := (ensure_eq_ok.mp hsize) ▸ (wordAt bytes 0x18).isLt
    rw [Nat.zero_add, parseChunk_eq (entry_le (ensure_eq_ok.mp htable) hj) hlen]
    split_ifs
    · exact total_ok _
    · exact total_fail _
    · exact total_fail _
  · rw [parse_short h]
    exact total_fail _

theorem parseChunk_eq_ok_iff {i : ℕ} {k : Chunk} (hi : 0x20 + i * 4 + 4 ≤ bytes.length)
    (hlen : bytes.length < 2 ^ 32) : parseChunk bytes i = .ok k ↔
      Fits bytes (tableEntry bytes i) ∧ k = chunkAt bytes (tableEntry bytes i) := by
  rw [parseChunk_eq hi hlen, Fits]
  split_ifs with hhead hpay
  · simp [hhead, hpay, eq_comm]
  · simp [hpay, fail]
  · simp [hhead, fail]

/-- What `parse` accepts, and what it returns then. -/
structure Parsed (bytes : Bytes) (c : Container) : Prop where
  header : 0x20 ≤ bytes.length
  magic : range bytes 0 4 = MAGIC
  one : wordAt bytes 0x14 = 1
  size : (wordAt bytes 0x18).toNat = bytes.length
  table : 0x20 + (wordAt bytes 0x1C).toNat * 4 ≤ bytes.length
  totalSize : c.totalSize = (wordAt bytes 0x18).setWidth 64
  count : c.chunks.length = (wordAt bytes 0x1C).toNat
  chunks : ∀ i k, c.chunks[i]? = some k →
    Fits bytes (tableEntry bytes i) ∧ k = chunkAt bytes (tableEntry bytes i)

theorem parse_eq_ok_iff {c : Container} : parse bytes = .ok c ↔ Parsed bytes c := by
  constructor
  · intro hp
    by_cases h : 0x20 ≤ bytes.length
    · rw [parse_eq h] at hp
      obtain ⟨_, hmagic, hp⟩ := bind_eq_ok.mp hp
      obtain ⟨_, hone, hp⟩ := bind_eq_ok.mp hp
      obtain ⟨_, hsize, hp⟩ := bind_eq_ok.mp hp
      obtain ⟨_, htable, hp⟩ := bind_eq_ok.mp hp
      obtain ⟨chunks, hchunks, hp⟩ := bind_eq_ok.mp hp
      obtain rfl := Except.ok.inj hp
      obtain ⟨hcount, hget⟩ := collect_eq_ok_iff.mp hchunks
      have hsize' := ensure_eq_ok.mp hsize
      have htable' := ensure_eq_ok.mp htable
      refine ⟨h, ensure_eq_ok.mp hmagic, ensure_eq_ok.mp hone, hsize', htable', rfl, hcount, ?_⟩
      intro i k hk
      have hi : i < (wordAt bytes 0x1C).toNat := hcount ▸ (List.getElem?_eq_some_iff.mp hk).1
      have hlen : bytes.length < 2 ^ 32 := hsize' ▸ (wordAt bytes 0x18).isLt
      have hok := hget i k hk
      rw [Nat.zero_add] at hok
      exact (parseChunk_eq_ok_iff (entry_le htable' hi) hlen).mp hok
    · rw [parse_short h] at hp
      cases hp
  · intro hp
    obtain ⟨h, hmagic, hone, hsize, htable, htotal, hcount, hchunks⟩ := hp
    have hlen : bytes.length < 2 ^ 32 := hsize ▸ (wordAt bytes 0x18).isLt
    have hcollect : collect (parseChunk bytes) 0 (wordAt bytes 0x1C).toNat = .ok c.chunks := by
      refine collect_eq_ok_iff.mpr ⟨hcount, fun i k hk => ?_⟩
      have hi : i < (wordAt bytes 0x1C).toNat := hcount ▸ (List.getElem?_eq_some_iff.mp hk).1
      rw [Nat.zero_add]
      exact (parseChunk_eq_ok_iff (entry_le htable hi) hlen).mpr (hchunks i k hk)
    rw [parse_eq h, ensure_pos hmagic, ok_bind, ensure_pos hone, ok_bind, ensure_pos hsize, ok_bind,
      ensure_pos htable, ok_bind, hcollect, ok_bind, ← htotal]
    rfl

/-! ### Containers laid out in order -/

theorem range_append {a b c : Bytes} {i n : ℕ} (ha : a.length = i) (hb : b.length = n) :
    range (a ++ (b ++ c)) i n = b := by
  rw [range, ← ha, List.drop_left, ← hb, List.take_left]

theorem le32_u32Bytes (n : ℕ) : le32 (u32Bytes n) = BitVec.ofNat 32 n := by
  simp only [le32, u32Bytes, List.getD_cons_zero, List.getD_cons_succ]
  generalize BitVec.ofNat 32 n = v
  refine BitVec.eq_of_getLsbD_eq fun i hi => ?_
  simp only [BitVec.getLsbD_append, BitVec.getLsbD_extractLsb']
  grind

theorem wordAt_append {a c : Bytes} {i n : ℕ} (ha : a.length = i) (hn : n < 2 ^ 32) :
    (wordAt (a ++ (u32Bytes n ++ c)) i).toNat = n := by
  have hlen : (u32Bytes n).length = 4 := rfl
  rw [wordAt, range_append ha hlen, le32_u32Bytes]
  exact Nat.mod_eq_of_lt hn

theorem length_chunkBytes (c : Fourcc × Bytes) : (chunkBytes c).length = 8 + c.2.length := by
  simp [chunkBytes, Fourcc.bytes, u32Bytes]
  omega

theorem length_flatMap_chunkBytes (cs : List (Fourcc × Bytes)) :
    (cs.flatMap chunkBytes).length = (cs.map fun c => 8 + c.2.length).sum := by
  simp only [List.length_flatMap, length_chunkBytes]

theorem length_flatMap_u32Bytes (ns : List ℕ) : (ns.flatMap u32Bytes).length = ns.length * 4 := by
  simp [List.length_flatMap, u32Bytes]

theorem length_chunkOffsets (off : ℕ) (cs : List (Fourcc × Bytes)) :
    (chunkOffsets off cs).length = cs.length := by
  induction cs generalizing off with
  | nil => rfl
  | cons c cs ih => rw [chunkOffsets, List.length_cons, ih, List.length_cons]

/-- A chunk starts where the ones before it end. -/
theorem chunkOffsets_append (off : ℕ) (pre post : List (Fourcc × Bytes)) (c : Fourcc × Bytes) :
    ∃ ns, chunkOffsets off (pre ++ c :: post) =
      chunkOffsets off pre ++ (off + (pre.flatMap chunkBytes).length) :: ns := by
  induction pre generalizing off with
  | nil => exact ⟨_, rfl⟩
  | cons c' pre ih =>
    obtain ⟨ns, hns⟩ := ih (off + (8 + c'.2.length))
    refine ⟨ns, ?_⟩
    rw [List.cons_append, chunkOffsets, hns, chunkOffsets, List.cons_append, List.flatMap_cons,
      List.length_append, length_chunkBytes, Nat.add_assoc]

section Build

variable (hash : Fin 16 → BitVec 8) (chunks : List (Fourcc × Bytes))

/-- The header up to the version. -/
def headerBytes : Bytes := MAGIC ++ List.ofFn hash

theorem length_headerBytes : (headerBytes hash).length = 0x14 := by
  simp [headerBytes, MAGIC]

/-- The table of offsets. -/
def tableBytes : Bytes := (chunkOffsets (0x20 + chunks.length * 4) chunks).flatMap u32Bytes

theorem length_tableBytes : (tableBytes chunks).length = chunks.length * 4 := by
  rw [tableBytes, length_flatMap_u32Bytes, length_chunkOffsets]

theorem buildContainer_eq : buildContainer hash chunks =
    headerBytes hash ++ (u32Bytes 1 ++ (u32Bytes (totalSize chunks) ++ (u32Bytes chunks.length ++
      (tableBytes chunks ++ chunks.flatMap chunkBytes)))) := by
  simp only [buildContainer, headerBytes, tableBytes, List.append_assoc]

/-- The container in front of the table. -/
def frontBytes : Bytes :=
  headerBytes hash ++ u32Bytes 1 ++ u32Bytes (totalSize chunks) ++ u32Bytes chunks.length

theorem length_frontBytes : (frontBytes hash chunks).length = 0x20 := by
  simp [frontBytes, length_headerBytes, u32Bytes]

theorem buildContainer_eq_front : buildContainer hash chunks =
    frontBytes hash chunks ++ (tableBytes chunks ++ chunks.flatMap chunkBytes) := by
  simp only [buildContainer_eq, frontBytes, List.append_assoc]

theorem length_buildContainer : (buildContainer hash chunks).length = totalSize chunks := by
  rw [buildContainer_eq_front, List.length_append, List.length_append, length_frontBytes,
    length_tableBytes, length_flatMap_chunkBytes, totalSize, Nat.add_assoc]

variable {chunks} (hsize : totalSize chunks < 2 ^ 32)

include hsize

theorem header_buildContainer :
    range (buildContainer hash chunks) 0 4 = MAGIC ∧
      (wordAt (buildContainer hash chunks) 0x14).toNat = 1 ∧
      (wordAt (buildContainer hash chunks) 0x18).toNat = totalSize chunks ∧
      (wordAt (buildContainer hash chunks) 0x1C).toNat = chunks.length := by
  have hcount : chunks.length < 2 ^ 32 := by
    unfold totalSize at hsize
    omega
  have hhead := length_headerBytes hash
  rw [buildContainer_eq]
  refine ⟨?_, wordAt_append hhead (by decide), ?_, ?_⟩
  · rw [headerBytes, List.append_assoc]
    have hnil : ([] : Bytes).length = 0 := rfl
    have hmagic : MAGIC.length = 4 := rfl
    exact range_append hnil hmagic
  · rw [← List.append_assoc]
    exact wordAt_append (by simp [hhead, u32Bytes]) hsize
  · rw [← List.append_assoc, ← List.append_assoc]
    exact wordAt_append (by simp [hhead, u32Bytes]) hcount

/-- The chunk after `pre` is found where the table says. -/
theorem chunk_buildContainer {pre post : List (Fourcc × Bytes)} {c : Fourcc × Bytes}
    (hsplit : chunks = pre ++ c :: post) :
    ∃ front back, buildContainer hash chunks = front ++ (chunkBytes c ++ back) ∧
      tableEntry (buildContainer hash chunks) pre.length = front.length := by
  obtain ⟨ns, hns⟩ := chunkOffsets_append (0x20 + chunks.length * 4) pre post c
  rw [← hsplit] at hns
  have hbuild := buildContainer_eq_front hash chunks
  have hfront := length_frontBytes hash chunks
  have htable := length_tableBytes chunks
  have hbody : chunks.flatMap chunkBytes =
      pre.flatMap chunkBytes ++ (chunkBytes c ++ post.flatMap chunkBytes) := by
    rw [hsplit, List.flatMap_append, List.flatMap_cons]
  refine ⟨frontBytes hash chunks ++ (tableBytes chunks ++ pre.flatMap chunkBytes),
    post.flatMap chunkBytes, ?_, ?_⟩
  · rw [hbuild, hbody]
    simp only [List.append_assoc]
  · have hoff : 0x20 + chunks.length * 4 + (pre.flatMap chunkBytes).length < 2 ^ 32 := by
      have hle := congrArg List.length hbody
      rw [length_flatMap_chunkBytes, List.length_append] at hle
      unfold totalSize at hsize
      omega
    have hentry : tableBytes chunks = (chunkOffsets (0x20 + chunks.length * 4) pre).flatMap u32Bytes ++
        (u32Bytes (0x20 + chunks.length * 4 + (pre.flatMap chunkBytes).length) ++
          ns.flatMap u32Bytes) := by
      rw [tableBytes, hns, List.flatMap_append, List.flatMap_cons]
    rw [tableEntry, hbuild, hentry]
    rw [List.append_assoc, ← List.append_assoc (frontBytes hash chunks), List.append_assoc (u32Bytes _),
      wordAt_append _ hoff]
    · rw [List.length_append, List.length_append, hfront, ← hentry, htable, Nat.add_assoc]
    · rw [List.length_append, hfront, length_flatMap_u32Bytes, length_chunkOffsets]

end Build

/-- A chunk is read back from where it stands. -/
theorem chunkAt_append {front back : Bytes} {c : Fourcc × Bytes}
    (hbytes : bytes = front ++ (chunkBytes c ++ back)) (hlen : bytes.length < 2 ^ 32) :
    Fits bytes front.length ∧ (chunkAt bytes front.length).fourcc = c.1 ∧
      (chunkAt bytes front.length).payload bytes = .ok c.2 := by
  obtain ⟨f, p⟩ := c
  have hlen' := congrArg List.length hbytes
  simp only [List.length_append, length_chunkBytes] at hlen'
  have hfour : range bytes front.length 4 = Fourcc.bytes f := by
    rw [hbytes, chunkBytes, List.append_assoc, List.append_assoc]
    have hf : (Fourcc.bytes f).length = 4 := rfl
    exact range_append rfl hf
  have hsize : (wordAt bytes (front.length + 4)).toNat = p.length := by
    rw [hbytes, chunkBytes, List.append_assoc, List.append_assoc, ← List.append_assoc front]
    have hp : p.length < 2 ^ 32 := by omega
    exact wordAt_append (by simp [Fourcc.bytes]) hp
  have hpay : range bytes (front.length + 8) p.length = p := by
    rw [hbytes, chunkBytes, List.append_assoc, ← List.append_assoc front]
    exact range_append (by simp [Fourcc.bytes, u32Bytes]) rfl
  refine ⟨⟨by omega, by omega⟩, by rw [chunkAt, hfour]; rfl, ?_⟩
  have hoff : (BitVec.ofNat 64 (front.length + 8)).toNat = front.length + 8 :=
    Nat.mod_eq_of_lt (by omega)
  have hsize64 := toNat_setWidth_64 (wordAt bytes (front.length + 4))
  unfold Chunk.payload chunkAt
  rw [sliceAt_eq (by rw [hoff, hsize64, hsize]; omega) (by rw [hoff, hsize64, hsize]; omega), hoff,
    hsize64, hsize, hpay]

/-- What a container that is laid out in order is parsed to. -/
theorem parse_build (hash : Fin 16 → BitVec 8) {chunks : List (Fourcc × Bytes)}
    (hsize : totalSize chunks < 2 ^ 32) :
    ∃ c, parse (buildContainer hash chunks) = .ok c ∧
      c.chunks.map (fun k => (k.fourcc, k.payload (buildContainer hash chunks))) =
        chunks.map fun p => (p.1, .ok p.2) := by
  obtain ⟨hmagic, hone, htotal, hcount⟩ := header_buildContainer hash hsize
  have hlength := length_buildContainer hash chunks
  generalize hb : buildContainer hash chunks = bytes at *
  have hlen : bytes.length < 2 ^ 32 := by omega
  have hchunk : ∀ i p, chunks[i]? = some p → Fits bytes (tableEntry bytes i) ∧
      (chunkAt bytes (tableEntry bytes i)).fourcc = p.1 ∧
      (chunkAt bytes (tableEntry bytes i)).payload bytes = .ok p.2 := by
    intro i p hp
    obtain ⟨hi, hget⟩ := List.getElem?_eq_some_iff.mp hp
    have hsplit : chunks = chunks.take i ++ p :: chunks.drop (i + 1) := by
      rw [← hget, List.getElem_cons_drop, List.take_append_drop]
    obtain ⟨front, back, hbytes, hentry⟩ := chunk_buildContainer hash hsize hsplit
    rw [hb] at hbytes hentry
    rw [List.length_take, Nat.min_eq_left (Nat.le_of_lt hi)] at hentry
    rw [hentry]
    exact chunkAt_append hbytes hlen
  have hparsed : Parsed bytes
      ⟨(wordAt bytes 0x18).setWidth 64,
        (List.range chunks.length).map fun i => chunkAt bytes (tableEntry bytes i)⟩ := by
    refine ⟨?_, hmagic, BitVec.eq_of_toNat_eq hone, ?_, ?_, rfl, ?_, ?_⟩
    · rw [hlength, totalSize]
      omega
    · rw [htotal, hlength]
    · rw [hcount, hlength, totalSize]
      omega
    · rw [List.length_map, List.length_range, hcount]
    · intro i k hk
      rw [List.getElem?_map, Option.map_eq_some_iff] at hk
      obtain ⟨j, hj, rfl⟩ := hk
      obtain ⟨hi, rfl⟩ := List.getElem?_eq_some_iff.mp hj
      rw [List.getElem_range]
      rw [List.length_range] at hi
      exact ⟨(hchunk i chunks[i] (List.getElem?_eq_getElem hi)).1, rfl⟩
  refine ⟨_, parse_eq_ok_iff.mpr hparsed, List.ext_getElem (by simp) fun i hi hi' => ?_⟩
  rw [List.length_map] at hi'
  obtain ⟨-, hfourcc, hpayload⟩ := hchunk i chunks[i] (List.getElem?_eq_getElem hi')
  simp only [List.getElem_map, List.getElem_range, hfourcc, hpayload]

/-- **DXBC containers.**  `parse` does not panic on any bytes.  The chunks it returns are those of the
table in its order, each with the fourcc and the size that stand at its offset, and each with its
payload in the bytes.  A container that is laid out as header, table and chunks in order is parsed to
its chunks. -/
theorem dxbc_container :
    (∀ bytes, Total (parse bytes)) ∧
    (∀ bytes c, parse bytes = .ok c →
      c.chunks.length = (wordAt bytes 0x1C).toNat ∧
      ∀ i k, c.chunks[i]? = some k →
        k.fourcc = Fourcc.ofBytes (range bytes (tableEntry bytes i) 4) ∧
        k.payloadSize.toNat = (wordAt bytes (tableEntry bytes i + 4)).toNat ∧
        k.payloadOffset.toNat = tableEntry bytes i + 8 ∧
        k.payloadOffset.toNat + k.payloadSize.toNat ≤ bytes.length ∧
        k.payload bytes = .ok (range bytes k.payloadOffset.toNat k.payloadSize.toNat)) ∧
    (∀ hash chunks, totalSize chunks < 2 ^ 32 →
      ∃ c, parse (buildContainer hash chunks) = .ok c ∧
        c.chunks.map (fun k => (k.fourcc, k.payload (buildContainer hash chunks))) =
          chunks.map fun p => (p.1, .ok p.2)) := by
  refine ⟨parse_total, fun bytes c hp => ?_, fun hash chunks hsize => parse_build hash hsize⟩
  have hparsed := parse_eq_ok_iff.mp hp
  refine ⟨hparsed.count, fun i k hk => ?_⟩
  obtain ⟨⟨-, hend⟩, rfl⟩ := hparsed.chunks i k hk
  have hlen : bytes.length < 2 ^ 32 := hparsed.size ▸ (wordAt bytes 0x18).isLt
  have hoff : (chunkAt bytes (tableEntry bytes i)).payloadOffset.toNat = tableEntry bytes i + 8 :=
    Nat.mod_eq_of_lt (by omega)
  have hsize : (chunkAt bytes (tableEntry bytes i)).payloadSize.toNat =
      (wordAt bytes (tableEntry bytes i + 4)).toNat := toNat_setWidth_64 _
  refine ⟨rfl, hsize, hoff, by omega, ?_⟩
  exact sliceAt_eq (by omega) (by omega)

/-- Two chunks, the second without a payload. -/
theorem dxbc_container_two_chunks :
    ∃ c, parse (buildContainer (fun _ => 0)
        [((0x53, 0x48, 0x45, 0x58), [1, 2, 3]), ((0x53, 0x54, 0x41, 0x54), [])]) = .ok c ∧
      c.chunks.map (·.fourcc) = [(0x53, 0x48, 0x45, 0x58), (0x53, 0x54, 0x41, 0x54)] := by
  obtain ⟨c, hparse, hchunks⟩ := dxbc_container.2.2 (fun _ => 0)
    [((0x53, 0x48, 0x45, 0x58), [1, 2, 3]), ((0x53, 0x54, 0x41, 0x54), [])] (by decide)
  refine ⟨c, hparse, ?_⟩
  have hfst := congrArg (List.map Prod.fst) hchunks
  rw [List.map_map] at hfst
  exact hfst

end Quantum.Kernel32.Dxbc
