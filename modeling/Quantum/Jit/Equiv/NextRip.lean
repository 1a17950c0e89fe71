import Quantum.Jit.Block
import Quantum.Jit.Equiv.DecodeLength

/-!
# The address after an instruction

The decoder stores the length of an instruction in a byte, and everything that needs the address of the
byte after it adds that length to the instruction's own address: RIP-relative operands, the targets of
`JMP`, `Jcc` and `CALL`, the return address of `CALL` and the fall-through of `Jcc`
(`RefersTo`).  The prefix loop has no bound, so an instruction may have more bytes than that.

`next_rip_iff`: the address is that of the decoder after the call if and only if the instruction has
fewer than 256 bytes.
-/

namespace Quantum.Jit

open DecodeM EmitM

/-- The bytes are those of exactly one instruction. -/
def IsInstruction (longMode : Bool) (enc : List Byte) : Prop :=
  ∃ f, decodeOpcode longMode enc = .ok (f, [])

/-- Whatever the lifter and the block translator compute from the length of `inst` refers to `next`. -/
structure RefersTo (inst : Inst) (next : BitVec 64) : Prop where
  nextRip : inst.nextRip = next
  ripRel (disp : BitVec 32) : ripRelTarget inst disp = next + disp.signExtend 64
  /-- The target of `JMP`. -/
  jmp {rel : BitVec 64} {size : OpSize} (hop : inst.op = .jmp) (hrel : inst.operand0 = some (.imm rel size)) :
    emitTerminator inst = do
      let patch ← emitChainExit (next + rel)
      pure [patch]
  /-- The fall-through and the target of `Jcc`. -/
  jcc {cond : Cond} {rel : BitVec 64} {size : OpSize} (hop : inst.op = .jcc cond)
    (hrel : inst.operand0 = some (.imm rel size)) :
    emitTerminator inst = do
      let c ← EmitM.okOr (condX86ToA64 cond) .unsupportedCondition
      let takenLabel ← makeLabel
      bCond c takenLabel
      let fallthrough ← emitChainExit next
      bindLabel takenLabel
      let taken ← emitChainExit (next + rel)
      pure [fallthrough, taken]
  /-- The return address and the target of `CALL`. -/
  call {rel : BitVec 64} {size : OpSize} (hop : inst.op = .call)
    (hrel : inst.operand0 = some (.imm rel size)) :
    emitTerminator inst = do
      sub64Imm 19 19 8
      loadConst64 16 next
      str64 16 19 0
      emitEpilogueConstRip (next + rel)
      pure []
  /-- The target of a branch in standalone code. -/
  standaloneJmp (labels : List (BitVec 64 × Label)) {rel : BitVec 64} {size : OpSize}
    (hop : inst.op = .jmp) (hrel : inst.operand0 = some (.imm rel size)) :
    emitStandaloneInst labels inst = do
      let target ← EmitM.okOr (findLabel labels (next + rel)) (.targetOutOfBlock inst.guestRip (next + rel))
      b target
  standaloneJcc (labels : List (BitVec 64 × Label)) {cond : Cond} {rel : BitVec 64} {size : OpSize}
    (hop : inst.op = .jcc cond) (hrel : inst.operand0 = some (.imm rel size)) :
    emitStandaloneInst labels inst = do
      let target ← EmitM.okOr (findLabel labels (next + rel)) (.targetOutOfBlock inst.guestRip (next + rel))
      let c ← EmitM.okOr (condX86ToA64 cond) .unsupportedCondition
      bCond c target

theorem branchRel_imm {inst : Inst} {rel : BitVec 64} {size : OpSize}
    (hrel : inst.operand0 = some (.imm rel size)) : branchRel inst = pure rel := by
  unfold branchRel
  rw [hrel]

/-- Every consumer goes through the address after the instruction. -/
theorem refersTo_nextRip (inst : Inst) : RefersTo inst inst.nextRip where
  nextRip := rfl
  ripRel _ := rfl
  jmp hop hrel := by
    unfold emitTerminator
    rw [hop, branchRel_imm hrel]
    rfl
  jcc hop hrel := by
    unfold emitTerminator
    rw [hop, branchRel_imm hrel]
    rfl
  call hop hrel := by
    unfold emitTerminator
    rw [hop, branchRel_imm hrel]
    rfl
  standaloneJmp labels _ _ hop hrel := by
    unfold emitStandaloneInst
    rw [hop, branchRel_imm hrel]
    rfl
  standaloneJcc labels _ _ _ hop hrel := by
    unfold emitStandaloneInst
    rw [hop, branchRel_imm hrel]
    rfl

theorem refersTo_iff {inst : Inst} {next : BitVec 64} : RefersTo inst next ↔ inst.nextRip = next := by
  constructor
  · exact RefersTo.nextRip
  · rintro rfl
    exact refersTo_nextRip inst

/-! ### The length -/

theorem setWidth_ofNat_eq_iff {n : Nat} (hn : n < 2 ^ 64) :
    (BitVec.ofNat 8 n).setWidth 64 = BitVec.ofNat 64 n ↔ n < 256 := by
  rw [← BitVec.toNat_inj, BitVec.toNat_setWidth, BitVec.toNat_ofNat, BitVec.toNat_ofNat]
  omega

theorem Decoder.next_ok {d d' : Decoder} {inst : Inst} (h : d.next = .ok (inst, d')) :
    ∃ rest, decodeNext d.longMode d.rip d.left = .ok (inst, rest) ∧
      d'.guestRip = d.guestRip ∧ d'.pos = d.bytes.length - rest.length := by
  unfold Decoder.next at h
  cases hdec : decodeNext d.longMode d.rip d.left with
  | error x =>
    rw [hdec] at h
    cases h
  | ok r =>
    rw [hdec] at h
    obtain ⟨rfl, rfl⟩ := Prod.mk.inj (Except.ok.inj h)
    exact ⟨r.2, rfl, rfl, rfl⟩

/-- The first call. -/
theorem Decoder.new_next {bytes rest : List Byte} (rip : BitVec 64) {f : Form}
    (hlt : bytes.length < 2 ^ 63) (h : decodeOpcode true bytes = .ok (f, rest)) :
    ∃ d', (Decoder.new bytes rip hlt).next = .ok (f.toInst (bytes.length - rest.length) rip, d') ∧
      d'.rip = rip + BitVec.ofNat 64 (bytes.length - rest.length) := by
  have hrip : (Decoder.new bytes rip hlt).rip = rip := BitVec.add_zero rip
  have hdec : decodeNext (Decoder.new bytes rip hlt).longMode (Decoder.new bytes rip hlt).rip
      (Decoder.new bytes rip hlt).left = .ok (f.toInst (bytes.length - rest.length) rip, rest) := by
    rw [hrip]
    exact decodeNext_eq_ok h
  unfold Decoder.next
  rw [hdec]
  exact ⟨_, rfl, rfl⟩

/-- The instruction at the position is found by any of its beginnings that is an instruction. -/
theorem isInstruction_iff {longMode : Bool} {bs rest : List Byte} {f : Form}
    (h : decodeOpcode longMode bs = .ok (f, rest)) (n : Nat) :
    (∃ enc, enc <+: bs ∧ enc.length < n ∧ IsInstruction longMode enc) ↔ bs.length - rest.length < n := by
  constructor
  · rintro ⟨enc, ⟨tail, rfl⟩, hlt, g, hg⟩
    obtain ⟨used, hused, hr⟩ := (isLocal_decodeOpcode longMode).reads hg
    rw [List.append_nil] at hused
    subst hused
    rw [hr.result tail] at h
    obtain ⟨rfl, rfl⟩ := Prod.mk.inj (Except.ok.inj h)
    rw [List.length_append]
    omega
  · intro hlt
    obtain ⟨used, rfl, hr⟩ := (isLocal_decodeOpcode longMode).reads h
    refine ⟨used, List.prefix_append used rest, ?_, f, ?_⟩
    · rw [List.length_append] at hlt
      omega
    · have hres := hr.result []
      rwa [List.append_nil] at hres

/-- **Length bookkeeping**: after a call of `next` the instruction's address is that of the decoder before
the call, and everything computed from its length refers to the decoder's address after the call, if and
only if the instruction, prefixes included, has fewer than 256 bytes. -/
theorem next_rip_iff (d d' : Decoder) (inst : Inst) (h : d.next = .ok (inst, d')) :
    (inst.guestRip = d.rip ∧ RefersTo inst d'.rip) ↔
      ∃ enc, enc <+: d.left ∧ enc.length < 256 ∧ IsInstruction d.longMode enc := by
  obtain ⟨rest, hdec, hrip, hpos⟩ := Decoder.next_ok h
  obtain ⟨f, hf, rfl⟩ := decodeNext_ok hdec
  obtain ⟨used, hused, -⟩ := (isLocal_decodeOpcode d.longMode).reads hf
  have hlen : d.bytes.length - d.pos = used.length + rest.length := by
    rw [← List.length_append, ← hused, Decoder.left, List.length_drop]
  have hle := d.pos_le
  have hlt := d.bytes_lt
  have hn : d.left.length - rest.length = used.length := by
    rw [hused, List.length_append, Nat.add_sub_cancel]
  have hpos' : d'.pos = d.pos + used.length := by
    omega
  have hafter : d'.rip = d.rip + BitVec.ofNat 64 used.length := by
    unfold Decoder.rip
    rw [hrip, hpos', BitVec.ofNat_add, BitVec.add_assoc]
  have hnext : (f.toInst used.length d.rip).nextRip = d.rip + (BitVec.ofNat 8 used.length).setWidth 64 := rfl
  rw [isInstruction_iff hf, hn, refersTo_iff, hafter, hnext, BitVec.add_right_inj,
    setWidth_ofNat_eq_iff (by omega)]
  exact and_iff_right rfl

/-- `MOV RAX, [RIP + 16]`: the address after its seven bytes. -/
theorem next_rip_iff_mov :
    ∃ inst d', (Decoder.new [0x48, 0x8B, 0x05, 0x10, 0, 0, 0, 0xC3] 0x1000 (by decide)).next
        = .ok (inst, d') ∧ d'.rip = 0x1007 ∧ RefersTo inst d'.rip := by
  obtain ⟨inst, d', hnext, hrip⟩ : ∃ inst d',
      (Decoder.new [0x48, 0x8B, 0x05, 0x10, 0, 0, 0, 0xC3] 0x1000 (by decide)).next = .ok (inst, d') ∧
        d'.rip = 0x1007 := ⟨_, _, rfl, rfl⟩
  have henc : IsInstruction true [0x48, 0x8B, 0x05, 0x10, 0, 0, 0] := ⟨_, rfl⟩
  refine ⟨inst, d', hnext, hrip, ?_⟩
  exact ((next_rip_iff _ d' inst hnext).mpr ⟨_, ⟨[0xC3], rfl⟩, by decide, henc⟩).2

/-- A run of CS prefixes is skipped. -/
theorem readPrefixes_replicate (longMode : Bool) (n : Nat) (p : Prefixes) (code : List Byte) :
    readPrefixes longMode p (List.replicate n 0x2E ++ code) = readPrefixes longMode p code := by
  induction n with
  | zero => rfl
  | succ n ih => exact ih

theorem decodeOpcode_replicate (longMode : Bool) (n : Nat) (code : List Byte) :
    decodeOpcode longMode (List.replicate n 0x2E ++ code) = decodeOpcode longMode code := by
  unfold decodeOpcode
  rw [DecodeM.bind_eq]
  unfold Parser.bind
  rw [readPrefixes_replicate]

theorem length_replicate_append (n : Nat) (b : Byte) (code : List Byte) :
    (List.replicate n b ++ code).length = n + code.length := by
  rw [List.length_append, List.length_replicate]

/-- `JMP +0` behind 254 CS prefixes has 256 bytes and a length of 0: it jumps to itself. -/
theorem prefixed_jmp_to_itself :
    ∃ inst d', (Decoder.new (List.replicate 254 0x2E ++ [0xEB, 0x00]) 0x1000
        (by rw [length_replicate_append]; decide)).next = .ok (inst, d') ∧
      inst.op = .jmp ∧ inst.operand0 = some (.imm 0 .b1) ∧ inst.nextRip = 0x1000 ∧
      d'.rip = 0x1100 ∧ ¬ RefersTo inst d'.rip := by
  have hdec : decodeOpcode true (List.replicate 254 0x2E ++ [0xEB, 0x00])
      = .ok (⟨.jmp, some (.imm 0 .b1), none, none⟩, []) := by
    rw [decodeOpcode_replicate]
    rfl
  have hlen : (List.replicate 254 (0x2E : Byte) ++ [0xEB, 0x00]).length - ([] : List Byte).length = 256 := by
    rw [length_replicate_append]
    rfl
  obtain ⟨d', hnext, hrip⟩ := Decoder.new_next 0x1000
    (by rw [length_replicate_append]; decide) hdec
  rw [hlen] at hnext hrip
  refine ⟨_, d', hnext, rfl, rfl, rfl, hrip, ?_⟩
  rw [refersTo_iff, hrip]
  decide

end Quantum.Jit
