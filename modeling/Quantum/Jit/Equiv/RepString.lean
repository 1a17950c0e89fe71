import Quantum.Jit.Decoder
import Quantum.Jit.Lifter
import Quantum.Jit.Equiv.Address

/-!
# String instructions

`REP MOVS` and `REP STOS` become a host loop with one exit branch and one branch back.  The loop ends
from every state, and it leaves memory as the elements copied or stored one after the other upwards do,
also when source and destination overlap (`string_right`).
-/

namespace Quantum.Jit

open A64 StateTransition
open ByteMem (read write)

/-! ### The instructions -/

/-- What a string instruction moves along. -/
structure StringState where
  rsi : BitVec 64
  rdi : BitVec 64
  mem : ByteMem

/-- One element upwards: `STOS` stores the accumulator, `MOVS` copies. -/
def StringState.element (isStos : Bool) (size : OpSize) (rax : BitVec 64) (t : StringState) :
    StringState :=
  if isStos then
    { t with
      rdi := t.rdi + BitVec.ofNat 64 size.bytes
      mem := t.mem.write size.bytes t.rdi rax }
  else
    { rsi := t.rsi + BitVec.ofNat 64 size.bytes
      rdi := t.rdi + BitVec.ofNat 64 size.bytes
      mem := t.mem.write size.bytes t.rdi (t.mem.read 64 size.bytes t.rsi) }

theorem StringState.iterate_rdi (isStos : Bool) (size : OpSize) (rax : BitVec 64) (n : Nat)
    (t : StringState) :
    ((element isStos size rax)^[n] t).rdi = t.rdi + BitVec.ofNat 64 (n * size.bytes) := by
  induction n generalizing t with
  | zero => simp
  | succ n ih =>
    have hone : (element isStos size rax t).rdi = t.rdi + BitVec.ofNat 64 size.bytes := by
      cases isStos <;> rfl
    rw [Function.iterate_succ_apply, ih, hone, BitVec.add_assoc, ← BitVec.ofNat_add,
      Nat.succ_mul, Nat.add_comm]

theorem StringState.iterate_rsi (isStos : Bool) (size : OpSize) (rax : BitVec 64) (n : Nat)
    (t : StringState) :
    ((element isStos size rax)^[n] t).rsi
      = if isStos then t.rsi else t.rsi + BitVec.ofNat 64 (n * size.bytes) := by
  induction n generalizing t with
  | zero => simp
  | succ n ih =>
    rw [Function.iterate_succ_apply, ih]
    cases isStos with
    | true => rfl
    | false =>
      have hone : (element false size rax t).rsi = t.rsi + BitVec.ofNat 64 size.bytes := rfl
      simp only [Bool.false_eq_true, if_false]
      rw [hone, BitVec.add_assoc, ← BitVec.ofNat_add, Nat.succ_mul, Nat.add_comm]

/-- Is the instruction repeated? -/
def Inst.repeats (inst : Inst) : Bool :=
  match inst.operand1 with
  | some (.imm r _) => r == 1
  | _ => false

/-- The operation of a string instruction. -/
def stringOp (isStos : Bool) : Op := if isStos then .stos else .movs

/-- The end of a string instruction from the state `s`: so many elements, one after the other. -/
structure StringRight (isStos rep : Bool) (size : OpSize) (s r : State) : Prop where
  mem : r.mem = ((StringState.element isStos size (guest s .rax))^[if rep then (guest s .rcx).toNat else 1]
    ⟨guest s .rsi, guest s .rdi, s.mem⟩).mem
  rdi : guest r .rdi = guest s .rdi +
    BitVec.ofNat 64 ((if rep then (guest s .rcx).toNat else 1) * size.bytes)
  rsi : guest r .rsi = if isStos then guest s .rsi else guest s .rsi +
    BitVec.ofNat 64 ((if rep then (guest s .rcx).toNat else 1) * size.bytes)
  rcx : guest r .rcx = if rep then 0 else guest s .rcx
  others : ∀ g, g ≠ .rcx → g ≠ .rsi → g ≠ .rdi → guest r g = guest s g
  flags : r.nzcv = s.nzcv

/-! ### The code -/

/-- The instructions for one element. -/
def elementInsns (isStos : Bool) (size : OpSize) : List (Option Insn) :=
  (if isStos then [some (storeInsn size 0 7 0)]
    else [some (loadInsn size 16 6 0), some (storeInsn size 16 7 0),
      some (.addSubImm false false false (BitVec.ofNat 12 size.bytes) 6 6)]) ++
  [some (.addSubImm false false false (BitVec.ofNat 12 size.bytes) 7 7)]

/-- The loop over the elements: out when `RCX` is zero, and back after each. -/
def loopInsns (isStos : Bool) (size : OpSize) : List (Option Insn) :=
  some (.cbz false (BitVec.ofNat 19 ((elementInsns isStos size).length + 3)) 1) ::
    (elementInsns isStos size ++
      [some (.addSubImm true false false 1 1 1),
        some (.b false (-BitVec.ofNat 26 ((elementInsns isStos size).length + 2)))])

theorem compile_emitRepLoop (p : Profile) (isStos rep : Bool) (size : OpSize) :
    ∃ ws, compile p (emitRepLoop (BitVec.ofNat 32 size.bytes) rep isStos) = some ws ∧
      ws.map decode = if rep then loopInsns isStos size else elementInsns isStos size := by
  obtain ⟨debug⟩ := p
  cases debug <;> cases isStos <;> cases rep <;> cases size <;> exact ⟨_, rfl, by decide⟩

/-! ### One element -/

/-- The registers of a host state that a string instruction moves along, and its memory. -/
def stringState (s : State) : StringState := ⟨guest s .rsi, guest s .rdi, s.mem⟩

/-- What the code leaves alone: everything but `RSI`, `RDI`, memory and `X16`. -/
structure SameBut (s r : State) : Prop where
  x : ∀ q, q ≠ 6#5 → q ≠ 7#5 → q ≠ 16#5 → r.x q = s.x q
  nzcv : r.nzcv = s.nzcv

theorem SameBut.trans {s s₁ r : State} (h₁ : SameBut s s₁) (h₂ : SameBut s₁ r) : SameBut s r where
  x q h6 h7 h16 := (h₂.x q h6 h7 h16).trans (h₁.x q h6 h7 h16)
  nzcv := h₂.nzcv.trans h₁.nzcv

theorem SameBut.guest {s r : State} (h : SameBut s r) {g : GpReg} (hsi : g ≠ .rsi) (hdi : g ≠ .rdi) :
    guest r g = guest s g := by
  apply h.x
  · exact fun heq => hsi (hostReg_injective (heq : hostReg g = hostReg .rsi))
  · exact fun heq => hdi (hostReg_injective (heq : hostReg g = hostReg .rdi))
  · cases g <;> decide

theorem immValue_bytes (size : OpSize) :
    immValue false (BitVec.ofNat 12 size.bytes) = (BitVec.ofNat 32 size.bytes).setWidth 64 := by
  cases size <;> decide

theorem setWidth_bytes (size : OpSize) :
    (BitVec.ofNat 32 size.bytes).setWidth 64 = BitVec.ofNat 64 size.bytes := by
  cases size <;> decide

theorem runSeq_elementInsns (env : Env) (pc : Nat) (isStos : Bool) (size : OpSize) (s : State) :
    ∃ r, runSeq env pc (elementInsns isStos size) s = some r ∧
      stringState r = (stringState s).element isStos size (guest s .rax) ∧ SameBut s r := by
  have hv := immValue_bytes size
  have hfit := fits_zero size
  have hbytes := setWidth_bytes size
  cases isStos with
  | true =>
    rw [elementInsns, if_pos rfl, List.singleton_append, runSeq_storeInsn hfit,
      runSeq_add64Imm hv, runSeq_nil]
    refine ⟨_, rfl, ?_, ?_⟩
    · simp [stringState, StringState.element, guest, hostReg, hbytes, State.readX]
    · constructor
      · intro q h6 h7 h16
        simp [h7]
      · rfl
  | false =>
    rw [elementInsns, if_neg (by decide), List.cons_append, List.cons_append, List.cons_append,
      List.nil_append, runSeq_loadInsn hfit, runSeq_storeInsn hfit, runSeq_add64Imm hv,
      runSeq_add64Imm hv, runSeq_nil]
    refine ⟨_, rfl, ?_, ?_⟩
    · simp [stringState, StringState.element, guest, hostReg, hbytes, State.readX]
    · constructor
      · intro q h6 h7 h16
        simp [h6, h7, h16]
      · simp

/-! ### The loop -/

theorem length_elementInsns (isStos : Bool) (size : OpSize) :
    (elementInsns isStos size).length = if isStos then 2 else 4 := by
  cases isStos <;> rfl

/-- From the top with `RCX` zero, the loop ends at once. -/
theorem step_loop_exit {env : Env} {ws : List Word} {isStos : Bool} {size : OpSize} {s : State}
    (hws : ws.map decode = loopInsns isStos size) (h0 : s.x 1#5 = 0) :
    step env ws (.at 0 s) = some (.at ws.length s) := by
  have hlen : ws.length = (elementInsns isStos size).length + 3 := by
    rw [← List.length_map (f := decode), hws, loopInsns]
    simp
  have hget : (ws[0]?).map decode
      = some (some (.cbz false (BitVec.ofNat 19 ((elementInsns isStos size).length + 3)) 1)) := by
    rw [← List.getElem?_map, hws]
    rfl
  rw [step_of_some hget, hlen]
  have hread : s.readX 1 = 0 := h0
  have htgt : (BitVec.ofNat 19 ((elementInsns isStos size).length + 3)).toInt
      = (((elementInsns isStos size).length + 3 : Nat) : Int) := by
    rw [length_elementInsns]
    cases isStos <;> decide
  simp only [execAt, hread, bne_self_eq_false, if_true, htgt, branchTo, Nat.cast_zero, zero_add]
  rw [if_pos (Int.natCast_nonneg _), Int.toNat_natCast]

theorem execOne_sub_one (env : Env) (pc : Nat) (s : State) :
    execOne env pc (.addSubImm true false false 1 1 1) s
      = some (s.writeXsp 1 (s.x 1 - 1)) := by
  show some (s.writeXsp 1 (addc (s.x 1) (~~~immValue false 1) true)) = _
  rw [addc_not_true]
  rfl

/-- One round of the loop. -/
theorem reaches_loop_round (env : Env) {ws : List Word} {isStos : Bool} {size : OpSize} {s : State}
    (hws : ws.map decode = loopInsns isStos size) (h0 : s.x 1#5 ≠ 0) :
    ∃ r, Reaches (step env ws) (.at 0 s) (.at 0 r) ∧
      stringState r = (stringState s).element isStos size (guest s .rax) ∧
      r.x 1#5 = s.x 1#5 - 1 ∧
      (∀ q, q ≠ 1#5 → q ≠ 6#5 → q ≠ 7#5 → q ≠ 16#5 → r.x q = s.x q) ∧ r.nzcv = s.nzcv := by
  have hcode : CodeAt ws 0 (loopInsns isStos size) := ⟨[], ws, [], by simp, rfl, hws⟩
  obtain ⟨hcbz, hbody⟩ := hcode.cons
  obtain ⟨helem, htail⟩ := hbody.append
  obtain ⟨hsub, hlast⟩ := htail.cons
  obtain ⟨hback, -⟩ := hlast.cons
  obtain ⟨s₁, hrun, hstate, hsame⟩ := runSeq_elementInsns env (0 + 1) isStos size s
  have hread : (s.readX 1 != 0) = true := bne_iff_ne.mpr h0
  -- The exit branch falls through.
  have hfirst : step env ws (.at 0 s) = some (.at (0 + 1) s) := by
    rw [step_of_some hcbz]
    simp only [execAt, hread, Bool.true_eq_false, if_false]
    rfl
  have hx1 : s₁.x 1#5 = s.x 1#5 := hsame.x 1#5 (by decide) (by decide) (by decide)
  have hcount : step env ws (.at (0 + 1 + (elementInsns isStos size).length) s₁)
      = some (.at (0 + 1 + (elementInsns isStos size).length + 1)
        (s₁.writeXsp 1#5 (s.x 1#5 - 1))) := by
    rw [step_of_some hsub, execAt_of_isLinear rfl, execOne_sub_one, Option.map_some, ← hx1]
    rfl
  have hjump : step env ws (.at (0 + 1 + (elementInsns isStos size).length + 1)
      (s₁.writeXsp 1#5 (s.x 1#5 - 1))) = some (.at 0 (s₁.writeXsp 1#5 (s.x 1#5 - 1))) := by
    rw [step_of_some hback, length_elementInsns]
    cases isStos <;> rfl
  have helement : Reaches (step env ws) (.at 0 s)
      (.at (0 + 1 + (elementInsns isStos size).length) s₁) :=
    .head hfirst (reaches_of_runSeq helem hrun)
  refine ⟨s₁.writeXsp 1#5 (s.x 1#5 - 1), (helement.tail hcount).tail hjump, ?_, ?_, ?_, hsame.nzcv⟩
  · rw [← hstate]
    simp [stringState, guest, hostReg]
  · simp
  · intro q h1 h6 h7 h16
    rw [State.x_writeXsp, if_neg h1]
    exact hsame.x q h6 h7 h16

/-- The whole loop, by induction on `RCX`. -/
theorem exec_loop {env : Env} {ws : List Word} {isStos : Bool} {size : OpSize}
    (hws : ws.map decode = loopInsns isStos size) (n : Nat) (s : State) (hn : (s.x 1#5).toNat = n) :
    ∃ r, Exec env ws s r ∧
      stringState r = (StringState.element isStos size (guest s .rax))^[n] (stringState s) ∧
      r.x 1#5 = 0 ∧
      (∀ q, q ≠ 1#5 → q ≠ 6#5 → q ≠ 7#5 → q ≠ 16#5 → r.x q = s.x q) ∧ r.nzcv = s.nzcv := by
  induction n generalizing s with
  | zero =>
    have h0 : s.x 1#5 = 0 := BitVec.eq_of_toNat_eq hn
    exact ⟨s, .single (step_loop_exit hws h0), rfl, h0, fun _ _ _ _ _ => rfl, rfl⟩
  | succ n ih =>
    have h0 : s.x 1#5 ≠ 0 := by
      intro h
      rw [h] at hn
      cases hn
    obtain ⟨s₁, hround, hstate, hcount, hx, hf⟩ := reaches_loop_round env hws h0
    have hn₁ : (s₁.x 1#5).toNat = n := by
      have hle : (1 : BitVec 64) ≤ s.x 1#5 := by
        rw [BitVec.le_def, hn]
        exact Nat.succ_le_succ (Nat.zero_le n)
      rw [hcount, BitVec.toNat_sub_of_le hle, hn]
      rfl
    obtain ⟨r, hrun, hstate', hzero, hx', hf'⟩ := ih s₁ hn₁
    have hrax : guest s₁ .rax = guest s .rax :=
      hx 0#5 (by decide) (by decide) (by decide) (by decide)
    refine ⟨r, hround.trans hrun, ?_, hzero, ?_, hf'.trans hf⟩
    · rw [hstate', hstate, hrax, Function.iterate_succ_apply]
    · intro q h1 h6 h7 h16
      rw [hx' q h1 h6 h7 h16, hx q h1 h6 h7 h16]

theorem stringRight_of {isStos rep : Bool} {size : OpSize} {s r : State} {n : Nat}
    (hcount : n = if rep then (guest s .rcx).toNat else 1)
    (hstate : stringState r = (StringState.element isStos size (guest s .rax))^[n] (stringState s))
    (hrcx : guest r .rcx = if rep then 0 else guest s .rcx)
    (hothers : ∀ g, g ≠ .rcx → g ≠ .rsi → g ≠ .rdi → guest r g = guest s g)
    (hflags : r.nzcv = s.nzcv) : StringRight isStos rep size s r := by
  have hmem := congrArg StringState.mem hstate
  have hrdi := congrArg StringState.rdi hstate
  have hrsi := congrArg StringState.rsi hstate
  rw [StringState.iterate_rdi] at hrdi
  rw [StringState.iterate_rsi] at hrsi
  rw [hcount] at hmem hrdi hrsi
  exact ⟨hmem, hrdi, hrsi, hrcx, hothers, hflags⟩

/-- **String instructions.**  `MOVS` and `STOS` with elements of 1, 2, 4 or 8 bytes are translated, and from
every state the code runs to its end: after as many elements as `RCX` says, or one when there is no repeat
prefix. -/
theorem string_right (p : Profile) (legacy32 isStos : Bool) (inst : Inst) (n : BitVec 64)
    (nsize size : OpSize) (hop : inst.op = stringOp isStos)
    (h0 : inst.operand0 = some (.imm n nsize))
    (hsize : n.setWidth 32 = BitVec.ofNat 32 size.bytes) :
    ∃ ws, compile p (lift legacy32 inst) = some ws ∧
      ∀ env s, ∃ r, Exec env ws s r ∧ StringRight isStos inst.repeats size s r := by
  have hlift : lift legacy32 inst
      = emitRepLoop (BitVec.ofNat 32 size.bytes) inst.repeats isStos := by
    rw [← hsize]
    cases isStos <;> simp only [lift, hop, stringOp, liftMovs, liftStos, liftString, h0] <;> rfl
  obtain ⟨ws, hws, hcode⟩ := compile_emitRepLoop p isStos inst.repeats size
  refine ⟨ws, by rw [hlift]; exact hws, fun env s => ?_⟩
  cases hrep : inst.repeats with
  | true =>
    rw [hrep, if_pos rfl] at hcode
    obtain ⟨r, hrun, hstate, hzero, hx, hf⟩ := exec_loop hcode _ s rfl
    refine ⟨r, hrun, stringRight_of rfl hstate hzero (fun g hc hsi hdi => ?_) hf⟩
    apply hx
    · exact fun heq => hc (hostReg_injective (heq : hostReg g = hostReg .rcx))
    · exact fun heq => hsi (hostReg_injective (heq : hostReg g = hostReg .rsi))
    · exact fun heq => hdi (hostReg_injective (heq : hostReg g = hostReg .rdi))
    · cases g <;> decide
  | false =>
    rw [hrep, if_neg (by decide)] at hcode
    obtain ⟨r, hrun, hstate, hsame⟩ := runSeq_elementInsns env 0 isStos size s
    rw [← hcode] at hrun
    refine ⟨r, exec_of_runSeq hrun, stringRight_of rfl hstate ?_ (fun g _ hsi hdi => ?_) hsame.nzcv⟩
    · exact hsame.guest GpReg.noConfusion GpReg.noConfusion
    · exact hsame.guest hsi hdi

/-- `REP MOVSB` and `STOSQ`. -/
theorem string_right_movsb_stosq :
    (∃ inst, decodeNext true 0x1000 [0xF3, 0xA4] = .ok (inst, []) ∧
      ∃ ws, compile ⟨true⟩ (lift false inst) = some ws ∧
        ∀ env s, ∃ r, Exec env ws s r ∧ StringRight false true .b1 s r) ∧
    ∃ inst, decodeNext true 0x1000 [0x48, 0xAB] = .ok (inst, []) ∧
      ∃ ws, compile ⟨true⟩ (lift false inst) = some ws ∧
        ∀ env s, ∃ r, Exec env ws s r ∧ StringRight true false .b8 s r :=
  ⟨⟨_, rfl, string_right ⟨true⟩ false false _ 1 .b1 .b1 rfl rfl rfl⟩,
    ⟨_, rfl, string_right ⟨true⟩ false true _ 8 .b1 .b8 rfl rfl rfl⟩⟩

end Quantum.Jit
