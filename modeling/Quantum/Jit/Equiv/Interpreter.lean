import Quantum.Jit.Equiv.Decode
import Quantum.Jit.Equiv.GuestLocal
import Mathlib.Computability.StateTransition

/-!
# The interpreter

`interpret` runs the guest an instruction at a time: fetch, decode, execute.  The translator decodes a whole block
from a window of the text; what it decodes is what the interpreter comes across (`interpret_block`).
-/

namespace Quantum.Jit

open StateTransition

/-! ### The text -/

/-- The bytes of the text from an address on. -/
def window (text : BitVec 64 → Byte) (rip : BitVec 64) : Nat → List Byte
  | 0 => []
  | n + 1 => text rip :: window text (rip + 1) n

variable {text : BitVec 64 → Byte} {rip : BitVec 64} {n m k : Nat} {inst : Inst} {rest : List Byte}

@[simp]
theorem length_window (text : BitVec 64 → Byte) (rip : BitVec 64) (n : Nat) : (window text rip n).length = n := by
  induction n generalizing rip with
  | zero => rfl
  | succ n ih => rw [window, List.length_cons, ih]

theorem window_add (text : BitVec 64 → Byte) (rip : BitVec 64) (n m : Nat) :
    window text rip (n + m) = window text rip n ++ window text (rip + BitVec.ofNat 64 n) m := by
  induction n generalizing rip with
  | zero => simp [window]
  | succ n ih =>
    have hnext : rip + 1 + BitVec.ofNat 64 n = rip + BitVec.ofNat 64 (n + 1) := by
      rw [BitVec.add_assoc, BitVec.ofNat_add, BitVec.add_comm 1]
      rfl
    rw [Nat.succ_add, window, ih, hnext]
    rfl

/-- A parse of a window: of the first `k` bytes, and so of every longer window. -/
theorem decode_window (h : decodeNext true rip (window text rip n) = .ok (inst, rest)) :
    ∃ k, 1 ≤ k ∧ k ≤ n ∧ rest = window text (rip + BitVec.ofNat 64 k) (n - k) ∧
      inst.guestRip = rip ∧ inst.len = BitVec.ofNat 8 k ∧
      ∀ j, decodeNext true rip (window text rip (k + j)) = .ok (inst, window text (rip + BitVec.ofNat 64 k) j) := by
  obtain ⟨used, hsplit, hr⟩ := (isLocal_decodeNext true rip).reads h
  have hlen : n = used.length + rest.length := by
    rw [← length_window text rip n, hsplit, List.length_append]
  have hused : used = window text rip used.length ∧
      rest = window text (rip + BitVec.ofNat 64 used.length) rest.length := by
    rw [hlen, window_add] at hsplit
    obtain ⟨h₁, h₂⟩ := List.append_inj hsplit (length_window _ _ _)
    exact ⟨h₁.symm, h₂.symm⟩
  have hpos : 1 ≤ used.length := by
    refine List.length_pos_iff.mpr fun hnil => ?_
    subst hnil
    have hres := hr.result []
    rw [List.nil_append, decodeNext_nil] at hres
    cases hres
  have hinst : inst.guestRip = rip ∧ inst.len = BitVec.ofNat 8 used.length := by
    have hsub : (window text rip n).length - rest.length = used.length := by
      rw [length_window]
      omega
    unfold decodeNext at h
    split at h
    · cases h
      exact ⟨rfl, by rw [hsub]⟩
    · cases h
  refine ⟨used.length, hpos, by omega, ?_, hinst.1, hinst.2, fun j => ?_⟩
  · rw [hlen, Nat.add_sub_cancel_left]
    exact hused.2
  · rw [window_add, ← hused.1, hr.result]
    rfl

/-- Two windows at an address show the same instruction. -/
theorem decode_window_unique {inst' : Inst} {rest' : List Byte}
    (h : decodeNext true rip (window text rip n) = .ok (inst, rest))
    (h' : decodeNext true rip (window text rip m) = .ok (inst', rest')) :
    inst = inst' ∧ n - rest.length = m - rest'.length := by
  obtain ⟨k, -, hk, rfl, -, -, hall⟩ := decode_window h
  obtain ⟨k', -, hk', rfl, -, -, hall'⟩ := decode_window h'
  have hlong := hall k'
  rw [Nat.add_comm, hall' k, Except.ok.injEq, Prod.mk.injEq] at hlong
  have hlen := congrArg List.length hlong.2
  rw [length_window, length_window] at hlen
  rw [length_window, length_window]
  exact ⟨hlong.1.symm, by omega⟩

/-! ### Steps -/

/-- Between two instructions: where the guest goes on, the guest, and what is known of its flags. -/
structure GuestConfig where
  rip : BitVec 64
  guest : GuestMachine
  flags : Option FlagSource

/-- Fetch, decode and execute an instruction.  No instruction is longer than 15 bytes.  The emulator's loop does not
keep the flags between two blocks, so nothing is known of them behind a control transfer. -/
def interpret (text : BitVec 64 → Byte) (c : GuestConfig) : Option GuestConfig :=
  match decodeNext true c.rip (window text c.rip 15) with
  | .ok (inst, _) =>
    if inst.op.isTerminator then (inst.goOn c.flags c.guest).map fun r => ⟨r.1, r.2, none⟩
    else (inst.exec c.guest).map (⟨inst.nextRip, ·, inst.flagsAfter c.guest c.flags⟩)
  | .error _ => none

/-- The guest is at a plain instruction that touches nothing in `A`, and that asks for flags only where the host's
answer is right. -/
def TameAt (text : BitVec 64 → Byte) (A : BitVec 64 → Prop) (c : GuestConfig) : Prop :=
  ∃ inst rest, decodeNext true c.rip (window text c.rip 15) = .ok (inst, rest) ∧ (inst.Plain ∨ inst.PlainExit) ∧
    inst.AsksRight c.flags ∧ ∀ b, inst.touches c.guest b → ¬ A b

theorem interpret_of_exec {c : GuestConfig} {g' : GuestMachine}
    (h : decodeNext true c.rip (window text c.rip 15) = .ok (inst, rest)) (hterm : inst.op.isTerminator = false)
    (hexec : inst.exec c.guest = some g') :
    interpret text c = some ⟨inst.nextRip, g', inst.flagsAfter c.guest c.flags⟩ := by
  rw [interpret, h]
  dsimp only
  rw [hterm, if_neg Bool.false_ne_true, hexec, Option.map_some]

theorem interpret_of_goOn {c : GuestConfig} {next : BitVec 64} {g' : GuestMachine}
    (h : decodeNext true c.rip (window text c.rip 15) = .ok (inst, rest)) (hterm : inst.op.isTerminator = true)
    (hgo : inst.goOn c.flags c.guest = some (next, g')) : interpret text c = some ⟨next, g', none⟩ := by
  rw [interpret, h]
  dsimp only
  rw [if_pos hterm, hgo, Option.map_some]

/-- A plain instruction has a meaning. -/
theorem Inst.Plain.exists_exec (h : inst.Plain) (g : GuestMachine) : ∃ g', inst.exec g = some g' := by
  cases h with
  | nop hop => exact ⟨_, exec_nop g hop⟩
  | cqo hop => exact ⟨_, exec_cqo g hop⟩
  | leave hop => exact ⟨_, exec_leave g hop⟩
  | push hop h0 => exact ⟨_, exec_push g hop h0⟩
  | pop hop h0 => exact ⟨_, exec_pop g hop h0⟩
  | compare hop h0 h1 => exact ⟨_, exec_flags g hop h0 h1⟩
  | mov hop h0 h1 => exact ⟨_, exec_mov g hop h0 h1⟩
  | extend hop h0 h1 => exact ⟨_, exec_extend g hop h0 h1⟩
  | lea hop h0 h1 => exact ⟨_, exec_lea g hop h0 h1⟩
  | xchg hop h0 h1 => exact ⟨_, exec_xchg g hop h0 h1 (.inl ⟨rfl, rfl⟩)⟩
  | xchgMem hop h0 h1 hops hmem =>
    exact ⟨_, exec_xchg g hop h0 h1 (hops.imp_right fun h => ⟨h.1, h.2, hmem⟩)⟩
  | imul hop h0 h1 => exact ⟨_, exec_imul g hop h0 h1⟩
  | shift hop h0 h1 => exact ⟨_, exec_shift g hop h0 h1⟩
  | @binary dst src hop h0 h1 =>
    obtain ⟨f, hf⟩ : ∃ f : BitVec 64 → BitVec 64 → BitVec 64, ∀ a b, inst.op.combine a b = some (f a b) := by
      rcases hop with hop | hop | hop | hop | hop <;> rw [hop] <;> exact ⟨_, fun _ _ => rfl⟩
    exact ⟨_, exec_binary g hop h0 h1 hf⟩
  | unary hop h0 h1 =>
    obtain ⟨f, hf⟩ : ∃ f : BitVec 64 → BitVec 64, ∀ a, inst.op.change a = some (f a) := by
      rcases hop with hop | hop | hop | hop <;> rw [hop] <;> exact ⟨_, fun _ => rfl⟩
    exact ⟨_, exec_unary g hop h0 h1 hf⟩

theorem Inst.PlainExit.exists_goOn (h : inst.PlainExit) {fl : Option FlagSource} (hasks : inst.AsksRight fl)
    (g : GuestMachine) : ∃ next g', inst.goOn fl g = some (next, g') := by
  cases h with
  | jmp hop h0 => exact ⟨_, _, goOn_jmp fl g hop h0⟩
  | jcc hop h0 =>
    obtain ⟨f, hf, hright⟩ := hasks _ hop
    rw [hf]
    exact ⟨_, _, goOn_jcc g hop h0 hright.answer_eq⟩
  | call hop h0 => exact ⟨_, _, goOn_call fl g hop h0⟩
  | jmpReg hop h0 => exact ⟨_, _, goOn_jmpIndirect fl g hop h0⟩
  | jmpMem hop h0 => exact ⟨_, _, goOn_jmpIndirect fl g hop h0⟩
  | ret hop => exact ⟨_, _, goOn_ret fl g hop⟩
  | retImm hop h0 => exact ⟨_, _, goOn_retImm fl g hop h0⟩

/-! ### Blocks -/

theorem execAll_cons {body : List Inst} {g g' : GuestMachine} (h : inst.exec g = some g') (fl : Option FlagSource) :
    execAll (inst :: body) g fl = execAll body g' (inst.flagsAfter g fl) := by
  rw [execAll, h, Option.bind_some]

/-- A block that is decoded from a window: the interpreter does what it means, and it means the same over other
memory, of which it leaves `A`. -/
structure Runs (text : BitVec 64 → Byte) (A : BitVec 64 → Prop) (c : GuestConfig) (body : List Inst) (term : Inst)
    (next : BitVec 64) (g' : GuestMachine) : Prop where
  exit : term.PlainExit
  reaches : Reaches (interpret text) c ⟨next, g', none⟩
  asks : ∀ m, BlockAsksRight body term (c.guest.withMem A m) c.flags
  means : ∀ m, blockMeaning body term (c.guest.withMem A m) c.flags = some (next, g'.withMem A m)
  seg : g'.seg = c.guest.seg

/-- The control transfer at the end of a block. -/
theorem Runs.exit_of_goOn {A : BitVec 64 → Prop} {c : GuestConfig} {next : BitVec 64} {g' : GuestMachine}
    (hfetch : decodeNext true c.rip (window text c.rip 15) = .ok (inst, rest)) (hexit : inst.PlainExit)
    (hasks : inst.AsksRight c.flags) (htouch : ∀ b, inst.touches c.guest b → ¬ A b)
    (hgo : inst.goOn c.flags c.guest = some (next, g')) : Runs text A c [] inst next g' where
  exit := hexit
  reaches := .single (interpret_of_goOn hfetch hexit.terminator hgo)
  asks m r hr := by
    cases hr
    exact hasks
  means m := by
    have hmeaning : blockMeaning [] inst (c.guest.withMem A m) c.flags
        = exitMeaning inst c.flags (c.guest.withMem A m) := rfl
    rw [hmeaning, exitMeaning, if_pos hexit.terminator, goOn_withMem hexit htouch, hgo]
    rfl
  seg := seg_goOn hgo

/-- One more instruction before a block. -/
theorem Runs.cons {A : BitVec 64 → Prop} {c : GuestConfig} {g₁ : GuestMachine} {body : List Inst} {term : Inst}
    {next : BitVec 64} {g' : GuestMachine} (hfetch : decodeNext true c.rip (window text c.rip 15) = .ok (inst, rest))
    (hplain : inst.Plain) (htouch : ∀ b, inst.touches c.guest b → ¬ A b) (hexec : inst.exec c.guest = some g₁)
    (h : Runs text A ⟨inst.nextRip, g₁, inst.flagsAfter c.guest c.flags⟩ body term next g') :
    Runs text A c (inst :: body) term next g' := by
  have hall : ∀ m, execAll (inst :: body) (c.guest.withMem A m) c.flags
      = execAll body (g₁.withMem A m) (inst.flagsAfter c.guest c.flags) := by
    intro m
    have hover : inst.exec (c.guest.withMem A m) = some (g₁.withMem A m) := by
      rw [exec_withMem hplain htouch, hexec, Option.map_some]
    rw [execAll_cons hover, flagsAfter_withMem hplain htouch]
  refine ⟨h.exit, .head (interpret_of_exec hfetch hplain.not_terminator hexec) h.reaches, fun m r hr => ?_,
    fun m => ?_, h.seg.trans (seg_exec hexec)⟩
  · rw [hall] at hr
    exact h.asks m r hr
  · rw [blockMeaning, hall]
    exact h.means m

/-- The instructions that the translator decodes from a window are plain, and the interpreter runs them.  Without a
control transfer the window has cut the block. -/
theorem interpret_block {A : BitVec 64 → Prop} {fuel : Nat} {c : GuestConfig} {body : List Inst} {term : Inst}
    (hloop : decodeLoop true fuel c.rip (window text c.rip n) = .ok (body, term, rest))
    (htame : ∀ c', Reaches (interpret text) c c' → TameAt text A c') :
    (∀ inst ∈ body, inst.Plain) ∧
      (term.op.isTerminator = false ∨ ∃ next g', Runs text A c body term next g') := by
  induction fuel generalizing c n body with
  | zero => cases hloop
  | succ fuel ih =>
    obtain ⟨inst', rest', hfetch, hplain, hasks, htouch⟩ := htame c .refl
    unfold decodeLoop at hloop
    split at hloop
    · cases hloop
    · rename_i inst rest₁ hnext
      obtain ⟨rfl, hsame⟩ := decode_window_unique hnext hfetch
      obtain ⟨k, hk, hkn, rfl, hrip, hlen, -⟩ := decode_window hnext
      obtain ⟨k', -, hk15, rfl, -⟩ := decode_window hfetch
      rw [length_window, length_window] at hsame
      split at hloop
      · cases hloop
        refine ⟨by simp, ?_⟩
        rcases hplain with hplain | hexit
        · exact .inl hplain.not_terminator
        · obtain ⟨next, g', hgo⟩ := hexit.exists_goOn hasks c.guest
          exact .inr ⟨next, g', .exit_of_goOn hfetch hexit hasks htouch hgo⟩
      · rename_i hcont
        split at hloop
        · cases hloop
        · rename_i body' last rest₂ hloop'
          cases hloop
          have hplain : inst.Plain := by
            refine hplain.resolve_right fun hexit => ?_
            simp [hexit.terminator] at hcont
          obtain ⟨g₁, hexec⟩ := hplain.exists_exec c.guest
          -- the next instruction is where the loop goes on
          have hnextRip : inst.nextRip = c.rip + BitVec.ofNat 64 k := by
            have hk' : k < 256 := by omega
            rw [Inst.nextRip, hrip, hlen]
            congr 1
            apply BitVec.eq_of_toNat_eq
            simp only [BitVec.toNat_setWidth, BitVec.toNat_ofNat]
            omega
          have hstep := interpret_of_exec hfetch hplain.not_terminator hexec
          rw [length_window, length_window, show n - (n - k) = k by omega, ← hnextRip] at hloop'
          obtain ⟨hbody, hrest⟩ := ih (c := ⟨inst.nextRip, g₁, inst.flagsAfter c.guest c.flags⟩) hloop'
            fun c' hc => htame c' (.head hstep hc)
          refine ⟨List.forall_mem_cons.mpr ⟨hplain, hbody⟩, hrest.imp_right ?_⟩
          rintro ⟨next, g', hruns⟩
          exact ⟨next, g', hruns.cons hfetch hplain htouch hexec⟩

end Quantum.Jit
