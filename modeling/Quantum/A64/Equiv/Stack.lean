import Quantum.A64.Equiv.Run

/-!
# The host stack and host functions

Pairs of registers pushed on and popped from the host stack (`pushInsn`, `popInsn`), with the states
they lead to (`State.pushPair`, `State.popPair`), and the procedure call standard, as an assumption
about the host functions of an environment (`Aapcs64`).
-/

namespace Quantum.A64

/-- `STP rt, rt2, [SP, #-16]!`. -/
def pushInsn (rt rt2 : Reg) : Insn :=
  .ldstPair false .preIndex (BitVec.ofInt 7 ((-16 : Int).tdiv 8)) rt2 31 rt

/-- `LDP rt, rt2, [SP], #16`. -/
def popInsn (rt rt2 : Reg) : Insn :=
  .ldstPair true .postIndex (BitVec.ofInt 7 ((16 : Int).tdiv 8)) rt2 31 rt

namespace State

variable (s : State) (rt rt2 q : Reg)

/-- The state after a push. -/
def pushPair : State :=
  { s with
    x := Function.update s.x 31#5 (s.x 31#5 - 16#64)
    mem := s.mem.push2 (s.x 31#5) (s.readX rt) (s.readX rt2) }

/-- The state after a pop. -/
def popPair : State :=
  ((s.writeX rt (s.mem.read 64 8 (s.x 31#5))).writeX rt2
    (s.mem.read 64 8 (s.x 31#5 + 8#64))).writeXsp 31#5 (s.x 31#5 + 16#64)

@[simp]
theorem pushPair_x : (s.pushPair rt rt2).x q = if q = 31#5 then s.x 31#5 - 16#64 else s.x q := by
  simp [pushPair, Function.update_apply]

@[simp]
theorem pushPair_readX : (s.pushPair rt rt2).readX q = s.readX q := by
  by_cases h : q = 31#5 <;> simp [readX, h]

@[simp]
theorem pushPair_mem :
    (s.pushPair rt rt2).mem = s.mem.push2 (s.x 31#5) (s.readX rt) (s.readX rt2) := rfl

@[simp] theorem pushPair_ext : (s.pushPair rt rt2).ext = s.ext := rfl
@[simp] theorem pushPair_nzcv : (s.pushPair rt rt2).nzcv = s.nzcv := rfl
@[simp] theorem pushPair_v : (s.pushPair rt rt2).v = s.v := rfl

@[simp]
theorem popPair_x : (s.popPair rt rt2).x q
    = if q = 31#5 then s.x 31#5 + 16#64
      else if q = rt2 then s.mem.read 64 8 (s.x 31#5 + 8#64)
      else if q = rt then s.mem.read 64 8 (s.x 31#5) else s.x q := by
  by_cases h31 : q = 31#5
  · simp [popPair, h31]
  · by_cases h2 : q = rt2
    · subst h2
      simp [popPair, h31]
    · by_cases h1 : q = rt
      · subst h1
        simp [popPair, h31, h2]
      · simp [popPair, h31, h2, h1]

theorem popPair_readX : (s.popPair rt rt2).readX q
    = if q = 31#5 then 0
      else if q = rt2 then s.mem.read 64 8 (s.x 31#5 + 8#64)
      else if q = rt then s.mem.read 64 8 (s.x 31#5) else s.readX q := by
  by_cases h : q = 31#5
  · simp [readX, h]
  · rw [readX_of_ne _ _ h, popPair_x, readX_of_ne _ _ h, if_neg h, if_neg h]

@[simp] theorem popPair_mem : (s.popPair rt rt2).mem = s.mem := by simp [popPair]
@[simp] theorem popPair_ext : (s.popPair rt rt2).ext = s.ext := by simp [popPair]
@[simp] theorem popPair_nzcv : (s.popPair rt rt2).nzcv = s.nzcv := by simp [popPair]
@[simp] theorem popPair_v : (s.popPair rt rt2).v = s.v := by simp [popPair]

end State

variable {env : Env} {pc : Nat}

theorem execOne_pushInsn (s : State) (rt rt2 : Reg) :
    execOne env pc (pushInsn rt rt2) s = some (s.pushPair rt rt2) := by
  have hoff : s.x 31#5 + pairOffset (BitVec.ofInt 7 ((-16 : Int).tdiv 8)) = s.x 31#5 - 16#64 := by
    rw [show pairOffset (BitVec.ofInt 7 ((-16 : Int).tdiv 8)) = -16#64 by decide,
      BitVec.sub_eq_add_neg]
  show some (State.writeXsp { s with mem := _ } 31 (s.x 31#5 + _)) = _
  rw [show pairAddr .preIndex (BitVec.ofInt 7 ((-16 : Int).tdiv 8)) 31 s = s.x 31#5 - 16#64 from hoff,
    hoff]
  rfl

theorem execOne_popInsn (s : State) (rt rt2 : Reg) :
    execOne env pc (popInsn rt rt2) s = some (s.popPair rt rt2) := rfl

/-- The host functions conform to AAPCS64: one that returns has kept `X19` to `X29` and the stack
pointer, and the `frame` bytes from the stack pointer up, which its callers use. -/
def Aapcs64 (env : Env) (frame : Nat) : Prop :=
  ∀ n a s s', env.call n a s = some s' →
    (∀ r : Reg, 19#5 ≤ r → r ≤ 29#5 → s'.x r = s.x r) ∧ s'.x 31#5 = s.x 31#5 ∧
    ∀ b, InRange (s.x 31#5) frame b → s'.mem b = s.mem b

end Quantum.A64
