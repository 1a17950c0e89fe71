import Quantum.Jit.Block
import Quantum.Jit.Equiv.Decode
import Quantum.Jit.Equiv.DecodeXmm

/-!
# The decoder never panics

The decoder unwraps the register that an index names (`gpReg`).  Every index is a field of three bits, or of
a few bits of the opcode, with or without one extension bit; so it names a register, and on any bytes the
decoder ends in an instruction or in an error (`decodeNext_ne_panic`).  The tables follow row by row, and
instances find the row.
-/

namespace Quantum.Jit

open DecodeM

/-- On no bytes does the computation panic. -/
class NeverPanics {α : Type} (m : DecodeM α) : Prop where
  ne_panic : ∀ bs msg, m bs ≠ .error (.panic msg)

namespace NeverPanics

variable {α β : Type}

instance pure (a : α) : NeverPanics (Pure.pure a : DecodeM α) :=
  ⟨nofun⟩

theorem bind_of {m : DecodeM α} {f : α → DecodeM β} [hm : NeverPanics m]
    (h : ∀ bs a rest, m bs = .ok (a, rest) → NeverPanics (f a)) : NeverPanics (m >>= f) := by
  refine ⟨fun bs msg hpanic => ?_⟩
  simp only [Bind.bind] at hpanic
  cases hrun : m bs with
  | ok q =>
    rw [hrun] at hpanic
    exact (h bs q.1 q.2 hrun).ne_panic q.2 msg hpanic
  | error x =>
    rw [hrun] at hpanic
    cases hpanic
    exact hm.ne_panic bs msg hrun

instance bind (m : DecodeM α) (f : α → DecodeM β) [NeverPanics m] [h : ∀ a, NeverPanics (f a)] :
    NeverPanics (m >>= f) :=
  bind_of fun _ a _ _ => h a

instance ite (c : Prop) [Decidable c] (m m' : DecodeM α) [h : NeverPanics m] [k : NeverPanics m'] :
    NeverPanics (if c then m else m') := by
  split
  · exact h
  · exact k

theorem ite_of {c : Prop} [Decidable c] {m m' : DecodeM α} (h : c → NeverPanics m) (h' : NeverPanics m') :
    NeverPanics (if c then m else m') := by
  split
  · exact h ‹c›
  · exact h'

/-! ### Reading -/

instance readU8 : NeverPanics Jit.readU8 := by
  refine ⟨fun bs msg => ?_⟩
  cases bs <;> exact nofun

instance readLe (w n : Nat) : NeverPanics (Jit.readLe w n) := by
  induction n with
  | zero => exact pure _
  | succ n ih =>
    unfold Jit.readLe
    infer_instance

instance readI8 : NeverPanics Jit.readI8 := by
  unfold Jit.readI8
  infer_instance

instance : NeverPanics readU16 := readLe 16 2
instance : NeverPanics readI32 := readLe 32 4
instance : NeverPanics readU64 := readLe 64 8

instance (size : OpSize) : NeverPanics (readImm size) := by
  cases size <;> (unfold readImm; infer_instance)

instance (longMode : Bool) (p : Prefixes) : NeverPanics (readPrefixes longMode p) := by
  refine ⟨fun bs msg => ?_⟩
  induction bs generalizing p with
  | nil => exact nofun
  | cons b bs ih =>
    obtain ⟨p', hp⟩ | ⟨p', hp⟩ | hp := readPrefixes_cons longMode p b
    · rw [hp]
      exact ih p'
    · rw [hp]
      exact nofun
    · rw [hp]
      exact nofun

/-! ### ModRM and SIB -/

/-- An index below sixteen names a register. -/
theorem gpReg (ext : Bool) {n : Nat} (h : n < 16) : NeverPanics (Jit.gpReg ext n) := by
  have hreg : ∀ ext : Bool, ∀ n < 16, (GpReg.fromIndex (regIndex ext n)).isSome = true := by decide
  obtain ⟨r, hr⟩ := Option.isSome_iff_exists.mp (hreg ext n h)
  unfold Jit.gpReg
  rw [hr]
  exact pure r

theorem regOperand (p : Prefixes) {reg : Nat} (size : OpSize) (h : reg < 16) :
    NeverPanics (Jit.regOperand p reg size) :=
  have := gpReg p.rex.r h
  bind _ _

theorem opcodeRegOperand (p : Prefixes) {low3 : Nat} (size : OpSize) (h : low3 < 16) :
    NeverPanics (Jit.opcodeRegOperand p low3 size) :=
  have := gpReg p.rex.b h
  bind _ _

/-- What comes after the fields of a ModRM byte. -/
theorem fields {f : Nat × Nat × Nat → DecodeM β}
    (h : ∀ mod reg rm, reg < 8 → rm < 8 → NeverPanics (f (mod, reg, rm))) : NeverPanics (readModRm >>= f) := by
  have : NeverPanics readModRm := bind _ _
  refine bind_of fun bs q rest hq => ?_
  obtain ⟨b, -, rfl⟩ := readModRm_ok hq
  exact h _ _ _ (regField_lt b) (rmField_lt b)

theorem decodeSib (p : Prefixes) (mod : Nat) {rm : Nat} (hrm : rm < 8) :
    NeverPanics (Jit.decodeSib p mod rm) := by
  have hbase := gpReg p.rex.b (n := rm) (by omega)
  unfold Jit.decodeSib
  refine ite_of (fun _ => bind_of fun _ sib _ _ => ?_) (bind _ _)
  have hindexField : (sib.extractLsb' 3 3).toNat < 8 := (sib.extractLsb' 3 3).isLt
  have hbaseField : (sib.extractLsb' 0 3).toNat < 8 := (sib.extractLsb' 0 3).isLt
  have := gpReg p.rex.x (n := (sib.extractLsb' 3 3).toNat) (by omega)
  have := gpReg p.rex.b (n := (sib.extractLsb' 0 3).toNat) (by omega)
  infer_instance

theorem decodeRmMemory (longMode : Bool) (p : Prefixes) (mod : Nat) {rm : Nat} (size : OpSize) (hrm : rm < 8) :
    NeverPanics (Jit.decodeRmMemory longMode p mod rm size) := by
  have := decodeSib p mod hrm
  unfold Jit.decodeRmMemory
  refine ite _ _ _ (k := bind _ _ (h := fun sib => ?_))
  dsimp only
  split <;> infer_instance

section Tables

variable (longMode : Bool) (p : Prefixes) (size : OpSize)

instance : NeverPanics (decodeModrm longMode p size) := by
  refine fields fun mod reg rm _ hrm => ?_
  have := gpReg p.rex.b (n := rm) (by omega)
  have := decodeRmMemory longMode p mod size hrm
  infer_instance

instance : NeverPanics (decodeModrmXmm longMode p size) := by
  refine fields fun mod reg rm _ hrm => ?_
  have := decodeRmMemory longMode p mod size hrm
  infer_instance

variable {longMode p size} in
/-- What comes after the r/m operand. -/
theorem modrm {f : Operand × Nat → DecodeM β} (h : ∀ rm reg, reg < 16 → NeverPanics (f (rm, reg))) :
    NeverPanics (decodeModrm longMode p size >>= f) := by
  refine bind_of fun bs q rest hq => ?_
  obtain ⟨-, hreg, -⟩ := decodeModrm_ok hq
  refine h q.1 q.2 ?_
  rw [hreg]
  exact Nat.lt_trans (regField_lt _) (by decide)

variable {longMode p size} in
/-- What comes after the r/m operand of an SSE instruction. -/
theorem modrmXmm {f : Operand × Nat → DecodeM β} (h : ∀ rm reg, reg < 16 → NeverPanics (f (rm, reg))) :
    NeverPanics (decodeModrmXmm longMode p size >>= f) := by
  refine bind_of fun bs q rest hq => ?_
  obtain ⟨-, hreg, -⟩ := decodeModrmXmm_ok hq
  refine h q.1 q.2 ?_
  rw [hreg]
  exact regIndex_lt (regField_lt _)

/-! ### The tables -/

instance (op : Op) (o₀ o₁ o₂ : Option Operand) : NeverPanics (make op o₀ o₁ o₂) := pure _
instance (op : Op) : NeverPanics (make0 op) := pure _
instance : NeverPanics unhandledForm := pure _

instance (op : Op) : NeverPanics (rmReg longMode p op size) :=
  modrm fun _ _ hreg =>
    have := regOperand p size hreg
    bind _ _

instance (op : Op) (rmSize : OpSize) : NeverPanics (regRm longMode p op size rmSize) :=
  modrm fun _ _ hreg =>
    have := regOperand p size hreg
    bind _ _

instance (op : Op) (immSize : OpSize) : NeverPanics (accImm op size immSize) := bind _ _
instance (op : Op) (readSize : OpSize) : NeverPanics (immOnly op readSize size) := bind _ _

theorem opcodeReg (op : Op) {low3 : Nat} (h : low3 < 16) : NeverPanics (Jit.opcodeReg p op low3 size) :=
  have := opcodeRegOperand p size h
  bind _ _

instance (opcode : Nat) (op : Op) : NeverPanics (decodeArithForm longMode p opcode op) := by
  unfold decodeArithForm
  dsimp only
  split <;> infer_instance

instance (immSize : OpSize) : NeverPanics (decodeGroup1 longMode p size immSize) := bind _ _

instance (amount : ShiftAmountForm) : NeverPanics (decodeGroup2 longMode p size amount) := by
  refine bind _ _ (h := fun _ => ?_)
  cases amount <;> infer_instance

instance : NeverPanics (decodeGroup3 longMode p size) := by
  refine bind _ _ (h := fun _ => ?_)
  dsimp only
  split <;> infer_instance

instance : NeverPanics (decodeGroup4 longMode p) := by
  refine bind _ _ (h := fun _ => ?_)
  dsimp only
  split <;> infer_instance

instance : NeverPanics (decodeGroup5 longMode p) := by
  refine bind _ _ (h := fun _ => ?_)
  dsimp only
  split <;> infer_instance

instance (immSize : OpSize) : NeverPanics (imulImm longMode p size immSize) :=
  modrm fun _ _ hreg =>
    have := regOperand p size hreg
    bind _ _

instance (immSize : OpSize) : NeverPanics (movRmImm longMode p size immSize) := bind _ _

theorem movOpcodeReg {low3 : Nat} (h : low3 < 16) : NeverPanics (Jit.movOpcodeReg p low3 size) :=
  have := opcodeRegOperand p size h
  bind _ _

instance (op : Op) (sizeBytes : BitVec 64) : NeverPanics (stringForm p op sizeBytes) := pure _
instance : NeverPanics (popRm longMode p) := bind _ _

theorem xchgAcc {low3 : Nat} (h : low3 < 16) : NeverPanics (Jit.xchgAcc longMode p low3) :=
  have := opcodeRegOperand p (opSizeDefault32 longMode p) h
  bind _ _

instance (opcode : Nat) : NeverPanics (decodePrimary longMode p opcode) := by
  unfold decodePrimary
  refine ite _ _ _ (k := ?_)
  refine ite_of (fun h => opcodeReg p _ _ (by omega)) ?_
  refine ite_of (fun h => opcodeReg p _ _ (by omega)) ?_
  refine ite_of (fun h => opcodeReg p _ _ (by omega)) ?_
  refine ite_of (fun h => opcodeReg p _ _ (by omega)) ?_
  refine ite _ _ _ (k := ?_)
  refine ite_of (fun h => xchgAcc longMode p (by omega)) ?_
  refine ite_of (fun h => movOpcodeReg p _ (by omega)) ?_
  refine ite_of (fun h => movOpcodeReg p _ (by omega)) ?_
  split <;> infer_instance

instance (op : Op) (rmSize : OpSize) : NeverPanics (xmmRm longMode p op size rmSize) := bind _ _
instance (op : Op) : NeverPanics (rmXmm longMode p op size) := bind _ _
instance (op : Op) (rmSize : OpSize) : NeverPanics (xmmGpr longMode p op size rmSize) := bind _ _
instance (op : Op) : NeverPanics (gprXmm longMode p op size) := bind _ _

instance (op : Op) (intSize : OpSize) : NeverPanics (regXmm longMode p op intSize size) :=
  modrmXmm fun _ _ hreg =>
    have := regOperand p intSize hreg
    bind _ _

instance (lane : OpSize) : NeverPanics (decodePackedShift p lane) := by
  refine fields fun mod sub rm _ _ => ite _ _ _ (k := bind _ _ (h := fun _ => ?_))
  split <;> infer_instance

instance : NeverPanics (decodePmovmskb p) := by
  refine fields fun mod reg rm hreg _ => ?_
  have := gpReg p.rex.r (n := reg) (by omega)
  infer_instance

instance : NeverPanics (decodePshufd longMode p) := bind _ _

instance : NeverPanics (decodeGroup8 longMode p size) := by
  refine bind _ _ (h := fun _ => bind _ _ (h := fun _ => ?_))
  split <;> infer_instance

instance : NeverPanics (decodeNopRm longMode p) := bind _ _
instance (cond : Cond) : NeverPanics (decodeSet longMode p cond) := bind _ _

/-- The rows under some prefixes. -/
theorem osize {opcode : Nat} {m : DecodeM Form} (h : decodeOsize longMode p opcode = some m) :
    NeverPanics m := by
  unfold decodeOsize at h
  split at h
  any_goals
    obtain rfl := Option.some.inj h
    infer_instance
  cases h

theorem osizeOrRepe {opcode : Nat} {m : DecodeM Form} (h : decodeOsizeOrRepe longMode p opcode = some m) :
    NeverPanics m := by
  unfold decodeOsizeOrRepe at h
  split at h
  · obtain rfl := Option.some.inj h
    infer_instance
  · obtain rfl := Option.some.inj h
    infer_instance
  · split_ifs at h
    obtain rfl := Option.some.inj h
    infer_instance
  · cases h

theorem rep {opcode : Nat} {m : DecodeM Form} (h : decodeRep longMode p opcode = some m) :
    NeverPanics m := by
  unfold decodeRep at h
  dsimp only at h
  split at h
  any_goals
    obtain rfl := Option.some.inj h
    infer_instance
  · split_ifs at h
    · obtain rfl := Option.some.inj h
      infer_instance
    · obtain rfl := Option.some.inj h
      infer_instance
  · cases h

theorem noRep {opcode : Nat} {m : DecodeM Form} (h : decodeNoRep longMode p opcode = some m) :
    NeverPanics m := by
  unfold decodeNoRep at h
  dsimp only at h
  split at h
  any_goals
    obtain rfl := Option.some.inj h
    infer_instance
  · split_ifs at h
    obtain rfl := Option.some.inj h
    infer_instance
  · cases h

instance (opcode : Nat) : NeverPanics (decodePlain longMode p opcode) := by
  unfold decodePlain
  refine ite _ _ _ (k := ite _ _ _ (k := ite _ _ _ (k := ?_)))
  refine ite_of (fun h => opcodeReg p _ _ (by omega)) ?_
  split <;> infer_instance

instance : NeverPanics (decodeSecondary longMode p) := by
  refine bind _ _ (h := fun b => ?_)
  dsimp only
  split
  · rename_i m hm
    obtain hrow | hrow | hrow | hrow := selected_row hm
    · exact osize _ _ hrow
    · exact osizeOrRepe _ _ hrow
    · exact rep _ _ hrow
    · exact noRep _ _ hrow
  · infer_instance

instance : NeverPanics (decodeOpcode longMode) := bind _ _

end Tables

end NeverPanics

/-- **The decoder never panics.** -/
theorem decodeNext_ne_panic (longMode : Bool) (rip : BitVec 64) (bs : List Byte) (msg : String) :
    decodeNext longMode rip bs ≠ .error (.panic msg) := by
  intro h
  unfold decodeNext at h
  split at h
  · cases h
  · rename_i x hx
    rw [Except.error.inj h] at hx
    exact NeverPanics.ne_panic bs msg hx

/-- Every instruction takes a byte at least. -/
theorem decodeNext_length_lt {longMode : Bool} {rip : BitVec 64} {bs rest : List Byte} {inst : Inst}
    (h : decodeNext longMode rip bs = .ok (inst, rest)) : rest.length < bs.length := by
  obtain ⟨hpos, -⟩ := (decodeNext_determined longMode rip bs).1 inst rest h
  omega

/-- The rounds never run out. -/
theorem decodeLoop_ne_panic (longMode : Bool) (fuel : Nat) (rip : BitVec 64) (bs : List Byte)
    (hfuel : bs.length < fuel) (msg : String) : decodeLoop longMode fuel rip bs ≠ .error (.panic msg) := by
  induction fuel generalizing rip bs with
  | zero => exact absurd hfuel (Nat.not_lt_zero _)
  | succ fuel ih =>
    intro h
    unfold decodeLoop at h
    split at h
    · rename_i x hnext
      exact decodeNext_ne_panic longMode rip bs msg (hnext.trans (congrArg _ (Except.error.inj h)))
    · rename_i inst rest hnext
      have hlt := decodeNext_length_lt hnext
      split at h
      · cases h
      · split at h
        · rename_i x hloop
          exact ih _ rest (by omega) (hloop.trans (congrArg _ (Except.error.inj h)))
        · cases h

theorem decodeUntil_ne_panic (isTerminator : Op → Bool) (fuel : Nat) (rip : BitVec 64) (bs : List Byte)
    (hfuel : bs.length < fuel) (msg : String) :
    decodeUntil isTerminator fuel rip bs ≠ .error (.panic msg) := by
  induction fuel generalizing rip bs with
  | zero => exact absurd hfuel (Nat.not_lt_zero _)
  | succ fuel ih =>
    intro h
    unfold decodeUntil at h
    split at h
    · rename_i x hnext
      exact decodeNext_ne_panic true rip bs msg (hnext.trans (congrArg _ (Except.error.inj h)))
    · rename_i inst rest hnext
      have hlt := decodeNext_length_lt hnext
      split at h
      · cases h
      · split at h
        · rename_i x hloop
          exact ih _ rest (by omega) (hloop.trans (congrArg _ (Except.error.inj h)))
        · cases h

end Quantum.Jit
