import Quantum.Jit.Block
import Quantum.Jit.Equiv.Exits
import Quantum.Jit.Equiv.SteadySse

/-!
# How standalone code is left

`translate_with_stack` emits the code of its instructions one after another and nothing behind them,
and its `RET` is the lifter's, which does not undo the prologue that saves `X19`.  So an execution
stays in the code, and leaves it as documented, when no path through the instructions runs off their
end, and none gets to a `RET` if a guest stack was given (`ExitsCleanly`).

The paths are those of the instructions as decoded (`Reached`), over which the code is certified: the
annotation of a word is the proposition that its instruction is reached.
-/

namespace Quantum.Jit

open A64 StateTransition
open EmitM

/-! ### Paths through the instructions -/

/-- The code of the operation does not go on to the next instruction: a return, a jump or a trap. -/
def Op.stops : Op → Bool
  | .ret | .jmp | .ud2 | .int3 => true
  | _ => false

/-- The address that a direct branch names. -/
def Inst.branchTarget (inst : Inst) : Option (BitVec 64) :=
  match inst.op, inst.operand0 with
  | .jmp, some (.imm rel _) => some (inst.nextRip + rel)
  | .jcc _, some (.imm rel _) => some (inst.nextRip + rel)
  | _, _ => none

/-- The instruction at index `i` may be executed; the index behind the last one is the end of the
code. -/
inductive Reached (insts : List Inst) : Nat → Prop
  | start : Reached insts 0
  | next {i : Nat} {inst : Inst} : Reached insts i → insts[i]? = some inst → inst.op.stops = false →
      Reached insts (i + 1)
  | jump {i j : Nat} {inst : Inst} {target : BitVec 64} : Reached insts i → insts[i]? = some inst →
      inst.branchTarget = some target →
      insts.findIdx? (fun q => q.guestRip == target) = some j → Reached insts j

/-- No path runs off the end, and none gets to a `RET` when a guest stack is given. -/
structure ExitsCleanly (stackTop : Option (BitVec 64)) (insts : List Inst) : Prop where
  stays : ¬ Reached insts insts.length
  ret : ∀ i inst, Reached insts i → insts[i]? = some inst → inst.op = .ret → stackTop = none

/-! ### The domain of reached points -/

/-- The annotation is the proposition that the point is reached.  Nothing gets past a trap. -/
def reachDomain (mayReturn : Prop) : Domain Prop where
  le a b := a → b
  next a o b := (∃ i, o = some i ∧ ∀ imm, i ≠ .brk imm) → a → b
  ret a := a → mayReturn
  le_refl _ := id
  le_trans h₁ h₂ := h₂ ∘ h₁
  next_le h hle ho := hle ∘ h ho

variable {mayReturn : Prop} {p : Profile} {env : Env}

instance (a : Prop) : Lenient (reachDomain mayReturn) fun _ => a where
  harmless _ _ := id
  push _ _ := id
  pop _ _ _ := id

theorem reachDomain_sound :
    (reachDomain mayReturn).Sound env (fun _ _ => True) fun a _ => a where
  le h := h
  next := by
    intro a i b pc s s' hnext ha _ hex
    refine hnext ⟨i, rfl, ?_⟩ ha
    rintro imm rfl
    cases hex

/-! ### Labels -/

section Labels

variable {A ε : Type} {D : Domain A} {Γ : List (Label × A)} {a : A}

/-- The labels of the instructions, with the annotations from index `i` on. -/
structure LabelsFor (ann : Nat → A) (i : Nat) (insts : List Inst) (ls : List (BitVec 64 × Label))
    (Γ : List (Label × A)) : Prop where
  length : ls.length = insts.length
  known : ∀ k inst, insts[k]? = some inst →
    ∃ l, ls[k]? = some (inst.guestRip, l) ∧ (l, ann (i + k)) ∈ Γ

theorem certifies_makeLabels (ann : Nat → A) (insts : List Inst) (i : Nat) :
    Certifies D p Γ a (makeLabels insts : EmitM ε _) fun ls Γ' b =>
      b = a ∧ Γ ⊆ Γ' ∧ LabelsFor ann i insts ls Γ' := by
  induction insts generalizing i Γ with
  | nil => exact .pure ⟨rfl, List.Subset.refl _, rfl, by simp⟩
  | cons inst insts ih =>
    refine .bind (.makeLabel (ann i) fun l => .bind ((ih (i + 1)).mono ?_))
    rintro ls Γ' b ⟨rfl, hsub, hls⟩
    refine .pure ⟨rfl, fun q hq => hsub (List.mem_cons_of_mem _ hq), ?_, fun k q hq => ?_⟩
    · rw [List.length_cons, List.length_cons, hls.length]
    · cases k with
      | zero =>
        obtain rfl := Option.some.inj hq
        exact ⟨l, rfl, hsub (List.mem_cons_self ..)⟩
      | succ k =>
        obtain ⟨l', hl', hmem⟩ := hls.known k q hq
        refine ⟨l', hl', ?_⟩
        rwa [show i + (k + 1) = i + 1 + k by omega]

theorem LabelsFor.tail {ann : Nat → A} {i : Nat} {inst : Inst} {insts : List Inst}
    {q : BitVec 64 × Label} {ls : List (BitVec 64 × Label)}
    (h : LabelsFor ann i (inst :: insts) (q :: ls) Γ) : LabelsFor ann (i + 1) insts ls Γ where
  length := Nat.succ.inj h.length
  known k inst' hk := by
    obtain ⟨l, hl, hmem⟩ := h.known (k + 1) inst' hk
    refine ⟨l, hl, ?_⟩
    rwa [show i + 1 + k = i + (k + 1) by omega]

/-- The label of an address is that of the first instruction there. -/
theorem LabelsFor.findLabel {ann : Nat → A} {i : Nat} {insts : List Inst}
    {ls : List (BitVec 64 × Label)} (h : LabelsFor ann i insts ls Γ) {rip : BitVec 64} {l : Label}
    (hl : Jit.findLabel ls rip = some l) :
    ∃ j, insts.findIdx? (fun q => q.guestRip == rip) = some j ∧ (l, ann (i + j)) ∈ Γ := by
  induction insts generalizing i ls with
  | nil =>
    obtain rfl := List.length_eq_zero_iff.mp h.length
    cases hl
  | cons inst insts ih =>
    cases ls with
    | nil => cases h.length
    | cons q ls =>
      obtain ⟨l₀, hq, hmem⟩ := h.known 0 inst rfl
      obtain rfl := Option.some.inj hq
      rw [List.findIdx?_cons]
      by_cases heq : (inst.guestRip == rip) = true
      · simp only [Jit.findLabel, List.find?_cons, heq] at hl
        obtain rfl := Option.some.inj hl
        exact ⟨0, if_pos heq, hmem⟩
      · simp only [Jit.findLabel, List.find?_cons, heq] at hl
        obtain ⟨j, hj, hmem'⟩ := ih h.tail hl
        refine ⟨j + 1, ?_, ?_⟩
        · rw [if_neg heq, hj]
          rfl
        · rwa [show i + (j + 1) = i + 1 + j by omega]

end Labels

/-! ### The instructions -/

section Body

variable {stackTop : Option (BitVec 64)} {insts : List Inst} {labels : List (BitVec 64 × Label)}
  {Γ : List (Label × Prop)}

theorem certifies_branchRel {A : Type} {D : Domain A} {Γ : List (Label × A)} {a : A} {inst : Inst}
    {Q : BitVec 64 → List (Label × A) → A → Prop}
    (h : ∀ rel size, inst.operand0 = some (.imm rel size) → Q rel Γ a) :
    Certifies D p Γ a (branchRel inst) Q := by
  unfold branchRel
  split
  · rename_i rel size hop
    exact .pure (h rel size hop)
  · exact .fail

theorem stops_eq_true {op : Op} (h : op.stops = true) :
    op = .ret ∨ op = .jmp ∨ op = .ud2 ∨ op = .int3 := by
  unfold Op.stops at h
  split at h
  · exact .inl rfl
  · exact .inr (.inl rfl)
  · exact .inr (.inr (.inl rfl))
  · exact .inr (.inr (.inr rfl))
  · cases h

section Lift

variable {legacy32 : Bool} {inst : Inst}

theorem lift_ret (h : inst.op = .ret) : lift legacy32 inst = ret := by simp only [lift, h]
theorem lift_ud2 (h : inst.op = .ud2) : lift legacy32 inst = brk 0 := by simp only [lift, h]
theorem lift_int3 (h : inst.op = .int3) : lift legacy32 inst = brk 0 := by simp only [lift, h]

end Lift

/-- Nothing gets past a trap. -/
theorem certifies_trap {a c : Prop} {ε : Type} :
    Certifies (reachDomain mayReturn) p Γ a (brk 0 : EmitM ε Unit) fun _ Γ' b =>
      Γ' = Γ ∧ (b → c) := by
  refine .push ?_ (c := False) ?_ ⟨rfl, False.elim⟩
  · rw [decode_brk]
    intro i hi
    cases hi
    rfl
  · rw [decode_brk]
    rintro ⟨i, hi, hne⟩
    cases hi
    exact absurd rfl (hne 0)

/-- The code of one instruction: what it ends in is reached only if the next instruction is. -/
theorem certifies_emitStandaloneInst (hcond : ExitsCleanly stackTop insts)
    (hls : LabelsFor (Reached insts) 0 insts labels Γ) {i : Nat} {inst : Inst} [inst.XmmOk]
    (hi : insts[i]? = some inst) :
    Certifies (reachDomain (stackTop = none)) p Γ (Reached insts i)
      (emitStandaloneInst labels inst) fun _ Γ' b => Γ' = Γ ∧ (b → Reached insts (i + 1)) := by
  have hnext : inst.op.stops = false → Reached insts i → Reached insts (i + 1) :=
    fun hs hr => .next hr hi hs
  have htarget : ∀ {target l}, inst.branchTarget = some target →
      findLabel labels target = some l → ∃ b, (l, b) ∈ Γ ∧ (Reached insts i → b) := by
    intro target l ht hl
    obtain ⟨j, hj, hmem⟩ := hls.findLabel hl
    rw [Nat.zero_add] at hmem
    exact ⟨_, hmem, fun hr => .jump hr hi ht hj⟩
  unfold emitStandaloneInst
  split
  · rename_i cond hop
    refine .bind (certifies_branchRel fun rel size hrel => .bind (.okOr fun l hl => ?_))
    obtain ⟨b, hmem, hb⟩ := htarget (by simp [Inst.branchTarget, hop, hrel]) hl
    exact .bind (.okOr fun c _ => .bCond hmem hb ⟨rfl, hnext (by rw [hop]; rfl)⟩)
  · rename_i hop
    refine .bind (certifies_branchRel fun rel size hrel => .bind (.okOr fun l hl => ?_))
    obtain ⟨b, hmem, hb⟩ := htarget (by simp [Inst.branchTarget, hop, hrel]) hl
    exact .b hmem hb ⟨rfl, False.elim⟩
  · rename_i hjmp
    refine .mapErr ?_
    by_cases hs : inst.op.stops = true
    · -- nothing behind a return or a trap is reached from it
      rcases stops_eq_true hs with hop | hop | hop | hop
      · rw [lift_ret hop]
        exact .ret (fun hr => hcond.ret i inst hr hi hop) ⟨rfl, False.elim⟩
      · exact absurd hop hjmp
      · rw [lift_ud2 hop]
        exact certifies_trap
      · rw [lift_int3 hop]
        exact certifies_trap
    · have hret : inst.op ≠ .ret := fun h => hs (by rw [h]; rfl)
      have hlift : Balanced (reachDomain (stackTop = none)) (fun _ => Reached insts i)
          (lift false inst) := balanced_lift false inst hret
      refine (hlift.certifies p Γ).mono fun _ _ b h => ⟨h.1, ?_⟩
      rw [h.2]
      exact hnext (Bool.eq_false_iff.mpr hs)

/-- The code of the instructions from index `i` on: its end is reached only if the end of the
instructions is. -/
theorem certifies_emitStandaloneBody (hcond : ExitsCleanly stackTop insts)
    (hls : LabelsFor (Reached insts) 0 insts labels Γ) (hx : ∀ inst ∈ insts, inst.XmmOk)
    (rest : List Inst) (i : Nat) (hle : i ≤ insts.length) (hrest : insts.drop i = rest) {a : Prop}
    (ha : a → Reached insts i) :
    Certifies (reachDomain (stackTop = none)) p Γ a
      (emitStandaloneBody labels rest (labels.drop i)) fun _ _ b =>
        b → Reached insts insts.length := by
  induction rest generalizing i a with
  | nil =>
    have hlen : insts.length = i := Nat.le_antisymm (List.drop_eq_nil_iff.mp hrest) hle
    rw [hlen]
    exact .pure ha
  | cons inst rest ih =>
    have hi : insts[i]? = some inst := by
      have hhead := congrArg List.head? hrest
      rwa [List.head?_drop] at hhead
    have hlt : i < insts.length := (List.getElem?_eq_some_iff.mp hi).1
    have htail : insts.drop (i + 1) = rest := by
      have htail := congrArg List.tail hrest
      rwa [List.tail_drop] at htail
    obtain ⟨l, hl, hmem⟩ := hls.known i inst hi
    rw [Nat.zero_add] at hmem
    have hdrop : labels.drop i = (inst.guestRip, l) :: labels.drop (i + 1) := by
      rw [List.drop_eq_getElem?_toList_append, hl]
      rfl
    have := hx inst (List.mem_of_getElem? hi)
    rw [hdrop]
    refine .bind (.bindLabel hmem ha (.bind ((certifies_emitStandaloneInst hcond hls hi).mono ?_)))
    rintro _ Γ' b ⟨rfl, hb⟩
    exact ih (i + 1) hlt htail hb

end Body

/-! ### The contract -/

theorem decodeUntil_xmmOk {isTerminator : Op → Bool} {fuel : Nat} {rip : BitVec 64}
    {bs rest : List Byte} {insts : List Inst}
    (h : decodeUntil isTerminator fuel rip bs = .ok (insts, rest)) : ∀ inst ∈ insts, inst.XmmOk := by
  induction fuel generalizing rip bs insts with
  | zero => cases h
  | succ fuel ih =>
    unfold decodeUntil at h
    split at h
    · cases h
    · rename_i inst rest₁ hdec
      have hinst := decodeNext_xmmOk hdec
      split at h
      · cases h
        intro q hq
        rwa [List.mem_singleton.mp hq]
      · split at h
        · cases h
        · rename_i insts' rest' hrec
          cases h
          intro q hq
          rcases List.mem_cons.mp hq with rfl | hq
          · exact hinst
          · exact ih hrec q hq

/-- The prologue stands at the start, which is reached. -/
theorem certifies_emitGuestStack (stackTop : Option (BitVec 64)) :
    Certifies (reachDomain mayReturn) p [] True (emitGuestStack stackTop : EmitM BlockError Unit)
      fun _ Γ' b => Γ' = [] ∧ b = True := by
  unfold emitGuestStack
  split
  · rename_i top
    have hconst : Steady (reachDomain mayReturn) (fun _ => True)
        (loadConst64 19 top : EmitM BlockError Unit) := inferInstance
    exact .bind (@Certifies.pushPair _ _ (fun _ => True) _ _ _ _ 0 _ _ _ (by decide)
      (hconst.certifies p [] 0))
  · exact .pure ⟨rfl, rfl⟩

/-- The code is certified, with an end that is not reached. -/
theorem certifies_emitStandalone {stackTop : Option (BitVec 64)} {insts : List Inst}
    (hcond : ExitsCleanly stackTop insts) (hx : ∀ inst ∈ insts, inst.XmmOk) :
    Certifies (reachDomain (stackTop = none)) p [] True (emitStandalone stackTop insts) fun _ _ b =>
      ¬ b := by
  refine .bind ((certifies_emitGuestStack stackTop).mono ?_)
  rintro _ _ _ ⟨rfl, rfl⟩
  refine .bind ((certifies_makeLabels (Reached insts) insts 0).mono ?_)
  rintro labels Γ _ ⟨rfl, -, hls⟩
  have hbody := certifies_emitStandaloneBody (p := p) hcond hls hx insts 0 (Nat.zero_le _) rfl
    (a := True) fun _ => .start
  exact .bind (hbody.mono fun _ _ b hb => .pure fun h => hcond.stays (hb h))

/-- An execution that has not left the code by running or branching out of it. -/
def InCode (env : Env) (code : List Word) : Config → Prop
  | .at pc s => ∃ w, code[pc]? = some w ∧
      ∀ i, decode w = some i → i.isLinear = false → (execAt env pc i s).isSome
  | .returned _ => True

/-- What standalone code promises: every execution stays in the code until it returns, and with a
guest stack the stack pointer and `X19` are then what they were. -/
def StandaloneContract (env : Env) (code : List Word) (stackTop : Option (BitVec 64)) (s : State) :
    Prop :=
  (∀ c, Reaches (step env code) (.at 0 s) c → InCode env code c) ∧
  ∀ s', Returns env code s s' → stackTop ≠ none → s'.x 31#5 = s.x 31#5 ∧ s'.x 19#5 = s.x 19#5

/-- In certified code a word that does not fall through has a successor. -/
theorem isSome_execAt_of_pointOk {A : Type} {D : Domain A} {pt : Nat → A} {n pc : Nat} {i : Insn}
    (h : D.PointOk pt n pc (some i)) (hi : i.isLinear = false) (s : State) :
    (execAt env pc i s).isSome = true := by
  have hto : ∀ offset, D.Target pt n pc offset → (branchTo pc offset s).isSome = true := by
    rintro offset ⟨t, ht, -, -⟩
    rw [branchTo, if_pos (by omega)]
    rfl
  have hnext : (branchTo pc 1 s).isSome = true := by
    rw [branchTo, if_pos (by omega)]
    rfl
  cases i with
  | b link imm =>
    cases link with
    | false => exact hto _ h
    | true => exact h.elim
  | bCond cond imm =>
    change (branchTo pc (if cond.holds s.nzcv then imm.toInt else 1) s).isSome = true
    split
    · exact hto _ h.1
    · exact hnext
  | cbz nonzero imm rt =>
    change (branchTo pc (if (s.readX rt != 0) = nonzero then imm.toInt else 1) s).isSome = true
    split
    · exact hto _ h.1
    · exact hnext
  | ret rn =>
    obtain ⟨rfl, -⟩ := h
    rfl
  | tbz | br => exact h.elim
  | _ => cases hi

/-- **Standalone code keeps its contract** when no path through its instructions runs off their end,
and none gets to a `RET` if a guest stack was given. -/
theorem standalone_contract (p : Profile) (bytes : List Byte) (startRip : BitVec 64)
    (stackTop : Option (BitVec 64)) (isTerminator : Op → Bool) (insts : List Inst)
    (rest : List Byte) (block : Block)
    (hdec : decodeUntil isTerminator (bytes.length + 1) startRip bytes = .ok (insts, rest))
    (hblock : translateWithStack p bytes startRip stackTop isTerminator = .ok block)
    (hcond : ExitsCleanly stackTop insts) (env : Env) (s : State) :
    StandaloneContract env block.code stackTop s := by
  unfold translateWithStack at hblock
  rw [hdec] at hblock
  dsimp only at hblock
  unfold finishBlock at hblock
  split at hblock
  · cases hblock
  · rename_i patches e hemit
    split at hblock
    · rename_i u e' hfin
      cases hblock
      obtain ⟨lab, pts, cur, -, hcert, -, -, hentry, -, hend⟩ :=
        certifies_emitStandalone hcond (decodeUntil_xmmOk hdec) Emitter.new [] [] patches e
          (Cert.new True) (by simp [Known]) hemit
      obtain ⟨hlen, hcode⟩ := hcert.finish hfin
      have hreach : ∀ c, Reaches (step env e'.code) (.at 0 s) c →
          Domain.Holds (reachDomain (stackTop = none)) (fun a _ => a) (ptAt pts cur)
            e'.code.length c :=
        fun c hc => hcode.reaches reachDomain_sound (hentry trivial) (fun _ _ _ _ _ => trivial) hc
      refine ⟨fun c hc => ?_, fun s' hs' hne => ?_⟩
      · cases c with
        | returned r => trivial
        | «at» pc s₁ =>
          obtain ⟨hle, hpt⟩ := hreach _ hc
          have hlt : pc < e'.code.length := by
            refine lt_of_le_of_ne hle fun heq => hend ?_
            rwa [heq, hlen, ← hcert.points, ptAt_length] at hpt
          refine ⟨e'.code[pc], List.getElem?_eq_getElem hlt, fun i hi hlin => ?_⟩
          have hok := hcode pc _ (List.getElem?_eq_getElem hlt)
          rw [hi] at hok
          exact isSome_execAt_of_pointOk hok hlin s₁
      · obtain ⟨a, hret, ha⟩ := hreach _ hs'
        exact absurd (hret ha) hne
    · cases hblock

/-- `NOP; RET`, decoded at address zero. -/
def nopRet : List Inst :=
  [⟨.nop, none, none, none, 1, 0⟩, ⟨.ret, none, none, none, 1, 1⟩]

theorem exitsCleanly_nopRet : ExitsCleanly none nopRet := by
  have hreached : ∀ i, Reached nopRet i → i = 0 ∨ i = 1 := by
    intro i h
    induction h with
    | start => exact .inl rfl
    | next hr hi hs ih =>
      rcases ih with rfl | rfl
      · exact .inr rfl
      · cases hi
        cases hs
    | jump hr hi ht hj ih =>
      rcases ih with rfl | rfl
      · cases hi
        cases ht
      · cases hi
        cases ht
  refine ⟨fun h => ?_, fun _ _ _ _ _ => rfl⟩
  rcases hreached _ h with h | h
  · cases h
  · cases h

theorem standalone_contract_nopRet :
    ∃ block, decodeUntil (· == .ret) 3 0 [0x90, 0xC3] = .ok (nopRet, []) ∧
      translateWithStack ⟨true⟩ [0x90, 0xC3] 0 none (· == .ret) = .ok block ∧
      ExitsCleanly none nopRet ∧ StandaloneContract default block.code none default :=
  ⟨_, rfl, rfl, exitsCleanly_nopRet,
    standalone_contract ⟨true⟩ [0x90, 0xC3] 0 none (· == .ret) nopRet [] _ rfl rfl
      exitsCleanly_nopRet default default⟩

/-- A `RET` with a guest stack leaves the saved pair on the host stack, and bytes that run out leave
the code at its end. -/
theorem not_standaloneContract :
    (∃ block, translateWithStack ⟨true⟩ [0xC3] 0 (some 0x1000) (· == .ret) = .ok block ∧
      ¬ StandaloneContract default block.code (some 0x1000) default) ∧
    ∃ block, translateWithStack ⟨true⟩ [0x90] 0 none (· == .ret) = .ok block ∧
      ¬ StandaloneContract default block.code none default := by
  refine ⟨⟨_, rfl, fun h => ?_⟩, ⟨_, rfl, fun h => ?_⟩⟩
  · have hret : Returns default [0xA9BF53F3#32, 0xD2820013#32, 0xD65F03C0#32] default
        (State.writeX (State.pushPair default 19 20) 19 0x1000) :=
      returns_of_runSeq (show List.map decode _
        = [some (pushInsn 19 20), some (.movWide true .movz 0 0x1000 19)] ++ [some (.ret 30)]
        from rfl) rfl
    have hsp := (h.2 _ hret nofun).1
    exact absurd hsp (by decide)
  · have hend : Reaches (step default [0xD503201F#32]) (.at 0 default) (.at 1 default) :=
      .single rfl
    obtain ⟨w, hw, -⟩ := h.1 _ hend
    cases hw

end Quantum.Jit
