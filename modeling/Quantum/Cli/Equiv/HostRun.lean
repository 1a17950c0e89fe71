import Quantum.Cli.Equiv.SharedLoop
import Quantum.Cli.HostRun
import Quantum.Jit.Equiv.BlockMeaning

/-!
# The emulator runs the guest as the interpreter does

Between two blocks the context and the memory outside the emulator's own hold a guest (`Holds`), and the interpreter
gets to that guest (`hostRun_interprets`).  One block keeps this (`BlockEntered.leaves`); a rewritten placeholder finds
the state that the hot entry of the next block expects.
-/

namespace Quantum.Cli

open A64 Jit StateTransition GuestMachine

variable {H : HostSetup} {sp : BitVec 64} {g : GuestMachine} {m m' : ByteMem}

/-! ### The guest in memory -/

/-- The memory `m` holds the guest: its registers in the context, its memory where the emulator has none. -/
structure Holds (H : HostSetup) (m : ByteMem) (g : GuestMachine) : Prop where
  regs : ∀ r, m.read 64 8 (ctxSlot H.ctx r) = g.regs r
  seg : ∀ sg, m.read 64 8 (segSlot H.ctx sg) = g.seg sg
  mem : ∀ b, ¬ H.Private b → m b = g.mem b

/-- The stack of the emulator has room for the frame of a block, and the context is not in its own memory. -/
structure HostSetup.Apart (H : HostSetup) (sp : BitVec 64) : Prop where
  frame : ∀ b, InRange (sp - 48#64) 48 b → H.own b
  context : ∀ b, InRange H.ctx 416 b → ¬ H.own b

theorem inRange_ctx {ctx b : BitVec 64} {off : BitVec 64} (hoff : off.toNat ≤ 152) (h : InRange (ctx + off) 8 b) :
    InRange ctx 416 b := by
  have hsub := ByteMem.toNat_sub_add b ctx off
  rw [InRange] at h ⊢
  omega

theorem inRange_ctxSlot {ctx b : BitVec 64} {r : GpReg} (h : InRange (ctxSlot ctx r) 8 b) : InRange ctx 416 b := by
  have hoff : ((ctxOffset r).setWidth 64).toNat ≤ 152 := by
    cases r <;> decide
  exact inRange_ctx hoff h

theorem inRange_segSlot {ctx b : BitVec 64} {sg : Seg} (h : InRange (segSlot ctx sg) 8 b) : InRange ctx 416 b := by
  cases sg with
  | gs => exact inRange_ctx (by decide) h
  | fs => exact inRange_ctx (by decide) h

theorem segSlot_disjoint {ctx b : BitVec 64} {sg : Seg} (h : InRange (segSlot ctx sg) 8 b) (r : GpReg) :
    ¬ InRange (ctxSlot ctx r) 8 b := by
  have hoff : ((ctxOffset r).setWidth 64).toNat ≤ 120 := by
    cases r <;> decide
  have hslot := ByteMem.toNat_sub_add b ctx ((ctxOffset r).setWidth 64)
  have h144 := ByteMem.toNat_sub_add b ctx 144#64
  have h152 := ByteMem.toNat_sub_add b ctx 152#64
  simp only [BitVec.toNat_ofNat] at h144 h152
  rw [InRange, ctxSlot]
  cases sg <;> rw [InRange, segSlot] at h <;> omega

namespace Holds

/-- The emulator may do what it likes with its own memory. -/
theorem congr (hapart : H.Apart sp) (h : Holds H m g) (hm : ∀ b, ¬ H.own b → m' b = m b) : Holds H m' g where
  regs r := by
    rw [← h.regs r]
    exact ByteMem.read_congr 64 fun b hb => hm b (hapart.context b (inRange_ctxSlot hb))
  seg sg := by
    rw [← h.seg sg]
    exact ByteMem.read_congr 64 fun b hb => hm b (hapart.context b (inRange_segSlot hb))
  mem b hb := (hm b fun hown => hb (.inl hown)).trans (h.mem b hb)

/-- What a block loads. -/
theorem guestIn_eq (h : Holds H m g) : guestIn H.ctx m = g.withMem H.Private m := by
  have hmem : overlay H.Private m g.mem = m := by
    funext b
    by_cases hb : H.Private b
    · exact overlay_of_mem hb
    · rw [overlay_of_not_mem hb, h.mem b hb]
  rw [guestIn, withMem, hmem, funext h.regs, funext h.seg]

/-- What an exit leaves. -/
theorem spill {g' : GuestMachine} {s : State} (h : Holds H m g) (hctx : s.x 28#5 = H.ctx)
    (hguest : guestOf s = g'.withMem H.Private m) (hseg : g'.seg = g.seg) :
    Holds H (Jit.spill s GpReg.all s.mem) g' := by
  have hmem : s.mem = overlay H.Private m g'.mem := congrArg GuestMachine.mem hguest
  have hregs : guest s = g'.regs := congrArg GuestMachine.regs hguest
  refine ⟨fun r => ?_, fun sg => ?_, fun b hb => ?_⟩
  · have hall : r ∈ GpReg.all := by
      cases r <;> decide
    rw [← hctx, read_spill s hall, hregs]
  · rw [hseg, ← h.seg sg]
    refine ByteMem.read_congr 64 fun b hb => ?_
    rw [spill_of_not_slot (fun r => by rw [hctx]; exact segSlot_disjoint hb r), hmem]
    exact overlay_of_mem (.inr (inRange_segSlot hb))
  · have hslot : ∀ r, ¬ InRange (ctxSlot (s.x 28#5) r) 8 b := by
      intro r hr
      rw [hctx] at hr
      exact hb (.inr (inRange_ctxSlot hr))
    rw [spill_of_not_slot hslot, hmem, overlay_of_not_mem hb]

end Holds

/-- The frame of a block is in the emulator's memory. -/
theorem mem_framed (hapart : H.Apart sp) {s : State} (hsp : s.x 31#5 = sp) {b : BitVec 64} (hb : ¬ H.own b) :
    (framed s).mem b = s.mem b := by
  have hout : ¬ InRange (sp - 48#64) 48 b := fun hin => hb (hapart.frame b hin)
  have hpair : ∀ k, 16 ≤ k → k ≤ 48 → ¬ InRange (sp - BitVec.ofNat 64 k) 16 b := by
    intro k h16 h48 hin
    refine hout ?_
    have hk := ByteMem.toNat_sub_sub b sp (k := k) (by omega)
    have hframe := ByteMem.toNat_sub_sub b sp (k := 48) (by omega)
    rw [InRange] at hin ⊢
    omega
  have h32 : sp - 16#64 - 16#64 = sp - BitVec.ofNat 64 32 := by
    rw [BitVec.sub_sub]
    rfl
  have h48 : sp - BitVec.ofNat 64 32 - 16#64 = sp - BitVec.ofNat 64 48 := by
    rw [BitVec.sub_sub]
    rfl
  simp only [framed, State.pushPair_mem, State.pushPair_x, if_true, hsp]
  rw [ByteMem.push2_of_not_inRange, ByteMem.push2_of_not_inRange, ByteMem.push2_of_not_inRange]
  · exact hpair 16 (by omega) (by omega)
  · rw [h32]
    exact hpair 32 (by omega) (by omega)
  · rw [h32, h48]
    exact hpair 48 (by omega) (by omega)

/-! ### One block -/

/-- Where a block is entered: at its first word with the context in `X0`, or at the hot entry with the frame of the
block before it. -/
inductive BlockEntered (H : HostSetup) (sp : BitVec 64) : Nat → State → Prop where
  | cold {s : State} (hctx : s.x 0#5 = H.ctx) (hsp : s.x 31#5 = sp) : BlockEntered H sp 0 s
  | hot {s : State} (hptrs : hostPointers s = (H.ctx, sp - 48#64)) :
    BlockEntered H sp (DISPATCHER_HOT_ENTRY_OFFSET / 4) s

/-- A run of a block of `rip` that begins at `start` with the guest `g` leaves to `next` in state `s₁`.  It stops the
dispatcher, or the interpreter gets there too. -/
structure Leaves (H : HostSetup) (sp : BitVec 64) (blk : Block) (start : A64.Config) (rip : BitVec 64)
    (g : GuestMachine) (next : BitVec 64) (s₁ : State) : Prop where
  pointers : hostPointers s₁ = (H.ctx, sp - 48#64)
  returns : Reaches (A64.step H.env blk.code) start (.returned (exited s₁ next))
  sites : ∀ q ∈ blk.chainPatches, ∀ k s, q.1.toNat = 4 * k → Reaches (A64.step H.env blk.code) start (.at k s) →
    q.2 = next ∧ s = atSite s₁
  goesOn : (next = STOP_SENTINEL ∧ blk.chainPatches = []) ∨
    ∃ g', Reaches (interpret H.text) ⟨rip, g, none⟩ ⟨next, g', none⟩ ∧ Holds H (Jit.spill s₁ GpReg.all s₁.mem) g'

/-- What a run passes before it returns is in the code. -/
theorem lt_length_of_returns {env : Env} {code : List Word} {start : A64.Config} {k : Nat} {s r : State}
    (hret : Reaches (A64.step env code) start (.returned r)) (h : Reaches (A64.step env code) start (.at k s)) :
    k < code.length := by
  rcases reaches_total h hret with hc | hc
  · rcases Relation.ReflTransGen.cases_head hc with heq | ⟨d, hd, -⟩
    · cases heq
    · obtain ⟨w, hw, -⟩ := Option.bind_eq_some_iff.mp hd
      exact (List.getElem?_eq_some_iff.mp hw).1
  · rcases Relation.ReflTransGen.cases_head hc with heq | ⟨d, hd, -⟩
    · cases heq
    · cases hd

/-- A block of plain instructions does what the interpreter does, wherever it is entered. -/
theorem leaves_of_runsOn {blk : Block} {body : List Inst} {term : Inst} (c : PlainCode body term blk)
    (hlen : blk.hostBytes.length ≤ 2 ^ 32) {start : A64.Config} {rip next : BitVec 64} {s₁ : State} (hm : Holds H m g)
    (hruns : c.RunsOn H.env start (guestIn H.ctx m) (H.ctx, sp - 48#64) next s₁)
    (hterm : term.op.isTerminator = false ∨
      ∃ next g', Jit.Runs H.text H.Private ⟨rip, g, none⟩ body term next g') :
    Leaves H sp blk start rip g next s₁ where
  pointers := hruns.pointers
  returns := hruns.leaves.returns
  sites q hq k s hk hreach := by
    rw [c.patches] at hq
    obtain ⟨site, hsite, rfl⟩ := List.mem_map.mp hq
    -- the offset of the placeholder in the 32 bits that the block has for it
    have hlt := lt_length_of_returns hruns.leaves.returns hreach
    have hwithin := (c.goesOn.within site hsite).2
    have hcode := congrArg List.length c.code
    simp only [List.length_map, List.length_append] at hcode
    rw [length_hostBytes] at hlen
    rw [BitVec.toNat_ofNat, Nat.mod_eq_of_lt (by omega)] at hk
    obtain rfl : k = prologueInsns.length + c.bodyCode.length + site.1 := by
      omega
    exact hruns.leaves.sites site hsite s hreach
  goesOn := by
    have hmeans := hruns.means
    rcases hterm with hcut | ⟨next', g', hsame⟩
    · left
      refine ⟨?_, by rw [c.patches, c.cut hcut, List.map_nil]⟩
      obtain ⟨r, -, hstop⟩ := Option.bind_eq_some_iff.mp hmeans
      rw [exitMeaning, hcut] at hstop
      exact (Prod.mk.inj (Option.some.inj hstop)).1.symm
    · right
      rw [hm.guestIn_eq] at hmeans
      obtain ⟨rfl, hguest⟩ := Prod.mk.inj (Option.some.inj (hmeans.symm.trans (hsame.means m)))
      exact ⟨g', hsame.reaches, hm.spill (congrArg Prod.fst hruns.pointers) hguest hsame.seg⟩

theorem asksRight_of_block {body : List Inst} {term : Inst} {rip : BitVec 64} (hm : Holds H m g)
    (hterm : term.op.isTerminator = false ∨
      ∃ next g', Jit.Runs H.text H.Private ⟨rip, g, none⟩ body term next g') :
    BlockAsksRight body term (guestIn H.ctx m) none := by
  rcases hterm with hcut | ⟨next', g', hsame⟩
  · intro r _ cc hcc
    rw [hcc] at hcut
    cases hcut
  · rw [hm.guestIn_eq]
    exact hsame.asks m

theorem BlockEntered.leaves (hapart : H.Apart sp) {pc : Nat} {s : State} (h : BlockEntered H sp pc s)
    (hg : Holds H s.mem g) {rip : BitVec 64} {blk : Block} (hblk : H.IsBlockAt rip blk)
    (htame : ∀ c, Reaches (interpret H.text) ⟨rip, g, none⟩ c → TameAt H.text H.Private c) :
    ∃ next s₁, Leaves H sp blk (.at pc s) rip g next s₁ := by
  obtain ⟨n, htrans, hlen⟩ := hblk
  obtain ⟨body, term, rest, -, -, -, -, -, hdec, -⟩ := block_parts htrans
  obtain ⟨hbody, hterm⟩ := interpret_block (c := ⟨rip, g, none⟩) hdec htame
  obtain ⟨c⟩ := exists_plainCode htrans hdec hbody (hterm.symm.imp_left fun ⟨_, _, hruns⟩ => hruns.exit)
  cases h with
  | cold hctx hsp =>
    have hm : Holds H (framed s).mem g := hg.congr hapart fun b => mem_framed hapart hsp
    have hcold := c.runsOn_cold H.env s
    rw [hctx, hsp] at hcold
    obtain ⟨next, s₁, hruns⟩ := hcold (asksRight_of_block hm hterm)
    exact ⟨next, s₁, leaves_of_runsOn c hlen hm hruns hterm⟩
  | hot hptrs =>
    have hctx : s.x 28#5 = H.ctx := congrArg Prod.fst hptrs
    have hhot := c.runsOn_hot H.env s
    rw [hptrs, hctx] at hhot
    obtain ⟨next, s₁, hruns⟩ := hhot (asksRight_of_block hg hterm)
    exact ⟨next, s₁, leaves_of_runsOn c hlen hg hruns hterm⟩

/-! ### Runs -/

/-- What holds between two steps of a run from the guest `start`. -/
def HostConfig.Sound (H : HostSetup) (sp : BitVec 64) (start : GuestConfig) : HostConfig → Prop
  | .loop rip s => s.x 31#5 = sp ∧ ∃ g, Reaches (interpret H.text) start ⟨rip, g, none⟩ ∧ Holds H s.mem g
  | .code blk c => ∃ rip g pc s, Reaches (interpret H.text) start ⟨rip, g, none⟩ ∧ H.IsBlockAt rip blk ∧
      BlockEntered H sp pc s ∧ Holds H s.mem g ∧ Reaches (A64.step H.env blk.code) (.at pc s) c

/-- The exit takes the frame of the block from the stack. -/
theorem exited_x31 (s : State) (next : BitVec 64) : (exited s next).x 31#5 = s.x 31#5 + 48#64 := by
  have hadd : s.x 31#5 + 16#64 + 16#64 + 16#64 = s.x 31#5 + 48#64 := by
    rw [BitVec.add_assoc, BitVec.add_assoc, show 16#64 + (16#64 + 16#64) = 48#64 by decide]
  simp [exited, unframed, State.popPair_x, State.x_writeX, hadd]

theorem HostConfig.Sound.step (hapart : H.Apart sp) {start : GuestConfig}
    (htame : ∀ c, Reaches (interpret H.text) start c → TameAt H.text H.Private c) {c c' : HostConfig}
    (hstep : HostStep H c c') (h : c.Sound H sp start) : c'.Sound H sp start := by
  cases hstep with
  | call hblk hctx hsp hmem =>
    obtain ⟨hs, g, hreach, hg⟩ := h
    exact ⟨_, g, 0, _, hreach, hblk, .cold hctx (hsp.trans hs), hg.congr hapart hmem, .refl⟩
  | run hrun =>
    obtain ⟨rip, g, pc, s, hreach, hblk, hentered, hg, hcode⟩ := h
    exact ⟨rip, g, pc, s, hreach, hblk, hentered, hg, hcode.tail hrun⟩
  | link hq hk hblk' =>
    obtain ⟨rip, g, pc, s, hreach, hblk, hentered, hg, hcode⟩ := h
    obtain ⟨next, s₁, hleaves⟩ := hentered.leaves hapart hg hblk fun c hc => htame c (hreach.trans hc)
    obtain ⟨hnext, rfl⟩ := hleaves.sites _ hq _ _ hk hcode
    rcases hleaves.goesOn with ⟨-, hnone⟩ | ⟨g', hgoes, hg'⟩
    · rw [hnone] at hq
      cases hq
    · rw [← hnext] at hgoes
      exact ⟨_, g', _, atSite s₁, hreach.trans hgoes, hblk', .hot hleaves.pointers, hg', .refl⟩
  | ret hstop =>
    obtain ⟨rip, g, pc, s, hreach, hblk, hentered, hg, hcode⟩ := h
    obtain ⟨next, s₁, hleaves⟩ := hentered.leaves hapart hg hblk fun c hc => htame c (hreach.trans hc)
    obtain rfl := returned_unique hcode hleaves.returns
    rw [exited_x0] at hstop ⊢
    rcases hleaves.goesOn with ⟨hnext, -⟩ | ⟨g', hgoes, hg'⟩
    · exact absurd hnext hstop
    · refine ⟨?_, g', hreach.trans hgoes, ?_⟩
      · have hsp : s₁.x 31#5 = sp - 48#64 := congrArg Prod.snd hleaves.pointers
        rw [exited_x31, hsp, BitVec.sub_add_cancel]
      · rw [exited_mem]
        exact hg'

theorem HostConfig.Sound.run (hapart : H.Apart sp) {start : GuestConfig}
    (htame : ∀ c, Reaches (interpret H.text) start c → TameAt H.text H.Private c) {c c' : HostConfig}
    (h : c.Sound H sp start) (hrun : Relation.ReflTransGen (HostStep H) c c') : c'.Sound H sp start := by
  induction hrun with
  | refl => exact h
  | tail _ hstep ih => exact ih.step hapart htame hstep

/-- What a run of the emulator shows of the guest.  At the loop, the guest is where the interpreter gets to.  In
between, a block of an address runs that the interpreter gets to, and it will return. -/
def HostConfig.Interprets (H : HostSetup) (start : GuestConfig) : HostConfig → Prop
  | .loop rip s => ∃ g, Reaches (interpret H.text) start ⟨rip, g, none⟩ ∧ Holds H s.mem g
  | .code blk c => ∃ rip g r, Reaches (interpret H.text) start ⟨rip, g, none⟩ ∧ H.IsBlockAt rip blk ∧
      Reaches (A64.step H.env blk.code) c (.returned r)

theorem HostConfig.Sound.interprets (hapart : H.Apart sp) {start : GuestConfig}
    (htame : ∀ c, Reaches (interpret H.text) start c → TameAt H.text H.Private c) {c : HostConfig}
    (h : c.Sound H sp start) : c.Interprets H start := by
  cases c with
  | loop rip s => exact h.2
  | code blk c =>
    obtain ⟨rip, g, pc, s, hreach, hblk, hentered, hg, hcode⟩ := h
    obtain ⟨next, s₁, hleaves⟩ := hentered.leaves hapart hg hblk fun c hc => htame c (hreach.trans hc)
    refine ⟨rip, g, exited s₁ next, hreach, hblk, ?_⟩
    rcases reaches_total hcode hleaves.returns with hc | hc
    · exact hc
    · rcases Relation.ReflTransGen.cases_head hc with rfl | ⟨d, hd, -⟩
      · exact .refl
      · cases hd

/-- **The emulator runs the guest as the interpreter does**, as long as the guest is at plain instructions and keeps
off the emulator's memory: whenever the loop is about to call a block, and whichever placeholders have been rewritten
meanwhile, context and memory hold a guest that the interpreter gets to.  No block gets stuck. -/
theorem hostRun_interprets (H : HostSetup) (hapart : H.Apart sp) {rip₀ : BitVec 64} {s₀ : State} {g₀ : GuestMachine}
    (hsp : s₀.x 31#5 = sp) (hg₀ : Holds H s₀.mem g₀)
    (htame : ∀ c, Reaches (interpret H.text) ⟨rip₀, g₀, none⟩ c → TameAt H.text H.Private c) {c : HostConfig}
    (hrun : Relation.ReflTransGen (HostStep H) (.loop rip₀ s₀) c) : c.Interprets H ⟨rip₀, g₀, none⟩ := by
  have hstart : (HostConfig.loop rip₀ s₀).Sound H sp ⟨rip₀, g₀, none⟩ := ⟨hsp, g₀, .refl, hg₀⟩
  exact (hstart.run hapart htame hrun).interprets hapart htame

/-- `INC RAX; CMP RAX, RCX; JNE -8; JMP -2` at `0x1000`. -/
def countText : BitVec 64 → Byte :=
  fun a => ([0x48, 0xFF, 0xC0, 0x48, 0x39, 0xC8, 0x75, 0xF8, 0xEB, 0xFE] : List Byte).getD (a - 0x1000#64).toNat 0x90

/-- The context at `0x20000` and the frame at `0x10000` are all that the emulator has. -/
def countSetup : HostSetup where
  profile := ⟨true⟩
  env := default
  text := countText
  ctx := 0x20000
  own := InRange 0x10000 48

theorem decode_countText_inc : decodeNext true 0x1000 (window countText 0x1000 15)
    = .ok (⟨.inc, some (.reg .rax .b8), none, none, 3, 0x1000⟩, window countText 0x1003 12) := by
  decide +kernel

theorem decode_countText_cmp : decodeNext true 0x1003 (window countText 0x1003 15)
    = .ok (⟨.cmp, some (.reg .rax .b8), some (.reg .rcx .b8), none, 3, 0x1003⟩, window countText 0x1006 12) := by
  decide +kernel

theorem decode_countText_jne : decodeNext true 0x1006 (window countText 0x1006 15)
    = .ok (⟨.jcc .ne, some (.imm (-8) .b1), none, none, 2, 0x1006⟩, window countText 0x1008 13) := by
  decide +kernel

theorem decode_countText_jmp : decodeNext true 0x1008 (window countText 0x1008 15)
    = .ok (⟨.jmp, some (.imm (-2) .b1), none, none, 2, 0x1008⟩, window countText 0x100A 13) := by
  decide +kernel

/-- Where the loop is, and that the `JNE` finds the flags of the `CMP`. -/
def CountAt (c : GuestConfig) : Prop :=
  c.rip = 0x1000 ∨ c.rip = 0x1003 ∨ (c.rip = 0x1006 ∧ ∃ a b, c.flags = some ⟨.sub, .b8, a, b⟩) ∨ c.rip = 0x1008

/-- Code with registers and immediates only touches no memory. -/
theorem not_touches {inst : Inst} {g : GuestMachine} (h0 : ∀ op, inst.HasOperand op → op.isMem = false)
    (hslot : inst.stackSlot g = none) (b : BitVec 64) : ¬ inst.touches g b := by
  rintro (⟨-, op, hop, hmem, -⟩ | ⟨a, ha, -⟩)
  · rw [h0 op hop] at hmem
    cases hmem
  · rw [hslot] at ha
    cases ha

theorem CountAt.tame {c : GuestConfig} (h : CountAt c) : TameAt countText countSetup.Private c := by
  obtain ⟨rip, g, fl⟩ := c
  rcases h with rfl | rfl | ⟨rfl, a, b, rfl⟩ | rfl
  · refine ⟨_, _, decode_countText_inc, .inl (.unary (.inl rfl) rfl rfl (.inr rfl)), nofun, fun b hb => ?_⟩
    refine absurd hb (not_touches ?_ rfl b)
    rintro op (hop | hop | hop) <;> cases hop
    rfl
  · refine ⟨_, _, decode_countText_cmp, .inl (.compare (.inl rfl) rfl rfl ⟨trivial, trivial, rfl, trivial⟩), nofun,
      fun b hb => ?_⟩
    refine absurd hb (not_touches ?_ rfl b)
    rintro op (hop | hop | hop) <;> cases hop <;> rfl
  · refine ⟨_, _, decode_countText_jne, .inr (.jcc rfl rfl), fun cc hcc => ?_, fun b hb => ?_⟩
    · cases hcc
      exact ⟨_, rfl, FlagSource.answersRight_sub_b8 _ _ ⟨by decide, by decide⟩⟩
    · refine absurd hb (not_touches ?_ rfl b)
      rintro op (hop | hop | hop) <;> cases hop
      rfl
  · refine ⟨_, _, decode_countText_jmp, .inr (.jmp rfl rfl), nofun, fun b hb => ?_⟩
    refine absurd hb (not_touches ?_ rfl b)
    rintro op (hop | hop | hop) <;> cases hop
    rfl

theorem CountAt.step {c c' : GuestConfig} (h : CountAt c) (hstep : interpret countText c = some c') : CountAt c' := by
  obtain ⟨rip, g, fl⟩ := c
  rcases h with rfl | rfl | ⟨rfl, a, b, rfl⟩ | rfl
  · rw [interpret_of_exec (c := ⟨_, g, fl⟩) decode_countText_inc rfl rfl] at hstep
    cases hstep
    exact .inr (.inl rfl)
  · rw [interpret_of_exec (c := ⟨_, g, fl⟩) decode_countText_cmp rfl rfl] at hstep
    cases hstep
    exact .inr (.inr (.inl ⟨rfl, _, _, rfl⟩))
  · have hasks : FlagSource.AnswersRight ⟨.sub, .b8, a, b⟩ .ne :=
      FlagSource.answersRight_sub_b8 a b ⟨by decide, by decide⟩
    rw [interpret_of_goOn (c := ⟨_, g, some ⟨.sub, .b8, a, b⟩⟩) decode_countText_jne rfl
      (goOn_jcc g rfl rfl hasks.answer_eq)] at hstep
    cases hstep
    split
    · exact .inl rfl
    · exact .inr (.inr (.inr rfl))
  · rw [interpret_of_goOn (c := ⟨_, g, fl⟩) decode_countText_jmp rfl (goOn_jmp fl g rfl rfl)] at hstep
    cases hstep
    exact .inr (.inr (.inr rfl))

theorem CountAt.run {c c' : GuestConfig} (h : CountAt c) (hrun : Reaches (interpret countText) c c') : CountAt c' := by
  induction hrun with
  | refl => exact h
  | tail _ hstep ih => exact ih.step hstep

/-- The state with the context and the stack of `countSetup`. -/
def countStart : State :=
  ((default : State).writeX 0#5 0x20000).writeXsp 31 0x10030

theorem hostRun_interprets_count : ∃ blk, countSetup.IsBlockAt 0x1000 blk ∧
    (HostConfig.code blk (.at 0 countStart)).Interprets countSetup ⟨0x1000, guestIn 0x20000 countStart.mem, none⟩ := by
  have hsome : ((translateForDispatcher ⟨true⟩ (window countText 0x1000 8) 0x1000 .long).toOption.map
      fun b => decide (b.hostBytes.length ≤ 2 ^ 32)) = some true := by
    decide +kernel
  obtain ⟨blk, hblock⟩ : ∃ blk, countSetup.IsBlockAt 0x1000 blk := by
    cases htrans : translateForDispatcher ⟨true⟩ (window countText 0x1000 8) 0x1000 .long with
    | error x =>
      rw [htrans] at hsome
      cases hsome
    | ok blk =>
      rw [htrans] at hsome
      exact ⟨blk, 8, htrans, of_decide_eq_true (Option.some.inj hsome)⟩
  have hapart : countSetup.Apart 0x10030 := by
    refine ⟨fun b hb => hb, fun b hb hown => ?_⟩
    have hin : (b - 0x20000#64).toNat < 416 := hb
    have hout : (b - 0x10000#64).toNat < 48 := hown
    bv_omega
  have hsp : countStart.x 31#5 = 0x10030 := rfl
  refine ⟨blk, hblock, hostRun_interprets countSetup hapart hsp ?_ ?_ ?_⟩
  · exact ⟨fun r => rfl, fun sg => rfl, fun b hb => rfl⟩
  · exact fun c hc => (CountAt.run (.inl rfl) hc).tame
  · exact .single (.call hblock rfl rfl fun b hb => rfl)

end Quantum.Cli
