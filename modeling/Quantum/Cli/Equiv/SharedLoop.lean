import Quantum.Cli.SharedLoop
import Quantum.Jit.Equiv.ChainSite
import Quantum.Runtime.Equiv.ChainPatch

/-!
# The code cache under every order of steps

The threads of `SharedLoop` patch each other's blocks while they run in them.  `CacheSound` compares the cache
with the memory `m₀` that it would be in if nothing were patched: an install keeps the two in step, and a patch
touches one placeholder, whose window meets no other one.  With it every step keeps what the activations know
(`Inv.step`), and so every run does (`sharedLoop_chained`).
-/

namespace Quantum.Jit

open A64

variable {p : Profile} {code : List Word} {q q' : BitVec 32 × BitVec 64}

/-! ### The placeholders of a block -/

theorem length_hostBytes (blk : Block) : blk.hostBytes.length = 4 * blk.code.length :=
  Emitter.length_bytes { Emitter.new with code := blk.code }

theorem getElem?_flatMap_leBytes {k i : Nat} {w : Word} (h : code[k]? = some w) (hi : i < 4) :
    (code.flatMap Emitter.leBytes)[4 * k + i]? = some (w.extractLsb' (8 * i) 8) := by
  induction code generalizing k with
  | nil => cases h
  | cons v vs ih =>
    have hlen : (Emitter.leBytes v).length = 4 := rfl
    rw [List.flatMap_cons]
    cases k with
    | zero =>
      obtain rfl := Option.some.inj h
      rw [Nat.mul_zero, Nat.zero_add, List.getElem?_append_left (by omega)]
      interval_cases i <;> rfl
    | succ k =>
      rw [List.getElem?_append_right (by omega), hlen, show 4 * (k + 1) + i - 4 = 4 * k + i by omega]
      exact ih h

/-- A word of an installed block. -/
theorem read_of_bytesAt {m : ByteMem} {a : BitVec 64} {blk : Block} {k : Nat} {w : Word}
    (hm : m.BytesAt a blk.hostBytes) (h : blk.code[k]? = some w) (hlen : blk.hostBytes.length ≤ 2 ^ 32) :
    m.read 32 4 (a + BitVec.ofNat 64 (4 * k)) = w := by
  have hk : k < blk.code.length := (List.getElem?_eq_some_iff.mp h).1
  have hwords := length_hostBytes blk
  refine BitVec.eq_of_getLsbD_eq fun i hi => ?_
  have hsub : (a + BitVec.ofNat 64 (4 * k) + BitVec.ofNat 64 (i / 8) - a).toNat = 4 * k + i / 8 := by
    rw [BitVec.add_assoc, ← BitVec.ofNat_add, BitVec.add_comm a, BitVec.add_sub_cancel, BitVec.toNat_ofNat,
      Nat.mod_eq_of_lt (by omega)]
  have hbyte := hm (a + BitVec.ofNat 64 (4 * k) + BitVec.ofNat 64 (i / 8)) (by rw [InRange, hsub]; omega)
  rw [hsub, Block.hostBytes, getElem?_flatMap_leBytes h (by omega)] at hbyte
  rw [ByteMem.getLsbD_read, ← Option.some.inj hbyte, BitVec.getLsbD_extractLsb']
  have h8 : 8 * (i / 8) + i % 8 = i := by omega
  have hmod : i % 8 < 8 := by omega
  simp [hi, h8, hmod]

/-- An exit returns one target only. -/
theorem SiteAt.target_eq {k : Nat} {t t' : BitVec 64} (h : SiteAt code k t) (h' : SiteAt code k t') : t = t' := by
  obtain ⟨r, hr, rfl, -⟩ := h.exits default default
  obtain ⟨r', hr', rfl, -⟩ := h'.exits default default
  have hstop : ∀ s c, StateTransition.Reaches (A64.step default code) (.returned s) c → c = .returned s := by
    intro s c hc
    rcases Relation.ReflTransGen.cases_head hc with heq | ⟨d, hd, -⟩
    · exact heq.symm
    · cases hd
  rcases StateTransition.reaches_total hr hr' with hc | hc
  · cases hstop _ _ hc
    rfl
  · cases hstop _ _ hc
    rfl

theorem ChainSite.target_eq (h : ChainSite code q) (h' : ChainSite code q') (heq : q.1 = q'.1) : q.2 = q'.2 := by
  have hsite := h.site
  rw [heq] at hsite
  exact hsite.target_eq h'.site

/-- The pairs of a block that fits into 4 GiB are right. -/
theorem chainSites_of_translate {bytes : List Byte} {rip : BitVec 64} {mode : IsaMode} {blk : Block}
    (h : translateForDispatcher p bytes rip mode = .ok blk) (hlen : blk.hostBytes.length ≤ 2 ^ 32) :
    ∀ q ∈ blk.chainPatches, ChainSite blk.code q := by
  obtain ⟨body, term, rest, e₀, e₁, e₂, e₃, patches, hdec, h₀, h₁, h₂, hfin, hcode, hpatches⟩ :=
    block_parts h
  obtain ⟨-, sites, -, -, hsites, -, -⟩ := start_of_finish hdec h₀ h₁ h₂ hfin
  rw [length_hostBytes, hcode] at hlen
  intro q hq
  rw [hpatches, hsites.patches] at hq
  obtain ⟨⟨k, t⟩, hmem, rfl⟩ := List.mem_map.mp hq
  have hsite := hsites.site e₃ hfin _ hmem
  have hlt : k < e₃.code.length := (List.getElem?_eq_some_iff.mp hsite.word).1
  rw [hcode]
  exact hsite.chainSite (by omega)

end Quantum.Jit

namespace Quantum.Cli

open Quantum.Jit Quantum.Runtime

variable {cfg : SharedConfig} {d : Dispatcher} {blocks : List CachedBlock} {m₀ : ByteMem} {b b' : CachedBlock}
  {q q' : BitVec 32 × BitVec 64} {a a' target target' : BitVec 64}

/-! ### What holds of the cache -/

def CachedBlock.installed (b : CachedBlock) : Installed :=
  ⟨b.rip, b.ptr, ⟨b.block.hostBytes, b.length_lt⟩⟩

/-- A block has a placeholder for the target at the address. -/
def WaitsAt (blocks : List CachedBlock) (a target : BitVec 64) : Prop :=
  ∃ b ∈ blocks, ∃ q ∈ b.block.chainPatches, b.site q.1 = a ∧ q.2 = target

/-- The word at a placeholder goes on to the exit behind it, or branches to a block of the target. -/
def LeadsTo (blocks : List CachedBlock) (mem : ByteMem) (a target : BitVec 64) : Prop :=
  mem.read 32 4 a = 0x14000001#32 ∨
    ∃ b ∈ blocks, b.rip = target ∧
      ∃ imm, A64.decode (mem.read 32 4 a) = some (.b false imm) ∧ a + imm.signExtend 64 <<< 2 = hotEntry b.ptr

/-- The cache against a memory `m₀` that it would be in if nothing were patched. -/
structure CacheSound (cfg : SharedConfig) (d : Dispatcher) (blocks : List CachedBlock) (m₀ : ByteMem) : Prop where
  packed : History.Packed cfg.region ⟨{ d with mem := m₀ }, blocks.map CachedBlock.installed⟩
  translated : ∀ b ∈ blocks, ∃ bytes, translateForDispatcher cfg.profile bytes b.rip cfg.mode = .ok b.block
  unchanged : ∀ c, (∀ a t, WaitsAt blocks a t → ¬ InRange a 4 c) → d.mem c = m₀ c
  sites : ∀ a t, WaitsAt blocks a t → LeadsTo blocks d.mem a t

namespace CacheSound

theorem inside (h : CacheSound cfg d blocks m₀) (hb : b ∈ blocks) :
    cfg.region.base.toNat ≤ b.ptr.toNat ∧
      b.ptr.toNat + b.block.hostBytes.length ≤ cfg.region.base.toNat + cfg.region.len.toNat :=
  h.packed.integrity.inside _ (List.mem_map_of_mem hb)

theorem aligned (h : CacheSound cfg d blocks m₀) (hb : b ∈ blocks) : 4 ∣ b.ptr.toNat :=
  h.packed.integrity.aligned _ (List.mem_map_of_mem hb)

/-- The map leads to the newest block of an address. -/
theorem lookup (h : CacheSound cfg d blocks m₀) (rip : BitVec 64) :
    d.lookup rip = (blocks.find? fun b => b.rip == rip).map CachedBlock.ptr := by
  have hlookup := h.packed.integrity.lookup rip
  rw [List.find?_map, Option.map_map] at hlookup
  exact hlookup

theorem disjoint (h : CacheSound cfg d blocks m₀) :
    blocks.Pairwise fun b b' => Disjoint b.installed.range b'.installed.range := by
  have hdis := h.packed.integrity.disjoint
  rwa [List.pairwise_map] at hdis

variable (h32 : cfg.region.len.toNat ≤ 2 ^ 32)
include h32

theorem chainSite (h : CacheSound cfg d blocks m₀) (hb : b ∈ blocks) (hq : q ∈ b.block.chainPatches) :
    Jit.ChainSite b.block.code q := by
  obtain ⟨bytes, hbytes⟩ := h.translated b hb
  have hin := h.inside hb
  exact chainSites_of_translate hbytes (by omega) q hq

/-- A placeholder lies in its block. -/
theorem toNat_site (h : CacheSound cfg d blocks m₀) (hb : b ∈ blocks) (hq : q ∈ b.block.chainPatches) :
    (b.site q.1).toNat = b.ptr.toNat + q.1.toNat ∧ q.1.toNat + 4 ≤ b.block.hostBytes.length := by
  have hin := h.inside hb
  have hspace := cfg.region.in_space
  have hbound := (h.chainSite h32 hb hq).inBounds
  rw [← length_hostBytes] at hbound
  refine ⟨?_, hbound⟩
  have hwide : (q.1.setWidth 64).toNat = q.1.toNat := BitVec.toNat_setWidth_of_le (by decide)
  rw [CachedBlock.site, BitVec.toNat_add_of_lt (by omega), hwide]

theorem site_aligned (h : CacheSound cfg d blocks m₀) (hw : WaitsAt blocks a target) : a.toNat % 4 = 0 := by
  obtain ⟨b, hb, q, hq, rfl, -⟩ := hw
  have hal := h.aligned hb
  have hoff := (h.chainSite h32 hb hq).aligned
  rw [(h.toNat_site h32 hb hq).1]
  omega

theorem site_lt (h : CacheSound cfg d blocks m₀) (hw : WaitsAt blocks a target) : a.toNat + 4 < 2 ^ 64 := by
  obtain ⟨b, hb, q, hq, rfl, -⟩ := hw
  have hin := h.inside hb
  have hspace := cfg.region.in_space
  obtain ⟨hnat, hlt⟩ := h.toNat_site h32 hb hq
  omega

/-- Two placeholders are the same, and for one target, or have no byte in common. -/
theorem site_cases (h : CacheSound cfg d blocks m₀) (hw : WaitsAt blocks a target) (hw' : WaitsAt blocks a' target') :
    (a = a' ∧ target = target') ∨ Disjoint64 a 4 a' 4 := by
  have hal := h.site_aligned h32 hw
  have hal' := h.site_aligned h32 hw'
  by_cases heq : a = a'
  · left
    refine ⟨heq, ?_⟩
    subst heq
    obtain ⟨b, hb, q, hq, hsite, rfl⟩ := hw
    obtain ⟨b', hb', q', hq', hsite', rfl⟩ := hw'
    obtain ⟨hnat, hlt⟩ := h.toNat_site h32 hb hq
    obtain ⟨hnat', hlt'⟩ := h.toNat_site h32 hb' hq'
    rw [hsite] at hnat
    rw [hsite'] at hnat'
    have hblock : b = b' := by
      by_contra hne
      have hsymm : Std.Symm fun b b' : CachedBlock => Disjoint b.installed.range b'.installed.range :=
        ⟨fun _ _ hd => hd.symm⟩
      have hdis := h.disjoint.forall hb hb' hne
      have hmem : a.toNat ∈ b.installed.range := by
        simp only [CachedBlock.installed, Installed.range, Set.mem_Ico]
        omega
      have hmem' : a.toNat ∈ b'.installed.range := by
        simp only [CachedBlock.installed, Installed.range, Set.mem_Ico]
        omega
      exact Set.disjoint_left.mp hdis hmem hmem'
    subst hblock
    refine (h.chainSite h32 hb hq).target_eq (h.chainSite h32 hb hq') ?_
    apply BitVec.eq_of_toNat_eq
    omega
  · right
    have hne : a.toNat ≠ a'.toNat := fun hnat => heq (BitVec.eq_of_toNat_eq hnat)
    have hlt := h.site_lt h32 hw
    have hlt' := h.site_lt h32 hw'
    rcases Nat.lt_or_gt_of_ne hne with hless | hmore
    · exact History.disjoint64_of_le (by omega) (by omega)
    · intro c hc hc'
      exact History.disjoint64_of_le (a := a') (b := a) (n := 4) (k := 4) (by omega) (by omega) c hc' hc

/-- Rewrite a placeholder. -/
theorem write (h : CacheSound cfg d blocks m₀) (hw : WaitsAt blocks a target) {v : BitVec 32}
    (hv : LeadsTo blocks (d.mem.write 4 a v) a target) :
    CacheSound cfg { d with mem := d.mem.write 4 a v } blocks m₀ where
  packed := h.packed
  translated := h.translated
  unchanged c hc := by
    rw [← h.unchanged c hc]
    exact ByteMem.write_of_not_inRange (hc a target hw)
  sites a' t' hw' := by
    rcases h.site_cases h32 hw' hw with ⟨rfl, rfl⟩ | hdis
    · exact hv
    · have hold := h.sites a' t' hw'
      rw [LeadsTo] at hold ⊢
      rwa [ByteMem.read_write_of_disjoint 32 hdis]

theorem patch (h : CacheSound cfg d blocks m₀) (hb : b ∈ blocks) (hw : WaitsAt blocks a b.rip)
    {overflowChecks r : Bool} {d' : Dispatcher}
    (hd : d.patchChain overflowChecks a (hotEntry b.ptr) = some (r, d')) : CacheSound cfg d' blocks m₀ := by
  have hov : overflowChecks = true → (hotEntry b.ptr).ssubOverflow a = false := by
    rintro rfl
    by_contra hover
    rw [Bool.not_eq_false] at hover
    rw [Dispatcher.patchChain, hover] at hd
    cases hd
  have hhot : (hotEntry b.ptr).toNat % 4 = 0 := by
    have hal := h.aligned hb
    rw [hotEntry, BitVec.toNat_add, DISPATCHER_HOT_ENTRY_OFFSET, BitVec.toNat_ofNat]
    omega
  have hrewrites := rewrites_patchChain (d := d) (h.site_aligned h32 hw) hhot hov
  rw [hd] at hrewrites
  rcases hrewrites with ⟨heq, -⟩ | ⟨d'', imm, heq, -, hmem, hdec, hdest⟩
  · cases heq
    exact h
  · cases heq
    rw [hmem]
    apply h.write h32 hw
    refine .inr ⟨b, hb, rfl, imm, ?_, hdest⟩
    have hself : d'.mem.read 32 4 a = (d.mem.write 4 a (d'.mem.read 32 4 a)).read 32 4 a :=
      congrArg (fun e : Dispatcher => e.mem.read 32 4 a) hmem
    rw [← hself]
    exact hdec

omit h32

/-- The bytes of a block are bytes of the cache. -/
theorem inRange_region (h : CacheSound cfg d blocks m₀) (hb : b ∈ blocks) {c : BitVec 64}
    (hc : InRange b.ptr b.block.hostBytes.length c) : InRange cfg.region.base cfg.region.len.toNat c := by
  have hin := h.inside hb
  have hsub : (b.ptr - cfg.region.base).toNat = b.ptr.toNat - cfg.region.base.toNat := by
    apply BitVec.toNat_sub_of_le
    rw [BitVec.le_def]
    omega
  have hdist := ByteMem.toNat_sub_add c cfg.region.base (b.ptr - cfg.region.base)
  rw [BitVec.add_comm, BitVec.sub_add_cancel, hsub] at hdist
  rw [InRange] at hc ⊢
  rw [hdist]
  exact Nat.lt_of_le_of_lt (Nat.mod_le _ _) (by omega)

include h32

/-- The bytes of a placeholder are bytes of its block. -/
theorem inRange_block (h : CacheSound cfg d blocks m₀) (hb : b ∈ blocks) (hq : q ∈ b.block.chainPatches)
    {c : BitVec 64} (hc : InRange (b.site q.1) 4 c) : InRange b.ptr b.block.hostBytes.length c := by
  obtain ⟨-, hlt⟩ := h.toNat_site h32 hb hq
  have hdist := ByteMem.toNat_sub_add c b.ptr (q.1.setWidth 64)
  have hwide : (q.1.setWidth 64).toNat = q.1.toNat := BitVec.toNat_setWidth_of_le (by decide)
  rw [InRange] at hc ⊢
  rw [hdist, hwide]
  exact Nat.lt_of_le_of_lt (Nat.mod_le _ _) (by rw [CachedBlock.site] at hc; omega)

/-- Code outside the cache writes a byte outside it. -/
theorem write_outside (h : CacheSound cfg d blocks m₀) (ha : ¬ InRange cfg.region.base cfg.region.len.toNat a)
    (v : BitVec 8) :
    CacheSound cfg { d with mem := Function.update d.mem a v } blocks (Function.update m₀ a v) := by
  have hne : ∀ b ∈ blocks, ∀ c, InRange b.ptr b.block.hostBytes.length c → c ≠ a := by
    rintro b hb c hc rfl
    exact ha (h.inRange_region hb hc)
  refine ⟨?_, h.translated, fun c hc => ?_, fun a' t' hw => ?_⟩
  · have hint := h.packed.integrity
    refine { h.packed with integrity := { hint with intact := fun i hi => ?_ } }
    obtain ⟨b, hb, rfl⟩ := List.mem_map.mp hi
    exact (hint.intact _ hi).congr fun c hc => Function.update_of_ne (hne b hb c hc) _ _
  · by_cases hca : c = a
    · subst hca
      simp
    · simp only [Function.update_of_ne hca]
      exact h.unchanged c hc
  · have hold := h.sites a' t' hw
    obtain ⟨b, hb, q, hq, rfl, rfl⟩ := hw
    have hread : ByteMem.read 32 4 (Function.update d.mem a v) (b.site q.1) = d.mem.read 32 4 (b.site q.1) :=
      ByteMem.read_congr 32 fun c hc =>
        Function.update_of_ne (hne b hb c (h.inRange_block h32 hb hq hc)) _ _
    rw [LeadsTo] at hold ⊢
    rwa [hread]

omit h32

/-- What an install comes to: there is no room and nothing happens, or the bytes go to the bump offset. -/
theorem install_cases (h : CacheSound cfg d blocks m₀) (rip : BitVec 64) (code : Slice) :
    (∃ e, d.install rip code = (.error e, d)) ∨
      d.codeCache.used.toNat + code.bytes.length ≤ cfg.region.len.toNat ∧
        d.install rip code = (.ok (cfg.region.base + d.codeCache.used), History.installed d rip code) := by
  have hregion : d.codeCache.region = cfg.region := h.packed.region_eq
  have hused : d.codeCache.used.toNat ≤ d.codeCache.region.len.toNat := by
    rw [hregion]
    exact h.packed.used_le
  rcases Nat.lt_or_ge cfg.region.len.toNat (d.codeCache.used.toNat + code.bytes.length) with hlt | hroom
  · left
    rw [← hregion] at hlt
    exact ⟨_, by rw [Dispatcher.install, CodeCache.install_of_oversize _ hused hlt]⟩
  · refine .inr ⟨hroom, ?_⟩
    rw [← hregion] at hroom ⊢
    rw [Dispatcher.install, CodeCache.install_of_fits _ hused hroom]
    rfl

include h32

/-- Install a translated block. -/
theorem install (hregion : 4 ∣ cfg.region.len.toNat) (h : CacheSound cfg d blocks m₀) {rip ptr : BitVec 64}
    {bytes : List (BitVec 8)} {block : Block} {d' : Dispatcher}
    (hblock : translateForDispatcher cfg.profile bytes rip cfg.mode = .ok block)
    (hlt : block.hostBytes.length < 2 ^ 63) (hd : d.install rip ⟨block.hostBytes, hlt⟩ = (.ok ptr, d')) :
    CacheSound cfg d' (⟨rip, ptr, block, hlt⟩ :: blocks) (m₀.storeBytes ptr block.hostBytes) := by
  obtain ⟨e, heq⟩ | ⟨hroom, heq⟩ := h.install_cases rip ⟨block.hostBytes, hlt⟩
  · cases heq.symm.trans hd
  cases heq.symm.trans hd
  have hmono : ∀ a t, WaitsAt blocks a t →
      WaitsAt (⟨rip, cfg.region.base + d.codeCache.used, block, hlt⟩ :: blocks) a t := by
    rintro a t ⟨b, hb, hq⟩
    exact ⟨b, List.mem_cons_of_mem _ hb, hq⟩
  have hregionEq : d.codeCache.region = cfg.region := h.packed.region_eq
  constructor
  case packed =>
    have hstep := h.packed.step hregion rip ⟨block.hostBytes, hlt⟩
    rw [History.step, h.packed.install_ok hroom] at hstep
    simp only [History.installed, hregionEq] at hstep ⊢
    exact hstep
  case translated => exact List.forall_mem_cons.mpr ⟨⟨bytes, hblock⟩, h.translated⟩
  case unchanged =>
    intro c hc
    have hold := h.unchanged c fun a t hw => hc a t (hmono a t hw)
    simp only [History.installed, hregionEq, ByteMem.storeBytes, hold]
  case sites =>
    simp only [History.installed, hregionEq]
    rintro a t ⟨b, hb, q, hq, rfl, rfl⟩
    rcases List.mem_cons.mp hb with rfl | hb
    · -- The new placeholders are as they were translated.
      left
      have hsite := chainSites_of_translate hblock (by simp only at hroom; omega) q hq
      have hoff : q.1.setWidth 64 = BitVec.ofNat 64 (4 * (q.1.toNat / 4)) := by
        have hal := hsite.aligned
        apply BitVec.eq_of_toNat_eq
        rw [BitVec.toNat_setWidth, BitVec.toNat_ofNat, show 4 * (q.1.toNat / 4) = q.1.toNat by omega]
      rw [CachedBlock.site, hoff]
      exact read_of_bytesAt (ByteMem.bytesAt_storeBytes _ _ _) hsite.site.word (by simp only at hroom; omega)
    · -- The old ones lie below the bump offset.
      have hbelow : b.ptr.toNat + b.block.hostBytes.length ≤ cfg.region.base.toNat + d.codeCache.used.toNat :=
        h.packed.below _ (List.mem_map_of_mem hb)
      have hptr : (cfg.region.base + d.codeCache.used).toNat =
          cfg.region.base.toNat + d.codeCache.used.toNat := h.packed.toNat_ptr
      have hspace := cfg.region.in_space
      have hdis : Disjoint64 b.ptr b.block.hostBytes.length (cfg.region.base + d.codeCache.used)
          block.hostBytes.length :=
        History.disjoint64_of_le (by omega) (by simp only at hroom; omega)
      have hread : (d.mem.storeBytes (cfg.region.base + d.codeCache.used) block.hostBytes).read 32 4
          (b.site q.1) = d.mem.read 32 4 (b.site q.1) :=
        ByteMem.read_congr 32 fun c hc =>
          ByteMem.storeBytes_of_not_inRange (hdis c (h.inRange_block h32 hb hq hc))
      rw [LeadsTo, hread]
      refine (h.sites _ _ ⟨b, hb, q, hq, rfl, rfl⟩).imp_right ?_
      rintro ⟨b', hb', hto⟩
      exact ⟨b', List.mem_cons_of_mem _ hb', hto⟩

/-- A byte of a block is no byte of another one, and of a placeholder of its own only. -/
theorem intact (h : CacheSound cfg d blocks m₀) (hb : b ∈ blocks) {c : BitVec 64}
    (hc : InRange b.ptr b.block.hostBytes.length c)
    (hout : ∀ q ∈ b.block.chainPatches, ¬ InRange (b.site q.1) 4 c) :
    b.block.hostBytes[(c - b.ptr).toNat]? = some (d.mem c) := by
  have hrange : ∀ b ∈ blocks, InRange b.ptr b.block.hostBytes.length c → c.toNat ∈ b.installed.range := by
    intro b hb hc
    have hin := h.inside hb
    have hspace := cfg.region.in_space
    rw [InRange] at hc
    have hdist : c.toNat = b.ptr.toNat + (c - b.ptr).toNat := by
      rw [← BitVec.toNat_add_of_lt (by omega), BitVec.add_comm, BitVec.sub_add_cancel]
    simp only [CachedBlock.installed, Installed.range, Set.mem_Ico]
    omega
  have hfree : ∀ a t, WaitsAt blocks a t → ¬ InRange a 4 c := by
    rintro a t ⟨b', hb', q, hq, rfl, -⟩ hsite
    have hmem := hrange b hb hc
    have hmem' := hrange b' hb' (h.inRange_block h32 hb' hq hsite)
    have hsymm : Std.Symm fun b b' : CachedBlock => Disjoint b.installed.range b'.installed.range :=
      ⟨fun _ _ hd => hd.symm⟩
    by_cases hne : b = b'
    · subst hne
      exact hout q hq hsite
    · exact Set.disjoint_left.mp (h.disjoint.forall hb hb' hne) hmem hmem'
  rw [h.unchanged c hfree]
  exact h.packed.integrity.intact _ (List.mem_map_of_mem hb) c hc

end CacheSound

/-! ### What holds of a thread -/

/-- An activation knows of placeholders and blocks of the cache only, and has found what it looked for. -/
def Activation.Sound (blocks : List CachedBlock) (f : Activation) : Prop :=
  (∀ w ∈ f.unpatched, WaitsAt blocks w.2 w.1) ∧
    match f.phase with
    | .head => True
    | .missed => True
    | .found ptr => ∃ b ∈ blocks, b.ptr = ptr ∧ b.rip = f.currentRip
    | .patching ptr sites =>
      (∃ b ∈ blocks, b.ptr = ptr ∧ b.rip = f.currentRip) ∧ ∀ a ∈ sites, WaitsAt blocks a f.currentRip
    | .running entry => ∃ b ∈ blocks, entry = b.ptr ∨ entry = hotEntry b.ptr

theorem WaitsAt.cons (h : WaitsAt blocks a target) (b : CachedBlock) : WaitsAt (b :: blocks) a target := by
  obtain ⟨b', hb', hq⟩ := h
  exact ⟨b', List.mem_cons_of_mem _ hb', hq⟩

/-- A new block takes nothing away. -/
theorem Activation.Sound.cons {f : Activation} (h : f.Sound blocks) (b : CachedBlock) :
    f.Sound (b :: blocks) := by
  obtain ⟨hwait, hphase⟩ := h
  refine ⟨fun w hw => (hwait w hw).cons b, ?_⟩
  cases hp : f.phase with
  | head => trivial
  | missed => trivial
  | found ptr =>
    rw [hp] at hphase
    obtain ⟨b', hb', hf⟩ := hphase
    exact ⟨b', List.mem_cons_of_mem _ hb', hf⟩
  | patching ptr sites =>
    rw [hp] at hphase
    obtain ⟨⟨b', hb', hf⟩, hsites⟩ := hphase
    exact ⟨⟨b', List.mem_cons_of_mem _ hb', hf⟩, fun a ha => (hsites a ha).cons b⟩
  | running entry =>
    rw [hp] at hphase
    obtain ⟨b', hb', he⟩ := hphase
    exact ⟨b', List.mem_cons_of_mem _ hb', he⟩

theorem Activation.sound_new (rip : BitVec 64) : (Activation.new rip).Sound blocks :=
  ⟨by simp [Activation.new], trivial⟩

namespace SharedLoop

variable {s s' : SharedLoop} {t : Nat} {f : Activation} {rest : List Activation}

/-- The cache and all activations are sound. -/
structure Inv (cfg : SharedConfig) (s : SharedLoop) : Prop where
  cache : ∃ m₀, CacheSound cfg s.dispatcher s.blocks m₀
  threads : ∀ frames ∈ s.threads, ∀ f ∈ frames, f.Sound s.blocks

theorem inv_start (mem : ByteMem) : (start cfg mem).Inv cfg where
  cache := by
    refine ⟨mem, History.packed_new cfg.region mem, by simp [start], fun _ _ => rfl, ?_⟩
    rintro a t ⟨b, hb, -⟩
    cases hb
  threads := by simp [start]

theorem Inv.setThread (h : s.Inv cfg) {frames : List Activation} (hf : ∀ f ∈ frames, f.Sound s.blocks) :
    (s.setThread t frames).Inv cfg := by
  refine ⟨h.cache, fun frames' hmem => ?_⟩
  rcases List.mem_or_eq_of_mem_set hmem with hold | rfl
  · exact h.threads _ hold
  · exact hf

theorem onTop_some {k : Activation → List Activation → Option SharedLoop} (h : s.onTop t k = some s') :
    ∃ f rest, s.threads[t]? = some (f :: rest) ∧ k f rest = some s' := by
  unfold onTop at h
  split at h
  · exact ⟨_, _, ‹_›, h⟩
  · cases h

/-- The activations of a thread with one on top. -/
theorem Inv.frames (h : s.Inv cfg) (ht : s.threads[t]? = some (f :: rest)) :
    f.Sound s.blocks ∧ ∀ g ∈ rest, g.Sound s.blocks :=
  List.forall_mem_cons.mp (h.threads _ (List.mem_of_getElem? ht))

/-! ### The steps -/

theorem Inv.lookupStep (h : s.Inv cfg) (ht : s.threads[t]? = some (f :: rest)) :
    (s.lookupStep t f rest).Inv cfg := by
  obtain ⟨⟨hwait, -⟩, hrest⟩ := h.frames ht
  obtain ⟨m₀, hcache⟩ := h.cache
  unfold SharedLoop.lookupStep
  split
  · exact h.setThread hrest
  · refine h.setThread (List.forall_mem_cons.mpr ⟨⟨hwait, ?_⟩, hrest⟩)
    have hlookup := hcache.lookup f.currentRip
    cases hfind : s.dispatcher.lookup f.currentRip with
    | none => trivial
    | some ptr =>
      rw [hfind, eq_comm, Option.map_eq_some_iff] at hlookup
      obtain ⟨b, hb, rfl⟩ := hlookup
      have hrip := List.find?_some hb
      exact ⟨b, List.mem_of_find?_eq_some hb, rfl, eq_of_beq hrip⟩

/-- A block goes to the front of the cache, and its placeholders wait. -/
theorem Inv.translateStep (hregion : 4 ∣ cfg.region.len.toNat) (h32 : cfg.region.len.toNat ≤ 2 ^ 32)
    (h : s.Inv cfg) (ht : s.threads[t]? = some (f :: rest)) {bytes : List (BitVec 8)}
    (hs : s.translateStep cfg t f rest bytes = some s') : s'.Inv cfg := by
  obtain ⟨⟨hwait, -⟩, hrest⟩ := h.frames ht
  obtain ⟨m₀, hcache⟩ := h.cache
  unfold SharedLoop.translateStep at hs
  split at hs
  · cases hs
  · cases hs
    exact h.setThread hrest
  · rename_i block hblock
    split at hs
    · rename_i hlt
      split at hs
      · rename_i e d' hinstall
        cases hs
        obtain ⟨e', heq⟩ | ⟨-, heq⟩ := hcache.install_cases f.currentRip ⟨block.hostBytes, hlt⟩
        · cases heq.symm.trans hinstall
          exact h.setThread hrest
        · cases heq.symm.trans hinstall
      · rename_i ptr d' hinstall
        cases hs
        have hnew := hcache.install h32 hregion hblock hlt hinstall
        have hthreads : ∀ frames ∈ s.threads, ∀ f' ∈ frames,
            f'.Sound (⟨f.currentRip, ptr, block, hlt⟩ :: s.blocks) :=
          fun frames hframes f' hf' => (h.threads frames hframes f' hf').cons _
        have hinv : Inv cfg { s with
            dispatcher := d', blocks := ⟨f.currentRip, ptr, block, hlt⟩ :: s.blocks } :=
          ⟨⟨_, hnew⟩, hthreads⟩
        refine hinv.setThread (List.forall_mem_cons.mpr ⟨⟨?_, ?_⟩, fun g hg => (hrest g hg).cons _⟩)
        · intro w hw
          rcases List.mem_append.mp hw with hold | hnew
          · exact (hwait w hold).cons _
          · obtain ⟨q, hq, rfl⟩ := List.mem_map.mp hnew
            exact ⟨_, List.mem_cons_self, q, hq, rfl, rfl⟩
        · exact ⟨_, List.mem_cons_self, rfl, rfl⟩
    · cases hs

theorem Inv.returnTo (h : s.Inv cfg) (ht : s.threads[t]? = some (f :: rest)) (nextRip : BitVec 64) :
    (s.returnTo t f rest nextRip).Inv cfg := by
  obtain ⟨⟨hwait, -⟩, hrest⟩ := h.frames ht
  unfold SharedLoop.returnTo
  split
  · exact h.setThread hrest
  · exact h.setThread (List.forall_mem_cons.mpr ⟨⟨hwait, trivial⟩, hrest⟩)

/-- The activation goes on at the guest address: the loop has it, or a block of it is entered. -/
def ContinuesAt (s : SharedLoop) (t : Nat) (f : Activation) (rest : List Activation) (target : BitVec 64)
    (s' : SharedLoop) : Prop :=
  s' = s.returnTo t f rest target ∨
    ∃ b ∈ s.blocks, b.rip = target ∧ s' = s.setThread t ({ f with phase := .running (hotEntry b.ptr) } :: rest)

/-- A branch that is decoded from the placeholder leads to the next word. -/
theorem decode_placeholder : A64.decode 0x14000001#32 = some (.b false 1) := by
  decide

/-- A block can always leave by its placeholder, and goes on at the target. -/
theorem leaveBy_continues (t : Nat) (f : Activation) (rest : List Activation) {m₀ : ByteMem}
    (h : CacheSound cfg s.dispatcher s.blocks m₀)
    (hw : WaitsAt s.blocks a target) :
    ∃ s', s.leaveBy t f rest a target = some s' ∧ s.ContinuesAt t f rest target s' := by
  rcases h.sites a target hw with hold | ⟨b, hb, hrip, imm, hdec, hdest⟩
  · have hnext : a + (1#26).signExtend 64 <<< 2 = a + 4 := rfl
    refine ⟨_, ?_, .inl rfl⟩
    rw [leaveBy, hold, decode_placeholder]
    exact if_pos hnext
  · rw [leaveBy, hdec]
    dsimp only
    rw [hdest]
    split
    · exact ⟨_, rfl, .inl rfl⟩
    · exact ⟨_, rfl, .inr ⟨b, hb, hrip, rfl⟩⟩

theorem Inv.continuesAt (h : s.Inv cfg) (ht : s.threads[t]? = some (f :: rest))
    (hs : s.ContinuesAt t f rest target s') : s'.Inv cfg := by
  obtain ⟨⟨hwait, -⟩, hrest⟩ := h.frames ht
  rcases hs with rfl | ⟨b, hb, -, rfl⟩
  · exact h.returnTo ht target
  · exact h.setThread (List.forall_mem_cons.mpr ⟨⟨hwait, b, hb, .inr rfl⟩, hrest⟩)

theorem Inv.takeSites (h : s.Inv cfg) (ht : s.threads[t]? = some (f :: rest)) {ptr : BitVec 64}
    (hphase : f.phase = .found ptr) :
    (s.setThread t ({ f with
      unpatched := f.unpatched.filter fun w => w.1 ≠ f.currentRip
      phase := .patching ptr ((f.unpatched.filter fun w => w.1 = f.currentRip).map (·.2)) } :: rest)).Inv cfg := by
  obtain ⟨⟨hwait, hfound⟩, hrest⟩ := h.frames ht
  rw [hphase] at hfound
  refine h.setThread (List.forall_mem_cons.mpr ⟨⟨fun w hw => ?_, hfound, fun a ha => ?_⟩, hrest⟩)
  · exact hwait w (List.mem_of_mem_filter hw)
  · obtain ⟨w, hw, rfl⟩ := List.mem_map.mp ha
    obtain ⟨hmem, hrip⟩ := List.mem_filter.mp hw
    rw [← of_decide_eq_true hrip]
    exact hwait w hmem

theorem Inv.patch (h32 : cfg.region.len.toNat ≤ 2 ^ 32) (h : s.Inv cfg)
    (ht : s.threads[t]? = some (f :: rest)) {ptr site : BitVec 64} {sites : List (BitVec 64)}
    (hphase : f.phase = .patching ptr (site :: sites)) {r : Bool} {d' : Dispatcher}
    (hpatch : s.dispatcher.patchChain cfg.overflowChecks site (hotEntry ptr) = some (r, d')) :
    ({ s with dispatcher := d' }.setThread t ({ f with phase := .patching ptr sites } :: rest)).Inv cfg := by
  obtain ⟨m₀, hcache⟩ := h.cache
  obtain ⟨⟨hwait, hpatching⟩, hrest⟩ := h.frames ht
  rw [hphase] at hpatching
  obtain ⟨⟨b, hb, rfl, hrip⟩, hsites⟩ := hpatching
  obtain ⟨hsite, hsites⟩ := List.forall_mem_cons.mp hsites
  rw [← hrip] at hsite
  have hinv : Inv cfg { s with dispatcher := d' } := ⟨⟨m₀, hcache.patch h32 hb hsite hpatch⟩, h.threads⟩
  exact hinv.setThread (List.forall_mem_cons.mpr ⟨⟨hwait, ⟨b, hb, rfl, hrip⟩, hsites⟩, hrest⟩)

/-- Every step keeps the cache and the activations sound. -/
theorem Inv.step (hregion : 4 ∣ cfg.region.len.toNat) (h32 : cfg.region.len.toNat ≤ 2 ^ 32) (e : SharedEvent)
    (h : s.Inv cfg) (hs : s.step cfg e = some s') : s'.Inv cfg := by
  obtain ⟨m₀, hcache⟩ := h.cache
  cases e with
  | spawn =>
    cases hs
    refine ⟨h.cache, fun frames hmem => ?_⟩
    rcases List.mem_append.mp hmem with hold | hnew
    · exact h.threads _ hold
    · rw [List.mem_singleton.mp hnew]
      simp
  | start t rip =>
    simp only [SharedLoop.step] at hs
    split at hs
    · cases hs
      exact h.setThread (List.forall_mem_singleton.mpr (Activation.sound_new rip))
    · cases hs
  | lookup t =>
    obtain ⟨f, rest, ht, hk⟩ := onTop_some hs
    split at hk
    · cases hk
      exact h.lookupStep ht
    · cases hk
  | translate t bytes =>
    obtain ⟨f, rest, ht, hk⟩ := onTop_some hs
    split at hk
    · split at hk
      · cases hk
        exact h.setThread (h.frames ht).2
      · split at hk
        · exact h.translateStep hregion h32 ht hk
        · cases hk
    · cases hk
  | takeSites t =>
    obtain ⟨f, rest, ht, hk⟩ := onTop_some hs
    split at hk
    · rename_i ptr hphase
      cases hk
      exact h.takeSites ht hphase
    · cases hk
  | patch t =>
    obtain ⟨f, rest, ht, hk⟩ := onTop_some hs
    split at hk
    · rename_i ptr site sites hphase
      split at hk
      · cases hk
      · rename_i r d' hpatch
        cases hk
        exact h.patch h32 ht hphase hpatch
    · cases hk
  | invoke t =>
    obtain ⟨f, rest, ht, hk⟩ := onTop_some hs
    split at hk
    · rename_i ptr hphase
      cases hk
      obtain ⟨⟨hwait, hpatching⟩, hrest⟩ := h.frames ht
      rw [hphase] at hpatching
      obtain ⟨⟨b, hb, rfl, -⟩, -⟩ := hpatching
      exact h.setThread (List.forall_mem_cons.mpr ⟨⟨hwait, b, hb, .inl rfl⟩, hrest⟩)
    · cases hk
  | chainExit t b site =>
    obtain ⟨f, rest, ht, hk⟩ := onTop_some hs
    split at hk
    · split at hk
      · rename_i hguard
        obtain ⟨⟨hb, -⟩, hq⟩ := hguard
        obtain ⟨s₁, hleave, hcont⟩ := leaveBy_continues t f rest hcache ⟨b, hb, site, hq, rfl, rfl⟩
        cases hleave.symm.trans hk
        exact h.continuesAt ht hcont
      · cases hk
    · cases hk
  | exit t b rip =>
    obtain ⟨f, rest, ht, hk⟩ := onTop_some hs
    split at hk
    · split at hk
      · cases hk
        exact h.returnTo ht rip
      · cases hk
    · cases hk
  | callback t rip =>
    obtain ⟨f, rest, ht, hk⟩ := onTop_some hs
    split at hk
    · cases hk
      obtain ⟨hf, hrest⟩ := h.frames ht
      exact h.setThread (List.forall_mem_cons.mpr
        ⟨Activation.sound_new rip, List.forall_mem_cons.mpr ⟨hf, hrest⟩⟩)
    · cases hk
  | abort t =>
    obtain ⟨f, rest, ht, hk⟩ := onTop_some hs
    cases hk
    exact h.setThread (by simp)
  | write a v =>
    simp only [SharedLoop.step] at hs
    split at hs
    · cases hs
    · rename_i hout
      cases hs
      exact ⟨⟨_, hcache.write_outside h32 hout v⟩, h.threads⟩

/-- What the code cache is, with the threads that run in it. -/
structure Chained (cfg : SharedConfig) (s : SharedLoop) : Prop where
  inside : ∀ b ∈ s.blocks, cfg.region.base.toNat ≤ b.ptr.toNat ∧
    b.ptr.toNat + b.block.hostBytes.length ≤ cfg.region.base.toNat + cfg.region.len.toNat
  aligned : ∀ b ∈ s.blocks, 4 ∣ b.ptr.toNat
  disjoint : s.blocks.Pairwise fun b b' => Disjoint b.installed.range b'.installed.range
  translated : ∀ b ∈ s.blocks, ∃ bytes, translateForDispatcher cfg.profile bytes b.rip cfg.mode = .ok b.block
  /-- Only placeholders are ever rewritten. -/
  intact : ∀ b ∈ s.blocks, ∀ c, InRange b.ptr b.block.hostBytes.length c →
    (∀ q ∈ b.block.chainPatches, ¬ InRange (b.site q.1) 4 c) →
    b.block.hostBytes[(c - b.ptr).toNat]? = some (s.dispatcher.mem c)
  sites : ∀ b ∈ s.blocks, ∀ q ∈ b.block.chainPatches,
    LeadsTo s.blocks s.dispatcher.mem (b.site q.1) q.2
  lookup : ∀ rip, s.dispatcher.lookup rip = (s.blocks.find? fun b => b.rip == rip).map CachedBlock.ptr
  entered : ∀ frames ∈ s.threads, ∀ f ∈ frames, ∀ entry, f.phase = .running entry →
    ∃ b ∈ s.blocks, entry = b.ptr ∨ entry = hotEntry b.ptr

theorem Inv.chained (h32 : cfg.region.len.toNat ≤ 2 ^ 32) (h : s.Inv cfg) : s.Chained cfg := by
  obtain ⟨m₀, hcache⟩ := h.cache
  refine ⟨fun b => hcache.inside, fun b => hcache.aligned, hcache.disjoint, hcache.translated,
    fun b hb c => hcache.intact h32 hb, fun b hb q hq => hcache.sites _ _ ⟨b, hb, q, hq, rfl, rfl⟩,
    hcache.lookup, fun frames hframes f hf entry hphase => ?_⟩
  have hsound := (h.threads frames hframes f hf).2
  rw [hphase] at hsound
  exact hsound

end SharedLoop

open SharedLoop

/-- **The code cache under every order of steps.**  However the threads, their callbacks and the writes of
guest code take turns on a cache of at most 4 GiB, the blocks in it stay as they were translated but for their
placeholders, a placeholder leads on to its own exit or to a block of its target, every thread runs at an entry
of such a block, and a block that leaves by a placeholder goes on at the target that it was translated for. -/
theorem sharedLoop_chained (cfg : SharedConfig) (hregion : 4 ∣ cfg.region.len.toNat)
    (h32 : cfg.region.len.toNat ≤ 2 ^ 32) (mem : ByteMem) (es : List SharedEvent) (s : SharedLoop)
    (hrun : Machine.run (SharedLoop.step cfg) (SharedLoop.start cfg mem) es = some s) :
    s.Chained cfg ∧
      ∀ t f rest entry b q, s.threads[t]? = some (f :: rest) → f.phase = .running entry →
        s.IsEntered b entry → q ∈ b.block.chainPatches →
        ∃ s', s.step cfg (.chainExit t b q) = some s' ∧ s.ContinuesAt t f rest q.2 s' := by
  have hinv : s.Inv cfg :=
    Machine.run_invariant (fun s e s' h hs => Inv.step hregion h32 e h hs) (inv_start mem) hrun
  refine ⟨hinv.chained h32, fun t f rest entry b q ht hphase hentered hq => ?_⟩
  obtain ⟨m₀, hcache⟩ := hinv.cache
  obtain ⟨s', hleave, hcont⟩ := leaveBy_continues t f rest hcache ⟨b, hentered.1, q, hq, rfl, rfl⟩
  refine ⟨s', ?_, hcont⟩
  rw [SharedLoop.step, onTop, ht]
  dsimp only
  rw [hphase]
  exact (if_pos ⟨hentered, hq⟩).trans hleave

/-- One page at 4 GiB. -/
def onePage : JitRegion where
  base := 0x100000000
  len := 4096
  base_ne_zero := threeWords_ne_zero
  pageAligned := dvd_threeWords
  in_space := by decide
  len_lt := by decide

/-- An image of two bytes at `0x1000`. -/
def tinyConfig : SharedConfig :=
  ⟨⟨true⟩, true, .long, 0x1000, 2, onePage⟩

/-- Two threads both miss a `JMP` to itself, and both install and patch a block of it. -/
def twoMisses : List SharedEvent :=
  [.spawn, .spawn, .start 0 0x1000, .start 1 0x1000, .lookup 0, .lookup 1, .translate 0 [0xEB, 0xFE],
    .translate 1 [0xEB, 0xFE], .takeSites 1, .patch 1, .invoke 1, .takeSites 0, .patch 0, .invoke 0]

theorem sharedLoop_chained_twoMisses :
    ∃ s, Machine.run (SharedLoop.step tinyConfig) (SharedLoop.start tinyConfig fun _ => 0) twoMisses = some s ∧
      s.Chained tinyConfig := by
  have hrun : (Machine.run (SharedLoop.step tinyConfig) (SharedLoop.start tinyConfig fun _ => 0)
      twoMisses).isSome = true := by
    decide +kernel
  obtain ⟨s, hs⟩ := Option.isSome_iff_exists.mp hrun
  exact ⟨s, hs, (sharedLoop_chained tinyConfig (by decide) (by decide) _ _ s hs).1⟩

end Quantum.Cli
