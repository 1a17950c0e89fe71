import Quantum.Cli.Entry
import Quantum.Kernel32.Equiv.Heap
import Quantum.Lib.Machine

/-!
# The stack at the entry of guest code

A guest function expects RSP to be 8 beyond a multiple of 16, a return address at RSP, here the sentinel, and
0x20 bytes of shadow space above it (`GuestEntry.Conforms`).  `invoke_guest_function` gives this to its callee
exactly when RSP was a multiple of 16 before, as at a `CALL` (`CallSite`), but `entry_rsp` is no such RSP.

* `invokeEntry_conforms_iff`, `not_conforms_thread`: the two ways in;
* `entries_conform_iff`: the runs in which every entry conforms.
-/

namespace Quantum.Cli

open Quantum.A64 Quantum.Runtime

/-- The Win64 calling convention at the first instruction of a function. -/
structure GuestEntry.Conforms (e : GuestEntry) : Prop where
  aligned : e.rsp.toNat % 16 = 8
  returns : e.mem.read 64 8 e.rsp = stopSentinel
  shadow : e.stack.Holds (e.rsp + 8#64) 0x20

/-- RSP is as at a `CALL`: a multiple of 16, with the 0x20 bytes below it in the stack. -/
structure CallSite (stack : GuestStack) (rsp : BitVec 64) : Prop where
  aligned : rsp.toNat % 16 = 0
  below : stack.Holds (rsp - 0x20#64) 0x20

/-! ### The RSP of an entry -/

theorem toNat_top (st : GuestStack) : st.top.toNat = (st.base.toNat + st.len) / 16 * 16 := by
  have hfits := st.fits
  have hsum : (st.base + BitVec.ofNat 64 st.len).toNat = st.base.toNat + st.len := by
    rw [BitVec.toNat_add, BitVec.toNat_ofNat]
    omega
  have htop := Kernel32.toNat_and_not_fifteen (st.base + BitVec.ofNat 64 st.len)
  rw [hsum] at htop
  exact htop

theorem toNat_top_mod (st : GuestStack) : st.top.toNat % 16 = 0 := by
  rw [toNat_top, Nat.mul_mod_left]

/-- `invoke_guest_function` keeps the convention exactly at a call site. -/
theorem invokeEntry_conforms_iff {kind : EntryKind} {stack : GuestStack} {rsp : BitVec 64} {mem : ByteMem} :
    (invokeEntry kind stack rsp mem).Conforms ↔ CallSite stack rsp := by
  have hshadow : calleeRsp rsp + 8#64 = rsp - 0x20#64 := by
    rw [calleeRsp]
    bv_omega
  have halign : (calleeRsp rsp).toNat % 16 = 8 ↔ rsp.toNat % 16 = 0 := by
    rw [calleeRsp]
    bv_omega
  constructor
  · intro h
    refine ⟨halign.mp h.aligned, ?_⟩
    rw [← hshadow]
    exact h.shadow
  · intro h
    refine ⟨halign.mpr h.aligned, ?_, ?_⟩
    · exact (ByteMem.read_write_self 64 _ _ _ (by decide)).trans (by simp)
    · show stack.Holds (calleeRsp rsp + 8#64) 0x20
      rw [hshadow]
      exact h.below

theorem not_callSite_entryRsp (st : GuestStack) : ¬ CallSite st st.entryRsp := by
  intro h
  have halign := h.aligned
  have hmod := toNat_top_mod st
  rw [GuestStack.entryRsp] at halign
  bv_omega

/-- Above the RSP of `entry_rsp` there is no room in the stack. -/
theorem not_conforms_entryRsp (kind : EntryKind) (st : GuestStack) (mem : ByteMem) :
    ¬ (directEntry kind st st.entryRsp mem).Conforms := by
  intro h
  have hshadow : st.Holds (st.entryRsp + 8#64) 0x20 := h.shadow
  have htop : st.entryRsp + 8#64 = st.top := by
    rw [GuestStack.entryRsp]
    bv_omega
  rw [htop, GuestStack.Holds, toNat_top] at hshadow
  omega

/-! ### Runs -/

/-- The guest function that the last step has entered, if any, conforms. -/
def HostState.Conforms (s : HostState) : Prop :=
  ∀ e, s.entry = some e → e.Conforms

/-- The main context has the RSP of `entry_rsp` for the side modules and between them. -/
def HostState.Fresh (s : HostState) : Prop :=
  match s.phase with
  | .modules _ => s.main = [] ∧ s.rsp = s.stack.entryRsp
  | .side .. => s.savedRsp = s.stack.entryRsp
  | _ => True

/-- The step keeps the convention: an entry of the main context by `invoke_guest_function` starts at a call
site, and the RSP that is left for the program conforms.  The other entries do not. -/
def Proper (s : HostState) : EntryEvent → Prop
  | .host =>
    match s.phase with
    | .side (_ :: _) _ => False
    | .callbacks (_ + 1) => CallSite s.stack s.rsp
    | .callbacks 0 => (directEntry .program s.stack s.rsp s.mem).Conforms
    | _ => True
  | .handler => CallSite s.stack s.rsp
  | .windowProc .. => False
  | .spawn .. => False
  | _ => True

namespace HostState

variable {cfg : Config} {s s' : HostState}

/-- A step that enters nothing. -/
theorem conforms_of_entry_none (h : s.entry = none) : s.Conforms := by
  intro e he
  rw [h] at he
  cases he

theorem conforms_of_entry_some {e : GuestEntry} (h : s.entry = some e) : s.Conforms ↔ e.Conforms := by
  constructor
  · exact fun hs => hs e h
  · rintro he _ h'
    rw [h] at h'
    cases h'
    exact he

theorem enterMain_conforms (e : GuestEntry) (phase : HostPhase) :
    (s.enterMain e phase).Conforms ↔ e.Conforms :=
  conforms_of_entry_some rfl

/-- What `Fresh` looks at. -/
theorem Fresh.congr (hs : s.Fresh) (hphase : s'.phase = s.phase) (hstack : s'.stack = s.stack)
    (hsaved : s'.savedRsp = s.savedRsp) (hmain : s.main = [] → s'.main = [] ∧ s'.rsp = s.rsp) : s'.Fresh := by
  unfold Fresh at hs ⊢
  rw [hphase, hstack, hsaved]
  cases hp : s.phase with
  | modules ms =>
    rw [hp] at hs
    obtain ⟨hnil, hrsp⟩ := hmain hs.1
    exact ⟨hnil, hrsp.trans hs.2⟩
  | side calls ms =>
    rw [hp] at hs
    exact hs
  | _ => trivial

/-- The host code of the main thread. -/
theorem hostStep_spec (hs : s.Fresh) (hmain : s.main = []) (hentry : s.entry = none)
    (h : s.hostStep cfg = some s') : s'.Fresh ∧ (s'.Conforms ↔ Proper s .host) := by
  unfold hostStep at h
  unfold Fresh at hs
  unfold Proper
  cases hphase : s.phase with
  | modules ms =>
    rw [hphase] at h hs
    cases ms with
    | nil =>
      cases h
      exact ⟨trivial, iff_of_true (conforms_of_entry_none hentry) trivial⟩
    | cons sm ms =>
      cases h
      exact ⟨hs.2, iff_of_true (conforms_of_entry_none hentry) trivial⟩
  | side calls ms =>
    rw [hphase] at h hs
    cases calls with
    | nil =>
      cases h
      exact ⟨⟨hmain, hs⟩, iff_of_true (conforms_of_entry_none hentry) trivial⟩
    | cons k ks =>
      cases h
      refine ⟨hs, ?_⟩
      rw [enterMain_conforms, invokeEntry_conforms_iff, hs]
      exact iff_of_false (not_callSite_entryRsp _) id
  | callbacks n =>
    rw [hphase] at h
    cases n with
    | zero =>
      cases h
      exact ⟨trivial, enterMain_conforms _ _⟩
    | succ n =>
      cases h
      refine ⟨trivial, ?_⟩
      rw [enterMain_conforms, invokeEntry_conforms_iff]
  | entered | finished | dispatching =>
    rw [hphase] at h
    cases h

theorem frames_main_of_nil {k : EntryKind} {ks : List EntryKind} {t : ThreadId}
    (h : s.frames t = some (k :: ks)) (hmain : s.main = []) : ∃ i, t = .worker i := by
  cases t with
  | main =>
    rw [frames, hmain] at h
    cases h
  | worker i => exact ⟨i, rfl⟩

/-- The end of guest functions keeps the phase of the initialisation. -/
theorem unwind_fresh (hs : s.Fresh) {k : EntryKind} {ks rest : List EntryKind} {t : ThreadId}
    (h : s.frames t = some (k :: ks)) (rsp : BitVec 64) {phase : HostPhase}
    (hphase : phase = s.phase ∨ t = .main ∧ (phase = .finished ∨ phase = .entered)) :
    HostState.Fresh { s.unwind t rest rsp with phase := phase } := by
  rcases hphase with rfl | ⟨-, rfl | rfl⟩
  · refine hs.congr rfl ?_ ?_ fun hmain => ?_
    · cases t <;> cases rest <;> rfl
    · cases t <;> cases rest <;> rfl
    · obtain ⟨i, rfl⟩ := frames_main_of_nil h hmain
      cases rest <;> exact ⟨hmain, rfl⟩
  · trivial
  · trivial

theorem unwind_entry (t : ThreadId) (rest : List EntryKind) (rsp : BitVec 64) :
    (s.unwind t rest rsp).entry = s.entry := by
  cases t <;> cases rest <;> rfl

/-- **A step enters guest code by the convention exactly when it is proper.** -/
theorem step_spec (hs : s.Fresh) {e : EntryEvent} (h : s.step cfg e = some s') :
    s'.Fresh ∧ (s'.Conforms ↔ Proper s e) := by
  have hs₀ : HostState.Fresh { s with entry := none } := hs
  unfold step at h
  cases e with
  | host =>
    dsimp only at h
    split at h
    · rename_i hmain
      exact @hostStep_spec cfg { s with entry := none } s' hs₀ hmain rfl h
    · cases h
  | crash stack rsp =>
    dsimp only at h
    split at h
    · cases h
      exact ⟨trivial, iff_of_true (conforms_of_entry_none rfl) trivial⟩
    · cases h
  | handler =>
    dsimp only at h
    split at h
    · cases h
      refine ⟨trivial, ?_⟩
      rw [enterMain_conforms, invokeEntry_conforms_iff]
      rfl
    · cases h
  | resume rsp =>
    dsimp only at h
    split at h
    · cases h
      exact ⟨trivial, iff_of_true (conforms_of_entry_none rfl) trivial⟩
    · cases h
  | windowProc t stack =>
    dsimp only at h
    split at h
    · rename_i k ks hframes
      cases h
      refine ⟨hs₀.congr ?_ ?_ ?_ fun hmain => ?_, ?_⟩
      · cases t <;> rfl
      · cases t <;> rfl
      · cases t <;> rfl
      · obtain ⟨i, rfl⟩ := frames_main_of_nil hframes hmain
        exact ⟨hmain, rfl⟩
      · rw [conforms_of_entry_some rfl, invokeEntry_conforms_iff]
        exact iff_of_false (not_callSite_entryRsp _) id
    · cases h
  | spawn t stack =>
    dsimp only at h
    split at h
    · cases h
      refine ⟨hs₀.congr rfl rfl rfl fun hmain => ⟨hmain, rfl⟩, ?_⟩
      rw [conforms_of_entry_some rfl]
      exact iff_of_false (not_conforms_entryRsp _ _ _) id
    · cases h
  | write t mem =>
    dsimp only at h
    split at h
    · cases h
      exact ⟨hs₀.congr rfl rfl rfl fun hmain => ⟨hmain, rfl⟩, iff_of_true (conforms_of_entry_none rfl) trivial⟩
    · cases h
  | leave t rsp =>
    dsimp only at h
    split at h
    · rename_i k ks hframes
      cases h
      refine ⟨unwind_fresh hs₀ hframes rsp ?_, iff_of_true (conforms_of_entry_none ?_) trivial⟩
      · unfold afterLeave
        split
        · exact .inr ⟨rfl, .inl rfl⟩
        · exact .inl rfl
      · exact unwind_entry _ _ _
    · cases h
  | abort t rsp =>
    dsimp only at h
    split at h
    · rename_i k ks hframes
      obtain ⟨phase, hphase, rfl⟩ := Option.map_eq_some_iff.mp h
      refine ⟨unwind_fresh hs₀ hframes rsp ?_, iff_of_true (conforms_of_entry_none ?_) trivial⟩
      · unfold afterAbort at hphase
        split at hphase
        · exact .inl (Option.some.inj hphase).symm
        · rename_i hside
          exact .inl ((Option.some.inj hphase).symm.trans hside.symm)
        · cases hphase
        · exact .inr ⟨rfl, .inr (Option.some.inj hphase).symm⟩
      · exact unwind_entry _ _ _
    · cases h

theorem start_fresh (cfg : Config) (stack : GuestStack) (mem : ByteMem) : (start cfg stack mem).Fresh := by
  unfold Fresh start
  cases cfg.skipDllInit
  · exact ⟨rfl, rfl⟩
  · trivial

theorem run_fresh {stack : GuestStack} {mem : ByteMem} {es : List EntryEvent}
    (h : Machine.run (step cfg) (start cfg stack mem) es = some s) : s.Fresh :=
  Machine.run_invariant (fun _ _ _ hs hstep => (step_spec hs hstep).1) (start_fresh cfg stack mem) h

/-- **The entries of a run.**  A step of a run enters guest code with the stack that the calling convention
promises exactly when it is proper, and all entries of a run conform exactly when all its steps are proper. -/
theorem entries_conform_iff (cfg : Config) (stack : GuestStack) (mem : ByteMem) :
    (∀ es s e s', Machine.run (step cfg) (start cfg stack mem) es = some s → s.step cfg e = some s' →
      (s'.Conforms ↔ Proper s e)) ∧
    ∀ es s, Machine.run (step cfg) (start cfg stack mem) es = some s →
      ((∀ es₁ es₂ s₁, es = es₁ ++ es₂ → Machine.run (step cfg) (start cfg stack mem) es₁ = some s₁ →
          s₁.Conforms) ↔
        Machine.Meets (step cfg) Proper (start cfg stack mem) es) := by
  constructor
  · intro es s e s' hrun hstep
    exact (step_spec (run_fresh hrun) hstep).2
  · intro es s hrun
    have hstep : ∀ (s : HostState) e s', s.Fresh ∧ s.Conforms → s.step cfg e = some s' →
        (s'.Conforms → Proper s e) ∧ (Proper s e → s'.Fresh ∧ s'.Conforms) := by
      intro s e s' hs h
      obtain ⟨hfresh, hiff⟩ := step_spec hs.1 h
      exact ⟨hiff.mp, fun hproper => ⟨hfresh, hiff.mpr hproper⟩⟩
    exact Machine.run_all_iff_of_invariant (fun _ hs => hs.2) hstep
      ⟨start_fresh cfg stack mem, conforms_of_entry_none rfl⟩ hrun

/-- A program without side modules and TLS callbacks. -/
def plainConfig : Config :=
  ⟨false, false, [], 0⟩

/-- One megabyte. -/
def plainStack : GuestStack :=
  ⟨0x100000#64, 0x100000, by decide⟩

/-- The program crashes at an RSP as at a call, and its handler finds the stack that it expects. -/
theorem entries_conform_iff_handler : ∃ s s',
    Machine.run (step plainConfig) (start plainConfig plainStack fun _ => 0)
        [.host, .host, .abort .main 0, .crash plainStack 0x180000#64] = some s ∧
      s.step plainConfig .handler = some s' ∧ s'.Conforms := by
  refine ⟨_, _, rfl, rfl, ?_⟩
  refine ((entries_conform_iff plainConfig plainStack fun _ => 0).1
    [.host, .host, .abort .main 0, .crash plainStack 0x180000#64] _ .handler _ rfl rfl).mpr ?_
  exact ⟨by decide, by decide⟩

/-- The first instruction of a program has no shadow space, and that of a window procedure has RSP at a multiple
of 16. -/
theorem windowProc_misaligned : ∃ s s' e e',
    Machine.run (step plainConfig) (start plainConfig plainStack fun _ => 0) [.host, .host] = some s ∧
      s.entry = some e ∧ e.kind = .program ∧ ¬ e.stack.Holds (e.rsp + 8#64) 0x20 ∧ ¬ s.Conforms ∧
      s.step plainConfig (.windowProc .main plainStack) = some s' ∧ s'.entry = some e' ∧
      e'.kind = .windowProc ∧ e'.rsp.toNat % 16 = 0 ∧ ¬ s'.Conforms := by
  have hprogram : ∃ s e, Machine.run (step plainConfig) (start plainConfig plainStack fun _ => 0)
        [.host, .host] = some s ∧ s.entry = some e ∧ e.kind = .program ∧
      ¬ e.stack.Holds (e.rsp + 8#64) 0x20 ∧ ∃ s' e',
        s.step plainConfig (.windowProc .main plainStack) = some s' ∧ s'.entry = some e' ∧
          e'.kind = .windowProc ∧ e'.rsp.toNat % 16 = 0 :=
    ⟨_, _, rfl, rfl, rfl, by decide, _, _, rfl, rfl, rfl, by decide⟩
  obtain ⟨s, e, hrun, he, hkind, hshadow, s', e', hstep, he', hkind', halign⟩ := hprogram
  refine ⟨s, s', e, e', hrun, he, hkind, hshadow, ?_, hstep, he', hkind', halign, ?_⟩
  · intro h
    exact hshadow (h e he).shadow
  · intro h
    have h8 := (h e' he').aligned
    omega

end HostState

end Quantum.Cli
