import Quantum.Cli.DispatcherLoop

/-!
# The block of a fault

`LAST_ENTERED_RIP` is meant to name the block that is running.  The loop stores it before it calls a block;
a patched jump goes on to another block without a store, a nested loop leaves its own last block behind
when it returns to the block that it interrupted, and all threads share the variable.  `FaultSiteStep` says
which steps do no harm, and `faultSite_iff` that the variable is right throughout a run exactly when all
its steps are such.
-/

namespace Quantum.Cli

open Quantum.Machine Quantum.Runtime

namespace DispatcherState

variable {cfg : LoopConfig} {s s' : DispatcherState} {t : Nat} {f : LoopFrame}
  {fs rest : List LoopFrame} {rip : BitVec 64}

/-- The start of the block that runs on top of the activations. -/
def runningRip : List LoopFrame → Option (BitVec 64)
  | ⟨_, _, _, .running ptr⟩ :: _ => some ptr.rip
  | _ => none

/-- The start of the guest block that is executing on the thread. -/
def executing (s : DispatcherState) (t : Nat) : Option (BitVec 64) :=
  s.threads[t]?.bind runningRip

/-- `LAST_ENTERED_RIP` is the start of every block that is executing. -/
def FaultSite (s : DispatcherState) : Prop :=
  ∀ t rip, s.executing t = some rip → rip = s.lastEnteredRip

/-- The activation ends: the block that it interrupted, if any, is the one entered last. -/
def ReturnsHome (s : DispatcherState) (rest : List LoopFrame) : Prop :=
  ∀ rip, runningRip rest = some rip → rip = s.lastEnteredRip

/-- No other thread is in a block that starts elsewhere. -/
def OthersAt (s : DispatcherState) (t : Nat) (rip : BitVec 64) : Prop :=
  ∀ t', t' ≠ t → ∀ rip', s.executing t' = some rip' → rip' = rip

/-- The top of the loop stores a RIP, or ends the activation with an error. -/
def EntersHome (cfg : LoopConfig) (s : DispatcherState) (t : Nat) (f : LoopFrame)
    (rest : List LoopFrame) : Prop :=
  if f.iters + 1 > 10000000 then s.ReturnsHome rest
  else
    match s.obtain cfg { f with iters := f.iters + 1 } with
    | some (some _) => s.OthersAt t f.currentRip
    | _ => s.ReturnsHome rest

/-- The steps that leave `LAST_ENTERED_RIP` right. -/
def FaultSiteStep (cfg : LoopConfig) (s : DispatcherState) : LoopEvent → Prop
  | .enter t => ∀ f rest, s.threads[t]? = some (f :: rest) → s.EntersHome cfg t f rest
  | .invoke t => ∀ f rest ptr, s.threads[t]? = some (f :: rest) → f.point = .entered ptr →
      ptr.rip = s.lastEnteredRip
  | .chainExit t i => ∀ f rest ptr site, s.threads[t]? = some (f :: rest) → f.point = .running ptr →
      (s.sites ptr)[i]? = some site →
        match site.link with
        | some ptr' => ptr'.rip = ptr.rip
        | none => site.target = stopSentinel → s.ReturnsHome rest
  | .exit t rip => ∀ f rest, s.threads[t]? = some (f :: rest) → rip = stopSentinel →
      s.ReturnsHome rest
  | _ => True

/-! ### Threads -/

theorem executing_of_threads (h : s'.threads = s.threads) : s'.executing = s.executing := by
  unfold executing
  rw [h]

theorem executing_setThread (ht : t < s.threads.length) (t' : Nat) :
    (s.setThread t fs).executing t' = if t' = t then runningRip fs else s.executing t' := by
  unfold executing setThread
  rw [List.getElem?_set]
  split_ifs with h h' h'
  · rw [Option.bind_some]
  · exact absurd h.symm h'
  · exact absurd h'.symm h
  · rfl

theorem lt_of_thread (ht : s.threads[t]? = some fs) : t < s.threads.length :=
  (List.getElem?_eq_some_iff.mp ht).1

theorem executing_eq (ht : s.threads[t]? = some fs) : s.executing t = runningRip fs := by
  unfold executing
  rw [ht, Option.bind_some]

/-- A step that replaces the activations of one thread keeps the property exactly when the block that
then runs on the thread is the one entered last. -/
theorem faultSite_setThread (hs : s.FaultSite) (ht : s.threads[t]? = some fs) :
    (s.setThread t rest).FaultSite ↔ s.ReturnsHome rest := by
  constructor
  · intro h rip hrip
    refine h t rip ?_
    rw [executing_setThread (lt_of_thread ht), if_pos rfl]
    exact hrip
  · intro h t' rip hrip
    rw [executing_setThread (lt_of_thread ht)] at hrip
    split_ifs at hrip with heq
    · exact h rip hrip
    · exact hs t' rip hrip

/-- The same with a store to `LAST_ENTERED_RIP`, when no block runs on the thread afterwards. -/
theorem faultSite_store (s₁ : DispatcherState) (hthreads : s₁.threads = s.threads)
    (ht : s.threads[t]? = some fs) (hrest : runningRip rest = none)
    (hlast : s₁.lastEnteredRip = rip) : (s₁.setThread t rest).FaultSite ↔ s.OthersAt t rip := by
  have ht₁ : t < s₁.threads.length := hthreads ▸ lt_of_thread ht
  have hex := executing_of_threads hthreads
  constructor
  · intro h t' hne rip' hrip'
    refine (h t' rip' ?_).trans hlast
    rw [executing_setThread ht₁, if_neg hne, hex]
    exact hrip'
  · intro h t' rip' hrip'
    rw [executing_setThread ht₁] at hrip'
    split_ifs at hrip' with heq
    · rw [hrest] at hrip'
      cases hrip'
    · rw [hex] at hrip'
      exact (h t' heq rip' hrip').trans hlast.symm

/-! ### The loop's own steps -/

theorem install_threads {block : Jit.Block} {ptr : HostPtr}
    (h : s.install cfg rip block = some (s', ptr)) : s'.threads = s.threads ∧ ptr.rip = rip := by
  unfold install at h
  split_ifs at h
  obtain ⟨rfl, rfl⟩ := Prod.mk.inj (Option.some.inj h)
  exact ⟨rfl, rfl⟩

theorem obtain_threads {f' : LoopFrame} {ptr : HostPtr}
    (h : s.obtain cfg f = some (some (s', f', ptr))) :
    s'.threads = s.threads ∧ f'.currentRip = f.currentRip := by
  unfold DispatcherState.obtain at h
  split at h
  · obtain ⟨rfl, hf⟩ := Prod.mk.inj (Option.some.inj (Option.some.inj h))
    obtain ⟨rfl, -⟩ := Prod.mk.inj hf
    exact ⟨rfl, rfl⟩
  · split at h
    · cases h
    · split at h
      · cases h
      · cases h
      · split at h
        · cases h
        · rename_i hin
          obtain ⟨rfl, hf⟩ := Prod.mk.inj (Option.some.inj (Option.some.inj h))
          obtain ⟨rfl, -⟩ := Prod.mk.inj hf
          exact ⟨(install_threads hin).1, rfl⟩

theorem patchAll_threads (ptr : HostPtr) (ws : List (BitVec 64 × HostPtr × Nat)) :
    (s.patchAll ptr ws).threads = s.threads := by
  induction ws generalizing s with
  | nil => rfl
  | cons w ws ih => exact ih

theorem enterFrame_iff (hs : s.FaultSite) (ht : s.threads[t]? = some (f :: rest))
    (h : s.enterFrame cfg t f rest = some s') : s'.FaultSite ↔ s.EntersHome cfg t f rest := by
  unfold enterFrame at h
  unfold EntersHome
  dsimp only at h
  split_ifs at h ⊢ with hlim
  · obtain rfl := Option.some.inj h
    exact faultSite_setThread hs ht
  · cases hob : s.obtain cfg { f with iters := f.iters + 1 } with
    | none =>
      rw [hob] at h
      cases h
    | some r =>
      rw [hob] at h
      cases r with
      | none =>
        obtain rfl := Option.some.inj h
        exact faultSite_setThread hs ht
      | some r =>
        obtain ⟨s₁, f₁, ptr⟩ := r
        obtain ⟨hthreads, hrip⟩ := obtain_threads hob
        obtain rfl := Option.some.inj h
        refine faultSite_store { s₁.patchAll ptr _ with lastEnteredRip := f₁.currentRip } ?_ ht rfl hrip
        exact (patchAll_threads ptr _).trans hthreads

theorem returnTo_iff {nextRip : BitVec 64} (hs : s.FaultSite) (ht : s.threads[t]? = some (f :: rest)) :
    (s.returnTo t f rest nextRip).FaultSite ↔ (nextRip = stopSentinel → s.ReturnsHome rest) := by
  unfold returnTo
  split_ifs with hstop
  · rw [faultSite_setThread hs ht]
    exact ⟨fun h _ => h, fun h => h hstop⟩
  · rw [faultSite_setThread hs ht]
    exact ⟨fun _ h => absurd h hstop, fun _ rip hrip => by cases hrip⟩

/-- A block runs on top of the activations. -/
theorem runningRip_of_point {ptr : HostPtr} (h : f.point = .running ptr) :
    runningRip (f :: rest) = some ptr.rip := by
  obtain ⟨rip, iters, unpatched, point⟩ := f
  obtain rfl : point = .running ptr := h
  rfl

/-- One case for each event: what it does to the thread's activations. -/
theorem step_iff {e : LoopEvent} (hs : s.FaultSite) (h : s.step cfg e = some s') :
    s'.FaultSite ↔ s.FaultSiteStep cfg e := by
  unfold step at h
  cases e with
  | spawn =>
    obtain rfl := Option.some.inj h
    refine iff_of_true (fun t rip hrip => hs t rip ?_) trivial
    unfold executing at hrip ⊢
    rw [List.getElem?_append] at hrip
    split_ifs at hrip
    · exact hrip
    · rw [List.getElem?_singleton] at hrip
      split_ifs at hrip <;> cases hrip
  | start t rip =>
    dsimp only at h
    split at h
    · rename_i ht
      obtain rfl := Option.some.inj h
      rw [faultSite_setThread hs ht]
      exact iff_of_true (fun rip hrip => by cases hrip) trivial
    · cases h
  | enter t =>
    dsimp only at h
    split at h
    · rename_i f rest ht
      split_ifs at h
      rw [enterFrame_iff hs ht h]
      refine ⟨fun hh f' rest' ht' => ?_, fun hh => hh f rest ht⟩
      obtain ⟨rfl, rfl⟩ := List.cons.inj (Option.some.inj (ht.symm.trans ht'))
      exact hh
    · cases h
  | invoke t =>
    dsimp only at h
    split at h
    · rename_i f rest ht
      split at h
      · rename_i ptr hpt
        obtain rfl := Option.some.inj h
        rw [faultSite_setThread hs ht]
        refine ⟨fun hh f' rest' ptr' ht' hpt' => ?_, fun hh rip hrip => ?_⟩
        · obtain ⟨rfl, rfl⟩ := List.cons.inj (Option.some.inj (ht.symm.trans ht'))
          obtain rfl := LoopPoint.entered.inj (hpt.symm.trans hpt')
          exact hh ptr.rip rfl
        · obtain rfl := Option.some.inj hrip
          exact hh f rest ptr ht hpt
      · cases h
    · cases h
  | chainExit t i =>
    dsimp only at h
    split at h
    · rename_i f rest ht
      split at h
      · rename_i ptr hpt
        -- The running block is the one entered last.
        have hlast : ptr.rip = s.lastEnteredRip :=
          hs t ptr.rip (by rw [executing_eq ht, runningRip_of_point hpt])
        have hcond : ∀ site, (s.sites ptr)[i]? = some site →
            (s.FaultSiteStep cfg (.chainExit t i) ↔
              match site.link with
              | some ptr' => ptr'.rip = ptr.rip
              | none => site.target = stopSentinel → s.ReturnsHome rest) := by
          intro site hsite
          refine ⟨fun hh => hh f rest ptr site ht hpt hsite, fun hh f' rest' ptr' site' ht' hpt' hs' => ?_⟩
          obtain ⟨rfl, rfl⟩ := List.cons.inj (Option.some.inj (ht.symm.trans ht'))
          obtain rfl := LoopPoint.running.inj (hpt.symm.trans hpt')
          obtain rfl := Option.some.inj (hsite.symm.trans hs')
          exact hh
        split at h
        · rename_i ptr' hsite
          obtain rfl := Option.some.inj h
          rw [hcond _ hsite, faultSite_setThread hs ht]
          dsimp only
          rw [hlast]
          refine ⟨fun hh => hh ptr'.rip rfl, fun hh rip hrip => ?_⟩
          obtain rfl := Option.some.inj hrip
          exact hh
        · rename_i target hsite
          obtain rfl := Option.some.inj h
          rw [hcond _ hsite]
          exact returnTo_iff hs ht
        · cases h
      · cases h
    · cases h
  | exit t rip =>
    dsimp only at h
    split at h
    · rename_i f rest ht
      split at h
      · split_ifs at h
        obtain rfl := Option.some.inj h
        rw [returnTo_iff hs ht]
        refine ⟨fun hh f' rest' ht' => ?_, fun hh => hh f rest ht⟩
        obtain ⟨rfl, rfl⟩ := List.cons.inj (Option.some.inj (ht.symm.trans ht'))
        exact hh
      · cases h
    · cases h
  | callback t rip =>
    dsimp only at h
    split at h
    · rename_i f rest ht
      split at h
      · obtain rfl := Option.some.inj h
        rw [faultSite_setThread hs ht]
        exact iff_of_true (fun rip hrip => by cases hrip) trivial
      · cases h
    · cases h
  | abort t =>
    dsimp only at h
    split at h
    · rename_i ht
      obtain rfl := Option.some.inj h
      rw [faultSite_setThread hs ht]
      exact iff_of_true (fun rip hrip => by cases hrip) trivial
    · cases h
  | write byte =>
    obtain rfl := Option.some.inj h
    exact iff_of_true (fun t rip hrip => hs t rip hrip) trivial

/-- No block is installed and no thread runs. -/
def start (image : Loader.LoadedImage) : DispatcherState :=
  ⟨image, fun _ => [], [], 0, 0, []⟩

theorem faultSite_start (image : Loader.LoadedImage) : (start image).FaultSite := by
  intro t rip hrip
  cases hrip

end DispatcherState

open DispatcherState

/-- `LAST_ENTERED_RIP` names the executing block in every state of a run exactly when no step of the run
breaks it: no patched jump to a block that starts elsewhere, no return of a nested loop that has last
entered another block than the interrupted one, no other thread in a block that starts elsewhere. -/
theorem faultSite_iff (cfg : LoopConfig) (image : Loader.LoadedImage) (es : List LoopEvent)
    (s : DispatcherState) (hr : run (step cfg) (start image) es = some s) :
    (∀ es₁ es₂ s₁, es = es₁ ++ es₂ → run (step cfg) (start image) es₁ = some s₁ → s₁.FaultSite) ↔
      Meets (step cfg) (FaultSiteStep cfg) (start image) es :=
  run_all_iff (fun _ _ _ hs h => step_iff hs h) (faultSite_start image) hr

/-- Two blocks that jump to each other: `jmp +0` at 0x140001000 and `jmp -4` after it. -/
def pingPongImage : Loader.LoadedImage where
  actualBase := 0x140000000
  len := 0x2000
  byte
    | 0x1000 => 0xEB
    | 0x1002 => 0xEB
    | 0x1003 => 0xFC
    | _ => 0

def pingPongConfig : LoopConfig :=
  ⟨⟨false⟩, .long, 0x100000⟩

/-- Each block is entered once through the loop, and the first one again. -/
def pingPongRun : List LoopEvent :=
  [.spawn, .start 0 0x140001000, .enter 0, .invoke 0, .chainExit 0 0, .enter 0, .invoke 0,
   .chainExit 0 0, .enter 0, .invoke 0]

theorem faultSite_iff_pingPong : ∃ s,
    run (step pingPongConfig) (start pingPongImage) pingPongRun = some s ∧
      ((∀ es₁ es₂ s₁, pingPongRun = es₁ ++ es₂ →
        run (step pingPongConfig) (start pingPongImage) es₁ = some s₁ → s₁.FaultSite) ↔
        Meets (step pingPongConfig) (FaultSiteStep pingPongConfig) (start pingPongImage)
          pingPongRun) := by
  have hsome : (run (step pingPongConfig) (start pingPongImage) pingPongRun).isSome := by
    decide +kernel
  obtain ⟨s, hs⟩ := Option.isSome_iff_exists.mp hsome
  exact ⟨s, hs, faultSite_iff pingPongConfig pingPongImage pingPongRun s hs⟩

/-- By then both jumps are patched: the second block runs while `LAST_ENTERED_RIP` names the first. -/
theorem chained_block_not_last :
    ¬ ∀ (cfg : LoopConfig) (image : Loader.LoadedImage) (es : List LoopEvent) (s : DispatcherState),
      run (step cfg) (start image) es = some s → s.FaultSite := by
  intro h
  have hrun : (run (step pingPongConfig) (start pingPongImage)
      (pingPongRun ++ [.chainExit 0 0])).map (fun s => (s.executing 0, s.lastEnteredRip))
        = some (some 0x140001002#64, 0x140001000#64) := by
    decide +kernel
  obtain ⟨s, hs, hval⟩ := Option.map_eq_some_iff.mp hrun
  obtain ⟨hex, hlast⟩ := Prod.mk.inj hval
  have heq := h pingPongConfig pingPongImage _ s hs 0 _ hex
  rw [hlast] at heq
  revert heq
  decide

end Quantum.Cli
