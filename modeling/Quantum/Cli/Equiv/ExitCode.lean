import Quantum.Cli.RunPe
import Quantum.Kernel32.Equiv.Process

/-!
# Exit codes

When does the code of an `ExitProcess` come back from `run_pe_with_dir`?  The call has to land in a trap
of `run_pe_with_dir` itself, so not in that of a worker or of a side module's initialisation, and it has
to be told from a crash: the code 0xFFFFFFFE is that of the crash handler, and it is taken for a crash as
soon as a crash is on record.  `FaithfulStep` is this condition on the steps of a run, and
`exitProcess_returns` says that it is enough.
-/

namespace Quantum.Cli

open Quantum.Kernel32 Quantum.Machine

namespace Process

variable {cfg : Config} {p p' : Process} {id : ThreadId} {t : Thread (List Call)} {c : BitVec 32}

/-- `run_pe_with_dir` returns `c`: it has, or its next step does, and no exception dispatch is under
way. -/
def ReturnsCode (cfg : Config) (p : Process) (c : BitVec 32) : Prop :=
  (∀ crash, p.phase ≠ .dispatching crash) ∧
    (p.phase = .returned c ∨ ∃ p', p.step cfg (.host .main) = some p' ∧ p'.phase = .returned c)

/-- The main thread runs guest code under a trap of `run_pe_with_dir` and no other. -/
def UnderOwnTrap (p : Process) : Prop :=
  ∃ saved body, p.main.stack.dropWhile Frame.isGuest = [.trap saved body]

/-- `ExitProcess` is called on the main thread under the trap of `run_pe_with_dir`, and the crash code is
not used as an exit code while a crash is on record; and while the loop is about to look for a crash
behind that exit code, no worker faults. -/
def FaithfulStep (p : Process) : Event → Prop
  | .exitProcess id c =>
    id = .main ∧ p.UnderOwnTrap ∧ (c = crashCode → p.crashInfo = none ∨ 16 ≤ p.sehAttempts)
  | .fault (.worker _) _ =>
    ¬ (p.phase = .checking ∧ p.exitCode = crashCode ∧ p.crashInfo = none ∧ p.sehAttempts < 16)
  | _ => True

/-! ### The traps stay nested -/

/-- The traps of the thread are nested, and a worker runs guest code only under a trap. -/
def ThreadOk (id : ThreadId) (t : Thread (List Call)) : Prop :=
  t.WellNested ∧ (id ≠ .main → Based t.stack)

def ThreadsOk (p : Process) : Prop :=
  ∀ id t, p.thread id = some t → ThreadOk id t

theorem threadsOk_start : (start cfg).ThreadsOk := by
  intro id t ht
  cases id with
  | main =>
    obtain rfl := Option.some.inj ht
    exact ⟨Thread.wellNested_new.enterTrap _, fun h => absurd rfl h⟩
  | worker i => cases ht

theorem ThreadsOk.of_thread_eq (hp : p.ThreadsOk) (h : p'.thread = p.thread) : p'.ThreadsOk := by
  unfold ThreadsOk
  rw [h]
  exact hp

theorem ThreadsOk.setThread (hp : p.ThreadsOk) (ht : ThreadOk id t) :
    (p.setThread id t).ThreadsOk := by
  intro id' t' ht'
  cases id with
  | main =>
    cases id' with
    | main =>
      obtain rfl := Option.some.inj ht'
      exact ht
    | worker j => exact hp (.worker j) t' ht'
  | worker i =>
    cases id' with
    | main => exact hp .main t' ht'
    | worker j =>
      have hj : (p.workers.set i t)[j]? = some t' := ht'
      rw [List.getElem?_set] at hj
      split_ifs at hj with hij
      · obtain rfl := Option.some.inj hj
        exact hij ▸ ht
      · exact hp (.worker j) t' hj

/-- Whatever the trap's result does, the threads are those with the one that left the trap. -/
theorem trapReturned_thread (result : BitVec 32) :
    (p.trapReturned cfg id result t).thread = (p.setThread id t).thread := by
  cases id with
  | worker i => rfl
  | main =>
    unfold trapReturned
    dsimp only
    split_ifs <;> (funext id; cases id <;> rfl)

theorem ThreadsOk.trapReturned (result : BitVec 32) (hp : p.ThreadsOk) (ht : ThreadOk id t) :
    (p.trapReturned cfg id result t).ThreadsOk :=
  (hp.setThread ht).of_thread_eq (trapReturned_thread result)

theorem ThreadsOk.trapStep (hp : p.ThreadsOk) (ht : ThreadOk id t)
    (h : p.trapStep cfg id t = some p') : p'.ThreadsOk := by
  obtain ⟨st, fs⟩ := t
  obtain ⟨hw, hb⟩ := ht
  unfold Process.trapStep at h
  split at h
  case h_1 saved body rest hfs =>
    obtain rfl := Option.some.inj h
    subst hfs
    have hw' : Thread.WellNested ⟨st, .trap saved body :: rest⟩ := hw
    exact hp.setThread
      ⟨hw'.enterTrap [.plain], fun hid => based_trap (based_trap (hb hid).tail)⟩
  case h_2 saved body rest hfs =>
    obtain rfl := Option.some.inj h
    subst hfs
    exact hp.setThread ⟨hw, fun hid => based_guest (based_trap (hb hid).tail)⟩
  case h_3 saved rest hfs =>
    obtain ⟨t', ht', rfl⟩ := Option.map_eq_some_iff.mp h
    subst hfs
    have hw' := hw.leaveTrap ht'
    obtain rfl := Option.some.inj ht'
    exact hp.trapReturned _ ⟨hw', fun hid => (hb hid).tail⟩
  case h_4 => cases h

theorem ThreadsOk.raised {code status : BitVec 32} {r : Raised (List Call)} (hp : p.ThreadsOk)
    (ht : ThreadOk id t) (hr : raise t code status = some r) :
    (p.raised cfg id r).ThreadsOk := by
  cases r with
  | caught result t' =>
    obtain ⟨-, hw, hs⟩ := raise_caught ht.1 hr
    refine hp.trapReturned _ ⟨hw, fun hid => ?_⟩
    rw [hs]
    have hb := (ht.2 hid).dropWhile
    cases hd : t.stack.dropWhile Frame.isGuest with
    | nil => exact based_nil
    | cons f fs => exact Based.tail (hd ▸ hb)
  | terminated status => exact hp.of_thread_eq (by funext id; cases id <;> rfl)

theorem check_thread : p.check.thread = p.thread := by
  unfold check
  split
  · dsimp only
    split <;> (funext id; cases id <;> rfl)
  · funext id
    cases id <;> rfl

theorem inGuest_stack (h : t.inGuest = true) : ∃ rest, t.stack = .guest :: rest := by
  unfold Thread.inGuest at h
  split at h
  · rename_i rest hs
    exact ⟨rest, hs⟩
  · cases h

/-- Only the main thread calls guest functions from outside guest code. -/
theorem mayEnter_worker (hid : id ≠ .main) (h : p.mayEnter id t = true) : t.inGuest = true := by
  cases id with
  | main => exact absurd rfl hid
  | worker i =>
    unfold mayEnter at h
    rwa [Bool.or_false] at h

theorem ThreadOk.enter (ht : ThreadOk id t) (h : p.mayEnter id t = true) :
    ThreadOk id { t with stack := .guest :: t.stack } := by
  refine ⟨ht.1, fun hid => ?_⟩
  obtain ⟨rest, hs⟩ := inGuest_stack (mayEnter_worker hid h)
  have hb := ht.2 hid
  rw [hs] at hb
  dsimp only
  rw [hs]
  exact based_guest hb

theorem ThreadOk.leave (ht : ThreadOk id t) (h : t.inGuest = true) :
    ThreadOk id { t with stack := t.stack.tail } := by
  obtain ⟨rest, hs⟩ := inGuest_stack h
  obtain ⟨hw, hb⟩ := ht
  unfold Thread.WellNested at hw
  unfold ThreadOk Thread.WellNested
  rw [hs] at hw hb ⊢
  exact ⟨hw, fun hid => (hb hid).tail⟩

theorem step_ended {e : Event} (h : p.step cfg e = some p') : p.ended = false := by
  unfold step at h
  split at h
  · cases h
  · rename_i hn
    exact Bool.eq_false_iff.mpr hn

/-- One case for each event: the thread that takes the step and what the step does to it. -/
theorem ThreadsOk.step {e : Event} (hp : p.ThreadsOk) (h : p.step cfg e = some p') :
    p'.ThreadsOk := by
  have hend := step_ended h
  unfold Process.step at h
  rw [hend, if_neg Bool.false_ne_true] at h
  cases e with
  | host id =>
    obtain ⟨t, ht, h⟩ := Option.bind_eq_some_iff.mp h
    have hok := hp id t ht
    split at h
    · obtain rfl := Option.some.inj h
      exact hp.of_thread_eq check_thread
    · exact hp.trapStep hok h
  | enter id =>
    obtain ⟨t, ht, h⟩ := Option.bind_eq_some_iff.mp h
    split_ifs at h with hm
    obtain rfl := Option.some.inj h
    exact hp.setThread ((hp id t ht).enter hm)
  | leave id =>
    obtain ⟨t, ht, h⟩ := Option.bind_eq_some_iff.mp h
    split_ifs at h with hg
    obtain rfl := Option.some.inj h
    exact hp.setThread ((hp id t ht).leave hg)
  | spawn id =>
    obtain ⟨t, ht, h⟩ := Option.bind_eq_some_iff.mp h
    split_ifs at h
    obtain rfl := Option.some.inj h
    intro id' t' ht'
    cases id' with
    | main => exact hp .main t' ht'
    | worker j =>
      have hj : (p.workers ++ [Thread.new.enterTrap [.plain]])[j]? = some t' := ht'
      rw [List.getElem?_append] at hj
      split_ifs at hj
      · exact hp (.worker j) t' hj
      · rw [List.getElem?_singleton] at hj
        split_ifs at hj
        obtain rfl := Option.some.inj hj
        exact ⟨Thread.wellNested_new.enterTrap _, fun _ => based_trap based_nil⟩
  | exitProcess id code =>
    obtain ⟨t, ht, h⟩ := Option.bind_eq_some_iff.mp h
    split_ifs at h
    obtain ⟨r, hr, rfl⟩ := Option.map_eq_some_iff.mp h
    exact hp.raised (hp id t ht) hr
  | fault id crash =>
    obtain ⟨t, ht, h⟩ := Option.bind_eq_some_iff.mp h
    split_ifs at h
    obtain ⟨r, hr, rfl⟩ := Option.map_eq_some_iff.mp h
    exact ThreadsOk.raised (hp.of_thread_eq (by funext id; cases id <;> rfl)) (hp id t ht) hr
  | verdict resume =>
    dsimp only at h
    split at h
    · split_ifs at h
      · obtain rfl := Option.some.inj h
        exact hp.setThread (p := p)
          ⟨(hp .main p.main rfl).1.enterTrap _, fun hid => absurd rfl hid⟩
      · obtain rfl := Option.some.inj h
        exact hp.of_thread_eq (by funext id; cases id <;> rfl)
    · cases h

/-! ### After the call -/

/-- The exit code `c` is settled: it has been returned, or the loop is about to look at it and finds no
crash that it could be taken for. -/
def Settled (c : BitVec 32) (p : Process) : Prop :=
  p.phase = .returned c ∨
    (p.phase = .checking ∧ p.main.stack = [] ∧ p.exitCode = c ∧
      (c = crashCode → p.crashInfo = none ∨ 16 ≤ p.sehAttempts))

theorem check_phase (hc : p.exitCode = crashCode → p.crashInfo = none ∨ 16 ≤ p.sehAttempts) :
    p.check.phase = .returned p.exitCode := by
  unfold check
  split
  · rename_i h
    obtain hnone | hlim := hc h.1
    · dsimp only
      rw [hnone]
    · omega
  · rfl

theorem Settled.returnsCode (h : p.Settled c) : p.ReturnsCode cfg c := by
  obtain hret | ⟨hph, -, rfl, hc⟩ := h
  · refine ⟨fun crash hd => ?_, .inl hret⟩
    rw [hret] at hd
    cases hd
  · refine ⟨fun crash hd => ?_, .inr ⟨p.check, ?_, check_phase hc⟩⟩
    · rw [hph] at hd
      cases hd
    · simp [step, ended, thread, hph]

/-- The call itself settles the code. -/
theorem settled_exitProcess (hp : p.main.WellNested) (hf : p.FaithfulStep (.exitProcess id c))
    (h : p.step cfg (.exitProcess id c) = some p') : p'.Settled c := by
  obtain ⟨rfl, ⟨saved, body, htrap⟩, hc⟩ := hf
  have hend := step_ended h
  unfold step at h
  rw [hend, if_neg Bool.false_ne_true] at h
  obtain ⟨t, ht, h⟩ := Option.bind_eq_some_iff.mp h
  obtain rfl := Option.some.inj ht
  split_ifs at h
  -- The only trap on the stack is armed, so the call lands in it and leaves an empty stack.
  have harmed : p.main.exit.armed = true := by
    have hn := Nested.dropWhile hp
    rw [htrap] at hn
    exact hn.1
  unfold Kernel32.exitProcess at h
  rw [raise_eq hp, harmed, htrap] at h
  obtain rfl := Option.some.inj h
  exact .inr ⟨rfl, rfl, rfl, hc⟩

/-- While `run_pe_with_dir` has not returned, a settled code waits at the loop's condition. -/
theorem Settled.waiting (hs : p.Settled c) (hend : p.ended = false) :
    p.phase = .checking ∧ p.main.stack = [] ∧ p.exitCode = c ∧
      (c = crashCode → p.crashInfo = none ∨ 16 ≤ p.sehAttempts) := by
  obtain hret | h := hs
  · unfold ended at hend
    rw [hret] at hend
    cases hend
  · exact h

/-- Then only workers run guest code. -/
theorem worker_of_inGuest (hs : p.main.stack = []) (ht : p.thread id = some t)
    (hg : t.inGuest = true) : ∃ i, id = .worker i := by
  cases id with
  | main =>
    obtain rfl := Option.some.inj ht
    obtain ⟨rest, hs'⟩ := inGuest_stack hg
    rw [hs] at hs'
    cases hs'
  | worker i => exact ⟨i, rfl⟩

/-- What a worker raises lands in its own trap. -/
theorem raised_worker {i : Nat} {code status : BitVec 32} {r : Raised (List Call)}
    (ht : ThreadOk (.worker i) t) (hg : t.inGuest = true) (hr : raise t code status = some r) :
    ∃ t', p.raised cfg (.worker i) r = p.setThread (.worker i) t' := by
  obtain ⟨rest, hs⟩ := inGuest_stack hg
  obtain ⟨hw, hb⟩ := ht
  have harmed : t.exit.armed = true := by
    unfold Thread.WellNested at hw
    rw [hs] at hw hb
    exact hw.armed_of_based (hb nofun)
  unfold raise at hr
  dsimp only at hr
  rw [harmed, if_pos rfl] at hr
  obtain ⟨t', -, rfl⟩ := Option.map_eq_some_iff.mp hr
  exact ⟨t', rfl⟩

theorem trapStep_worker {i : Nat} (h : p.trapStep cfg (.worker i) t = some p') :
    ∃ t', p' = p.setThread (.worker i) t' := by
  unfold trapStep at h
  split at h
  · exact ⟨_, (Option.some.inj h).symm⟩
  · exact ⟨_, (Option.some.inj h).symm⟩
  · obtain ⟨t', -, rfl⟩ := Option.map_eq_some_iff.mp h
    exact ⟨t', rfl⟩
  · cases h

/-- A settled code stays settled: the main thread can only return it, and the workers reach nothing
of it but the crash record. -/
theorem Settled.step {e : Event} (hp : p.ThreadsOk) (hs : p.Settled c) (hf : p.FaithfulStep e)
    (h : p.step cfg e = some p') : p'.Settled c := by
  have hend := step_ended h
  obtain ⟨hph, hst, hcode, hc⟩ := hs.waiting hend
  unfold Process.step at h
  rw [hend, if_neg Bool.false_ne_true] at h
  cases e with
  | host id =>
    obtain ⟨t, ht, h⟩ := Option.bind_eq_some_iff.mp h
    cases id with
    | main =>
      rw [hph] at h
      obtain rfl := Option.some.inj h
      exact .inl (by rw [check_phase (hcode ▸ hc), hcode])
    | worker i =>
      obtain ⟨t', rfl⟩ := trapStep_worker h
      exact .inr ⟨hph, hst, hcode, hc⟩
  | enter id =>
    obtain ⟨t, ht, h⟩ := Option.bind_eq_some_iff.mp h
    split_ifs at h with hm
    obtain rfl := Option.some.inj h
    cases id with
    | main =>
      obtain rfl := Option.some.inj ht
      unfold mayEnter Thread.inGuest at hm
      rw [hst, hph] at hm
      cases hm
    | worker i => exact .inr ⟨hph, hst, hcode, hc⟩
  | leave id =>
    obtain ⟨t, ht, h⟩ := Option.bind_eq_some_iff.mp h
    split_ifs at h with hg
    obtain rfl := Option.some.inj h
    obtain ⟨i, rfl⟩ := worker_of_inGuest hst ht hg
    exact .inr ⟨hph, hst, hcode, hc⟩
  | spawn id =>
    obtain ⟨t, ht, h⟩ := Option.bind_eq_some_iff.mp h
    split_ifs at h
    obtain rfl := Option.some.inj h
    exact .inr ⟨hph, hst, hcode, hc⟩
  | exitProcess id code =>
    obtain ⟨t, ht, h⟩ := Option.bind_eq_some_iff.mp h
    split_ifs at h with hg
    obtain ⟨i, rfl⟩ := worker_of_inGuest hst ht hg
    exact absurd hf.1 nofun
  | fault id crash =>
    obtain ⟨t, ht, h⟩ := Option.bind_eq_some_iff.mp h
    split_ifs at h with hg
    obtain ⟨i, rfl⟩ := worker_of_inGuest hst ht hg
    obtain ⟨r, hr, rfl⟩ := Option.map_eq_some_iff.mp h
    have hraised : ∃ t', Process.raised cfg { p with crashInfo := some crash } (.worker i) r
        = Process.setThread { p with crashInfo := some crash } (.worker i) t' :=
      raised_worker (hp (.worker i) t ht) hg hr
    obtain ⟨t', ht'⟩ := hraised
    rw [ht']
    refine .inr ⟨hph, hst, hcode, fun hcc => ?_⟩
    -- The fault leaves a crash on record: the step is faithful only past the last attempt.
    obtain hnone | hlim := hc hcc
    · refine .inr (Nat.le_of_not_lt fun hlt => hf ⟨hph, hcode.trans hcc, hnone, hlt⟩)
    · exact .inr hlim
  | verdict resume =>
    dsimp only at h
    rw [hph] at h
    cases h

end Process

open Process

/-- In every run whose steps are faithful, `run_pe_with_dir` returns the code of every `ExitProcess`, and
it does not start exception dispatch after the call. -/
theorem exitProcess_returns (cfg : Config) (es₁ es₂ : List Event) (id : ThreadId) (c : BitVec 32)
    (p : Process)
    (hr : run (step cfg) (start cfg) (es₁ ++ .exitProcess id c :: es₂) = some p)
    (hm : Meets (step cfg) FaithfulStep (start cfg) (es₁ ++ .exitProcess id c :: es₂)) :
    p.ReturnsCode cfg c := by
  obtain ⟨p₁, hr₁, hr₂⟩ := run_append.mp hr
  obtain ⟨p₂, hcall, hr₂⟩ := run_cons.mp hr₂
  obtain ⟨-, hf, hm⟩ := hm.append hr₁
  have hok₁ : p₁.ThreadsOk :=
    run_invariant (fun _ _ _ h hs => ThreadsOk.step h hs) threadsOk_start hr₁
  have hok₂ : p₂.ThreadsOk := hok₁.step hcall
  have hs₂ : p₂.Settled c := settled_exitProcess (hok₁ .main _ rfl).1 hf hcall
  have hlast : p.ThreadsOk ∧ p.Settled c := by
    refine run_induction (I := fun p => p.ThreadsOk ∧ p.Settled c) ?_ ⟨hok₂, hs₂⟩ (hm p₂ hcall) hr₂
    intro q e q' hq hf hs
    exact ⟨hq.1.step hs, hq.2.step hq.1 hf hs⟩
  exact hlast.2.returnsCode

/-- A program without side modules. -/
def plainConfig : Config :=
  ⟨false, true, [], 0⟩

/-- The main thread starts a worker and runs a window procedure. -/
def callbackRun : List Event :=
  [.host .main, .spawn .main, .host (.worker 0), .enter .main]

theorem exitProcess_returns_callback : ∃ p,
    run (step plainConfig) (start plainConfig) (callbackRun ++ [.exitProcess .main 42]) = some p ∧
      p.ReturnsCode plainConfig 42 := by
  refine ⟨_, rfl, exitProcess_returns plainConfig callbackRun [] .main 42 _ rfl ?_⟩
  refine ⟨trivial, fun p hp => ?_⟩
  obtain rfl := Option.some.inj hp
  refine ⟨trivial, fun p hp => ?_⟩
  obtain rfl := Option.some.inj hp
  refine ⟨trivial, fun p hp => ?_⟩
  obtain rfl := Option.some.inj hp
  refine ⟨trivial, fun p hp => ?_⟩
  obtain rfl := Option.some.inj hp
  exact ⟨⟨rfl, ⟨_, _, rfl⟩, nofun⟩, fun _ _ => trivial⟩

/-- A worker calls `ExitProcess(7)`: its own trap swallows the code, the main thread goes on, and
`run_pe_with_dir` returns 0xFFFFFFFF when the main thread is done. -/
theorem worker_exit_lost :
    ¬ ∀ (cfg : Config) (es₁ es₂ : List Event) (id : ThreadId) (c : BitVec 32) (p : Process),
      run (step cfg) (start cfg) (es₁ ++ .exitProcess id c :: es₂) = some p →
        p.ReturnsCode cfg c := by
  intro h
  have hret := (h plainConfig [.host .main, .spawn .main, .host (.worker 0)]
    [.leave .main, .host .main, .host .main] (.worker 0) 7 _ rfl).2
  obtain hret | ⟨p', hp', -⟩ := hret
  · cases hret
  · cases hp'

end Quantum.Cli
