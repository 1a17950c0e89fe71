import Quantum.Kernel32.Schedule
import Quantum.Kernel32.Equiv.Semaphores

/-!
# Signals and ownership

What any interleaving of threads can do to one kernel object.  `Effect` says what a single section can
do, and every result here comes from it.

* A wait that succeeds uses up a signal: there are no more of them than signals
  (`no_double_consumption`).
* A mutex belongs to the thread that has taken it more often than it has released it, and the recursion
  count is the difference (`mutex_ownership`).
-/

namespace Quantum.Kernel32

open Machine

/-! ### What a section can do -/

/-- Is the section a `SetEvent`? -/
def Act.sets : Act → Bool
  | .setEvent | .pulseEvent => true
  | _ => false

/-- What a section of a thread does to the object, and what goes into the log. -/
inductive Effect (tid : ThreadId) (obj : KernelObject) :
    Act → Option Outcome → KernelObject → Prop where
  | quiet (a : Act) : Effect tid obj a none obj
  | timedOut (a : Act) : Effect tid obj a (some (.waited WAIT_TIMEOUT)) obj
  | took {a : Act} {obj' : KernelObject} (ha : a.sets = false) (h : obj.acquire tid = some obj') :
    Effect tid obj a (some (.waited WAIT_OBJECT_0)) obj'
  | set {a : Act} {obj' : KernelObject} (ha : a.sets = true) (h : obj.setEvent = some obj') :
    Effect tid obj a (some .eventSet) obj'
  | reset {a : Act} {obj' : KernelObject} (h : obj.resetEvent = some obj') :
    Effect tid obj a (some .eventReset) obj'
  | releasedMutex {obj' : KernelObject} (h : obj.releaseMutex tid = some obj') :
    Effect tid obj .releaseMutex (some (.mutexReleased true)) obj'
  | keptMutex (h : obj.releaseMutex tid = none) :
    Effect tid obj .releaseMutex (some (.mutexReleased false)) obj
  | releasedSemaphore {n prev : BitVec 32} {obj' : KernelObject}
    (h : obj.releaseSemaphore n = some (obj', prev)) :
    Effect tid obj (.releaseSemaphore n) (some (.semaphoreReleased n true)) obj'
  | keptSemaphore (n : BitVec 32) :
    Effect tid obj (.releaseSemaphore n) (some (.semaphoreReleased n false)) obj

namespace Shared

variable {s s' : Shared} {c : Bool} {tid : ThreadId} {a : Act}

theorem effect_of_attempt {timeout : BitVec 32} (ha : a.sets = false)
    (h : s.attempt tid c timeout = some s') :
    ∃ o, Effect tid s.object a o s'.object ∧ s'.log = o.toList.map (tid, ·) ++ s.log := by
  unfold attempt at h
  split at h
  · cases h
  · cases hacq : s.object.acquire tid with
    | some obj =>
      simp only [hacq, Option.some.injEq] at h
      subst h
      exact ⟨_, .took ha hacq, rfl⟩
    | none =>
      simp only [hacq] at h
      split at h
      · injection h with h
        subst h
        exact ⟨_, .timedOut a, rfl⟩
      · injection h with h
        subst h
        exact ⟨_, .quiet a, rfl⟩

theorem effect_of_signal {status : Status} {outcome : Outcome} {r : Option KernelObject}
    (h : ∀ obj', r = some obj' → Effect tid s.object a (some outcome) obj') :
    ∃ o, Effect tid s.object a o (s.signal tid status outcome r).object ∧
      (s.signal tid status outcome r).log = o.toList.map (tid, ·) ++ s.log := by
  cases r with
  | none => exact ⟨_, .quiet a, rfl⟩
  | some obj' => exact ⟨_, h obj' rfl, rfl⟩

theorem effect_of_releaseMutex (h : step c s (tid, .releaseMutex) = some s') :
    ∃ o, Effect tid s.object .releaseMutex o s'.object ∧
      s'.log = o.toList.map (tid, ·) ++ s.log := by
  cases hst : s.status tid with
  | idle =>
    simp only [step, hst] at h
    split at h
    · cases h
    · cases hr : s.object.releaseMutex tid with
      | some obj' =>
        simp only [hr, Option.some.injEq] at h
        subst h
        exact ⟨_, .releasedMutex hr, rfl⟩
      | none =>
        simp only [hr, Option.some.injEq] at h
        subst h
        exact ⟨_, .keptMutex hr, rfl⟩
  | _ => simp [step, hst] at h

theorem effect_of_releaseSemaphore {n : BitVec 32}
    (h : step c s (tid, .releaseSemaphore n) = some s') :
    ∃ o, Effect tid s.object (.releaseSemaphore n) o s'.object ∧
      s'.log = o.toList.map (tid, ·) ++ s.log := by
  cases hst : s.status tid with
  | idle =>
    simp only [step, hst] at h
    split at h
    · cases h
    · cases hr : s.object.releaseSemaphore n with
      | some q =>
        obtain ⟨obj', prev⟩ := q
        simp only [hr, Option.some.injEq] at h
        subst h
        exact ⟨_, .releasedSemaphore hr, rfl⟩
      | none =>
        simp only [hr, Option.some.injEq] at h
        subst h
        exact ⟨_, .keptSemaphore n, rfl⟩
  | _ => simp [step, hst] at h

/-- A step has one of the effects, and the log records it. -/
theorem effect_of_step (h : step c s (tid, a) = some s') :
    ∃ o, Effect tid s.object a o s'.object ∧ s'.log = o.toList.map (tid, ·) ++ s.log := by
  cases a with
  | wait timeout =>
    cases hst : s.status tid with
    | idle => exact effect_of_attempt rfl (by simpa only [step, hst] using h)
    | _ => simp [step, hst] at h
  | wake =>
    cases hst : s.status tid with
    | waiting timeout => exact effect_of_attempt rfl (by simpa only [step, hst] using h)
    | _ => simp [step, hst] at h
  | timedOut =>
    cases hst : s.status tid with
    | waiting timeout =>
      simp only [step, hst, Option.ite_none_left_eq_some, Option.some.injEq] at h
      obtain ⟨-, rfl⟩ := h
      exact ⟨_, .timedOut _, rfl⟩
    | _ => simp [step, hst] at h
  | setEvent =>
    cases hst : s.status tid with
    | idle =>
      simp only [step, hst, Option.some.injEq] at h
      subst h
      exact effect_of_signal fun obj' => .set rfl
    | _ => simp [step, hst] at h
  | resetEvent =>
    cases hst : s.status tid with
    | idle =>
      simp only [step, hst, Option.some.injEq] at h
      subst h
      exact effect_of_signal fun obj' => .reset
    | _ => simp [step, hst] at h
  | pulseEvent =>
    cases hst : s.status tid with
    | idle =>
      simp only [step, hst, Option.some.injEq] at h
      subst h
      exact effect_of_signal fun obj' => .set rfl
    | _ => simp [step, hst] at h
  | endPulse =>
    cases hst : s.status tid with
    | pulsing =>
      simp only [step, hst, Option.some.injEq] at h
      subst h
      exact effect_of_signal fun obj' => .reset
    | _ => simp [step, hst] at h
  | releaseMutex => exact effect_of_releaseMutex h
  | releaseSemaphore n => exact effect_of_releaseSemaphore h

end Shared

/-! ### Auto-reset events -/

/-- What a section can do to an auto-reset event. -/
theorem Effect.event_cases {tid : ThreadId} {b : Bool} {a : Act} {o : Option Outcome}
    {obj' : KernelObject} (h : Effect tid (.event false b) a o obj') :
    (obj' = .event false b ∧ o ≠ some (.waited WAIT_OBJECT_0) ∧ o ≠ some .eventSet) ∨
    (obj' = .event false false ∧ o = some (.waited WAIT_OBJECT_0) ∧ b = true) ∨
    (obj' = .event false true ∧ o = some .eventSet ∧ a.sets = true) ∨
    (obj' = .event false false ∧ o = some .eventReset) := by
  cases h with
  | quiet => exact .inl ⟨rfl, by decide, by decide⟩
  | timedOut => exact .inl ⟨rfl, by decide, by decide⟩
  | took ha h =>
    rw [KernelObject.acquire_event, Option.ite_none_right_eq_some] at h
    exact .inr (.inl ⟨(Option.some.inj h.2).symm, rfl, h.1⟩)
  | set ha h => exact .inr (.inr (.inl ⟨(Option.some.inj h).symm, rfl, ha⟩))
  | reset h => exact .inr (.inr (.inr ⟨(Option.some.inj h).symm, rfl⟩))
  | releasedMutex h => cases h
  | keptMutex => exact .inl ⟨rfl, by decide, by decide⟩
  | releasedSemaphore h => cases h
  | keptSemaphore n => exact .inl ⟨rfl, by simp, by simp⟩

namespace Shared

/-- The number of waits that have succeeded. -/
def successes (s : Shared) : Nat :=
  s.log.countP fun e => e.2 == .waited WAIT_OBJECT_0

/-- The number of `SetEvent` calls, those of `PulseEvent` included. -/
def sets (s : Shared) : Nat :=
  s.log.countP fun e => e.2 == .eventSet

variable {s s' : Shared} {c : Bool} {tid : ThreadId} {e : ThreadId × Act}

/-- Every successful wait has used up a signal. -/
def EventInv (initialState : Bool) (s : Shared) : Prop :=
  ∃ b, s.object = .event false b ∧ s.successes + b.toNat ≤ initialState.toNat + s.sets

/-- One more entry of the log. -/
theorem countP_log {p : ThreadId × Outcome → Bool} {o : Option Outcome}
    (h : s'.log = o.toList.map (tid, ·) ++ s.log) :
    s'.log.countP p = (o.toList.map (tid, ·)).countP p + s.log.countP p := by
  rw [h, List.countP_append]

theorem eventInv_step {initialState : Bool} (hs : s.EventInv initialState)
    (h : step c s e = some s') : s'.EventInv initialState := by
  obtain ⟨b, hobj, hle⟩ := hs
  obtain ⟨o, heff, hlog⟩ := effect_of_step h
  rw [hobj] at heff
  have hsucc : s'.successes = _ + s.successes := countP_log hlog
  have hsets : s'.sets = _ + s.sets := countP_log hlog
  rcases heff.event_cases with ⟨hobj', h₁, h₂⟩ | ⟨hobj', rfl, rfl⟩ | ⟨hobj', rfl, -⟩ | ⟨hobj', rfl⟩
  · refine ⟨b, hobj', ?_⟩
    have hzero : ∀ out, o ≠ some out → (o.toList.map (e.1, ·)).countP (fun q => q.2 == out) = 0 := by
      intro out hne
      cases o with
      | none => rfl
      | some out' => simpa using fun heq => hne (by rw [heq])
    rw [hzero _ h₁] at hsucc
    rw [hzero _ h₂] at hsets
    omega
  · refine ⟨false, hobj', ?_⟩
    have h₁ : s'.successes = 1 + s.successes := hsucc
    have h₂ : s'.sets = 0 + s.sets := hsets
    simp only [Bool.toNat_true, Bool.toNat_false] at hle ⊢
    omega
  · refine ⟨true, hobj', ?_⟩
    have h₁ : s'.successes = 0 + s.successes := hsucc
    have h₂ : s'.sets = 1 + s.sets := hsets
    simp only [Bool.toNat_true] at hle ⊢
    omega
  · refine ⟨false, hobj', ?_⟩
    have h₁ : s'.successes = 0 + s.successes := hsucc
    have h₂ : s'.sets = 0 + s.sets := hsets
    simp only [Bool.toNat_false] at hle ⊢
    omega

/-- A wait that succeeds leaves an auto-reset event without a signal. -/
theorem not_signaled_of_success {b : Bool} (hobj : s.object = .event false b)
    (h : step c s e = some s') (hsucc : s'.successes = s.successes + 1) :
    s'.object = .event false false := by
  obtain ⟨o, heff, hlog⟩ := effect_of_step h
  rw [hobj] at heff
  have hcount : s'.successes = _ + s.successes := countP_log hlog
  rcases heff.event_cases with ⟨-, h₁, -⟩ | ⟨hobj', -, -⟩ | ⟨-, rfl, -⟩ | ⟨hobj', -⟩
  · cases o with
    | none =>
      have : s'.successes = 0 + s.successes := hcount
      omega
    | some out =>
      have hne : (out == .waited WAIT_OBJECT_0) = false := by simpa using fun heq => h₁ (by rw [heq])
      simp only [Option.toList_some, List.map_cons, List.map_nil, List.countP_singleton, hne] at hcount
      simp only [Bool.false_eq_true, if_false] at hcount
      omega
  · exact hobj'
  · have : s'.successes = 0 + s.successes := hcount
    omega
  · exact hobj'

/-- Without `SetEvent` an event that is not signalled stays so. -/
theorem not_signaled_run {es : List (ThreadId × Act)} (hobj : s.object = .event false false)
    (hes : ∀ e ∈ es, e.2.sets = false) (hr : run (step c) s es = some s') :
    s'.object = .event false false := by
  induction es generalizing s with
  | nil =>
    obtain rfl := Option.some.inj hr
    exact hobj
  | cons e es ih =>
    obtain ⟨s₁, he, hr⟩ := run_cons.mp hr
    refine ih ?_ (fun e' he' => hes e' (List.mem_cons_of_mem _ he')) hr
    obtain ⟨o, heff, -⟩ := effect_of_step he
    rw [hobj] at heff
    have hquiet := hes e List.mem_cons_self
    rcases heff.event_cases with ⟨hobj', -, -⟩ | ⟨hobj', -, -⟩ | ⟨-, -, hset⟩ | ⟨hobj', -⟩
    · exact hobj'
    · exact hobj'
    · rw [hquiet] at hset
      cases hset
    · exact hobj'

end Shared

/-! ### Semaphores -/

/-- The count that a section has released. -/
def Outcome.released : Outcome → Int
  | .semaphoreReleased n true => n.toInt
  | _ => 0

/-- What a section can do to a semaphore. -/
theorem Effect.semaphore_cases {tid : ThreadId} {count max : BitVec 32} {a : Act}
    {o : Option Outcome} {obj' : KernelObject} (h : Effect tid (.semaphore count max) a o obj') :
    (obj' = .semaphore count max ∧
      ∀ out, o = some out → out ≠ .waited WAIT_OBJECT_0 ∧ out.released = 0) ∨
    (obj' = .semaphore (count - 1) max ∧ o = some (.waited WAIT_OBJECT_0) ∧ 0 < count.toInt) ∨
    ∃ n, obj' = .semaphore (count + n) max ∧ o = some (.semaphoreReleased n true) ∧
      a = .releaseSemaphore n := by
  cases h with
  | quiet => exact .inl ⟨rfl, nofun⟩
  | timedOut =>
    refine .inl ⟨rfl, ?_⟩
    rintro out ⟨⟩
    exact ⟨by decide, rfl⟩
  | took ha h =>
    rw [KernelObject.acquire_semaphore, Option.ite_none_right_eq_some] at h
    exact .inr (.inl ⟨(Option.some.inj h.2).symm, rfl, h.1⟩)
  | set ha h => cases h
  | reset h => cases h
  | releasedMutex h => cases h
  | keptMutex =>
    refine .inl ⟨rfl, ?_⟩
    rintro out ⟨⟩
    exact ⟨by decide, rfl⟩
  | @releasedSemaphore n prev obj' h =>
    rw [KernelObject.releaseSemaphore, Option.ite_none_left_eq_some] at h
    obtain ⟨rfl, -⟩ := Prod.mk.inj (Option.some.inj h.2)
    exact .inr (.inr ⟨n, rfl, rfl, rfl⟩)
  | keptSemaphore n =>
    refine .inl ⟨rfl, ?_⟩
    rintro out ⟨⟩
    exact ⟨by simp, rfl⟩

/-- A positive release raises a count by no more than it says, even if the sum wraps around. -/
theorem toInt_add_le {count n : BitVec 32} (hn : 0 < n.toInt) :
    (count + n).toInt ≤ count.toInt + n.toInt := by
  cases hover : count.saddOverflow n with
  | false => exact (toInt_add hover).le
  | true =>
    have hlt := BitVec.toInt_lt (x := count + n)
    have hge := BitVec.le_toInt (x := count)
    rcases (saddOverflow_iff count n).mp hover with h | h
    · omega
    · omega

namespace Shared

/-- The total of the successful releases. -/
def released (s : Shared) : Int :=
  (s.log.map fun e => e.2.released).sum

variable {s s' : Shared} {c : Bool} {e : ThreadId × Act}

/-- Every successful wait has used up one unit of the counts that were there or have been released. -/
def SemaphoreInv (initialCount maxCount : BitVec 32) (s : Shared) : Prop :=
  ∃ count, s.object = .semaphore count maxCount ∧
    s.successes + max count.toInt 0 ≤ initialCount.toInt + s.released

theorem semaphoreInv_step {initialCount maxCount : BitVec 32}
    (hs : s.SemaphoreInv initialCount maxCount)
    (hpos : ∀ n, e.2 = .releaseSemaphore n → 0 < n.toInt) (h : step c s e = some s') :
    s'.SemaphoreInv initialCount maxCount := by
  obtain ⟨count, hobj, hle⟩ := hs
  obtain ⟨o, heff, hlog⟩ := effect_of_step h
  rw [hobj] at heff
  have hsucc : s'.successes = _ + s.successes := countP_log hlog
  have hrel : s'.released = ((o.toList.map (e.1, ·)).map fun q => q.2.released).sum + s.released := by
    rw [released, hlog, List.map_append, List.sum_append]
    rfl
  rcases heff.semaphore_cases with ⟨hobj', hquiet⟩ | ⟨hobj', rfl, hlt⟩ | ⟨n, hobj', rfl, ha⟩
  · refine ⟨count, hobj', ?_⟩
    cases o with
    | none =>
      have h₁ : s'.successes = 0 + s.successes := hsucc
      have h₂ : s'.released = 0 + s.released := hrel
      omega
    | some out =>
      obtain ⟨hne, hzero⟩ := hquiet out rfl
      have h₁ : s'.successes = 0 + s.successes := by
        rw [hsucc]
        simp [hne]
      have h₂ : s'.released = 0 + s.released := by
        rw [hrel]
        simp [hzero]
      omega
  · refine ⟨count - 1, hobj', ?_⟩
    have h₁ : s'.successes = 1 + s.successes := hsucc
    have h₂ : s'.released = 0 + s.released := hrel
    rw [toInt_sub_one hlt]
    omega
  · refine ⟨count + n, hobj', ?_⟩
    have h₁ : s'.successes = 0 + s.successes := hsucc
    have h₂ : s'.released = n.toInt + s.released := by
      rw [hrel]
      simp [Outcome.released]
    have hn := hpos n ha
    have hadd : (count + n).toInt ≤ count.toInt + n.toInt := toInt_add_le hn
    omega

end Shared

/-- **Signals are consumed once.**  In any interleaving of threads the waits that succeed on an
auto-reset event are no more than its initial signal and the `SetEvent` calls, and a wait that succeeds
leaves it without a signal until the next `SetEvent`; the waits that succeed on a semaphore are no more
than its initial count and what has been released. -/
theorem no_double_consumption (c : Bool) (es : List (ThreadId × Act)) :
    (∀ initialState s,
      run (Shared.step c) (Shared.new (.event false initialState)) es = some s →
        s.successes ≤ initialState.toNat + s.sets ∧
        ∀ es₁ e es₂ s₁ s₂, es = es₁ ++ e :: es₂ →
          run (Shared.step c) (Shared.new (.event false initialState)) es₁ = some s₁ →
          Shared.step c s₁ e = some s₂ → s₂.successes = s₁.successes + 1 →
          (∀ e' ∈ es₂, e'.2.sets = false) → s.object = .event false false) ∧
    (∀ initialCount maxCount s, 0 ≤ initialCount.toInt →
      (∀ tid n, (tid, .releaseSemaphore n) ∈ es → 0 < n.toInt) →
      run (Shared.step c) (Shared.new (.semaphore initialCount maxCount)) es = some s →
        s.successes ≤ initialCount.toInt + s.released) := by
  constructor
  · intro initialState s hr
    have hinv : ∀ {es s}, run (Shared.step c) (Shared.new (.event false initialState)) es = some s →
        s.EventInv initialState :=
      fun hr => run_invariant (fun _ _ _ hs h => Shared.eventInv_step hs h)
        ⟨initialState, rfl, by simp [Shared.new, Shared.successes, Shared.sets]⟩ hr
    refine ⟨?_, fun es₁ e es₂ s₁ s₂ hes hr₁ he hsucc hquiet => ?_⟩
    · obtain ⟨b, -, hle⟩ := hinv hr
      omega
    · rw [hes, run_append] at hr
      obtain ⟨s₁', hr₁', hr₂⟩ := hr
      obtain rfl := Option.some.inj (hr₁.symm.trans hr₁')
      obtain ⟨s₂', he', hr₂⟩ := run_cons.mp hr₂
      obtain rfl := Option.some.inj (he.symm.trans he')
      obtain ⟨b, hobj, -⟩ := hinv hr₁
      exact Shared.not_signaled_run (Shared.not_signaled_of_success hobj he hsucc) hquiet hr₂
  · intro initialCount maxCount s h0 hpos hr
    have hinit : (Shared.new (.semaphore initialCount maxCount)).SemaphoreInv
        initialCount maxCount := by
      refine ⟨initialCount, rfl, ?_⟩
      simp [Shared.new, Shared.successes, Shared.released, h0]
    obtain ⟨count, -, hle⟩ := run_invariant_of_mem
      (fun _ e _ he hs h => Shared.semaphoreInv_step hs (fun n hn => hpos e.1 n (hn ▸ he)) h) hinit hr
    omega

/-- Two waits on a signalled event with a `SetEvent` between them, and two waits on a semaphore with a
release between them. -/
theorem no_double_consumption_two_waits :
    ∃ s₁ s₂, run (Shared.step true) (Shared.new (.event false true))
        [(1, .wait 0), (2, .wait INFINITE), (1, .setEvent), (2, .wake)] = some s₁ ∧
      run (Shared.step true) (Shared.new (.semaphore 1 2))
        [(1, .wait 0), (2, .wait 0), (1, .releaseSemaphore 1), (2, .wait 0)] = some s₂ ∧
      s₁.successes ≤ 1 + s₁.sets ∧ s₂.successes ≤ 1 + s₂.released := by
  obtain ⟨s₁, h₁⟩ : ∃ s₁, run (Shared.step true) (Shared.new (.event false true))
      [(1, .wait 0), (2, .wait INFINITE), (1, .setEvent), (2, .wake)] = some s₁ := ⟨_, rfl⟩
  obtain ⟨s₂, h₂⟩ : ∃ s₂, run (Shared.step true) (Shared.new (.semaphore 1 2))
      [(1, .wait 0), (2, .wait 0), (1, .releaseSemaphore 1), (2, .wait 0)] = some s₂ := ⟨_, rfl⟩
  refine ⟨s₁, s₂, h₁, h₂, ((no_double_consumption true _).1 true s₁ h₁).1,
    (no_double_consumption true _).2 1 2 s₂ (by decide) ?_ h₂⟩
  intro tid n hmem
  simp only [List.mem_cons, Prod.mk.injEq, reduceCtorEq, and_false, false_or, List.not_mem_nil,
    or_false, Act.releaseSemaphore.injEq] at hmem
  rw [hmem.2]
  decide

/-! ### Mutexes -/

/-- The object that `CreateMutex` makes. -/
def mutexObject (tid : ThreadId) (initialOwner : BitVec 32) : KernelObject :=
  (Kernel.new.createMutex tid initialOwner).1.objects 0

theorem mutexObject_eq (tid : ThreadId) (initialOwner : BitVec 32) :
    mutexObject tid initialOwner =
      if initialOwner ≠ 0 then .mutex (some tid) 1 else .mutex none 0 := by
  by_cases h : initialOwner = 0
  · subst h
    rfl
  · have hb : (initialOwner != 0) = true := bne_iff_ne.mpr h
    rw [if_pos h, mutexObject, Kernel.createMutex, if_pos hb]
    rfl

/-- What a section can do to a mutex. -/
theorem Effect.mutex_cases {tid : ThreadId} {owner : Option ThreadId} {r : BitVec 32} {a : Act}
    {o : Option Outcome} {obj' : KernelObject} (h : Effect tid (.mutex owner r) a o obj') :
    (obj' = .mutex owner r ∧ o ≠ some (.waited WAIT_OBJECT_0) ∧ o ≠ some (.mutexReleased true)) ∨
    (obj' = .mutex (some tid) 1 ∧ o = some (.waited WAIT_OBJECT_0) ∧ owner = none) ∨
    (obj' = .mutex owner (r + 1) ∧ o = some (.waited WAIT_OBJECT_0) ∧ owner = some tid) ∨
    (obj' = .mutex (if r - 1 = 0 then none else owner) (r - 1) ∧
      o = some (.mutexReleased true) ∧ owner = some tid) := by
  cases h with
  | quiet => exact .inl ⟨rfl, by decide, by decide⟩
  | timedOut => exact .inl ⟨rfl, by decide, by decide⟩
  | took ha h =>
    cases owner with
    | none => exact .inr (.inl ⟨(Option.some.inj h).symm, rfl, rfl⟩)
    | some t =>
      rw [KernelObject.acquire_mutex_some, Option.ite_none_right_eq_some] at h
      obtain ⟨rfl, h⟩ := h
      exact .inr (.inr (.inl ⟨(Option.some.inj h).symm, rfl, rfl⟩))
  | set ha h => cases h
  | reset h => cases h
  | releasedMutex h =>
    rw [KernelObject.releaseMutex, Option.ite_none_right_eq_some] at h
    exact .inr (.inr (.inr ⟨(Option.some.inj h.2).symm, rfl, h.1⟩))
  | keptMutex => exact .inl ⟨rfl, by decide, by decide⟩
  | releasedSemaphore h => cases h
  | keptSemaphore n => exact .inl ⟨rfl, by simp, by simp⟩

namespace Shared

variable {s s' : Shared} {c : Bool} {e : ThreadId × Act} {tid₀ : ThreadId} {initialOwner : BitVec 32}

/-- How often a thread has taken the mutex, the initial ownership included. -/
def acquired (tid₀ : ThreadId) (initialOwner : BitVec 32) (s : Shared) (t : ThreadId) : Nat :=
  (if initialOwner ≠ 0 ∧ t = tid₀ then 1 else 0) + s.log.count (t, .waited WAIT_OBJECT_0)

/-- How often a thread has released the mutex. -/
def releases (s : Shared) (t : ThreadId) : Nat :=
  s.log.count (t, .mutexReleased true)

/-- No thread has 2^32 acquisitions that it has not released. -/
def Nests (tid₀ : ThreadId) (initialOwner : BitVec 32) (s : Shared) : Prop :=
  ∀ t, s.acquired tid₀ initialOwner t < s.releases t + 2 ^ 32

/-- The recursion count is what the owner has not released, and no other thread has anything to
release. -/
def MutexInv (tid₀ : ThreadId) (initialOwner : BitVec 32) (s : Shared) : Prop :=
  ∃ owner recursion, s.object = .mutex owner recursion ∧ (owner = none ↔ recursion = 0) ∧
    ∀ t, s.acquired tid₀ initialOwner t =
      s.releases t + if owner = some t then recursion.toNat else 0

theorem mutexInv_new (tid₀ : ThreadId) (initialOwner : BitVec 32) :
    (new (mutexObject tid₀ initialOwner)).MutexInv tid₀ initialOwner := by
  rw [mutexObject_eq]
  by_cases h : initialOwner = 0
  · rw [if_neg (not_not.mpr h)]
    refine ⟨none, 0, rfl, by simp, fun t => ?_⟩
    have hno : ¬ (initialOwner ≠ 0 ∧ t = tid₀) := fun hc => hc.1 h
    rw [acquired, if_neg hno]
    rfl
  · rw [if_pos h]
    refine ⟨some tid₀, 1, rfl, by simp, fun t => ?_⟩
    by_cases ht : t = tid₀
    · rw [acquired, if_pos ⟨h, ht⟩, if_pos (by rw [ht])]
      rfl
    · have hno : ¬ (some tid₀ = some t) := fun hc => ht (Option.some.inj hc).symm
      rw [acquired, if_neg (fun hc => ht hc.2), if_neg hno]
      rfl

/-- An entry of the log that is not counted. -/
theorem count_log_of_ne {tid : ThreadId} {o : Option Outcome} {out : Outcome}
    (h : s'.log = o.toList.map (tid, ·) ++ s.log) (hne : o ≠ some out) (t : ThreadId) :
    s'.log.count (t, out) = s.log.count (t, out) := by
  rw [h, List.count_append]
  cases o with
  | none => simp
  | some out' =>
    have : out' ≠ out := fun heq => hne (by rw [heq])
    simp [this]

/-- An entry of the log that is counted for its thread. -/
theorem count_log_of_eq {tid : ThreadId} {out : Outcome} (h : s'.log = (tid, out) :: s.log)
    (t : ThreadId) :
    s'.log.count (t, out) = s.log.count (t, out) + if tid = t then 1 else 0 := by
  rw [h, List.count_cons]
  by_cases ht : tid = t
  · simp [ht]
  · simp [ht]

/-- A thread has taken the mutex once more. -/
theorem acquired_of_took {tid : ThreadId} (h : s'.log = (tid, .waited WAIT_OBJECT_0) :: s.log)
    (t : ThreadId) : s'.acquired tid₀ initialOwner t =
      s.acquired tid₀ initialOwner t + if tid = t then 1 else 0 := by
  rw [acquired, count_log_of_eq h, acquired, Nat.add_assoc]

theorem mutexInv_step (hs : s.MutexInv tid₀ initialOwner) (h : step c s e = some s')
    (hn : s'.Nests tid₀ initialOwner) : s'.MutexInv tid₀ initialOwner := by
  obtain ⟨tid, a⟩ := e
  obtain ⟨owner, r, hobj, hzero, hcount⟩ := hs
  obtain ⟨o, heff, hlog⟩ := effect_of_step h
  rw [hobj] at heff
  rcases heff.mutex_cases with ⟨hobj', h₁, h₂⟩ | ⟨hobj', rfl, rfl⟩ | ⟨hobj', rfl, rfl⟩ |
    ⟨hobj', rfl, rfl⟩
  · refine ⟨owner, r, hobj', hzero, fun t => ?_⟩
    rw [acquired, releases, count_log_of_ne hlog h₁, count_log_of_ne hlog h₂]
    exact hcount t
  · -- the mutex was free
    refine ⟨some tid, 1, hobj', by simp, fun t => ?_⟩
    have hold := hcount t
    rw [if_neg nofun] at hold
    rw [acquired_of_took hlog, releases, count_log_of_ne hlog (by decide), hold]
    simp only [Option.some.injEq]
    rfl
  · -- the owner takes it once more
    have hacq : ∀ t, s'.acquired tid₀ initialOwner t =
        s.acquired tid₀ initialOwner t + if tid = t then 1 else 0 := acquired_of_took hlog
    have hrel : ∀ t, s'.releases t = s.releases t := count_log_of_ne hlog (by decide)
    have hr : (r + 1).toNat = r.toNat + 1 := by
      have hbound := hn tid
      rw [hacq, hrel, hcount tid, if_pos rfl, if_pos rfl] at hbound
      rw [BitVec.toNat_add, show (1 : BitVec 32).toNat = 1 from rfl]
      omega
    refine ⟨some tid, r + 1, hobj', ⟨nofun, fun h0 => ?_⟩, fun t => ?_⟩
    · rw [h0] at hr
      cases hr
    · rw [hacq, hrel, hcount t, hr]
      by_cases ht : tid = t
      · rw [if_pos (by rw [ht]), if_pos ht, if_pos (by rw [ht])]
        omega
      · have hne : ¬ some tid = some t := fun hc => ht (Option.some.inj hc)
        rw [if_neg hne, if_neg ht, if_neg hne]
  · -- the owner releases it
    have hacq : ∀ t, s'.acquired tid₀ initialOwner t = s.acquired tid₀ initialOwner t := fun t => by
      rw [acquired, count_log_of_ne hlog (by decide), acquired]
    have hrel : ∀ t, s'.releases t = s.releases t + if tid = t then 1 else 0 :=
      count_log_of_eq hlog
    have hne : r.toNat ≠ 0 := fun h0 => by
      have hr0 : r = 0 := BitVec.eq_of_toNat_eq h0
      cases hzero.mpr hr0
    have hr : (r - 1).toNat = r.toNat - 1 := by
      have hlt := r.isLt
      rw [BitVec.toNat_sub, show (1 : BitVec 32).toNat = 1 from rfl]
      omega
    refine ⟨_, r - 1, hobj', by split <;> simp_all, fun t => ?_⟩
    rw [hacq, hrel, hcount t, hr]
    by_cases ht : tid = t
    · rw [if_pos (by rw [ht]), if_pos ht]
      by_cases h0 : r - 1 = 0
      · have hr0 : r.toNat - 1 = 0 := by
          rw [← hr, h0]
          rfl
        rw [if_pos h0, if_neg nofun]
        omega
      · rw [if_neg h0, if_pos (by rw [ht])]
        omega
    · have hno : ¬ some tid = some t := fun hc => ht (Option.some.inj hc)
      have hno' : ¬ (if r - 1 = 0 then none else some tid) = some t := by
        split
        · nofun
        · exact hno
      rw [if_neg hno, if_neg ht, if_neg hno']

theorem length_log_run {es : List (ThreadId × Act)} (hr : run (step c) s es = some s') :
    s'.log.length ≤ es.length + s.log.length := by
  induction es generalizing s with
  | nil =>
    obtain rfl := Option.some.inj hr
    exact Nat.le_add_left ..
  | cons e es ih =>
    obtain ⟨s₁, he, hr⟩ := run_cons.mp hr
    obtain ⟨o, -, hlog⟩ := effect_of_step he
    have hle := ih hr
    have hone : o.toList.length ≤ 1 := by cases o <;> simp
    rw [hlog, List.length_append, List.length_map] at hle
    rw [List.length_cons]
    omega

/-- A run of fewer than 2^32 steps has no deeper nesting. -/
theorem nests_of_length {obj : KernelObject} {es : List (ThreadId × Act)}
    (hr : run (step c) (new obj) es = some s) (hlen : es.length + 1 < 2 ^ 32) :
    s.Nests tid₀ initialOwner := by
  intro t
  have hlog := length_log_run hr
  have hle : s.log.count (t, .waited WAIT_OBJECT_0) ≤ s.log.length := List.count_le_length
  have hone : (if initialOwner ≠ 0 ∧ t = tid₀ then 1 else 0) ≤ 1 := by split <;> simp
  simp only [new, List.length_nil] at hlog
  rw [acquired]
  omega

/-- A call of `ReleaseMutex` succeeds exactly for the owner, and otherwise changes nothing. -/
theorem step_releaseMutex {owner : Option ThreadId} {r : BitVec 32} {t : ThreadId}
    (hobj : s.object = .mutex owner r) (hr : owner = some t → r ≠ 0) (hst : s.status t = .idle) :
    ∃ s', step c s (t, .releaseMutex) = some s' ∧
      s'.log = (t, .mutexReleased (decide (owner = some t))) :: s.log ∧
      (owner ≠ some t → s'.object = s.object) := by
  by_cases ho : owner = some t
  · subst ho
    have hunder : (KernelObject.mutex (some t) r).releaseUnderflows t = false := by
      have := hr rfl
      simpa [KernelObject.releaseUnderflows] using this
    refine ⟨s.finish t .idle (.mutex (if r - 1 = 0 then none else some t) (r - 1))
      (.mutexReleased true), ?_, ?_, fun hc => absurd rfl hc⟩
    · simp only [step, hst, hobj, hunder, Bool.and_false, Bool.false_eq_true, if_false,
        KernelObject.releaseMutex, if_true]
    · simp [finish]
  · have hunder : (KernelObject.mutex owner r).releaseUnderflows t = false := by
      simp [KernelObject.releaseUnderflows, ho]
    refine ⟨s.finish t .idle s.object (.mutexReleased false), ?_, ?_, fun _ => rfl⟩
    · simp only [step, hst, hobj, hunder, Bool.and_false, Bool.false_eq_true, if_false,
        KernelObject.releaseMutex, if_neg ho]
    · simp [finish, ho]

end Shared

/-- **Mutex ownership.**  In any interleaving of threads with fewer than 2^32 nested acquisitions, at
most one thread has taken the mutex more often than it has released it; that thread is the owner, and
the recursion count is the difference.  Without an owner the count is zero.  `ReleaseMutex` succeeds
exactly for the owner and otherwise changes nothing. -/
theorem mutex_ownership (c : Bool) (tid₀ : ThreadId) (initialOwner : BitVec 32)
    {es : List (ThreadId × Act)} {s : Shared}
    (hr : run (Shared.step c) (Shared.new (mutexObject tid₀ initialOwner)) es = some s)
    (hn : ∀ es₁ es₂ s₁, es = es₁ ++ es₂ →
      run (Shared.step c) (Shared.new (mutexObject tid₀ initialOwner)) es₁ = some s₁ →
        s₁.Nests tid₀ initialOwner) :
    ∃ owner recursion, s.object = .mutex owner recursion ∧
      (∀ t t', s.releases t < s.acquired tid₀ initialOwner t →
        s.releases t' < s.acquired tid₀ initialOwner t' → t = t') ∧
      (∀ t, owner = some t ↔ s.releases t < s.acquired tid₀ initialOwner t) ∧
      (∀ t, owner = some t → recursion.toNat = s.acquired tid₀ initialOwner t - s.releases t) ∧
      (owner = none ↔ recursion = 0) ∧
      ∀ t, s.status t = .idle → ∃ s', Shared.step c s (t, .releaseMutex) = some s' ∧
        s'.log = (t, .mutexReleased (decide (owner = some t))) :: s.log ∧
        (owner ≠ some t → s'.object = s.object) := by
  obtain ⟨owner, r, hobj, hzero, hcount⟩ : s.MutexInv tid₀ initialOwner :=
    run_induction (fun _ _ _ hs hc h => Shared.mutexInv_step hs h (hc _ h))
      (Shared.mutexInv_new tid₀ initialOwner) (meets_of_forall hr hn) hr
  have hpos : ∀ t, owner = some t → r.toNat ≠ 0 := fun t ht h0 => by
    have hnone := hzero.mpr (BitVec.eq_of_toNat_eq h0)
    rw [hnone] at ht
    cases ht
  have howner : ∀ t, owner = some t ↔ s.releases t < s.acquired tid₀ initialOwner t := fun t => by
    have h := hcount t
    constructor
    · intro ht
      have := hpos t ht
      rw [if_pos ht] at h
      omega
    · intro hlt
      by_contra ht
      rw [if_neg ht] at h
      omega
  refine ⟨owner, r, hobj, fun t t' h h' => ?_, howner, fun t ht => ?_, hzero, fun t hst => ?_⟩
  · have h₁ := (howner t).mpr h
    have h₂ := (howner t').mpr h'
    exact Option.some.inj (h₁.symm.trans h₂)
  · have h := hcount t
    rw [if_pos ht] at h
    omega
  · refine Shared.step_releaseMutex hobj (fun ht h0 => hpos t ht ?_) hst
    rw [h0]
    rfl

/-- A thread that takes its mutex again, and another one that waits in vain. -/
theorem mutex_ownership_two_threads :
    ∃ s, run (Shared.step true) (Shared.new (mutexObject 1 1))
        [(1, .wait 0), (2, .wait 0), (1, .releaseMutex)] = some s ∧
      ∃ owner recursion, s.object = .mutex owner recursion ∧
        (owner = some 1 ↔ s.releases 1 < s.acquired 1 1 1) ∧
        (owner = some 2 ↔ s.releases 2 < s.acquired 1 1 2) := by
  obtain ⟨s, hs⟩ : ∃ s, run (Shared.step true) (Shared.new (mutexObject 1 1))
      [(1, .wait 0), (2, .wait 0), (1, .releaseMutex)] = some s := ⟨_, rfl⟩
  have hnests : ∀ es₁ es₂ s₁, [(1, .wait 0), (2, .wait 0), (1, .releaseMutex)] = es₁ ++ es₂ →
      run (Shared.step true) (Shared.new (mutexObject 1 1)) es₁ = some s₁ → s₁.Nests 1 1 := by
    intro es₁ es₂ s₁ hes hr
    have hlen := congrArg List.length hes
    rw [List.length_append] at hlen
    refine Shared.nests_of_length hr ?_
    simp only [List.length_cons, List.length_nil] at hlen
    omega
  obtain ⟨owner, r, hobj, -, howner, -⟩ := mutex_ownership true 1 1 hs hnests
  exact ⟨s, hs, owner, r, hobj, howner 1, howner 2⟩

end Quantum.Kernel32
