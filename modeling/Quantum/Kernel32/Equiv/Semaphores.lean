import Quantum.Kernel32.Threads
import Quantum.Lib.Machine

/-!
# The bounds of semaphores

A run of `CreateSemaphore`, waits and `ReleaseSemaphore`.  `CreateSemaphore` takes its two counts as
they are, and `ReleaseSemaphore` compares a sum that may overflow with the maximum and does not look at
the sign of the release count.  The counts stay between zero and their maximum exactly as long as the
guest itself passes arguments in range (`semaphores_sound_iff`).

A wait takes the lock any number of times before it returns.  Each of these sections is a call of its
own here, so the runs cover every interleaving of threads.
-/

namespace Quantum.Kernel32

open Machine

/-! ### Counts -/

theorem toInt_sub_one {x : BitVec 32} (h : 0 < x.toInt) : (x - 1).toInt = x.toInt - 1 := by
  refine BitVec.toInt_sub_of_not_ssubOverflow ?_
  have hlt := BitVec.toInt_lt (x := x)
  simp only [BitVec.ssubOverflow, show (1 : BitVec 32).toInt = 1 from rfl, Bool.or_eq_true,
    decide_eq_true_eq]
  omega

theorem saddOverflow_iff (x y : BitVec 32) : x.saddOverflow y = true ↔
    2 ^ 31 ≤ x.toInt + y.toInt ∨ x.toInt + y.toInt < -2 ^ 31 := by
  simp [BitVec.saddOverflow]

theorem toInt_add {x y : BitVec 32} (h : x.saddOverflow y = false) :
    (x + y).toInt = x.toInt + y.toInt :=
  BitVec.toInt_add_of_not_saddOverflow (by simp [h])

/-- A section that takes a semaphore lowers its count. -/
theorem acquire_eq_semaphore {tid : ThreadId} {obj : KernelObject} {count max : BitVec 32}
    (h : obj.acquire tid = some (.semaphore count max)) :
    ∃ count₀, obj = .semaphore count₀ max ∧ 0 < count₀.toInt ∧ count = count₀ - 1 := by
  cases obj with
  | semaphore count₀ max₀ =>
    rw [KernelObject.acquire_semaphore, Option.ite_none_right_eq_some, Option.some.injEq,
      KernelObject.semaphore.injEq] at h
    obtain ⟨hpos, rfl, rfl⟩ := h
    exact ⟨count₀, rfl, hpos, rfl⟩
  | event manualReset signaled => simp at h
  | mutex owner recursion => cases owner <;> simp at h
  | thread finished => simp at h
  | _ => rw [KernelObject.acquire_of_not_isWaitable tid rfl] at h; cases h

/-! ### The trace of a run -/

/-- A call of the run; `wait` is one locked section of a wait. -/
inductive SemCall where
  | create (initialCount maxCount : BitVec 32)
  | wait (tid : ThreadId) (handle : Handle)
  | release (handle : Handle) (releaseCount : BitVec 32)

/-- Should a release of the object fail: is the count not positive, or the sum above the maximum? -/
def KernelObject.refuses (releaseCount : BitVec 32) : KernelObject → Bool
  | .semaphore count max =>
    decide (releaseCount.toInt ≤ 0) || decide (max.toInt < count.toInt + releaseCount.toInt)
  | _ => false

/-- The kernel, with what has gone wrong so far. -/
structure SemTrace where
  kernel : Kernel
  /-- A sum of two `i32` has overflowed. -/
  overflowed : Bool
  /-- A release that should have failed has returned 1 or has changed its semaphore. -/
  accepted : Bool

namespace SemTrace

def new : SemTrace := ⟨Kernel.new, false, false⟩

/-- The release of a semaphore, as the trace records it. -/
def release (s : SemTrace) (id : ObjId) (obj : KernelObject) (releaseCount : BitVec 32) :
    Except Unit (Kernel × Option (BitVec 32)) → SemTrace
  -- the process has ended
  | .error _ => { s with overflowed := true }
  | .ok (k, prev) =>
    ⟨k, s.overflowed || obj.releaseOverflows releaseCount,
      s.accepted || (obj.refuses releaseCount && (prev.isSome || decide (k.objects id ≠ obj)))⟩

/-- One call; `none` when the process has ended, or ends on a handle that cannot be unpacked. -/
def step (c : Bool) (s : SemTrace) (e : SemCall) : Option SemTrace :=
  if c && s.overflowed then none
  else
    match e with
    | .create initialCount maxCount =>
      some { s with kernel := (s.kernel.createSemaphore initialCount maxCount).1 }
    | .wait tid handle =>
      (s.kernel.withObject c handle (KernelObject.acquire tid)).toOption.map fun r =>
        { s with kernel := r.1 }
    | .release handle releaseCount =>
      match s.kernel.get c handle with
      | .error _ => none
      | .ok none => some s
      | .ok (some (id, obj)) =>
        some (s.release id obj releaseCount (s.kernel.releaseSemaphore c handle releaseCount))

/-- Every semaphore is within its bounds, and nothing has gone wrong. -/
structure Sound (s : SemTrace) : Prop where
  bounds : ∀ id count max, s.kernel.objects id = .semaphore count max →
    0 ≤ count.toInt ∧ count.toInt ≤ max.toInt
  no_overflow : s.overflowed = false
  no_accepted : s.accepted = false

/-- The arguments of a call are in range: the initial count lies between zero and the maximum, and a
release count is positive and leads to a sum that is still an `i32`. -/
def InRange (c : Bool) (s : SemTrace) : SemCall → Prop
  | .create initialCount maxCount =>
    0 ≤ initialCount.toInt ∧ initialCount.toInt ≤ maxCount.toInt
  | .wait _ _ => True
  | .release handle releaseCount =>
    ∀ id count max, s.kernel.get c handle = .ok (some (id, .semaphore count max)) →
      0 < releaseCount.toInt ∧ count.toInt + releaseCount.toInt < 2 ^ 31

variable {s s' : SemTrace} {c : Bool}

theorem sound_new : new.Sound where
  bounds := by
    intro id count max h
    simp [new, Kernel.new] at h
  no_overflow := rfl
  no_accepted := rfl

/-- The object of a handle is one of the kernel's. -/
theorem objects_of_get {k : Kernel} {handle : Handle} {id : ObjId} {obj : KernelObject}
    (h : k.get c handle = .ok (some (id, obj))) : k.objects id = obj := by
  unfold Kernel.get at h
  cases hg : k.table.get c handle with
  | error x =>
    rw [hg] at h
    cases h
  | ok o =>
    cases o with
    | none =>
      rw [hg] at h
      cases h
    | some id' =>
      rw [hg] at h
      simp only [Except.map, Option.map_some, Except.ok.injEq, Option.some.injEq,
        Prod.mk.injEq] at h
      obtain ⟨rfl, h⟩ := h
      exact h

/-! ### Creation -/

theorem sound_create_iff (h : s.Sound) (initialCount maxCount : BitVec 32) :
    ({ s with kernel := (s.kernel.createSemaphore initialCount maxCount).1 } : SemTrace).Sound ↔
      0 ≤ initialCount.toInt ∧ initialCount.toInt ≤ maxCount.toInt := by
  have hobj : ∀ id, (s.kernel.createSemaphore initialCount maxCount).1.objects id =
      if id = s.kernel.next then .semaphore initialCount maxCount else s.kernel.objects id :=
    fun id => Function.update_apply ..
  constructor
  · intro hs
    exact hs.bounds s.kernel.next initialCount maxCount (by rw [hobj, if_pos rfl])
  · intro hr
    refine ⟨fun id count max hid => ?_, h.no_overflow, h.no_accepted⟩
    rw [hobj] at hid
    split at hid
    · obtain ⟨rfl, rfl⟩ := KernelObject.semaphore.inj hid
      exact hr
    · exact h.bounds id count max hid

/-! ### Waits -/

theorem sound_wait (h : s.Sound) {tid : ThreadId} {handle : Handle} {r : Kernel × Bool}
    (hr : s.kernel.withObject c handle (KernelObject.acquire tid) = .ok r) :
    ({ s with kernel := r.1 } : SemTrace).Sound := by
  refine ⟨fun id count max hid => ?_, h.no_overflow, h.no_accepted⟩
  unfold Kernel.withObject at hr
  split at hr
  · cases hr
  · injection hr with hr
    subst hr
    exact h.bounds id count max hid
  · rename_i id₀ obj hget
    split at hr
    · rename_i obj' hacq
      injection hr with hr
      subst hr
      simp only [Function.update_apply] at hid
      split at hid
      · subst hid
        obtain ⟨count₀, rfl, hpos, rfl⟩ := acquire_eq_semaphore hacq
        have hb := h.bounds id₀ count₀ max (objects_of_get hget)
        rw [toInt_sub_one hpos]
        omega
      · exact h.bounds id count max hid
    · injection hr with hr
      subst hr
      exact h.bounds id count max hid

/-! ### Releases -/

/-- A release in range either fails or stays below the maximum. -/
theorem sound_release (h : s.Sound) {handle : Handle} {n : BitVec 32} {id : ObjId}
    {count max : BitVec 32} (hget : s.kernel.get c handle = .ok (some (id, .semaphore count max)))
    (hpos : 0 < n.toInt) (hsum : count.toInt + n.toInt < 2 ^ 31) :
    (s.release id (.semaphore count max) n (s.kernel.releaseSemaphore c handle n)).Sound := by
  have hobj := objects_of_get hget
  have hb := h.bounds id count max hobj
  have hno : count.saddOverflow n = false := by
    rw [Bool.eq_false_iff, Ne, saddOverflow_iff]
    omega
  have hadd := toInt_add hno
  have hover : (KernelObject.semaphore count max).releaseOverflows n = false := hno
  unfold Kernel.releaseSemaphore
  simp only [hget, hover, Bool.and_false, Bool.false_eq_true, if_false]
  by_cases hmax : max.toInt < (count + n).toInt
  · -- the release fails and leaves the kernel alone
    rw [KernelObject.releaseSemaphore, if_pos hmax]
    refine ⟨h.bounds, ?_, ?_⟩
    · simp [release, h.no_overflow, hover]
    · simp [release, h.no_accepted, hobj]
  · rw [KernelObject.releaseSemaphore, if_neg hmax]
    refine ⟨fun id' count' max' hid => ?_, ?_, ?_⟩
    · simp only [release, Function.update_apply] at hid
      split at hid
      · obtain ⟨rfl, rfl⟩ := KernelObject.semaphore.inj hid
        omega
      · exact h.bounds id' count' max' hid
    · simp [release, h.no_overflow, hover]
    · have hrefuse : (KernelObject.semaphore count max).refuses n = false := by
        simp only [KernelObject.refuses, Bool.or_eq_false_iff, decide_eq_false_iff_not]
        omega
      simp [release, h.no_accepted, hrefuse]

/-- A release out of range is recorded. -/
theorem not_sound_release (h : s.Sound) {handle : Handle} {n : BitVec 32} {id : ObjId}
    {count max : BitVec 32} (hget : s.kernel.get c handle = .ok (some (id, .semaphore count max)))
    (hout : ¬ (0 < n.toInt ∧ count.toInt + n.toInt < 2 ^ 31)) :
    ¬ (s.release id (.semaphore count max) n (s.kernel.releaseSemaphore c handle n)).Sound := by
  intro hs
  have hb := h.bounds id count max (objects_of_get hget)
  have hrecord : ∀ r, s.kernel.releaseSemaphore c handle n = .ok r →
      count.saddOverflow n = false := by
    intro r hr
    have ho := hs.no_overflow
    rw [hr] at ho
    exact (Bool.or_eq_false_iff.mp ho).2
  unfold Kernel.releaseSemaphore at hs hrecord
  simp only [hget] at hs hrecord
  by_cases hover : (c && (KernelObject.semaphore count max).releaseOverflows n) = true
  · rw [if_pos hover] at hs
    exact Bool.noConfusion hs.no_overflow
  · simp only [if_neg hover] at hs hrecord
    -- the sum does not overflow, so the release count is not positive and the release succeeds
    have hno : count.saddOverflow n = false := by
      cases hr : (KernelObject.semaphore count max).releaseSemaphore n with
      | none => exact hrecord (s.kernel, none) (by rw [hr])
      | some q => exact hrecord (_, some q.2) (by rw [hr])
    have hadd := toInt_add hno
    have hlow : n.toInt ≤ 0 := by
      by_contra hpos
      refine hout ⟨by omega, ?_⟩
      have hlt := BitVec.toInt_lt (x := count + n)
      rw [hadd] at hlt
      exact hlt
    have hmax : ¬ max.toInt < (count + n).toInt := by omega
    rw [KernelObject.releaseSemaphore, if_neg hmax] at hs
    have hacc := (Bool.or_eq_false_iff.mp hs.no_accepted).2
    simp [KernelObject.refuses, hlow] at hacc

/-! ### Steps -/

/-- A call on an object that is not a semaphore fails. -/
theorem sound_release_other (h : s.Sound) {handle : Handle} {n : BitVec 32} {id : ObjId}
    {obj : KernelObject} (hget : s.kernel.get c handle = .ok (some (id, obj)))
    (hobj : ∀ count max, obj ≠ .semaphore count max) :
    (s.release id obj n (s.kernel.releaseSemaphore c handle n)).Sound := by
  have hover : obj.releaseOverflows n = false := by
    cases obj with
    | semaphore count max => exact absurd rfl (hobj count max)
    | _ => rfl
  have hrel : obj.releaseSemaphore n = none := by
    cases obj with
    | semaphore count max => exact absurd rfl (hobj count max)
    | _ => rfl
  unfold Kernel.releaseSemaphore
  simp only [hget, hover, hrel, Bool.and_false, Bool.false_eq_true, if_false]
  refine ⟨h.bounds, ?_, ?_⟩
  · simp [release, h.no_overflow, hover]
  · simp [release, h.no_accepted, objects_of_get hget]

/-- A call keeps everything sound exactly when its arguments are in range. -/
theorem sound_step_iff (h : s.Sound) {e : SemCall} (hstep : step c s e = some s') :
    s'.Sound ↔ s.InRange c e := by
  have hlive : (c && s.overflowed) = false := by rw [h.no_overflow, Bool.and_false]
  unfold step at hstep
  rw [hlive] at hstep
  simp only [Bool.false_eq_true, if_false] at hstep
  cases e with
  | create initialCount maxCount =>
    obtain rfl := Option.some.inj hstep
    exact sound_create_iff h initialCount maxCount
  | wait tid handle =>
    obtain ⟨r, hr, rfl⟩ := Option.map_eq_some_iff.mp hstep
    cases hw : s.kernel.withObject c handle (KernelObject.acquire tid) with
    | error x =>
      rw [hw] at hr
      cases hr
    | ok q =>
      rw [hw] at hr
      obtain rfl := Option.some.inj hr
      exact ⟨fun _ => trivial, fun _ => sound_wait h hw⟩
  | release handle n =>
    cases hg : s.kernel.get c handle with
    | error x => simp [hg] at hstep
    | ok o =>
      cases o with
      | none =>
        simp only [hg, Option.some.injEq] at hstep
        subst hstep
        refine ⟨fun _ id count max hget => ?_, fun _ => h⟩
        rw [hg] at hget
        cases hget
      | some q =>
        obtain ⟨id, obj⟩ := q
        simp only [hg, Option.some.injEq] at hstep
        subst hstep
        by_cases hsem : ∃ count max, obj = .semaphore count max
        · obtain ⟨count, max, rfl⟩ := hsem
          constructor
          · intro hs id' count' max' hget
            rw [hg] at hget
            cases hget
            by_contra hout
            exact not_sound_release h hg hout hs
          · intro hr
            obtain ⟨hpos, hsum⟩ := hr id count max hg
            exact sound_release h hg hpos hsum
        · refine ⟨fun _ id' count' max' hget => ?_, fun _ => sound_release_other h hg ?_⟩
          · rw [hg] at hget
            cases hget
            exact absurd ⟨count', max', rfl⟩ hsem
          · rintro count max rfl
            exact hsem ⟨count, max, rfl⟩

end SemTrace

/-- **Semaphore bounds.**  In a run every semaphore has a count between zero and its maximum, every
release that should fail fails and changes nothing, and no sum overflows, exactly when the arguments of
every call of the run are in range. -/
theorem semaphores_sound_iff (c : Bool) {es : List SemCall} {s : SemTrace}
    (hr : run (SemTrace.step c) SemTrace.new es = some s) :
    (∀ es₁ es₂ s₁, es = es₁ ++ es₂ → run (SemTrace.step c) SemTrace.new es₁ = some s₁ → s₁.Sound) ↔
      Meets (SemTrace.step c) (SemTrace.InRange c) SemTrace.new es :=
  run_all_iff (fun _ _ _ h hstep => SemTrace.sound_step_iff h hstep) SemTrace.sound_new hr

/-- A semaphore with a maximum of 3, a release of 2 and a wait. -/
theorem semaphores_sound_iff_release_two :
    ∃ s, run (SemTrace.step true) SemTrace.new
        [.create 1 3, .release (pack 0 1) 2, .wait 7 (pack 0 1)] = some s ∧
      s.kernel.objects 0 = .semaphore 2 3 ∧ s.Sound := by
  have hmeets : Meets (SemTrace.step true) (SemTrace.InRange true) SemTrace.new
      [.create 1 3, .release (pack 0 1) 2, .wait 7 (pack 0 1)] := by
    refine ⟨⟨by decide, by decide⟩, fun s₁ h₁ => ?_⟩
    obtain rfl := Option.some.inj h₁
    refine ⟨fun id count max hget => ?_, fun _ _ => ⟨trivial, fun _ _ => trivial⟩⟩
    have hobj := Option.some.inj (Except.ok.inj hget)
    obtain ⟨rfl, -⟩ := KernelObject.semaphore.inj (Prod.mk.inj hobj).2
    decide
  obtain ⟨s, hs, hobj⟩ : ∃ s, run (SemTrace.step true) SemTrace.new
      [.create 1 3, .release (pack 0 1) 2, .wait 7 (pack 0 1)] = some s ∧
      s.kernel.objects 0 = .semaphore 2 3 := ⟨_, rfl, rfl⟩
  exact ⟨s, hs, hobj, (semaphores_sound_iff true hs).mpr hmeets _ [] s rfl hs⟩

/-- A semaphore above its maximum. -/
theorem create_above_maximum :
    ¬ ∀ (c : Bool) (es : List SemCall) (s : SemTrace),
      run (SemTrace.step c) SemTrace.new es = some s → s.Sound := by
  intro h
  have hs := h true [.create 5 1] _ rfl
  have hb := hs.bounds 0 5 1 rfl
  exact absurd hb (by decide)

end Quantum.Kernel32
