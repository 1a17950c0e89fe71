import Quantum.Kernel32.Equiv.Semaphores
import Mathlib.Logic.Relation

/-!
# What other threads do to an object

While a thread waits, the others may make any calls.  `OtherAct` is one locked section of another thread on
an object, and `OtherActs` any number of them.

The thread may rely on little: an object stays of its kind, and what it has secured, a thread that has
ended or a mutex of its own, stays so (`OtherActs.follows`).  And it has to expect the rest: others can
make an object ready that can be taken at all (`OtherActs.readied`), and they can take every object that
it has not secured (`OtherActs.blocked`).
-/

namespace Quantum.Kernel32

namespace KernelObject

/-- Does the object change when it is taken? -/
def isConsumed : KernelObject → Bool
  | .event manualReset _ => !manualReset
  | .mutex _ _ => true
  | .semaphore _ _ => true
  | _ => false

/-- Is the object one that stays with the thread that has taken it? -/
def isSecurable : KernelObject → Bool
  | .mutex _ _ | .thread _ => true
  | _ => false

/-- Has the thread secured the object?  No other thread can keep it from taking it. -/
def isSecured (tid : ThreadId) : KernelObject → Bool
  | .mutex owner _ => owner == some tid
  | .thread finished => finished
  | _ => false

/-- Can the thread take the object `n` times, if the others help? -/
def CanTake (c : Bool) (tid : ThreadId) (n : Nat) : KernelObject → Prop
  | .event .. | .thread _ => True
  | .mutex owner recursion =>
    c = true → (if owner = some tid then recursion.toNat else 0) + n < 2 ^ 32
  | .semaphore count max => 0 < max.toInt ∨ (n : ℤ) ≤ count.toInt
  | _ => False

/-- The object after the others have made it ready for the thread. -/
def readied (tid : ThreadId) : KernelObject → KernelObject
  | .event manualReset _ => .event manualReset true
  | .mutex (some t) recursion => if t = tid then .mutex (some t) recursion else .mutex none 0
  | .semaphore count max =>
    if 0 < max.toInt ∧ count.toInt ≤ 0 then .semaphore 1 max else .semaphore count max
  | .thread _ => .thread true
  | obj => obj

/-- The object after the others have taken it. -/
def blocked (tid : ThreadId) : KernelObject → KernelObject
  | .event manualReset _ => .event manualReset false
  | .mutex none _ => .mutex (some (tid + 1)) 1
  | .semaphore count max => if 0 < count.toInt then .semaphore 0 max else .semaphore count max
  | obj => obj

end KernelObject

open Relation KernelObject

/-! ### One section -/

variable {c : Bool} {tid : ThreadId} {obj obj' obj'' : KernelObject}

/-- A locked section of a thread other than `tid`.  A count that overflows is a panic if that is checked. -/
inductive OtherAct (c : Bool) (tid : ThreadId) (obj obj' : KernelObject) : Prop
  | acquire {t : ThreadId} (ht : t ≠ tid) (hfits : c = true → obj.acquireOverflows t = false)
      (h : obj.acquire t = some obj')
  | setEvent (h : obj.setEvent = some obj')
  | resetEvent (h : obj.resetEvent = some obj')
  | releaseMutex {t : ThreadId} (ht : t ≠ tid) (hfits : c = true → obj.releaseUnderflows t = false)
      (h : obj.releaseMutex t = some obj')
  | releaseSemaphore {n : BitVec 32} (hfits : c = true → obj.releaseOverflows n = false)
      (h : (obj.releaseSemaphore n).map Prod.fst = some obj')
  | finish (h : obj = .thread false) (h' : obj' = .thread true)

/-- Any number of sections of other threads. -/
abbrev OtherActs (c : Bool) (tid : ThreadId) : KernelObject → KernelObject → Prop :=
  ReflTransGen (OtherAct c tid)

/-- All that other threads can do to an object. -/
inductive Follows (tid : ThreadId) : KernelObject → KernelObject → Prop
  | refl (obj : KernelObject) : Follows tid obj obj
  | event (manualReset signaled signaled' : Bool) :
      Follows tid (.event manualReset signaled) (.event manualReset signaled')
  | mutex {owner owner' : Option ThreadId} (h : owner ≠ some tid) (h' : owner' ≠ some tid)
      (recursion recursion' : BitVec 32) : Follows tid (.mutex owner recursion) (.mutex owner' recursion')
  | semaphore {count count' max : BitVec 32}
      (h : count'.toInt ≤ max.toInt ∨ count'.toInt ≤ count.toInt) :
      Follows tid (.semaphore count max) (.semaphore count' max)
  | thread : Follows tid (.thread false) (.thread true)

theorem Follows.trans (h : Follows tid obj obj') (h' : Follows tid obj' obj'') :
    Follows tid obj obj'' := by
  cases h with
  | refl => exact h'
  | event manualReset signaled signaled' =>
    cases h' with
    | refl => exact .event ..
    | event => exact .event ..
  | mutex ho ho' =>
    cases h' with
    | refl => exact .mutex ho ho' ..
    | mutex _ ho'' => exact .mutex ho ho'' ..
  | semaphore hle =>
    cases h' with
    | refl => exact .semaphore hle
    | semaphore hle' =>
      refine .semaphore ?_
      omega
  | thread =>
    cases h' with
    | refl => exact .thread

theorem Follows.of_acquire {t : ThreadId} (ht : t ≠ tid) (h : obj.acquire t = some obj') :
    Follows tid obj obj' := by
  cases obj with
  | event manualReset signaled =>
    rw [acquire_event, Option.ite_none_right_eq_some] at h
    obtain rfl := Option.some.inj h.2
    exact .event ..
  | mutex owner recursion =>
    cases owner with
    | none =>
      obtain rfl := Option.some.inj h
      exact .mutex (Option.some_ne_none _).symm (fun heq => ht (Option.some.inj heq)) ..
    | some u =>
      rw [acquire_mutex_some, Option.ite_none_right_eq_some] at h
      obtain ⟨rfl, h⟩ := h
      obtain rfl := Option.some.inj h
      have hne : some u ≠ some tid := fun heq => ht (Option.some.inj heq)
      exact .mutex hne hne ..
  | semaphore count max =>
    rw [acquire_semaphore, Option.ite_none_right_eq_some] at h
    obtain ⟨hpos, h⟩ := h
    obtain rfl := Option.some.inj h
    refine .semaphore (.inr ?_)
    rw [toInt_sub_one hpos]
    omega
  | thread finished =>
    rw [acquire_thread, Option.ite_none_right_eq_some] at h
    obtain ⟨rfl, h⟩ := h
    obtain rfl := Option.some.inj h
    exact .refl _
  | _ => cases h

theorem Follows.of_releaseMutex {t : ThreadId} (ht : t ≠ tid) (h : obj.releaseMutex t = some obj') :
    Follows tid obj obj' := by
  cases obj with
  | mutex owner recursion =>
    simp only [KernelObject.releaseMutex, Option.ite_none_right_eq_some] at h
    obtain ⟨rfl, h⟩ := h
    obtain rfl := Option.some.inj h
    have hne : some t ≠ some tid := fun heq => ht (Option.some.inj heq)
    refine .mutex hne ?_ ..
    split
    · exact (Option.some_ne_none _).symm
    · exact hne
  | _ => cases h

theorem Follows.of_releaseSemaphore {n prev : BitVec 32}
    (h : obj.releaseSemaphore n = some (obj', prev)) : Follows tid obj obj' := by
  cases obj with
  | semaphore count max =>
    simp only [KernelObject.releaseSemaphore, Option.ite_none_left_eq_some, Option.some.injEq,
      Prod.mk.injEq] at h
    obtain ⟨hle, rfl, -⟩ := h
    exact .semaphore (.inl (not_lt.mp hle))
  | _ => cases h

theorem OtherAct.follows (h : OtherAct c tid obj obj') : Follows tid obj obj' := by
  cases h with
  | acquire ht _ h => exact .of_acquire ht h
  | setEvent h =>
    cases obj with
    | event manualReset signaled =>
      obtain rfl := Option.some.inj h
      exact .event ..
    | _ => cases h
  | resetEvent h =>
    cases obj with
    | event manualReset signaled =>
      obtain rfl := Option.some.inj h
      exact .event ..
    | _ => cases h
  | releaseMutex ht _ h => exact .of_releaseMutex ht h
  | releaseSemaphore _ h =>
    obtain ⟨⟨obj', prev⟩, hrelease, rfl⟩ := Option.map_eq_some_iff.mp h
    exact .of_releaseSemaphore hrelease
  | finish h h' =>
    subst h h'
    exact .thread

/-- What other threads do to an object, in any number of sections. -/
theorem OtherActs.follows (h : OtherActs c tid obj obj') : Follows tid obj obj' := by
  induction h with
  | refl => exact .refl _
  | tail _ hact ih => exact ih.trans hact.follows

/-! ### What stays -/

theorem Follows.isWaitable (h : Follows tid obj obj') : obj'.isWaitable = obj.isWaitable := by
  cases h <;> rfl

theorem Follows.isConsumed (h : Follows tid obj obj') : obj'.isConsumed = obj.isConsumed := by
  cases h <;> rfl

theorem Follows.isSecurable (h : Follows tid obj obj') : obj'.isSecurable = obj.isSecurable := by
  cases h <;> rfl

/-- A secured object stays secured. -/
theorem Follows.isSecured (h : Follows tid obj obj') (hs : obj.isSecured tid = true) :
    obj'.isSecured tid = true := by
  cases h with
  | mutex ho =>
    rw [KernelObject.isSecured, beq_iff_eq] at hs
    exact absurd hs ho
  | refl => exact hs
  | _ => cases hs

/-- If the thread can take the object after the sections of the others, then it could before. -/
theorem Follows.canTake {n : Nat} (hn : 0 < n) (h : Follows tid obj obj') (ht : obj'.CanTake c tid n) :
    obj.CanTake c tid n := by
  cases h with
  | refl => exact ht
  | event => trivial
  | thread => trivial
  | mutex ho ho' =>
    intro hc
    have hlt := ht hc
    rw [if_neg ho'] at hlt
    rw [if_neg ho]
    exact hlt
  | semaphore hle =>
    rcases ht with hpos | hcount
    · exact .inl hpos
    · rcases hle with hle | hle
      · left
        omega
      · right
        omega

/-! ### When the thread itself takes the object -/

/-- The object that the thread finds is not a mutex of its own with a full counter, if that is a panic. -/
def Fits (c : Bool) (tid : ThreadId) (obj : KernelObject) : Prop :=
  c = true → obj.acquireOverflows tid = false

theorem isWaitable_of_acquire (h : obj.acquire tid = some obj') : obj.isWaitable = true := by
  by_contra hno
  rw [acquire_of_not_isWaitable tid (Bool.not_eq_true _ ▸ hno)] at h
  cases h

/-- What a section of the thread itself does to the object it takes. -/
inductive Takes (tid : ThreadId) : KernelObject → KernelObject → Prop
  | event (manualReset : Bool) :
      Takes tid (.event manualReset true) (.event manualReset manualReset)
  | mutexFree (recursion : BitVec 32) : Takes tid (.mutex none recursion) (.mutex (some tid) 1)
  | mutexOwn (recursion : BitVec 32) :
      Takes tid (.mutex (some tid) recursion) (.mutex (some tid) (recursion + 1))
  | semaphore {count : BitVec 32} (max : BitVec 32) (h : 0 < count.toInt) :
      Takes tid (.semaphore count max) (.semaphore (count - 1) max)
  | thread : Takes tid (.thread true) (.thread true)

theorem takes_of_acquire (h : obj.acquire tid = some obj') : Takes tid obj obj' := by
  cases obj with
  | event manualReset signaled =>
    rw [acquire_event, Option.ite_none_right_eq_some] at h
    obtain ⟨rfl, h⟩ := h
    obtain rfl := Option.some.inj h
    exact .event manualReset
  | mutex owner recursion =>
    cases owner with
    | none =>
      obtain rfl := Option.some.inj h
      exact .mutexFree recursion
    | some t =>
      rw [acquire_mutex_some, Option.ite_none_right_eq_some] at h
      obtain ⟨rfl, h⟩ := h
      obtain rfl := Option.some.inj h
      exact .mutexOwn recursion
  | semaphore count max =>
    rw [acquire_semaphore, Option.ite_none_right_eq_some] at h
    obtain ⟨hpos, h⟩ := h
    obtain rfl := Option.some.inj h
    exact .semaphore max hpos
  | thread finished =>
    rw [acquire_thread, Option.ite_none_right_eq_some] at h
    obtain ⟨rfl, h⟩ := h
    obtain rfl := Option.some.inj h
    exact .thread
  | _ => cases h

theorem Takes.isWaitable (h : Takes tid obj obj') : obj'.isWaitable = obj.isWaitable := by
  cases h <;> rfl

theorem Takes.isConsumed (h : Takes tid obj obj') : obj'.isConsumed = obj.isConsumed := by
  cases h <;> rfl

theorem Takes.isSecurable (h : Takes tid obj obj') : obj'.isSecurable = obj.isSecurable := by
  cases h <;> rfl

/-- A mutex or a thread that was taken is secured. -/
theorem Takes.isSecured (h : Takes tid obj obj') (hs : obj.isSecurable = true) :
    obj'.isSecured tid = true := by
  cases h with
  | event => cases hs
  | semaphore => cases hs
  | mutexFree => exact beq_self_eq_true _
  | mutexOwn => exact beq_self_eq_true _
  | thread => rfl

theorem isSecurable_of_isSecured (h : obj.isSecured tid = true) : obj.isSecurable = true := by
  cases obj with
  | mutex => rfl
  | thread => rfl
  | _ => cases h

/-- A consumed object changes when it is taken, and the others do not. -/
theorem Takes.eq_iff (h : Takes tid obj obj') : obj' = obj ↔ obj.isConsumed = false := by
  cases h with
  | event manualReset => cases manualReset <;> simp [KernelObject.isConsumed]
  | mutexFree => simp [KernelObject.isConsumed]
  | mutexOwn => simp [KernelObject.isConsumed]
  | semaphore max hpos =>
    refine iff_of_false (fun heq => ?_) (by simp [KernelObject.isConsumed])
    injection heq with hcount
    have hone := toInt_sub_one hpos
    rw [hcount] at hone
    omega
  | thread => exact iff_of_true rfl rfl

/-- The thread could take once more what it can still take after it has taken it. -/
theorem Takes.canTake {n : Nat} (h : Takes tid obj obj') (hfits : Fits c tid obj)
    (ht : n = 0 ∨ obj'.CanTake c tid n) (hn : n + 1 < 2 ^ 32) : obj.CanTake c tid (n + 1) := by
  cases h with
  | event => trivial
  | thread => trivial
  | mutexFree =>
    intro _
    rw [if_neg (Option.some_ne_none _).symm, Nat.zero_add]
    exact hn
  | mutexOwn recursion =>
    intro hc
    have hne : recursion ≠ 0xFFFFFFFF#32 := by
      have := hfits hc
      simpa [acquireOverflows] using this
    have hsucc : (recursion + 1).toNat = recursion.toNat + 1 := by
      bv_omega
    rw [if_pos rfl]
    rcases ht with rfl | ht
    · have hlt := (recursion + 1).isLt
      omega
    · have hlt := ht hc
      rw [if_pos rfl] at hlt
      omega
  | semaphore max hpos =>
    rw [KernelObject.CanTake]
    rcases ht with rfl | ht
    · right
      push_cast
      omega
    · rw [KernelObject.CanTake, toInt_sub_one hpos] at ht
      push_cast
      omega

theorem acquire_of_isSecured (h : obj.isSecured tid = true) : ∃ obj', obj.acquire tid = some obj' := by
  cases obj with
  | mutex owner recursion =>
    rw [KernelObject.isSecured, beq_iff_eq] at h
    subst h
    exact ⟨_, acquire_mutex_some tid tid recursion ▸ if_pos rfl⟩
  | thread finished =>
    obtain rfl : finished = true := h
    exact ⟨_, rfl⟩
  | _ => cases h

/-! ### What the others can bring about -/

/-- The owner of a mutex gives it back. -/
theorem OtherActs.release {t : ThreadId} (ht : t ≠ tid) (recursion : BitVec 32) :
    OtherActs c tid (.mutex (some t) recursion) (.mutex none 0) := by
  have step : ∀ n : Nat, ∀ r : BitVec 32, r.toNat = n + 1 →
      OtherActs c tid (.mutex (some t) r) (.mutex none 0) := by
    intro n
    induction n with
    | zero =>
      intro r hr
      obtain rfl : r = 1 := BitVec.eq_of_toNat_eq hr
      exact .single (.releaseMutex ht (fun _ => by simp [releaseUnderflows])
        (by simp [KernelObject.releaseMutex]))
    | succ n ih =>
      intro r hr
      have hpred : (r - 1).toNat = n + 1 := by bv_omega
      have hne : r - 1 ≠ 0 := fun h0 => by
        rw [h0] at hpred
        cases hpred
      have hne' : r ≠ 0#32 := fun h0 => by
        rw [h0] at hr
        cases hr
      refine .head (.releaseMutex ht (fun _ => ?_) ?_) (ih (r - 1) hpred)
      · rw [releaseUnderflows, beq_eq_false_iff_ne.mpr hne', Bool.and_false]
      · rw [KernelObject.releaseMutex, if_pos rfl, if_neg hne]
  by_cases h0 : recursion = 0
  · -- a counter of zero cannot go down: the owner takes the mutex once more first
    subst h0
    refine .head (.acquire ht (fun _ => by simp [acquireOverflows]) ?_) (step 0 (0 + 1) rfl)
    rw [acquire_mutex_some, if_pos rfl]
  · refine step (recursion.toNat - 1) recursion ?_
    bv_omega

/-- A semaphore is released until its count is one. -/
theorem OtherActs.releaseUp {max : BitVec 32} (hmax : 0 < max.toInt) {count : BitVec 32}
    (hcount : count.toInt ≤ 0) : OtherActs c tid (.semaphore count max) (.semaphore 1 max) := by
  obtain ⟨n, hn⟩ : ∃ n : Nat, count.toInt = -n := ⟨(-count.toInt).toNat, by omega⟩
  have hone : (1 : BitVec 32).toInt = 1 := rfl
  induction n generalizing count with
  | zero =>
    obtain rfl : count = 0 := BitVec.eq_of_toInt_eq hn
    refine .single (.releaseSemaphore (n := 1) (fun _ => rfl) ?_)
    rw [KernelObject.releaseSemaphore, if_neg]
    · rfl
    · rw [not_lt, show ((0 : BitVec 32) + 1).toInt = 1 from rfl]
      omega
  | succ n ih =>
    have hsucc : (count + 1).toInt = -n := by
      rw [BitVec.toInt_add, hone, Int.bmod_eq_of_le]
      all_goals have := BitVec.le_toInt count
      all_goals omega
    refine .head (.releaseSemaphore (n := 1) (fun _ => ?_) ?_) (ih (by omega) hsucc)
    · have hle := BitVec.le_toInt count
      rw [releaseOverflows, BitVec.saddOverflow, hone, Bool.or_eq_false_iff, decide_eq_false_iff_not,
        decide_eq_false_iff_not]
      omega
    · rw [KernelObject.releaseSemaphore, if_neg]
      · rfl
      · rw [not_lt]
        change (count + 1).toInt ≤ max.toInt
        omega

/-- Another thread takes a semaphore until its count is zero. -/
theorem OtherActs.takeDown (max : BitVec 32) {count : BitVec 32} (hcount : 0 < count.toInt) :
    OtherActs c tid (.semaphore count max) (.semaphore 0 max) := by
  obtain ⟨n, hn⟩ : ∃ n : Nat, count.toInt = n + 1 := ⟨(count.toInt - 1).toNat, by omega⟩
  have hother : tid + 1 ≠ tid := by simp
  induction n generalizing count with
  | zero =>
    obtain rfl : count = 1 := BitVec.eq_of_toInt_eq hn
    exact .single (.acquire hother (fun _ => rfl) rfl)
  | succ n ih =>
    have hpred : (count - 1).toInt = n + 1 := by
      rw [toInt_sub_one hcount]
      omega
    refine .head (.acquire hother (fun _ => rfl) ?_) (ih (by omega) hpred)
    rw [acquire_semaphore, if_pos hcount]

/-- Other threads can make the object ready. -/
theorem OtherActs.readied (c : Bool) (tid : ThreadId) (obj : KernelObject) :
    OtherActs c tid obj (obj.readied tid) := by
  cases obj with
  | event manualReset signaled => exact .single (.setEvent rfl)
  | mutex owner recursion =>
    cases owner with
    | none => exact .refl
    | some t =>
      rw [KernelObject.readied]
      split
      · exact .refl
      · rename_i hne
        exact .release hne recursion
  | semaphore count max =>
    rw [KernelObject.readied]
    split
    · rename_i hpos
      exact .releaseUp hpos.1 hpos.2
    · exact .refl
  | thread finished =>
    cases finished with
    | false => exact .single (.finish rfl rfl)
    | true => exact .refl
  | _ => exact .refl

/-- Other threads can take the object. -/
theorem OtherActs.blocked (c : Bool) (tid : ThreadId) (obj : KernelObject) :
    OtherActs c tid obj (obj.blocked tid) := by
  cases obj with
  | event manualReset signaled => exact .single (.resetEvent rfl)
  | mutex owner recursion =>
    cases owner with
    | none => exact .single (.acquire (by simp : tid + 1 ≠ tid) (fun _ => rfl) rfl)
    | some t => exact .refl
  | semaphore count max =>
    rw [KernelObject.blocked]
    split
    · rename_i hpos
      exact .takeDown max hpos
    · exact .refl
  | _ => exact .refl

/-- A thread that can take the object does take it once it is ready. -/
theorem CanTake.readied {n : Nat} (h : obj.CanTake c tid (n + 1)) :
    Fits c tid (obj.readied tid) ∧ ∃ obj', (obj.readied tid).acquire tid = some obj' ∧
      obj'.CanTake c tid n := by
  cases obj with
  | event manualReset signaled => exact ⟨fun _ => rfl, _, rfl, trivial⟩
  | thread finished => exact ⟨fun _ => rfl, _, rfl, trivial⟩
  | mutex owner recursion =>
    cases owner with
    | none =>
      refine ⟨fun _ => rfl, _, rfl, fun hc => ?_⟩
      have hlt := h hc
      rw [if_neg (Option.some_ne_none _).symm] at hlt
      rw [if_pos rfl, show (1 : BitVec 32).toNat = 1 from rfl]
      omega
    | some t =>
      rw [KernelObject.readied]
      split
      · rename_i heq
        subst heq
        have hroom : c = true → recursion.toNat + (n + 1) < 2 ^ 32 := fun hc => by
          have hlt := h hc
          rwa [if_pos rfl] at hlt
        refine ⟨fun hc => ?_, .mutex (some t) (recursion + 1), if_pos rfl, fun hc => ?_⟩
        · have hlt := hroom hc
          have hne : recursion ≠ 0xFFFFFFFF#32 := by
            rintro rfl
            rw [show (0xFFFFFFFF#32).toNat = 2 ^ 32 - 1 from rfl] at hlt
            omega
          simp [acquireOverflows, hne]
        · have hlt := hroom hc
          rw [if_pos rfl]
          bv_omega
      · rename_i hne
        refine ⟨fun _ => rfl, _, rfl, fun hc => ?_⟩
        have hlt := h hc
        rw [if_neg (fun heq => hne (Option.some.inj heq))] at hlt
        rw [if_pos rfl, show (1 : BitVec 32).toNat = 1 from rfl]
        omega
  | semaphore count max =>
    rw [KernelObject.readied]
    split
    · rename_i hpos
      exact ⟨fun _ => rfl, _, rfl, .inl hpos.1⟩
    · rename_i hno
      rw [KernelObject.CanTake] at h
      push_cast at h
      have hcount : 0 < count.toInt := by omega
      refine ⟨fun _ => rfl, _, acquire_semaphore tid count max ▸ if_pos hcount, ?_⟩
      rw [KernelObject.CanTake, toInt_sub_one hcount]
      omega
  | _ => exact absurd h id

/-- What the thread has not secured, it cannot take when the others have taken it. -/
theorem acquire_blocked (h : obj.isSecured tid = false) :
    (obj.blocked tid).acquire tid = none ∧ (obj.blocked tid).acquireOverflows tid = false := by
  cases obj with
  | mutex owner recursion =>
    cases owner with
    | none =>
      have hne : tid + 1 ≠ tid := by simp
      exact ⟨if_neg hne, by simp [KernelObject.blocked, acquireOverflows]⟩
    | some t =>
      have hne : t ≠ tid := by
        rintro rfl
        simp [KernelObject.isSecured] at h
      exact ⟨if_neg hne, by simp [KernelObject.blocked, acquireOverflows, hne]⟩
  | semaphore count max =>
    rw [KernelObject.blocked]
    split
    · exact ⟨rfl, rfl⟩
    · rename_i hno
      exact ⟨if_neg hno, rfl⟩
  | thread finished =>
    obtain rfl : finished = false := h
    exact ⟨rfl, rfl⟩
  | _ => exact ⟨rfl, rfl⟩

end Quantum.Kernel32
