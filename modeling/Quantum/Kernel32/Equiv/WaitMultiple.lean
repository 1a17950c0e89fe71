import Quantum.Kernel32.Equiv.OtherThreads
import Mathlib.Data.List.Basic

/-!
# What a wait for several objects takes

A wait for all objects takes them one after another, each with the whole timeout, and gives none of
them back when a later one fails.  A wait for any object returns the index of the one it has taken,
but from index 0x102 on an index cannot be told from `WAIT_TIMEOUT`.

The result is about all that other threads may do during the call: before each of its locked sections
they may make any calls on the objects (`OthersAct`); the handles stay as they are.  What the call does is
seen in the objects before and after its sections (`Consumes`), and it is right for all that the others may
do exactly under the condition `Atomic`, which looks at the handles, the timeout and the objects at the
beginning (`waitForMultipleObjects_atomic_iff`).
-/

namespace Quantum.Kernel32

open Relation

/-! ### Other threads -/

variable {table : HandleTable ObjId} {c : Bool} {tid : ThreadId} {timeout : BitVec 32}

/-- Another thread's section on one of the objects. -/
inductive OtherStep (c : Bool) (tid : ThreadId) (objects : Objects) : Objects → Prop
  | on (id : ObjId) {obj : KernelObject} (h : OtherAct c tid (objects id) obj) :
      OtherStep c tid objects (Function.update objects id obj)

/-- The turns of the others consist of sections of other threads. -/
def OthersAct (c : Bool) (tid : ThreadId) (turns : List Turn) : Prop :=
  ∀ others, Turn.run others ∈ turns → ∀ objects,
    ReflTransGen (OtherStep c tid) objects (others objects)

/-- Other threads have led from some objects to others. -/
def Followed (tid : ThreadId) (objects objects' : Objects) : Prop :=
  ∀ id, Follows tid (objects id) (objects' id)

theorem Followed.trans {o₁ o₂ o₃ : Objects} (h : Followed tid o₁ o₂) (h' : Followed tid o₂ o₃) :
    Followed tid o₁ o₃ :=
  fun id => (h id).trans (h' id)

theorem OtherStep.followed {objects objects' : Objects} (h : OtherStep c tid objects objects') :
    Followed tid objects objects' := by
  obtain ⟨id, hact⟩ := h
  intro id'
  rw [Function.update_apply]
  split
  · rename_i heq
    rw [heq]
    exact hact.follows
  · exact .refl _

theorem followed_of_steps {objects objects' : Objects}
    (h : ReflTransGen (OtherStep c tid) objects objects') : Followed tid objects objects' := by
  induction h with
  | refl => exact fun id => .refl _
  | tail _ hstep ih => exact ih.trans hstep.followed

theorem OthersAct.followed {others : Objects → Objects} {turns : List Turn}
    (h : OthersAct c tid (.run others :: turns)) (objects : Objects) :
    Followed tid objects (others objects) :=
  followed_of_steps (h others List.mem_cons_self objects)

/-- Sections on one of the objects. -/
theorem OtherActs.on {objects : Objects} {id : ObjId} {obj : KernelObject}
    (h : OtherActs c tid (objects id) obj) :
    ReflTransGen (OtherStep c tid) objects (Function.update objects id obj) := by
  induction h with
  | refl => rw [Function.update_eq_self]
  | @tail obj obj' _ hact ih =>
    refine ih.tail ?_
    rw [← Function.update_self id obj objects] at hact
    have hstep := OtherStep.on id hact
    rwa [Function.update_idem] at hstep

theorem OthersAct.nil : OthersAct c tid [] :=
  fun _ h => absurd h List.not_mem_nil

theorem OthersAct.tail {t : Turn} {turns : List Turn} (h : OthersAct c tid (t :: turns)) :
    OthersAct c tid turns :=
  fun others hm => h others (List.mem_cons_of_mem _ hm)

theorem OthersAct.timedOut {turns : List Turn} (h : OthersAct c tid turns) :
    OthersAct c tid (.timedOut :: turns) := by
  intro others hm
  rcases List.mem_cons.mp hm with hm | hm
  · cases hm
  · exact h others hm

theorem OthersAct.append {turns turns' : List Turn} (h : OthersAct c tid turns)
    (h' : OthersAct c tid turns') : OthersAct c tid (turns ++ turns') := by
  intro others hm
  rcases List.mem_append.mp hm with hm | hm
  · exact h others hm
  · exact h' others hm

/-- The others make an object ready. -/
def makeReady (tid : ThreadId) (id : ObjId) : Turn :=
  .run fun objects => Function.update objects id ((objects id).readied tid)

/-- The others take an object. -/
def makeBlocked (tid : ThreadId) (id : ObjId) : Turn :=
  .run fun objects => Function.update objects id ((objects id).blocked tid)

theorem OthersAct.makeReady (id : ObjId) {turns : List Turn} (h : OthersAct c tid turns) :
    OthersAct c tid (makeReady tid id :: turns) := by
  intro others hm objects
  rcases List.mem_cons.mp hm with hm | hm
  · obtain rfl := Turn.run.inj hm
    exact (OtherActs.readied c tid _).on
  · exact h others hm objects

theorem OthersAct.makeBlocked (id : ObjId) {turns : List Turn} (h : OthersAct c tid turns) :
    OthersAct c tid (makeBlocked tid id :: turns) := by
  intro others hm objects
  rcases List.mem_cons.mp hm with hm | hm
  · obtain rfl := Turn.run.inj hm
    exact (OtherActs.blocked c tid _).on
  · exact h others hm objects

/-! ### The sections of a call -/

/-- The turns of the others and the sections of the call, one after another, lead from the objects at its
beginning to those at its end. -/
inductive Linked : Objects → List Turn → List LockedSection → Objects → List Turn → Prop
  | done (objects : Objects) (turns : List Turn) : Linked objects turns [] objects turns
  | run {objects objects' : Objects} {turns turns' : List Turn} {sections : List LockedSection}
      (others : Objects → Objects) (h : Linked (others objects) turns sections objects' turns') :
      Linked objects (.run others :: turns) sections objects' turns'
  | timedOut {objects objects' : Objects} {turns turns' : List Turn} {sections : List LockedSection}
      (h : Linked objects turns sections objects' turns') :
      Linked objects (.timedOut :: turns) sections objects' turns'
  | locked {objects' : Objects} {turns turns' : List Turn} {sections : List LockedSection}
      (s : LockedSection) (h : Linked s.after turns sections objects' turns') :
      Linked s.before turns (s :: sections) objects' turns'

/-- The sections acquire the objects, in this order, and otherwise leave all objects as they are. -/
inductive Acquired (tid : ThreadId) : List LockedSection → List ObjId → Prop
  | nil : Acquired tid [] []
  | acquires {s : LockedSection} {sections : List LockedSection} {ids : List ObjId} {obj : KernelObject}
      (hacq : (s.before s.id).acquire tid = some obj)
      (hafter : s.after = Function.update s.before s.id obj) (h : Acquired tid sections ids) :
      Acquired tid (s :: sections) (s.id :: ids)
  | leaves {s : LockedSection} {sections : List LockedSection} {ids : List ObjId}
      (hacq : (s.before s.id).acquire tid = none) (hafter : s.after = s.before)
      (h : Acquired tid sections ids) : Acquired tid (s :: sections) ids

theorem Linked.trans {o₁ o₂ o₃ : Objects} {t₁ t₂ t₃ : List Turn} {s₁ s₂ : List LockedSection}
    (h : Linked o₁ t₁ s₁ o₂ t₂) (h' : Linked o₂ t₂ s₂ o₃ t₃) : Linked o₁ t₁ (s₁ ++ s₂) o₃ t₃ := by
  induction h with
  | done => exact h'
  | run others _ ih => exact .run others (ih h')
  | timedOut _ ih => exact .timedOut (ih h')
  | locked s _ ih => exact .locked s (ih h')

/-- The turns that are left are turns of the same threads. -/
theorem Linked.othersAct {o₁ o₂ : Objects} {t₁ t₂ : List Turn} {sections : List LockedSection}
    (h : Linked o₁ t₁ sections o₂ t₂) (ha : OthersAct c tid t₁) : OthersAct c tid t₂ := by
  induction h with
  | done => exact ha
  | run others _ ih => exact ih ha.tail
  | timedOut _ ih => exact ih ha.tail
  | locked s _ ih => exact ih ha

theorem Acquired.append {s₁ s₂ : List LockedSection} {ids₁ ids₂ : List ObjId}
    (h : Acquired tid s₁ ids₁) (h' : Acquired tid s₂ ids₂) :
    Acquired tid (s₁ ++ s₂) (ids₁ ++ ids₂) := by
  induction h with
  | nil => exact h'
  | acquires hacq hafter _ ih => exact .acquires hacq hafter ih
  | leaves hacq hafter _ ih => exact .leaves hacq hafter ih

/-- The sections tell what they have acquired. -/
theorem Acquired.unique {sections : List LockedSection} {ids ids' : List ObjId}
    (h : Acquired tid sections ids) (h' : Acquired tid sections ids') : ids = ids' := by
  induction h generalizing ids' with
  | nil => cases h' with
    | nil => rfl
  | acquires hacq _ _ ih =>
    cases h' with
    | acquires _ _ h' => rw [ih h']
    | leaves hnone =>
      rw [hacq] at hnone
      cases hnone
  | leaves hacq _ _ ih =>
    cases h' with
    | acquires hsome =>
      rw [hacq] at hsome
      cases hsome
    | leaves _ _ h' => exact ih h'

/-- A call leaves all objects as they are exactly when it has acquired no consumed one. -/
theorem Acquired.leaves_iff {objects objects' : Objects} {turns turns' : List Turn}
    {sections : List LockedSection} {ids : List ObjId} (h : Acquired tid sections ids)
    (hl : Linked objects turns sections objects' turns') (ha : OthersAct c tid turns) :
    (∀ s ∈ sections, s.after = s.before) ↔ ∀ id ∈ ids, (objects id).isConsumed = false := by
  induction hl generalizing ids with
  | done =>
    cases h with
    | nil => exact ⟨fun _ _ hid => absurd hid List.not_mem_nil, fun _ _ hs => absurd hs List.not_mem_nil⟩
  | @run objects _ _ _ _ others _ ih =>
    have hf := ha.followed objects
    rw [ih h ha.tail]
    exact forall₂_congr fun id _ => by rw [(hf id).isConsumed]
  | timedOut _ ih => exact ih h ha.tail
  | locked s _ ih =>
    rw [List.forall_mem_cons]
    cases h with
    | leaves _ hafter h =>
      rw [ih h ha, hafter]
      exact and_iff_right rfl
    | @acquires _ _ ids obj hacq hafter h =>
      have htakes := takes_of_acquire hacq
      have heq : s.after = s.before ↔ (s.before s.id).isConsumed = false := by
        rw [← htakes.eq_iff, hafter, Function.update_eq_self_iff]
      have hkind : ∀ id, (s.after id).isConsumed = (s.before id).isConsumed := by
        intro id
        rw [hafter, Function.update_apply]
        split
        · rename_i heq
          rw [heq, htakes.isConsumed]
        · rfl
      rw [List.forall_mem_cons, heq, ih h ha]
      simp only [hkind]

/-! ### One object -/

theorem waitSingle_run (id : ObjId) (objects : Objects) (others : Objects → Objects)
    (turns : List Turn) : waitSingle c tid timeout id objects (.run others :: turns) =
      if c && (others objects id).acquireOverflows tid then none
      else
        match (others objects id).acquire tid with
        | some obj =>
          some ⟨WAIT_OBJECT_0, Function.update (others objects) id obj, turns,
            [⟨id, others objects, Function.update (others objects) id obj⟩]⟩
        | none =>
          if !(others objects id).isWaitable || timeout == 0 then
            some ⟨WAIT_TIMEOUT, others objects, turns, [⟨id, others objects, others objects⟩]⟩
          else
            match turns with
            | .timedOut :: turns =>
              if timeout = INFINITE then none
              else some ⟨WAIT_TIMEOUT, others objects, turns, [⟨id, others objects, others objects⟩]⟩
            | _ => (waitSingle c tid timeout id (others objects) turns).map
                (Waited.after [⟨id, others objects, others objects⟩]) := by
  rcases turns with - | ⟨- | -, turns⟩ <;> rfl

/-- How a wait on an object ends: it has taken it, or it has timed out. -/
inductive SingleEnds (c : Bool) (tid : ThreadId) (timeout : BitVec 32) (id : ObjId) (objects : Objects)
    (r : Waited) : Prop
  | took {found : Objects} {obj : KernelObject} (hf : Followed tid objects found)
      (hfits : Fits c tid (found id)) (hacq : (found id).acquire tid = some obj)
      (hobj : r.objects = Function.update found id obj) (hcode : r.code = WAIT_OBJECT_0)
      (hids : Acquired tid r.sections [id])
  | timedOut (hf : Followed tid objects r.objects) (hacq : (r.objects id).acquire tid = none)
      (hcode : r.code = WAIT_TIMEOUT) (hids : Acquired tid r.sections [])
      (hend : (r.objects id).isWaitable = false ∨ timeout ≠ INFINITE)

theorem waitSingle_spec {id : ObjId} {objects : Objects} {turns : List Turn} {r : Waited}
    (ha : OthersAct c tid turns) (h : waitSingle c tid timeout id objects turns = some r) :
    Linked objects turns r.sections r.objects r.turns ∧ SingleEnds c tid timeout id objects r := by
  induction turns generalizing objects r with
  | nil => cases h
  | cons t turns ih =>
    cases t with
    | timedOut => cases h
    | run others =>
      have hf := ha.followed objects
      rw [waitSingle_run, Option.ite_none_left_eq_some] at h
      obtain ⟨hno, h⟩ := h
      have hfits : Fits c tid (others objects id) := by
        rintro rfl
        simpa using hno
      cases hacq : (others objects id).acquire tid with
      | some obj =>
        simp only [hacq, Option.some.injEq] at h
        subst h
        exact ⟨.run others (.locked ⟨id, others objects, _⟩ (.done _ _)),
          .took hf hfits hacq rfl rfl (.acquires hacq rfl .nil)⟩
      | none =>
        simp only [hacq] at h
        split at h
        · rename_i hfail
          obtain rfl := Option.some.inj h
          refine ⟨.run others (.locked ⟨id, others objects, others objects⟩ (.done _ _)),
            .timedOut hf hacq rfl (.leaves hacq rfl .nil) ?_⟩
          rcases Bool.or_eq_true_iff.mp hfail with hnot | hzero
          · exact .inl (Bool.not_eq_true' _ ▸ hnot)
          · right
            rw [beq_iff_eq.mp hzero]
            decide
        · split at h
          · rename_i turns'
            rw [Option.ite_none_left_eq_some] at h
            obtain ⟨hfin, h⟩ := h
            obtain rfl := Option.some.inj h
            exact ⟨.run others (.locked ⟨id, others objects, others objects⟩ (.timedOut (.done _ _))),
              .timedOut hf hacq rfl (.leaves hacq rfl .nil) (.inr hfin)⟩
          · obtain ⟨r', hr', rfl⟩ := Option.map_eq_some_iff.mp h
            obtain ⟨hl, hends⟩ := ih ha.tail hr'
            refine ⟨.run others (.locked ⟨id, others objects, others objects⟩ hl), ?_⟩
            cases hends with
            | took hf' hfits hacq' hobj hcode hids =>
              exact .took (hf.trans hf') hfits hacq' hobj hcode (.leaves hacq rfl hids)
            | timedOut hf' hacq' hcode hids hend =>
              exact .timedOut (hf.trans hf') hacq' hcode (.leaves hacq rfl hids) hend

/-- The object of a handle. -/
def HandleTable.resolve (table : HandleTable ObjId) (c : Bool) (h : Handle) : Option ObjId :=
  (table.get c h).toOption.join

theorem HandleTable.resolve_eq_some {h : Handle} {id : ObjId} :
    table.resolve c h = some id ↔ table.get c h = .ok (some id) := by
  unfold HandleTable.resolve
  cases table.get c h with
  | error x => simp [Except.toOption]
  | ok o => simp [Except.toOption]

/-- The objects of some handles, in order. -/
def HandleTable.objects (table : HandleTable ObjId) (c : Bool) (hs : List Handle) : List ObjId :=
  hs.filterMap (table.resolve c)

theorem HandleTable.objects_cons {h : Handle} {id : ObjId} (hget : table.get c h = .ok (some id))
    (hs : List Handle) : table.objects c (h :: hs) = id :: table.objects c hs :=
  List.filterMap_cons_some (HandleTable.resolve_eq_some.mpr hget)

theorem HandleTable.mem_objects {hs : List Handle} {id : ObjId} :
    id ∈ table.objects c hs ↔ ∃ h ∈ hs, table.get c h = .ok (some id) := by
  rw [HandleTable.objects, List.mem_filterMap]
  simp only [HandleTable.resolve_eq_some]

/-- A wait on the object may fail: it is not one that can be waited for, or it may time out.  The thread may
have taken the object before; then it has secured it, if that is possible. -/
def MayTimeOut (tid : ThreadId) (timeout : BitVec 32) (before : Prop) (obj : KernelObject) : Prop :=
  obj.isWaitable = false ∨
    timeout ≠ INFINITE ∧ obj.isSecured tid = false ∧ (before → obj.isSecurable = false)

/-- A wait on a handle may fail after those on some others: the handle is invalid, or the wait on its
object may fail. -/
def MayFail (table : HandleTable ObjId) (c : Bool) (tid : ThreadId) (timeout : BitVec 32)
    (pre : List Handle) (h : Handle) (objects : Objects) : Prop :=
  table.get c h = .ok none ∨ ∃ id, table.get c h = .ok (some id) ∧
    MayTimeOut tid timeout (id ∈ table.objects c pre) (objects id)

/-- The thread can take all objects of the handles, each as often as it is named. -/
def Takeable (table : HandleTable ObjId) (c : Bool) (tid : ThreadId) (hs : List Handle)
    (objects : Objects) : Prop :=
  ∀ h ∈ hs, ∃ id, table.get c h = .ok (some id) ∧
    (objects id).CanTake c tid ((table.objects c hs).count id)

/-- How a wait on a handle ends. -/
inductive Ended (table : HandleTable ObjId) (c : Bool) (tid : ThreadId) (timeout : BitVec 32)
    (h : Handle) (objects : Objects) (r : Waited) : Prop
  | took {id : ObjId} {found : Objects} {obj : KernelObject} (hget : table.get c h = .ok (some id))
      (hf : Followed tid objects found) (hfits : Fits c tid (found id))
      (hacq : (found id).acquire tid = some obj) (hobj : r.objects = Function.update found id obj)
      (hcode : r.code = WAIT_OBJECT_0) (hids : Acquired tid r.sections [id])
  | failed (hf : Followed tid objects r.objects) (hcode : r.code ≠ WAIT_OBJECT_0)
      (hids : Acquired tid r.sections []) (hm : MayFail table c tid timeout [] h objects)
      (hget : ∃ o, table.get c h = .ok o ∧ ∀ id ∈ o, (objects id).isSecured tid = false)

/-- What the thread has not secured in the end, it had not secured before. -/
theorem Follows.isSecured_eq_false {obj obj' : KernelObject} (h : Follows tid obj obj')
    (hno : obj'.isSecured tid = false) : obj.isSecured tid = false := by
  rw [← Bool.not_eq_true] at hno ⊢
  exact fun hs => hno (h.isSecured hs)

theorem isSecured_of_acquire_none {obj : KernelObject} (h : obj.acquire tid = none) :
    obj.isSecured tid = false := by
  rw [← Bool.not_eq_true]
  intro hs
  obtain ⟨obj', hobj⟩ := acquire_of_isSecured hs
  rw [h] at hobj
  cases hobj

theorem waitForSingleObject_spec {h : Handle} {objects : Objects} {turns : List Turn} {r : Waited}
    (ha : OthersAct c tid turns)
    (hcall : waitForSingleObject table c tid timeout h objects turns = some r) :
    Linked objects turns r.sections r.objects r.turns ∧ Ended table c tid timeout h objects r := by
  unfold waitForSingleObject at hcall
  cases hg : table.get c h with
  | error x => simp [hg] at hcall
  | ok o =>
    cases o with
    | none =>
      simp only [hg, Option.some.injEq] at hcall
      subst hcall
      exact ⟨.done _ _, .failed (fun _ => .refl _) (by simp [WAIT_FAILED, WAIT_OBJECT_0]) .nil (.inl hg)
        ⟨none, hg, fun _ hid => absurd hid (Option.not_mem_none _)⟩⟩
    | some id =>
      simp only [hg] at hcall
      obtain ⟨hl, hends⟩ := waitSingle_spec ha hcall
      refine ⟨hl, ?_⟩
      cases hends with
      | took hf hfits hacq hobj hcode hids => exact .took hg hf hfits hacq hobj hcode hids
      | timedOut hf hacq hcode hids hend =>
        have hfree := (hf id).isSecured_eq_false (isSecured_of_acquire_none hacq)
        refine .failed hf (by rw [hcode]; decide) hids (.inr ⟨id, hg, ?_⟩) ⟨some id, hg, ?_⟩
        · rcases hend with hnot | hfin
          · exact .inl ((hf id).isWaitable ▸ hnot)
          · exact .inr ⟨hfin, hfree, fun hmem => absurd hmem List.not_mem_nil⟩
        · rintro id' hid'
          obtain rfl := Option.mem_some_iff.mp hid'
          exact hfree

/-! ### All objects -/

section

variable {h : Handle} {hs pre : List Handle} {id : ObjId} {objects found : Objects}
  {obj : KernelObject}

/-- The thread could take an object, and then all the others. -/
theorem Takeable.cons (hget : table.get c h = .ok (some id)) (hf : Followed tid objects found)
    (hfits : Fits c tid (found id)) (hacq : (found id).acquire tid = some obj)
    (ht : Takeable table c tid hs (Function.update found id obj)) (hlen : hs.length + 1 < 2 ^ 32) :
    Takeable table c tid (h :: hs) objects := by
  have hcount : (table.objects c hs).count id ≤ hs.length :=
    List.count_le_length.trans (List.length_filterMap_le _ _)
  have hobjects := HandleTable.objects_cons hget hs
  have htail : ∀ id', 0 < (table.objects c hs).count id' →
      (Function.update found id obj id').CanTake c tid ((table.objects c hs).count id') := by
    intro id' hpos
    obtain ⟨x, hx, hgetx⟩ := HandleTable.mem_objects.mp (List.count_pos_iff.mp hpos)
    obtain ⟨id'', hgetx', hcan⟩ := ht x hx
    rw [hgetx] at hgetx'
    obtain rfl := Option.some.inj (Except.ok.inj hgetx')
    exact hcan
  have hself : (objects id).CanTake c tid ((table.objects c hs).count id + 1) := by
    refine (hf id).canTake (Nat.succ_pos _) ((takes_of_acquire hacq).canTake hfits ?_ (by omega))
    rcases Nat.eq_zero_or_pos ((table.objects c hs).count id) with h0 | hpos
    · exact .inl h0
    · have hcan := htail id hpos
      rw [Function.update_self] at hcan
      exact .inr hcan
  intro x hx
  rw [hobjects]
  rcases List.mem_cons.mp hx with rfl | hx
  · exact ⟨id, hget, by rwa [List.count_cons_self]⟩
  · obtain ⟨id', hget', -⟩ := ht x hx
    refine ⟨id', hget', ?_⟩
    by_cases heq : id = id'
    · subst heq
      rwa [List.count_cons_self]
    · have hpos : 0 < (table.objects c hs).count id' :=
        List.count_pos_iff.mpr (HandleTable.mem_objects.mpr ⟨x, hx, hget'⟩)
      have hcan := htail id' hpos
      rw [Function.update_of_ne (Ne.symm heq)] at hcan
      rw [List.count_cons_of_ne heq]
      exact (hf id').canTake hpos hcan

/-- What may fail after the thread has taken an object may fail in any case. -/
theorem MayFail.cons {x : Handle} (hget : table.get c h = .ok (some id))
    (hf : Followed tid objects found) (hacq : (found id).acquire tid = some obj)
    (hm : MayFail table c tid timeout pre x (Function.update found id obj)) :
    MayFail table c tid timeout (h :: pre) x objects := by
  have htakes := takes_of_acquire hacq
  rcases hm with hnone | ⟨id', hget', hm⟩
  · exact .inl hnone
  · refine .inr ⟨id', hget', ?_⟩
    rw [HandleTable.objects_cons hget, List.mem_cons]
    by_cases heq : id' = id
    · subst heq
      rw [Function.update_self] at hm
      rcases hm with hnot | ⟨hfin, hfree, -⟩
      · left
        rw [← (hf id').isWaitable, ← htakes.isWaitable]
        exact hnot
      · -- the object has been taken, so it is none that can be secured
        have hnever : (objects id').isSecurable = false := by
          rw [← (hf id').isSecurable, ← Bool.not_eq_true]
          intro hs
          rw [htakes.isSecured hs] at hfree
          cases hfree
        refine .inr ⟨hfin, ?_, fun _ => hnever⟩
        rw [← Bool.not_eq_true] at hnever ⊢
        exact fun hs => hnever (isSecurable_of_isSecured hs)
    · rw [Function.update_of_ne heq] at hm
      rcases hm with hnot | ⟨hfin, hfree, hagain⟩
      · exact .inl ((hf id').isWaitable ▸ hnot)
      · refine .inr ⟨hfin, (hf id').isSecured_eq_false hfree, fun hmem => ?_⟩
        rw [← (hf id').isSecurable]
        exact hagain (hmem.resolve_left heq)

end

/-- How a wait for all objects ends: it has taken them all, or it has taken those before one that fails. -/
inductive AllEnds (table : HandleTable ObjId) (c : Bool) (tid : ThreadId) (timeout : BitVec 32)
    (hs : List Handle) (objects : Objects) (r : Waited) : Prop
  | took (hcode : r.code = WAIT_OBJECT_0) (ht : Takeable table c tid hs objects)
      (hids : Acquired tid r.sections (table.objects c hs))
  | failed {pre : List Handle} {h : Handle} {post : List Handle} (hcode : r.code ≠ WAIT_OBJECT_0)
      (hsplit : hs = pre ++ h :: post) (ht : Takeable table c tid pre objects)
      (hm : MayFail table c tid timeout pre h objects)
      (hids : Acquired tid r.sections (table.objects c pre))

theorem waitAll_spec {hs : List Handle} {objects : Objects} {turns : List Turn} {r : Waited}
    (hlen : hs.length < 2 ^ 32) (ha : OthersAct c tid turns)
    (hcall : waitAll table c tid timeout hs objects turns = some r) :
    Linked objects turns r.sections r.objects r.turns ∧ AllEnds table c tid timeout hs objects r := by
  induction hs generalizing objects turns r with
  | nil =>
    obtain rfl := Option.some.inj hcall
    exact ⟨.done _ _, .took rfl (fun _ hx => absurd hx List.not_mem_nil) .nil⟩
  | cons x hs ih =>
    rw [waitAll] at hcall
    obtain ⟨r₁, h₁, hcall⟩ := Option.bind_eq_some_iff.mp hcall
    obtain ⟨hl₁, hends⟩ := waitForSingleObject_spec ha h₁
    rw [List.length_cons] at hlen
    cases hends with
    | failed _ hcode hids hm =>
      rw [if_pos hcode] at hcall
      obtain rfl := Option.some.inj hcall
      exact ⟨hl₁, .failed hcode (List.nil_append _).symm (fun _ hy => absurd hy List.not_mem_nil) hm hids⟩
    | @took id found obj hget hf hfits hacq hobj hcode hids =>
      rw [if_neg (not_not.mpr hcode)] at hcall
      obtain ⟨r₂, h₂, hcall⟩ := Option.bind_eq_some_iff.mp hcall
      obtain rfl := Option.some.inj hcall
      obtain ⟨hl₂, hends₂⟩ := ih (by omega) (hl₁.othersAct ha) h₂
      refine ⟨hl₁.trans hl₂, ?_⟩
      rw [hobj] at hends₂
      cases hends₂ with
      | took hcode₂ ht hids₂ =>
        refine .took hcode₂ (ht.cons hget hf hfits hacq hlen) ?_
        rw [HandleTable.objects_cons hget]
        exact hids.append hids₂
      | @failed pre y post hcode₂ hsplit ht hm hids₂ =>
        have hpre : pre.length + 1 < 2 ^ 32 := by
          rw [hsplit, List.length_append] at hlen
          omega
        refine .failed hcode₂ (by rw [hsplit, List.cons_append]) (ht.cons hget hf hfits hacq hpre)
          (hm.cons hget hf hacq) ?_
        rw [HandleTable.objects_cons hget]
        exact hids.append hids₂

/-! ### Any object -/

/-- No object of the handles is secured, and none of them makes the lookup panic. -/
def NoneSecured (table : HandleTable ObjId) (c : Bool) (tid : ThreadId) (hs : List Handle)
    (objects : Objects) : Prop :=
  ∀ h ∈ hs, ∃ o, table.get c h = .ok o ∧ ∀ id ∈ o, (objects id).isSecured tid = false

/-- A call has taken the object of the index. -/
def TookIndex (table : HandleTable ObjId) (c : Bool) (tid : ThreadId) (hs : List Handle) (i : Nat)
    (r : Waited) : Prop :=
  ∃ j h id, r.code = BitVec.ofNat 32 (i + j) ∧ hs[j]? = some h ∧ table.get c h = .ok (some id) ∧
    Acquired tid r.sections [id]

/-- How a round ends: it has taken the object of an index, or it has found nothing. -/
inductive RoundEnds (table : HandleTable ObjId) (c : Bool) (tid : ThreadId) (hs : List Handle) (i : Nat)
    (objects : Objects) (turns : List Turn) :
    Waited ⊕ (Objects × List Turn × List LockedSection) → Prop
  | took {r : Waited} (hl : Linked objects turns r.sections r.objects r.turns)
      (ht : TookIndex table c tid hs i r) : RoundEnds table c tid hs i objects turns (.inl r)
  | nothing {objects' : Objects} {turns' : List Turn} {sections : List LockedSection}
      (hl : Linked objects turns sections objects' turns') (hids : Acquired tid sections [])
      (hno : NoneSecured table c tid hs objects) :
      RoundEnds table c tid hs i objects turns (.inr (objects', turns', sections))

theorem pollOnce_spec {hs : List Handle} {i : Nat} {objects : Objects} {turns : List Turn}
    {q : Waited ⊕ (Objects × List Turn × List LockedSection)} (ha : OthersAct c tid turns)
    (hcall : pollOnce table c tid hs i objects turns = some q) :
    RoundEnds table c tid hs i objects turns q := by
  induction hs generalizing i objects turns q with
  | nil =>
    obtain rfl := Option.some.inj hcall
    exact .nothing (.done _ _) .nil fun _ hx => absurd hx List.not_mem_nil
  | cons x hs ih =>
    rw [pollOnce] at hcall
    obtain ⟨r₁, h₁, hcall⟩ := Option.bind_eq_some_iff.mp hcall
    obtain ⟨hl₁, hends⟩ := waitForSingleObject_spec ha h₁
    cases hends with
    | @took id found obj hget hf hfits hacq hobj hcode hids =>
      rw [if_pos hcode] at hcall
      obtain rfl := Option.some.inj hcall
      exact .took hl₁ ⟨0, x, id, by simp [WAIT_OBJECT_0], rfl, hget, hids⟩
    | failed hf hcode hids hm hget =>
      rw [if_neg hcode] at hcall
      obtain ⟨q₂, h₂, hcall⟩ := Option.bind_eq_some_iff.mp hcall
      have hround := ih (hl₁.othersAct ha) h₂
      cases hround with
      | took hl₂ ht =>
        obtain rfl := Option.some.inj hcall
        obtain ⟨j, y, id, hj, hy, hgety, hidsy⟩ := ht
        refine .took (hl₁.trans hl₂) ⟨j + 1, y, id, ?_, hy, hgety, hids.append hidsy⟩
        rw [Waited.after, hj, Nat.add_assoc, Nat.add_comm 1 j]
      | nothing hl₂ hids₂ hno =>
        obtain rfl := Option.some.inj hcall
        refine .nothing (hl₁.trans hl₂) (hids.append hids₂) fun y hy => ?_
        rcases List.mem_cons.mp hy with rfl | hy
        · exact hget
        · obtain ⟨o, ho, hfree⟩ := hno y hy
          exact ⟨o, ho, fun id hid => (hf id).isSecured_eq_false (hfree id hid)⟩

/-- How a wait for any object ends: it has taken the object of the index it returns, or it has taken
nothing and times out. -/
inductive AnyEnds (table : HandleTable ObjId) (c : Bool) (tid : ThreadId) (timeout : BitVec 32)
    (hs : List Handle) (objects : Objects) (r : Waited) : Prop
  | took (ht : TookIndex table c tid hs 0 r)
  | timedOut (hcode : r.code = WAIT_TIMEOUT) (hfin : timeout ≠ INFINITE)
      (hno : NoneSecured table c tid hs objects)

theorem waitAny_spec {hs : List Handle} {rounds : Nat} {objects : Objects} {turns : List Turn}
    {r : Waited} (ha : OthersAct c tid turns)
    (hcall : waitAny table c tid timeout hs rounds objects turns = some r) :
    Linked objects turns r.sections r.objects r.turns ∧ AnyEnds table c tid timeout hs objects r := by
  induction rounds generalizing objects turns r with
  | zero => cases hcall
  | succ rounds ih =>
    rw [waitAny] at hcall
    obtain ⟨q, hq, hcall⟩ := Option.bind_eq_some_iff.mp hcall
    have hround := pollOnce_spec ha hq
    cases hround with
    | took hl ht =>
      obtain rfl := Option.some.inj hcall
      exact ⟨hl, .took ht⟩
    | @nothing objects' turns' sections hl hids hno =>
      cases turns' with
      | nil => cases hcall
      | cons t turns' =>
        cases t with
        | timedOut =>
          obtain ⟨hfin, hcall⟩ := Option.ite_none_left_eq_some.mp hcall
          obtain rfl := Option.some.inj hcall
          have hend := hl.trans (.timedOut (.done objects' turns'))
          rw [List.append_nil] at hend
          exact ⟨hend, .timedOut rfl hfin hno⟩
        | run others =>
          obtain ⟨r', hr', rfl⟩ := Option.map_eq_some_iff.mp hcall
          obtain ⟨hl', hends⟩ := ih (hl.othersAct ha).tail hr'
          refine ⟨hl.trans (.run others hl'), ?_⟩
          cases hends with
          | took ht =>
            obtain ⟨j, h, id, hj, hh, hget, hids'⟩ := ht
            exact .took ⟨j, h, id, hj, hh, hget, hids.append hids'⟩
          | timedOut hcode hfin _ => exact .timedOut hcode hfin hno

/-! ### Schedules -/

/-- A wait takes an object that has been made ready. -/
theorem waitForSingleObject_makeReady {h : Handle} {id : ObjId} {objects : Objects} {n : Nat}
    (timeout : BitVec 32) (hget : table.get c h = .ok (some id))
    (hcan : (objects id).CanTake c tid (n + 1)) :
    ∃ obj sections, obj.CanTake c tid n ∧ Takes tid ((objects id).readied tid) obj ∧
      Acquired tid sections [id] ∧ ∀ turns,
        waitForSingleObject table c tid timeout h objects (makeReady tid id :: turns) =
          some ⟨WAIT_OBJECT_0, Function.update objects id obj, turns, sections⟩ := by
  obtain ⟨hfits, obj, hacq, hcan'⟩ := CanTake.readied hcan
  have hno : (c && ((objects id).readied tid).acquireOverflows tid) = false := by
    cases c with
    | false => rfl
    | true => exact hfits rfl
  let ready : Objects := Function.update objects id ((objects id).readied tid)
  have hself : ready id = (objects id).readied tid := Function.update_self ..
  have hready : (ready id).acquire tid = some obj := by
    rw [hself, hacq]
  have hupdate : Function.update ready id obj = Function.update objects id obj := Function.update_idem ..
  refine ⟨obj, [⟨id, ready, Function.update objects id obj⟩], hcan', takes_of_acquire hacq,
    .acquires hready hupdate.symm .nil, fun turns => ?_⟩
  rw [waitForSingleObject, hget]
  dsimp only
  rw [makeReady, waitSingle_run,
    show Function.update objects id ((objects id).readied tid) = ready from rfl, hready, hself, hno]
  simp only [Bool.false_eq_true, if_false, hupdate]

/-- The others can let a wait take all the objects that the thread can take. -/
theorem waitAll_makeReady {pre : List Handle} {objects : Objects} (timeout : BitVec 32)
    (ht : Takeable table c tid pre objects) :
    ∃ turns sections objects', OthersAct c tid turns ∧
      Acquired tid sections (table.objects c pre) ∧
      (∀ id, (objects' id).isWaitable = (objects id).isWaitable ∧
        (objects' id).isSecurable = (objects id).isSecurable ∧
        (id ∉ table.objects c pre → objects' id = objects id)) ∧
      ∀ rest more, waitAll table c tid timeout (pre ++ rest) objects (turns ++ more) =
        (waitAll table c tid timeout rest objects' more).map (Waited.after sections) := by
  induction pre generalizing objects with
  | nil =>
    refine ⟨[], [], objects, .nil, .nil, fun id => ⟨rfl, rfl, fun _ => rfl⟩, fun rest more => ?_⟩
    rw [List.nil_append, List.nil_append]
    cases waitAll table c tid timeout rest objects more with
    | none => rfl
    | some r => rfl
  | cons x pre ih =>
    obtain ⟨id, hget, hcan⟩ := ht x List.mem_cons_self
    rw [HandleTable.objects_cons hget, List.count_cons_self] at hcan
    obtain ⟨obj, sections₁, hcan', htakes, hids₁, hrun₁⟩ := waitForSingleObject_makeReady timeout hget hcan
    have hf := (OtherActs.readied c tid (objects id)).follows
    have ht' : Takeable table c tid pre (Function.update objects id obj) := by
      intro y hy
      obtain ⟨id', hget', hcany⟩ := ht y (List.mem_cons_of_mem _ hy)
      refine ⟨id', hget', ?_⟩
      by_cases heq : id = id'
      · subst heq
        rwa [Function.update_self]
      · rw [HandleTable.objects_cons hget, List.count_cons_of_ne heq] at hcany
        rwa [Function.update_of_ne (Ne.symm heq)]
    obtain ⟨turns, sections, objects', hturns, hids, hsame, hrun⟩ := ih ht'
    refine ⟨makeReady tid id :: turns, sections₁ ++ sections, objects', hturns.makeReady id, ?_,
      fun id' => ?_, fun rest more => ?_⟩
    · rw [HandleTable.objects_cons hget]
      exact hids₁.append hids
    · obtain ⟨hwait, hsec, hkeep⟩ := hsame id'
      rw [HandleTable.objects_cons hget, List.mem_cons, not_or]
      by_cases heq : id' = id
      · subst heq
        rw [Function.update_self] at hwait hsec
        rw [hwait, hsec, htakes.isWaitable, htakes.isSecurable]
        exact ⟨hf.isWaitable, hf.isSecurable, fun hno => absurd rfl hno.1⟩
      · rw [Function.update_of_ne heq] at hwait hsec hkeep
        exact ⟨hwait, hsec, fun hno => hkeep hno.2⟩
    · rw [List.cons_append, List.cons_append, waitAll, hrun₁]
      simp only [Option.bind_eq_bind, Option.bind_some, ne_eq, not_true_eq_false, if_false, hrun]
      cases waitAll table c tid timeout rest objects' more with
      | none => rfl
      | some r => simp [Waited.after]

/-- The others can let a wait fail that may fail. -/
theorem waitForSingleObject_makeBlocked {h : Handle} {objects : Objects}
    (hm : MayFail table c tid timeout [] h objects) :
    ∃ turns r, OthersAct c tid turns ∧
      waitForSingleObject table c tid timeout h objects turns = some r ∧
      r.code ≠ WAIT_OBJECT_0 ∧ Acquired tid r.sections [] := by
  rcases hm with hnone | ⟨id, hget, hm⟩
  · refine ⟨[], ⟨WAIT_FAILED, objects, [], []⟩, .nil, ?_, by simp [WAIT_FAILED, WAIT_OBJECT_0], .nil⟩
    rw [waitForSingleObject, hnone]
  · have hfree : (objects id).isSecured tid = false := by
      rcases hm with hnot | ⟨-, hfree, -⟩
      · rw [← Bool.not_eq_true]
        intro hs
        obtain ⟨obj, hobj⟩ := acquire_of_isSecured hs
        rw [isWaitable_of_acquire hobj] at hnot
        cases hnot
      · exact hfree
    obtain ⟨hacq, hover⟩ := acquire_blocked hfree
    let blocked : Objects := Function.update objects id ((objects id).blocked tid)
    have hself : blocked id = (objects id).blocked tid := Function.update_self ..
    have hwait : (blocked id).isWaitable = (objects id).isWaitable := by
      rw [hself]
      exact (OtherActs.blocked c tid (objects id)).follows.isWaitable
    have hnone : (blocked id).acquire tid = none := by
      rw [hself, hacq]
    have hids : Acquired tid [⟨id, blocked, blocked⟩] [] := .leaves hnone rfl .nil
    have hcode : WAIT_TIMEOUT ≠ WAIT_OBJECT_0 := by decide
    have hcall : waitForSingleObject table c tid timeout h objects [makeBlocked tid id, .timedOut] =
        waitSingle c tid timeout id objects [makeBlocked tid id, .timedOut] := by
      rw [waitForSingleObject, hget]
    have hturns : OthersAct c tid [makeBlocked tid id, .timedOut] := OthersAct.nil.timedOut.makeBlocked id
    rw [makeBlocked] at hcall hturns
    rw [waitSingle_run, show Function.update objects id ((objects id).blocked tid) = blocked from rfl, hnone,
      hself, hover, Bool.and_false, ← hself, hwait] at hcall
    simp only [Bool.false_eq_true, if_false] at hcall
    split at hcall
    · exact ⟨_, _, hturns, hcall, hcode, hids⟩
    · rename_i hgo
      have hfin : timeout ≠ INFINITE := by
        rcases hm with hnot | hfin
        · rw [hnot] at hgo
          exact absurd rfl hgo
        · exact hfin.1
      rw [if_neg hfin] at hcall
      exact ⟨_, _, hturns, hcall, hcode, hids⟩

/-- The others can let a round find nothing that the thread has not secured. -/
theorem pollOnce_makeBlocked {hs : List Handle} {objects : Objects} (i : Nat)
    (hno : NoneSecured table c tid hs objects) :
    ∃ turns sections objects', OthersAct c tid turns ∧ Acquired tid sections [] ∧
      ∀ more, pollOnce table c tid hs i objects (turns ++ more) = some (.inr (objects', more, sections)) := by
  induction hs generalizing i objects with
  | nil => exact ⟨[], [], objects, .nil, .nil, fun _ => rfl⟩
  | cons x hs ih =>
    obtain ⟨o, hget, hfree⟩ := hno x List.mem_cons_self
    have htail : NoneSecured table c tid hs objects := fun y hy => hno y (List.mem_cons_of_mem _ hy)
    cases o with
    | none =>
      obtain ⟨turns, sections, objects', hturns, hids, hrun⟩ := ih (i + 1) htail
      refine ⟨turns, sections, objects', hturns, hids, fun more => ?_⟩
      rw [pollOnce, waitForSingleObject, hget]
      simp only [Option.bind_eq_bind, Option.bind_some]
      rw [if_neg (by simp [WAIT_FAILED, WAIT_OBJECT_0]), hrun]
      rfl
    | some id =>
      obtain ⟨hacq, hover⟩ := acquire_blocked (hfree id rfl)
      let blocked : Objects := Function.update objects id ((objects id).blocked tid)
      have hself : blocked id = (objects id).blocked tid := Function.update_self ..
      have hnone : (blocked id).acquire tid = none := by
        rw [hself, hacq]
      have htail' : NoneSecured table c tid hs blocked := by
        intro y hy
        obtain ⟨o, ho, hfreey⟩ := htail y hy
        refine ⟨o, ho, fun id' hid' => ?_⟩
        by_cases heq : id' = id
        · subst heq
          exact isSecured_of_acquire_none hnone
        · exact (congrArg (KernelObject.isSecured tid) (Function.update_of_ne heq ..)).trans (hfreey id' hid')
      obtain ⟨turns, sections, objects', hturns, hids, hrun⟩ := ih (i + 1) htail'
      refine ⟨makeBlocked tid id :: turns, ⟨id, blocked, blocked⟩ :: sections, objects',
        hturns.makeBlocked id, .leaves hnone rfl hids, fun more => ?_⟩
      rw [List.cons_append, pollOnce, waitForSingleObject, hget]
      dsimp only
      rw [makeBlocked, waitSingle_run,
        show Function.update objects id ((objects id).blocked tid) = blocked from rfl, hnone, hself, hover,
        Bool.and_false, ← hself]
      simp only [Bool.false_eq_true, if_false, beq_self_eq_true, Bool.or_true, if_true, Option.bind_eq_bind,
        Option.bind_some]
      rw [if_neg (by decide), hrun]
      rfl

/-! ### Atomicity -/

/-- What a call that has returned has done.  Its sections, and the turns of the others, lead from the
objects at the beginning to those at the end.  In a wait for all objects that fails each section leaves all
objects as they are, one that succeeds acquires each object exactly once and leaves the others, and a wait
for any object that succeeds acquires exactly the object of the index that it returns and leaves the
others. -/
structure Consumes (table : HandleTable ObjId) (c : Bool) (tid : ThreadId) (handles : List Handle)
    (waitForAll : BitVec 32) (objects : Objects) (turns : List Turn) (r : Waited) : Prop where
  linked : Linked objects turns r.sections r.objects r.turns
  failed_all : waitForAll ≠ 0 → r.code ≠ WAIT_OBJECT_0 → ∀ s ∈ r.sections, s.after = s.before
  all : waitForAll ≠ 0 → r.code = WAIT_OBJECT_0 → ∃ ids, Acquired tid r.sections ids ∧ ids.Nodup ∧
    ∀ id, id ∈ ids ↔ ∃ h ∈ handles, table.get c h = .ok (some id)
  any : waitForAll = 0 → r.code.toNat < handles.length → ∃ h id, handles[r.code.toNat]? = some h ∧
    table.get c h = .ok (some id) ∧ Acquired tid r.sections [id]

/-- When a call is atomic.  In a wait for all objects no object that is consumed comes before one that
may fail, and no object is named twice if all can be taken.  In a wait for any object an index cannot be
taken for a timeout: there are at most 0x102 handles, or the wait is infinite, or one of the handles makes
the lookup panic or is that of an object that the thread has secured. -/
def Atomic (table : HandleTable ObjId) (c : Bool) (tid : ThreadId) (handles : List Handle)
    (waitForAll timeout : BitVec 32) (objects : Objects) : Prop :=
  if waitForAll ≠ 0 then
    (∀ pre h post, handles = pre ++ h :: post → Takeable table c tid pre objects →
      MayFail table c tid timeout pre h objects →
        ∀ id ∈ table.objects c pre, (objects id).isConsumed = false) ∧
    (Takeable table c tid handles objects → (table.objects c handles).Nodup)
  else
    handles.length ≤ 0x102 ∨ timeout = INFINITE ∨ ¬ NoneSecured table c tid handles objects

section

variable {handles : List Handle} {waitForAll : BitVec 32} {objects : Objects}

theorem consumes_all (hall : waitForAll ≠ 0) (hlen : handles.length < 2 ^ 32) {turns : List Turn}
    {r : Waited} (h : Atomic table c tid handles waitForAll timeout objects) (ha : OthersAct c tid turns)
    (hcall : waitAll table c tid timeout handles objects turns = some r) :
    Consumes table c tid handles waitForAll objects turns r := by
  rw [Atomic, if_pos hall] at h
  obtain ⟨hl, hends⟩ := waitAll_spec hlen ha hcall
  refine ⟨hl, fun _ hcode => ?_, fun _ hcode => ?_, fun hany => absurd hany hall⟩
  · cases hends with
    | took hc => exact absurd hc hcode
    | @failed pre x post _ hsplit ht hm hids =>
      exact (hids.leaves_iff hl ha).mpr (h.1 pre x post hsplit ht hm)
  · cases hends with
    | took _ ht hids => exact ⟨_, hids, h.2 ht, fun id => HandleTable.mem_objects⟩
    | failed hc => exact absurd hcode hc

theorem consumes_any (hlen : handles.length < 2 ^ 32) {rounds : Nat} {turns : List Turn} {r : Waited}
    (h : Atomic table c tid handles 0 timeout objects) (ha : OthersAct c tid turns)
    (hcall : waitAny table c tid timeout handles rounds objects turns = some r) :
    Consumes table c tid handles 0 objects turns r := by
  rw [Atomic, if_neg (not_not.mpr rfl)] at h
  obtain ⟨hl, hends⟩ := waitAny_spec ha hcall
  refine ⟨hl, fun hall => absurd rfl hall, fun hall => absurd rfl hall, fun _ hcode => ?_⟩
  cases hends with
  | took ht =>
    obtain ⟨j, x, id, hj, hx, hget, hids⟩ := ht
    have hlt := (List.getElem?_eq_some_iff.mp hx).1
    have hto : r.code.toNat = j := by
      rw [hj, BitVec.toNat_ofNat]
      omega
    rw [hto]
    exact ⟨x, id, hx, hget, hids⟩
  | timedOut htimeout hfin hno =>
    exfalso
    rcases h with hshort | hinf | hsecured
    · rw [htimeout, show WAIT_TIMEOUT.toNat = 0x102 from rfl] at hcode
      omega
    · exact hfin hinf
    · exact hsecured hno

/-- If some schedule of a wait for all objects must not lose anything, the call is atomic. -/
theorem atomic_all (hall : waitForAll ≠ 0)
    (h : ∀ turns r, OthersAct c tid turns →
      waitAll table c tid timeout handles objects turns = some r →
        Consumes table c tid handles waitForAll objects turns r) :
    Atomic table c tid handles waitForAll timeout objects := by
  rw [Atomic, if_pos hall]
  constructor
  · -- all objects before `x` are ready, and then the one of `x` is taken away
    intro pre x post hsplit ht hm
    obtain ⟨turns, sections, objects', hturns, hids, hsame, hrun⟩ := waitAll_makeReady timeout ht
    have hm' : MayFail table c tid timeout [] x objects' := by
      rcases hm with hnone | ⟨id, hget, hm⟩
      · exact .inl hnone
      · obtain ⟨hwait, hsec, hkeep⟩ := hsame id
        refine .inr ⟨id, hget, ?_⟩
        rcases hm with hnot | ⟨hfin, hfree, hagain⟩
        · exact .inl (hwait.trans hnot)
        · refine .inr ⟨hfin, ?_, fun hmem => absurd hmem List.not_mem_nil⟩
          by_cases hmem : id ∈ table.objects c pre
          · have hnever := hagain hmem
            rw [← hsec, ← Bool.not_eq_true] at hnever
            rw [← Bool.not_eq_true]
            exact fun hs => hnever (isSecurable_of_isSecured hs)
          · rw [hkeep hmem]
            exact hfree
    obtain ⟨turns₁, r₁, hturns₁, h₁, hcode, hids₁⟩ := waitForSingleObject_makeBlocked hm'
    have hcall : waitAll table c tid timeout handles objects (turns ++ turns₁) =
        some (r₁.after sections) := by
      rw [hsplit, hrun, waitAll, h₁]
      simp only [Option.bind_eq_bind, Option.bind_some, if_pos hcode, Option.map_some]
    have ha := hturns.append hturns₁
    have hc := h _ _ ha hcall
    have hacq := hids.append hids₁
    rw [List.append_nil] at hacq
    exact (hacq.leaves_iff hc.linked ha).mp (hc.failed_all hall hcode)
  · intro ht
    obtain ⟨turns, sections, objects', hturns, hids, -, hrun⟩ := waitAll_makeReady timeout ht
    have hcall := hrun [] []
    rw [List.append_nil, List.append_nil] at hcall
    obtain ⟨ids, hids', hnodup, -⟩ := (h _ _ hturns hcall).all hall rfl
    have hids'' : Acquired tid (sections ++ []) ids := hids'
    rw [List.append_nil] at hids''
    rwa [hids.unique hids'']

theorem atomic_any
    (h : ∀ rounds turns r, OthersAct c tid turns →
      waitAny table c tid timeout handles rounds objects turns = some r →
        Consumes table c tid handles 0 objects turns r) :
    Atomic table c tid handles 0 timeout objects := by
  rw [Atomic, if_neg (not_not.mpr rfl)]
  by_contra hno
  rw [not_or, not_or, not_not] at hno
  obtain ⟨hlong, hfin, hno⟩ := hno
  -- nothing is there in the first round, and then the time is up
  obtain ⟨turns, sections, objects', hturns, hids, hpoll⟩ := pollOnce_makeBlocked 0 hno
  have hcall : waitAny table c tid timeout handles 1 objects (turns ++ [.timedOut]) =
      some ⟨WAIT_TIMEOUT, objects', [], sections⟩ := by
    rw [waitAny, hpoll]
    simp only [Option.bind_eq_bind, Option.bind_some, if_neg hfin]
  have hc := h 1 _ _ (hturns.append OthersAct.nil.timedOut) hcall
  obtain ⟨x, id, -, -, hids'⟩ := hc.any rfl (by
    show WAIT_TIMEOUT.toNat < _
    rw [show WAIT_TIMEOUT.toNat = 0x102 from rfl]
    omega)
  cases hids.unique hids'

end

/-- **Atomicity of `WaitForMultipleObjects`.**  Whatever other threads do, a wait for all objects that
fails leaves all of them as they are and one that succeeds acquires each exactly once, and a wait for any
object that succeeds acquires exactly the object of its index, exactly when the call is atomic. -/
theorem waitForMultipleObjects_atomic_iff (table : HandleTable ObjId) (c : Bool) (tid : ThreadId)
    (handles : Option (List Handle)) (hlen : (handles.getD []).length < 2 ^ 32)
    (waitForAll timeout : BitVec 32) (objects : Objects) :
    (∀ rounds turns r, OthersAct c tid turns →
      waitForMultipleObjects table c tid handles waitForAll timeout rounds objects turns = some r →
        Consumes table c tid (handles.getD []) waitForAll objects turns r) ↔
      Atomic table c tid (handles.getD []) waitForAll timeout objects := by
  by_cases hempty : handles.getD [] = []
  · -- the call fails at once
    rw [hempty]
    have hcall : ∀ rounds turns, waitForMultipleObjects table c tid handles waitForAll timeout rounds
        objects turns = some ⟨WAIT_FAILED, objects, turns, []⟩ := by
      intro rounds turns
      cases handles with
      | none => rfl
      | some hs =>
        rw [Option.getD_some] at hempty
        rw [hempty]
        rfl
    refine ⟨fun _ => ?_, fun _ rounds turns r _ h => ?_⟩
    · rw [Atomic]
      split
      · exact ⟨fun pre h post hsplit => by simp at hsplit, fun _ => List.nodup_nil⟩
      · exact .inl (Nat.zero_le _)
    · rw [hcall] at h
      obtain rfl := Option.some.inj h
      refine ⟨.done _ _, fun _ _ s hs => absurd hs List.not_mem_nil, fun _ hcode => ?_,
        fun _ hcode => absurd hcode (Nat.not_lt_zero _)⟩
      simp [WAIT_FAILED, WAIT_OBJECT_0] at hcode
  · cases handles with
    | none => exact absurd rfl hempty
    | some hs =>
      rw [Option.getD_some] at hempty hlen ⊢
      obtain ⟨x, xs, rfl⟩ := List.exists_cons_of_ne_nil hempty
      by_cases hall : waitForAll = 0
      · subst hall
        refine ⟨fun h => ?_, fun h rounds turns r ha hcall => consumes_any hlen h ha hcall⟩
        exact atomic_any fun rounds turns r ha hcall => h rounds turns r ha hcall
      · have hcall : ∀ rounds turns, waitForMultipleObjects table c tid (some (x :: xs)) waitForAll
            timeout rounds objects turns = waitAll table c tid timeout (x :: xs) objects turns := by
          intro rounds turns
          rw [waitForMultipleObjects, if_pos hall]
          simp
        simp only [hcall]
        refine ⟨fun h => ?_, fun h rounds turns r ha hr => consumes_all hall hlen h ha hr⟩
        exact atomic_all hall (h 0)

/-- An auto-reset event that is signalled and one that is not. -/
def twoEvents : Kernel :=
  ((Kernel.new.createEvent 0 1).1.createEvent 0 0).1

/-- A wait for any of two events. -/
theorem waitForMultipleObjects_atomic_iff_two_events :
    [pack 0 1, pack 1 1].length < 2 ^ 32 ∧
    ∀ rounds turns r, OthersAct true 7 turns →
      waitForMultipleObjects twoEvents.table true 7 (some [pack 0 1, pack 1 1]) 0 0 rounds
        twoEvents.objects turns = some r →
      Consumes twoEvents.table true 7 [pack 0 1, pack 1 1] 0 twoEvents.objects turns r := by
  have hlen : [pack 0 1, pack 1 1].length < 2 ^ 32 := by decide
  have hatomic : Atomic twoEvents.table true 7 [pack 0 1, pack 1 1] 0 0 twoEvents.objects := by
    rw [Atomic, if_neg (not_not.mpr rfl)]
    exact .inl (by decide)
  exact ⟨hlen, (waitForMultipleObjects_atomic_iff twoEvents.table true 7 (some [pack 0 1, pack 1 1])
    hlen 0 0 twoEvents.objects).mpr hatomic⟩

/-- A wait for both events that times out at once, without any other thread: the first event is no
longer signalled. -/
theorem wait_all_loses_event :
    ¬ ∀ (table : HandleTable ObjId) (c : Bool) (tid : ThreadId) (handles : List Handle)
        (timeout : BitVec 32) (objects : Objects) (n : Nat) (r : Waited),
      waitForMultipleObjects table c tid (some handles) 1 timeout 0 objects
        (List.replicate n (.run id)) = some r →
      r.code ≠ WAIT_OBJECT_0 → r.objects = objects := by
  intro h
  let taken : Objects := Function.update twoEvents.objects 0 (.event false false)
  have hobj := h twoEvents.table true 7 [pack 0 1, pack 1 1] 0 twoEvents.objects 2
    ⟨WAIT_TIMEOUT, taken, [], [⟨0, twoEvents.objects, taken⟩, ⟨1, taken, taken⟩]⟩ rfl
    (by simp [WAIT_TIMEOUT, WAIT_OBJECT_0])
  have hfirst : KernelObject.event false false = .event false true := congrFun hobj 0
  cases hfirst

end Quantum.Kernel32
