import Quantum.Kernel32.CriticalSection
import Quantum.Lib.Machine

/-!
# Mutual exclusion and re-entry

`Inv` says what every interleaving keeps: at most one thread is in, the count is the number of times
it is in, and the owner word, if it is not zero, names a thread that is in or one that is about to
clear it.  The last part is what makes the re-entry check safe: a thread that is about to clear the
word makes no check of its own in the meantime.

Mutual exclusion (`mutual_exclusion`) is read off it.  Re-entry is a different matter: the last part of
a `LeaveCriticalSection` may clear the word after the next thread has stored its own id there, and then
that thread no longer finds itself (`reentrant_iff`).
-/

namespace Quantum.Kernel32.CriticalSection

open Machine

/-! ### What a step can do -/

/-- One step of the thread `tid`: the section, the place in the code and the depth before and after. -/
inductive Local (tid : ThreadId) :
    GuestCriticalSection → Pc → ℕ → GuestCriticalSection → Pc → ℕ → Prop where
  | enters {cs d} (e : Entry) (htid : tid ≠ 0) : Local tid cs .outside d cs (.loadOwner e) d
  | leaves {cs d} (htid : tid ≠ 0) (hd : 0 < d) : Local tid cs .outside d cs .fetchSub d
  | found {cs d e} (h : cs.ownerThreadId = tid) : Local tid cs (.loadOwner e) d cs (.fetchAdd e) d
  | missed {cs d e} (h : cs.ownerThreadId ≠ tid) :
    Local tid cs (.loadOwner e) d cs (.compareExchange e) d
  | reentered {cs d e} (h : cs.lockCount.toNat + 1 < 2 ^ 32) :
    Local tid cs (.fetchAdd e) d { cs with lockCount := cs.lockCount + 1 } .outside (d + 1)
  | took {cs d e} (h : cs.lockCount = 0) :
    Local tid cs (.compareExchange e) d { cs with lockCount := 1 } (.storeOwner e) (d + 1)
  | spun {cs d} (h : cs.lockCount ≠ 0) :
    Local tid cs (.compareExchange .enter) d cs (.loadOwner .enter) d
  | refused {cs d} (h : cs.lockCount ≠ 0) :
    Local tid cs (.compareExchange .tryEnter) d cs .outside d
  | stored {cs d e} : Local tid cs (.storeOwner e) d { cs with ownerThreadId := tid } .outside d
  | left {cs d} (h : ¬ cs.lockCount ≤ 1) :
    Local tid cs .fetchSub d { cs with lockCount := cs.lockCount - 1 } .outside (d - 1)
  | released {cs d} (h : cs.lockCount ≤ 1) :
    Local tid cs .fetchSub d { cs with lockCount := cs.lockCount - 1 } .clearOwner (d - 1)
  | cleared {cs d} : Local tid cs .clearOwner d { cs with ownerThreadId := 0 } .outside d

/-- Only two operations write the owner. -/
theorem Local.owner_eq {tid : ThreadId} {cs cs' : GuestCriticalSection} {p p' : Pc} {d d' : ℕ}
    (h : Local tid cs p d cs' p' d') (hstore : ∀ e, p ≠ .storeOwner e) (hclear : p ≠ .clearOwner) :
    cs'.ownerThreadId = cs.ownerThreadId := by
  cases h with
  | stored => exact absurd rfl (hstore _)
  | cleared => exact absurd rfl hclear
  | _ => rfl

/-- The thread that takes the step. -/
def Event.tid : Event → ThreadId
  | .call tid _ | .atomic tid => tid

namespace Threads

variable {s s' : Threads} {tid t u : ThreadId} {e : Event}

/-- A step is a step of one thread, and all others stay where they are. -/
theorem local_of_step (hl : s.Legal e) (h : s.step e = some s') :
    ∃ pc d, Local e.tid s.cs (s.pc e.tid) (s.depth e.tid) s'.cs pc d ∧
      s'.pc = Function.update s.pc e.tid pc ∧ s'.depth = Function.update s.depth e.tid d := by
  cases e with
  | call tid c =>
    obtain ⟨htid, hd⟩ := hl
    simp only [step] at h
    split at h
    · obtain rfl := Option.some.inj h
      refine ⟨c.first, s.depth tid, ?_, rfl, (Function.update_eq_self tid s.depth).symm⟩
      simp only [Event.tid, goto, *]
      cases c with
      | entry e => exact .enters e htid
      | leave => exact .leaves htid (hd rfl)
    · cases h
  | atomic tid =>
    simp only [Legal] at hl
    simp only [step, atomic] at h
    simp only [Event.tid]
    cases hpc : s.pc tid with
    | outside => simp only [hpc, reduceCtorEq] at h
    | loadOwner e =>
      simp only [hpc] at h
      split at h <;> obtain rfl := Option.some.inj h
      · exact ⟨_, _, .found ‹_›, rfl, (Function.update_eq_self tid s.depth).symm⟩
      · exact ⟨_, _, .missed ‹_›, rfl, (Function.update_eq_self tid s.depth).symm⟩
    | fetchAdd e =>
      simp only [hpc] at h
      obtain rfl := Option.some.inj h
      exact ⟨_, _, .reentered (hl e hpc), rfl, rfl⟩
    | compareExchange e =>
      simp only [hpc] at h
      split at h
      · obtain rfl := Option.some.inj h
        exact ⟨_, _, .took ‹_›, rfl, rfl⟩
      · cases e with
        | enter =>
          obtain rfl := Option.some.inj h
          exact ⟨_, _, .spun ‹_›, rfl, (Function.update_eq_self tid s.depth).symm⟩
        | tryEnter =>
          obtain rfl := Option.some.inj h
          exact ⟨_, _, .refused ‹_›, rfl, (Function.update_eq_self tid s.depth).symm⟩
    | storeOwner e =>
      simp only [hpc] at h
      obtain rfl := Option.some.inj h
      exact ⟨_, _, .stored, rfl, (Function.update_eq_self tid s.depth).symm⟩
    | fetchSub =>
      simp only [hpc] at h
      split at h <;> obtain rfl := Option.some.inj h
      · exact ⟨_, _, .released ‹_›, rfl, rfl⟩
      · exact ⟨_, _, .left ‹_›, rfl, rfl⟩
    | clearOwner =>
      simp only [hpc] at h
      obtain rfl := Option.some.inj h
      exact ⟨_, _, .cleared, rfl, (Function.update_eq_self tid s.depth).symm⟩

end Threads

/-! ### The invariant -/

/-- How often a thread is in, by where it is in the code. -/
def Pc.Depth : Pc → ℕ → Prop
  | .fetchAdd _, d | .fetchSub, d => 0 < d
  | .storeOwner _, d => d = 1
  | .clearOwner, d => d = 0
  | _, _ => True

/-- What every interleaving keeps of the section, the threads' places and their depths. -/
structure Inv (cs : GuestCriticalSection) (pcs : ThreadId → Pc) (depth : ThreadId → ℕ) : Prop where
  tid_ne_zero : ∀ t, pcs t ≠ .outside ∨ 0 < depth t → t ≠ 0
  pc_depth : ∀ t, (pcs t).Depth (depth t)
  /-- At most one thread is in, -/
  exclusive : ∀ t u, 0 < depth t → 0 < depth u → t = u
  /-- and the count says how often. -/
  count : ∀ t, 0 < depth t → cs.lockCount.toNat = depth t
  in_of_count : cs.lockCount ≠ 0 → ∃ t, 0 < depth t
  owner : cs.ownerThreadId ≠ 0 →
    0 < depth cs.ownerThreadId ∨ pcs cs.ownerThreadId = .clearOwner

namespace Inv

variable {cs cs' : GuestCriticalSection} {pcs : ThreadId → Pc} {depth : ThreadId → ℕ}
  {tid : ThreadId} {p : Pc} {d : ℕ}

theorem initial (cs : GuestCriticalSection) :
    Inv (initializeCriticalSection cs) (fun _ => .outside) fun _ => 0 where
  tid_ne_zero t h := by simp at h
  pc_depth t := trivial
  exclusive t u ht := absurd ht (Nat.lt_irrefl 0)
  count t ht := absurd ht (Nat.lt_irrefl 0)
  in_of_count h := absurd rfl h
  owner h := absurd rfl h

theorem depth_eq_zero (hi : Inv cs pcs depth) (h : cs.lockCount = 0) (t : ThreadId) :
    depth t = 0 := by
  by_contra hd
  have hcount := hi.count t (Nat.pos_of_ne_zero hd)
  rw [h] at hcount
  exact hd hcount.symm

theorem depth_eq_zero_of_ne (hi : Inv cs pcs depth) (h : 0 < depth tid) {t : ThreadId}
    (ht : t ≠ tid) : depth t = 0 := by
  by_contra hd
  exact ht (hi.exclusive t tid (Nat.pos_of_ne_zero hd) h)

/-- A step that changes neither the count nor a depth. -/
theorem quiet (hi : Inv cs pcs depth) (hd : depth tid = d) (htid : p ≠ .outside → tid ≠ 0)
    (hp : p.Depth d) (hcount : cs'.lockCount = cs.lockCount)
    (howner : cs'.ownerThreadId = 0 ∨
      cs'.ownerThreadId = cs.ownerThreadId ∧ pcs tid ≠ .clearOwner) :
    Inv cs' (Function.update pcs tid p) (Function.update depth tid d) := by
  subst hd
  rw [Function.update_eq_self]
  constructor
  case tid_ne_zero =>
    intro t h
    by_cases ht : t = tid
    · subst ht
      rw [Function.update_self] at h
      rcases h with h | h
      · exact htid h
      · exact hi.tid_ne_zero t (.inr h)
    · rw [Function.update_of_ne ht] at h
      exact hi.tid_ne_zero t h
  case pc_depth =>
    intro t
    by_cases ht : t = tid
    · subst ht
      rwa [Function.update_self]
    · rw [Function.update_of_ne ht]
      exact hi.pc_depth t
  case exclusive => exact hi.exclusive
  case count => exact fun t => hcount ▸ hi.count t
  case in_of_count => exact hcount ▸ hi.in_of_count
  case owner =>
    intro h
    rcases howner with h₀ | ⟨heq, hclear⟩
    · exact absurd h₀ h
    · rw [heq] at h ⊢
      rcases hi.owner h with hd | hpc
      · exact .inl hd
      · have hne : cs.ownerThreadId ≠ tid := fun heq => hclear (heq ▸ hpc)
        exact .inr (by rw [Function.update_of_ne hne, hpc])

/-- A step of a thread while no other thread is in. -/
theorem alone (hi : Inv cs pcs depth) (htid : tid ≠ 0) (hp : p.Depth d)
    (hothers : ∀ t, t ≠ tid → depth t = 0) (hcount : cs'.lockCount.toNat = d)
    (howner : cs'.ownerThreadId = tid → 0 < d ∨ p = .clearOwner)
    (howner' : cs'.ownerThreadId ≠ tid → cs'.ownerThreadId = cs.ownerThreadId) :
    Inv cs' (Function.update pcs tid p) (Function.update depth tid d) where
  tid_ne_zero t h := by
    by_cases ht : t = tid
    · exact ht ▸ htid
    · rw [Function.update_of_ne ht, Function.update_of_ne ht] at h
      exact hi.tid_ne_zero t h
  pc_depth t := by
    by_cases ht : t = tid
    · subst ht
      rwa [Function.update_self, Function.update_self]
    · rw [Function.update_of_ne ht, Function.update_of_ne ht]
      exact hi.pc_depth t
  exclusive t u ht hu := by
    have heq : ∀ v, 0 < Function.update depth tid d v → v = tid := by
      intro v hv
      by_contra hne
      rw [Function.update_of_ne hne, hothers v hne] at hv
      exact Nat.lt_irrefl 0 hv
    rw [heq t ht, heq u hu]
  count t ht := by
    by_cases heq : t = tid
    · rw [heq, Function.update_self, hcount]
    · rw [Function.update_of_ne heq, hothers t heq] at ht
      exact absurd ht (Nat.lt_irrefl 0)
  in_of_count h := by
    refine ⟨tid, ?_⟩
    rw [Function.update_self, ← hcount]
    exact Nat.pos_of_ne_zero fun h₀ => h (BitVec.eq_of_toNat_eq h₀)
  owner h := by
    by_cases heq : cs'.ownerThreadId = tid
    · rw [heq, Function.update_self, Function.update_self]
      exact howner heq
    · rw [Function.update_of_ne heq, Function.update_of_ne heq, howner' heq]
      exact hi.owner (howner' heq ▸ h)

theorem step (hi : Inv cs pcs depth) (h : Local tid cs (pcs tid) (depth tid) cs' p d) :
    Inv cs' (Function.update pcs tid p) (Function.update depth tid d) := by
  have htid := hi.tid_ne_zero tid
  have hdepth := hi.pc_depth tid
  have hcount := hi.count tid
  generalize hpc : pcs tid = p₀ at h htid hdepth
  generalize hd : depth tid = d₀ at h htid hdepth hcount
  cases h with
  | enters e h₀ => exact hi.quiet hd (fun _ => h₀) trivial rfl (.inr ⟨rfl, by simp [hpc]⟩)
  | leaves h₀ hpos => exact hi.quiet hd (fun _ => h₀) hpos rfl (.inr ⟨rfl, by simp [hpc]⟩)
  | found h =>
    have h₀ : tid ≠ 0 := htid (.inl (by simp))
    -- The thread is not about to clear the word, so it is in.
    have hpos : 0 < d := by
      rcases hi.owner (h ▸ h₀) with hpos | hclear
      · rwa [h, hd] at hpos
      · rw [h, hpc] at hclear
        cases hclear
    exact hi.quiet hd (fun _ => h₀) hpos rfl (.inr ⟨rfl, by simp [hpc]⟩)
  | missed h =>
    exact hi.quiet hd (fun _ => htid (.inl (by simp))) trivial rfl (.inr ⟨rfl, by simp [hpc]⟩)
  | reentered h =>
    have hpos : 0 < d₀ := hdepth
    refine hi.alone (htid (.inr hpos)) trivial ?_ ?_ (fun _ => .inl (Nat.succ_pos _)) fun _ => rfl
    · exact fun t ht => hi.depth_eq_zero_of_ne (hd ▸ hpos) ht
    · rw [BitVec.toNat_add_of_lt (by simpa using h), hcount hpos]
      rfl
  | took h =>
    have h₀ : d₀ = 0 := hd ▸ hi.depth_eq_zero h tid
    subst h₀
    exact hi.alone (htid (.inl (by simp))) rfl (fun t _ => hi.depth_eq_zero h t) rfl
      (fun _ => .inl Nat.one_pos) fun _ => rfl
  | spun h =>
    exact hi.quiet hd (fun _ => htid (.inl (by simp))) trivial rfl (.inr ⟨rfl, by simp [hpc]⟩)
  | refused h =>
    exact hi.quiet hd (fun h => absurd rfl h) trivial rfl (.inr ⟨rfl, by simp [hpc]⟩)
  | stored =>
    have hone : d = 1 := hdepth
    subst hone
    refine hi.alone (htid (.inr Nat.one_pos)) trivial ?_ (hcount Nat.one_pos)
      (fun _ => .inl Nat.one_pos) fun h => absurd rfl h
    exact fun t ht => hi.depth_eq_zero_of_ne (hd ▸ Nat.one_pos) ht
  | left h =>
    have hpos : 0 < d₀ := hdepth
    have hc := hcount hpos
    have hlt : 1 < d₀ := by
      rw [← hc]
      simpa [BitVec.le_def] using h
    refine hi.alone (htid (.inr hpos)) trivial ?_ ?_ (fun _ => .inl (by omega)) fun _ => rfl
    · exact fun t ht => hi.depth_eq_zero_of_ne (hd ▸ hpos) ht
    · rw [BitVec.toNat_sub_of_le (by simp [BitVec.le_def]; omega), hc]
      rfl
  | released h =>
    have hpos : 0 < d₀ := hdepth
    have hc := hcount hpos
    have hone : d₀ = 1 := by
      have hle : cs.lockCount.toNat ≤ 1 := by simpa [BitVec.le_def] using h
      omega
    subst hone
    refine hi.alone (htid (.inr hpos)) rfl ?_ ?_ (fun _ => .inr rfl) fun _ => rfl
    · exact fun t ht => hi.depth_eq_zero_of_ne (hd ▸ hpos) ht
    · rw [BitVec.toNat_sub_of_le (by simp [BitVec.le_def]; omega), hc]
      rfl
  | cleared => exact hi.quiet hd (fun h => absurd rfl h) trivial rfl (.inl rfl)

end Inv

namespace Threads

variable {cs : GuestCriticalSection} {s s' : Threads} {t : ThreadId} {e : Event} {es : List Event}

/-- The invariant of the whole state. -/
def Ok (s : Threads) : Prop := Inv s.cs s.pc s.depth

theorem Ok.step (hi : s.Ok) (hl : s.Legal e) (h : s.step e = some s') : s'.Ok := by
  obtain ⟨pc, d, hloc, hpc, hdepth⟩ := local_of_step hl h
  unfold Ok
  rw [hpc, hdepth]
  exact Inv.step hi hloc

theorem ok_new (cs : GuestCriticalSection) : (new (initializeCriticalSection cs)).Ok :=
  Inv.initial cs

theorem run_ok (hl : Meets step Legal (new (initializeCriticalSection cs)) es)
    (hr : run step (new (initializeCriticalSection cs)) es = some s) : s.Ok :=
  run_induction (fun _ _ _ hi hc => Ok.step hi hc) (ok_new cs) hl hr

/-! ### Mutual exclusion -/

/-- A thread is inside from the operation that gets it in to the `fetch_sub` of its last
`LeaveCriticalSection`. -/
def Inside (s : Threads) (t : ThreadId) : Prop := 0 < s.depth t

/-- No two threads are ever inside. -/
theorem mutual_exclusion (hl : Meets step Legal (new (initializeCriticalSection cs)) es)
    (hr : run step (new (initializeCriticalSection cs)) es = some s) (t u : ThreadId)
    (ht : s.Inside t) (hu : s.Inside u) : t = u := by
  have hok : s.Ok := run_ok hl hr
  exact hok.exclusive t u ht hu

/-- The thread 1 is in, and the thread 2 tries. -/
theorem mutual_exclusion_contended :
    let es := [.call 1 (.entry .enter), .atomic 1, .call 2 (.entry .tryEnter), .atomic 2, .atomic 1,
      .atomic 2, .atomic 1]
    let s₀ := new (initializeCriticalSection ⟨7, 9⟩)
    ∃ s, Meets step Legal s₀ es ∧ run step s₀ es = some s ∧
      s.log = [(1, .entered), (2, .tryEntered 0)] ∧ s.Inside 1 ∧ ∀ t, s.Inside t → t = 1 := by
  intro es s₀
  have hl : Meets step Legal s₀ es := by decide
  have hin : Inside ((run step s₀ es).get rfl) 1 := by
    unfold Inside
    decide
  refine ⟨_, hl, rfl, rfl, hin, fun t ht => ?_⟩
  exact mutual_exclusion hl rfl t 1 ht hin

/-! ### Re-entry -/

/-- The thread's entry has returned and its last `LeaveCriticalSection` has not begun. -/
def Holds (s : Threads) (t : ThreadId) : Prop :=
  0 < s.depth t ∧ (∀ e, s.pc t ≠ .storeOwner e) ∧ ¬ (s.pc t = .fetchSub ∧ s.depth t = 1)

/-- A thread that holds the section finds its id in it, so the first check of a further entry
succeeds. -/
def Reentrant (s : Threads) : Prop :=
  ∀ t, s.Holds t → s.cs.ownerThreadId = t ∧
    ∀ e, s.pc t = .loadOwner e → s.step (.atomic t) = some (s.goto t (.fetchAdd e))

/-- The last part of a `LeaveCriticalSection` does not clear the owner while a thread holds the
section. -/
def NoLateClear (s : Threads) : Event → Prop
  | .call _ _ => True
  | .atomic tid => s.pc tid = .clearOwner → ∀ t, ¬ s.Holds t

/-- A thread that holds the section after a step of its own holds it before, or the step has stored
its id. -/
theorem owner_of_holds_self {cs' : GuestCriticalSection} {p : Pc} {d : ℕ} {tid : ThreadId}
    (hi : s.Ok) (h : Local tid s.cs (s.pc tid) (s.depth tid) cs' p d)
    (howner : s.Holds tid → s.cs.ownerThreadId = tid) (hd : 0 < d) (hp : ∀ e, p ≠ .storeOwner e)
    (hleave : ¬ (p = .fetchSub ∧ d = 1)) : cs'.ownerThreadId = tid := by
  have hdepth := hi.pc_depth tid
  unfold Holds at howner
  generalize hpc : s.pc tid = p₀ at h hdepth howner
  generalize hd₀ : s.depth tid = d₀ at h hdepth howner
  generalize s.cs = cs at *
  cases h with
  | enters e h₀ => exact howner ⟨hd, by simp, by simp⟩
  | leaves h₀ hpos => exact howner ⟨hd, by simp, by simp⟩
  | found h => exact h
  | missed h => exact howner ⟨hd, by simp, by simp⟩
  | reentered h => exact howner ⟨hdepth, by simp, by simp⟩
  | took h => exact absurd rfl (hp _)
  | spun h => exact howner ⟨hd, by simp, by simp⟩
  | refused h => exact howner ⟨hd, by simp, by simp⟩
  | stored => rfl
  | left h => exact howner ⟨by omega, by simp, by omega⟩
  | released h => exact howner ⟨by omega, by simp, by omega⟩
  | cleared => exact absurd hdepth (Nat.ne_of_gt hd)

/-- Every thread that holds the section finds its id in it. -/
def Owned (s : Threads) : Prop := ∀ t, s.Holds t → s.cs.ownerThreadId = t

theorem Owned.reentrant (h : s.Owned) : s.Reentrant := by
  intro t ht
  refine ⟨h t ht, fun e hpc => ?_⟩
  simp only [step, atomic, hpc, h t ht, ite_true]

theorem Owned.step (hi : s.Ok) (ho : s.Owned) (hl : s.Legal e) (hc : s.NoLateClear e)
    (h : s.step e = some s') : s'.Owned := by
  obtain ⟨p, d, hloc, hpc, hdepth⟩ := local_of_step hl h
  rintro t ⟨hd, hstore, hleave⟩
  rw [hpc] at hstore hleave
  rw [hdepth] at hd hleave
  by_cases ht : t = e.tid
  · subst ht
    rw [Function.update_self] at hd hstore hleave
    rw [Function.update_self] at hleave
    exact owner_of_holds_self hi hloc (ho e.tid) hd hstore hleave
  · rw [Function.update_of_ne ht] at hd hstore hleave
    rw [Function.update_of_ne ht] at hleave
    have hholds : s.Holds t := ⟨hd, hstore, hleave⟩
    -- The thread of the step is not in, so it has no id to store.
    have hout : s.depth e.tid = 0 := Inv.depth_eq_zero_of_ne hi hd (Ne.symm ht)
    rw [hloc.owner_eq, ho t hholds]
    · intro e' hpc'
      have hone := hi.pc_depth e.tid
      rw [hpc', hout] at hone
      cases hone
    · intro hclear
      cases e with
      | call tid c =>
        simp only [Threads.step, show s.pc tid = .clearOwner from hclear, reduceCtorEq, ite_false] at h
      | atomic tid => exact hc hclear t hholds

/-- A late clear takes the section from the thread that holds it. -/
theorem noLateClear_of_reentrant (hi : s.Ok) (h : s.step e = some s') (hre : s'.Reentrant) :
    s.NoLateClear e := by
  cases e with
  | call tid c => trivial
  | atomic tid =>
    intro hclear t ht
    simp only [step, atomic, hclear, Option.some.injEq] at h
    subst h
    have hne : t ≠ tid := by
      rintro rfl
      have h₀ := hi.pc_depth t
      rw [hclear] at h₀
      exact absurd h₀ (Nat.ne_of_gt ht.1)
    have hholds : ((s.setOwner 0).ret tid .left).Holds t := by
      simpa only [Holds, ret, setOwner, Function.update_of_ne hne] using ht
    exact hi.tid_ne_zero t (.inr ht.1) (hre t hholds).1.symm

/-- In every run of the threads, re-entry works in every state reached if and only if no
`LeaveCriticalSection` clears the owner while another thread holds the section. -/
theorem reentrant_iff (hl : Meets step Legal (new (initializeCriticalSection cs)) es)
    (hr : run step (new (initializeCriticalSection cs)) es = some s) :
    (∀ es₁ es₂ s₁, es = es₁ ++ es₂ →
      run step (new (initializeCriticalSection cs)) es₁ = some s₁ → s₁.Reentrant) ↔
      Meets step NoLateClear (new (initializeCriticalSection cs)) es := by
  have hnew : (new (initializeCriticalSection cs)).Owned := by
    rintro t ⟨hd, -⟩
    exact absurd hd (Nat.lt_irrefl 0)
  have hstep : ∀ (s : Threads) (e : Event) (s' : Threads), s.Ok ∧ s.Owned → s.Legal e →
      s.step e = some s' →
      (s'.Reentrant → s.NoLateClear e) ∧ (s.NoLateClear e → s'.Ok ∧ s'.Owned) := by
    rintro s e s' ⟨hi, ho⟩ hl h
    exact ⟨noLateClear_of_reentrant hi h, fun hc => ⟨hi.step hl h, ho.step hi hl hc h⟩⟩
  exact run_all_iff_of_meets (fun s hs => hs.2.reentrant) hstep ⟨ok_new cs, hnew⟩ hl hr

/-- The thread 1 lets go of the count, the thread 2 gets in and has its id stored, and only then the
thread 1 clears the owner. -/
def lateClear : List Event :=
  [.call 1 (.entry .enter), .atomic 1, .atomic 1, .atomic 1, .call 1 .leave, .atomic 1,
    .call 2 (.entry .enter), .atomic 2, .atomic 2, .atomic 2, .atomic 1]

/-- The thread 1 clears the owner before the thread 2 stores its id. -/
def clearInTime : List Event :=
  [.call 1 (.entry .enter), .atomic 1, .atomic 1, .atomic 1, .call 1 .leave, .atomic 1,
    .call 2 (.entry .enter), .atomic 2, .atomic 2, .atomic 1, .atomic 2]

/-- After a late clear the thread 2 holds the section and the owner is zero; a further entry of its own
finds the count taken and spins. -/
theorem not_reentrant :
    ¬ ∀ es s, Meets step Legal (new (initializeCriticalSection ⟨0, 0⟩)) es →
      run step (new (initializeCriticalSection ⟨0, 0⟩)) es = some s → s.Reentrant := by
  intro h
  have hl : Meets step Legal (new (initializeCriticalSection ⟨0, 0⟩)) lateClear := by decide
  have hre := h lateClear _ hl rfl
  have howner := (hre 2 ⟨by decide, fun e => nofun, by decide⟩).1
  exact absurd howner (by decide)

theorem reentrant_iff_clearInTime :
    ∃ s, Meets step Legal (new (initializeCriticalSection ⟨0, 0⟩)) clearInTime ∧
      run step (new (initializeCriticalSection ⟨0, 0⟩)) clearInTime = some s ∧ s.Holds 2 ∧
      s.Reentrant := by
  have hl : Meets step Legal (new (initializeCriticalSection ⟨0, 0⟩)) clearInTime := by decide
  have hc : Meets step NoLateClear (new (initializeCriticalSection ⟨0, 0⟩)) clearInTime := by
    refine (meets_cons_some rfl).mpr ⟨trivial, ?_⟩
    refine (meets_cons_some rfl).mpr ⟨nofun, ?_⟩
    refine (meets_cons_some rfl).mpr ⟨nofun, ?_⟩
    refine (meets_cons_some rfl).mpr ⟨nofun, ?_⟩
    refine (meets_cons_some rfl).mpr ⟨trivial, ?_⟩
    refine (meets_cons_some rfl).mpr ⟨nofun, ?_⟩
    refine (meets_cons_some rfl).mpr ⟨trivial, ?_⟩
    refine (meets_cons_some rfl).mpr ⟨nofun, ?_⟩
    refine (meets_cons_some rfl).mpr ⟨nofun, ?_⟩
    refine (meets_cons_some rfl).mpr ⟨?_, ?_⟩
    · -- The thread 2 is in, but it has not stored its id.
      rintro - t ⟨hd, hstore, -⟩
      have ht : t = 2 := by
        by_contra hne
        change 0 < Function.update (Function.update (Function.update (fun _ => 0) 1 1) 1 0) 2 1 t at hd
        rw [Function.update_of_ne hne, Function.update_idem] at hd
        rcases eq_or_ne t 1 with rfl | hne'
        · exact absurd hd (by decide)
        · rw [Function.update_of_ne hne'] at hd
          exact Nat.lt_irrefl 0 hd
      subst ht
      exact hstore .enter rfl
    · exact (meets_cons_some rfl).mpr ⟨nofun, trivial⟩
  refine ⟨_, hl, rfl, ⟨by decide, fun e => nofun, by decide⟩, ?_⟩
  exact (reentrant_iff hl rfl).mpr hc clearInTime [] _ (List.append_nil _).symm rfl

end Threads

end Quantum.Kernel32.CriticalSection
