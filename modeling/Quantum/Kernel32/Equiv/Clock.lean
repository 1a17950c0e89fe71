import Mathlib.Order.Monotone.Defs
import Quantum.Kernel32.Clock
import Quantum.Lib.Machine

/-!
# Monotone clocks

Two reports are comparable when they count from the same anchor, and each thread has its own.
`monotone_iff`: whatever a monotone host clock does, the reports of a run never go back, exactly when a call
that follows another counts from an anchor that is no later.
-/

namespace Quantum.Kernel32.Time

open Machine

/-! ### What the clocks promise -/

/-- A call that begins after another has returned reports a value at least as large. -/
def ClockState.ReportsMonotone (clock : HostClock) (s : ClockState) : Prop :=
  ∀ e₁ ∈ s.log, ∀ e₂ ∈ s.log, e₁.counter = e₂.counter → e₁.completed < e₂.begun →
    e₂.counter.le (e₁.value clock) (e₂.value clock)

/-- A call that begins after another has returned counts from an anchor that was taken no later. -/
def ClockState.AnchorsOrdered (s : ClockState) : Prop :=
  ∀ e₁ ∈ s.log, ∀ e₂ ∈ s.log, e₁.counter = e₂.counter → e₁.completed < e₂.begun → e₂.since ≤ e₁.since

/-! ### Reports -/

theorem Counter.report_le {counter : Counter} {m n : ℕ} (hmn : m ≤ n) (hn : n < 2 ^ 63) :
    counter.le (counter.report m) (counter.report n) := by
  cases counter with
  | queryPerformance =>
    have hint : ∀ k, k < 2 ^ 63 → (BitVec.ofNat 64 k).toInt = k := by
      intro k hk
      have hnat : (BitVec.ofNat 64 k).toNat = k := Nat.mod_eq_of_lt (by omega)
      rw [BitVec.toInt_eq_toNat_of_lt (by omega), hnat]
    change (BitVec.ofNat 64 m).sle (BitVec.ofNat 64 n) = true
    rw [BitVec.sle, hint m (by omega), hint n hn, decide_eq_true_eq]
    exact Int.ofNat_le.mpr hmn
  | tickCount64 =>
    have hdiv : m / 1000000 ≤ n / 1000000 := Nat.div_le_div_right hmn
    change (BitVec.ofNat 64 (m / 1000000)).toNat ≤ (BitVec.ofNat 64 (n / 1000000)).toNat
    rw [BitVec.toNat_ofNat, BitVec.toNat_ofNat, Nat.mod_eq_of_lt (by omega), Nat.mod_eq_of_lt (by omega)]
    exact hdiv

/-- A millisecond is more than nothing for either counter. -/
theorem Counter.not_report_le (counter : Counter) : ¬ counter.le (counter.report 1000000) (counter.report 0) := by
  cases counter with
  | queryPerformance =>
    change ¬ (BitVec.ofNat 64 1000000).sle (BitVec.ofNat 64 0) = true
    decide
  | tickCount64 =>
    change ¬ BitVec.ofNat 64 (1000000 / 1000000) ≤ BitVec.ofNat 64 (0 / 1000000)
    decide

/-! ### Runs -/

/-- The instants of a state lie in the past, and those of a call in their order. -/
structure Inv (s : ClockState) : Prop where
  anchors : ∀ tid since, s.anchors tid = some since → since < s.now
  begun : ∀ tid p, s.pending tid = some p → p.begun < s.now
  read : ∀ tid p now, s.pending tid = some p → p.read = some now → p.begun < now ∧ now < s.now ∧
    ∃ since, s.anchors tid = some since ∧ since < now
  log : ∀ e ∈ s.log, e.begun < e.read ∧ e.since < e.read ∧ e.read < e.completed ∧ e.completed < s.now

theorem inv_new : Inv .new := ⟨nofun, nofun, nofun, nofun⟩

theorem Inv.step {s s' : ClockState} (hi : Inv s) {e : ThreadId × Event} (h : s.step e = some s') : Inv s' := by
  obtain ⟨tid, ev⟩ := e
  have hanchors : ∀ tid since, s.anchors tid = some since → since < s.now + 1 :=
    fun tid since hs => Nat.lt_succ_of_lt (hi.anchors tid since hs)
  have hbegun : ∀ tid p, s.pending tid = some p → p.begun < s.now + 1 :=
    fun tid p hp => Nat.lt_succ_of_lt (hi.begun tid p hp)
  have hread : ∀ tid p now, s.pending tid = some p → p.read = some now → p.begun < now ∧ now < s.now + 1 ∧
      ∃ since, s.anchors tid = some since ∧ since < now := by
    intro tid p now hp hnow
    obtain ⟨h₁, h₂, h₃⟩ := hi.read tid p now hp hnow
    exact ⟨h₁, Nat.lt_succ_of_lt h₂, h₃⟩
  have hlog : ∀ e ∈ s.log, e.begun < e.read ∧ e.since < e.read ∧ e.read < e.completed ∧
      e.completed < s.now + 1 := by
    intro e he
    obtain ⟨h₁, h₂, h₃, h₄⟩ := hi.log e he
    exact ⟨h₁, h₂, h₃, Nat.lt_succ_of_lt h₄⟩
  unfold ClockState.step at h
  cases ev with
  | call counter =>
    dsimp only at h
    split at h
    case h_2 => cases h
    case h_1 =>
      obtain rfl := Option.some.inj h
      refine ⟨hanchors, fun tid' p hp => ?_, fun tid' p now hp hnow => ?_, hlog⟩
      · dsimp only at hp
        by_cases heq : tid' = tid
        · rw [heq, Function.update_self] at hp
          obtain rfl := Option.some.inj hp
          exact Nat.lt_succ_self _
        · rw [Function.update_of_ne heq] at hp
          exact hbegun tid' p hp
      · dsimp only at hp
        by_cases heq : tid' = tid
        · rw [heq, Function.update_self] at hp
          obtain rfl := Option.some.inj hp
          cases hnow
        · rw [Function.update_of_ne heq] at hp
          exact hread tid' p now hp hnow
  | anchor =>
    dsimp only at h
    split at h
    case h_2 => cases h
    case h_1 counter begun hpend _ =>
      obtain rfl := Option.some.inj h
      refine ⟨fun tid' since hs => ?_, hbegun, fun tid' p now hp hnow => ?_, hlog⟩
      · dsimp only at hs
        by_cases heq : tid' = tid
        · rw [heq, Function.update_self] at hs
          obtain rfl := Option.some.inj hs
          exact Nat.lt_succ_self _
        · rw [Function.update_of_ne heq] at hs
          exact hanchors tid' since hs
      · -- the thread with the new anchor has read nothing yet
        have hne : tid' ≠ tid := by
          rintro rfl
          rw [hpend] at hp
          obtain rfl := Option.some.inj hp
          cases hnow
        dsimp only
        rw [Function.update_of_ne hne]
        exact hread tid' p now hp hnow
  | read =>
    dsimp only at h
    split at h
    case h_2 => cases h
    case h_1 counter begun since hpend hsince =>
      obtain rfl := Option.some.inj h
      refine ⟨hanchors, fun tid' p hp => ?_, fun tid' p now hp hnow => ?_, hlog⟩
      · dsimp only at hp
        by_cases heq : tid' = tid
        · rw [heq, Function.update_self] at hp
          obtain rfl := Option.some.inj hp
          exact hbegun tid ⟨counter, begun, none⟩ hpend
        · rw [Function.update_of_ne heq] at hp
          exact hbegun tid' p hp
      · dsimp only at hp
        by_cases heq : tid' = tid
        · rw [heq, Function.update_self] at hp
          obtain rfl := Option.some.inj hp
          obtain rfl := Option.some.inj hnow
          exact ⟨hi.begun tid ⟨counter, begun, none⟩ hpend, Nat.lt_succ_self _, since, heq ▸ hsince,
            hi.anchors tid since hsince⟩
        · rw [Function.update_of_ne heq] at hp
          exact hread tid' p now hp hnow
  | ret =>
    dsimp only at h
    split at h
    case h_2 => cases h
    case h_1 counter begun read since hpend hsince =>
      obtain rfl := Option.some.inj h
      have hothers : ∀ tid' p, Function.update s.pending tid none tid' = some p → s.pending tid' = some p := by
        intro tid' p hp
        by_cases heq : tid' = tid
        · rw [heq, Function.update_self] at hp
          cases hp
        · rwa [Function.update_of_ne heq] at hp
      refine ⟨hanchors, fun tid' p hp => hbegun tid' p (hothers tid' p hp),
        fun tid' p now hp => hread tid' p now (hothers tid' p hp), ?_⟩
      rw [List.forall_mem_cons]
      obtain ⟨hbefore, hpast, since', hsince', horder⟩ := hi.read tid _ read hpend rfl
      obtain rfl : since' = since := Option.some.inj (hsince'.symm.trans hsince)
      exact ⟨⟨hbefore, horder, hpast, Nat.lt_succ_self _⟩, hlog⟩

theorem inv_of_run {schedule : List (ThreadId × Event)} {s : ClockState}
    (hr : run ClockState.step .new schedule = some s) : Inv s :=
  run_induction (C := fun _ _ => True) (fun _ _ _ hi _ h => hi.step h) inv_new (meets_true _ _) hr

/-- **Monotone clocks.**  Under every monotone clock that stays below `2 ^ 63` nanoseconds the reports never go
back, exactly when a call never counts from a later anchor than a call before it. -/
theorem monotone_iff {schedule : List (ThreadId × Event)} {s : ClockState}
    (hr : run ClockState.step .new schedule = some s) :
    (∀ clock : HostClock, Monotone clock → (∀ i, clock i < 2 ^ 63) → s.ReportsMonotone clock) ↔
      s.AnchorsOrdered := by
  have hi := inv_of_run hr
  constructor
  · intro h e₁ he₁ e₂ he₂ hcounter hbefore
    by_contra hlater
    -- a clock that stands still but for the step after the first anchor
    have hmono : Monotone fun i => if i ≤ e₁.since then 0 else 1000000 := by
      intro i j hij
      dsimp only
      split_ifs <;> omega
    have hreport := h _ hmono (fun i => by split_ifs <;> decide) e₁ he₁ e₂ he₂ hcounter hbefore
    obtain ⟨-, hsince₁, hread₁, -⟩ := hi.log e₁ he₁
    obtain ⟨-, hsince₂, -, -⟩ := hi.log e₂ he₂
    unfold Entry.value elapsed at hreport
    dsimp only at hreport
    rw [if_pos (Nat.le_refl _), if_neg (by omega), if_neg (by omega), if_neg (by omega), hcounter] at hreport
    exact e₂.counter.not_report_le hreport
  · intro h clock hmono hsmall e₁ he₁ e₂ he₂ hcounter hbefore
    have hsince := hmono (h e₁ he₁ e₂ he₂ hcounter hbefore)
    obtain ⟨-, -, hread₁, -⟩ := hi.log e₁ he₁
    obtain ⟨hbegun₂, -, -, -⟩ := hi.log e₂ he₂
    have hnow : clock e₁.read ≤ clock e₂.read := hmono (by omega)
    unfold Entry.value elapsed
    rw [hcounter]
    refine Counter.report_le (by omega) ?_
    have hlt := hsmall e₂.read
    omega

/-- One thread asks for the time, and then another that has never done so. -/
def twoThreads : List (ThreadId × Event) :=
  [(1, .call .queryPerformance), (1, .anchor), (1, .read), (1, .ret),
    (2, .call .queryPerformance), (2, .anchor), (2, .read), (2, .ret)]

theorem run_twoThreads : ∃ s, run ClockState.step .new twoThreads = some s ∧
    s.log = [⟨.queryPerformance, 4, 7, 5, 6⟩, ⟨.queryPerformance, 0, 3, 1, 2⟩] :=
  ⟨_, rfl, rfl⟩

theorem monotone_iff_twoThreads : ∃ s, run ClockState.step .new twoThreads = some s ∧
    ((∀ clock : HostClock, Monotone clock → (∀ i, clock i < 2 ^ 63) → s.ReportsMonotone clock) ↔
      s.AnchorsOrdered) := by
  obtain ⟨s, hr, -⟩ := run_twoThreads
  exact ⟨s, hr, monotone_iff hr⟩

/-- The first thread reports a millisecond, and the second nothing. -/
theorem not_monotone_twoThreads : ¬ ∀ schedule s, run ClockState.step .new schedule = some s →
    ∀ clock : HostClock, Monotone clock → (∀ i, clock i < 2 ^ 63) → s.ReportsMonotone clock := by
  intro h
  obtain ⟨s, hr, hlog⟩ := run_twoThreads
  have hmono : Monotone fun i : ℕ => if i ≤ 1 then 0 else 1000000 := by
    intro i j hij
    dsimp only
    split_ifs <;> omega
  have hreport := h twoThreads s hr _ hmono (fun i => by split_ifs <;> decide)
    ⟨.queryPerformance, 0, 3, 1, 2⟩ (by simp [hlog]) ⟨.queryPerformance, 4, 7, 5, 6⟩ (by simp [hlog]) rfl
    (by decide)
  exact Counter.queryPerformance.not_report_le hreport

end Quantum.Kernel32.Time
