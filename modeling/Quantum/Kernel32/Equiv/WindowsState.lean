import Mathlib.Data.BitVec
import Mathlib.Tactic.Ring
import Quantum.Kernel32.WindowsState
import Quantum.Lib.Machine

/-!
# Message queues deliver exactly once, in order

The log of a run says which windows there are, what was posted to each and what was popped for it.
`Delivered` says how these go together: what was popped for a window is a prefix of what was posted to
it, and the rest is in its queue as long as the window lives.  Every run of fewer than `2 ^ 60` windows
keeps it (`messages_delivered`); after that many the tokens of windows come round again.
-/

namespace Quantum.Kernel32.Windows

open Machine

/-! ### What the log says -/

/-- The windows that were created, the newest first. -/
def createdIn : List Outcome → List Hwnd
  | [] => []
  | .created h :: log => h :: createdIn log
  | _ :: log => createdIn log

/-- Has the window been created and not been destroyed since? -/
def live (h : Hwnd) : List Outcome → Bool
  | [] => false
  | .created h' :: log => decide (h' = h) || live h log
  | .destroyed h' _ :: log => !decide (h' = h) && live h log
  | _ :: log => live h log

/-- The messages posted to a window with success, in their order. -/
def postedTo (h : Hwnd) : List Outcome → List PendingMsg
  | [] => []
  | .posted msg true :: log => if msg.hwnd = h then postedTo h log ++ [msg] else postedTo h log
  | _ :: log => postedTo h log

/-- The messages of a window that were popped, in their order. -/
def poppedFor (h : Hwnd) : List Outcome → List PendingMsg
  | [] => []
  | .popped _ (some msg) :: log => if msg.hwnd = h then poppedFor h log ++ [msg] else poppedFor h log
  | _ :: log => poppedFor h log

/-- Is the result of a call right, after the calls before it?  A message is posted exactly when its
window exists, a filter is kept to, and without a filter nothing is popped only if all queues are
empty. -/
def Outcome.Right (log : List Outcome) : Outcome → Prop
  | .posted msg ok => ok = live msg.hwnd log
  | .popped (some h) (some msg) => msg.hwnd = h
  | .popped none none => ∀ h, live h log = true → poppedFor h log = postedTo h log
  | _ => True

/-- Every call of the log has had the right result. -/
def AllRight : List Outcome → Prop
  | [] => True
  | o :: log => o.Right log ∧ AllRight log

/-- How the queues go together with the log. -/
structure Delivered (t : Traced) : Prop where
  distinct : (createdIn t.log).Nodup
  live_iff : ∀ h, live h t.log = (t.state.windows.lookup h).isSome
  popped_prefix : ∀ h, poppedFor h t.log <+: postedTo h t.log
  queued : ∀ h w, t.state.windows.lookup h = some w →
    postedTo h t.log = poppedFor h t.log ++ w.queue
  right : AllRight t.log

/-! ### Tokens -/

/-- The token of the window with a number. -/
def token (i : ℕ) : Hwnd := firstHwnd + 0x10 * BitVec.ofNat 64 i

theorem token_succ (i : ℕ) : token (i + 1) = token i + 0x10 := by
  unfold token
  rw [BitVec.ofNat_add, BitVec.mul_add, BitVec.add_assoc]
  rfl

theorem token_injOn {i j : ℕ} (hi : i < 2 ^ 60) (hj : j < 2 ^ 60) (h : token i = token j) : i = j := by
  have hmul : (0x10 * BitVec.ofNat 64 i).toNat = (0x10 * BitVec.ofNat 64 j).toNat := by
    rw [add_left_cancel h]
  simp only [BitVec.toNat_mul, BitVec.toNat_ofNat, BitVec.ofNat_eq_ofNat] at hmul
  omega

/-- What a run keeps besides: the tokens are counted up, and a window that was not created has no
history. -/
structure Inv (t : Traced) : Prop where
  delivered : Delivered t
  next : t.state.nextHwnd = token (createdIn t.log).length
  tokens : ∀ h ∈ createdIn t.log, ∃ i < (createdIn t.log).length, h = token i
  fresh : ∀ h, h ∉ createdIn t.log →
    live h t.log = false ∧ postedTo h t.log = [] ∧ poppedFor h t.log = []

theorem inv_new : Inv .new where
  delivered := ⟨.nil, fun _ => rfl, fun _ => List.prefix_rfl, nofun, trivial⟩
  next := by decide
  tokens h hh := by cases hh
  fresh h _ := ⟨rfl, rfl, rfl⟩

variable {t : Traced} {s : State} {o : Outcome}

/-- A call that leaves the windows alone. -/
theorem Inv.quiet (hi : Inv t) (hw : s.windows = t.state.windows)
    (hn : s.nextHwnd = t.state.nextHwnd) (hc : createdIn (o :: t.log) = createdIn t.log)
    (hl : ∀ h, live h (o :: t.log) = live h t.log)
    (hposted : ∀ h, postedTo h (o :: t.log) = postedTo h t.log)
    (hpopped : ∀ h, poppedFor h (o :: t.log) = poppedFor h t.log) (ho : o.Right t.log) :
    Inv ⟨s, o :: t.log⟩ := by
  obtain ⟨⟨h₁, h₂, h₃, h₄, h₅⟩, h₆, h₇, h₈⟩ := hi
  refine ⟨⟨?_, ?_, ?_, ?_, ho, h₅⟩, ?_, ?_, ?_⟩
  all_goals simp only [hw, hn, hc, hl, hposted, hpopped]
  all_goals assumption

theorem Inv.next_notMem (hi : Inv t) (hn : (createdIn t.log).length < 2 ^ 60) :
    t.state.nextHwnd ∉ createdIn t.log := by
  intro hmem
  obtain ⟨i, hlt, heq⟩ := hi.tokens _ hmem
  rw [hi.next] at heq
  have := token_injOn hn (by omega) heq
  omega

/-- A window that is there has been created. -/
theorem Inv.mem_of_lookup (hi : Inv t) {h : Hwnd} {w : WindowEntry}
    (hw : t.state.windows.lookup h = some w) : h ∈ createdIn t.log := by
  by_contra hmem
  have hlive := hi.delivered.live_iff h
  rw [(hi.fresh h hmem).1, hw] at hlive
  cases hlive

/-- `create_window`. -/
theorem Inv.created (hi : Inv t) (hn : (createdIn t.log).length < 2 ^ 60) {w : WindowEntry}
    (hq : w.queue = []) (hw : s.windows = t.state.windows.insert t.state.nextHwnd w)
    (hs : s.nextHwnd = t.state.nextHwnd + 0x10) :
    Inv ⟨s, .created t.state.nextHwnd :: t.log⟩ := by
  have hnew := hi.next_notMem hn
  obtain ⟨⟨h₁, h₂, h₃, h₄, h₅⟩, h₆, h₇, h₈⟩ := hi
  obtain ⟨-, hposted, hpopped⟩ := h₈ _ hnew
  refine ⟨⟨List.nodup_cons.mpr ⟨hnew, h₁⟩, fun h => ?_, h₃, fun h w' hlook => ?_, trivial, h₅⟩,
    ?_, ?_, fun h hh => ?_⟩
  · rw [hw]
    by_cases heq : t.state.nextHwnd = h
    · subst heq
      simp [live]
    · simp [live, heq, h₂, AList.lookup_insert_ne (Ne.symm heq)]
  · simp only [hw] at hlook
    by_cases heq : h = t.state.nextHwnd
    · subst heq
      rw [AList.lookup_insert] at hlook
      obtain rfl := Option.some.inj hlook
      simp [postedTo, poppedFor, hposted, hpopped, hq]
    · rw [AList.lookup_insert_ne heq] at hlook
      exact h₄ h w' hlook
  · simp only [createdIn, List.length_cons, token_succ, ← h₆, hs]
  · simp only [createdIn, List.length_cons, List.forall_mem_cons]
    refine ⟨⟨_, Nat.lt_succ_self _, h₆⟩, fun h hh => ?_⟩
    obtain ⟨i, hlt, heq⟩ := h₇ h hh
    exact ⟨i, by omega, heq⟩
  · obtain ⟨hne, hh⟩ : h ≠ t.state.nextHwnd ∧ h ∉ createdIn t.log := by
      simpa [createdIn] using hh
    obtain ⟨hlive, hrest⟩ := h₈ h hh
    exact ⟨by simp [live, hlive, Ne.symm hne], hrest⟩

/-- `destroy_window`. -/
theorem Inv.destroyed (hi : Inv t) (h' : Hwnd) (ns : Option (BitVec 64))
    (hw : s.windows = t.state.windows.erase h') (hs : s.nextHwnd = t.state.nextHwnd) :
    Inv ⟨s, .destroyed h' ns :: t.log⟩ := by
  obtain ⟨⟨h₁, h₂, h₃, h₄, h₅⟩, h₆, h₇, h₈⟩ := hi
  refine ⟨⟨h₁, fun h => ?_, h₃, fun h w hlook => ?_, trivial, h₅⟩, hs ▸ h₆, h₇, fun h hh => ?_⟩
  · rw [hw]
    by_cases heq : h' = h
    · subst heq
      simp [live]
    · simp [live, heq, h₂, AList.lookup_erase_ne (Ne.symm heq)]
  · simp only [hw] at hlook
    by_cases heq : h = h'
    · subst heq
      rw [AList.lookup_erase] at hlook
      cases hlook
    · rw [AList.lookup_erase_ne heq] at hlook
      exact h₄ h w hlook
  · obtain ⟨hlive, hrest⟩ := h₈ h hh
    exact ⟨by simp [live, hlive], hrest⟩

/-- `post_message` to a window that is there. -/
theorem Inv.posted (hi : Inv t) (msg : PendingMsg) {w : WindowEntry}
    (hlook : t.state.windows.lookup msg.hwnd = some w)
    (hw : s.windows = t.state.windows.insert msg.hwnd { w with queue := w.queue ++ [msg] })
    (hs : s.nextHwnd = t.state.nextHwnd) : Inv ⟨s, .posted msg true :: t.log⟩ := by
  have hmem := hi.mem_of_lookup hlook
  obtain ⟨⟨h₁, h₂, h₃, h₄, h₅⟩, h₆, h₇, h₈⟩ := hi
  refine ⟨⟨h₁, fun h => ?_, fun h => ?_, fun h w' hlook' => ?_, ?_, h₅⟩, hs ▸ h₆, h₇, fun h hh => ?_⟩
  · rw [hw]
    by_cases heq : h = msg.hwnd
    · subst heq
      simp [live, h₂, hlook]
    · simp [live, h₂, AList.lookup_insert_ne heq]
  · simp only [poppedFor, postedTo]
    split_ifs
    · exact (h₃ h).trans (List.prefix_append _ _)
    · exact h₃ h
  · simp only [hw] at hlook'
    simp only [poppedFor, postedTo]
    by_cases heq : h = msg.hwnd
    · subst heq
      rw [AList.lookup_insert] at hlook'
      obtain rfl := Option.some.inj hlook'
      rw [if_pos rfl, h₄ _ _ hlook, List.append_assoc]
    · rw [AList.lookup_insert_ne heq] at hlook'
      rw [if_neg (Ne.symm heq), h₄ h w' hlook']
  · simp [Outcome.Right, h₂, hlook]
  · obtain ⟨hlive, hposted, hpopped⟩ := h₈ h hh
    have hne : msg.hwnd ≠ h := fun heq => hh (heq ▸ hmem)
    exact ⟨hlive, by simp [postedTo, hne, hposted], hpopped⟩

theorem hwnd_of_mem_postedTo {h : Hwnd} {msg : PendingMsg} {log : List Outcome}
    (hm : msg ∈ postedTo h log) : msg.hwnd = h := by
  induction log using postedTo.induct h with
  | case1 => cases hm
  | case2 msg' log heq ih =>
    rw [postedTo, if_pos heq, List.mem_append, List.mem_singleton] at hm
    rcases hm with hm | rfl
    · exact ih hm
    · exact heq
  | case3 msg' log hne ih =>
    rw [postedTo, if_neg hne] at hm
    exact ih hm
  | case4 o log hne ih =>
    rw [postedTo] at hm
    · exact ih hm
    · exact hne

theorem popFrom_eq_none {h : Hwnd} :
    s.popFrom h = none ↔ ∀ w, s.windows.lookup h = some w → w.queue = [] := by
  unfold State.popFrom
  cases hl : s.windows.lookup h with
  | none => simp
  | some w => cases hq : w.queue <;> simp [hq]

/-- A message popped from the queue of a window. -/
theorem Inv.popped (hi : Inv t) {h' : Hwnd} {msg : PendingMsg} (filter : Option Hwnd)
    (hf : filter = none ∨ filter = some h') (hpop : t.state.popFrom h' = some (s, msg)) :
    Inv ⟨s, .popped filter (some msg) :: t.log⟩ := by
  unfold State.popFrom at hpop
  cases hlook : t.state.windows.lookup h' with
  | none => simp [hlook] at hpop
  | some w =>
    cases hq : w.queue with
    | nil => simp [hlook, hq] at hpop
    | cons msg' queue =>
      simp only [hlook, hq, Option.some.injEq, Prod.mk.injEq] at hpop
      obtain ⟨rfl, rfl⟩ := hpop
      have hmem := hi.mem_of_lookup hlook
      obtain ⟨⟨h₁, h₂, h₃, h₄, h₅⟩, h₆, h₇, h₈⟩ := hi
      have hsplit := h₄ h' w hlook
      rw [hq] at hsplit
      -- The message was posted, so it is one of this window.
      have hmsg : msg'.hwnd = h' := hwnd_of_mem_postedTo (by rw [hsplit]; simp)
      refine ⟨⟨h₁, fun h => ?_, fun h => ?_, fun h w' hlook' => ?_, ?_, h₅⟩, h₆, h₇, fun h hh => ?_⟩
      · by_cases heq : h = h'
        · subst heq
          simp [live, h₂, hlook]
        · simp [live, h₂, AList.lookup_insert_ne heq]
      · simp only [poppedFor, postedTo]
        split_ifs with heq
        · obtain rfl : h' = h := hmsg.symm.trans heq
          rw [hsplit]
          exact ⟨queue, by simp⟩
        · exact h₃ h
      · simp only at hlook'
        simp only [poppedFor, postedTo]
        by_cases heq : h = h'
        · subst heq
          rw [AList.lookup_insert] at hlook'
          obtain rfl := Option.some.inj hlook'
          rw [if_pos hmsg, hsplit, List.append_assoc]
          rfl
        · rw [AList.lookup_insert_ne heq] at hlook'
          rw [if_neg (fun h'' => heq (h''.symm.trans hmsg)), h₄ h w' hlook']
      · rcases hf with rfl | rfl
        · trivial
        · exact hmsg
      · obtain ⟨hlive, hposted, hpopped⟩ := h₈ h hh
        have hne : msg'.hwnd ≠ h := fun heq => hh (heq ▸ hmsg ▸ hmem)
        exact ⟨hlive, hposted, by simp [poppedFor, hne, hpopped]⟩

/-! ### Runs -/

variable {t' : Traced} {c : Call}

theorem createdIn_length_le (h : t.step c = some t') :
    (createdIn t.log).length ≤ (createdIn t'.log).length := by
  cases c with
  | popMessage f order =>
    simp only [Traced.step] at h
    split at h
    · obtain rfl := Option.some.inj h
      exact Nat.le_refl _
    · cases h
  | createWindow cls title ns =>
    obtain rfl := Option.some.inj h
    exact Nat.le_succ _
  | _ =>
    obtain rfl := Option.some.inj h
    exact Nat.le_refl _

theorem Inv.step (hi : Inv t) (hn : (createdIn t.log).length < 2 ^ 60)
    (h : t.step c = some t') : Inv t' := by
  cases c with
  | registerClass name wndProc =>
    obtain rfl := Option.some.inj h
    have hsame : (t.state.registerClass name wndProc).1.windows = t.state.windows ∧
        (t.state.registerClass name wndProc).1.nextHwnd = t.state.nextHwnd := by
      unfold State.registerClass
      split <;> exact ⟨rfl, rfl⟩
    exact hi.quiet hsame.1 hsame.2 rfl (fun _ => rfl) (fun _ => rfl) (fun _ => rfl) trivial
  | createWindow cls title ns =>
    obtain rfl := Option.some.inj h
    exact hi.created hn rfl rfl rfl
  | destroyWindow hwnd =>
    obtain rfl := Option.some.inj h
    exact hi.destroyed hwnd _ rfl rfl
  | postMessage msg =>
    simp only [Traced.step, State.postMessage] at h
    cases hlook : t.state.windows.lookup msg.hwnd with
    | some w =>
      simp only [hlook] at h
      obtain rfl := Option.some.inj h
      exact hi.posted msg hlook rfl rfl
    | none =>
      simp only [hlook] at h
      obtain rfl := Option.some.inj h
      refine hi.quiet rfl rfl rfl (fun _ => rfl) (fun _ => rfl) (fun _ => rfl) ?_
      simp [Outcome.Right, hi.delivered.live_iff, hlook]
  | popMessage filter order =>
    simp only [Traced.step] at h
    split at h
    next hperm =>
      obtain rfl := Option.some.inj h
      cases filter with
      | some h' =>
        cases hpop : t.state.popFrom h' with
        | some r =>
          simp only [State.popMessage, hpop]
          exact hi.popped (some h') (.inr rfl) hpop
        | none =>
          simp only [State.popMessage, hpop]
          exact hi.quiet rfl rfl rfl (fun _ => rfl) (fun _ => rfl) (fun _ => rfl) trivial
      | none =>
        cases hpop : order.findSome? t.state.popFrom with
        | some r =>
          obtain ⟨h', -, hpop'⟩ := List.exists_of_findSome?_eq_some hpop
          simp only [State.popMessage, hpop]
          exact hi.popped none (.inl rfl) hpop'
        | none =>
          simp only [State.popMessage, hpop]
          refine hi.quiet rfl rfl rfl (fun _ => rfl) (fun _ => rfl) (fun _ => rfl) ?_
          intro h' hlive
          rw [hi.delivered.live_iff] at hlive
          obtain ⟨w, hlook⟩ := Option.isSome_iff_exists.mp hlive
          -- The order goes through every window, so this one's queue was looked at.
          have hmem : h' ∈ order :=
            hperm.mem_iff.mpr (AList.lookup_isSome.mp hlive)
          have hempty := popFrom_eq_none.mp (List.findSome?_eq_none_iff.mp hpop h' hmem) w hlook
          rw [hi.delivered.queued h' w hlook, hempty, List.append_nil]
    next => cases h

/-- **Message queues.**  In every run with fewer than `2 ^ 60` windows, every window has a token of its
own, what was popped for it is a prefix of what was posted to it, the rest is its queue as long as it
lives, and every call of the run has had the right result. -/
theorem messages_delivered {cs : List Call} (hr : run Traced.step .new cs = some t)
    (hn : (createdIn t.log).length < 2 ^ 60) : Delivered t := by
  have hstep : ∀ (t : Traced) (c : Call) (t' : Traced), ((createdIn t.log).length < 2 ^ 60 → Inv t) →
      t.step c = some t' → (createdIn t'.log).length < 2 ^ 60 → Inv t' := by
    intro t c t' hi h hn
    have hle := createdIn_length_le h
    have hlt : (createdIn t.log).length < 2 ^ 60 := by omega
    exact (hi hlt).step hlt h
  exact (run_invariant hstep (fun _ => inv_new) hr hn).delivered

/-- Two windows, a message for each and one more for the second, popped without a filter and with one,
and the first window destroyed. -/
def twoWindows : List Call :=
  [.createWindow "a" "a" 0, .createWindow "b" "b" 0, .postMessage ⟨token 0, 1, 0, 0⟩,
    .postMessage ⟨token 1, 2, 0, 0⟩, .postMessage ⟨token 1, 3, 0, 0⟩,
    .popMessage none [token 1, token 0], .popMessage (some (token 0)) [token 0, token 1],
    .destroyWindow (token 0), .postMessage ⟨token 0, 4, 0, 0⟩]

theorem messages_delivered_twoWindows :
    ∃ t, run Traced.step .new twoWindows = some t ∧ (createdIn t.log).length < 2 ^ 60 ∧
      poppedFor (token 1) t.log = [⟨token 1, 2, 0, 0⟩] ∧
      postedTo (token 1) t.log = [⟨token 1, 2, 0, 0⟩, ⟨token 1, 3, 0, 0⟩] ∧ Delivered t := by
  obtain ⟨t, ht, hn, hpopped, hposted⟩ : ∃ t, run Traced.step .new twoWindows = some t ∧
      (createdIn t.log).length < 2 ^ 60 ∧ poppedFor (token 1) t.log = [⟨token 1, 2, 0, 0⟩] ∧
      postedTo (token 1) t.log = [⟨token 1, 2, 0, 0⟩, ⟨token 1, 3, 0, 0⟩] :=
    ⟨_, rfl, by decide, rfl, rfl⟩
  exact ⟨t, ht, hn, hpopped, hposted, messages_delivered ht hn⟩

end Quantum.Kernel32.Windows
