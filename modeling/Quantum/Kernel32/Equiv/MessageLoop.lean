import Quantum.Kernel32.MessageLoop

/-!
# Peeking without removal

With `PM_NOREMOVE` a message is popped from the front of its queue and posted at the back, so the queue turns
by one.  `peeksRight_iff`: the queues stay as they were exactly when all messages in the queue of the window
that gives the message are equal.
-/

namespace Quantum.Kernel32.Windows

/-! ### What a peek promises -/

/-- The queue of a live window. -/
def State.queue (s : State) (h : Hwnd) : Option (List PendingMsg) :=
  (s.windows.lookup h).map (·.queue)

/-- The messages that wait for a window. -/
def State.messages (s : State) (h : Hwnd) : List PendingMsg :=
  (s.queue h).getD []

/-- With no pending quit and no event of the host, a peek without removal changes no queue, it reports the
same when repeated, and the next call that removes a message reports the same too. -/
structure PeeksRight (s : State) (order : List Hwnd) (hwnd : Hwnd) : Prop where
  queues : ∀ msg remove, remove &&& PM_REMOVE = 0 →
    (Pump.peekMessageW ⟨s, none⟩ none order msg hwnd remove).pump.state.queue = s.queue
  again : ∀ msg msg' remove remove' a, msg.isSome = msg'.isSome → remove &&& PM_REMOVE = 0 →
    a = Pump.peekMessageW ⟨s, none⟩ none order msg hwnd remove →
    (a.pump.peekMessageW none order msg' hwnd remove').msg = a.msg ∧
      (a.pump.peekMessageW none order msg' hwnd remove').ret = a.ret
  get : ∀ msg msg' remove a, msg.isSome = msg'.isSome → remove &&& PM_REMOVE = 0 →
    a = Pump.peekMessageW ⟨s, none⟩ none order msg hwnd remove → a.ret = 1 →
    ∀ events, ∃ b, a.pump.getMessageW order msg' hwnd (none :: events) = some b ∧ b.msg = a.msg ∧ b.ret = a.ret

/-- The window whose queue is asked: that of the filter, or the first in the order that has a message. -/
def State.giver (s : State) (hwndFilter : Option Hwnd) (order : List Hwnd) : Option Hwnd :=
  match hwndFilter with
  | some h => some h
  | none => order.find? fun h => !(s.messages h).isEmpty

/-- The messages of the window that is asked are for this window, and all the same. -/
def State.Uniform (s : State) (hwndFilter : Option Hwnd) (order : List Hwnd) : Prop :=
  ∀ h, s.giver hwndFilter order = some h →
    ∀ m ∈ s.messages h, m.hwnd = h ∧ (s.messages h).head? = some m

/-! ### Queues -/

section

variable {s : State} {h h' : Hwnd} {m : PendingMsg} {q : List PendingMsg}

theorem State.queue_insert (w : WindowEntry) :
    State.queue { s with windows := s.windows.insert h w } h' = if h' = h then some w.queue else s.queue h' := by
  unfold State.queue
  by_cases heq : h' = h
  · subst heq
    rw [if_pos rfl, AList.lookup_insert]
    rfl
  · rw [if_neg heq, AList.lookup_insert_ne heq]

theorem State.messages_eq (hq : s.queue h = some q) : s.messages h = q := by
  rw [State.messages, hq]
  rfl

theorem State.queue_of_mem_messages (hm : m ∈ s.messages h) : ∃ q, s.queue h = some q := by
  cases hq : s.queue h with
  | some q => exact ⟨q, rfl⟩
  | none =>
    rw [State.messages, hq] at hm
    cases hm

theorem State.popFrom_of_messages_nil (hq : s.messages h = []) : s.popFrom h = none := by
  unfold State.popFrom
  cases hl : s.windows.lookup h with
  | none => rfl
  | some w =>
    have hw : w.queue = [] := by
      rw [← hq, State.messages, State.queue, hl]
      rfl
    simp only [hw]

/-- A pop takes the message at the front and leaves the other queues alone. -/
theorem State.popFrom_of_messages_cons (hq : s.messages h = m :: q) :
    ∃ s', s.popFrom h = some (s', m) ∧ ∀ h', s'.queue h' = if h' = h then some q else s.queue h' := by
  unfold State.popFrom
  cases hl : s.windows.lookup h with
  | none =>
    rw [State.messages, State.queue, hl] at hq
    cases hq
  | some w =>
    have hw : w.queue = m :: q := by
      rw [← hq, State.messages, State.queue, hl]
      rfl
    simp only [hw]
    exact ⟨_, rfl, fun h' => State.queue_insert _⟩

/-- A post puts the message at the back, if the window is live. -/
theorem State.queue_postMessage (h' : Hwnd) :
    (s.postMessage m).1.queue h' = if h' = m.hwnd then (s.queue h').map (· ++ [m]) else s.queue h' := by
  unfold State.postMessage
  cases hl : s.windows.lookup m.hwnd with
  | none =>
    by_cases heq : h' = m.hwnd
    · subst heq
      simp only [State.queue, hl, if_true, Option.map_none]
    · simp only [if_neg heq]
  | some w =>
    simp only [State.queue_insert]
    by_cases heq : h' = m.hwnd
    · subst heq
      simp only [if_true, State.queue, hl, Option.map_some]
    · simp only [if_neg heq]

theorem findSome_popFrom (s : State) (order : List Hwnd) :
    order.findSome? s.popFrom = (s.giver none order).bind s.popFrom := by
  unfold State.giver
  induction order with
  | nil => rfl
  | cons h order ih =>
    rw [List.findSome?_cons, List.find?_cons]
    cases hq : s.messages h with
    | nil =>
      rw [State.popFrom_of_messages_nil hq]
      exact ih
    | cons m q =>
      obtain ⟨s', hpop, -⟩ := State.popFrom_of_messages_cons hq
      simp only [List.isEmpty_cons, Bool.not_false, Option.bind_some, hpop]

end

/-! ### Popping and peeking -/

section

variable {s s' : State} {filter : Option Hwnd} {order : List Hwnd}

theorem State.popMessage_eq (s : State) (filter : Option Hwnd) (order : List Hwnd) :
    s.popMessage filter order =
      match (s.giver filter order).bind s.popFrom with
      | some (s', m) => (s', some m)
      | none => (s, none) := by
  unfold State.popMessage
  cases filter with
  | some h => rfl
  | none =>
    exact congrArg (fun popped : Option (State × PendingMsg) =>
      match popped with
      | some (s', m) => (s', some m)
      | none => (s, none)) (findSome_popFrom s order)

/-- A pop gives the head of the queue of the window that is asked, or changes nothing. -/
theorem State.popMessage_cases (s : State) (filter : Option Hwnd) (order : List Hwnd) :
    (s.popMessage filter order = (s, none) ∧ ∀ h, s.giver filter order = some h → s.messages h = []) ∨
      ∃ h m q s', s.giver filter order = some h ∧ s.messages h = m :: q ∧
        s.popMessage filter order = (s', some m) ∧
        ∀ h', s'.queue h' = if h' = h then some q else s.queue h' := by
  rw [State.popMessage_eq]
  cases hg : s.giver filter order with
  | none => exact .inl ⟨rfl, nofun⟩
  | some h =>
    cases hq : s.messages h with
    | nil =>
      left
      rw [Option.bind_some, State.popFrom_of_messages_nil hq]
      refine ⟨rfl, ?_⟩
      rintro h' ⟨⟩
      exact hq
    | cons m q =>
      right
      obtain ⟨s', hpop, hs'⟩ := State.popFrom_of_messages_cons hq
      rw [Option.bind_some, hpop]
      exact ⟨h, m, q, s', rfl, hq, rfl, hs'⟩

/-- The message that a pop would give, by the queues alone. -/
theorem State.popMessage_snd (s : State) (filter : Option Hwnd) (order : List Hwnd) :
    (s.popMessage filter order).2 = (s.giver filter order).bind fun h => (s.messages h).head? := by
  rcases s.popMessage_cases filter order with ⟨hpop, hnil⟩ | ⟨h, m, q, s', hg, hq, hpop, -⟩
  · rw [hpop]
    cases hg : s.giver filter order with
    | none => rfl
    | some h =>
      rw [Option.bind_some, hnil h hg]
      rfl
  · rw [hpop, hg, Option.bind_some, hq]
    rfl

theorem State.popMessage_snd_congr (hq : s'.queue = s.queue) (filter : Option Hwnd) (order : List Hwnd) :
    (s'.popMessage filter order).2 = (s.popMessage filter order).2 := by
  have hm : s'.messages = s.messages := by
    funext h
    rw [State.messages, State.messages, hq]
  have hg : s'.giver filter order = s.giver filter order := by
    unfold State.giver
    rw [hm]
  rw [State.popMessage_snd, State.popMessage_snd, hm, hg]

theorem peekMessageInline_snd (s : State) (filter : Option Hwnd) (order : List Hwnd) :
    (peekMessageInline s filter order).2 = (s.popMessage filter order).2 := by
  unfold peekMessageInline
  split
  case h_1 hpop => rw [hpop]
  case h_2 hpop => rw [hpop]

/-- Turning a list by one leaves it as it is only if all its elements are equal. -/
theorem append_singleton_eq_cons {α : Type*} {a : α} {l : List α} :
    l ++ [a] = a :: l ↔ ∀ b ∈ l, b = a := by
  induction l with
  | nil => simp
  | cons b l ih =>
    rw [List.cons_append, List.cons.injEq, List.forall_mem_cons]
    constructor
    · rintro ⟨rfl, h⟩
      exact ⟨rfl, ih.mp h⟩
    · rintro ⟨rfl, h⟩
      exact ⟨rfl, ih.mpr h⟩

/-- The queues after a peek. -/
theorem queue_peekMessageInline :
    (peekMessageInline s filter order).1.queue = s.queue ↔ s.Uniform filter order := by
  unfold peekMessageInline
  rcases s.popMessage_cases filter order with ⟨hpop, hnil⟩ | ⟨h, m, q, s', hg, hq, hpop, hs'⟩
  · rw [hpop]
    refine iff_of_true rfl fun h hg m hm => ?_
    rw [hnil h hg] at hm
    cases hm
  · obtain ⟨queue, hqueue⟩ := State.queue_of_mem_messages (s := s) (h := h) (m := m) (by simp [hq])
    obtain rfl : queue = m :: q := by rw [← State.messages_eq hqueue, hq]
    simp only [hpop]
    constructor
    · intro hsame h₁ hg₁ m₁ hm₁
      obtain rfl : h = h₁ := by simpa [hg] using hg₁
      have hback := congrFun hsame h
      rw [State.queue_postMessage, hs', hqueue, if_pos rfl] at hback
      -- posted elsewhere, the message is lost to this queue
      have hown : h = m.hwnd := by
        by_contra hne
        rw [if_neg hne, Option.some.injEq] at hback
        exact List.cons_ne_self m q hback.symm
      rw [if_pos hown, Option.map_some, Option.some.injEq, append_singleton_eq_cons] at hback
      rw [hq] at hm₁
      have hsame₁ : m₁ = m := by
        rcases List.mem_cons.mp hm₁ with rfl | hmem
        · rfl
        · exact hback m₁ hmem
      rw [hq, hsame₁]
      exact ⟨hown.symm, rfl⟩
    · intro huniform
      have hall : ∀ m' ∈ m :: q, m'.hwnd = h ∧ m = m' := by
        intro m' hm'
        have := huniform h hg m' (hq ▸ hm')
        rw [hq] at this
        exact ⟨this.1, by simpa using this.2⟩
      have hown : m.hwnd = h := (hall m List.mem_cons_self).1
      funext h'
      rw [State.queue_postMessage, hs']
      by_cases heq : h' = h
      · have hturn : q ++ [m] = m :: q :=
          append_singleton_eq_cons.mpr fun m' hm' => (hall m' (List.mem_cons_of_mem m hm')).2.symm
        rw [heq, if_pos hown.symm, if_pos rfl, hqueue, Option.map_some, hturn]
      · rw [hown, if_neg heq, if_neg heq]

end

/-! ### The calls -/

section

variable {s : State} {order : List Hwnd} {hwnd : Hwnd} {msg : Option Msg} {remove : BitVec 32}

/-- What a call reports about what it found. -/
def report (msg : Option Msg) : Option PendingMsg → Option Msg × BitVec 32
  | some m => (writeMsg msg m, 1)
  | none => (clearMsg msg, 0)

theorem report_congr {msg msg' : Option Msg} (h : msg.isSome = msg'.isSome) (found : Option PendingMsg) :
    report msg' found = report msg found := by
  cases msg <;> cases msg' <;> cases found <;> first | rfl | cases h

theorem peekMessageW_report :
    ((Pump.peekMessageW ⟨s, none⟩ none order msg hwnd remove).msg,
      (Pump.peekMessageW ⟨s, none⟩ none order msg hwnd remove).ret) =
      report msg (s.popMessage (hfilter hwnd) order).2 := by
  have hfound : (if remove &&& PM_REMOVE ≠ 0 then s.popMessage (hfilter hwnd) order
      else peekMessageInline s (hfilter hwnd) order).2 = (s.popMessage (hfilter hwnd) order).2 := by
    split
    · rfl
    · exact peekMessageInline_snd s _ order
  simp only [Pump.peekMessageW, pumpCocoaEventIntoQueue, hfound]
  cases (s.popMessage (hfilter hwnd) order).2 with
  | none => rfl
  | some m => rfl

theorem peekMessageW_pump (hr : remove &&& PM_REMOVE = 0) :
    (Pump.peekMessageW ⟨s, none⟩ none order msg hwnd remove).pump =
      ⟨(peekMessageInline s (hfilter hwnd) order).1, none⟩ := by
  simp only [Pump.peekMessageW, pumpCocoaEventIntoQueue, hr, ne_eq, not_true, if_false]
  cases (peekMessageInline s (hfilter hwnd) order).2 with
  | none => rfl
  | some m => rfl

theorem getMessageW_of_some {m : PendingMsg} (hm : (s.popMessage (hfilter hwnd) order).2 = some m)
    (events : List (Option (BitVec 64))) :
    Pump.getMessageW ⟨s, none⟩ order msg hwnd (none :: events) =
      some ⟨⟨(s.popMessage (hfilter hwnd) order).1, none⟩, writeMsg msg m, 1⟩ := by
  simp only [Pump.getMessageW, pumpCocoaEventIntoQueue]
  split
  case h_1 hpop =>
    rw [hpop, Option.some.injEq] at hm
    rw [hm, hpop]
  case h_2 hpop =>
    rw [hpop] at hm
    cases hm

end

/-- **Peeking without removal.**  It keeps the queues, and so what the next call reports, exactly when the
queue of the window that is asked is empty or has equal messages only. -/
theorem peeksRight_iff (s : State) (order : List Hwnd) (hwnd : Hwnd) :
    PeeksRight s order hwnd ↔ s.Uniform (hfilter hwnd) order := by
  constructor
  · intro h
    have hqueues := h.queues none 0 rfl
    rw [peekMessageW_pump rfl] at hqueues
    exact queue_peekMessageInline.mp hqueues
  · intro huniform
    have hsame := queue_peekMessageInline.mpr huniform
    have hfound := State.popMessage_snd_congr hsame (hfilter hwnd) order
    constructor
    · intro msg remove hr
      rw [peekMessageW_pump hr]
      exact hsame
    · rintro msg msg' remove remove' a hmsg hr rfl
      rw [peekMessageW_pump hr]
      have hfirst := @peekMessageW_report s order hwnd msg remove
      have hnext := @peekMessageW_report (peekMessageInline s (hfilter hwnd) order).1 order hwnd msg' remove'
      rw [hfound, report_congr hmsg, ← hfirst] at hnext
      exact Prod.mk.inj hnext
    · rintro msg msg' remove a hmsg hr rfl hret events
      rw [peekMessageW_pump hr]
      have hfirst := @peekMessageW_report s order hwnd msg remove
      cases hm : (s.popMessage (hfilter hwnd) order).2 with
      | none =>
        -- then the peek has returned 0
        rw [hm] at hfirst
        have hzero := (Prod.mk.inj hfirst).2
        rw [hret] at hzero
        cases hzero
      | some m =>
        rw [hm, ← report_congr hmsg] at hfirst
        refine ⟨_, getMessageW_of_some (hfound.trans hm) events, ?_⟩
        exact ⟨(Prod.mk.inj hfirst).1.symm, (Prod.mk.inj hfirst).2.symm⟩

/-- One window with two messages. -/
def twoPending : State :=
  let s := (State.new.createWindow "class" "title" 0).1
  let s := (s.postMessage ⟨firstHwnd, 0x100, 0x41, 0⟩).1
  (s.postMessage ⟨firstHwnd, 0x200, 0, 0⟩).1

theorem not_peeksRight_twoPending : ¬ ∀ s order hwnd, PeeksRight s order hwnd := by
  intro h
  have hqueues := congrFun ((h twoPending [firstHwnd] 0).queues none 0 rfl) firstHwnd
  revert hqueues
  decide +kernel

end Quantum.Kernel32.Windows
