import Mathlib.Data.Finset.Card
import Mathlib.Data.List.Nodup
import Mathlib.Data.Prod.Lex
import Mathlib.Order.WellFounded

/-!
# Worklist closures

The loop that explores a graph with a stack of pending nodes and a set of seen ones.  `expand n` is
what a node gives when it is visited: nothing, or a result and the nodes it leads to, or an error, which
ends the loop.  A node is expanded the first time it is popped; nodes that were seen before are dropped.

* `run_terminates`: the loop ends when only finitely many of the nodes it can reach expand;
* `run_nodup`: no node is expanded twice;
* `mem_run_iff`: the nodes expanded are exactly the expandable ones that can be reached from the
  roots through expanded nodes;
* `exists_of_run_error`, `expand_ok_of_run`: the loop ends in an error exactly if a node that it can
  reach gives one.
-/

namespace Quantum.Worklist

variable {α β ε : Type} [DecidableEq α]

/-- The state of the loop.  The head of `work` is the node that is popped next. -/
structure State (α β : Type) where
  out : List (α × β)
  seen : List α
  work : List α

/-- Push the nodes that have not been seen, one after the other. -/
def pushAll (seen : List α) (nodes work : List α) : List α :=
  nodes.foldl (fun w n => if n ∈ seen then w else n :: w) work

/-- The state after the node `n` has been expanded, with `work` what is left. -/
def visited (s : State α β) (n : α) (work : List α) : Option (β × List α) → State α β
  | none => { s with seen := n :: s.seen, work := work }
  | some (b, nodes) =>
    { out := s.out ++ [(n, b)]
      seen := n :: s.seen
      work := pushAll (n :: s.seen) nodes work }

/-- Visit the node `n`, with `work` what is left. -/
def visit (expand : α → Except ε (Option (β × List α))) (s : State α β) (n : α) (work : List α) :
    Except ε (State α β) :=
  if n ∈ s.seen then .ok { s with work := work }
  else (expand n).map (visited s n work)

/-- The loop, for at most `fuel` rounds. -/
def run (expand : α → Except ε (Option (β × List α))) : Nat → State α β → Option (Except ε (List (α × β)))
  | 0, _ => none
  | fuel + 1, s =>
    match s.work with
    | [] => some (.ok s.out)
    | n :: work =>
      match visit expand s n work with
      | .error x => some (.error x)
      | .ok s => run expand fuel s

/-- The nodes that can be reached from the roots through nodes that expand. -/
inductive Reach (expand : α → Except ε (Option (β × List α))) (roots : List α) : α → Prop
  | root {n : α} : n ∈ roots → Reach expand roots n
  | step {n m : α} {b : β} {nodes : List α} :
    Reach expand roots n → expand n = .ok (some (b, nodes)) → m ∈ nodes → Reach expand roots m

theorem mem_pushAll {seen nodes work : List α} {m : α} :
    m ∈ pushAll seen nodes work ↔ m ∈ work ∨ (m ∈ nodes ∧ m ∉ seen) := by
  unfold pushAll
  induction nodes generalizing work with
  | nil => simp
  | cons n nodes ih =>
    rw [List.foldl_cons, ih]
    by_cases hn : n ∈ seen
    · rw [if_pos hn]
      constructor
      · rintro (h | h)
        · exact .inl h
        · exact .inr ⟨List.mem_cons_of_mem _ h.1, h.2⟩
      · rintro (h | ⟨h, hs⟩)
        · exact .inl h
        · rcases List.mem_cons.mp h with rfl | h
          · exact absurd hn hs
          · exact .inr ⟨h, hs⟩
    · rw [if_neg hn, List.mem_cons, List.mem_cons]
      constructor
      · rintro ((rfl | h) | h)
        · exact .inr ⟨.inl rfl, hn⟩
        · exact .inl h
        · exact .inr ⟨.inr h.1, h.2⟩
      · rintro (h | ⟨rfl | h, hs⟩)
        · exact .inl (.inr h)
        · exact .inl (.inl rfl)
        · exact .inr ⟨h, hs⟩

/-! ### The invariant of the loop -/

variable {expand : α → Except ε (Option (β × List α))} {roots : List α}

/-- What holds between rounds. -/
structure Inv (expand : α → Except ε (Option (β × List α))) (roots : List α) (s : State α β) : Prop where
  /-- What was seen or is pending can be reached. -/
  sound : ∀ n, n ∈ s.seen ∨ n ∈ s.work → Reach expand roots n
  /-- The roots are seen or pending, and so is what an expanded node leads to. -/
  roots_mem : ∀ n ∈ roots, n ∈ s.seen ∨ n ∈ s.work
  closed : ∀ n ∈ s.seen, ∀ b nodes, expand n = .ok (some (b, nodes)) →
    ∀ m ∈ nodes, m ∈ s.seen ∨ m ∈ s.work
  /-- No seen node gave an error. -/
  seen_ok : ∀ n ∈ s.seen, ∃ r, expand n = .ok r
  /-- The results are those of the seen nodes. -/
  out_iff : ∀ n b, (n, b) ∈ s.out ↔ n ∈ s.seen ∧ ∃ nodes, expand n = .ok (some (b, nodes))
  nodup : (s.out.map Prod.fst).Nodup

omit [DecidableEq α] in
theorem inv_init (work : List α) (h : ∀ n, n ∈ work ↔ n ∈ roots) :
    Inv expand roots (⟨[], [], work⟩ : State α β) := by
  refine ⟨fun n hn => ?_, fun n hn => .inr ((h n).mpr hn), ?_, ?_, ?_, ?_⟩
  · rcases hn with hn | hn
    · cases hn
    · exact .root ((h n).mp hn)
  · intro n hn
    cases hn
  · intro n hn
    cases hn
  · intro n b
    simp
  · exact List.nodup_nil

section Visit

variable {s : State α β} {n : α} {work : List α}

omit [DecidableEq α] in
theorem Inv.reach_head (h : Inv expand roots s) (hw : s.work = n :: work) : Reach expand roots n :=
  h.sound n (.inr (by rw [hw]; exact List.mem_cons_self))

omit [DecidableEq α] in
/-- A node that was seen before is only dropped from the work. -/
theorem Inv.drop (h : Inv expand roots s) (hw : s.work = n :: work) (hseen : n ∈ s.seen) :
    Inv expand roots { s with work := work } := by
  have hmove : ∀ m, m ∈ s.seen ∨ m ∈ s.work → m ∈ s.seen ∨ m ∈ work := by
    intro m hm
    rw [hw, List.mem_cons] at hm
    rcases hm with hm | rfl | hm
    · exact .inl hm
    · exact .inl hseen
    · exact .inr hm
  refine ⟨fun m hm => h.sound m ?_, fun m hm => hmove m (h.roots_mem m hm), ?_, h.seen_ok, h.out_iff, h.nodup⟩
  · rw [hw, List.mem_cons]
    exact hm.imp id .inr
  · exact fun m hm b nodes he c hc => hmove c (h.closed m hm b nodes he c hc)

theorem Inv.visited_none (h : Inv expand roots s) (hw : s.work = n :: work) (hexp : expand n = .ok none) :
    Inv expand roots (visited s n work none) := by
  have hmove : ∀ m, m ∈ s.seen ∨ m ∈ s.work → m ∈ n :: s.seen ∨ m ∈ work := by
    intro m hm
    rw [hw, List.mem_cons] at hm
    rw [List.mem_cons]
    tauto
  refine ⟨fun m hm => ?_, fun m hm => hmove m (h.roots_mem m hm), ?_, ?_, ?_, h.nodup⟩
  · simp only [visited, List.mem_cons] at hm
    rcases hm with (rfl | hm) | hm
    · exact h.reach_head hw
    · exact h.sound m (.inl hm)
    · exact h.sound m (.inr (by rw [hw]; exact List.mem_cons_of_mem _ hm))
  · intro m hm b nodes he c hc
    rcases List.mem_cons.mp hm with rfl | hm
    · rw [hexp] at he
      cases he
    · exact hmove c (h.closed m hm b nodes he c hc)
  · intro m hm
    rcases List.mem_cons.mp hm with rfl | hm
    · exact ⟨_, hexp⟩
    · exact h.seen_ok m hm
  · intro m b
    simp only [visited, h.out_iff, List.mem_cons]
    constructor
    · exact fun hm => ⟨.inr hm.1, hm.2⟩
    · rintro ⟨rfl | hm, nodes, he⟩
      · rw [hexp] at he
        cases he
      · exact ⟨hm, nodes, he⟩

theorem Inv.visited_some {b : β} {nodes : List α} (h : Inv expand roots s) (hw : s.work = n :: work)
    (hseen : n ∉ s.seen) (hexp : expand n = .ok (some (b, nodes))) :
    Inv expand roots (visited s n work (some (b, nodes))) := by
  have hmove : ∀ m, m ∈ s.seen ∨ m ∈ s.work → m ∈ n :: s.seen ∨ m ∈ pushAll (n :: s.seen) nodes work := by
    intro m hm
    rw [hw, List.mem_cons] at hm
    rw [List.mem_cons, mem_pushAll]
    tauto
  have hfresh : n ∉ s.out.map Prod.fst := by
    rintro hmem
    obtain ⟨⟨m, c⟩, hm, rfl⟩ := List.mem_map.mp hmem
    exact hseen ((h.out_iff m c).mp hm).1
  refine ⟨fun m hm => ?_, fun m hm => hmove m (h.roots_mem m hm), ?_, ?_, ?_, ?_⟩
  · simp only [visited, List.mem_cons, mem_pushAll] at hm
    rcases hm with (rfl | hm) | hm | ⟨hm, -⟩
    · exact h.reach_head hw
    · exact h.sound m (.inl hm)
    · exact h.sound m (.inr (by rw [hw]; exact List.mem_cons_of_mem _ hm))
    · exact (h.reach_head hw).step hexp hm
  · intro m hm c ms he x hx
    rcases List.mem_cons.mp hm with rfl | hm
    · rw [hexp] at he
      cases he
      by_cases hxs : x ∈ m :: s.seen
      · exact .inl hxs
      · exact .inr (mem_pushAll.mpr (.inr ⟨hx, hxs⟩))
    · exact hmove x (h.closed m hm c ms he x hx)
  · intro m hm
    rcases List.mem_cons.mp hm with rfl | hm
    · exact ⟨_, hexp⟩
    · exact h.seen_ok m hm
  · intro m c
    simp only [visited, List.mem_append, h.out_iff, List.mem_cons, List.not_mem_nil, or_false,
      Prod.mk.injEq]
    constructor
    · rintro (hm | ⟨rfl, rfl⟩)
      · exact ⟨.inr hm.1, hm.2⟩
      · exact ⟨.inl rfl, nodes, hexp⟩
    · rintro ⟨rfl | hm, ms, he⟩
      · rw [hexp] at he
        cases he
        exact .inr ⟨rfl, rfl⟩
      · exact .inl ⟨hm, ms, he⟩
  · simp only [visited, List.map_append]
    rw [List.nodup_append]
    refine ⟨h.nodup, List.nodup_singleton _, ?_⟩
    rintro x hx y hy rfl
    obtain rfl : x = n := by simpa using hy
    exact hfresh hx

/-- What a visit does: drop the node, expand it, or end in its error. -/
theorem visit_cases (expand : α → Except ε (Option (β × List α))) (s : State α β) (n : α) (work : List α) :
    (n ∈ s.seen ∧ visit expand s n work = .ok { s with work := work }) ∨
    (n ∉ s.seen ∧ ∃ r, expand n = .ok r ∧ visit expand s n work = .ok (visited s n work r)) ∨
    (n ∉ s.seen ∧ ∃ x, expand n = .error x ∧ visit expand s n work = .error x) := by
  unfold visit
  by_cases hseen : n ∈ s.seen
  · exact .inl ⟨hseen, if_pos hseen⟩
  · rw [if_neg hseen]
    cases hexp : expand n with
    | ok r => exact .inr (.inl ⟨hseen, r, rfl, rfl⟩)
    | error x => exact .inr (.inr ⟨hseen, x, rfl, rfl⟩)

theorem Inv.visit {s' : State α β} (h : Inv expand roots s) (hw : s.work = n :: work)
    (hv : visit expand s n work = .ok s') : Inv expand roots s' := by
  rcases visit_cases expand s n work with ⟨hseen, heq⟩ | ⟨hseen, r, hexp, heq⟩ | ⟨-, x, -, heq⟩
  · rw [heq] at hv
    cases hv
    exact h.drop hw hseen
  · rw [heq] at hv
    cases hv
    cases r with
    | none => exact h.visited_none hw hexp
    | some q => exact h.visited_some hw hseen hexp
  · rw [heq] at hv
    cases hv

end Visit

/-! ### The end of the loop -/

/-- The loop keeps the invariant.  It ends with no work left, or at a node that gives an error. -/
theorem run_inv {fuel : Nat} {s : State α β} {r : Except ε (List (α × β))} (h : Inv expand roots s)
    (hr : run expand fuel s = some r) :
    (∃ s', Inv expand roots s' ∧ s'.work = [] ∧ r = .ok s'.out) ∨
    ∃ n x, Reach expand roots n ∧ expand n = .error x ∧ r = .error x := by
  induction fuel generalizing s with
  | zero => cases hr
  | succ fuel ih =>
    unfold run at hr
    split at hr
    · rename_i hw
      exact .inl ⟨s, h, hw, (Option.some.inj hr).symm⟩
    · rename_i n work hw
      rcases visit_cases expand s n work with ⟨-, heq⟩ | ⟨-, q, -, heq⟩ | ⟨-, x, hexp, heq⟩
      · rw [heq] at hr
        exact ih (h.visit hw heq) hr
      · rw [heq] at hr
        exact ih (h.visit hw heq) hr
      · rw [heq] at hr
        exact .inr ⟨n, x, h.reach_head hw, hexp, (Option.some.inj hr).symm⟩

/-- The loop ends in the error of a node that it reaches. -/
theorem exists_of_run_error {fuel : Nat} {s : State α β} {x : ε} (h : Inv expand roots s)
    (hr : run expand fuel s = some (.error x)) : ∃ n, Reach expand roots n ∧ expand n = .error x := by
  rcases run_inv h hr with ⟨s', -, -, heq⟩ | ⟨n, y, hn, hexp, heq⟩
  · cases heq
  · cases heq
    exact ⟨n, hn, hexp⟩

section Result

variable {fuel : Nat} {s : State α β} {out : List (α × β)}

/-- A loop that ends with a result has seen all that can be reached. -/
theorem exists_of_run_ok (h : Inv expand roots s) (hr : run expand fuel s = some (.ok out)) :
    ∃ s', Inv expand roots s' ∧ s'.out = out ∧ ∀ n, Reach expand roots n → n ∈ s'.seen := by
  rcases run_inv h hr with ⟨s', hs', hwork, heq⟩ | ⟨n, x, -, -, heq⟩
  · cases heq
    refine ⟨s', hs', rfl, fun n hn => ?_⟩
    -- with no work left, everything reachable has been seen
    induction hn with
    | root hr =>
      rcases hs'.roots_mem _ hr with hs | hw
      · exact hs
      · rw [hwork] at hw
        cases hw
    | step _ he hm ih =>
      rcases hs'.closed _ ih _ _ he _ hm with hs | hw
      · exact hs
      · rw [hwork] at hw
        cases hw
  · cases heq

theorem run_nodup (h : Inv expand roots s) (hr : run expand fuel s = some (.ok out)) :
    (out.map Prod.fst).Nodup := by
  obtain ⟨s', hs', rfl, -⟩ := exists_of_run_ok h hr
  exact hs'.nodup

/-- No node that can be reached gives an error. -/
theorem expand_ok_of_run (h : Inv expand roots s) (hr : run expand fuel s = some (.ok out)) {n : α}
    (hn : Reach expand roots n) : ∃ r, expand n = .ok r := by
  obtain ⟨s', hs', -, hall⟩ := exists_of_run_ok h hr
  exact hs'.seen_ok n (hall n hn)

/-- The results are those of the reachable nodes that expand. -/
theorem mem_run_iff (h : Inv expand roots s) (hr : run expand fuel s = some (.ok out)) (n : α) (b : β) :
    (n, b) ∈ out ↔ Reach expand roots n ∧ ∃ nodes, expand n = .ok (some (b, nodes)) := by
  obtain ⟨s', hs', rfl, hall⟩ := exists_of_run_ok h hr
  rw [hs'.out_iff]
  exact ⟨fun hn => ⟨hs'.sound n (.inl hn.1), hn.2⟩, fun hn => ⟨hall n hn.1, hn.2⟩⟩

end Result

/-- More fuel gives the same result. -/
theorem run_mono {fuel : Nat} {s : State α β} {r : Except ε (List (α × β))}
    (h : run expand fuel s = some r) (k : Nat) : run expand (fuel + k) s = some r := by
  induction fuel generalizing s with
  | zero => cases h
  | succ fuel ih =>
    rw [show fuel + 1 + k = fuel + k + 1 by omega]
    unfold run at h ⊢
    split at h
    · exact h
    · split at h
      · exact h
      · exact ih h

/-- The nodes of `nodes` that have not been seen. -/
def fresh (nodes : Finset α) (s : State α β) : Nat :=
  (nodes.filter fun n => n ∉ s.seen).card

/-- A round makes progress: fewer expandable nodes are unseen, or as many and less work. -/
theorem visit_progress {nodes : Finset α} {s s' : State α β} {n : α} {work : List α} (hw : s.work = n :: work)
    (hfin : ∀ q, expand n = .ok (some q) → n ∈ nodes) (hv : visit expand s n work = .ok s') :
    fresh nodes s' < fresh nodes s ∨
    fresh nodes s' ≤ fresh nodes s ∧ s'.work.length < s.work.length := by
  have hlen : work.length < s.work.length := by
    rw [hw, List.length_cons]
    omega
  have hsub : nodes.filter (fun m => m ∉ n :: s.seen) ⊆ nodes.filter (fun m => m ∉ s.seen) := by
    intro m hm
    simp only [Finset.mem_filter, List.mem_cons, not_or] at hm ⊢
    exact ⟨hm.1, hm.2.2⟩
  rcases visit_cases expand s n work with ⟨-, heq⟩ | ⟨hseen, r, hexp, heq⟩ | ⟨-, x, -, heq⟩
  · rw [heq] at hv
    cases hv
    exact .inr ⟨le_refl _, hlen⟩
  · rw [heq] at hv
    cases hv
    cases r with
    | none => exact .inr ⟨Finset.card_le_card hsub, hlen⟩
    | some q =>
      refine .inl (Finset.card_lt_card ⟨hsub, fun hc => ?_⟩)
      have hmem : n ∈ nodes.filter (fun m => m ∉ s.seen) := Finset.mem_filter.mpr ⟨hfin q hexp, hseen⟩
      have := hc hmem
      simp [visited] at this
  · rw [heq] at hv
    cases hv

/-- The loop ends when only the nodes of a finite set expand, among those it can reach. -/
theorem run_terminates {nodes : Finset α}
    (hfin : ∀ n, Reach expand roots n → ∀ q, expand n = .ok (some q) → n ∈ nodes) {s : State α β}
    (h : Inv expand roots s) : ∃ fuel r, run expand fuel s = some r := by
  generalize hf : fresh nodes s = f
  induction f using Nat.strong_induction_on generalizing s with
  | _ f ihf =>
    generalize hl : s.work.length = l
    induction l using Nat.strong_induction_on generalizing s f with
    | _ l ihl =>
      cases hw : s.work with
      | nil => exact ⟨1, .ok s.out, by rw [run, hw]⟩
      | cons n work =>
        cases hv : visit expand s n work with
        | error x => exact ⟨1, .error x, by rw [run, hw]; dsimp only; rw [hv]⟩
        | ok s' =>
          have hinv := h.visit hw hv
          have hgo : ∃ fuel r, run expand fuel s' = some r := by
            rcases visit_progress hw (hfin n (h.reach_head hw)) hv with hlt | ⟨hle, hlt⟩
            · exact ihf _ (hf ▸ hlt) hinv rfl
            · rcases Nat.lt_or_eq_of_le hle with hlt' | heq
              · exact ihf _ (hf ▸ hlt') hinv rfl
              · exact ihl _ (hl ▸ hlt) f ihf hinv (heq.trans hf) rfl
          obtain ⟨fuel, r, hrun⟩ := hgo
          exact ⟨fuel + 1, r, by rw [run, hw]; dsimp only; rw [hv]; exact hrun⟩

end Quantum.Worklist
