import Quantum.Jit.Equiv.Labels

/-!
# Finishing more than once

`finish` takes the fixups out of the emitter before it checks any of them.  When one fails, it and the ones
behind it are gone, and their branches keep the offset zero.

A run of calls is laid out twice: once with every branch symbolic, and once with the branches that have been
through `finish` as the words they were left with.  The second layout is the one that the emitter follows
(`CodeLayout.Agrees`), since `finish` leaves no fixup.  Between the two, a branch is either still symbolic, or
it leads to its label, or it is lost; `run_layouts` carries such a relation through a run.
-/

namespace Quantum.Jit

open A64

variable {ε : Type} {p : Profile}

/-! ### Runs -/

inductive EmitterCall where
  | op (o : EmitOp)
  | finish

/-- A call.  What `finish` returns is the caller's affair. -/
def EmitterCall.run : EmitterCall → EmitM ε Unit
  | .op o => o.emit
  | .finish => fun _ e => .ok ((), e.finish.2)

def callAll : List EmitterCall → EmitM ε Unit
  | [] => pure ()
  | c :: cs => do
    c.run
    callAll cs

/-- The emissions of a run, with every branch symbolic. -/
def CodeLayout.call (H : CodeLayout) : EmitterCall → CodeLayout
  | .op o => H.place o
  | .finish => H

def emissions (calls : List EmitterCall) : CodeLayout := calls.foldl CodeLayout.call .new

/-- The branch at the index `i` leads to its label. -/
def CodeLayout.LedTo (H : CodeLayout) (code : List Word) (i : Nat) (br : Branch) (l : Label) : Prop :=
  ∃ n w, H.bound l = some n ∧ code[i]? = some w ∧ br.LeadsTo w i n

/-- Whenever `finish` succeeds in a run, every branch emitted so far leads to its label. -/
def HonestFinishes (ε : Type) (p : Profile) (calls : List EmitterCall) : Prop :=
  ∀ pre post e, calls = pre ++ .finish :: post →
    (callAll pre : EmitM ε Unit) p .new = .ok ((), e) → e.finish.1 = .ok () →
    ∀ i br l, (emissions pre).items[i]? = some (.branch br l) →
      (emissions pre).LedTo e.finish.2.code i br l

/-- Every fixup has its label bound within reach. -/
def Emitter.Ready (e : Emitter) : Prop :=
  ∀ f ∈ e.fixups, ∃ n, (e.labels[f.label]?).join = some n ∧ f.kind.Fits ((n : Int) - f.wordIndex)

theorem finish_ok_iff_ready (e : Emitter) : e.finish.1 = .ok () ↔ e.Ready :=
  finishLoop_ok_iff e.labels e.fixups e.code

theorem callAll_append {cs ds : List EmitterCall} {e e₁ : Emitter}
    (h : (callAll cs : EmitM ε Unit) p e = .ok ((), e₁)) :
    (callAll (cs ++ ds) : EmitM ε Unit) p e = (callAll ds : EmitM ε Unit) p e₁ := by
  induction cs generalizing e with
  | nil =>
    cases h
    rfl
  | cons c cs ih =>
    obtain ⟨u, e', hc, hrest⟩ := bind_eq_ok h
    rw [List.cons_append, callAll]
    simp only [bind, hc]
    exact ih hrest

/-! ### A branch that is not patched -/

namespace Branch

theorem decode_base (br : Branch) : decode br.base = some (br.insn 0) := by
  have h26 : (bitField 0 (0 : BitVec 26) : Word) = 0#32 := rfl
  have h19 : (bitField 5 (0 : BitVec 19) : Word) = 0#32 := rfl
  have h14 : (bitField 5 (0 : BitVec 14) : Word) = 0#32 := rfl
  cases br with
  | b =>
    have h := decode_b 0
    rwa [h26, BitVec.or_zero] at h
  | bl =>
    have h := decode_bl 0
    rwa [h26, BitVec.or_zero] at h
  | bCond cond =>
    have h := decode_bCond cond 0
    rwa [h19, BitVec.or_zero] at h
  | cbz64 rt =>
    have h := decode_cbz rt 0
    rwa [h19, BitVec.or_zero] at h
  | cbnz64 rt =>
    have h := decode_cbnz rt 0
    rwa [h19, BitVec.or_zero] at h
  | tbz rt bit =>
    have h := decode_testBit rt 0 bit 0
    rwa [h14, BitVec.or_zero] at h
  | tbnz rt bit =>
    have h := decode_testBit rt 1 bit 0
    rwa [h14, BitVec.or_zero] at h

theorem insn_injective (br : Branch) : Function.Injective br.insn := by
  intro x y h
  cases br <;> injection h

/-- A branch that is not patched leads to itself. -/
theorem eq_of_leadsTo_base {br : Branch} {i n : Nat} (h : br.LeadsTo br.base i n) : n = i := by
  obtain ⟨imm, hdec, hn⟩ := h
  rw [br.decode_base, Option.some.injEq] at hdec
  obtain rfl := br.insn_injective hdec
  have hzero : (0 : BitVec br.kind.width).toInt = 0 := BitVec.toInt_zero
  omega

end Branch

/-- Zero is within the reach of every branch. -/
theorem FixupKind.fits_zero (kind : FixupKind) : kind.Fits 0 := by
  cases kind <;> decide

/-! ### What finishing leaves -/

/-- When finishing fails, the word of some fixup stays as it was. -/
theorem finishLoop_failed {labels : List (Option Nat)} {fs : List Fixup} {code : List Word}
    (hnodup : (fs.map Fixup.wordIndex).Nodup) (h : (Emitter.finishLoop labels fs code).1 ≠ .ok ()) :
    ∃ f ∈ fs, (Emitter.finishLoop labels fs code).2[f.wordIndex]? = code[f.wordIndex]? := by
  induction fs generalizing code with
  | nil => exact absurd rfl h
  | cons f fs ih =>
    rw [List.map_cons, List.nodup_cons] at hnodup
    rw [Emitter.finishLoop] at h ⊢
    cases hn : (labels[f.label]?).join with
    | none => exact ⟨f, List.mem_cons_self, rfl⟩
    | some n =>
      cases hw : Emitter.patchBranch (code.getD f.wordIndex 0) f.kind ((n : Int) - f.wordIndex) with
      | error x => exact ⟨f, List.mem_cons_self, by simp only [hw]⟩
      | ok w =>
        -- this fixup is patched, and the failure is in the rest
        simp only [hn, hw] at h ⊢
        obtain ⟨g, hg, hget⟩ := ih hnodup.2 h
        have hne : f.wordIndex ≠ g.wordIndex := fun heq => hnodup.1 (heq ▸ List.mem_map_of_mem hg)
        exact ⟨g, List.mem_cons_of_mem f hg, hget.trans (List.getElem?_set_ne hne)⟩

namespace CodeLayout

variable {H L : CodeLayout} {e e' : Emitter}

/-- The layout of an emitter without fixups: the words that it holds. -/
def settled (e : Emitter) : CodeLayout := ⟨e.code.map .word, e.labels⟩

theorem settled_word (e : Emitter) (i : Nat) :
    (settled e).items[i]? = (e.code[i]?).map Item.word :=
  List.getElem?_map

/-- No fixup is left, so the emitter follows the words it holds. -/
theorem Agrees.finish (h : L.Agrees e) : (settled e.finish.2).Agrees e.finish.2 := by
  have hlen : e.finish.2.code.length = e.code.length := (finishLoop_stay e.labels e.fixups e.code).1
  have hno : ∀ (i : Nat) br l, (settled e.finish.2).items[i]? ≠ some (Item.branch br l) := by
    intro i br l hi
    rw [settled_word, Option.map_eq_some_iff] at hi
    obtain ⟨w, -, hw⟩ := hi
    cases hw
  constructor
  -- the layout has words only, so the fields about branches and fixups say nothing
  case labels => rfl
  case length => rw [settled, List.length_map]
  case bound_le =>
    intro l n hn
    have hbound : L.bound l = some n := by
      rw [bound, ← h.labels]
      exact hn
    have hle := h.bound_le l n hbound
    rw [settled, List.length_map, hlen, h.length]
    exact hle
  case word =>
    intro i w hi
    rw [settled_word, Option.map_eq_some_iff] at hi
    obtain ⟨w', hw', heq⟩ := hi
    cases heq
    exact hw'
  case back => exact fun i br l n hi => absurd hi (hno i br l)
  case forward => exact fun i br l hi => absurd hi (hno i br l)
  case fixup => exact fun f hf => absurd hf (List.not_mem_nil)
  case distinct => exact List.nodup_nil

/-- A call that succeeds is one that may come next. -/
theorem Agrees.allows {o : EmitOp} (h : L.Agrees e)
    (hrun : (o.emit : EmitM ε Unit) p e = .ok ((), e')) : L.Allows o := by
  cases o with
  | makeLabel => exact trivial
  | word w => exact trivial
  | bindLabel l =>
    rw [Allows, ← h.labels]
    rw [EmitOp.emit, EmitM.bindLabel] at hrun
    split at hrun
    · cases hrun
    · cases hrun
    · assumption
  | branch br l =>
    -- a label that does not exist is not found, and a bound one out of reach is refused at once
    rw [EmitOp.emit, br.emit_eq, EmitM.emitBranch, h.labels] at hrun
    cases hl : L.labels[l.id]? with
    | none =>
      rw [hl] at hrun
      cases hrun
    | some slot =>
      refine ⟨(List.getElem?_eq_some_iff.mp hl).1, fun n hn => ?_⟩
      obtain rfl : slot = some n := by
        rw [bound, hl] at hn
        exact hn
      rw [hl, h.length] at hrun
      by_contra hfits
      simp only [patchBranch_of_not_fits _ hfits] at hrun
      cases hrun

/-! ### The two layouts of a run -/

/-- The items that a call appends. -/
def added : EmitOp → List Item
  | .makeLabel | .bindLabel _ => []
  | .branch br l => [.branch br l]
  | .word w => [.word w]

theorem items_place (L : CodeLayout) (o : EmitOp) : (L.place o).items = L.items ++ added o := by
  cases o with
  | makeLabel | bindLabel l => exact (List.append_nil _).symm
  | branch br l | word w => rfl

/-- What is bound stays bound where it is. -/
theorem bound_place {o : EmitOp} {l : Label} {n : Nat} (ho : L.Allows o) (h : L.bound l = some n) :
    (L.place o).bound l = some n := by
  cases o with
  | makeLabel => exact (bound_makeLabel L l).trans h
  | branch br l' | word w => exact h
  | bindLabel l' =>
    by_cases heq : l'.id = l.id
    · -- the label was not bound before
      rw [bound, ← heq, ho] at h
      cases h
    · rwa [bound_bindLabel_of_ne heq]

/-- A label is bound where it was, or at the end of the items. -/
theorem bound_of_bound_place {o : EmitOp} {l : Label} {n : Nat} (ho : L.Allows o)
    (h : (L.place o).bound l = some n) : L.bound l = some n ∨ n = L.items.length := by
  cases o with
  | makeLabel => exact .inl ((bound_makeLabel L l).symm.trans h)
  | branch br l' | word w => exact .inl h
  | bindLabel l' => exact bound_bindLabel ho h

/-- `L` lays out the emissions `H`, some of the branches as words. -/
structure Covers (H L : CodeLayout) : Prop where
  labels : L.labels = H.labels
  length : L.items.length = H.items.length
  branch : ∀ (i : Nat) br l, L.items[i]? = some (Item.branch br l) → H.items[i]? = some (Item.branch br l)

theorem Covers.bound (h : Covers H L) (l : Label) : L.bound l = H.bound l := by
  rw [CodeLayout.bound, h.labels, CodeLayout.bound]

theorem Covers.allows {o : EmitOp} (h : Covers H L) (ho : L.Allows o) : H.Allows o := by
  cases o with
  | makeLabel | word w => exact trivial
  | bindLabel l =>
    rw [Allows, ← h.labels]
    exact ho
  | branch br l =>
    rw [Allows, ← h.labels, ← h.length, ← h.bound]
    exact ho

/-- An item after a call: one of before in both layouts, or the same new one. -/
theorem Covers.getElem?_place (h : Covers H L) (o : EmitOp) (i : Nat) :
    (i < H.items.length ∧ (H.place o).items[i]? = H.items[i]? ∧ (L.place o).items[i]? = L.items[i]?) ∨
      (L.place o).items[i]? = (H.place o).items[i]? := by
  rw [items_place, items_place]
  rcases Nat.lt_or_ge i H.items.length with hlt | hge
  · have hlt' : i < L.items.length := h.length ▸ hlt
    exact .inl ⟨hlt, List.getElem?_append_left hlt, List.getElem?_append_left hlt'⟩
  · have hge' : L.items.length ≤ i := h.length ▸ hge
    rw [List.getElem?_append_right hge, List.getElem?_append_right hge', h.length]
    exact .inr rfl

theorem Covers.place {o : EmitOp} (h : Covers H L) : Covers (H.place o) (L.place o) where
  labels := by
    cases o with
    | makeLabel => exact congrArg (· ++ [none]) h.labels
    | bindLabel l => rw [CodeLayout.place, CodeLayout.place, h.labels, h.length]
    | branch br l | word w => exact h.labels
  length := by rw [items_place, items_place, List.length_append, List.length_append, h.length]
  branch i br l hi := by
    rcases h.getElem?_place o i with ⟨-, hH, hL⟩ | hsame
    · rw [hL] at hi
      exact hH.trans (h.branch i br l hi)
    · exact hsame.symm.trans hi

theorem Covers.finish (h : Covers H L) (ha : L.Agrees e) : Covers H (settled e.finish.2) where
  labels := ha.labels.trans h.labels
  length := (ha.finish.length.symm.trans (finishLoop_stay e.labels e.fixups e.code).1).trans
    (ha.length.trans h.length)
  branch i br l hi := by
    rw [settled_word, Option.map_eq_some_iff] at hi
    obtain ⟨w, -, hw⟩ := hi
    cases hw

/-- A relation between the two layouts that every emission keeps, and `finish` on an emitter with `Ok`,
holds after a run in which `finish` is called on such emitters. -/
theorem run_layouts (R : CodeLayout → CodeLayout → Prop) (Ok : Emitter → Prop)
    (hop : ∀ H L o, R H L → L.Allows o → R (H.place o) (L.place o))
    (hfinish : ∀ H L e, R H L → L.Agrees e → Ok e → R H (settled e.finish.2))
    {calls : List EmitterCall} (hR : R H L) (ha : L.Agrees e)
    (hrun : (callAll calls : EmitM ε Unit) p e = .ok ((), e'))
    (hok : ∀ pre post e₁, calls = pre ++ .finish :: post →
      (callAll pre : EmitM ε Unit) p e = .ok ((), e₁) → Ok e₁) :
    ∃ L', R (calls.foldl call H) L' ∧ L'.Agrees e' := by
  -- the second layout and the emitter change together
  induction calls generalizing H L e with
  | nil =>
    cases hrun
    exact ⟨L, hR, ha⟩
  | cons c cs ih =>
    obtain ⟨u, e₁, hc, hrest⟩ := bind_eq_ok hrun
    have hok' : ∀ pre post e₂, cs = pre ++ .finish :: post →
        (callAll pre : EmitM ε Unit) p e₁ = .ok ((), e₂) → Ok e₂ := by
      intro pre post e₂ hcs hpre
      refine hok (c :: pre) post e₂ (by rw [hcs, List.cons_append]) ?_
      rw [callAll]
      simp only [bind, hc]
      exact hpre
    rw [List.foldl_cons]
    cases c with
    | op o =>
      have hallows := ha.allows hc
      obtain ⟨e₂, hstep, ha'⟩ := @Agrees.step _ _ ε o ha hallows p
      rw [EmitterCall.run, hstep] at hc
      cases hc
      exact ih (hop H L o hR hallows) ha' hrest hok'
    | finish =>
      cases hc
      exact ih (hfinish H L e hR ha (hok [] cs e rfl rfl)) ha.finish hrest hok'

/-! ### Branches that are kept, and a branch that is lost -/

/-- A branch that is a word in `L` leads to its label. -/
structure Keeps (H L : CodeLayout) : Prop extends Covers H L where
  led : ∀ (i : Nat) br l, H.items[i]? = some (Item.branch br l) →
    L.items[i]? = some (Item.branch br l) ∨
      ∃ n w, H.bound l = some n ∧ L.items[i]? = some (.word w) ∧ br.LeadsTo w i n

theorem Keeps.place {o : EmitOp} (h : Keeps H L) (ho : L.Allows o) : Keeps (H.place o) (L.place o) where
  toCovers := h.toCovers.place
  led i br l hi := by
    rcases h.getElem?_place o i with ⟨-, hH, hL⟩ | hsame
    · rw [hH] at hi
      rw [hL]
      rcases h.led i br l hi with hbr | ⟨n, w, hn, hw, hlead⟩
      · exact .inl hbr
      · exact .inr ⟨n, w, bound_place (h.allows ho) hn, hw, hlead⟩
    · exact .inl (hsame.trans hi)

/-- Finished, a branch leads to its label. -/
theorem Keeps.ledTo (h : Keeps H L) (ha : L.Agrees e) (hok : e.finish.1 = .ok ()) {i : Nat} {br : Branch}
    {l : Label} (hi : H.items[i]? = some (Item.branch br l)) : H.LedTo e.finish.2.code i br l := by
  have hres := ha.resolved hok
  rcases h.led i br l hi with hbr | ⟨n, w, hn, hw, hlead⟩
  · obtain ⟨n, w, hn, hw, hlead⟩ := hres.branch i br l hbr
    rw [h.bound] at hn
    exact ⟨n, w, hn, hw, hlead⟩
  · exact ⟨n, w, hn, hres.word i w hw, hlead⟩

theorem Keeps.finish (h : Keeps H L) (ha : L.Agrees e) (hready : e.Ready) :
    Keeps H (settled e.finish.2) where
  toCovers := h.toCovers.finish ha
  led i br l hi := by
    obtain ⟨n, w, hn, hw, hlead⟩ := h.ledTo ha ((finish_ok_iff_ready e).mpr hready) hi
    exact .inr ⟨n, w, hn, by rw [settled_word, hw, Option.map_some], hlead⟩

/-- The branch at `i` is a word that is not patched, and its label is not bound at `i`. -/
structure Lost (i : Nat) (br : Branch) (l : Label) (H L : CodeLayout) : Prop extends Covers H L where
  item : H.items[i]? = some (Item.branch br l)
  base : L.items[i]? = some (.word br.base)
  elsewhere : ∀ n, H.bound l = some n → n ≠ i

theorem Lost.place {i : Nat} {br : Branch} {l : Label} {o : EmitOp} (h : Lost i br l H L)
    (ho : L.Allows o) : Lost i br l (H.place o) (L.place o) where
  toCovers := h.toCovers.place
  item := by
    rw [items_place, List.getElem?_append_left (Agrees.index_lt h.item)]
    exact h.item
  base := by
    rw [items_place, List.getElem?_append_left (Agrees.index_lt h.base)]
    exact h.base
  elsewhere n hn := by
    have hlt := Agrees.index_lt h.item
    rcases bound_of_bound_place (h.allows ho) hn with hold | rfl
    · exact h.elsewhere n hold
    · exact Nat.ne_of_gt hlt

/-- A word is not patched again. -/
theorem Agrees.word_finish {i : Nat} {w : Word} (ha : L.Agrees e) (hi : L.items[i]? = some (.word w)) :
    e.finish.2.code[i]? = some w := by
  have hnot : i ∉ e.fixups.map Fixup.wordIndex := by
    intro hmem
    obtain ⟨f, hf, rfl⟩ := List.mem_map.mp hmem
    obtain ⟨br, l, hbr, -⟩ := ha.fixup f hf
    rw [hi] at hbr
    cases hbr
  exact ((finishLoop_stay e.labels e.fixups e.code).2 i hnot).trans (ha.word i w hi)

theorem Lost.finish {i : Nat} {br : Branch} {l : Label} (h : Lost i br l H L) (ha : L.Agrees e) :
    Lost i br l H (settled e.finish.2) where
  toCovers := h.toCovers.finish ha
  item := h.item
  base := by rw [settled_word, ha.word_finish h.base, Option.map_some]
  elsewhere := h.elsewhere

/-- Finishing that fails loses a branch. -/
theorem Covers.lost (h : Covers H L) (ha : L.Agrees e) (hready : ¬ e.Ready) :
    ∃ i br l, Lost i br l H (settled e.finish.2) := by
  have hfail : (Emitter.finishLoop e.labels e.fixups e.code).1 ≠ .ok () :=
    fun hok => hready ((finish_ok_iff_ready e).mp hok)
  obtain ⟨f, hf, hget⟩ := finishLoop_failed ha.distinct hfail
  obtain ⟨br, l, hi, hfw, -, -, hbase⟩ := ha.fixup f hf
  have hcode : e.finish.2.code[f.wordIndex]? = some br.base := hget.trans hbase
  refine ⟨f.wordIndex, br, l, h.finish ha, h.branch _ br l hi, ?_, fun n hn => ?_⟩
  · rw [settled_word, hcode, Option.map_some]
  · rw [← h.bound] at hn
    exact Nat.ne_of_gt (hfw n hn)

theorem covers_new : Covers new new := ⟨rfl, rfl, fun _ _ _ h => h⟩

end CodeLayout

open CodeLayout

/-- **Finishing more than once.**  In a run of emissions and `finish` calls, every `finish` that succeeds has
all branches led to their labels, exactly when no `finish` that finds its pending labels bound within reach
comes after one that does not. -/
theorem honestFinishes_iff (ε : Type) (p : Profile) (calls : List EmitterCall) :
    HonestFinishes ε p calls ↔
      ∀ pre mid post e₁ e₂, calls = pre ++ .finish :: (mid ++ .finish :: post) →
        (callAll pre : EmitM ε Unit) p .new = .ok ((), e₁) →
        (callAll (pre ++ .finish :: mid) : EmitM ε Unit) p .new = .ok ((), e₂) →
        e₂.Ready → e₁.Ready := by
  constructor
  · intro h pre mid post e₁ e₂ hcalls hpre hmid hready₂
    by_contra hready₁
    obtain ⟨L₁, hcov, ha₁⟩ := run_layouts Covers (fun _ => True)
      (fun _ _ _ hR _ => hR.place) (fun _ _ _ hR ha _ => hR.finish ha) covers_new agrees_new hpre
      (fun _ _ _ _ _ => trivial)
    obtain ⟨i, br, l, hlost⟩ := hcov.lost ha₁ hready₁
    have hmid' : (callAll mid : EmitM ε Unit) p e₁.finish.2 = .ok ((), e₂) := by
      rw [callAll_append hpre] at hmid
      exact hmid
    obtain ⟨L₂, hlost₂, ha₂⟩ := run_layouts (Lost i br l) (fun _ => True)
      (fun _ _ _ hR ho => hR.place ho) (fun _ _ _ hR ha _ => hR.finish ha) hlost ha₁.finish hmid'
      (fun _ _ _ _ _ => trivial)
    have hfold : emissions (pre ++ .finish :: mid) = mid.foldl call (pre.foldl call .new) := by
      rw [emissions, List.foldl_append, List.foldl_cons]
      rfl
    have hsplit : calls = (pre ++ .finish :: mid) ++ .finish :: post := by
      rw [hcalls, List.append_assoc, List.cons_append]
    obtain ⟨n, w, hn, hw, hlead⟩ := h _ _ e₂ hsplit hmid ((finish_ok_iff_ready e₂).mpr hready₂) i br l
      (by rw [hfold]; exact hlost₂.item)
    -- the word of the lost branch leads to itself
    rw [ha₂.word_finish hlost₂.base] at hw
    cases hw
    rw [hfold] at hn
    exact hlost₂.elsewhere n hn (Branch.eq_of_leadsTo_base hlead)
  · intro h pre post e hcalls hpre hok i br l hi
    have hready := (finish_ok_iff_ready e).mp hok
    have hkeeps : Keeps new new := ⟨covers_new, fun _ _ _ h => .inl h⟩
    obtain ⟨L, hL, ha⟩ := run_layouts Keeps Emitter.Ready
      (fun _ _ _ hR ho => hR.place ho) (fun _ _ _ hR ha hr => hR.finish ha hr) hkeeps agrees_new hpre
      (by
        intro pre' mid e₁ hsplit hpre'
        rw [hsplit] at hpre hcalls
        exact h pre' mid post e₁ e (by rw [hcalls, List.append_assoc, List.cons_append]) hpre' hpre hready)
    exact hL.ledTo ha hok hi

/-- A branch whose label is bound only after the first `finish`. -/
def boundTooLate : List EmitterCall :=
  [.op .makeLabel, .op (.branch .b ⟨0⟩), .finish, .op (.bindLabel ⟨0⟩), .finish]

theorem not_honestFinishes : ¬ ∀ calls, HonestFinishes Empty ⟨true⟩ calls := by
  intro h
  obtain ⟨n, w, hn, hw, hlead⟩ := h boundTooLate
    [.op .makeLabel, .op (.branch .b ⟨0⟩), .finish, .op (.bindLabel ⟨0⟩)] [] _ rfl rfl rfl 0 .b ⟨0⟩ rfl
  cases hw
  cases hn
  exact absurd (Branch.eq_of_leadsTo_base hlead) (by decide)

end Quantum.Jit
