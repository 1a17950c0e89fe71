import Quantum.A64.Equiv.Certificate
import Quantum.Jit.Equiv.Emit

/-!
# Certificates for emitted code

An emitter holds code with labels that may not be bound yet and branches that are not patched yet.
`Cert D e lab pts cur` is a certificate for such code: `pts` annotates its words, `cur` the point
behind the last one, and `lab` the points that the labels will stand at.  When the emitter finishes,
it becomes a certificate of the code (`Cert.finish`).

`Certifies D p Γ a m Q` is the rule format for the computations that emit code: from a certificate
that ends in `a`, with the annotations of the labels in `Γ`, every successful run of `m` leads to a
certificate that ends in an annotation of `Q`.
-/

namespace Quantum.Jit

open A64
open EmitM

variable {A : Type} {D : Domain A}

/-! ### Partial certificates -/

/-- The annotation of an index: of a word, or of the point behind the last one. -/
def ptAt (pts : List A) (cur : A) (i : Nat) : A :=
  (pts[i]?).getD cur

theorem ptAt_length (pts : List A) (cur : A) : ptAt pts cur pts.length = cur := by
  simp [ptAt]

theorem ptAt_concat_of_le {pts : List A} {cur nxt : A} {i : Nat} (h : i ≤ pts.length) :
    ptAt (pts ++ [cur]) nxt i = ptAt pts cur i := by
  unfold ptAt
  rcases Nat.lt_or_eq_of_le h with hlt | rfl
  · rw [List.getElem?_append_left hlt]
    simp [hlt]
  · simp

theorem ptAt_of_lt {pts : List A} {cur cur' : A} {i : Nat} (h : i < pts.length) :
    ptAt pts cur' i = ptAt pts cur i := by
  simp [ptAt, h]

theorem le_ptAt {pts : List A} {cur cur' : A} (h : D.le cur cur') (i : Nat) :
    D.le (ptAt pts cur i) (ptAt pts cur' i) := by
  unfold ptAt
  cases pts[i]? with
  | none => exact h
  | some a => exact D.le_refl a

/-- A branch word before it is patched: `B`, or `B.cond` or `CBZ`, which may fall through. -/
def FixOk (D : Domain A) (pt : Nat → A) (i : Nat) (w : Word) (kind : FixupKind) : Prop :=
  (w = 0x14000000#32 ∧ kind = .branch26) ∨
  (((∃ c : A64.Cond, w = 0x54000000#32 ||| bitField 0 c.code) ∨
      ∃ rt : Reg, w = 0xB4000000#32 ||| bitField 0 rt) ∧
    kind = .branch19 ∧ D.le (pt i) (pt (i + 1)))

theorem toInt_ofInt_of_range {n : Nat} {delta : Int} (hn : 0 < n)
    (h : -2 ^ (n - 1) ≤ delta ∧ delta < 2 ^ (n - 1)) : (BitVec.ofInt n delta).toInt = delta := by
  obtain ⟨k, rfl⟩ : ∃ k, n = k + 1 := ⟨n - 1, by omega⟩
  rw [Nat.add_sub_cancel] at h
  rw [BitVec.toInt_ofInt, Int.bmod_eq_of_le]
  · push_cast
    rw [pow_succ]
    omega
  · push_cast
    rw [pow_succ]
    omega

/-- A patched branch is consistent when its target is. -/
theorem FixOk.patched {pt : Nat → A} {n i : Nat} {w w' : Word} {kind : FixupKind} {delta : Int}
    (h : FixOk D pt i w kind) (hw : Emitter.patchBranch w kind delta = .ok w')
    (ht : D.Target pt n i delta) : D.PointOk pt n i (decode w') := by
  rcases h with ⟨rfl, rfl⟩ | ⟨hbase, rfl, hle⟩
  · by_cases hd : -2 ^ 25 ≤ delta ∧ delta < 2 ^ 25
    · rw [patchBranch_b delta hd] at hw
      cases hw
      rw [decode_b]
      show D.Target pt n i (BitVec.ofInt 26 delta).toInt
      rw [toInt_ofInt_of_range (by decide) hd]
      exact ht
    · rw [Emitter.patchBranch, if_neg hd] at hw
      cases hw
  · by_cases hd : -2 ^ 18 ≤ delta ∧ delta < 2 ^ 18
    · rcases hbase with ⟨c, rfl⟩ | ⟨rt, rfl⟩
      · rw [patchBranch_bCond c delta hd] at hw
        cases hw
        rw [decode_bCond]
        refine ⟨?_, hle⟩
        rw [toInt_ofInt_of_range (by decide) hd]
        exact ht
      · rw [patchBranch_cbz rt delta hd] at hw
        cases hw
        rw [decode_cbz]
        refine ⟨?_, hle⟩
        rw [toInt_ofInt_of_range (by decide) hd]
        exact ht
    · rw [Emitter.patchBranch, if_neg hd] at hw
      cases hw

/-- The word indices of the pending branches. -/
def Emitter.pending (e : Emitter) : List Nat :=
  e.fixups.map (·.wordIndex)

/-- A certificate for the code of an emitter. -/
structure Cert (D : Domain A) (e : Emitter) (lab pts : List A) (cur : A) : Prop where
  labels : lab.length = e.labels.length
  points : pts.length = e.code.length
  bound : ∀ (l pos : Nat) (x : A), e.labels[l]? = some (some pos) → lab[l]? = some x →
    pos ≤ e.code.length ∧ D.le x (ptAt pts cur pos)
  fixup : ∀ f ∈ e.fixups, ∃ w x, e.code[f.wordIndex]? = some w ∧ lab[f.label]? = some x ∧
    D.le (ptAt pts cur f.wordIndex) x ∧ FixOk D (ptAt pts cur) f.wordIndex w f.kind
  distinct : e.pending.Nodup
  word : ∀ (i : Nat) (w : Word), e.code[i]? = some w → i ∉ e.pending →
    D.PointOk (ptAt pts cur) e.code.length i (decode w)

namespace Cert

variable {e : Emitter} {lab pts : List A} {cur nxt : A}

theorem new (a : A) : Cert D Emitter.new [] [] a where
  labels := rfl
  points := rfl
  bound := by simp [Emitter.new]
  fixup := by simp [Emitter.new]
  distinct := List.nodup_nil
  word := by simp [Emitter.new]

/-- The branches that stay consistent when annotations at their own index stay. -/
theorem fixOk_congr {pt pt' : Nat → A} {i : Nat} {w : Word} {kind : FixupKind}
    (h : FixOk D pt i w kind) (hself : pt' i = pt i) (hle : D.le (pt (i + 1)) (pt' (i + 1))) :
    FixOk D pt' i w kind := by
  rcases h with h | ⟨hb, hk, hl⟩
  · exact .inl h
  · refine .inr ⟨hb, hk, ?_⟩
    rw [hself]
    exact D.le_trans hl hle

/-- Fewer claims at the current point. -/
theorem weaken (h : Cert D e lab pts cur) (hle : D.le cur nxt) : Cert D e lab pts nxt where
  labels := h.labels
  points := h.points
  bound := fun l pos x hl hx => by
    obtain ⟨hpos, hb⟩ := h.bound l pos x hl hx
    exact ⟨hpos, D.le_trans hb (le_ptAt hle pos)⟩
  fixup := fun f hf => by
    obtain ⟨w, x, hw, hx, hl, hfix⟩ := h.fixup f hf
    have hlt : f.wordIndex < pts.length := by
      rw [h.points]
      exact (List.getElem?_eq_some_iff.mp hw).1
    refine ⟨w, x, hw, hx, ?_, fixOk_congr hfix (ptAt_of_lt hlt) (le_ptAt hle _)⟩
    rw [show ptAt pts nxt f.wordIndex = ptAt pts cur f.wordIndex from ptAt_of_lt hlt]
    exact hl
  distinct := h.distinct
  word := fun i w hw hi => by
    have hlt : i < e.code.length := (List.getElem?_eq_some_iff.mp hw).1
    refine (h.word i w hw hi).congr hlt le_rfl (ptAt_of_lt ?_) fun t _ => le_ptAt hle t
    rw [h.points]
    exact hlt

/-- What a word behind the code leaves consistent. -/
theorem grow (h : Cert D e lab pts cur) (w : Word) (nxt : A) {e' : Emitter}
    (hcode : e'.code = e.code ++ [w]) (hlabels : e'.labels = e.labels)
    (hfix : ∀ f ∈ e'.fixups, f ∈ e.fixups ∨ (f.wordIndex = e.code.length ∧
      ∃ x, lab[f.label]? = some x ∧ D.le cur x ∧
        FixOk D (ptAt (pts ++ [cur]) nxt) e.code.length w f.kind))
    (hdistinct : e'.pending.Nodup) (hsub : ∀ i, i ∈ e.pending → i ∈ e'.pending)
    (hword : e.code.length ∉ e'.pending →
      D.PointOk (ptAt (pts ++ [cur]) nxt) (e.code.length + 1) e.code.length (decode w)) :
    Cert D e' lab (pts ++ [cur]) nxt where
  labels := by rw [hlabels]; exact h.labels
  points := by rw [hcode, List.length_append, List.length_append, h.points]; rfl
  bound := fun l pos x hl hx => by
    rw [hlabels] at hl
    obtain ⟨hpos, hb⟩ := h.bound l pos x hl hx
    refine ⟨by rw [hcode, List.length_append]; omega, ?_⟩
    rw [ptAt_concat_of_le (by rw [h.points]; exact hpos)]
    exact hb
  fixup := fun f hf => by
    rcases hfix f hf with hold | ⟨hidx, x, hx, hle, hok⟩
    · obtain ⟨w', x, hw', hx, hl, hok⟩ := h.fixup f hold
      have hlt : f.wordIndex < e.code.length := (List.getElem?_eq_some_iff.mp hw').1
      refine ⟨w', x, by rw [hcode, List.getElem?_append_left hlt]; exact hw', hx, ?_, ?_⟩
      · rw [ptAt_concat_of_le (by rw [h.points]; exact hlt.le)]
        exact hl
      · refine fixOk_congr hok (ptAt_concat_of_le (by rw [h.points]; exact hlt.le)) ?_
        rw [ptAt_concat_of_le (by rw [h.points]; exact hlt)]
        exact D.le_refl _
    · refine ⟨w, x, by rw [hidx, hcode, List.getElem?_concat_length], hx, ?_, ?_⟩
      · rw [hidx, ← h.points, ptAt_concat_of_le le_rfl, ptAt_length]
        exact hle
      · rw [hidx]
        exact hok
  distinct := hdistinct
  word := fun i w' hw' hi => by
    rw [hcode] at hw'
    rcases Nat.lt_or_ge i e.code.length with hlt | hge
    · rw [List.getElem?_append_left hlt] at hw'
      refine (h.word i w' hw' fun hc => hi (hsub i hc)).congr hlt
        (by rw [hcode, List.length_append]; omega)
        (ptAt_concat_of_le (by rw [h.points]; exact hlt.le)) fun t ht => ?_
      rw [ptAt_concat_of_le (by rw [h.points]; exact ht)]
      exact D.le_refl _
    · have hlen := (List.getElem?_eq_some_iff.mp hw').1
      rw [List.length_append, List.length_singleton] at hlen
      obtain rfl : i = e.code.length := by omega
      rw [List.getElem?_concat_length, Option.some.injEq] at hw'
      subst hw'
      rw [hcode, List.length_append, List.length_singleton]
      exact hword hi

/-- The index of the next word is not pending. -/
theorem length_not_pending (h : Cert D e lab pts cur) : e.code.length ∉ e.pending := by
  intro hc
  obtain ⟨f, hf, heq⟩ := List.mem_map.mp hc
  obtain ⟨w, x, hw, -⟩ := h.fixup f hf
  have hlt := (List.getElem?_eq_some_iff.mp hw).1
  rw [heq] at hlt
  exact lt_irrefl _ hlt

/-- A word that is not a pending branch. -/
theorem append (h : Cert D e lab pts cur) {w : Word} {nxt : A}
    (hword : D.PointOk (ptAt (pts ++ [cur]) nxt) (e.code.length + 1) e.code.length (decode w)) :
    Cert D (e.append [w]) lab (pts ++ [cur]) nxt :=
  h.grow w nxt rfl rfl (fun _ hf => .inl hf) h.distinct (fun _ hi => hi) fun _ => hword

/-- The annotations around the next word. -/
theorem ptAt_next (h : Cert D e lab pts cur) (nxt : A) :
    ptAt (pts ++ [cur]) nxt e.code.length = cur ∧
      ptAt (pts ++ [cur]) nxt (e.code.length + 1) = nxt := by
  have hlen : (pts ++ [cur]).length = e.code.length + 1 := by simp [h.points]
  refine ⟨?_, ?_⟩
  · rw [← h.points, ptAt_concat_of_le le_rfl, ptAt_length]
  · rw [← hlen, ptAt_length]

/-- A word that falls through. -/
theorem appendNext (h : Cert D e lab pts cur) {w : Word} {nxt : A}
    (hlin : ∀ i, decode w = some i → i.isLinear = true) (hnext : D.next cur (decode w) nxt) :
    Cert D (e.append [w]) lab (pts ++ [cur]) nxt := by
  obtain ⟨hself, hbehind⟩ := h.ptAt_next nxt
  have hn : D.next (ptAt (pts ++ [cur]) nxt e.code.length) (decode w)
      (ptAt (pts ++ [cur]) nxt (e.code.length + 1)) := by
    rw [hself, hbehind]
    exact hnext
  refine h.append ?_
  cases hd : decode w with
  | none =>
    rw [hd] at hn
    exact hn
  | some i =>
    have hi := hlin i hd
    rw [hd] at hn
    cases i <;> first | exact hn | cases hi

/-- A pending branch. -/
theorem appendFixup (h : Cert D e lab pts cur) {w : Word} {kind : FixupKind} {l : Label} {x nxt : A}
    (hl : lab[l.id]? = some x) (hle : D.le cur x)
    (hfix : FixOk D (ptAt (pts ++ [cur]) nxt) e.code.length w kind) :
    Cert D { e with
      code := e.code ++ [w]
      fixups := e.fixups ++ [⟨e.code.length, kind, l.id⟩] } lab (pts ++ [cur]) nxt := by
  refine h.grow w nxt rfl rfl (fun f hf => ?_) ?_ (fun i hi => ?_) fun hi => ?_
  · rcases List.mem_append.mp hf with hold | hnew
    · exact .inl hold
    · obtain rfl := List.mem_singleton.mp hnew
      exact .inr ⟨rfl, x, hl, hle, hfix⟩
  · rw [Emitter.pending, List.map_append]
    refine List.nodup_append.mpr ⟨h.distinct, List.nodup_singleton _, ?_⟩
    intro i hi j hj heq
    obtain rfl := List.mem_singleton.mp hj
    rw [show i = e.code.length from heq] at hi
    exact h.length_not_pending hi
  · rw [Emitter.pending, List.map_append]
    exact List.mem_append_left _ hi
  · rw [Emitter.pending, List.map_append] at hi
    exact absurd (List.mem_append_right _ (List.mem_singleton.mpr rfl)) hi

/-- A new label. -/
theorem addLabel (h : Cert D e lab pts cur) (x : A) :
    Cert D { e with labels := e.labels ++ [none] } (lab ++ [x]) pts cur where
  labels := by simp [h.labels]
  points := h.points
  bound := fun l pos y hl hy => by
    have hlt : l < e.labels.length := by
      by_contra hge
      rw [List.getElem?_append_right (Nat.not_lt.mp hge)] at hl
      rcases hk : l - e.labels.length with _ | k
      · rw [hk] at hl
        cases hl
      · rw [hk] at hl
        cases hl
    rw [List.getElem?_append_left hlt] at hl
    rw [List.getElem?_append_left (by rw [h.labels]; exact hlt)] at hy
    exact h.bound l pos y hl hy
  fixup := fun f hf => by
    obtain ⟨w, y, hw, hy, hle, hok⟩ := h.fixup f hf
    have hlt := (List.getElem?_eq_some_iff.mp hy).1
    exact ⟨w, y, hw, by rw [List.getElem?_append_left hlt]; exact hy, hle, hok⟩
  distinct := h.distinct
  word := h.word

/-- A label bound at the current point. -/
theorem bindLabel (h : Cert D e lab pts cur) {l : Nat} {x : A} (hl : lab[l]? = some x)
    (hle : D.le cur x) :
    Cert D { e with labels := e.labels.set l (some e.code.length) } lab pts x := by
  have hw := h.weaken hle
  refine ⟨by simpa using hw.labels, hw.points, fun l' pos y hl' hy => ?_, hw.fixup, hw.distinct,
    hw.word⟩
  by_cases heq : l = l'
  · subst heq
    rw [List.getElem?_set_self (by rw [← h.labels]; exact (List.getElem?_eq_some_iff.mp hl).1)]
      at hl'
    obtain rfl : e.code.length = pos := by simpa using hl'
    obtain rfl : x = y := Option.some.inj (hl.symm.trans hy)
    refine ⟨le_rfl, ?_⟩
    rw [← h.points, ptAt_length]
    exact D.le_refl _
  · rw [List.getElem?_set_ne heq] at hl'
    exact hw.bound l' pos y hl' hy

/-! ### Finishing -/

theorem target_of_bound (h : Cert D e lab pts cur) {l pos i : Nat} {x : A}
    (hl : e.labels[l]? = some (some pos)) (hx : lab[l]? = some x)
    (hle : D.le (ptAt pts cur i) x) :
    D.Target (ptAt pts cur) e.code.length i ((pos : Int) - i) := by
  obtain ⟨hpos, hb⟩ := h.bound l pos x hl hx
  exact ⟨pos, by omega, hpos, D.le_trans hle hb⟩

/-- The loop that patches the pending branches: `fs` are those that are left. -/
theorem finishLoop_certified {labels : List (Option Nat)} {pt : Nat → A} {n : Nat} :
    ∀ (fs : List Fixup) (code code' : List Word), code.length = n →
      (∀ f ∈ fs, ∃ w, code[f.wordIndex]? = some w ∧ FixOk D pt f.wordIndex w f.kind ∧
        ∀ pos, labels[f.label]? = some (some pos) →
          D.Target pt n f.wordIndex ((pos : Int) - f.wordIndex)) →
      (fs.map (·.wordIndex)).Nodup →
      (∀ i w, code[i]? = some w → i ∉ fs.map (·.wordIndex) → D.PointOk pt n i (decode w)) →
      Emitter.finishLoop labels fs code = (.ok (), code') →
      code'.length = n ∧ ∀ i w, code'[i]? = some w → D.PointOk pt n i (decode w) := by
  intro fs
  induction fs with
  | nil =>
    intro code code' hn _ _ hword hfin
    cases hfin
    exact ⟨hn, fun i w hw => hword i w hw (by simp)⟩
  | cons f fs ih =>
    intro code code' hn hfix hnodup hword hfin
    obtain ⟨w, hw, hok, htgt⟩ := hfix f (List.mem_cons_self ..)
    rw [List.map_cons, List.nodup_cons] at hnodup
    unfold Emitter.finishLoop at hfin
    split at hfin
    · cases hfin
    · rename_i pos hpos
      split at hfin
      · cases hfin
      · rename_i w' hpatch
        rw [List.getD_eq_getElem?_getD, hw, Option.getD_some] at hpatch
        have hlab : labels[f.label]? = some (some pos) := Option.join_eq_some_iff.mp hpos
        have hlt : f.wordIndex < code.length := (List.getElem?_eq_some_iff.mp hw).1
        refine ih _ code' (by rw [List.length_set]; exact hn) (fun g hg => ?_) hnodup.2
          (fun i v hv hi => ?_) hfin
        · obtain ⟨v, hv, hok', htgt'⟩ := hfix g (List.mem_cons_of_mem _ hg)
          have hne : f.wordIndex ≠ g.wordIndex := fun heq =>
            hnodup.1 (heq ▸ List.mem_map.mpr ⟨g, hg, rfl⟩)
          exact ⟨v, by rw [List.getElem?_set_ne hne]; exact hv, hok', htgt'⟩
        · by_cases heq : f.wordIndex = i
          · subst heq
            rw [List.getElem?_set_self hlt, Option.some.injEq] at hv
            subst hv
            exact hok.patched hpatch (htgt pos hlab)
          · rw [List.getElem?_set_ne heq] at hv
            refine hword i v hv ?_
            rw [List.map_cons, List.mem_cons, not_or]
            exact ⟨fun h => heq h.symm, hi⟩

/-- **Finished code is certified.** -/
theorem finish (h : Cert D e lab pts cur) {u : Unit} {e' : Emitter}
    (hfin : e.finish = (.ok u, e')) :
    e'.code.length = e.code.length ∧ D.Certified e'.code (ptAt pts cur) := by
  have hloop : Emitter.finishLoop e.labels e.fixups e.code = (.ok (), e'.code) := by
    rw [Emitter.finish, Prod.mk.injEq] at hfin
    obtain ⟨hfst, rfl⟩ := hfin
    exact Prod.ext hfst rfl
  have hfix : ∀ f ∈ e.fixups, ∃ w, e.code[f.wordIndex]? = some w ∧
      FixOk D (ptAt pts cur) f.wordIndex w f.kind ∧
      ∀ pos, e.labels[f.label]? = some (some pos) →
        D.Target (ptAt pts cur) e.code.length f.wordIndex ((pos : Int) - f.wordIndex) := by
    intro f hf
    obtain ⟨w, x, hw, hx, hle, hok⟩ := h.fixup f hf
    exact ⟨w, hw, hok, fun pos hpos => h.target_of_bound hpos hx hle⟩
  obtain ⟨hlen, hpts⟩ := finishLoop_certified e.fixups e.code e'.code rfl hfix h.distinct h.word
    hloop
  exact ⟨hlen, fun i w hw => by rw [hlen]; exact hpts i w hw⟩

end Cert

/-! ### Rules -/

/-- The labels of `Γ` have the annotations it gives them. -/
def Known (lab : List A) (Γ : List (Label × A)) : Prop :=
  ∀ q ∈ Γ, lab[q.1.id]? = some q.2

theorem Known.extend {lab lab' : List A} {Γ : List (Label × A)} (h : Known lab Γ)
    (hpre : lab <+: lab') : Known lab' Γ := by
  intro q hq
  have hx := h q hq
  obtain ⟨more, rfl⟩ := hpre
  rw [List.getElem?_append_left (List.getElem?_eq_some_iff.mp hx).1]
  exact hx

/-- Words and pending branches are only added behind the code. -/
structure Emitter.Grows (e e' : Emitter) : Prop where
  code : e.code <+: e'.code
  fixups : ∀ i ∈ e'.pending, i ∈ e.pending ∨ e.code.length ≤ i

namespace Emitter.Grows

variable {e e₁ e₂ : Emitter}

theorem refl (e : Emitter) : e.Grows e :=
  ⟨List.prefix_rfl, fun _ => .inl⟩

theorem trans (h₁ : e.Grows e₁) (h₂ : e₁.Grows e₂) : e.Grows e₂ := by
  refine ⟨h₁.code.trans h₂.code, fun i hi => ?_⟩
  rcases h₂.fixups i hi with hold | hge
  · exact h₁.fixups i hold
  · exact .inr (h₁.code.length_le.trans hge)

theorem append (e : Emitter) (ws : List Word) : e.Grows (e.append ws) :=
  ⟨List.prefix_append _ _, fun _ => .inl⟩

theorem labels (e : Emitter) (ls : List (Option Nat)) : e.Grows { e with labels := ls } :=
  ⟨List.prefix_rfl, fun _ => .inl⟩

theorem fixup (e : Emitter) (w : Word) (kind : FixupKind) (l : Nat) :
    e.Grows { e with
      code := e.code ++ [w]
      fixups := e.fixups ++ [⟨e.code.length, kind, l⟩] } := by
  refine ⟨List.prefix_append _ _, fun i hi => ?_⟩
  rw [pending, List.map_append] at hi
  rcases List.mem_append.mp hi with hold | hnew
  · exact .inl hold
  · exact .inr (List.mem_singleton.mp hnew).ge

end Emitter.Grows

variable {ε α β : Type} {p : Profile}

/-- From a certificate that ends in `a`, with the labels of `Γ`, every successful run of `m` adds to the
code and leads to one that ends as `Q` says and claims no more of the entry. -/
def Certifies (D : Domain A) (p : Profile) (Γ : List (Label × A)) (a : A) (m : EmitM ε α)
    (Q : α → List (Label × A) → A → Prop) : Prop :=
  ∀ e lab pts v e', Cert D e lab pts a → Known lab Γ → m p e = .ok (v, e') →
    ∃ lab' pts' b Γ', Cert D e' lab' pts' b ∧ lab <+: lab' ∧ Known lab' Γ' ∧
      D.le (ptAt pts a 0) (ptAt pts' b 0) ∧ e.Grows e' ∧ Q v Γ' b

namespace Certifies

variable {Γ : List (Label × A)} {a : A} {Q : α → List (Label × A) → A → Prop}

theorem mono {m : EmitM ε α} {R : α → List (Label × A) → A → Prop} (h : Certifies D p Γ a m Q)
    (hQR : ∀ v Γ' b, Q v Γ' b → R v Γ' b) : Certifies D p Γ a m R := by
  intro e lab pts v e' hc hk hm
  obtain ⟨lab', pts', b, Γ', hc', hpre, hk', hent, hg, hq⟩ := h e lab pts v e' hc hk hm
  exact ⟨lab', pts', b, Γ', hc', hpre, hk', hent, hg, hQR _ _ _ hq⟩

/-- Labels that were known stay known, and those made on the way may be forgotten. -/
theorem frame {m : EmitM ε α} {R : α → A → Prop}
    (h : Certifies D p Γ a m fun v _ b => R v b) :
    Certifies D p Γ a m fun v Γ' b => Γ' = Γ ∧ R v b := by
  intro e lab pts v e' hc hk hm
  obtain ⟨lab', pts', b, Γ', hc', hpre, -, hent, hg, hq⟩ := h e lab pts v e' hc hk hm
  exact ⟨lab', pts', b, Γ, hc', hpre, hk.extend hpre, hent, hg, rfl, hq⟩

/-- Fewer claims after the run. -/
theorem weaken {m : EmitM ε α} {R : α → List (Label × A) → A → Prop} (h : Certifies D p Γ a m Q)
    (hQR : ∀ v Γ' b, Q v Γ' b → ∃ c, D.le b c ∧ R v Γ' c) : Certifies D p Γ a m R := by
  intro e lab pts v e' hc hk hm
  obtain ⟨lab', pts', b, Γ', hc', hpre, hk', hent, hg, hq⟩ := h e lab pts v e' hc hk hm
  obtain ⟨c, hle, hr⟩ := hQR _ _ _ hq
  exact ⟨lab', pts', c, Γ', hc'.weaken hle, hpre, hk', D.le_trans hent (le_ptAt hle 0), hg, hr⟩

theorem pure {v : α} (h : Q v Γ a) : Certifies D p Γ a (Pure.pure v : EmitM ε α) Q := by
  intro e lab pts v' e' hc hk hm
  cases hm
  exact ⟨lab, pts, a, Γ, hc, List.prefix_rfl, hk, D.le_refl _, .refl e, h⟩

theorem bind {m : EmitM ε α} {f : α → EmitM ε β} {R : β → List (Label × A) → A → Prop}
    (h : Certifies D p Γ a m fun v Γ' b => Certifies D p Γ' b (f v) R) :
    Certifies D p Γ a (m >>= f) R := by
  intro e lab pts v e' hc hk hm
  obtain ⟨v₁, e₁, h₁, h₂⟩ := bind_eq_ok hm
  obtain ⟨lab₁, pts₁, b₁, Γ₁, hc₁, hpre₁, hk₁, hent₁, hg₁, hf⟩ := h e lab pts v₁ e₁ hc hk h₁
  obtain ⟨lab₂, pts₂, b₂, Γ₂, hc₂, hpre₂, hk₂, hent₂, hg₂, hR⟩ := hf e₁ lab₁ pts₁ v e' hc₁ hk₁ h₂
  exact ⟨lab₂, pts₂, b₂, Γ₂, hc₂, hpre₁.trans hpre₂, hk₂, D.le_trans hent₁ hent₂, hg₁.trans hg₂,
    hR⟩

theorem fail {x : ε} : Certifies D p Γ a (EmitM.fail x : EmitM ε α) Q := by
  intro e lab pts v e' _ _ hm
  cases hm

theorem panic {msg : String} : Certifies D p Γ a (EmitM.panic msg : EmitM ε α) Q := by
  intro e lab pts v e' _ _ hm
  cases hm

theorem okOr {o : Option α} {x : ε} (h : ∀ v, o = some v → Q v Γ a) :
    Certifies D p Γ a (EmitM.okOr o x) Q := by
  cases o with
  | none => exact fail
  | some v => exact pure (h v rfl)

theorem mapErr {ε' : Type} {g : ε → ε'} {m : EmitM ε α} (h : Certifies D p Γ a m Q) :
    Certifies D p Γ a (EmitM.mapErr g m) Q := by
  intro e lab pts v e' hc hk hm
  refine h e lab pts v e' hc hk ?_
  unfold EmitM.mapErr at hm
  cases hr : m p e with
  | ok r =>
    rw [hr] at hm
    cases hm
    rfl
  | error x =>
    rw [hr] at hm
    cases x <;> cases hm

variable {R : Unit → List (Label × A) → A → Prop} {l : Label} {x c : A}

theorem debugAssert {P : Prop} [Decidable P] {msg : String}
    (h : (p.debugAssertions = true → P) → R () Γ a) :
    Certifies D p Γ a (EmitM.debugAssert P msg : EmitM ε Unit) R := by
  intro e lab pts v e' hc hk hm
  by_cases hd : p.debugAssertions = true ∧ ¬ P
  · rw [EmitM.debugAssert, if_pos hd] at hm
    cases hm
  · rw [EmitM.debugAssert, if_neg hd] at hm
    cases hm
    refine ⟨lab, pts, a, Γ, hc, List.prefix_rfl, hk, D.le_refl _, .refl e, h fun hp => ?_⟩
    by_contra hcn
    exact hd ⟨hp, hcn⟩

theorem byteLen {Q : Nat → List (Label × A) → A → Prop} (h : ∀ n, Q n Γ a) :
    Certifies D p Γ a (EmitM.byteLen : EmitM ε Nat) Q := by
  intro e lab pts v e' hc hk hm
  cases hm
  exact ⟨lab, pts, a, Γ, hc, List.prefix_rfl, hk, D.le_refl _, .refl e, h _⟩

/-- One more word leaves the entry as it is. -/
theorem entry_concat {pts : List A} : D.le (ptAt pts a 0) (ptAt (pts ++ [a]) c 0) := by
  rw [ptAt_concat_of_le (Nat.zero_le _)]
  exact D.le_refl _

/-- A word that falls through. -/
theorem push {w : Word} (hlin : ∀ i, decode w = some i → i.isLinear = true)
    (hnext : D.next a (decode w) c) (h : R () Γ c) :
    Certifies D p Γ a (EmitM.push w : EmitM ε Unit) R := by
  intro e lab pts v e' hc hk hm
  cases hm
  exact ⟨lab, pts ++ [a], c, Γ, hc.appendNext hlin hnext, List.prefix_rfl, hk, entry_concat,
    .append e [w], h⟩

/-- One instruction that goes on to the next one. -/
theorem one {m : EmitM ε Unit} {i : Insn} (h : Emits p m fun _ is => is = [some i])
    (hlin : i.isLinear = true) (hnext : D.next a (some i) c) (hR : R () Γ c) : Certifies D p Γ a m R := by
  intro e lab pts v e' hc hk hm
  obtain ⟨ws, rfl, hws⟩ := h e v e' hm
  obtain ⟨w, rfl, hw⟩ := List.map_eq_singleton_iff.mp hws
  have hcert : Cert D (e.append [w]) lab (pts ++ [a]) c := by
    refine hc.appendNext (fun j hj => ?_) (hw ▸ hnext)
    rw [hw, Option.some.injEq] at hj
    rw [← hj]
    exact hlin
  exact ⟨lab, pts ++ [a], c, Γ, hcert, List.prefix_rfl, hk, entry_concat, .append e [w], hR⟩

/-- The placeholder of a chained exit: a branch to the next word. -/
theorem skip (h : R () Γ a) :
    Certifies D p Γ a (rawWord 0x14000001#32 : EmitM ε Unit) R := by
  intro e lab pts v e' hc hk hm
  cases hm
  refine ⟨lab, pts ++ [a], a, Γ, hc.append ?_, List.prefix_rfl, hk, entry_concat, .append e _, h⟩
  obtain ⟨hself, hbehind⟩ := hc.ptAt_next a
  have hdec : decode 0x14000001#32 = some (.b false 1) := by
    decide
  rw [hdec]
  refine ⟨e.code.length + 1, rfl, le_rfl, ?_⟩
  rw [hself, hbehind]
  exact D.le_refl a

/-- The return; what stands behind it is not reached from here. -/
theorem ret (hret : D.ret a) (h : R () Γ c) :
    Certifies D p Γ a (Jit.ret : EmitM ε Unit) R := by
  intro e lab pts v e' hc hk hm
  cases hm
  refine ⟨lab, pts ++ [a], c, Γ, hc.append ?_, List.prefix_rfl, hk, entry_concat, .append e _, h⟩
  rw [decode_ret]
  refine ⟨rfl, ?_⟩
  rw [(hc.ptAt_next c).1]
  exact hret

theorem makeLabel {Q : Label → List (Label × A) → A → Prop} (x : A)
    (h : ∀ l, Q l ((l, x) :: Γ) a) : Certifies D p Γ a (EmitM.makeLabel : EmitM ε Label) Q := by
  intro e lab pts v e' hc hk hm
  cases hm
  refine ⟨lab ++ [x], pts, a, _, hc.addLabel x, List.prefix_append _ _, ?_, D.le_refl _,
    .labels e _, h ⟨e.labels.length⟩⟩
  intro q hq
  rcases List.mem_cons.mp hq with rfl | hq
  · rw [← hc.labels, List.getElem?_concat_length]
  · exact hk.extend (List.prefix_append _ _) q hq

theorem bindLabel (hl : (l, x) ∈ Γ) (hle : D.le a x) (h : R () Γ x) :
    Certifies D p Γ a (EmitM.bindLabel l : EmitM ε Unit) R := by
  intro e lab pts v e' hc hk hm
  unfold EmitM.bindLabel at hm
  split at hm
  · cases hm
  · cases hm
  · cases hm
    exact ⟨lab, pts, x, Γ, hc.bindLabel (hk _ hl) hle, List.prefix_rfl, hk, le_ptAt hle 0,
      .labels e _, h⟩

/-- A branch to a label, by the form of its word. -/
theorem emitBranch {w : Word} {kind : FixupKind} (hl : (l, x) ∈ Γ) (hle : D.le a x)
    (hfix : ∀ pt : Nat → A, ∀ i, pt i = a → pt (i + 1) = c → FixOk D pt i w kind)
    (h : R () Γ c) : Certifies D p Γ a (EmitM.emitBranch w kind l : EmitM ε Unit) R := by
  intro e lab pts v e' hc hk hm
  obtain ⟨hself, hbehind⟩ := hc.ptAt_next c
  have hok := hfix _ _ hself hbehind
  unfold EmitM.emitBranch at hm
  split at hm
  · cases hm
  · rename_i pos hpos
    split at hm
    · rename_i w' hpatch
      cases hm
      refine ⟨lab, pts ++ [a], c, Γ, hc.append ?_, List.prefix_rfl, hk, entry_concat, .append e [w'], h⟩
      refine hok.patched hpatch ?_
      obtain ⟨hle', hb⟩ := hc.bound l.id pos x hpos (hk _ hl)
      refine ⟨pos, by omega, by omega, ?_⟩
      rw [hself, ptAt_concat_of_le (by rw [hc.points]; exact hle')]
      exact D.le_trans hle hb
    · cases hm
  · cases hm
    exact ⟨lab, pts ++ [a], c, Γ, hc.appendFixup (hk _ hl) hle hok, List.prefix_rfl, hk,
      entry_concat, .fixup e w kind l.id, h⟩

/-- An unconditional branch; what stands behind it is not reached from here. -/
theorem b (hl : (l, x) ∈ Γ) (hle : D.le a x) (h : R () Γ c) :
    Certifies D p Γ a (Jit.b l : EmitM ε Unit) R :=
  emitBranch hl hle (fun _ _ _ _ => .inl ⟨rfl, rfl⟩) h

theorem bCond {cond : A64.Cond} (hl : (l, x) ∈ Γ) (hle : D.le a x) (h : R () Γ a) :
    Certifies D p Γ a (Jit.bCond cond l : EmitM ε Unit) R := by
  refine emitBranch hl hle (fun pt i h₁ h₂ => .inr ⟨.inl ⟨cond, rfl⟩, rfl, ?_⟩) h
  rw [h₁, h₂]
  exact D.le_refl a

theorem cbz64 {rt : Reg} (hl : (l, x) ∈ Γ) (hle : D.le a x) (h : R () Γ a) :
    Certifies D p Γ a (Jit.cbz64 rt l : EmitM ε Unit) R := by
  refine emitBranch hl hle (fun pt i h₁ h₂ => .inr ⟨.inr ⟨rt, rfl⟩, rfl, ?_⟩) h
  rw [h₁, h₂]
  exact D.le_refl a

end Certifies

end Quantum.Jit
