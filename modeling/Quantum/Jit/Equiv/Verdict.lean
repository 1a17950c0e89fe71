import Quantum.Jit.Equiv.BlockParts
import Quantum.Jit.Equiv.Lea
import Quantum.Jit.Equiv.TwoArms

/-!
# How a computation that emits code ends

A computation ends in a value, in an error or in a panic.  For the encoders, and for what is composed of
them, this does not depend on what has been emitted before, and neither does the number of words
(`Uniform`); so the way that they end from an empty emitter says how they end from any (`verdict`).  It is
composed as the computation is (`verdict_bind_ok`).

A load or store through a guest address panics when the profile checks debug assertions and the
displacement that is left does not fit (`tryAccess`); most other code always ends in a value (`Passes`).
-/

namespace Quantum.Jit

open A64 (Word Reg)
open EmitM

variable {ε ε' α β : Type} {p : Profile}

/-! ### Outcomes -/

/-- How a computation stops without a value. -/
inductive Stop where
  | err | panic
  deriving Repr, DecidableEq

def Fault.stop : Fault ε → Stop
  | .err _ => .err
  | .panic _ => .panic

/-- The emitter `e'` is `e` with `n` more words, and labels of their own. -/
structure Emitter.Follows (e e' : Emitter) (n : Nat) : Prop where
  length : e'.code.length = e.code.length + n
  labels : e.labels <+: e'.labels

theorem Emitter.Follows.refl (e : Emitter) : e.Follows e 0 :=
  ⟨rfl, List.prefix_rfl⟩

theorem Emitter.Follows.trans {e₁ e₂ e₃ : Emitter} {n k : Nat} (h : e₁.Follows e₂ n)
    (h' : e₂.Follows e₃ k) : e₁.Follows e₃ (n + k) :=
  ⟨by rw [h'.length, h.length, Nat.add_assoc], h.labels.trans h'.labels⟩

/-- Whatever has been emitted before, the computation ends in the value and emits the number of words, or
it stops. -/
def Results (p : Profile) (m : EmitM ε α) : Except Stop (α × Nat) → Prop
  | .ok (a, n) => ∀ e, ∃ e', m p e = .ok (a, e') ∧ e.Follows e' n
  | .error s => ∀ e, ∃ x, m p e = .error x ∧ x.stop = s

/-- The outcome from an empty emitter. -/
def outcome (p : Profile) (m : EmitM ε α) : Except Stop (α × Nat) :=
  match m p .new with
  | .ok (a, e) => .ok (a, e.code.length)
  | .error x => .error x.stop

theorem Results.outcome_eq {m : EmitM ε α} {r : Except Stop (α × Nat)} (h : Results p m r) :
    outcome p m = r := by
  unfold outcome
  match r, h with
  | .ok (a, n), h =>
    obtain ⟨e', hm, hf⟩ := h .new
    rw [hm]
    dsimp only
    rw [hf.length]
    exact congrArg (fun k => Except.ok (a, k)) (Nat.zero_add n)
  | .error s, h =>
    obtain ⟨x, hm, rfl⟩ := h .new
    rw [hm]

/-- A computation whose outcome does not depend on what has been emitted before. -/
class Uniform (m : EmitM ε α) : Prop where
  results : ∀ p, ∃ r, Results p m r

theorem results_outcome (p : Profile) (m : EmitM ε α) [h : Uniform m] : Results p m (outcome p m) := by
  obtain ⟨r, hr⟩ := h.results p
  rwa [hr.outcome_eq]

/-- The value, or how the computation stops. -/
def verdict (p : Profile) (m : EmitM ε α) : Except Stop α :=
  (outcome p m).map Prod.fst

theorem Results.verdict_eq {m : EmitM ε α} {r : Except Stop (α × Nat)} (h : Results p m r) :
    verdict p m = r.map Prod.fst := by
  unfold verdict
  rw [h.outcome_eq]

theorem ok_of_verdict {m : EmitM ε α} [Uniform m] {a : α} (h : verdict p m = .ok a) (e : Emitter) :
    ∃ e' n, m p e = .ok (a, e') ∧ e.Follows e' n ∧ outcome p m = .ok (a, n) := by
  have hends := results_outcome p m
  unfold verdict at h
  match houtcome : outcome p m with
  | .ok (a', n) =>
    rw [houtcome] at h hends
    obtain rfl : a' = a := Except.ok.inj h
    obtain ⟨e', hm, hf⟩ := hends e
    exact ⟨e', n, hm, hf, rfl⟩
  | .error s =>
    rw [houtcome] at h
    cases h

theorem error_of_verdict {m : EmitM ε α} [Uniform m] {s : Stop} (h : verdict p m = .error s)
    (e : Emitter) : ∃ x, m p e = .error x ∧ x.stop = s := by
  have hends := results_outcome p m
  unfold verdict at h
  match houtcome : outcome p m with
  | .ok (a', n) =>
    rw [houtcome] at h
    cases h
  | .error s' =>
    rw [houtcome] at h hends
    obtain rfl : s' = s := Except.error.inj h
    exact hends e

theorem verdict_ok {m : EmitM ε α} {a : α} {e : Emitter} (h : m p .new = .ok (a, e)) :
    verdict p m = .ok a := by
  unfold verdict outcome
  rw [h]
  rfl

theorem verdict_error {m : EmitM ε α} {x : Fault ε} (h : m p .new = .error x) :
    verdict p m = .error x.stop := by
  unfold verdict outcome
  rw [h]
  rfl

theorem Yields.imp {m : EmitM ε α} {Q R : α → Prop} (h : Yields p m Q) (hQR : ∀ a, Q a → R a) :
    Yields p m R := by
  intro e
  obtain ⟨a, e', hm, hQ⟩ := h e
  exact ⟨a, e', hm, hQR a hQ⟩

theorem verdict_eq_of_yields {m : EmitM ε α} {a : α} (h : Yields p m fun v => v = a) :
    verdict p m = .ok a := by
  obtain ⟨v, e', hm, rfl⟩ := h .new
  exact verdict_ok hm

/-! ### Composition -/

theorem bind_of_error {m : EmitM ε α} {f : α → EmitM ε β} {e : Emitter} {x : Fault ε}
    (h : m p e = .error x) : (m >>= f) p e = .error x := by
  simp only [bind, h]

theorem Results.bind_ok {m : EmitM ε α} {f : α → EmitM ε β} {a : α} {n : Nat}
    {r : Except Stop (β × Nat)} (hm : Results p m (.ok (a, n))) (hf : Results p (f a) r) :
    Results p (m >>= f) (r.map fun q => (q.1, n + q.2)) := by
  match r, hf with
  | .ok (b, k), hf =>
    intro e
    obtain ⟨e₁, h₁, hfol₁⟩ := hm e
    obtain ⟨e₂, h₂, hfol₂⟩ := hf e₁
    exact ⟨e₂, (bind_of_ok h₁).trans h₂, hfol₁.trans hfol₂⟩
  | .error s, hf =>
    intro e
    obtain ⟨e₁, h₁, -⟩ := hm e
    obtain ⟨x, h₂, hx⟩ := hf e₁
    exact ⟨x, (bind_of_ok h₁).trans h₂, hx⟩

theorem Results.bind_error {m : EmitM ε α} {f : α → EmitM ε β} {s : Stop} (hm : Results p m (.error s)) :
    Results p (m >>= f) (.error s) := by
  intro e
  obtain ⟨x, h, hx⟩ := hm e
  exact ⟨x, bind_of_error h, hx⟩

namespace Uniform

instance bind (m : EmitM ε α) (f : α → EmitM ε β) [Uniform m] [h : ∀ a, Uniform (f a)] :
    Uniform (m >>= f) := by
  refine ⟨fun p => ?_⟩
  have hm := results_outcome p m
  match houtcome : outcome p m with
  | .ok (a, n) =>
    rw [houtcome] at hm
    obtain ⟨r, hr⟩ := (h a).results p
    exact ⟨_, hm.bind_ok hr⟩
  | .error s =>
    rw [houtcome] at hm
    exact ⟨_, hm.bind_error⟩

instance pure (a : α) : Uniform (Pure.pure a : EmitM ε α) :=
  ⟨fun _ => ⟨.ok (a, 0), fun e => ⟨e, rfl, .refl e⟩⟩⟩

instance fail (x : ε) : Uniform (EmitM.fail x : EmitM ε α) :=
  ⟨fun _ => ⟨.error .err, fun _ => ⟨_, rfl, rfl⟩⟩⟩

instance panic (msg : String) : Uniform (EmitM.panic msg : EmitM ε α) :=
  ⟨fun _ => ⟨.error .panic, fun _ => ⟨_, rfl, rfl⟩⟩⟩

instance okOr (o : Option α) (x : ε) : Uniform (EmitM.okOr o x) := by
  cases o with
  | none => exact fail x
  | some a => exact pure a

instance debugAssert (c : Prop) [Decidable c] (msg : String) :
    Uniform (EmitM.debugAssert c msg : EmitM ε Unit) := by
  refine ⟨fun p => ?_⟩
  by_cases hc : p.debugAssertions = true ∧ ¬ c
  · exact ⟨.error .panic, fun e => ⟨_, if_pos hc, rfl⟩⟩
  · exact ⟨.ok ((), 0), fun e => ⟨e, if_neg hc, .refl e⟩⟩

instance push (w : Word) : Uniform (EmitM.push w : EmitM ε Unit) :=
  ⟨fun _ => ⟨.ok ((), 1), fun e => ⟨_, rfl, by simp, List.prefix_rfl⟩⟩⟩

instance rawWord (w : Word) : Uniform (EmitM.rawWord w : EmitM ε Unit) :=
  push w

instance mapErr (g : ε → ε') (m : EmitM ε α) [Uniform m] : Uniform (EmitM.mapErr g m) := by
  refine ⟨fun p => ⟨outcome p m, ?_⟩⟩
  have hm := results_outcome p m
  match houtcome : outcome p m with
  | .ok (a, n) =>
    rw [houtcome] at hm
    intro e
    obtain ⟨e', h, hf⟩ := hm e
    exact ⟨e', by simp only [EmitM.mapErr, h], hf⟩
  | .error s =>
    rw [houtcome] at hm
    intro e
    obtain ⟨x, h, hx⟩ := hm e
    cases x with
    | err x => exact ⟨.err (g x), by simp only [EmitM.mapErr, h], hx⟩
    | panic msg => exact ⟨.panic msg, by simp only [EmitM.mapErr, h], hx⟩

instance ite (c : Prop) [Decidable c] (m m' : EmitM ε α) [h : Uniform m] [h' : Uniform m'] :
    Uniform (if c then m else m') := by
  split
  · exact h
  · exact h'

end Uniform

theorem verdict_bind_ok {m : EmitM ε α} {f : α → EmitM ε β} {a : α} [Uniform m] [hf : Uniform (f a)]
    (h : verdict p m = .ok a) : verdict p (m >>= f) = verdict p (f a) := by
  obtain ⟨e₁, n, h₁, -, -⟩ := ok_of_verdict h .new
  match hv : verdict p (f a) with
  | .ok b =>
    obtain ⟨e₂, -, h₂, -⟩ := ok_of_verdict hv e₁
    exact verdict_ok ((bind_of_ok h₁).trans h₂)
  | .error s =>
    obtain ⟨x, h₂, rfl⟩ := error_of_verdict hv e₁
    exact verdict_error ((bind_of_ok h₁).trans h₂)

theorem verdict_bind_error {m : EmitM ε α} {f : α → EmitM ε β} {s : Stop} [Uniform m]
    (h : verdict p m = .error s) : verdict p (m >>= f) = .error s := by
  obtain ⟨x, hx, rfl⟩ := error_of_verdict h .new
  exact verdict_error (bind_of_error hx)

@[simp]
theorem verdict_pure (a : α) : verdict p (pure a : EmitM ε α) = .ok a :=
  rfl

@[simp]
theorem verdict_fail (x : ε) : verdict p (EmitM.fail x : EmitM ε α) = .error .err :=
  rfl

@[simp]
theorem outcome_mapErr (g : ε → ε') (m : EmitM ε α) : outcome p (mapErr g m) = outcome p m := by
  unfold outcome mapErr
  match m p .new with
  | .ok (a, e) => rfl
  | .error (.err x) => rfl
  | .error (.panic msg) => rfl

theorem verdict_mapErr (g : ε → ε') (m : EmitM ε α) : verdict p (mapErr g m) = verdict p m := by
  unfold verdict
  rw [outcome_mapErr]

theorem verdict_debugAssert (c : Prop) [Decidable c] (msg : String) :
    verdict p (debugAssert c msg : EmitM ε Unit)
      = if p.debugAssertions = true ∧ ¬ c then .error .panic else .ok () := by
  split_ifs with h
  · exact verdict_error (m := debugAssert c msg) (if_pos h)
  · exact verdict_ok (m := debugAssert c msg) (if_neg h)

/-- A check that holds if debug assertions are compiled in. -/
theorem verdict_debugAssert_ok {c : Prop} [Decidable c] (h : p.debugAssertions = true → c)
    (msg : String) : verdict p (debugAssert c msg : EmitM ε Unit) = .ok () := by
  rw [verdict_debugAssert, if_neg fun hc => hc.2 (h hc.1)]

theorem verdict_debugAssert_panic {c : Prop} [Decidable c] (hp : p.debugAssertions = true)
    (h : ¬ c) (msg : String) :
    verdict p (debugAssert c msg : EmitM ε Unit) = .error .panic := by
  rw [verdict_debugAssert, if_pos ⟨hp, h⟩]

/-! ### Code that always ends in a value -/

/-- The computation always writes the same `n` words. -/
def Straight (p : Profile) (m : EmitM ε Unit) (n : Nat) : Prop :=
  ∃ ws, Writes p m ws ∧ ws.length = n

namespace Straight

theorem results {m : EmitM ε Unit} {n : Nat} (h : Straight p m n) : Results p m (.ok ((), n)) := by
  obtain ⟨ws, hm, rfl⟩ := h
  exact fun e => ⟨_, hm e, List.length_append, List.prefix_rfl⟩

theorem bind {m : EmitM ε Unit} {f : Unit → EmitM ε Unit} {n k : Nat} (hm : Straight p m n)
    (hf : Straight p (f ()) k) : Straight p (m >>= f) (n + k) := by
  obtain ⟨ws, h, rfl⟩ := hm
  obtain ⟨ws', h', rfl⟩ := hf
  exact ⟨ws ++ ws', h.seq h', List.length_append⟩

theorem pure : Straight p (Pure.pure () : EmitM ε Unit) 0 :=
  ⟨[], fun e => by rw [Emitter.append_nil]; rfl, rfl⟩

theorem push (w : Word) : Straight p (EmitM.push w : EmitM ε Unit) 1 :=
  ⟨[w], .push w, rfl⟩

/-- A check that holds, if the profile makes it. -/
theorem assert {c : Prop} [Decidable c] {msg : String} {f : Unit → EmitM ε Unit} {n : Nat}
    (h : p.debugAssertions = true → c) (hf : Straight p (f ()) n) : Straight p (debugAssert c msg >>= f) n := by
  obtain ⟨ws, hw, hn⟩ := hf
  refine ⟨ws, fun e => ?_, hn⟩
  have hassert : (debugAssert c msg : EmitM ε Unit) p e = .ok ((), e) := if_neg fun hc => hc.2 (h hc.1)
  exact (bind_of_ok hassert).trans (hw e)

end Straight

/-- The code is emitted in every profile. -/
class Passes (m : EmitM ε Unit) : Prop where
  straight : ∀ p, ∃ n, Straight p m n

namespace Passes

instance uniform (m : EmitM ε Unit) [h : Passes m] : Uniform m where
  results p := by
    obtain ⟨n, hn⟩ := h.straight p
    exact ⟨_, hn.results⟩

theorem verdict_eq (p : Profile) (m : EmitM ε Unit) [h : Passes m] : verdict p m = .ok () := by
  obtain ⟨n, ws, hm, -⟩ := h.straight p
  exact verdict_ok (hm .new)

/-- Words that are the same in every profile. -/
theorem of_writes {m : EmitM ε Unit} (h : ∀ p, ∃ ws, Writes p m ws) : Passes m where
  straight p := by
    obtain ⟨ws, hw⟩ := h p
    exact ⟨ws.length, ws, hw, rfl⟩

/-- The verdict on code that goes on after such code. -/
theorem verdict_bind {m : EmitM ε Unit} {f : Unit → EmitM ε β} [Passes m] [Uniform (f ())] :
    verdict p (m >>= f) = verdict p (f ()) :=
  verdict_bind_ok (Passes.verdict_eq p m)

instance bind (m : EmitM ε Unit) (f : Unit → EmitM ε Unit) [hm : Passes m] [h : ∀ u, Passes (f u)] :
    Passes (m >>= f) where
  straight p := by
    obtain ⟨n, hn⟩ := hm.straight p
    obtain ⟨k, hk⟩ := (h ()).straight p
    exact ⟨n + k, hn.bind hk⟩

instance pure (u : Unit) : Passes (Pure.pure u : EmitM ε Unit) where
  straight _ := ⟨0, .pure⟩

instance push (w : Word) : Passes (EmitM.push w : EmitM ε Unit) where
  straight _ := ⟨1, .push w⟩

instance rawWord (w : Word) : Passes (EmitM.rawWord w : EmitM ε Unit) :=
  push w

instance ite (c : Prop) [Decidable c] (m m' : EmitM ε Unit) [h : Passes m] [h' : Passes m'] :
    Passes (if c then m else m') := by
  split
  · exact h
  · exact h'

end Passes

/-! ### Code that never panics -/

/-- The code is emitted, or there is an error. -/
class Calm (m : EmitM ε α) : Prop extends Uniform m where
  ne_panic : ∀ p, verdict p m ≠ .error .panic

namespace Calm

theorem of_results {m : EmitM ε Unit} (h : ∀ p, ∃ k, Results p m (.ok ((), k))) : Calm m where
  results p := by
    obtain ⟨k, hk⟩ := h p
    exact ⟨_, hk⟩
  ne_panic p := by
    obtain ⟨k, hk⟩ := h p
    rw [hk.verdict_eq]
    exact nofun

instance of_passes (m : EmitM ε Unit) [Passes m] : Calm m where
  results := Uniform.results
  ne_panic p := by
    rw [Passes.verdict_eq p m]
    exact nofun

instance pure (a : α) : Calm (Pure.pure a : EmitM ε α) where
  ne_panic _ := nofun

instance fail (x : ε) : Calm (EmitM.fail x : EmitM ε α) where
  ne_panic _ := nofun

/-- Nothing comes after an error. -/
theorem fail_bind (x : ε) (f : α → EmitM ε β) : Calm (EmitM.fail x >>= f) where
  results _ := ⟨.error .err, fun _ => ⟨_, rfl, rfl⟩⟩
  ne_panic _ := nofun

instance okOr (o : Option α) (x : ε) : Calm (EmitM.okOr o x) := by
  cases o with
  | none => exact fail x
  | some a => exact pure a

instance bind (m : EmitM ε α) (f : α → EmitM ε β) [hm : Calm m] [h : ∀ a, Calm (f a)] :
    Calm (m >>= f) where
  ne_panic p := by
    match hv : verdict p m with
    | .ok a =>
      rw [verdict_bind_ok hv]
      exact (h a).ne_panic p
    | .error s =>
      rw [verdict_bind_error hv]
      intro hs
      cases hs
      exact hm.ne_panic p hv

instance pure_bind (a : α) (f : α → EmitM ε β) [h : Calm (f a)] : Calm (Pure.pure a >>= f) :=
  h

instance mapErr (g : ε → ε') (m : EmitM ε α) [h : Calm m] : Calm (EmitM.mapErr g m) where
  ne_panic p := by
    rw [verdict_mapErr]
    exact h.ne_panic p

instance ite (c : Prop) [Decidable c] (m m' : EmitM ε α) [h : Calm m] [h' : Calm m'] :
    Calm (if c then m else m') := by
  split
  · exact h
  · exact h'

end Calm

/-! ### Encoders of integer instructions -/

section Encoders

variable (rd rn rm ra rt : Reg)

instance (imm : BitVec 16) (lsl : Nat) : Uniform (movz64 rd imm lsl : EmitM ε Unit) :=
  .bind _ _
instance (imm : BitVec 16) (lsl : Nat) : Uniform (movk64 rd imm lsl : EmitM ε Unit) :=
  .bind _ _

/-- A lane that the width has. -/
theorem passes_movw (sf : Sf) (opc : BitVec 2) {hw : Nat} (h : hw < if sf = .x then 4 else 2)
    (imm : BitVec 16) : Passes (movw sf opc hw imm rd : EmitM ε Unit) where
  straight _ := ⟨1, .assert (fun _ => h) (.push _)⟩

instance (imm : BitVec 16) : Passes (movz64 rd imm 0 : EmitM ε Unit) :=
  passes_movw rd .x 2 (by decide) imm

instance (imm : BitVec 16) : Passes (movk64 rd imm 0 : EmitM ε Unit) :=
  passes_movw rd .x 3 (by decide) imm

instance (imm : BitVec 16) : Passes (movz32 rd imm 0 : EmitM ε Unit) :=
  passes_movw rd .w 2 (by decide) imm

instance (imm : BitVec 16) : Passes (movk32 rd imm 16 : EmitM ε Unit) :=
  passes_movw rd .w 3 (by decide) imm

instance (value : BitVec 64) : Passes (loadConst64 rd value : EmitM ε Unit) :=
  .of_writes fun _ => (writes_loadConst64 rd value).imp fun _ h => h.2

instance (op s : BitVec 1) (imm : BitVec 32) :
    Uniform (addsub64Imm op s rd rn imm : EmitM ε Unit) := by
  unfold addsub64Imm
  split
  · exact .bind _ _
  · infer_instance

instance (imm : BitVec 32) : Uniform (add64Imm rd rn imm : EmitM ε Unit) :=
  inferInstanceAs (Uniform (addsub64Imm 0 0 rd rn imm))
instance (imm : BitVec 32) : Uniform (adds64Imm rd rn imm : EmitM ε Unit) :=
  inferInstanceAs (Uniform (addsub64Imm 0 1 rd rn imm))
instance (imm : BitVec 32) : Uniform (sub64Imm rd rn imm : EmitM ε Unit) :=
  inferInstanceAs (Uniform (addsub64Imm 1 0 rd rn imm))
instance (imm : BitVec 32) : Uniform (subs64Imm rd rn imm : EmitM ε Unit) :=
  inferInstanceAs (Uniform (addsub64Imm 1 1 rd rn imm))
instance (imm : BitVec 32) : Uniform (cmp64Imm rn imm : EmitM ε Unit) :=
  inferInstanceAs (Uniform (addsub64Imm 1 1 31 rn imm))

/-- An add/subtract immediate that has an encoding is one word. -/
theorem straight_addsub64Imm (op s : BitVec 1) {imm : BitVec 32} (h : imm12Encodable imm = true) :
    Straight p (addsub64Imm op s rd rn imm : EmitM ε Unit) 1 := by
  rw [imm12Encodable_eq] at h
  obtain ⟨⟨shift, imm12⟩, henc⟩ := Option.isSome_iff_exists.mp h
  unfold addsub64Imm
  rw [henc]
  exact .assert (fun _ => (encodeAddsubImm_spec henc).1) (.push _)

/-- It panics exactly when it has no encoding. -/
theorem verdict_addsub64Imm (op s : BitVec 1) (imm : BitVec 32) :
    verdict p (addsub64Imm op s rd rn imm : EmitM ε Unit)
      = if imm12Encodable imm then .ok () else .error .panic := by
  split_ifs with h
  · obtain ⟨ws, hm, -⟩ := straight_addsub64Imm (ε := ε) (p := p) rd rn op s h
    exact verdict_ok (hm .new)
  · rw [imm12Encodable_eq, Bool.not_eq_true, Option.isSome_eq_false_iff, Option.isNone_iff_eq_none] at h
    unfold addsub64Imm
    rw [h]
    rfl

/-- An immediate that has an encoding. -/
class Encodable (imm : BitVec 32) : Prop where
  encodable : imm12Encodable imm = true

instance : Encodable 0 := ⟨by decide⟩
instance : Encodable 1 := ⟨by decide⟩
instance : Encodable 8 := ⟨by decide⟩

theorem passes_addsub64Imm (op s : BitVec 1) (imm : BitVec 32) [h : Encodable imm] :
    Passes (addsub64Imm op s rd rn imm : EmitM ε Unit) where
  straight _ := ⟨1, straight_addsub64Imm rd rn op s h.encodable⟩

section Immediates

variable (imm : BitVec 32) [Encodable imm]

instance : Passes (add64Imm rd rn imm : EmitM ε Unit) := passes_addsub64Imm rd rn 0 0 imm
instance : Passes (adds64Imm rd rn imm : EmitM ε Unit) := passes_addsub64Imm rd rn 0 1 imm
instance : Passes (sub64Imm rd rn imm : EmitM ε Unit) := passes_addsub64Imm rd rn 1 0 imm
instance : Passes (subs64Imm rd rn imm : EmitM ε Unit) := passes_addsub64Imm rd rn 1 1 imm
instance : Passes (cmp64Imm rn imm : EmitM ε Unit) := passes_addsub64Imm 31 rn 1 1 imm

end Immediates

instance : Passes (add64 rd rn rm : EmitM ε Unit) := .push _
instance : Passes (adds64 rd rn rm : EmitM ε Unit) := .push _
instance : Passes (sub64 rd rn rm : EmitM ε Unit) := .push _
instance : Passes (subs64 rd rn rm : EmitM ε Unit) := .push _
instance : Passes (cmp64 rn rm : EmitM ε Unit) := .push _
instance : Passes (and64 rd rn rm : EmitM ε Unit) := .push _
instance : Passes (orr64 rd rn rm : EmitM ε Unit) := .push _
instance : Passes (eor64 rd rn rm : EmitM ε Unit) := .push _
instance : Passes (ands64 rd rn rm : EmitM ε Unit) := .push _
instance : Passes (mov64 rd rm : EmitM ε Unit) := .push _
instance : Passes (udiv64 rd rn rm : EmitM ε Unit) := .push _
instance : Passes (sdiv64 rd rn rm : EmitM ε Unit) := .push _
instance : Passes (lslv64 rd rn rm : EmitM ε Unit) := .push _
instance : Passes (lsrv64 rd rn rm : EmitM ε Unit) := .push _
instance : Passes (asrv64 rd rn rm : EmitM ε Unit) := .push _
instance : Passes (rorv64 rd rn rm : EmitM ε Unit) := .push _
instance : Passes (mul64 rd rn rm : EmitM ε Unit) := .push _
instance : Passes (msub64 rd rn rm ra : EmitM ε Unit) := .push _
instance : Passes (umulh64 rd rn rm : EmitM ε Unit) := .push _
instance : Passes (smulh64 rd rn rm : EmitM ε Unit) := .push _
instance (c : A64.Cond) : Passes (csel64 rd rn rm c : EmitM ε Unit) := .push _
instance (c : A64.Cond) : Passes (cset64 rd c : EmitM ε Unit) := .push _
instance : Passes (blr rn : EmitM ε Unit) := .push _
instance : Passes (ret : EmitM ε Unit) := .push _
instance : Passes (nop : EmitM ε Unit) := .push _
instance (imm : BitVec 16) : Passes (brk imm : EmitM ε Unit) := .push _
instance : Passes (revX rd rn : EmitM ε Unit) := .push _
instance : Passes (revW rd rn : EmitM ε Unit) := .push _
instance : Passes (emitAndImmByte rd rn) := .push _
instance : Passes (emitAndImmWord rd rn) := .push _
instance : Passes (emitAndImmLo32 rd rn) := .push _
instance : Passes (emitSxtByte rd rn) := .push _
instance : Passes (emitSxtWord rd rn) := .push _
instance : Passes (emitSxtw rd rn) := .push _
instance (shift : BitVec 6) : Passes (emitAddLsl64 rd rn rm shift) := .push _
instance (shift : BitVec 6) : Passes (emitOrrLsl64 rd rn rm shift) := .push _
instance (immr imms : BitVec 6) : Passes (emitUbfm64 rd rn immr imms) := .push _
instance : Passes (emitUxtw rd rn) := .push _

instance (size : OpSize) : Passes (maskB4 size rd) := by
  unfold maskB4
  infer_instance

/-- A pair at an offset that can be encoded. -/
theorem passes_ldstp64 (load : BitVec 1) (idxMode : BitVec 3) {imm : Int} (rt2 : Reg)
    (h : imm % 8 = 0 ∧ -64 ≤ imm.tdiv 8 ∧ imm.tdiv 8 < 64) :
    Passes (ldstp64 load idxMode imm rt2 rn rt : EmitM ε Unit) where
  straight _ := ⟨1, .assert (fun _ => h.1) (.assert (fun _ => h.2) (.push _))⟩

instance (rt2 : Reg) : Passes (stp64Pre rt rt2 rn (-16) : EmitM ε Unit) :=
  passes_ldstp64 rn rt 0 3 rt2 (by decide)

instance (rt2 : Reg) : Passes (ldp64Post rt rt2 rn 16 : EmitM ε Unit) :=
  passes_ldstp64 rn rt 1 1 rt2 (by decide)

end Encoders

/-! ### Loads and stores -/

/-- What a load or store of `n` bytes at an offset ends in. -/
def tryAccess (p : Profile) (n : Nat) (offset : BitVec 32) : Except Stop Unit :=
  if p.debugAssertions = true ∧ ¬ Fits n offset then .error .panic else .ok ()

theorem fits_of_tryAccess {n : Nat} {offset : BitVec 32} (h : tryAccess p n offset = .ok ())
    (hp : p.debugAssertions = true) : Fits n offset := by
  by_contra hc
  rw [tryAccess, if_pos ⟨hp, hc⟩] at h
  cases h

theorem tryAccess_eq_panic_iff {n : Nat} {offset : BitVec 32} :
    tryAccess p n offset = .error .panic ↔ p.debugAssertions = true ∧ ¬ Fits n offset := by
  unfold tryAccess
  split_ifs with h
  · exact iff_of_true rfl h
  · exact iff_of_false nofun h

section Accesses

variable {n : Nat} {size opc : BitVec 2} {v : BitVec 1} {offset : BitVec 32} {rn rt : Reg}

instance (imm12 : BitVec 32) : Uniform (ldstUoff size v opc imm12 rn rt : EmitM ε Unit) :=
  .bind _ _

instance : Uniform (ldstScaled n size v opc offset rn rt : EmitM ε Unit) :=
  .bind _ _

theorem verdict_ldstScaled (hn : n < 2 ^ 32) :
    verdict p (ldstScaled n size v opc offset rn rt : EmitM ε Unit) = tryAccess p n offset := by
  have hdiv : (offset / BitVec.ofNat 32 n).toNat = offset.toNat / n := by
    rw [BitVec.toNat_udiv, BitVec.toNat_ofNat, Nat.mod_eq_of_lt hn]
  unfold ldstScaled ldstUoff
  by_cases h : p.debugAssertions = true ∧ ¬ Fits n offset
  · rw [tryAccess, if_pos h]
    by_cases hmod : offset.toNat % n = 0
    · -- the offset is too large
      have hlt : ¬ (offset / BitVec.ofNat 32 n).toNat < 2 ^ 12 := by
        rw [hdiv]
        exact fun hlt => h.2 ⟨hmod, hlt⟩
      rw [verdict_bind_ok (verdict_debugAssert_ok (fun _ => hmod) _),
        verdict_bind_error (verdict_debugAssert_panic h.1 hlt _)]
    · rw [verdict_bind_error (verdict_debugAssert_panic h.1 hmod _)]
  · have hfit : p.debugAssertions = true → Fits n offset := fun hp => by
      by_contra hc
      exact h ⟨hp, hc⟩
    rw [tryAccess, if_neg h, verdict_bind_ok (verdict_debugAssert_ok (fun hp => (hfit hp).1) _),
      verdict_bind_ok (verdict_debugAssert_ok (fun hp => ?_) _)]
    · rfl
    · rw [hdiv]
      exact (hfit hp).2

/-- A load or store at an offset that fits, or that is not checked, is one word. -/
theorem straight_access {a : Access} (h : p.debugAssertions = true → Fits a.bytes offset) :
    Straight p (a.emit rt rn offset : EmitM ε Unit) 1 := by
  have hdiv : (offset / BitVec.ofNat 32 a.bytes).toNat = offset.toNat / a.bytes := by
    rw [BitVec.toNat_udiv, BitVec.toNat_ofNat, Nat.mod_eq_of_lt a.bytes_lt]
  rw [a.emit_eq]
  refine .assert (fun hp => (h hp).1) (.assert (fun hp => ?_) (.push _))
  rw [hdiv]
  exact (h hp).2

/-- What a load or store ends in. -/
theorem verdict_access (a : Access) (rt rn : Reg) (offset : BitVec 32) :
    verdict p (a.emit rt rn offset : EmitM ε Unit) = tryAccess p a.bytes offset := by
  rw [a.emit_eq]
  exact verdict_ldstScaled a.bytes_lt

end Accesses

/-- The computation is a load or store of `n` bytes at `offset`, or several of them, with code before and
after that always ends in a value; its own value is `a`. -/
class Accesses (m : EmitM ε α) (n : outParam Nat) (offset : outParam (BitVec 32)) (a : outParam α) : Prop
    extends Uniform m where
  verdict_eq : ∀ p, verdict p m = (tryAccess p n offset).map fun _ => a

namespace Accesses

variable {n : Nat} {offset : BitVec 32} {a : α} {b : β} {m : EmitM ε α} {f : α → EmitM ε β}

theorem verdict_ok (hm : Accesses m n offset a) (h : tryAccess p n offset = .ok ()) :
    verdict p m = .ok a := by
  rw [hm.verdict_eq, h]
  rfl

theorem results_error (hm : Accesses m n offset a) {s : Stop} (h : tryAccess p n offset = .error s) :
    Results p m (.error s) := by
  refine error_of_verdict ?_
  rw [hm.verdict_eq, h]
  rfl

theorem panics_iff (hm : Accesses m n offset a) :
    verdict p m = .error .panic ↔ p.debugAssertions = true ∧ ¬ Fits n offset := by
  rw [hm.verdict_eq, ← tryAccess_eq_panic_iff]
  match tryAccess p n offset with
  | .ok () => exact iff_of_false nofun nofun
  | .error s => exact ⟨fun h => congrArg _ (Except.error.inj h), fun h => congrArg _ (Except.error.inj h)⟩

theorem calm (hm : Accesses m n offset a) (h : Fits n offset) : Calm m where
  ne_panic _ hp := (hm.panics_iff.mp hp).2 h

theorem emit (x : Access) (rt rn : Reg) (offset : BitVec 32) :
    Accesses (x.emit rt rn offset : EmitM ε Unit) x.bytes offset () where
  results := by
    rw [x.emit_eq]
    exact Uniform.results
  verdict_eq p := by
    rw [verdict_access]
    unfold tryAccess
    split_ifs <;> rfl

/-- Code that ends in a value if the load or store did. -/
theorem bind (hm : Accesses m n offset a) [hu : ∀ a, Uniform (f a)]
    (hf : ∀ p, tryAccess p n offset = .ok () → verdict p (f a) = .ok b) :
    Accesses (m >>= f) n offset b where
  verdict_eq p := by
    have hv := hm.verdict_eq p
    match htry : tryAccess p n offset with
    | .ok () =>
      rw [htry] at hv
      rw [verdict_bind_ok hv, hf p htry]
      rfl
    | .error s =>
      rw [htry] at hv
      rw [verdict_bind_error hv]
      rfl

/-- Code before the load or store. -/
instance after {m : EmitM ε Unit} {f : Unit → EmitM ε β} [Passes m] [hf : ∀ u, Accesses (f u) n offset b] :
    Accesses (m >>= f) n offset b where
  verdict_eq p := Passes.verdict_bind.trans ((hf ()).verdict_eq p)

/-- Code after the load or store. -/
instance before {f : α → EmitM ε Unit} [hm : Accesses m n offset a] [∀ v, Passes (f v)] :
    Accesses (m >>= f) n offset () :=
  hm.bind fun _ _ => Passes.verdict_eq _ _

/-- The same access again. -/
instance again [hm : Accesses m n offset a] [∀ v, Uniform (f v)] [hf : Accesses (f a) n offset b] :
    Accesses (m >>= f) n offset b :=
  hm.bind fun _ ht => hf.verdict_ok ht

end Accesses

/-- The computation panics exactly when a load or store of `n` bytes at `offset` does. -/
class Tries (m : EmitM ε α) (n : outParam Nat) (offset : outParam (BitVec 32)) : Prop
    extends Uniform m where
  panics_iff : ∀ p, verdict p m = .error .panic ↔ p.debugAssertions = true ∧ ¬ Fits n offset

namespace Tries

variable {n : Nat} {offset : BitVec 32} {a : α} {m : EmitM ε α} {f : α → EmitM ε β}

instance of_accesses [h : Accesses m n offset a] : Tries m n offset where
  panics_iff _ := h.panics_iff

/-- Code after the load or store that may end in an error. -/
instance before [hm : Tries m n offset] [hf : ∀ v, Calm (f v)] : Tries (m >>= f) n offset where
  panics_iff p := by
    rw [← hm.panics_iff p]
    match hv : verdict p m with
    | .ok v =>
      rw [verdict_bind_ok hv]
      exact iff_of_false ((hf v).ne_panic p) nofun
    | .error s =>
      rw [verdict_bind_error hv]
      exact ⟨fun h => congrArg _ (Except.error.inj h), fun h => congrArg _ (Except.error.inj h)⟩

instance after {m : EmitM ε Unit} {f : Unit → EmitM ε β} [Passes m] [hf : ∀ u, Tries (f u) n offset] :
    Tries (m >>= f) n offset where
  panics_iff p := by
    rw [Passes.verdict_bind]
    exact (hf ()).panics_iff p

theorem calm (hm : Tries m n offset) (h : Fits n offset) : Calm m where
  ne_panic p hp := ((hm.panics_iff p).mp hp).2 h

end Tries

section Encoders

variable (rt rn : Reg) (offset : BitVec 32)

instance : Accesses (ldr64 rt rn offset : EmitM ε Unit) 8 offset () := .emit .ldr64 rt rn offset
instance : Accesses (ldr32 rt rn offset : EmitM ε Unit) 4 offset () := .emit .ldr32 rt rn offset
instance : Accesses (ldrh rt rn offset : EmitM ε Unit) 2 offset () := .emit .ldrh rt rn offset
instance : Accesses (ldrb rt rn offset : EmitM ε Unit) 1 offset () := .emit .ldrb rt rn offset
instance : Accesses (str64 rt rn offset : EmitM ε Unit) 8 offset () := .emit .str64 rt rn offset
instance : Accesses (str32 rt rn offset : EmitM ε Unit) 4 offset () := .emit .str32 rt rn offset
instance : Accesses (strh rt rn offset : EmitM ε Unit) 2 offset () := .emit .strh rt rn offset
instance : Accesses (strb rt rn offset : EmitM ε Unit) 1 offset () := .emit .strb rt rn offset
instance : Accesses (ldrQ rt rn offset : EmitM ε Unit) 16 offset () := .emit .ldrQ rt rn offset
instance : Accesses (strQ rt rn offset : EmitM ε Unit) 16 offset () := .emit .strQ rt rn offset
instance : Accesses (ldrD rt rn offset : EmitM ε Unit) 8 offset () := .emit .ldrD rt rn offset
instance : Accesses (strD rt rn offset : EmitM ε Unit) 8 offset () := .emit .strD rt rn offset
instance : Accesses (ldrS rt rn offset : EmitM ε Unit) 4 offset () := .emit .ldrS rt rn offset
instance : Accesses (strS rt rn offset : EmitM ε Unit) 4 offset () := .emit .strS rt rn offset

instance (size : OpSize) : Accesses (loadSized rt rn offset size) size.bytes offset () := by
  cases size with
  | b8 => exact .emit .ldr64 rt rn offset
  | b4 => exact .emit .ldr32 rt rn offset
  | b2 => exact .emit .ldrh rt rn offset
  | b1 => exact .emit .ldrb rt rn offset

instance (size : OpSize) : Accesses (storeSized rt rn offset size) size.bytes offset () := by
  cases size with
  | b8 => exact .emit .str64 rt rn offset
  | b4 => exact .emit .str32 rt rn offset
  | b2 => exact .emit .strh rt rn offset
  | b1 => exact .emit .strb rt rn offset

/-- An offset that fits, for accesses of `n` bytes. -/
class InReach (n : Nat) (offset : BitVec 32) : Prop where
  fits : Fits n offset

instance (size : OpSize) : InReach size.bytes 0 := ⟨fits_zero size⟩
instance : InReach 16 0 := ⟨by decide⟩
instance : InReach 8 0 := ⟨fits_zero .b8⟩
instance : InReach 4 0 := ⟨fits_zero .b4⟩
instance : InReach 2 0 := ⟨fits_zero .b2⟩
instance : InReach 1 0 := ⟨fits_zero .b1⟩

end Encoders

theorem passes_access (x : Access) {rt rn : Reg} {offset : BitVec 32} (h : Fits x.bytes offset) :
    Passes (x.emit rt rn offset : EmitM ε Unit) where
  straight _ := ⟨1, straight_access fun _ => h⟩

section Passes

variable (rt rn : Reg) (offset : BitVec 32)

instance [h : InReach 8 offset] : Passes (ldr64 rt rn offset : EmitM ε Unit) :=
  passes_access .ldr64 h.fits
instance [h : InReach 4 offset] : Passes (ldr32 rt rn offset : EmitM ε Unit) :=
  passes_access .ldr32 h.fits
instance [h : InReach 2 offset] : Passes (ldrh rt rn offset : EmitM ε Unit) :=
  passes_access .ldrh h.fits
instance [h : InReach 1 offset] : Passes (ldrb rt rn offset : EmitM ε Unit) :=
  passes_access .ldrb h.fits
instance [h : InReach 8 offset] : Passes (str64 rt rn offset : EmitM ε Unit) :=
  passes_access .str64 h.fits
instance [h : InReach 4 offset] : Passes (str32 rt rn offset : EmitM ε Unit) :=
  passes_access .str32 h.fits
instance [h : InReach 2 offset] : Passes (strh rt rn offset : EmitM ε Unit) :=
  passes_access .strh h.fits
instance [h : InReach 1 offset] : Passes (strb rt rn offset : EmitM ε Unit) :=
  passes_access .strb h.fits
instance [h : InReach 16 offset] : Passes (ldrQ rt rn offset : EmitM ε Unit) :=
  passes_access .ldrQ h.fits
instance [h : InReach 16 offset] : Passes (strQ rt rn offset : EmitM ε Unit) :=
  passes_access .strQ h.fits
instance [h : InReach 8 offset] : Passes (ldrD rt rn offset : EmitM ε Unit) :=
  passes_access .ldrD h.fits
instance [h : InReach 8 offset] : Passes (strD rt rn offset : EmitM ε Unit) :=
  passes_access .strD h.fits
instance [h : InReach 4 offset] : Passes (ldrS rt rn offset : EmitM ε Unit) :=
  passes_access .ldrS h.fits
instance [h : InReach 4 offset] : Passes (strS rt rn offset : EmitM ε Unit) :=
  passes_access .strS h.fits

instance (size : OpSize) [h : InReach size.bytes offset] : Passes (loadSized rt rn offset size) := by
  cases size with
  | b8 => exact passes_access .ldr64 h.fits
  | b4 => exact passes_access .ldr32 h.fits
  | b2 => exact passes_access .ldrh h.fits
  | b1 => exact passes_access .ldrb h.fits

instance (size : OpSize) [h : InReach size.bytes offset] : Passes (storeSized rt rn offset size) := by
  cases size with
  | b8 => exact passes_access .str64 h.fits
  | b4 => exact passes_access .str32 h.fits
  | b2 => exact passes_access .strh h.fits
  | b1 => exact passes_access .strb h.fits

end Passes

/-! ### Effective addresses -/

section Address

variable (xtmp : Reg)

instance (imm : BitVec 32) : Passes (add64ImmSafe xtmp xtmp imm) := by
  unfold add64ImmSafe
  split
  · rename_i h
    have : Encodable imm := ⟨h⟩
    infer_instance
  · infer_instance

instance (imm : BitVec 32) : Passes (sub64ImmSafe xtmp xtmp imm) := by
  unfold sub64ImmSafe
  split
  · rename_i h
    have : Encodable imm := ⟨h⟩
    infer_instance
  · infer_instance

instance (base : Option GpReg) : Passes (memBaseInto base xtmp) := by
  cases base <;> (unfold memBaseInto; infer_instance)

instance (seg : Option Seg) : Passes (memSegInto seg xtmp) := by
  cases seg <;> (unfold memSegInto; infer_instance)

instance (index : Option GpReg) (scale : Nat) : Passes (memIndexInto index scale xtmp) := by
  unfold memIndexInto
  split
  · split <;> infer_instance
  · infer_instance

instance (disp : BitVec 32) : Uniform (memDispInto disp xtmp) := by
  unfold memDispInto
  infer_instance

instance (m : Mem) : Uniform (memAddressInto m xtmp) := by
  unfold memAddressInto
  infer_instance

theorem verdict_memAddressInto (m : Mem) : verdict p (memAddressInto m xtmp) = .ok m.leftover :=
  verdict_eq_of_yields (yields_memAddressInto m xtmp)

variable (op : Operand) (inst : Inst)

instance : Calm (addrIntoXtmp op inst xtmp) := by
  unfold addrIntoXtmp
  cases op with
  | mem m =>
    refine ⟨fun p => ?_⟩
    rw [verdict_memAddressInto]
    exact nofun
  | ripRel disp size => infer_instance
  | reg | xmmReg | imm => infer_instance

instance (v : BitVec 64) (size : OpSize) (f : BitVec 32 → LiftM β) :
    Calm (addrIntoXtmp (.imm v size) inst xtmp >>= f) := .fail_bind _ f

instance (n : BitVec 8) (size : OpSize) (f : BitVec 32 → LiftM β) :
    Calm (addrIntoXtmp (.xmmReg n size) inst xtmp >>= f) := .fail_bind _ f

/-- The operand has an address. -/
class HasAddress (op : Operand) : Prop where
  isMem : op.isMem = true

instance (m : Mem) : HasAddress (.mem m) := ⟨rfl⟩
instance (disp : BitVec 32) (size : OpSize) : HasAddress (.ripRel disp size) := ⟨rfl⟩

theorem verdict_addrIntoXtmp [h : HasAddress op] :
    verdict p (addrIntoXtmp op inst xtmp) = .ok op.leftover := by
  cases op with
  | mem m => exact verdict_memAddressInto xtmp m
  | ripRel disp size => exact Passes.verdict_bind
  | reg | xmmReg | imm => cases h.isMem

/-- Code that comes to a load or store at the operand's address. -/
instance Accesses.address {n : Nat} {b : β} {f : BitVec 32 → LiftM β} [HasAddress op]
    [hf : ∀ l, Accesses (f l) n l b] : Accesses (addrIntoXtmp op inst xtmp >>= f) n op.leftover b where
  verdict_eq p := (verdict_bind_ok (verdict_addrIntoXtmp xtmp op inst)).trans
    ((hf op.leftover).verdict_eq p)

instance Tries.address {n : Nat} {f : BitVec 32 → LiftM β} [HasAddress op]
    [hf : ∀ l, Tries (f l) n l] : Tries (addrIntoXtmp op inst xtmp >>= f) n op.leftover where
  panics_iff p := by
    rw [verdict_bind_ok (verdict_addrIntoXtmp xtmp op inst)]
    exact (hf op.leftover).panics_iff p

instance (size : OpSize) : Uniform (loadOperand op inst size) := by
  unfold loadOperand
  infer_instance

instance (size : OpSize) [HasAddress op] :
    Accesses (loadOperand op inst size) size.bytes op.leftover op.leftover where
  results := Uniform.results
  verdict_eq p := by
    refine (verdict_bind_ok (verdict_addrIntoXtmp 16 op inst)).trans ?_
    have hload : Accesses (loadSized 17 16 op.leftover size) size.bytes op.leftover () := inferInstance
    exact (hload.bind fun _ _ => rfl).verdict_eq p

end Address

end Quantum.Jit
